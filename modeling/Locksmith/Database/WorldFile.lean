import Locksmith.Dbref
import Locksmith.Yaml.Decode

namespace Locksmith
namespace Database

/-- An attribute as it is written: a text alone, or a value with the names of flags. -/
structure AttributeSpec where
  value : Bytes
  flags : List Bytes
deriving DecidableEq, Repr

/-- A lock as it is written: its text alone, or with the names of flags and a creator. -/
structure LockSpec where
  source : Bytes
  flags : List Bytes
  creator : Option Dbref
deriving DecidableEq, Repr

structure ConnectionSpec where
  ip : Bytes
  host : Bytes
  idle : Duration
deriving DecidableEq, Repr

/-- An object as it is written. It owns itself and lies nowhere unless said otherwise. -/
structure ObjectSpec where
  id : Dbref
  name : Bytes
  type : Bytes
  owner : Option Dbref
  location : Option Dbref
  flags : List Bytes
  powers : List Bytes
  aliases : List Bytes
  created : Int64
  attributes : List (Bytes × AttributeSpec)
  locks : List (Bytes × LockSpec)
  connections : List ConnectionSpec
deriving DecidableEq, Repr

structure ChannelSpec where
  name : Bytes
  isPrivate : Bool
  members : List Dbref
deriving DecidableEq, Repr

structure WorldFile where
  objects : List ObjectSpec
  channels : List ChannelSpec
deriving DecidableEq, Repr

namespace WorldFile

open Yaml

def number : Decoder Dbref := fun n => return (← n.asInt64).map Dbref.mk

def texts : Decoder (List Bytes) := Node.asList Node.asText

def attributeSpec : Decoder AttributeSpec := fun n =>
  match n with
  | .scalar _ s => .ok (if n.isNull then none else some ⟨s, []⟩)
  | n => record (fun f => return ⟨← f.getD "value" Node.asText [], ← f.getD "flags" texts []⟩) n

def lockSpec : Decoder LockSpec := fun n =>
  match n with
  | .scalar _ s => .ok (if n.isNull then none else some ⟨s, [], none⟩)
  | n => record (fun f =>
      return ⟨← f.getD "source" Node.asText [], ← f.getD "flags" texts [],
        ← f.get? "creator" number⟩) n

def connectionSpec : Decoder ConnectionSpec := record fun f =>
  return ⟨← f.getD "ip" Node.asText [], ← f.getD "host" Node.asText [],
    ← f.getD "idle" Node.asDuration ⟨0⟩⟩

def objectSpec : Decoder ObjectSpec := record fun f => do
  let id ← f.getD "id" number ⟨0⟩
  let name ← f.getD "name" Node.asText []
  let type ← f.getD "type" Node.asText []
  let owner ← f.get? "owner" number
  let location ← f.get? "location" number
  let flags ← f.getD "flags" texts []
  let powers ← f.getD "powers" texts []
  let aliases ← f.getD "aliases" texts []
  let created ← f.getD "created" Node.asInt64 0
  let attributes ← f.getD "attributes" (Node.asMap attributeSpec ⟨[], []⟩) []
  let locks ← f.getD "locks" (Node.asMap lockSpec ⟨[], [], none⟩) []
  let connections ← f.getD "connections" (Node.asList connectionSpec) []
  return {
    id, name, type, owner, location, flags, powers, aliases, created, attributes, locks,
    connections }

def channelSpec : Decoder ChannelSpec := record fun f =>
  return ⟨← f.getD "name" Node.asText [], ← f.getD "private" Node.asBool false,
    ← f.getD "members" (Node.asList number) []⟩

def worldFile : Decoder WorldFile := record fun f =>
  return ⟨← f.getD "objects" (Node.asList objectSpec) [],
    ← f.getD "channels" (Node.asList channelSpec) []⟩

/-- Reads a world file. An empty document is an empty world. -/
def parse (source : Bytes) : Except Yaml.Error WorldFile := do
  let some n ← Yaml.parse source | return ⟨[], []⟩
  return (← worldFile n).getD ⟨[], []⟩

end WorldFile
end Database
end Locksmith
