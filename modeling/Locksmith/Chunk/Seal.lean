import Locksmith.Cipher.Aead
import Locksmith.Files.System
import Locksmith.Hash.Sha256
import Locksmith.Text.Blank
import Locksmith.Text.Decimal
import Locksmith.Text.Hex

namespace Locksmith
namespace Sealing

def keySize : Nat := 32

/-- The version in front of a sealed blob. -/
def version : UInt8 := 1

def overhead : Nat := 1 + Aead.nonceSize + Aead.tagSize

/-- Why data cannot be sealed or opened. -/
inductive Error where
  | keySize (n : Nat)
  | tooShort (n : Nat)
  | version (v : UInt8)
  | forged
deriving DecidableEq, Repr

def Error.message : Error → Bytes
  | keySize n =>
    "seal key is " ++ Decimal.ofNat n ++ " bytes, want " ++ Decimal.ofNat Sealing.keySize
  | tooShort n =>
    "sealed blob is " ++ Decimal.ofNat n ++ " bytes, minimum is " ++ Decimal.ofNat overhead
  | version v => "sealed blob version " ++ Decimal.ofNat v.toNat ++ " is not supported"
  | forged =>
    "opening sealed blob (wrong key or tampered data): " ++
      "chacha20poly1305: message authentication failed"

def deriveKey (master : Bytes) : Except Error Bytes :=
  if master.length = keySize then .ok (Sha256.deriveKey master "mushlock.snapshot.seal.v1")
  else .error (.keySize master.length)

/-- Encrypts data under a nonce that is used only once. -/
def wrap (nonce master header data : Bytes) : Except Error Bytes := do
  let key ← deriveKey master
  return version :: nonce ++ Aead.encrypt key nonce (version :: header) data

def unwrap (master header blob : Bytes) : Except Error Bytes := do
  if blob.length < overhead then throw (.tooShort blob.length)
  if blob.headD 0 ≠ version then throw (.version (blob.headD 0))
  let key ← deriveKey master
  let nonce := (blob.drop 1).take Aead.nonceSize
  match Aead.decrypt key nonce (version :: header) (blob.drop (1 + Aead.nonceSize)) with
  | some data => return data
  | none => throw .forged

inductive KeyError where
  | unreadable (e : FileError)
  | notHex (path : Bytes) (e : Hex.Error)
  | size (path : Bytes) (n : Nat)
deriving DecidableEq, Repr

def KeyError.message : KeyError → Bytes
  | unreadable e => "reading seal key: " ++ e.message
  | notHex path e => "decoding seal key " ++ path ++ ": " ++ e.message
  | size path n =>
    "seal key " ++ path ++ " is " ++ Decimal.ofNat n ++ " bytes, want " ++
      Decimal.ofNat Sealing.keySize

/-- The master key written in hexadecimal in the file at `path`. -/
def parseKey (path content : Bytes) : Except KeyError Bytes :=
  match Hex.decode content.trimBlanks with
  | .error e => .error (.notHex path e)
  | .ok key => if key.length = keySize then .ok key else .error (.size path key.length)

/-- The master key, given what reading its file gave. -/
def keyOf (path : Bytes) (content : Except FileError Bytes) : Except KeyError Bytes :=
  match content with
  | .error e => .error (.unreadable e)
  | .ok content => parseKey path content

end Sealing
end Locksmith
