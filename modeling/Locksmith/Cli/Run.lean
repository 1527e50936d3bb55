import Locksmith.Cli.Command

namespace Locksmith
namespace Cli

open Database

/-- Something printed, on one of two channels. -/
inductive Output where
  | result (s : Bytes)
  | report (s : Bytes)
deriving DecidableEq, Repr

structure Outcome where
  outputs : List Output
  error : Option Error

def Outcome.results (o : Outcome) : Bytes :=
  (o.outputs.map fun
    | .result s => s
    | .report _ => []).flatten

def Outcome.reports (o : Outcome) : Bytes :=
  (o.outputs.map fun
    | .result _ => []
    | .report s => s).flatten

def printed (f : Log.Format) : Event → Output
  | .log r => .report (f.line r)
  | .trace line => .report line
  | .note d message => .result ("[" ++ d.render ++ "] " ++ message ++ "\n")

section
variable {m : Type → Type} [Monad m] (fs : FileAccess m)

def writeWhole (path content : Bytes) : m (Except FileError Unit) := do
  match ← fs.create path with
  | .error e => return .error e
  | .ok () =>
    match ← fs.append path content with
    | .error e => return .error e
    | .ok () => fs.close path

/-- Opens the chunk store; gives what is logged. -/
def openChunks (c : Config) : m (Except Chunk.Table.Error (Chunk.Store × List Event)) := do
  let compression := c.chunkCompression
  if c.backend ≠ Config.table then return .ok (.empty .memory compression, [])
  match Chunk.Table.kept c.chunkPath compression (← fs.read c.chunkPath) with
  | .error e => return .error e
  | .ok kept =>
    match Chunk.Table.openAt c.chunkPath c.poolSize.toInt compression kept with
    | .error e => return .error e
    | .ok (store, record) =>
      match ← writeWhole fs c.chunkPath (Chunk.Table.content store) with
      | .error e => return .error (.file e)
      | .ok () => return .ok (store, [.log record])

/-- Closes the chunk store; gives what is logged. -/
def closeChunks (c : Config) (s : Chunk.Store) : m (List Event) := do
  if c.backend ≠ Config.table then return []
  let _ ← writeWhole fs c.chunkPath (Chunk.Table.content s)
  return [.log (Chunk.Table.closed c.chunkPath)]

/-- Fills an open file with a snapshot of all locks; gives their number. -/
def fillSnapshot (c : Config) (key : Option Bytes) (path nonce : Bytes) (s : Store) :
    m (Except Error Nat) := do
  match s.writeSnapshot nonce c.chunkCompression key with
  | .error e => return .error (.taking e)
  | .ok (count, raw) =>
    match ← Checkpointer.inTurn
      [fs.append path (raw.take Snapshot.headerSize),
        fs.append path (raw.drop Snapshot.headerSize)] with
    | .error e => return .error (.writing e)
    | .ok () => return .ok count

/-- Writes a snapshot of all locks to a file; gives their number. The file is closed in any
case. -/
def writeSnapshot (c : Config) (path nonce : Bytes) (s : Store) : m (Except Error Nat) := do
  if path.isEmpty then return .error .noSnapshotPath
  match ← c.sealKey fs with
  | .error e => return .error (.key e)
  | .ok key =>
    match ← fs.create path with
    | .error e => return .error (.creating e)
    | .ok () =>
      let filled ← fillSnapshot fs c key path nonce s
      match filled, ← fs.close path with
      | .ok _, .error e => return .error (.closing e)
      | filled, _ => return filled

def snapshotOutputs (f : Log.Format) (path : Bytes) (count : Nat) : List Output :=
  [.report (f.line ⟨.info, "snapshot written",
      [("path", .text path), ("locks", .number count)]⟩),
    .result (Decimal.ofNat count ++ " locks written to " ++ path ++ "\n")]

/-- Carries out a command with an open chunk store. -/
def runCommand (c : Config) (o : Options) (nonce name source : Bytes) (chunks : Chunk.Store) :
    m (Outcome × Chunk.Store) := do
  let start : Session := ⟨.empty (c.settings o.trace) chunks, []⟩
  let (done, session) := (work o (← fs.read o.worldPath) name source).run start
  let outputs := session.journal.map (printed c.logging)
  match done with
  | .error e => return (⟨outputs, some e⟩, session.store.chunks)
  | .ok (.snapshot, _) =>
    match ← writeSnapshot fs c o.snapshot nonce session.store with
    | .error e => return (⟨outputs, some e⟩, session.store.chunks)
    | .ok count =>
      return (⟨outputs ++ snapshotOutputs c.logging o.snapshot count, none⟩,
        session.store.chunks)
  | .ok (_, text) => return (⟨outputs ++ [.result text], none⟩, session.store.chunks)

/-- Carries out a command under a configuration. -/
def runConfigured (c : Config) (o : Options) (nonce name source : Bytes) : m Outcome := do
  if o.worldPath.isEmpty then return ⟨[], some .noWorld⟩
  match ← openChunks fs c with
  | .error e => return ⟨[], some (.opening e)⟩
  | .ok (chunks, opening) =>
    let (outcome, chunks) ← runCommand fs c o nonce name source chunks
    let closing ← closeChunks fs c chunks
    let print := List.map (printed c.logging)
    return ⟨print opening ++ outcome.outputs ++ print closing, outcome.error⟩

def run (nonce : Bytes) (args : List Bytes) : m Outcome := do
  match Options.standard.read [] args with
  | .error .helpWanted => return ⟨[.report usage], some (.flags .helpWanted)⟩
  | .error e => return ⟨[], some (.flags e)⟩
  | .ok (_, []) => return ⟨[.report usage], some .noCommand⟩
  | .ok (o, name :: rest) =>
    let source := Bytes.join " " rest
    if o.configPath.isEmpty then runConfigured fs .standard o nonce name source
    else
      match Config.ofContent o.configPath (← fs.read o.configPath) with
      | .error p => return ⟨[], some (.config p)⟩
      | .ok c => runConfigured fs c o nonce name source

end
end Cli
end Locksmith
