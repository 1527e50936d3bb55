import Locksmith.Chunk.Seal
import Locksmith.Chunk.Compression
import Locksmith.Database.Checkpoint
import Locksmith.Log.Format
import Locksmith.Trace

namespace Locksmith

structure Config where
  /-- How deep indirect locks and evaluations may nest. -/
  maxDepth : Int64
  /-- Where chunks are kept: `memory` or `sqlite`. -/
  backend : Bytes
  /-- The file that holds the chunk table. -/
  chunkPath : Bytes
  poolSize : Int64
  compression : Bytes
  sealKeyFile : Bytes
  checkpointPath : Bytes
  checkpointInterval : Duration
  logLevel : Bytes
  /-- How log records are written: `text` or `json`. -/
  logFormat : Bytes
  tracing : Bool
  traceFilters : List Bytes
deriving DecidableEq, Repr

inductive Config.Error where
  | maxDepth (n : Int64)
  | noChunkPath
  | backend (s : Bytes)
  | poolSize (n : Int64)
  | compression (s : Bytes)
  | negativeInterval
  | noCheckpointPath
  | level (e : Log.Level.Error)
  | format (s : Bytes)
deriving DecidableEq, Repr

def Config.Error.message : Config.Error → Bytes
  | maxDepth n => "vm.max_depth must be at least 1, got " ++ Decimal.ofInt n.toInt
  | noChunkPath => "chunk.path is required for the sqlite backend"
  | backend s => "chunk.backend must be memory or sqlite, got " ++ Quoted.text s
  | poolSize n => "chunk.pool_size must be at least 1, got " ++ Decimal.ofInt n.toInt
  | compression s => "chunk.compression: " ++ Compression.unknownName s
  | negativeInterval => "checkpoint.interval must not be negative"
  | noCheckpointPath => "checkpoint.path is required when checkpoint.interval is set"
  | level e => "log.level: " ++ e.message
  | format s => "log.format must be text or json, got " ++ Quoted.text s

namespace Config

def memory : Bytes := "memory"

def table : Bytes := "sqlite"

/-- The configuration unless said otherwise. -/
def standard : Config where
  maxDepth := Int64.ofNat defaultMaxDepth
  backend := memory
  chunkPath := []
  poolSize := 4
  compression := "none"
  sealKeyFile := []
  checkpointPath := []
  checkpointInterval := ⟨0⟩
  logLevel := "info"
  logFormat := "text"
  tracing := false
  traceFilters := []

/-- Checks the values of a configuration. -/
def validate (c : Config) : Except Error Unit := do
  if c.maxDepth < 1 then throw (.maxDepth c.maxDepth)
  if c.backend = table then
    if c.chunkPath.isEmpty then throw .noChunkPath
  else if c.backend ≠ memory then throw (.backend c.backend)
  if c.poolSize < 1 then throw (.poolSize c.poolSize)
  if (Compression.ofName? c.compression).isNone then throw (.compression c.compression)
  if c.checkpointInterval.nanos < 0 then throw .negativeInterval
  if 0 < c.checkpointInterval.nanos && c.checkpointPath.isEmpty then throw .noCheckpointPath
  let _ ← (Log.Level.parse c.logLevel).mapError .level
  if c.logFormat ≠ "text" && c.logFormat ≠ "json" then throw (.format c.logFormat)

def chunkCompression (c : Config) : Compression :=
  (Compression.ofName? c.compression).getD Compression.none

def logging (c : Config) : Log.Format where
  level := (Log.Level.parse c.logLevel).toOption.getD .info
  objects := c.logFormat = "json"

/-- What is traced; `always` traces also if the configuration does not ask for it. -/
def tracer (c : Config) (always : Bool) : Tracer :=
  if always || c.tracing then .ofFilters true c.traceFilters else .off

/-- The settings of a database whose messages someone takes. -/
def settings (c : Config) (always : Bool) : Database.Settings :=
  { Database.Settings.standard with
    maxDepth := c.maxDepth.toInt.toNat
    tracer := c.tracer always
    listening := true }

section
variable {m : Type → Type} [Monad m] (fs : FileAccess m)

/-- The master key for snapshots, if there is one. -/
def sealKey (c : Config) : m (Except Sealing.KeyError (Option Bytes)) := do
  if c.sealKeyFile.isEmpty then return .ok none
  return (Sealing.keyOf c.sealKeyFile (← fs.read c.sealKeyFile)).map some

/-- The checkpointer, if a path is given for it. -/
def checkpointer (c : Config) : m (Except Sealing.KeyError (Option Database.Checkpointer)) := do
  if c.checkpointPath.isEmpty then return .ok none
  return (← c.sealKey fs).map fun key =>
    some (.new c.checkpointPath c.checkpointInterval c.chunkCompression key)

end
end Config
end Locksmith
