import Locksmith.Cbor.Value
import Locksmith.Conformance.Runner
import Locksmith.Files.Tree
import Locksmith.Main
import Locksmith.Proofs.Chunk.Packing
import Locksmith.Proofs.Chunk.Refinement
import Locksmith.Proofs.Database.AttributePrivacy
import Locksmith.Proofs.Database.CheckpointFiles
import Locksmith.Proofs.Database.ClassKinds
import Locksmith.Proofs.Database.Containment
import Locksmith.Proofs.Database.CopiedLocks
import Locksmith.Proofs.Database.FailedCheckpoints
import Locksmith.Proofs.Database.FailedLoading
import Locksmith.Proofs.Database.Interleaving
import Locksmith.Proofs.Database.LoadedLocks
import Locksmith.Proofs.Database.LockSource
import Locksmith.Proofs.Database.NameSearch
import Locksmith.Proofs.Database.Numbering
import Locksmith.Proofs.Database.QualifiedReferences
import Locksmith.Proofs.Database.SameLock
import Locksmith.Proofs.Database.SnapshotOverlay
import Locksmith.Proofs.Lock.LockNames
import Locksmith.Proofs.Lock.Offsets
import Locksmith.Proofs.Lock.Rendering
import Locksmith.Proofs.Lock.RoundTrip
import Locksmith.Proofs.Lock.Scanning
import Locksmith.Proofs.Machine.Balance
import Locksmith.Proofs.Machine.Classification
import Locksmith.Proofs.Machine.Compilation
import Locksmith.Proofs.Machine.DepthCap
import Locksmith.Proofs.Machine.EmittedCode
import Locksmith.Proofs.Machine.Settling
import Locksmith.Proofs.Machine.Warnings
