import LoroGateway.Loro
import LoroGateway.Names

/-!
# Checkpoint records

`src/checkpoint.rs`.  A checkpoint holds a snapshot of the document and the raw
blobs of the history that were still waiting for a dependency.  Its record is
written once, to a stream of its own.

`buildCheckpointRecord` probes every blob of the history on its own copy of the
snapshot, keeps those that the copy leaves waiting, and then checks that the
snapshot and the kept blobs rebuild the document.
-/

namespace LoroGateway

open ByteCodec

structure CheckpointLimits where
  maxRecordBytes : Nat
  maxSnapshotBytes : Nat
  maxPendingUpdates : Nat
  maxPendingUpdateBytes : Nat
  maxPendingUpdatesBytes : Nat
  deriving DecidableEq, Repr

def CheckpointLimits.default : CheckpointLimits where
  maxRecordBytes := 128 * 1024 * 1024
  maxSnapshotBytes := 64 * 1024 * 1024
  maxPendingUpdates := 4096
  maxPendingUpdateBytes := 32 * 1024 * 1024
  maxPendingUpdatesBytes := 64 * 1024 * 1024

inductive CheckpointError
  | truncated
  | unsupportedVersion (version : UInt16)
  | invalid (reason : String)
  | checksumMismatch
  | digestMismatch
  | lengthOverflow
  | limitExceeded (resource : String) (actual limit : Nat)
  deriving DecidableEq, Repr

def CheckpointError.display : CheckpointError → String
  | .truncated => "checkpoint record is truncated"
  | .unsupportedVersion version => "unsupported checkpoint version " ++ version.toNat.repr
  | .invalid reason => "invalid checkpoint record: " ++ reason
  | .checksumMismatch => "checkpoint checksum mismatch"
  | .digestMismatch => "checkpoint digest mismatch"
  | .lengthOverflow => "checkpoint length overflow"
  | .limitExceeded resource actual limit =>
    resource ++ " exceeds limit: " ++ actual.repr ++ " > " ++ limit.repr

/-- The hash that ties a checkpoint or a manifest record to its room. -/
def roomHash [Hashing] (roomId : String) : ByteArr 32 := Hashing.sha256 (utf8 roomId)

namespace Checkpoint

def magic : Bytes := ascii "QLGC"
def version : UInt16 := 1
def fixedHeader : Nat := 4 + 2 + 2 + 8 + 32 + 8 + 8 + 8 + 8 + 4
def fixedSuffix : Nat := 32 + 4 + 8

def enforceLimit (resource : String) (actual limit : Nat) : Except CheckpointError Unit :=
  check (actual ≤ limit) (CheckpointError.limitExceeded resource actual limit)

def takeUntil (input : Bytes) (cursor length limit : Nat) : Except CheckpointError (Bytes × Nat) :=
  takeUntilAt CheckpointError.lengthOverflow CheckpointError.truncated input cursor length limit

def take (input : Bytes) (cursor length : Nat) : Except CheckpointError (Bytes × Nat) :=
  takeAt CheckpointError.lengthOverflow CheckpointError.truncated input cursor length

def readU16 (input : Bytes) (cursor : Nat) : Except CheckpointError (UInt16 × Nat) :=
  readU16At CheckpointError.lengthOverflow CheckpointError.truncated input cursor

def readU32 (input : Bytes) (cursor : Nat) : Except CheckpointError (UInt32 × Nat) :=
  readU32At CheckpointError.lengthOverflow CheckpointError.truncated input cursor

def readU64 (input : Bytes) (cursor : Nat) : Except CheckpointError (UInt64 × Nat) :=
  readU64At CheckpointError.lengthOverflow CheckpointError.truncated input cursor

/-- The bytes that `checkpoint_digest` hashes. -/
def digestInput (snapshot : Bytes) (pendingUpdates : List Bytes) : Bytes :=
  ascii "quorum-loro-checkpoint-v1" ++ [0] ++ be64 (lengthWord snapshot.length) ++ snapshot ++
    be64 (lengthWord pendingUpdates.length) ++
    pendingUpdates.flatMap fun update => be64 (lengthWord update.length) ++ update

def checkpointDigest [Hashing] (snapshot : Bytes) (pendingUpdates : List Bytes) : ByteArr 32 :=
  Hashing.sha256 (digestInput snapshot pendingUpdates)

end Checkpoint

structure CheckpointRecord where
  roomHash : ByteArr 32
  checkpointGeneration : UInt64
  sourceDeltaGeneration : UInt64
  sourceDeltaEndOffset : UInt64
  snapshot : Bytes
  pendingUpdates : List Bytes
  digest : ByteArr 32
  deriving DecidableEq

namespace CheckpointRecord

open Checkpoint

variable [Hashing]

def new (roomId : String) (checkpointGeneration sourceDeltaGeneration sourceDeltaEndOffset : UInt64)
    (snapshot : Bytes) (pendingUpdates : List Bytes) : CheckpointRecord where
  roomHash := LoroGateway.roomHash roomId
  checkpointGeneration := checkpointGeneration
  sourceDeltaGeneration := sourceDeltaGeneration
  sourceDeltaEndOffset := sourceDeltaEndOffset
  snapshot := snapshot
  pendingUpdates := pendingUpdates
  digest := checkpointDigest snapshot pendingUpdates

def belongsToRoom (record : CheckpointRecord) (roomId : String) : Prop :=
  record.roomHash = LoroGateway.roomHash roomId

instance (record : CheckpointRecord) (roomId : String) : Decidable (record.belongsToRoom roomId) :=
  inferInstanceAs (Decidable (_ = _))

/-- The length table of the pending updates. -/
def encodeLengths (limits : CheckpointLimits) :
    List Bytes → Except CheckpointError (List UInt32)
  | [] => return []
  | update :: rest => do
    check (update ≠ []) (CheckpointError.invalid "pending update is empty")
    enforceLimit "individual pending update bytes" update.length limits.maxPendingUpdateBytes
    let length ← okOr (u32OfUsize update.length)
      (CheckpointError.invalid "pending update is too large")
    let lengths ← encodeLengths limits rest
    return length :: lengths

/-- The aggregate length of the pending updates, limited at every step. -/
def sumUpdates (limits : CheckpointLimits) : Nat → List Bytes → Except CheckpointError Nat
  | sum, [] => return sum
  | sum, update :: rest => do
    let next ← okOr (checkedAdd sum update.length) CheckpointError.lengthOverflow
    enforceLimit "aggregate pending update bytes" next limits.maxPendingUpdatesBytes
    sumUpdates limits next rest

/-- The length of a record, or `none` where a sum overflows. -/
def totalLength (tableLen snapshotLen updatesLen : Nat) : Option Nat := do
  let value ← checkedAdd fixedHeader tableLen
  let value ← checkedAdd value snapshotLen
  let value ← checkedAdd value updatesLen
  checkedAdd value fixedSuffix

def encodeWithLimits (record : CheckpointRecord) (limits : CheckpointLimits) :
    Except CheckpointError Bytes := do
  check (record.snapshot ≠ []) (CheckpointError.invalid "checkpoint snapshot is empty")
  enforceLimit "checkpoint snapshot bytes" record.snapshot.length limits.maxSnapshotBytes
  enforceLimit "pending update count" record.pendingUpdates.length limits.maxPendingUpdates
  let snapshotLen ← okOr (u64OfUsize record.snapshot.length) CheckpointError.lengthOverflow
  let pendingCount ← okOr (u32OfUsize record.pendingUpdates.length)
    (CheckpointError.invalid "too many pending updates")
  let lengths ← encodeLengths limits record.pendingUpdates
  let updatesLen ← sumUpdates limits 0 record.pendingUpdates
  let tableLen ← okOr (checkedMul lengths.length 4) CheckpointError.lengthOverflow
  let totalLen ← okOr (totalLength tableLen record.snapshot.length updatesLen)
    CheckpointError.lengthOverflow
  enforceLimit "checkpoint record bytes" totalLen limits.maxRecordBytes
  let totalLenU64 ← okOr (u64OfUsize totalLen) CheckpointError.lengthOverflow
  check (record.digest = checkpointDigest record.snapshot record.pendingUpdates)
    CheckpointError.digestMismatch
  let output := magic ++ be16 version ++ be16 0 ++ be64 totalLenU64 ++ record.roomHash.val ++
    be64 record.checkpointGeneration ++ be64 record.sourceDeltaGeneration ++
    be64 record.sourceDeltaEndOffset ++ be64 snapshotLen ++ be32 pendingCount ++
    lengths.flatMap be32 ++ record.snapshot ++ record.pendingUpdates.flatten ++ record.digest.val
  return output ++ be32 (Hashing.crc32 output) ++ be64 totalLenU64

def encode (record : CheckpointRecord) : Except CheckpointError Bytes :=
  record.encodeWithLimits .default

/-- The checks of one pending update length, and the sum after it. -/
def accumulateLength (limits : CheckpointLimits) (updatesLen length : Nat) :
    Except CheckpointError Nat := do
  check (length ≠ 0) (CheckpointError.invalid "pending update is empty")
  enforceLimit "individual pending update bytes" length limits.maxPendingUpdateBytes
  let updatesLen ← okOr (checkedAdd updatesLen length) CheckpointError.lengthOverflow
  enforceLimit "aggregate pending update bytes" updatesLen limits.maxPendingUpdatesBytes
  return updatesLen

/-- The table of pending update lengths, with the sum so far. -/
def readLengths (input : Bytes) (limits : CheckpointLimits) :
    Nat → Nat → Nat → Except CheckpointError (List Nat × Nat × Nat) :=
  readTable CheckpointError.lengthOverflow CheckpointError.truncated (accumulateLength limits) input

/-- The pending blobs, none of which may pass the start of the digest. -/
def readUpdates (input : Bytes) (digestStart : Nat) :
    List Nat → Nat → Except CheckpointError (List Bytes × Nat) :=
  takeEach CheckpointError.lengthOverflow CheckpointError.truncated input digestStart

def decodeExact (input : Bytes) (limits : CheckpointLimits) :
    Except CheckpointError CheckpointRecord := do
  check (fixedHeader + fixedSuffix ≤ input.length) CheckpointError.truncated
  check (input.take 4 = magic) (CheckpointError.invalid "bad checkpoint magic")
  let (found, cursor) ← readU16 input 4
  check (found = version) (CheckpointError.unsupportedVersion found)
  let (flags, cursor) ← readU16 input cursor
  check (flags = 0) (CheckpointError.invalid "unsupported checkpoint flags")
  let (total, cursor) ← readU64 input cursor
  let totalLen := total.toNat
  check (fixedHeader + fixedSuffix ≤ totalLen) CheckpointError.truncated
  enforceLimit "checkpoint record bytes" totalLen limits.maxRecordBytes
  check (totalLen ≤ input.length) CheckpointError.truncated
  check (input.length = totalLen) (CheckpointError.invalid "trailing bytes after checkpoint record")
  let trailerStart ← okOr (checkedSub totalLen 8) CheckpointError.lengthOverflow
  let (trailer, _) ← readU64 input trailerStart
  check (trailer = total) (CheckpointError.invalid "checkpoint length trailer mismatch")
  let crcStart ← okOr (checkedSub totalLen 12) CheckpointError.lengthOverflow
  let (expectedCrc, _) ← readU32 input crcStart
  check (Hashing.crc32 (input.take crcStart) = expectedCrc) CheckpointError.checksumMismatch
  let digestStart ← okOr (checkedSub crcStart 32) CheckpointError.truncated
  let (roomHashBytes, cursor) ← take input cursor 32
  let (checkpointGeneration, cursor) ← readU64 input cursor
  let (sourceDeltaGeneration, cursor) ← readU64 input cursor
  let (sourceDeltaEndOffset, cursor) ← readU64 input cursor
  let (snapshotWord, cursor) ← readU64 input cursor
  let snapshotLen := snapshotWord.toNat
  enforceLimit "checkpoint snapshot bytes" snapshotLen limits.maxSnapshotBytes
  check (snapshotLen ≠ 0) (CheckpointError.invalid "checkpoint snapshot is empty")
  let (countWord, cursor) ← readU32 input cursor
  let pendingCount := countWord.toNat
  enforceLimit "pending update count" pendingCount limits.maxPendingUpdates
  let (lengths, updatesLen, cursor) ← readLengths input limits pendingCount 0 cursor
  let expectedPayload ← okOr (checkedAdd snapshotLen updatesLen) CheckpointError.lengthOverflow
  let declaredPayload ← okOr (checkedSub digestStart cursor) CheckpointError.truncated
  check (declaredPayload = expectedPayload)
    (CheckpointError.invalid "checkpoint lengths do not consume payload")
  let (snapshot, cursor) ← takeUntil input cursor snapshotLen digestStart
  let (pendingUpdates, cursor) ← readUpdates input digestStart lengths cursor
  check (cursor = digestStart) (CheckpointError.invalid "checkpoint lengths do not consume payload")
  let (digestBytes, cursor) ← take input cursor 32
  let digest := ByteArr.ofBytes 32 digestBytes
  check (digest = checkpointDigest snapshot pendingUpdates) CheckpointError.digestMismatch
  check (cursor = crcStart) (CheckpointError.invalid "checkpoint digest is misplaced")
  return ⟨ByteArr.ofBytes 32 roomHashBytes, checkpointGeneration, sourceDeltaGeneration,
    sourceDeltaEndOffset, snapshot, pendingUpdates, digest⟩

end CheckpointRecord

/-! ## Building a checkpoint -/

inductive CheckpointBuildError
  | snapshotExport (message : String)
  | snapshotRestore (message : String)
  | historyImport (message : String)
  | validation (reason : String)
  deriving DecidableEq, Repr

def CheckpointBuildError.display : CheckpointBuildError → String
  | .snapshotExport message => "failed to export checkpoint snapshot: " ++ message
  | .snapshotRestore message => "failed to restore checkpoint snapshot: " ++ message
  | .historyImport message =>
    "failed to import historical update while building checkpoint: " ++ message
  | .validation reason => "checkpoint construction validation failed: " ++ reason

section Build

variable {Doc : Type} [Loro Doc]

/-- Probe one blob on a fresh copy of the snapshot: is it left waiting? -/
def probePending (Doc : Type) [Loro Doc] (snapshot update : Bytes) :
    Except CheckpointBuildError Bool := do
  let probe : Doc ← (Loro.fromSnapshot snapshot).mapError CheckpointBuildError.snapshotRestore
  let status ← (Loro.importBlob probe update).mapError CheckpointBuildError.historyImport
  return status.2

/-- The blobs of a history that the snapshot leaves waiting. -/
def pendingUpdatesOf (Doc : Type) [Loro Doc] (snapshot : Bytes) :
    List Bytes → Except CheckpointBuildError (List Bytes)
  | [] => return []
  | update :: rest => do
    let pending ← probePending Doc snapshot update
    let kept ← pendingUpdatesOf Doc snapshot rest
    return if pending then update :: kept else kept

/-- The document that a snapshot and a list of blobs rebuild. -/
def restoreAndImport (Doc : Type) [Loro Doc] (snapshot : Bytes) (updates : List Bytes) :
    Except CheckpointBuildError Doc := do
  let recovered : Doc ← (Loro.fromSnapshot snapshot).mapError CheckpointBuildError.snapshotRestore
  if updates = [] then
    return recovered
  else do
    let imported ← (Loro.importBatch recovered updates).mapError CheckpointBuildError.historyImport
    return imported.1

def buildCheckpointRecord [Hashing] (roomId : String)
    (checkpointGeneration sourceDeltaGeneration sourceDeltaEndOffset : UInt64) (doc : Doc)
    (history : List Bytes) : Except CheckpointBuildError CheckpointRecord := do
  let snapshot ← (Loro.exportSnapshot doc).mapError CheckpointBuildError.snapshotExport
  let pendingUpdates ← pendingUpdatesOf Doc snapshot history
  let recovered ← restoreAndImport Doc snapshot pendingUpdates
  check (Loro.getDeepValue recovered = Loro.getDeepValue doc ∧
      Loro.oplogVV recovered = Loro.oplogVV doc)
    (CheckpointBuildError.validation
      "snapshot plus retained updates does not reconstruct the live document")
  return CheckpointRecord.new roomId checkpointGeneration sourceDeltaGeneration
    sourceDeltaEndOffset snapshot pendingUpdates

end Build

end LoroGateway
