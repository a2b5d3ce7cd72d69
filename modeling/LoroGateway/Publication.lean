import LoroGateway.ExactAppend
import LoroGateway.Manifest

/-!
# Writing checkpoints and manifest records

`src/checkpoint_store.rs` and `src/manifest_store.rs`.  A checkpoint goes to a
stream of its own, once: a stream that holds the same bytes already is accepted
and one that holds others is refused.  A manifest record goes to the end of the
manifest stream, after the stream has been read, decoded and checked with the
new record as its last.
-/

namespace LoroGateway

open ByteCodec CrashLogic

variable [Hashing]

inductive CheckpointWriteError
  | encode (source : CheckpointError)
  | store (source : StoreError)
  | wrongRoom
  | generationMismatch (expected actual : UInt64)
  | existingBytesMismatch
  | unexpectedEndOffset (expected actual : UInt64)
  | lengthOverflow
  deriving DecidableEq, Repr

def CheckpointWriteError.display : CheckpointWriteError → String
  | .encode source => "failed to encode checkpoint: " ++ source.display
  | .store source => "checkpoint store operation failed: " ++ source.display
  | .wrongRoom => "checkpoint record belongs to a different room"
  | .generationMismatch expected actual =>
    "checkpoint generation mismatch: expected " ++ expected.toNat.repr ++ ", found " ++
      actual.toNat.repr
  | .existingBytesMismatch => "checkpoint stream already contains different bytes"
  | .unexpectedEndOffset expected actual =>
    "checkpoint append ended at unexpected offset: expected " ++ expected.toNat.repr ++
      ", found " ++ actual.toNat.repr
  | .lengthOverflow => "checkpoint length does not fit u64"

inductive WriteOutcome
  | committed (stream : String) (nextOffset : UInt64)
  | verifiedDuplicate (stream : String) (nextOffset : UInt64)
  | verifiedExisting (stream : String) (nextOffset : UInt64)
  deriving DecidableEq, Repr

/-- The outcome that a write reports for a settled append. -/
def WriteOutcome.ofAppend (stream : String) : ExactAppendOutcome → WriteOutcome
  | .committed nextOffset => .committed stream nextOffset
  | .verifiedDuplicate nextOffset => .verifiedDuplicate stream nextOffset

def persistCheckpoint (roomId : String) (generation : GenerationId) (record : CheckpointRecord)
    (maxAmbiguousRetries : Nat) : ExceptT CheckpointWriteError StoreM WriteOutcome := do
  check (record.belongsToRoom roomId) CheckpointWriteError.wrongRoom
  check (record.checkpointGeneration = generation.value)
    (CheckpointWriteError.generationMismatch generation.value record.checkpointGeneration)
  let bytes ← liftM (record.encode.mapError CheckpointWriteError.encode)
  let stream := (checkpointStream roomId generation).physical
  mapErr (UrsulaStore.ensureStream stream) CheckpointWriteError.store
  let existing ← mapErr (UrsulaStore.readAll stream) CheckpointWriteError.store
  if existing ≠ [] then do
    check (existing = bytes) CheckpointWriteError.existingBytesMismatch
    let nextOffset ← okOr (u64OfUsize existing.length) CheckpointWriteError.lengthOverflow
    return .verifiedExisting stream nextOffset
  else do
    let producer : ProducerTuple := ⟨checkpointProducerId roomId generation, 0, 0⟩
    let appended ← mapErr (appendExactWithRetry stream producer bytes maxAmbiguousRetries)
      CheckpointWriteError.store
    let expectedOffset ← okOr (u64OfUsize bytes.length) CheckpointWriteError.lengthOverflow
    check (appended.nextOffset = expectedOffset)
      (CheckpointWriteError.unexpectedEndOffset expectedOffset appended.nextOffset)
    return .ofAppend stream appended

inductive ManifestWriteError
  | manifest (source : ManifestError)
  | store (source : StoreError)
  | wrongRoom
  | unexpectedRevision (expected actual : UInt64)
  | previousDigestMismatch
  | revisionOverflow
  | lengthOverflow
  | unexpectedEndOffset (expected actual : UInt64)
  deriving DecidableEq, Repr

def ManifestWriteError.display : ManifestWriteError → String
  | .manifest source => "failed to encode or validate manifest: " ++ source.display
  | .store source => "manifest store operation failed: " ++ source.display
  | .wrongRoom => "manifest record belongs to a different room"
  | .unexpectedRevision expected actual =>
    "unexpected manifest revision: expected " ++ expected.toNat.repr ++ ", found " ++
      actual.toNat.repr
  | .previousDigestMismatch => "manifest previous-record digest does not match"
  | .revisionOverflow => "manifest revision overflow"
  | .lengthOverflow => "manifest length does not fit or overflows u64"
  | .unexpectedEndOffset expected actual =>
    "manifest append ended at unexpected offset: expected " ++ expected.toNat.repr ++
      ", found " ++ actual.toNat.repr

/-- What `publish_manifest_record` makes of the stream it read: `none` when the
record is the head already, and else the records with the new one last. -/
def planManifestAppend (roomId : String) (record : ManifestRecord) (encoded existing : Bytes) :
    Except ManifestWriteError (Option (List ManifestRecord)) := do
  if existing = [] then do
    check (record.revision = 0) (ManifestWriteError.unexpectedRevision 0 record.revision)
    check (record.previousRecordDigest = genesisDigest) ManifestWriteError.previousDigestMismatch
    return some [record]
  else do
    let records ← (decodeManifestStream existing .default).mapError ManifestWriteError.manifest
    let latest ← (validateManifestChain records roomId).mapError ManifestWriteError.manifest
    if latest = record ∧ encoded <:+ existing then return none
    else do
      let expectedRevision ← okOr (checkedAddU64 latest.revision 1)
        ManifestWriteError.revisionOverflow
      check (record.revision = expectedRevision)
        (ManifestWriteError.unexpectedRevision expectedRevision record.revision)
      check (record.previousRecordDigest = latest.digest) ManifestWriteError.previousDigestMismatch
      return some (records ++ [record])

def publishManifestRecord (roomId : String) (record : ManifestRecord) (maxAmbiguousRetries : Nat) :
    ExceptT ManifestWriteError StoreM WriteOutcome := do
  check (record.belongsToRoom roomId) ManifestWriteError.wrongRoom
  let encoded ← liftM (record.encode.mapError ManifestWriteError.manifest)
  let stream := (manifestStream roomId).physical
  mapErr (UrsulaStore.ensureStream stream) ManifestWriteError.store
  let existing ← mapErr (UrsulaStore.readAll stream) ManifestWriteError.store
  let existingLen ← okOr (u64OfUsize existing.length) ManifestWriteError.lengthOverflow
  match ← liftM (planManifestAppend roomId record encoded existing) with
  | none => return .verifiedExisting stream existingLen
  | some records => do
    let _ ← liftM ((validateManifestChain records roomId).mapError ManifestWriteError.manifest)
    let producer : ProducerTuple := ⟨manifestProducerId roomId, 0, record.revision⟩
    let appended ← mapErr (appendExactWithRetry stream producer encoded maxAmbiguousRetries)
      ManifestWriteError.store
    let encodedLen ← okOr (u64OfUsize encoded.length) ManifestWriteError.lengthOverflow
    let expectedEnd ← okOr (checkedAddU64 existingLen encodedLen) ManifestWriteError.lengthOverflow
    check (appended.nextOffset = expectedEnd)
      (ManifestWriteError.unexpectedEndOffset expectedEnd appended.nextOffset)
    return .ofAppend stream appended

end LoroGateway
