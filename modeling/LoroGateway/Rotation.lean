import LoroGateway.Publication

/-!
# Rotation

`src/rotation.rs`.  A rotation writes the checkpoint of the current delta
generation, creates the next delta stream and then publishes a manifest record
that names both.  The manifest record is the commit point.
-/

namespace LoroGateway

open ByteCodec CrashLogic

structure RotationResult where
  checkpoint : CheckpointRecord
  manifest : ManifestRecord
  nextDeltaGeneration : GenerationId
  nextDeltaStream : String
  retainedHistory : List Bytes

inductive RotationError
  | checkpointBuild (source : CheckpointBuildError)
  | checkpointEncode (source : CheckpointError)
  | checkpointWrite (source : CheckpointWriteError)
  | manifest (source : ManifestError)
  | manifestWrite (source : ManifestWriteError)
  | store (source : StoreError)
  | generationOverflow
  | revisionOverflow
  | nextDeltaNotEmpty (generation : UInt64)
  | manifestActiveGenerationMismatch (manifest : Option UInt64) (actor : UInt64)
  deriving DecidableEq, Repr

/-- `{:?}` of an optional generation. -/
def debugGeneration : Option UInt64 → String
  | none => "None"
  | some generation => "Some(" ++ generation.toNat.repr ++ ")"

def RotationError.display : RotationError → String
  | .checkpointBuild source => "checkpoint construction failed: " ++ source.display
  | .checkpointEncode source => "checkpoint encoding failed: " ++ source.display
  | .checkpointWrite source => "checkpoint persistence failed: " ++ source.display
  | .manifest source => "manifest construction or validation failed: " ++ source.display
  | .manifestWrite source => "manifest publication failed: " ++ source.display
  | .store source => "rotation store operation failed: " ++ source.display
  | .generationOverflow => "delta generation overflow"
  | .revisionOverflow => "manifest revision overflow"
  | .nextDeltaNotEmpty generation =>
    "next delta generation " ++ generation.toNat.repr ++ " already contains bytes"
  | .manifestActiveGenerationMismatch named actor =>
    "manifest active generation mismatch: manifest " ++ debugGeneration named ++ ", actor " ++
      actor.toNat.repr

section

variable [Hashing]

/-- What `next_manifest_position` makes of the manifest stream it read. -/
def planManifestPosition (roomId : String) (currentDeltaGeneration : GenerationId) (bytes : Bytes) :
    Except RotationError (UInt64 × ByteArr 32) := do
  if bytes = [] then do
    check (currentDeltaGeneration = GenerationId.zero)
      (RotationError.manifestActiveGenerationMismatch none currentDeltaGeneration.value)
    return (0, genesisDigest)
  else do
    let records ← (decodeManifestStream bytes .default).mapError RotationError.manifest
    let latest ← (validateManifestChain records roomId).mapError RotationError.manifest
    check (latest.activeDeltaGeneration = currentDeltaGeneration.value)
      (RotationError.manifestActiveGenerationMismatch (some latest.activeDeltaGeneration)
        currentDeltaGeneration.value)
    let revision ← okOr (checkedAddU64 latest.revision 1) RotationError.revisionOverflow
    return (revision, latest.digest)

def nextManifestPosition (roomId : String) (currentDeltaGeneration : GenerationId) :
    ExceptT RotationError StoreM (UInt64 × ByteArr 32) := do
  let stream := (manifestStream roomId).physical
  mapErr (UrsulaStore.ensureStream stream) RotationError.store
  let bytes ← mapErr (UrsulaStore.readAll stream) RotationError.store
  liftM (planManifestPosition roomId currentDeltaGeneration bytes)

variable {Doc : Type} [Loro Doc]

def rotateRoom (roomId : String) (currentDeltaGeneration : GenerationId)
    (currentDeltaEndOffset : UInt64) (doc : Doc) (history : List Bytes)
    (maxAmbiguousRetries : Nat) : ExceptT RotationError StoreM RotationResult := do
  let nextDeltaGeneration ← okOr currentDeltaGeneration.checkedNext RotationError.generationOverflow
  let checkpoint ← liftM
    ((buildCheckpointRecord roomId currentDeltaGeneration.value currentDeltaGeneration.value
      currentDeltaEndOffset doc history).mapError RotationError.checkpointBuild)
  let checkpointBytes ← liftM (checkpoint.encode.mapError RotationError.checkpointEncode)
  let _ ← mapErr
    (persistCheckpoint roomId currentDeltaGeneration checkpoint maxAmbiguousRetries).run
    RotationError.checkpointWrite
  let nextDeltaStream := (deltaStreamForGeneration roomId nextDeltaGeneration).physical
  mapErr (UrsulaStore.ensureStream nextDeltaStream) RotationError.store
  let nextDeltaBytes ← mapErr (UrsulaStore.readAll nextDeltaStream) RotationError.store
  check (nextDeltaBytes = []) (RotationError.nextDeltaNotEmpty nextDeltaGeneration.value)
  let (revision, previousRecordDigest) ← nextManifestPosition roomId currentDeltaGeneration
  let manifest ← liftM
    ((ManifestRecord.new roomId revision previousRecordDigest currentDeltaGeneration.value
      checkpointBytes nextDeltaGeneration.value).mapError RotationError.manifest)
  let _ ← mapErr (publishManifestRecord roomId manifest maxAmbiguousRetries).run
    RotationError.manifestWrite
  return ⟨checkpoint, manifest, nextDeltaGeneration, nextDeltaStream, checkpoint.pendingUpdates⟩

end

end LoroGateway
