import LoroGateway.Frame
import LoroGateway.Manifest
import LoroGateway.Store

/-!
# Recovery from the manifest

`src/recovery.rs`.  The head of the manifest names a checkpoint and the delta
generation after it.  Recovery restores the snapshot, imports the blobs that
the checkpoint kept, and then those of the active delta stream.
-/

namespace LoroGateway

open ByteCodec CrashLogic

structure ManifestRecovery (Doc : Type) where
  doc : Doc
  history : List Bytes
  checkpointGeneration : GenerationId
  activeDeltaGeneration : GenerationId
  activeDeltaStream : String
  activeDeltaEndOffset : UInt64
  recoveredCheckpointBytes : Nat
  recoveredDeltaBytes : Nat

inductive RecoveryError
  | store (source : StoreError)
  | manifest (source : ManifestError)
  | checkpoint (source : CheckpointError)
  | frame (source : FrameError)
  | missingCheckpoint (generation : UInt64)
  | checkpointManifestMismatch
  | wrongCheckpointRoom
  | checkpointGenerationMismatch (manifest checkpoint : UInt64)
  | checkpointSourceMismatch (checkpointGeneration sourceDeltaGeneration : UInt64)
  | activeDeltaGenerationMismatch (expected actual : UInt64)
  | generationOverflow
  | lengthOverflow
  | historyRange
  | loro (message : String)
  deriving DecidableEq, Repr

def RecoveryError.display : RecoveryError → String
  | .store source => "recovery store operation failed: " ++ source.display
  | .manifest source => "manifest recovery failed: " ++ source.display
  | .checkpoint source => "checkpoint recovery failed: " ++ source.display
  | .frame source => "active delta recovery failed: " ++ source.display
  | .missingCheckpoint generation =>
    "manifest references missing checkpoint generation " ++ generation.toNat.repr
  | .checkpointManifestMismatch =>
    "manifest checkpoint digest or length does not match stored bytes"
  | .wrongCheckpointRoom => "checkpoint belongs to a different room"
  | .checkpointGenerationMismatch named found =>
    "checkpoint generation mismatch: manifest " ++ named.toNat.repr ++ ", checkpoint " ++
      found.toNat.repr
  | .checkpointSourceMismatch checkpointGeneration sourceDeltaGeneration =>
    "checkpoint source mismatch: checkpoint generation " ++ checkpointGeneration.toNat.repr ++
      ", source delta " ++ sourceDeltaGeneration.toNat.repr
  | .activeDeltaGenerationMismatch expected actual =>
    "active delta generation mismatch: expected " ++ expected.toNat.repr ++ ", found " ++
      actual.toNat.repr
  | .generationOverflow => "generation overflow during recovery"
  | .lengthOverflow => "recovered stream length does not fit u64"
  | .historyRange => "recovered history range is invalid"
  | .loro message => "Loro recovery failed: " ++ message

section

variable {Doc : Type} [Loro Doc]

/-- Import blobs into a recovered document, if there are any. -/
def importRecovered (doc : Doc) (updates : List Bytes) : Except RecoveryError Doc :=
  if updates = [] then return doc
  else do
    let imported ← (Loro.importBatch doc updates).mapError RecoveryError.loro
    return imported.1

/-- Import what a history holds after the blobs of the checkpoint. -/
def importActive (doc : Doc) (snapshotPendingCount : Nat) (history : List Bytes) :
    Except RecoveryError Doc :=
  if history = [] then return doc
  else do
    let activeUpdates ← okOr
      (if snapshotPendingCount ≤ history.length then some (history.drop snapshotPendingCount)
        else none) RecoveryError.historyRange
    importRecovered doc activeUpdates

/-- The range error is not reached. -/
theorem importActive_append (doc : Doc) (pending active : List Bytes) :
    importActive doc pending.length (pending ++ active) = importRecovered doc active := by
  rw [importActive]
  split_ifs with hempty hlength
  · rw [importRecovered, if_pos (List.append_eq_nil_iff.mp hempty).2]
  · rw [List.drop_left]
    rfl
  · exact absurd (List.length_append ▸ Nat.le_add_right _ _) hlength

end

section

variable [Hashing]

def validateCheckpointLink (roomId : String) (manifestCheckpointGeneration : UInt64)
    (manifestActiveDeltaGeneration : UInt64) (checkpoint : CheckpointRecord) :
    Except RecoveryError Unit := do
  check (checkpoint.belongsToRoom roomId) RecoveryError.wrongCheckpointRoom
  check (checkpoint.checkpointGeneration = manifestCheckpointGeneration)
    (RecoveryError.checkpointGenerationMismatch manifestCheckpointGeneration
      checkpoint.checkpointGeneration)
  check (checkpoint.sourceDeltaGeneration = checkpoint.checkpointGeneration)
    (RecoveryError.checkpointSourceMismatch checkpoint.checkpointGeneration
      checkpoint.sourceDeltaGeneration)
  let expectedActive ← okOr (checkedAddU64 checkpoint.checkpointGeneration 1)
    RecoveryError.generationOverflow
  check (manifestActiveDeltaGeneration = expectedActive)
    (RecoveryError.activeDeltaGenerationMismatch expectedActive manifestActiveDeltaGeneration)

def recoverFromManifest (Doc : Type) [Loro Doc] (roomId : String) (frameLimits : FrameLimits) :
    ExceptT RecoveryError StoreM (Option (ManifestRecovery Doc)) := do
  let manifestName := (manifestStream roomId).physical
  mapErr (UrsulaStore.ensureStream manifestName) RecoveryError.store
  let manifestBytes ← mapErr (UrsulaStore.readAll manifestName) RecoveryError.store
  if manifestBytes = [] then return none
  else do
    let records ← liftM
      ((decodeManifestStream manifestBytes .default).mapError RecoveryError.manifest)
    let latest ← liftM ((validateManifestChain records roomId).mapError RecoveryError.manifest)
    let checkpointGeneration : GenerationId := ⟨latest.checkpointGeneration⟩
    let checkpointName := (checkpointStream roomId checkpointGeneration).physical
    let checkpointBytes ← mapErr (UrsulaStore.readAll checkpointName) RecoveryError.store
    check (checkpointBytes ≠ []) (RecoveryError.missingCheckpoint checkpointGeneration.value)
    check (latest.verifiesCheckpointBytes checkpointBytes) RecoveryError.checkpointManifestMismatch
    let checkpoint ← liftM
      ((CheckpointRecord.decodeExact checkpointBytes .default).mapError RecoveryError.checkpoint)
    validateCheckpointLink roomId latest.checkpointGeneration latest.activeDeltaGeneration checkpoint
    let doc : Doc ← liftM ((Loro.fromSnapshot checkpoint.snapshot).mapError RecoveryError.loro)
    let doc ← liftM (importRecovered doc checkpoint.pendingUpdates)
    let activeDeltaGeneration : GenerationId := ⟨latest.activeDeltaGeneration⟩
    let activeDeltaStream := (deltaStreamForGeneration roomId activeDeltaGeneration).physical
    let deltaBytes ← mapErr (UrsulaStore.readAll activeDeltaStream) RecoveryError.store
    let frames ← liftM ((decodeAllWithLimits deltaBytes frameLimits).mapError RecoveryError.frame)
    let history := checkpoint.pendingUpdates ++ frames.flatMap DeltaFrame.updates
    let doc ← liftM (importActive doc checkpoint.pendingUpdates.length history)
    let activeDeltaEndOffset ← okOr (u64OfUsize deltaBytes.length) RecoveryError.lengthOverflow
    return some ⟨doc, history, checkpointGeneration,
      activeDeltaGeneration, activeDeltaStream, activeDeltaEndOffset, checkpointBytes.length,
      deltaBytes.length⟩

end

end LoroGateway
