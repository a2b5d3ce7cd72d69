import LoroGateway.PublicationSpec
import LoroGateway.Rotation

/-!
# What a rotation ensures

`Prepared` is what holds of a rotation when it submits its manifest record: the
checkpoint is built and stored, the next delta stream exists and was found
empty, and the record takes the position that the manifest stream had when it
was read.  `Rotated` adds that the record is in the stream.
-/

namespace LoroGateway

open ByteCodec CrashLogic

variable [Hashing] {Doc : Type} [Loro Doc]

/-- A rotation up to its manifest record. -/
structure Prepared (before : World → Prop) (roomId : String) (current : GenerationId)
    (endOffset : UInt64) (doc : Doc) (history : List Bytes) (result : RotationResult) (w : World) :
    Prop where
  next : result.nextDeltaGeneration.value.toNat = current.value.toNat + 1
  stream : result.nextDeltaStream =
    (deltaStreamForGeneration roomId result.nextDeltaGeneration).physical
  retained : result.retainedHistory = result.checkpoint.pendingUpdates
  built : buildCheckpointRecord roomId current.value current.value endOffset doc history =
    .ok result.checkpoint
  stored : ∃ bytes, result.checkpoint.encode = .ok bytes ∧
    bytes <+: w.disk.read (checkpointStream roomId current).physical ∧
    ManifestRecord.new roomId result.manifest.revision result.manifest.previousRecordDigest
      current.value bytes result.nextDeltaGeneration.value = .ok result.manifest
  nextExists : w.disk.content result.nextDeltaStream ≠ none
  nextEmpty : ∃ w₁, before w₁ ∧ w₁.disk.read result.nextDeltaStream = []
  position : ∃ w₁, before w₁ ∧ w₁.disk.Grows w.disk ∧
    planManifestPosition roomId current (w₁.disk.read (manifestStream roomId).physical) =
      .ok (result.manifest.revision, result.manifest.previousRecordDigest)

structure Rotated (before : World → Prop) (roomId : String) (current : GenerationId)
    (endOffset : UInt64) (doc : Doc) (history : List Bytes) (result : RotationResult) (w : World) :
    Prop extends Prepared before roomId current endOffset doc history result w where
  valid : result.manifest.Valid
  published : EndsAt (w.disk.read (manifestStream roomId).physical)
    (188 * (result.manifest.revision.toNat + 1)) result.manifest.encoded

variable {before : World → Prop} {c : Contract World} {roomId : String} {current : GenerationId}
  {endOffset : UInt64} {doc : Doc} {history : List Bytes} {retries : Nat}

theorem Prepared.stable (result : RotationResult) :
    GrowthStable (Prepared before roomId current endOffset doc history result) := by
  intro w w' hgrow h
  obtain ⟨bytes, hencode, hbytes, hnew⟩ := h.stored
  obtain ⟨w₁, hinv, hbefore, hposition⟩ := h.position
  exact { h with
    stored := ⟨bytes, hencode, hbytes.trans (hgrow _).1, hnew⟩
    nextExists := (hgrow _).2 h.nextExists
    position := ⟨w₁, hinv, hbefore.trans hgrow, hposition⟩ }

theorem CheckpointRecord.generation_of_build {endOffset : UInt64} {generation source : UInt64}
    {record : CheckpointRecord}
    (h : buildCheckpointRecord roomId generation source endOffset doc history = .ok record) :
    record.belongsToRoom roomId ∧ record.checkpointGeneration = generation ∧
      record.sourceDeltaGeneration = source ∧ record.sourceDeltaEndOffset = endOffset := by
  rw [buildCheckpointRecord] at h
  obtain ⟨snapshot, _, h⟩ := bind_eq_ok.mp h
  obtain ⟨pendingUpdates, _, h⟩ := bind_eq_ok.mp h
  obtain ⟨recovered, _, h⟩ := bind_eq_ok.mp h
  obtain ⟨_, h⟩ := check_bind_eq_ok.mp h
  cases h
  exact ⟨rfl, rfl, rfl, rfl⟩

/-- A new record has the fields that it was given. -/
theorem ManifestRecord.new_eq_ok {revision checkpointGeneration activeGeneration : UInt64}
    {previous : ByteArr 32} {bytes : Bytes} {record : ManifestRecord}
    (h : ManifestRecord.new roomId revision previous checkpointGeneration bytes activeGeneration =
      .ok record) :
    record.belongsToRoom roomId ∧ record.revision = revision ∧
      record.previousRecordDigest = previous ∧
      record.checkpointGeneration = checkpointGeneration ∧
      record.activeDeltaGeneration = activeGeneration ∧ record.verifiesCheckpointBytes bytes := by
  rw [ManifestRecord.new, check_bind_eq_ok] at h
  obtain ⟨_, h⟩ := h
  obtain ⟨⟨⟩, _, h⟩ := bind_eq_ok.mp h
  obtain ⟨⟨⟩, _, h⟩ := bind_eq_ok.mp h
  obtain ⟨endOffset, hend, h⟩ := okOr_bind_eq_ok.mp h
  cases h
  refine ⟨rfl, rfl, rfl, rfl, rfl, ?_, rfl⟩
  rw [lengthWord, hend]
  rfl

variable {serve : Serve Request Answer World} (hc : Grounded serve c) {assertion : World → Prop}
  (hstable : c.Stable assertion) {w : World}

include hc hstable

theorem wp_nextManifestPosition {post : Except RotationError (UInt64 × ByteArr 32) → World → Prop}
    (hw : assertion w)
    (hensure : Keeps serve c assertion (.ensureStream (manifestStream roomId).physical))
    (herr : ∀ error w', assertion w' → post (.error error) w')
    (hok : ∀ position w', assertion w' → c.inv w' →
      planManifestPosition roomId current (w'.disk.read (manifestStream roomId).physical) =
        .ok position → post (.ok position) w') :
    wp serve c (nextManifestPosition roomId current).run post w := by
  rw [nextManifestPosition]
  refine wp_mapErr_bind (wp_ensureStream hc hstable hw hensure ?_ fun _ w' hw' _ => herr _ w' hw')
  intro w₁ hw₁ _ _
  refine wp_mapErr_bind (wp_readAll hc hstable hw₁ ?_ fun _ w' hw' _ => herr _ w' hw')
  intro w₂ hw₂ hinv₂
  dsimp only
  rw [wp_run_lift]
  cases hposition : planManifestPosition roomId current
      (w₂.disk.read (manifestStream roomId).physical) with
  | error error => exact herr error w₂ hw₂
  | ok position => exact hok position w₂ hw₂ hinv₂ hposition

/-- A rotation that succeeds has kept its order: checkpoint, next delta stream,
manifest record. -/
theorem wp_rotateRoom {post : Except RotationError RotationResult → World → Prop}
    (hw : assertion w) (hlog : ∀ w, c.inv w → ∃ records, ManifestLog roomId w.disk records)
    (hensure : ∀ stream, Keeps serve c assertion (.ensureStream stream))
    (hcheckpoint : ∀ record bytes, record.encode = .ok bytes →
      buildCheckpointRecord roomId current.value current.value endOffset doc history = .ok record →
      Keeps serve c assertion (.append (checkpointStream roomId current).physical
        ⟨checkpointProducerId roomId current, 0, 0⟩ bytes))
    (hmanifest : ∀ result : RotationResult, result.manifest.Valid →
      Keeps serve c (fun w =>
          (assertion w ∧ Prepared (fun w => assertion w ∧ c.inv w) roomId current endOffset doc history
            result w) ∧ CheckedAgainst roomId result.manifest w)
        (.append (manifestStream roomId).physical
          ⟨manifestProducerId roomId, 0, result.manifest.revision⟩ result.manifest.encoded))
    (herr : ∀ error w', assertion w' → post (.error error) w')
    (hok : ∀ result w', assertion w' → Rotated (fun w => assertion w ∧ c.inv w) roomId current
      endOffset doc history result w' → post (.ok result) w') :
    wp serve c (rotateRoom roomId current endOffset doc history retries).run post w := by
  rw [rotateRoom]
  refine wp_okOr_bind (fun next hnext => ?_) fun _ => herr _ w hw
  rw [GenerationId.checkedNext_eq_some] at hnext
  refine wp_lift_mapError_bind (fun record hbuilt => ?_) fun _ _ => herr _ w hw
  refine wp_lift_mapError_bind (fun bytes hencode => ?_) fun _ _ => herr _ w hw
  refine wp_mapErr_bind (wp_persistCheckpoint hc hstable hw hencode (hensure _)
    (hcheckpoint record bytes hencode hbuilt) (fun _ w' hw' => herr _ w' hw') ?_)
  intro _ w₁ hw₁ hstored
  dsimp only
  -- what holds from here on, and what the calls of the rest keep
  have hstored' := growthStable_isPrefix (checkpointStream roomId current).physical bytes
  have hstable₁ := stable_and hstable (hstored'.stable hc.grows)
  refine wp_mapErr_bind (wp_ensureStream hc hstable₁ ⟨hw₁, hstored⟩
    (Keeps.and hc (hensure _) hstored') ?_ fun _ w' hw' _ => herr _ w' hw'.1)
  intro w₂ hw₂ _ hexists
  have hexists' := growthStable_exists (deltaStreamForGeneration roomId next).physical
  have hstable₂ := stable_and hstable₁ (hexists'.stable hc.grows)
  refine wp_mapErr_bind (wp_readAll hc hstable₂ ⟨hw₂, hexists⟩ ?_
    fun _ w' hw' _ => herr _ w' hw'.1.1)
  intro w₃ hw₃ hinv₃
  refine wp_check_bind (fun hempty => ?_) fun _ => herr _ w₃ hw₃.1.1
  refine wp_run_bind.mpr (wp_nextManifestPosition hc hstable₂ hw₃
    (Keeps.and hc (Keeps.and hc (hensure _) hstored') hexists')
    (fun _ w' hw' => herr _ w' hw'.1.1) ?_)
  rintro ⟨revision, previous⟩ w₄ hw₄ hinv₄ hposition
  refine wp_lift_mapError_bind (fun manifest hmanifestNew => ?_) fun _ _ => herr _ w₄ hw₄.1.1
  obtain ⟨_, hrevision, hprevious, _⟩ := ManifestRecord.new_eq_ok hmanifestNew
  let result : RotationResult := ⟨record, manifest, next,
    (deltaStreamForGeneration roomId next).physical, record.pendingUpdates⟩
  have hprepared : Prepared (fun w => assertion w ∧ c.inv w) roomId current endOffset doc history
      result w₄ :=
    { next := hnext
      stream := rfl
      retained := rfl
      built := hbuilt
      stored := ⟨bytes, hencode, hw₄.1.2, by rw [hrevision, hprevious]; exact hmanifestNew⟩
      nextExists := hw₄.2
      nextEmpty := ⟨w₃, ⟨hw₃.1.1, hinv₃⟩, hempty⟩
      position := ⟨w₄, ⟨hw₄.1.1, hinv₄⟩, Disk.Grows.refl _, by
        rw [hrevision, hprevious]
        exact hposition⟩ }
  refine wp_mapErr_bind (wp_publishManifestRecord hc
    (stable_and hstable ((Prepared.stable result).stable hc.grows)) ⟨hw₄.1.1, hprepared⟩ hlog
    (Keeps.and hc (hensure _) (Prepared.stable result)) (hmanifest result)
    (fun _ w' hw' => herr _ w' hw'.1) ?_)
  intro _ w' hw' hvalid hends
  exact hok result w' hw'.1 { hw'.2 with valid := hvalid, published := hends }

end LoroGateway
