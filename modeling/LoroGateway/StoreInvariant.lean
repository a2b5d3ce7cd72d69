import LoroGateway.CheckpointLog
import LoroGateway.ManifestInvariant
import LoroGateway.RotationSpec

/-!
# Manifest records and their checkpoints

A checkpoint stream is written once: its producer has one sequence, so the store
accepts one append, and the bytes are those of one checkpoint of the generation.
`Linked` is what a manifest record promises: the checkpoint stream that it names
holds the bytes that it verifies, and the delta stream after it exists.

`StoreInvariant` holds whatever becomes of the calls, also when appends arrive
late (`StoreInvariant.served`, `StoreInvariant.deliver`).
-/

namespace LoroGateway

open ByteCodec CrashLogic

variable [Hashing] {Doc : Type} [Loro Doc] {roomId : String} {generation : GenerationId}

/-- A checkpoint that was built for a generation of a room. -/
def CheckpointOf (Doc : Type) [Loro Doc] (roomId : String) (generation : GenerationId)
    (checkpoint : CheckpointRecord) : Prop :=
  ∃ (doc : Doc) (endOffset : UInt64) (history : List Bytes),
    buildCheckpointRecord roomId generation.value generation.value endOffset doc history =
      .ok checkpoint

/-- A checkpoint stream holds nothing or one checkpoint. -/
def Sealed (Doc : Type) [Loro Doc] (roomId : String) (generation : GenerationId) (d : Disk) : Prop :=
  (d.last (checkpointStream roomId generation).physical (checkpointProducerId roomId generation) =
      none ∧ d.read (checkpointStream roomId generation).physical = []) ∨
    (d.last (checkpointStream roomId generation).physical (checkpointProducerId roomId generation) ≠
      none ∧ ∃ checkpoint, CheckpointOf Doc roomId generation checkpoint ∧
        checkpoint.encode = .ok (d.read (checkpointStream roomId generation).physical))

/-- What a manifest record promises. -/
structure Linked (Doc : Type) [Loro Doc] (roomId : String) (record : ManifestRecord) (w : World) :
    Prop where
  generation : record.checkpointGeneration = record.revision
  active : record.activeDeltaGeneration.toNat = record.revision.toNat + 1
  stored : ∃ checkpoint bytes, CheckpointOf Doc roomId ⟨record.checkpointGeneration⟩ checkpoint ∧
    checkpoint.encode = .ok bytes ∧ record.verifiesCheckpointBytes bytes ∧
    bytes <+: w.disk.read (checkpointStream roomId ⟨record.checkpointGeneration⟩).physical
  nextExists : w.disk.content
    (deltaStreamForGeneration roomId ⟨record.activeDeltaGeneration⟩).physical ≠ none

theorem Linked.stable (record : ManifestRecord) : GrowthStable (Linked Doc roomId record) := by
  intro w w' hgrow h
  obtain ⟨checkpoint, bytes, hof, hencode, hverifies, hbytes⟩ := h.stored
  exact
    { generation := h.generation
      active := h.active
      stored := ⟨checkpoint, bytes, hof, hencode, hverifies, hbytes.trans (hgrow _).1⟩
      nextExists := (hgrow _).2 h.nextExists }

/-- What holds of the store of a room at every moment. -/
structure StoreInvariant (Doc : Type) [Loro Doc] (roomId : String) (w : World)
    (records : List ManifestRecord) : Prop where
  manifest : ManifestInvariant roomId (Linked Doc roomId) w records
  checkpoints : ∀ generation, Sealed Doc roomId generation w.disk
  underWay : ∀ app ∈ w.underWay, ∀ generation,
    app.stream = (checkpointStream roomId generation).physical →
      ∃ checkpoint bytes, CheckpointOf Doc roomId generation checkpoint ∧
        checkpoint.encode = .ok bytes ∧ app = checkpointAppend roomId generation bytes

/-- The generation that the last record names as active. -/
def activeGeneration (records : List ManifestRecord) : GenerationId :=
  match records.getLast? with
  | none => .zero
  | some latest => ⟨latest.activeDeltaGeneration⟩

/-- The digest that the next record has to carry. -/
def headDigest (records : List ManifestRecord) : ByteArr 32 :=
  match records.getLast? with
  | none => genesisDigest
  | some latest => latest.digest

/-- A position is given for the active generation, and it is the end of the log. -/
theorem planManifestPosition_eq_ok {d : Disk} {records : List ManifestRecord}
    (h : ManifestLog roomId d records) {current : GenerationId} {revision : UInt64}
    {previous : ByteArr 32}
    (hplan : planManifestPosition roomId current (d.read (manifestStream roomId).physical) =
      .ok (revision, previous)) :
    revision.toNat = records.length ∧ activeGeneration records = current ∧
      previous = headDigest records := by
  rw [h.content, planManifestPosition] at hplan
  rw [activeGeneration, headDigest]
  split_ifs at hplan with hempty
  · obtain ⟨hzero, hplan⟩ := check_bind_eq_ok.mp hplan
    cases hplan
    rw [manifestBytes_eq_nil h.valid] at hempty
    subst hempty
    exact ⟨rfl, hzero.symm, rfl⟩
  · obtain ⟨decoded, hdecoded, hplan⟩ := bind_eq_ok.mp hplan
    obtain ⟨latest, hlatest, hplan⟩ := bind_eq_ok.mp hplan
    obtain ⟨hactive, hplan⟩ := check_bind_eq_ok.mp hplan
    obtain ⟨next, hnext, hplan⟩ := okOr_bind_eq_ok.mp hplan
    rw [mapError_eq_ok] at hdecoded hlatest
    cases hplan
    have hlast := validateManifestChain_getLast? hlatest
    rw [decodeManifestStream_eq_ok h.valid h.word hdecoded] at hlast
    obtain ⟨front, rfl⟩ := List.getLast?_eq_some_iff.mp hlast
    have hrevision := h.chain.revision_eq _ _ List.getElem?_concat_length
    rw [hlast]
    refine ⟨?_, GenerationId.ext hactive, rfl⟩
    rw [checkedAddU64_eq_some.mp hnext, hrevision, List.length_append]
    rfl

/-- The calls that keep the invariant. -/
inductive Permitted (Doc : Type) [Loro Doc] (roomId : String) (w : World) : Request → Prop
  | ensureStream (stream : String) : Permitted Doc roomId w (.ensureStream stream)
  | delta {generation : GenerationId} {stream : String} {producer : ProducerTuple} {body : Bytes}
      (hstream : stream = (deltaStreamForGeneration roomId generation).physical) :
      Permitted Doc roomId w (.append stream producer body)
  | checkpoint {generation : GenerationId} {checkpoint : CheckpointRecord} {bytes : Bytes}
      (hof : CheckpointOf Doc roomId generation checkpoint)
      (hencode : checkpoint.encode = .ok bytes) :
      Permitted Doc roomId w (.append (checkpointStream roomId generation).physical
        ⟨checkpointProducerId roomId generation, 0, 0⟩ bytes)
  | manifest {record : ManifestRecord} (hvalid : record.Valid)
      (hchecked : CheckedAgainst roomId record w) (hlinked : Linked Doc roomId record w) :
      Permitted Doc roomId w (.append (manifestStream roomId).physical
        ⟨manifestProducerId roomId, 0, record.revision⟩ record.encoded)

/-- The checkpoint of a generation, as an invariant of its own. -/
theorem StoreInvariant.checkpoint {w : World} {records : List ManifestRecord}
    (h : StoreInvariant Doc roomId w records) (generation : GenerationId) :
    CheckpointInvariant (CheckpointOf Doc roomId generation) roomId generation w where
  once := h.checkpoints generation
  underWay app hmem hstream := h.underWay app hmem generation hstream

/-- The bytes of a checkpoint that starts its stream are all of it. -/
theorem Sealed.eq_of_isPrefix {d : Disk} {checkpoint : CheckpointRecord} {bytes : Bytes}
    (h : Sealed Doc roomId generation d) (hencode : checkpoint.encode = .ok bytes)
    (hbytes : bytes <+: d.read (checkpointStream roomId generation).physical) :
    d.read (checkpointStream roomId generation).physical = bytes :=
  WrittenOnce.eq_of_isPrefix h hencode hbytes

namespace StoreInvariant

variable {w w' : World} {records : List ManifestRecord}

theorem empty : StoreInvariant Doc roomId World.empty [] where
  manifest := (Unwritten.empty roomId).invariant
  checkpoints generation := WrittenOnce.empty _ roomId generation
  underWay := nofun

/-- The invariants of the manifest and of the checkpoints. -/
theorem of_parts (hmanifest : ManifestInvariant roomId (Linked Doc roomId) w records)
    (hcheckpoints : ∀ generation,
      CheckpointInvariant (CheckpointOf Doc roomId generation) roomId generation w) :
    StoreInvariant Doc roomId w records where
  manifest := hmanifest
  checkpoints generation := (hcheckpoints generation).once
  underWay app hmem generation hstream := (hcheckpoints generation).underWay app hmem hstream

/-- An append under way that reaches the store. -/
theorem deliver (h : StoreInvariant Doc roomId w records) {app : Append} (hmem : app ∈ w.underWay) :
    ∃ records', StoreInvariant Doc roomId (w.deliver app) records' := by
  obtain ⟨records', hmanifest⟩ := h.manifest.deliver Linked.stable hmem
  exact ⟨records', .of_parts hmanifest fun generation => (h.checkpoint generation).deliver hmem⟩

/-- The appends under way may get lost or change their sender. -/
theorem transport (h : StoreInvariant Doc roomId w records) (hdisk : w'.disk = w.disk)
    (hsent : ∀ app ∈ w'.underWay, app ∈ w.underWay) : StoreInvariant Doc roomId w' records where
  manifest := h.manifest.congr Linked.stable (hdisk ▸ Disk.Grows.refl _) (hdisk ▸ h.manifest.log)
    fun app hmem => .inl (hsent app hmem)
  checkpoints generation := hdisk ▸ h.checkpoints generation
  underWay app hmem := h.underWay app (hsent app hmem)

theorem serve_delta (h : StoreInvariant Doc roomId w records) {stream : String}
    {producer : ProducerTuple} {body : Bytes} {x : Except StoreError AppendOutcome}
    (hstream : stream = (deltaStreamForGeneration roomId generation).physical)
    (hserve : served w (.append stream producer body) x w') :
    StoreInvariant Doc roomId w' records := by
  subst hstream
  refine .of_parts (h.manifest.append_ne Linked.stable deltaStream_ne_manifestStream hserve) ?_
  exact fun other => (h.checkpoint other).append_ne deltaStream_ne_checkpointStream hserve

theorem serve_checkpoint (h : StoreInvariant Doc roomId w records) {checkpoint : CheckpointRecord}
    {bytes : Bytes} {x : Except StoreError AppendOutcome}
    (hof : CheckpointOf Doc roomId generation checkpoint) (hencode : checkpoint.encode = .ok bytes)
    (hserve : served w (.append (checkpointStream roomId generation).physical
      ⟨checkpointProducerId roomId generation, 0, 0⟩ bytes) x w') :
    StoreInvariant Doc roomId w' records := by
  refine .of_parts (h.manifest.append_ne Linked.stable checkpointStream_ne_manifestStream hserve) ?_
  intro other
  by_cases heq : generation = other
  · subst heq
    exact (h.checkpoint generation).persist hof hencode hserve
  · exact (h.checkpoint other).append_ne (fun hsame => heq (checkpointStream_inj hsame)) hserve

theorem serve_manifest (h : StoreInvariant Doc roomId w records) {record : ManifestRecord}
    {x : Except StoreError AppendOutcome} (hvalid : record.Valid)
    (hchecked : CheckedAgainst roomId record w) (hlinked : Linked Doc roomId record w)
    (hserve : served w (.append (manifestStream roomId).physical
      ⟨manifestProducerId roomId, 0, record.revision⟩ record.encoded) x w') :
    ∃ records', StoreInvariant Doc roomId w' records' := by
  obtain ⟨records', hmanifest⟩ :=
    h.manifest.publish Linked.stable hvalid hchecked hlinked hserve
  refine ⟨records', .of_parts hmanifest fun generation => ?_⟩
  exact (h.checkpoint generation).append_ne checkpointStream_ne_manifestStream.symm hserve

/-- The active generation is the number of records. -/
theorem active_eq (h : StoreInvariant Doc roomId w records) :
    (activeGeneration records).value.toNat = records.length := by
  rw [activeGeneration]
  cases hlast : records.getLast? with
  | none =>
    rw [List.getLast?_eq_none_iff.mp hlast]
    rfl
  | some latest =>
    obtain ⟨front, rfl⟩ := List.getLast?_eq_some_iff.mp hlast
    have hlinked := h.manifest.linked latest (List.mem_append_right _ (List.mem_singleton_self _))
    have hrevision := h.manifest.log.chain.revision_eq _ _ List.getElem?_concat_length
    dsimp only
    rw [hlinked.active, hrevision, List.length_append, List.length_singleton]

/-- Every permitted call keeps the invariant. -/
theorem serve (h : StoreInvariant Doc roomId w records) {req : Request} {x : Answer req}
    (hpermitted : Permitted Doc roomId w req) (hserve : served w req x w') :
    ∃ records', StoreInvariant Doc roomId w' records' := by
  cases hpermitted with
  | ensureStream stream =>
    refine ⟨records, .of_parts ?_ fun generation => (h.checkpoint generation).ensure hserve⟩
    rcases (served_ensureStream hserve).1 with rfl | rfl
    · exact h.manifest
    · exact h.manifest.ensure Linked.stable stream
  | delta hstream => exact ⟨records, h.serve_delta hstream hserve⟩
  | checkpoint hof hencode => exact ⟨records, h.serve_checkpoint hof hencode hserve⟩
  | manifest hvalid hchecked hlinked => exact h.serve_manifest hvalid hchecked hlinked hserve

end StoreInvariant

section Prepared

variable {before : World → Prop} {current : GenerationId} {endOffset : UInt64} {doc : Doc}
  {history : List Bytes} {result : RotationResult} {w : World}

/-- The record of a rotation is linked, and its revision is the generation that
it closes. -/
theorem Prepared.linked (h : Prepared before roomId current endOffset doc history result w)
    (hbefore : ∀ w, before w → ∃ records, StoreInvariant Doc roomId w records) :
    result.manifest.revision = current.value ∧ Linked Doc roomId result.manifest w := by
  obtain ⟨w₁, hw₁, _, hposition⟩ := h.position
  obtain ⟨records, hrecords⟩ := hbefore w₁ hw₁
  obtain ⟨hrevision, hactive, _⟩ := planManifestPosition_eq_ok hrecords.manifest.log hposition
  have hsame : result.manifest.revision = current.value :=
    UInt64.toNat_inj.mp (by rw [hrevision, ← hrecords.active_eq, hactive])
  obtain ⟨bytes, hencode, hbytes, hnew⟩ := h.stored
  obtain ⟨_, _, _, hcheckpoint, hnext, hverifies⟩ := ManifestRecord.new_eq_ok hnew
  refine ⟨hsame, ?_, ?_, ⟨result.checkpoint, bytes, ⟨doc, endOffset, history, ?_⟩, hencode,
    hverifies, ?_⟩, ?_⟩
  · rw [hcheckpoint, hsame]
  · rw [hnext, h.next, hsame]
  · rw [hcheckpoint]
    exact h.built
  · rw [hcheckpoint]
    exact hbytes
  · have hexists := h.nextExists
    rw [h.stream] at hexists
    rw [hnext]
    exact hexists

end Prepared

end LoroGateway
