import LoroGateway.CheckpointBuild
import LoroGateway.FullReplay
import LoroGateway.Reconcile

/-!
# Rotations that are tried again

A rotation that stops half way leaves a checkpoint in the stream of its
generation.  The next attempt builds its own checkpoint, and the stream takes it
only when it is empty or holds the same bytes.  Everything else that is left
behind can be used again: the next delta stream is still empty, and a manifest
record that was published has moved the room to the next generation.

The first rules say what each step of a rotation does over a store that answers
every call; `completed_iff` says what a rotation that succeeds has published.
-/

namespace LoroGateway

open ByteCodec CrashLogic CrashLogic.Server

section

variable [Hashing] {Doc : Type} [Loro Doc] {roomId : String} {config : ActorConfig}

/-! ## The steps over a store that answers -/

section Steps

variable {w : World}

omit [Hashing] in
/-- The store accepts the first append of a producer. -/
theorem Disk.accepts_first {d : Disk} {app : Append}
    (hnone : d.last app.stream app.producer.id = none) (hfirst : app.producer.sequence = 0)
    (hword : (d.read app.stream).length + app.body.length < wordSize) : d.Accepts app := by
  refine ⟨?_, hword⟩
  rw [hnone]
  exact hfirst

/-- A checkpoint is written to an empty stream, or it is there already. -/
theorem wp_persistCheckpoint_answered {generation : GenerationId} {record : CheckpointRecord}
    {bytes : Bytes} {retries : Nat} {post : Except CheckpointWriteError WriteOutcome → World → Prop}
    (hroom : record.belongsToRoom roomId) (hgeneration : record.checkpointGeneration = generation.value)
    (hencode : record.encode = .ok bytes) (hsealed : Sealed Doc roomId generation w.disk)
    (hthere : w.disk.read (checkpointStream roomId generation).physical = bytes → ∀ outcome,
      post (.ok outcome) (w.ensure (checkpointStream roomId generation).physical))
    (hwritten : w.disk.read (checkpointStream roomId generation).physical = [] → ∀ outcome,
      post (.ok outcome) ((w.ensure (checkpointStream roomId generation).physical).accept
        (checkpointAppend roomId generation bytes)))
    (hother : w.disk.read (checkpointStream roomId generation).physical ≠ [] →
      w.disk.read (checkpointStream roomId generation).physical ≠ bytes →
      post (.error .existingBytesMismatch) (w.ensure (checkpointStream roomId generation).physical)) :
    wp answered (.alone fun _ => True) (persistCheckpoint roomId generation record retries).run post
      w := by
  obtain ⟨hpos, hword⟩ := CheckpointRecord.encode_length hencode
  have hread : (w.ensure (checkpointStream roomId generation).physical).disk.read
      (checkpointStream roomId generation).physical =
        w.disk.read (checkpointStream roomId generation).physical := Disk.read_ensure _ _ _
  obtain ⟨length, hlength⟩ : ∃ length : UInt64, length.toNat = bytes.length :=
    ⟨UInt64.ofNat bytes.length, UInt64.toNat_ofNat_of_lt' hword⟩
  have hnonempty : bytes ≠ [] := List.ne_nil_of_length_pos hpos
  rw [persistCheckpoint]
  refine wp_check_bind (fun _ => ?_) fun hnot => absurd hroom hnot
  refine wp_check_bind (fun _ => ?_) fun hnot => absurd hgeneration hnot
  rw [hencode]
  refine wp_lift_mapError_bind (fun _ heq => ?_) fun _ h => by cases h
  obtain rfl := Except.ok.inj heq
  refine wp_mapErr_bind (wp_ensureStream_answered (wp_mapErr_bind (wp_readAll_answered ?_)))
  dsimp only
  rw [hread]
  split_ifs with hfound
  · refine wp_check_bind (fun hsame => ?_) fun hnot => hother hfound hnot
    refine wp_okOr_bind (fun _ _ => hthere hsame _) fun hnone => ?_
    rw [hsame, u64OfUsize_eq_some.mpr hlength] at hnone
    cases hnone
  · have hempty := not_not.mp hfound
    have haccepts : (w.ensure (checkpointStream roomId generation).physical).disk.Accepts
        (checkpointAppend roomId generation bytes) := by
      refine Disk.accepts_first ?_ rfl ?_
      · rcases hsealed with ⟨hnone, _⟩ | ⟨_, checkpoint, _, hstored⟩
        · exact hnone
        · rw [hempty] at hstored
          exact absurd (CheckpointRecord.encode_length hstored).1 (Nat.lt_irrefl 0)
      · change (Disk.read _ (checkpointStream roomId generation).physical).length + bytes.length < _
        rw [hread, hempty, List.length_nil, Nat.zero_add]
        exact hword
    refine wp_mapErr_bind (wp_appendExactWithRetry_answered hnonempty haccepts ?_)
    refine wp_okOr_bind (fun expected hexpected => ?_) fun hnone => ?_
    · refine wp_check_bind (fun _ => hwritten hempty _) fun hnot => absurd ?_ hnot
      refine UInt64.toNat_inj.mp ((Disk.endOffset_toNat haccepts).trans ?_)
      change (Disk.read _ (checkpointStream roomId generation).physical).length + bytes.length = _
      rw [hread, hempty, List.length_nil, Nat.zero_add, u64OfUsize_eq_some.mp hexpected]
    · rw [u64OfUsize_eq_some.mpr hlength] at hnone
      cases hnone

/-- The position after the head of a manifest whose head names the generation. -/
theorem planManifestPosition_of_held {d : Disk} {records : List ManifestRecord}
    (h : ManifestHeld roomId d records) (hcount : records.length ≤ 65536) {revision : UInt64}
    (hrevision : revision.toNat = records.length) :
    planManifestPosition roomId (activeGeneration records)
      (d.read (manifestStream roomId).physical) = .ok (revision, headDigest records) := by
  rw [h.content, planManifestPosition, activeGeneration, headDigest]
  split_ifs with hempty
  · rw [manifestBytes_eq_nil h.valid] at hempty
    subst hempty
    obtain rfl : revision = 0 := UInt64.toNat_inj.mp hrevision
    exact check_bind_eq_ok.mpr ⟨rfl, rfl⟩
  · rw [manifestBytes_eq_nil h.valid] at hempty
    obtain ⟨front, latest, rfl⟩ := (List.eq_nil_or_concat' records).resolve_left hempty
    have hlast : (front ++ [latest]).getLast? = some latest := List.getLast?_concat
    have hlatest := h.chain.revision_eq _ _ List.getElem?_concat_length
    rw [hlast]
    refine bind_eq_ok.mpr ⟨front ++ [latest],
      mapError_eq_ok.mpr (decodeManifestStream_of_le h.valid h.word hcount), ?_⟩
    refine bind_eq_ok.mpr ⟨latest,
      mapError_eq_ok.mpr (validateManifestChain_eq_ok.mpr ⟨h.chain, hlast⟩), ?_⟩
    refine check_bind_eq_ok.mpr ⟨rfl, okOr_bind_eq_ok.mpr ⟨revision, ?_, rfl⟩⟩
    refine checkedAddU64_eq_some.mpr ?_
    rw [hrevision, hlatest, List.length_append]
    rfl

/-- A record whose fields and digest are in order can be encoded. -/
theorem ManifestRecord.valid_of_fields {record : ManifestRecord}
    (hfields : record.validateFields = .ok ()) (hdigest : record.digest = record.expectedDigest) :
    record.Valid := by
  have hlimit : Manifest.fixedRecordBytes ≤ ManifestLimits.default.maxRecordBytes := by decide
  exact ⟨_, check_bind_eq_ok.mpr ⟨hlimit, bind_eq_ok.mpr ⟨(), hfields,
    okOr_bind_eq_ok.mpr ⟨_, rfl, check_bind_eq_ok.mpr ⟨hdigest, rfl⟩⟩⟩⟩⟩

/-- A record for the next generation can be made and encoded. -/
theorem ManifestRecord.exists_new {revision checkpointGeneration next : UInt64}
    {previous : ByteArr 32} {bytes : Bytes} (hpos : 0 < bytes.length) (hword : bytes.length < wordSize)
    (hnext : next.toNat = checkpointGeneration.toNat + 1)
    (hprevious : revision = 0 ↔ previous = genesisDigest) :
    ∃ record, ManifestRecord.new roomId revision previous checkpointGeneration bytes next =
      .ok record ∧ record.Valid := by
  have hpair : Manifest.validateGenerationPair checkpointGeneration next = .ok () :=
    okOr_bind_eq_ok.mpr ⟨next, checkedAddU64_eq_some.mpr hnext, check_of rfl⟩
  have hdigest : Manifest.validatePreviousDigest revision previous = .ok () := by
    refine check_bind_eq_ok.mpr ⟨fun h => h.2 (hprevious.mp h.1), check_of fun h => ?_⟩
    rw [hprevious.mpr h.2] at h
    exact absurd h.1 (UInt64.lt_irrefl 0)
  obtain ⟨endOffset, hend⟩ : ∃ endOffset : UInt64, endOffset.toNat = bytes.length :=
    ⟨UInt64.ofNat bytes.length, UInt64.toNat_ofNat_of_lt' hword⟩
  have hsome : endOffset ≠ 0 := by
    rintro rfl
    rw [← hend] at hpos
    exact absurd hpos (Nat.lt_irrefl 0)
  refine ⟨_, check_bind_eq_ok.mpr ⟨List.ne_nil_of_length_pos hpos, bind_eq_ok.mpr ⟨(), hpair,
    bind_eq_ok.mpr ⟨(), hdigest, okOr_bind_eq_ok.mpr ⟨endOffset, u64OfUsize_eq_some.mpr hend,
      rfl⟩⟩⟩⟩, ManifestRecord.valid_of_fields ?_ rfl⟩
  exact bind_eq_ok.mpr ⟨(), hdigest, bind_eq_ok.mpr ⟨(), hpair, check_of hsome⟩⟩

/-- The record of a rotation extends a manifest whose head names its generation. -/
theorem StoreInvariant.extends {records : List ManifestRecord}
    (h : StoreInvariant Doc roomId w records) {record : ManifestRecord} {revision next : UInt64}
    {bytes : Bytes} (hrevision : revision.toNat = records.length)
    (hnext : next.toNat = (activeGeneration records).value.toNat + 1)
    (hnew : ManifestRecord.new roomId revision (headDigest records) (activeGeneration records).value
      bytes next = .ok record) : Extends roomId records record := by
  obtain ⟨hroom, hrevision', hprevious, hcheckpoint, hactive, _⟩ := ManifestRecord.new_eq_ok hnew
  rw [Extends]
  rcases List.eq_nil_or_concat' records with rfl | ⟨front, latest, rfl⟩
  · exact ⟨hroom, hrevision'.trans (UInt64.toNat_inj.mp hrevision), hprevious⟩
  · have hlast : (front ++ [latest]).getLast? = some latest := List.getLast?_concat
    have hlatest := h.manifest.log.chain.revision_eq _ _ List.getElem?_concat_length
    have hlinked := h.manifest.linked latest (List.mem_append_right _ (List.mem_singleton_self _))
    rw [activeGeneration, hlast] at hcheckpoint hnext
    rw [headDigest, hlast] at hprevious
    rw [hlast]
    refine ⟨hroom, ?_, hprevious, ?_, ?_⟩
    · rw [hrevision', hrevision, hlatest, List.length_append]
      rfl
    · rw [hcheckpoint, UInt64.lt_iff_toNat_lt, hlinked.active, hlinked.generation]
      exact Nat.lt_succ_self _
    · rw [hactive, UInt64.lt_iff_toNat_lt, hnext]
      exact Nat.lt_succ_self _

section Rotate

variable {records : List ManifestRecord} (h : StoreInvariant Doc roomId w records)
  (hcount : records.length ≤ 65536)
  (hdigest : ∀ latest, records.getLast? = some latest → latest.digest ≠ genesisDigest)
  {next : GenerationId} (hnext : (activeGeneration records).checkedNext = some next) {bytes : Bytes}
  {post : Except RotationError RotationResult → World → Prop} {retries : Nat}

include h hcount hdigest hnext

/-- Once the checkpoint is there, nothing that a rotation does can fail. -/
theorem wp_rotateRoom_rest_answered {checkpoint : CheckpointRecord}
    (hencode : checkpoint.encode = .ok bytes) {t : World} (hlog : ManifestLog roomId t.disk records)
    (hempty : t.disk.read (deltaStreamForGeneration roomId next).physical = [])
    (hok : ∀ result t, post (.ok result) t) :
    wp answered (.alone fun _ => True)
      (do
        mapErr (UrsulaStore.ensureStream (deltaStreamForGeneration roomId next).physical)
          RotationError.store
        let nextDeltaBytes ← mapErr
          (UrsulaStore.readAll (deltaStreamForGeneration roomId next).physical) RotationError.store
        check (nextDeltaBytes = []) (RotationError.nextDeltaNotEmpty next.value)
        let (revision, previousRecordDigest) ← nextManifestPosition roomId (activeGeneration records)
        let manifest ← liftM ((ManifestRecord.new roomId revision previousRecordDigest
          (activeGeneration records).value bytes next.value).mapError RotationError.manifest)
        let _ ← mapErr (publishManifestRecord roomId manifest retries).run
          RotationError.manifestWrite
        return ⟨checkpoint, manifest, next, (deltaStreamForGeneration roomId next).physical,
          checkpoint.pendingUpdates⟩ : ExceptT RotationError StoreM RotationResult).run post t := by
  obtain ⟨hpos, hword⟩ := CheckpointRecord.encode_length hencode
  have hsucc := GenerationId.checkedNext_eq_some.mp hnext
  have hactive := h.active_eq
  have hempty' : (t.ensure (deltaStreamForGeneration roomId next).physical).disk.read
      (deltaStreamForGeneration roomId next).physical = [] := (Disk.read_ensure _ _ _).trans hempty
  have hlog' : ManifestLog roomId ((t.ensure (deltaStreamForGeneration roomId next).physical).ensure
      (manifestStream roomId).physical).disk records := (hlog.ensure _).ensure _
  have hplan := planManifestPosition_of_held hlog'.toManifestHeld hcount hactive
  have hprevious : (activeGeneration records).value = 0 ↔ headDigest records = genesisDigest := by
    rw [headDigest]
    cases hlast : records.getLast? with
    | none =>
      rw [List.getLast?_eq_none_iff.mp hlast]
      exact iff_of_true rfl rfl
    | some latest =>
      refine iff_of_false (fun hzero => ?_) (hdigest latest hlast)
      rw [hzero] at hactive
      rw [List.eq_nil_of_length_eq_zero hactive.symm] at hlast
      cases hlast
  obtain ⟨record, hnew, hvalid⟩ : ∃ record, ManifestRecord.new roomId
      (activeGeneration records).value (headDigest records) (activeGeneration records).value bytes
      next.value = .ok record ∧ record.Valid :=
    ManifestRecord.exists_new hpos hword hsucc hprevious
  have hextends := h.extends hactive hsucc hnew
  refine wp_mapErr_bind (wp_ensureStream_answered (wp_mapErr_bind (wp_readAll_answered ?_)))
  refine wp_check_bind (fun _ => ?_) fun hnot => absurd hempty' hnot
  refine wp_run_bind.mpr ?_
  rw [nextManifestPosition]
  refine wp_mapErr_bind (wp_ensureStream_answered (wp_mapErr_bind (wp_readAll_answered ?_)))
  dsimp only
  rw [hplan]
  refine wp_lift_mapError_bind (fun _ heq => ?_) fun _ h => by rw [hnew] at h; cases h
  obtain rfl := Except.ok.inj (hnew.symm.trans heq)
  exact wp_mapErr_bind (wp_publishManifestRecord_answered hlog' hcount hvalid hextends fun _ =>
    hok _ _)

/-- A rotation over a store that answers succeeds exactly when it can write its checkpoint. -/
theorem wp_rotateRoom_answered
    (hempty : w.disk.read (deltaStreamForGeneration roomId next).physical = [])
    {endOffset : UInt64} {doc : Doc} {history : List Bytes} {checkpoint : CheckpointRecord}
    (hbuilt : buildCheckpointRecord roomId (activeGeneration records).value
      (activeGeneration records).value endOffset doc history = .ok checkpoint)
    (hencode : checkpoint.encode = .ok bytes)
    (hok : w.disk.read (checkpointStream roomId (activeGeneration records)).physical = [] ∨
        w.disk.read (checkpointStream roomId (activeGeneration records)).physical = bytes →
      ∀ result t, post (.ok result) t)
    (herr : w.disk.read (checkpointStream roomId (activeGeneration records)).physical ≠ [] →
      w.disk.read (checkpointStream roomId (activeGeneration records)).physical ≠ bytes →
      ∀ error t, post (.error error) t) :
    wp answered (.alone fun _ => True)
      (rotateRoom roomId (activeGeneration records) endOffset doc history retries).run post w := by
  obtain ⟨hroom, hgeneration, _, _⟩ := CheckpointRecord.generation_of_build hbuilt
  rw [rotateRoom]
  refine wp_okOr_bind (fun _ heq => ?_) fun hnone => by rw [hnext] at hnone; cases hnone
  obtain rfl := Option.some.inj (hnext.symm.trans heq)
  rw [hbuilt]
  refine wp_lift_mapError_bind (fun _ heq => ?_) fun _ h => by cases h
  obtain rfl := Except.ok.inj heq
  rw [hencode]
  refine wp_lift_mapError_bind (fun _ heq => ?_) fun _ h => by cases h
  obtain rfl := Except.ok.inj heq
  have hlog := h.manifest.log.ensure (checkpointStream roomId (activeGeneration records)).physical
  have hempty' := (Disk.read_ensure w.disk
    (checkpointStream roomId (activeGeneration records)).physical _).trans hempty
  refine wp_mapErr_bind (wp_persistCheckpoint_answered hroom hgeneration hencode
    (h.checkpoints _) (fun hthere _ => ?_) (fun hwritten _ => ?_)
    fun hfound hother => herr hfound hother _ _)
  · exact wp_rotateRoom_rest_answered h hcount hdigest hnext hencode hlog hempty'
      (hok (.inr hthere))
  · refine wp_rotateRoom_rest_answered h hcount hdigest hnext hencode
      (hlog.accept_ne checkpointStream_ne_manifestStream) ?_ (hok (.inl hwritten))
    exact (Disk.read_accept_ne deltaStream_ne_checkpointStream).trans hempty'

end Rotate

end Steps

/-! ## The next rotation of a room -/

variable {Op : Type} (S : Loro.Observers Doc Op)

/-- The room has gone on to the next generation: the head of the manifest names it and
verifies a checkpoint that holds all committed content. -/
structure Completed (roomId : String) (config : ActorConfig) (next : GenerationId)
    (a : RoomActor Doc) (w : World) : Prop where
  ready : a.lifecycle = .ready
  generation : a.activeDeltaGeneration = next
  published : ∃ (records : List ManifestRecord) (latest : ManifestRecord)
    (checkpoint : CheckpointRecord),
    ManifestLog roomId w.disk records ∧ records.getLast? = some latest ∧
    latest.activeDeltaGeneration = next.value ∧
    latest.verifiesCheckpointBytes
      (w.disk.read (checkpointStream roomId ⟨latest.checkpointGeneration⟩).physical) ∧
    checkpoint.encode =
      .ok (w.disk.read (checkpointStream roomId ⟨latest.checkpointGeneration⟩).physical) ∧
    ∀ generation, frameOps S config.frameLimits roomId generation w.disk ⊆
      S.baseOps (some checkpoint)

variable {S}

/-- What the head of the manifest says of a generation that starts from a checkpoint. -/
theorem OnDisk.published {w : World} (hkept : Kept Doc roomId config w) {limits : FrameLimits}
    {next : GenerationId} {checkpoint : CheckpointRecord} {frames : List DeltaFrame}
    (h : OnDisk Doc roomId limits w.disk next (some checkpoint) frames) :
    ∃ records latest, ManifestLog roomId w.disk records ∧ records.getLast? = some latest ∧
      latest.activeDeltaGeneration = next.value ∧
      latest.verifiesCheckpointBytes
        (w.disk.read (checkpointStream roomId ⟨latest.checkpointGeneration⟩).physical) ∧
      checkpoint.encode =
        .ok (w.disk.read (checkpointStream roomId ⟨latest.checkpointGeneration⟩).physical) := by
  obtain ⟨records, hrecords⟩ := hkept.stored
  have hactive := hrecords.current_iff.mp h.current
  obtain ⟨latest, hlast⟩ : ∃ latest, records.getLast? = some latest := by
    cases hlast : records.getLast? with
    | some latest => exact ⟨latest, rfl⟩
    | none =>
      rw [activeGeneration, hlast] at hactive
      have hstart := h.start
      rw [← hactive] at hstart
      cases hstart with
      | checkpoint hnext => exact absurd hnext (Nat.succ_ne_zero _).symm
  have hlinked := hrecords.manifest.linked latest (List.mem_of_getLast? hlast)
  obtain ⟨stored, bytes, hof, hencode, hverifies, hbytes⟩ := hlinked.stored
  have hread := (hrecords.checkpoints _).eq_of_isPrefix hencode hbytes
  rw [activeGeneration, hlast] at hactive
  obtain rfl : stored = checkpoint := by
    refine Option.some.inj (StartsFrom.unique (.checkpoint ?_ hof (hread ▸ hencode)) h.start)
    rw [← hactive]
    exact hlinked.active.trans (by rw [hlinked.generation])
  exact ⟨records, latest, hrecords.manifest.log, hlast, congrArg GenerationId.value hactive,
    hread ▸ hverifies, hread ▸ hencode⟩

/-- A rotation neither adds nor removes frames. -/
theorem RoomActor.Closing.frameOps_eq {a : RoomActor Doc} {d d' : Disk} {limits : FrameLimits}
    (h : a.Closing roomId d d') (generation : GenerationId) :
    frameOps S limits roomId generation d' = frameOps S limits roomId generation d :=
  frameOps_congr fun _ => FromFrame.congr fun source _ => h.deltas source

/-- The checkpoint of a completed rotation is the one that the generation starts from. -/
theorem Completed.frameOps_subset {w : World} {a : RoomActor Doc} {limits : FrameLimits}
    {next : GenerationId} {checkpoint : CheckpointRecord} {frames : List DeltaFrame}
    (h : Completed S roomId config next a w) (hkept : Kept Doc roomId config w)
    (hheld : OnDisk Doc roomId limits w.disk next (some checkpoint) frames)
    (generation : GenerationId) :
    frameOps S config.frameLimits roomId generation w.disk ⊆ S.baseOps (some checkpoint) := by
  obtain ⟨records, latest, checkpoint', hlog, hlast, _, _, hencode, hcontent⟩ := h.published
  obtain ⟨records', latest', hlog', hlast', _, _, hencode'⟩ := hheld.published hkept
  obtain rfl := hlog.unique hlog'.toManifestHeld
  obtain rfl := Option.some.inj (hlast.symm.trans hlast')
  have hdecode := CheckpointRecord.decodeExact_encode hencode
  rw [CheckpointRecord.decodeExact_encode hencode'] at hdecode
  exact Except.ok.inj hdecode ▸ hcontent generation

section Completion

variable {a : RoomActor Doc} {w : World}

/-- A store that answers every call and is known to be in order. -/
theorem answered_orderly : Orderly Doc roomId config
    fun w req x w' => answered w req x w' ∧ Kept Doc roomId config w ∧ Kept Doc roomId config w' where
  sub h := served_of_answered h.1
  kept h := h.2
  duplicate := by
    rintro w stream producer body n w' ⟨hserve, _⟩
    exact last_of_duplicate (fun _ heq => by cases heq) hserve

/-- A rotation that responds with success has closed the generation of the actor. -/
theorem rotated_of_response {serve : Serve Request Answer World}
    (hs : Orderly Doc roomId config serve) (ha : a.Seated roomId config)
    (hkept : Kept Doc roomId config w) {seen : List DeltaFrame}
    (htracks : a.Live → a.Tracks roomId config.frameLimits w.disk seen) :
    wp serve (Contract.orderly Doc roomId config fun _ => True) (a.handle .rotate)
      (fun r t => r.2 = [.respond true] → ∃ result, r.1 = a.withRotation result ∧
        Kept Doc roomId config t ∧ a.Closing roomId w.disk t.disk ∧
        a.Superseded roomId result.nextDeltaGeneration result.checkpoint t.disk) w := by
  refine wp_bind.mpr (hs.rotate ha hkept htracks (fun _ _ _ _ _ => trivial) ?_ ?_ ?_)
  · exact fun _ => nofun
  · exact fun _ _ _ _ _ _ => nofun
  · exact fun result t _ _ hkept' hclosing hsuperseded _ _ _ _ =>
      ⟨result, rfl, hkept', hclosing, hsuperseded⟩

/-- Such a rotation has completed exactly when the document held all committed content. -/
theorem completed_iff (sem : Loro.Semantics S) (ha : a.Remembers S)
    {next : GenerationId} (hnext : a.activeDeltaGeneration.checkedNext = some next) {t : World}
    (hkept : Kept Doc roomId config t) {result : RotationResult}
    (hclosing : a.Closing roomId w.disk t.disk)
    (hsuperseded : a.Superseded roomId result.nextDeltaGeneration result.checkpoint t.disk) :
    Completed S roomId config next (a.withRotation result) t ↔
      ∀ generation, frameOps S config.frameLimits roomId generation w.disk ⊆ S.known a.doc := by
  obtain rfl : result.nextDeltaGeneration = next := GenerationId.ext (UInt64.toNat_inj.mp
    (hsuperseded.succ.trans (GenerationId.checkedNext_eq_some.mp hnext).symm))
  have hheld : OnDisk Doc roomId config.frameLimits t.disk result.nextDeltaGeneration
      (some result.checkpoint) [] := hsuperseded.holding hkept
  simp only [← hsuperseded.baseOps sem ha, ← hclosing.frameOps_eq]
  constructor
  · exact fun h generation => h.frameOps_subset hkept hheld generation
  · intro hcontent
    obtain ⟨records, latest, hlog, hlast, hactive, hverifies, hencode⟩ := hheld.published hkept
    exact ⟨rfl, rfl, records, latest, result.checkpoint, hlog, hlast, hactive, hverifies, hencode,
      hcontent⟩

/-- A rotation over a store that answers is answered with success exactly when it can
write its checkpoint. -/
theorem wp_rotate_answered (ha : a.Seated roomId config) (hkept : Kept Doc roomId config w)
    (hready : a.lifecycle = .ready) (hcurrent : Current roomId a.activeDeltaGeneration w.disk)
    {next : GenerationId} (hnext : a.activeDeltaGeneration.checkedNext = some next)
    (hcount : (w.disk.read (manifestStream roomId).physical).length ≤ 188 * 65536)
    (hdigest : ∀ records latest, ManifestLog roomId w.disk records →
      records.getLast? = some latest → latest.digest ≠ genesisDigest)
    {checkpoint : CheckpointRecord} {bytes : Bytes}
    (hbuilt : buildCheckpointRecord roomId a.activeDeltaGeneration.value
      a.activeDeltaGeneration.value a.activeDeltaEndOffset a.doc a.history = .ok checkpoint)
    (hencode : checkpoint.encode = .ok bytes) :
    wp answered (.alone fun _ => True) (a.handle .rotate)
      (fun r _ => r.2 = [.respond true] ↔
        w.disk.read (checkpointStream roomId a.activeDeltaGeneration).physical = [] ∨
          w.disk.read (checkpointStream roomId a.activeDeltaGeneration).physical = bytes) w := by
  obtain ⟨records, hrecords⟩ := hkept.stored
  have hactive := hrecords.current_iff.mp hcurrent
  have hlog := hrecords.manifest.log
  have hblocked : a.blocked = none := by
    cases hblocked : a.blocked with
    | none => rfl
    | some pending => exact absurd hready (ha.blocked pending hblocked).1
  have hempty : w.disk.read (deltaStreamForGeneration roomId next).physical = [] := by
    by_contra hfound
    have hopened := (opened_iff hrecords).mp (hkept.delta.opened next hfound)
    rw [hactive, GenerationId.checkedNext_eq_some.mp hnext] at hopened
    exact absurd hopened (Nat.not_succ_le_self _)
  have hrecordCount : records.length ≤ 65536 := by
    rw [hlog.content, length_manifestBytes hlog.valid] at hcount
    omega
  refine wp_bind.mpr (RoomActor.wp_rotateGeneration (fun hnot => absurd ⟨hready, hblocked⟩ hnot)
    fun _ _ => ?_)
  rw [ha.room]
  rw [← hactive] at hnext hbuilt ⊢
  refine wp_rotateRoom_answered hrecords hrecordCount (fun latest hlast => hdigest _ _ hlog hlast)
    hnext hempty hbuilt hencode ?_ ?_
  · exact fun hok result t => iff_of_true rfl hok
  · exact fun hfound hother error t => iff_of_false nofun (not_or.mpr ⟨hfound, hother⟩)

/-- Where every frame was answered at once, a ready room holds all committed content. -/
theorem Mirrors.committed (h : Mirrors roomId config S w a) (hready : a.lifecycle = .ready)
    (generation : GenerationId) :
    frameOps S config.frameLimits roomId generation w.disk ⊆ S.known a.doc := by
  obtain ⟨base, frames, hmirrored, _, hknown⟩ := h.ready hready
  rw [hknown, hmirrored.content]
  rintro o ⟨blob, ⟨source, frame, hle, ⟨others, hlog, hframe⟩, hblob⟩, ho⟩
  refine ⟨blob, ⟨source, frame, UInt64.not_lt.mp fun hlt => ?_, ⟨others, hlog, hframe⟩, hblob⟩, ho⟩
  rw [hlog.eq_nil (hmirrored.later source hlt)] at hframe
  cases hframe

/-- The next rotation of a ready room, after any run over a lossy store, is done over a
store that answers, and it completes exactly when the checkpoint stream of the
generation is empty or holds the checkpoint that the room builds now, and the document
holds all committed content. -/
theorem interrupted_rotation_completes_iff (sem : Loro.Semantics S) (total : Loro.Total S)
    {events : List (Event (gateway Doc roomId config) World)}
    (hreach : RoomReachable (Policy.lossy : Policy Doc roomId config) ⟨w, .idle a, events⟩)
    (hready : a.lifecycle = .ready) {next : GenerationId}
    (hnext : a.activeDeltaGeneration.checkedNext = some next)
    (hsizes : ∀ checkpoint, buildCheckpointRecord roomId a.activeDeltaGeneration.value
      a.activeDeltaGeneration.value a.activeDeltaEndOffset a.doc a.history = .ok checkpoint →
      ∃ bytes, checkpoint.encode = .ok bytes)
    (hcount : (w.disk.read (manifestStream roomId).physical).length ≤ 188 * 65536)
    (hdigest : ∀ records latest, ManifestLog roomId w.disk records →
      records.getLast? = some latest → latest.digest ≠ genesisDigest) :
    ∃ (checkpoint : CheckpointRecord) (bytes : Bytes),
      buildCheckpointRecord roomId a.activeDeltaGeneration.value a.activeDeltaGeneration.value
        a.activeDeltaEndOffset a.doc a.history = .ok checkpoint ∧
      checkpoint.encode = .ok bytes ∧
      (∃ r w', Runs answered Eq (a.handle .rotate) w r w') ∧
      ∀ a' outputs w', Runs answered Eq (a.handle .rotate) w (a', outputs) w' →
        ((outputs = [.respond true] ∧ Completed S roomId config next a' w') ↔
          (w.disk.read (checkpointStream roomId a.activeDeltaGeneration).physical = [] ∨
            w.disk.read (checkpointStream roomId a.activeDeltaGeneration).physical = bytes) ∧
          ∀ generation, frameOps S config.frameLimits roomId generation w.disk ⊆ S.known a.doc) := by
  have hkept : Kept Doc roomId config w := RoomReachable.kept hreach
  have hplaced : a.Placed roomId config w := RoomReachable.placed hreach
  have hremembers : a.Remembers S :=
    RoomReachable.actor (RoomActor.Remembers.invariant sem) hreach
  obtain ⟨seen, hactor⟩ := (hreach.tracked sem Policy.lossy_quiet).blocked
  have htracks := (hactor (.inl hready)).1
  obtain ⟨checkpoint, _, hbuilt, _⟩ := checkpoint_keeps_pending sem total roomId
    a.activeDeltaGeneration.value a.activeDeltaGeneration.value a.activeDeltaEndOffset
    (RoomReachable.actor (RoomActor.importable_invariant total) hreach)
    hremembers.pending hremembers.known
  obtain ⟨bytes, hencode⟩ := hsizes checkpoint hbuilt
  have hwrites := wp_rotate_answered hplaced.toSeated hkept hready htracks.current hnext hcount
    hdigest hbuilt hencode
  obtain ⟨r, w', hrun, _⟩ := exists_run_of_answered hwrites
  refine ⟨checkpoint, bytes, hbuilt, hencode, ⟨r, w', hrun⟩, fun a' outputs w' hrun => ?_⟩
  have hwritten := (hrun.sound_alone trivial hwrites).2
  -- the run is a part of a run of the room
  have haccepts : (environment (Policy.lossy : Policy Doc roomId config)).accepts w a events .rotate :=
    trivial
  have hsettled := Reachable.handles_within (K := Kept Doc roomId config)
    (fun h => RoomReachable.kept h) (fun hserve => ⟨.answered, trivial, trivial, hserve⟩) haccepts
    hrun hreach
  have hrotated := (hsettled.sound_alone ⟨hkept, trivial⟩
    (rotated_of_response answered_orderly hplaced.toSeated hkept fun _ => htracks)).2
  rw [← hwritten]
  refine and_congr_right fun hresponse => ?_
  obtain ⟨result, rfl, hkept', hclosing, hsuperseded⟩ := hrotated hresponse
  exact completed_iff sem hremembers hnext hkept' hclosing hsuperseded

end Completion

/-- A store that answers the appends to the delta streams is a lossy store. -/
theorem RoomReachable.lossy_of_settling {g : System (gateway Doc roomId config) World}
    (hreach : RoomReachable Policy.settling g) : RoomReachable Policy.lossy g := by
  unfold RoomReachable at hreach ⊢
  suffices hlarger : ∀ {task w req x w'},
      (environment (Policy.settling : Policy Doc roomId config)).serve task w req x w' →
        (environment (Policy.lossy : Policy Doc roomId config)).serve task w req x w' by
    exact hreach.mono (fun _ _ _ _ _ => hlarger) (fun _ _ _ h => h) (fun _ _ _ h => h)
      (fun _ _ _ _ h => h) (fun _ _ h => h) fun _ h => h
  rintro task w req x w' ⟨fate, hfate, hanswer, heq⟩
  exact ⟨fate, Policy.settling_prompt hfate, hanswer, heq⟩

end

open Sample

/-! ## A rotation that stopped after its checkpoint -/

/-- The bytes of the checkpoint that a sample room builds. -/
def nextCheckpoint (a : RoomActor OpDoc) : Option Bytes :=
  match buildCheckpointRecord "r" a.activeDeltaGeneration.value a.activeDeltaGeneration.value
    a.activeDeltaEndOffset a.doc a.history with
  | .ok checkpoint => checkpoint.encode.toOption
  | .error _ => none

theorem nextCheckpoint_eq_some {a : RoomActor OpDoc} {bytes : Bytes}
    (h : nextCheckpoint a = some bytes) :
    ∃ checkpoint, buildCheckpointRecord "r" a.activeDeltaGeneration.value
      a.activeDeltaGeneration.value a.activeDeltaEndOffset a.doc a.history = .ok checkpoint ∧
      checkpoint.encode = .ok bytes := by
  rw [nextCheckpoint] at h
  split at h
  · rename_i checkpoint hbuilt
    refine ⟨checkpoint, hbuilt, ?_⟩
    cases hencode : checkpoint.encode with
    | ok encoded =>
      rw [hencode] at h
      cases h
      rfl
    | error error =>
      rw [hencode] at h
      cases h
  · cases h

/-- A rotation stops after its checkpoint and the room is started again.  The checkpoint
is still the one that the room builds, and the next rotation completes. -/
theorem interrupted_rotation_completes_iff_untouched :
    ∃ (w : World) (a : RoomActor OpDoc) (events : List (Event (sampleGateway .default) World))
      (a' : RoomActor OpDoc) (outputs : List Output) (w' : World),
      RoomReachable (Policy.lossy : Policy OpDoc "r" .default) ⟨w, .idle a, events⟩ ∧
      w.disk.read (checkpointStream "r" a.activeDeltaGeneration).physical ≠ [] ∧
      Runs answered Eq (a.handle .rotate) w (a', outputs) w' ∧ outputs = [.respond true] ∧
      Completed OpDoc.observers "r" .default ⟨1⟩ a' w' := by
  have hrun : ((answeringDirection .default).director.run
      [.boot (sampleBoot 1) (answeredAll 4), .command (.join 1 [] 7) [],
        .command (.update 1 (sampleBatch 1) [[1, 0]] 7) (answeredAll 1),
        .interrupted .rotate (answeredAll 3), .boot (sampleBoot 2) (answeredAll 4)]
      ⟨World.empty, .down, []⟩).any (whenIdle fun w a _ => decide (a.lifecycle = .ready) &&
        decide (a.activeDeltaGeneration = .zero) &&
          decide (w.disk.read (manifestStream "r").physical = []) &&
          decide (nextCheckpoint a =
            some (w.disk.read (checkpointStream "r" a.activeDeltaGeneration).physical))) = true := by
    decide +kernel
  obtain ⟨w, a, events, hanswering, hend⟩ := Direction.exists_idle_of_run hrun
  simp only [Bool.and_eq_true, decide_eq_true_eq] at hend
  obtain ⟨⟨⟨hready, hgeneration⟩, hmanifest⟩, hnext⟩ := hend
  have hreach : RoomReachable (Policy.lossy : Policy OpDoc "r" .default) ⟨w, .idle a, events⟩ :=
    hanswering.settling.lossy_of_settling
  obtain ⟨checkpoint, hbuilt, hencode⟩ := nextCheckpoint_eq_some hnext
  have hsizes : ∀ other, buildCheckpointRecord "r" a.activeDeltaGeneration.value
      a.activeDeltaGeneration.value a.activeDeltaEndOffset a.doc a.history = .ok other →
      ∃ bytes, other.encode = .ok bytes := by
    intro other hother
    obtain rfl := Except.ok.inj (hbuilt.symm.trans hother)
    exact ⟨_, hencode⟩
  have hcount : (w.disk.read (manifestStream "r").physical).length ≤ 188 * 65536 := by
    rw [hmanifest]
    exact Nat.zero_le _
  have hdigest : ∀ records latest, ManifestLog "r" w.disk records →
      records.getLast? = some latest → latest.digest ≠ genesisDigest := by
    intro records latest hlog hlast
    rw [(manifestBytes_eq_nil hlog.valid).mp (hlog.content.symm.trans hmanifest)] at hlast
    cases hlast
  have hsucc : a.activeDeltaGeneration.checkedNext = some ⟨1⟩ := by
    rw [hgeneration]
    rfl
  obtain ⟨checkpoint', bytes, hbuilt', hencode', ⟨⟨a', outputs⟩, w', hturn⟩, hiff⟩ :=
    interrupted_rotation_completes_iff OpDoc.semantics OpDoc.total hreach hready hsucc hsizes hcount
      hdigest
  obtain rfl := Except.ok.inj (hbuilt.symm.trans hbuilt')
  have hbytes := Except.ok.inj (hencode.symm.trans hencode')
  have hmirrors := hanswering.settling.mirrors OpDoc.semantics
  obtain ⟨hresponse, hcompleted⟩ := (hiff a' outputs w' hturn).mpr
    ⟨.inr hbytes, hmirrors.committed hready⟩
  refine ⟨w, a, events, a', outputs, w', hreach, fun hempty => ?_, hturn, hresponse, hcompleted⟩
  have hpos := (CheckpointRecord.encode_length hencode).1
  rw [hempty] at hpos
  exact absurd hpos (Nat.lt_irrefl 0)

/-- A turn that ends with the response of a failure. -/
def refuses : Option (StoreM (RoomActor OpDoc × List Output) × World) → Bool
  | some (.ret (_, [.respond false]), _) => true
  | _ => false

theorem exists_of_refuses {played : Option (StoreM (RoomActor OpDoc × List Output) × World)}
    (h : refuses played = true) : ∃ a w, played = some (.ret (a, [.respond false]), w) := by
  match played with
  | some (.ret (a, [.respond false]), w) => exact ⟨a, w, rfl⟩

/-- A rotation stops after its checkpoint, the room is started again and takes one more
update.  The next rotation finds a checkpoint that is not the one that it builds. -/
theorem interrupted_rotation_stays_incomplete :
    ∃ (w : World) (a : RoomActor OpDoc) (events : List (Event (sampleGateway .default) World))
      (checkpoint : CheckpointRecord) (bytes : Bytes) (a' : RoomActor OpDoc) (w' : World),
      RoomReachable (Policy.lossy : Policy OpDoc "r" .default) ⟨w, .idle a, events⟩ ∧
      a.lifecycle = .ready ∧ a.activeDeltaGeneration = .zero ∧
      w.disk.read (manifestStream "r").physical = [] ∧
      buildCheckpointRecord "r" a.activeDeltaGeneration.value a.activeDeltaGeneration.value
        a.activeDeltaEndOffset a.doc a.history = .ok checkpoint ∧
      checkpoint.encode = .ok bytes ∧
      Runs answered Eq (a.handle .rotate) w (a', [.respond false]) w' := by
  have hrun : ((lossyDirection .default).director.run
      [.boot (sampleBoot 1) (answeredAll 4), .command (.join 1 [] 7) [],
        .command (.update 1 (sampleBatch 1) [[1, 0]] 7) (answeredAll 1),
        .interrupted .rotate (answeredAll 3),
        .boot (sampleBoot 2) (answeredAll 4), .command (.join 1 [] 7) [],
        .command (.update 1 (sampleBatch 2) [[1, 2]] 7) (answeredAll 1)]
      ⟨World.empty, .down, []⟩).any (whenIdle fun w a _ => decide (a.lifecycle = .ready) &&
        decide (a.activeDeltaGeneration = .zero) &&
          decide (w.disk.read (manifestStream "r").physical = []) && (nextCheckpoint a).isSome &&
            refuses ((a.handle .rotate).play answeredHost [(), ()] w)) = true := by
    decide +kernel
  obtain ⟨w, a, events, hreach, hend⟩ := Direction.exists_idle_of_run hrun
  simp only [Bool.and_eq_true, decide_eq_true_eq] at hend
  obtain ⟨⟨⟨⟨hready, hgeneration⟩, hmanifest⟩, hsome⟩, hrefuses⟩ := hend
  obtain ⟨bytes, hbytes⟩ := Option.isSome_iff_exists.mp hsome
  obtain ⟨checkpoint, hbuilt, hencode⟩ := nextCheckpoint_eq_some hbytes
  obtain ⟨a', w', hplay⟩ := exists_of_refuses hrefuses
  refine ⟨w, a, events, checkpoint, bytes, a', w', hreach, hready, hgeneration, hmanifest, hbuilt,
    hencode, Runs.of_play (fun _ _ _ _ _ hserve => ?_) hplay⟩
  exact (Option.some.inj hserve).symm

end LoroGateway
