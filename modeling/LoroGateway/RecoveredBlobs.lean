import LoroGateway.Restart
import LoroGateway.SnapshotPolicy

/-!
# The rules for blobs after a recovery

A room gets its history in three ways: it replays the stream of a room that has
no manifest, it recovers from the manifest, or it reloads its active stream
after an ambiguous append.  The first and the last check each frame with
`validate_update_blobs`; the recovery from the manifest checks nothing.
`recovered_blobs_follow_iff` says for each of them when a room that becomes
ready keeps the rules of `BlobRules`.

A full snapshot is allowed as the only blob of the first frame of the room.
The replay of a reload starts with an empty history in every generation, so it
takes the first frame of a generation for the first frame of the room.
-/

namespace LoroGateway

open ByteCodec CrashLogic CrashLogic.Server

/-! ## Frames that keep the rules -/

section Frames

variable (Doc : Type) [Loro Doc]

/-- Each frame keeps the rules, where `first` says that no frame of the room
comes before them. -/
def FramesFollow (first : Prop) : List DeltaFrame → Prop
  | [] => True
  | frame :: frames =>
    (∃ allowSnapshot : Bool, (allowSnapshot = true → first) ∧
      BlobRules Doc allowSnapshot frame.updates) ∧ FramesFollow False frames

/-- The first frame is a full snapshot and nothing else. -/
def StartsWithSnapshot (frames : List DeltaFrame) : Prop :=
  ∃ frame rest blob, frames = frame :: rest ∧ frame.updates = [blob] ∧
    Loro.decodeImportBlobMeta Doc blob = .ok .snapshot

variable {Doc} {first : Prop} {frames : List DeltaFrame}

theorem FramesFollow.mono {first' : Prop} (h : FramesFollow Doc first frames)
    (himp : first → first') : FramesFollow Doc first' frames := by
  cases frames with
  | nil => trivial
  | cons frame frames =>
    have ⟨⟨allowSnapshot, hallow, hrules⟩, hrest⟩ := h
    exact ⟨⟨allowSnapshot, fun hsnapshot => himp (hallow hsnapshot), hrules⟩, hrest⟩

/-- The replay checks the rules, and takes the first frame of the stream for that of the
room. -/
theorem collectHistory_ok_iff {history : List Bytes} :
    (∃ collected, collectHistory Doc history frames = .ok collected) ↔
      FramesFollow Doc (history = []) frames := by
  induction frames generalizing history with
  | nil => exact iff_of_true ⟨history, rfl⟩ trivial
  | cons frame frames ih =>
    constructor
    · intro h
      have ⟨collected, hcollected⟩ := h
      have ⟨_, hvalid, htail⟩ := bind_eq_ok.1 hcollected
      have hrules := validateUpdateBlobs_eq_ok.1 hvalid
      have hfollow := ih.1 ⟨collected, htail⟩
      refine ⟨⟨history.isEmpty, List.isEmpty_iff.1, hrules⟩, hfollow.mono ?_⟩
      simp [hrules.nonempty]
    · intro h
      have ⟨⟨allowSnapshot, hallow, hrules⟩, hfollow⟩ := h
      have hrules' : BlobRules Doc history.isEmpty frame.updates := by
        constructor
        · exact hrules.nonempty
        · exact hrules.filled
        · intro blob hmem
          apply (hrules.mode blob hmem).imp_right
          intro hsnapshot
          exact ⟨hsnapshot.1, List.isEmpty_iff.2 (hallow hsnapshot.2.1), hsnapshot.2.2⟩
      have htail : FramesFollow Doc (history ++ frame.updates = []) frames := hfollow.mono nofun
      have ⟨collected, hcollected⟩ := ih.2 htail
      exact ⟨collected, bind_eq_ok.2 ⟨(), validateUpdateBlobs_eq_ok.2 hrules', hcollected⟩⟩

/-- Of the frames that a replay accepts, only a full snapshot at the start depends on
whether the room is new. -/
theorem framesFollow_iff (h : FramesFollow Doc True frames) :
    FramesFollow Doc first frames ↔ first ∨ ¬ StartsWithSnapshot Doc frames := by
  cases frames with
  | nil =>
    apply iff_of_true trivial
    right
    intro hstarts
    have ⟨_, _, _, hnil, _⟩ := hstarts
    cases hnil
  | cons frame frames =>
    have ⟨⟨allowSnapshot, _, hrules⟩, hrest⟩ := h
    constructor
    · intro hfollow
      by_contra hnot
      have ⟨hnew, hstarts⟩ := not_or.1 hnot
      have ⟨other, rest, blob, heq, honly, hmode⟩ := not_not.1 hstarts
      have ⟨⟨allowSnapshot', hallow', hrules'⟩, _⟩ := hfollow
      have hother := (List.cons.inj heq).1
      have hmem : blob ∈ frame.updates := by
        rw [hother, honly]
        exact List.mem_cons_self
      have hsnapshot := (hrules'.mode blob hmem).resolve_left (by simp [hmode])
      exact hnew (hallow' hsnapshot.2.1)
    · intro hor
      rcases hor with hnew | hstarts
      · exact h.mono fun _ => hnew
      · refine ⟨⟨false, nofun, hrules.nonempty, hrules.filled, ?_⟩, hrest⟩
        intro blob hmem
        rcases hrules.mode blob hmem with hupdates | ⟨hsnapshot, _, hlength⟩
        · exact Or.inl hupdates
        · have ⟨only, honly⟩ := List.length_eq_one_iff.1 hlength
          have hblob : blob = only := by simpa [honly] using hmem
          exact absurd ⟨frame, frames, blob, rfl, hblob ▸ honly, hsnapshot⟩ hstarts

theorem framesFollow_singleton {updates : List Bytes}
    (h : frames.map DeltaFrame.updates = [updates]) :
    FramesFollow Doc first frames ↔
      ∃ allowSnapshot : Bool, (allowSnapshot = true → first) ∧
        BlobRules Doc allowSnapshot updates := by
  have ⟨frame, hframe, hupdates⟩ := List.map_eq_singleton_iff.1 h
  rw [hframe, ← hupdates]
  unfold FramesFollow
  exact and_iff_left trivial

end Frames

/-! ## What the streams of a room hold -/

section Content

variable [Hashing] {Doc : Type} [Loro Doc] {roomId : String} {limits : FrameLimits}

/-- No frame of the room lies in an earlier generation. -/
def FirstOfRoom (roomId : String) (generation : GenerationId) (d : Disk) : Prop :=
  ∀ earlier : GenerationId, earlier.value < generation.value →
    d.read (deltaStreamForGeneration roomId earlier).physical = []

/-- The blob is the only one of the first frame of the room. -/
def SoleFirstBlob (roomId : String) (limits : FrameLimits) (d : Disk) (blob : Bytes) : Prop :=
  ∃ generation frame frames, FirstOfRoom roomId generation d ∧
    decodeAllWithLimits (d.read (deltaStreamForGeneration roomId generation).physical) limits =
      .ok (frame :: frames) ∧ frame.updates = [blob]

/-- The streams of a room that has a manifest, as they are decoded. -/
structure ManifestContent (roomId : String) (limits : FrameLimits) (d : Disk)
    (latest : ManifestRecord) (checkpoint : CheckpointRecord) (frames : List DeltaFrame) :
    Prop where
  present : d.read (manifestStream roomId).physical ≠ []
  manifest : ∃ records,
    decodeManifestStream (d.read (manifestStream roomId).physical) .default = .ok records ∧
      validateManifestChain records roomId = .ok latest
  stored : d.read (checkpointStream roomId ⟨latest.checkpointGeneration⟩).physical ≠ []
  verifies : latest.verifiesCheckpointBytes
    (d.read (checkpointStream roomId ⟨latest.checkpointGeneration⟩).physical)
  decoded : CheckpointRecord.decodeExact
    (d.read (checkpointStream roomId ⟨latest.checkpointGeneration⟩).physical) .default =
      .ok checkpoint
  linked : validateCheckpointLink roomId latest.checkpointGeneration
    latest.activeDeltaGeneration checkpoint = .ok ()
  delta : decodeAllWithLimits
    (d.read (deltaStreamForGeneration roomId ⟨latest.activeDeltaGeneration⟩).physical) limits =
      .ok frames
  word : (d.read (deltaStreamForGeneration roomId
    ⟨latest.activeDeltaGeneration⟩).physical).length < wordSize

/-- A manifest never names generation zero as active. -/
theorem ManifestContent.active_pos {d : Disk} {latest : ManifestRecord}
    {checkpoint : CheckpointRecord} {frames : List DeltaFrame}
    (h : ManifestContent roomId limits d latest checkpoint frames) :
    0 < latest.activeDeltaGeneration := by
  have hlinked := h.linked
  unfold validateCheckpointLink at hlinked
  have ⟨_, hlinked⟩ := check_bind_eq_ok.1 hlinked
  have ⟨_, hlinked⟩ := check_bind_eq_ok.1 hlinked
  have ⟨_, hlinked⟩ := check_bind_eq_ok.1 hlinked
  have ⟨expected, hexpected, hlinked⟩ := okOr_bind_eq_ok.1 hlinked
  have hactive := check_eq_ok.1 hlinked
  have hnext := checkedAddU64_eq_some.1 hexpected
  rw [UInt64.lt_iff_toNat_lt, hactive, hnext]
  exact Nat.succ_pos _

/-- The content of the streams, if all of it is decoded and linked. -/
def readContent (roomId : String) (limits : FrameLimits) (d : Disk) :
    Except RecoveryError (ManifestRecord × CheckpointRecord × List DeltaFrame) := do
  check (d.read (manifestStream roomId).physical ≠ []) (RecoveryError.loro "no manifest")
  let records ← (decodeManifestStream (d.read (manifestStream roomId).physical)
    .default).mapError RecoveryError.manifest
  let latest ← (validateManifestChain records roomId).mapError RecoveryError.manifest
  let stored := d.read (checkpointStream roomId ⟨latest.checkpointGeneration⟩).physical
  check (stored ≠ []) (RecoveryError.missingCheckpoint latest.checkpointGeneration)
  check (latest.verifiesCheckpointBytes stored) RecoveryError.checkpointManifestMismatch
  let checkpoint ←
    (CheckpointRecord.decodeExact stored .default).mapError RecoveryError.checkpoint
  validateCheckpointLink roomId latest.checkpointGeneration latest.activeDeltaGeneration
    checkpoint
  let delta :=
    d.read (deltaStreamForGeneration roomId ⟨latest.activeDeltaGeneration⟩).physical
  let frames ← (decodeAllWithLimits delta limits).mapError RecoveryError.frame
  check (delta.length < wordSize) RecoveryError.lengthOverflow
  return (latest, checkpoint, frames)

theorem manifestContent_of_readContent {d : Disk} {latest : ManifestRecord}
    {checkpoint : CheckpointRecord} {frames : List DeltaFrame}
    (h : readContent roomId limits d = .ok (latest, checkpoint, frames)) :
    ManifestContent roomId limits d latest checkpoint frames := by
  unfold readContent at h
  have ⟨hpresent, h⟩ := check_bind_eq_ok.1 h
  have ⟨records, hrecords, h⟩ := bind_eq_ok.1 h
  have ⟨found, hfound, h⟩ := bind_eq_ok.1 h
  have ⟨hstored, h⟩ := check_bind_eq_ok.1 h
  have ⟨hverifies, h⟩ := check_bind_eq_ok.1 h
  have ⟨decoded, hdecoded, h⟩ := bind_eq_ok.1 h
  have ⟨_, hlinked, h⟩ := bind_eq_ok.1 h
  have ⟨delta, hdelta, h⟩ := bind_eq_ok.1 h
  have ⟨hword, h⟩ := check_bind_eq_ok.1 h
  cases h
  exact ⟨hpresent, ⟨records, mapError_eq_ok.1 hrecords, mapError_eq_ok.1 hfound⟩, hstored,
    hverifies, mapError_eq_ok.1 hdecoded, hlinked, mapError_eq_ok.1 hdelta, hword⟩

/-- The blobs that a recovery from the manifest puts into the history keep the rules. -/
structure ContentFollows (Doc : Type) [Loro Doc] (roomId : String) (limits : FrameLimits)
    (d : Disk) (latest : ManifestRecord) (checkpoint : CheckpointRecord)
    (frames : List DeltaFrame) : Prop where
  filled : ∀ blob ∈ checkpoint.pendingUpdates, blob ≠ []
  mode : ∀ blob ∈ checkpoint.pendingUpdates,
    Loro.decodeImportBlobMeta Doc blob = .ok .updates ∨
      Loro.decodeImportBlobMeta Doc blob = .ok .snapshot ∧ SoleFirstBlob roomId limits d blob
  frames : FramesFollow Doc (FirstOfRoom roomId ⟨latest.activeDeltaGeneration⟩ d) frames

/-- Loro restores the snapshot and imports the blobs. -/
def rebuild (Doc : Type) [Loro Doc] (checkpoint : CheckpointRecord) (frames : List DeltaFrame) :
    Except RecoveryError Doc := do
  let restored ← (Loro.fromSnapshot checkpoint.snapshot).mapError RecoveryError.loro
  let base ← importRecovered restored checkpoint.pendingUpdates
  importRecovered base (frames.flatMap DeltaFrame.updates)

omit [Hashing] in
theorem rebuild_error {checkpoint : CheckpointRecord} {frames : List DeltaFrame}
    {error : RecoveryError} (h : rebuild Doc checkpoint frames = .error error) :
    ∃ message, error = .loro message := by
  have himport : ∀ (doc : Doc) (updates : List Bytes),
      ErrorsIn (fun error => ∃ message, error = .loro message) (importRecovered doc updates) :=
    fun doc updates error herror => importRecovered_error herror
  have herrors : ErrorsIn (fun error => ∃ message, error = .loro message)
      (rebuild Doc checkpoint frames) := by
    unfold rebuild
    apply ErrorsIn.bind
    · exact .mapError fun message => ⟨message, rfl⟩
    · intro restored _
      apply ErrorsIn.bind
      · exact himport restored _
      · intro base _
        exact himport base _
  exact herrors error h

/-- The room holds the history only if it keeps the rules, and is corrupt if it does
not. -/
structure Enforces (a : RoomActor Doc) (history : List Bytes) (rules : Prop) : Prop where
  ready : a.lifecycle = .ready → a.history = history ∧ rules
  corrupt : ¬ rules → a.lifecycle = .corrupt

/-- A recovery over a store that answers makes of the content what Loro makes of it. -/
theorem wp_recoverFromManifest_answered {w : World} {latest : ManifestRecord}
    {checkpoint : CheckpointRecord} {frames : List DeltaFrame}
    (h : ManifestContent roomId limits w.disk latest checkpoint frames) :
    wp answered (.alone fun _ => True) (recoverFromManifest Doc roomId limits).run
      (fun r _ =>
        match r with
        | .ok (some recovery) => rebuild Doc checkpoint frames = .ok recovery.doc ∧
            recovery.history = checkpoint.pendingUpdates ++ frames.flatMap DeltaFrame.updates
        | .ok none => False
        | .error error => rebuild Doc checkpoint frames = .error error) w := by
  have hread : ∀ stream, (w.ensure (manifestStream roomId).physical).disk.read stream =
      w.disk.read stream := fun stream => Disk.read_ensure _ _ _
  obtain ⟨records, hrecords, hchain⟩ := h.manifest
  unfold recoverFromManifest
  apply wp_mapErr_bind
  apply wp_ensureStream_answered
  apply wp_mapErr_bind
  apply wp_readAll_answered
  simp only [hread]
  rw [if_neg h.present, hrecords]
  refine wp_lift_mapError_bind (fun _ hr => ?_) fun _ h => by cases h
  cases hr
  rw [hchain]
  refine wp_lift_mapError_bind (fun _ hl => ?_) fun _ h => by cases h
  cases hl
  apply wp_mapErr_bind
  apply wp_readAll_answered
  simp only [hread]
  refine wp_check_bind (fun _ => ?_) fun hnot => absurd h.stored hnot
  refine wp_check_bind (fun _ => ?_) fun hnot => absurd h.verifies hnot
  rw [h.decoded]
  refine wp_lift_mapError_bind (fun _ hc => ?_) fun _ h => by cases h
  cases hc
  rw [h.linked]
  refine wp_lift_bind (fun _ _ => ?_) fun _ h => by cases h
  unfold rebuild
  refine wp_lift_mapError_bind (fun restored hrestored => ?_) fun message hmessage => ?_
  · rw [hrestored]
    refine wp_lift_bind (fun base hbase => ?_) fun error herror => ?_
    · apply wp_mapErr_bind
      apply wp_readAll_answered
      simp only [hread]
      rw [h.delta]
      refine wp_lift_mapError_bind (fun _ hf => ?_) fun _ h => by cases h
      cases hf
      rw [importActive_append]
      refine wp_lift_bind (fun doc hdoc => ?_) fun error herror => ?_
      · refine wp_okOr_bind (fun endOffset hend => ?_) fun hlong => ?_
        · exact ⟨bind_eq_ok.2 ⟨restored, rfl, bind_eq_ok.2 ⟨base, hbase, hdoc⟩⟩, rfl⟩
        · rw [u64OfUsize, if_pos h.word] at hlong
          cases hlong
      · show (importRecovered restored checkpoint.pendingUpdates >>= _) = _
        rw [hbase]
        exact herror
    · show (importRecovered restored checkpoint.pendingUpdates >>= _) = _
      rw [herror]
      rfl
  · rw [hmessage]
    rfl

namespace RoomActor

theorem wp_activate_manifest (Doc : Type) [Loro Doc] (config : ActorConfig)
    (boot : Boot) {w : World} {latest : ManifestRecord} {checkpoint : CheckpointRecord}
    {frames : List DeltaFrame}
    (h : ManifestContent roomId config.frameLimits w.disk latest checkpoint frames) :
    wp answered (.alone fun _ => True) (activate roomId config boot)
      (fun (a : RoomActor Doc) _ =>
        match rebuild Doc checkpoint frames with
        | .ok _ => a.lifecycle = .ready ∧
            a.history = checkpoint.pendingUpdates ++ frames.flatMap DeltaFrame.updates
        | .error _ => a.lifecycle = .corrupt) w := by
  unfold activate initializeActor
  rw [wp_bind, wp_bind]
  refine wp_mono ?_ (wp_recoverFromManifest_answered h)
  intro r t hr
  match r with
  | .ok (some recovery) =>
    rw [hr.1]
    exact ⟨rfl, hr.2⟩
  | .ok none => exact hr.elim
  | .error error =>
    have ⟨message, herror⟩ := rebuild_error hr
    rw [hr]
    subst herror
    rfl

/-- What `retry_pending` does once the append is resolved. -/
def reload (a : RoomActor Doc) (pending : PendingAppend) : StoreM (RoomActor Doc × Bool) := do
  let (a, loaded) ← a.loadFromStore
  return finishReload pending a loaded

theorem retryPending_eq {a : RoomActor Doc} {pending : PendingAppend}
    (h : a.blocked = some pending) :
    a.retryPending = (resolveAppend a.config pending >>= fun resolved =>
      match resolved with
      | .ok _ => ({ a with blocked := none } : RoomActor Doc).reload pending
      | .error (.definitelyRejected kind message) =>
        return ({ a with blocked := some pending }.transition .unavailable
          (some ("ambiguous append retry was definitely rejected (" ++ kind.debug ++ "): " ++
            message)), false)
      | .error (.outcomeUnknown error) =>
        return ({ a with blocked := some pending }.transition .appendAmbiguous
          (some error.display), false)) := by
  unfold retryPending
  rw [h]
  rfl

theorem wp_reload {a : RoomActor Doc} (pending : PendingAppend) {w : World}
    (hword : (w.disk.read a.stream).length < wordSize) :
    wp answered (.alone fun _ => True) (a.reload pending)
      (fun result _ =>
        match replayStream Doc a.config.frameLimits (w.disk.read a.stream) with
        | .ok loaded => result.1.lifecycle ≠ .corrupt ∧
            (result.1.lifecycle = .ready → result.1.history = loaded.1)
        | .error _ => result.1.lifecycle = .corrupt) w := by
  have hlength : u64OfUsize (w.disk.read a.stream).length =
      some (UInt64.ofNat (w.disk.read a.stream).length) := if_pos hword
  unfold reload loadFromStore
  rw [wp_bind, wp_bind]
  apply wp_readAll_answered
  simp only [hlength]
  cases hreplay : replayStream Doc a.config.frameLimits (w.disk.read a.stream) with
  | error failure => exact replayStream_error hreplay
  | ok loaded =>
    show (finishReload pending _ (.ok loaded)).1.lifecycle ≠ _ ∧ _
    unfold finishReload
    cases checkedAddU64 pending.producer.sequence 1 with
    | none => exact ⟨nofun, nofun⟩
    | some next => exact ⟨nofun, fun _ => rfl⟩

end RoomActor

omit [Hashing] [Loro Doc] in
theorem Enforces.of_corrupt {a : RoomActor Doc} {history : List Bytes} {rules : Prop}
    (h : a.lifecycle = .corrupt) : Enforces a history rules :=
  ⟨fun hready => absurd (h.symm.trans hready) nofun, fun _ => h⟩

/-- A stream that is replayed and kept. -/
theorem replayStream_follows {limits : FrameLimits} {bytes : Bytes} {frames : List DeltaFrame}
    {loaded : List Bytes × Doc} (hdecode : decodeAllWithLimits bytes limits = .ok frames)
    (h : replayStream Doc limits bytes = .ok loaded) :
    loaded.1 = frames.flatMap DeltaFrame.updates ∧ FramesFollow Doc True frames := by
  have ⟨found, hfound, hcollected, _⟩ := replayStream_eq_ok h
  rw [hdecode] at hfound
  cases hfound
  have hsame := collectHistory_eq_ok hcollected
  have hfollow : FramesFollow Doc ([] = ([] : List Bytes)) frames :=
    collectHistory_ok_iff.1 ⟨loaded.1, hcollected⟩
  exact ⟨hsame, hfollow.mono fun _ => trivial⟩

/-- A replay of a room without a manifest enforces the rules.  A recovery from the
manifest does so only where the content keeps them already or Loro does not import it.
A reload does so unless it accepts a stream of a later generation of a room that is not
new, and the stream starts with a full snapshot. -/
theorem recovered_blobs_follow_iff (roomId : String) (config : ActorConfig)
    (boot : Boot) (w : World) :
    (∀ (frames : List DeltaFrame) (a : RoomActor Doc) (w' : World),
      w.disk.read (manifestStream roomId).physical = [] →
      (w.disk.read (deltaStream roomId).physical).length < wordSize →
      decodeAllWithLimits (w.disk.read (deltaStream roomId).physical) config.frameLimits =
        .ok frames →
      Runs answered Eq (RoomActor.activate roomId config boot) w a w' →
      Enforces a (frames.flatMap DeltaFrame.updates) (FramesFollow Doc True frames)) ∧
    (∀ (latest : ManifestRecord) (checkpoint : CheckpointRecord) (frames : List DeltaFrame)
      (a : RoomActor Doc) (w' : World),
      ManifestContent roomId config.frameLimits w.disk latest checkpoint frames →
      Runs answered Eq (RoomActor.activate roomId config boot) w a w' →
      (Enforces a (checkpoint.pendingUpdates ++ frames.flatMap DeltaFrame.updates)
          (ContentFollows Doc roomId config.frameLimits w.disk latest checkpoint frames) ↔
        ContentFollows Doc roomId config.frameLimits w.disk latest checkpoint frames ∨
          ∃ error, rebuild Doc checkpoint frames = .error error)) ∧
    (∀ (generation : GenerationId) (a : RoomActor Doc) (pending : PendingAppend)
      (frames : List DeltaFrame) (result : RoomActor Doc × Bool) (w' : World),
      a.stream = (deltaStreamForGeneration roomId generation).physical →
      (w.disk.read a.stream).length < wordSize →
      decodeAllWithLimits (w.disk.read a.stream) a.config.frameLimits = .ok frames →
      Runs answered Eq (a.reload pending) w result w' →
      (Enforces result.1 (frames.flatMap DeltaFrame.updates)
          (FramesFollow Doc (FirstOfRoom roomId generation w.disk) frames) ↔
        FirstOfRoom roomId generation w.disk ∨ ¬ StartsWithSnapshot Doc frames ∨
          ∃ failure, replayStream Doc a.config.frameLimits (w.disk.read a.stream) =
            .error failure)) := by
  refine ⟨?_, ?_, ?_⟩
  · intro frames a w' hempty hword hdecode hrun
    have hstart := RoomActor.wp_activate_replay Doc config boot hempty hword
    have hresult := (hrun.sound_alone trivial hstart).2
    cases hreplay : replayStream Doc config.frameLimits
        (w.disk.read (deltaStream roomId).physical) with
    | ok loaded =>
      simp only [hreplay] at hresult
      have ⟨hhistory, hfollow⟩ := replayStream_follows hdecode hreplay
      exact ⟨fun _ => ⟨hresult.2.trans hhistory, hfollow⟩, fun hnot => absurd hfollow hnot⟩
    | error failure =>
      simp only [hreplay] at hresult
      exact .of_corrupt hresult
  · intro latest checkpoint frames a w' hcontent hrun
    have hresult :=
      (hrun.sound_alone trivial (RoomActor.wp_activate_manifest Doc config boot hcontent)).2
    cases hrebuild : rebuild Doc checkpoint frames with
    | ok doc =>
      simp only [hrebuild] at hresult
      have hnot : ¬ ∃ error, (Except.ok doc : Except RecoveryError Doc) = .error error := by simp
      rw [or_iff_left hnot]
      exact ⟨fun h => (h.ready hresult.1).2,
        fun h => ⟨fun _ => ⟨hresult.2, h⟩, fun hbroken => absurd h hbroken⟩⟩
    | error error =>
      simp only [hrebuild] at hresult
      exact iff_of_true (.of_corrupt hresult) (Or.inr ⟨error, rfl⟩)
  · intro generation a pending frames result w' hstream hword hdecode hrun
    have hresult := (hrun.sound_alone trivial (RoomActor.wp_reload pending hword)).2
    cases hreplay : replayStream Doc a.config.frameLimits (w.disk.read a.stream) with
    | ok loaded =>
      simp only [hreplay] at hresult
      have ⟨hhistory, hfollow⟩ := replayStream_follows hdecode hreplay
      have hnot : ¬ ∃ failure, (Except.ok loaded : Except InitializationFailure _) =
          .error failure := by simp
      rw [or_iff_left hnot, ← framesFollow_iff hfollow]
      constructor
      · intro h
        by_contra hbroken
        exact hresult.1 (h.corrupt hbroken)
      · intro h
        exact ⟨fun hready => ⟨(hresult.2 hready).trans hhistory, h⟩, fun hbroken => absurd h hbroken⟩
    | error failure =>
      simp only [hreplay] at hresult
      exact iff_of_true (.of_corrupt hresult) (Or.inr (Or.inr ⟨failure, rfl⟩))

end Content

open Sample

/-- What recovery finds after a script whose last update came after a rotation. -/
def recoveredUpdates (d : Disk) : Option (List Bytes × List (List Bytes)) :=
  match readContent "r" FrameLimits.default d with
  | .ok (_, checkpoint, frames) =>
    match rebuild OpDoc checkpoint frames with
    | .ok _ => some (checkpoint.pendingUpdates, frames.map DeltaFrame.updates)
    | .error _ => none
  | .error _ => none

theorem recoveredUpdates_eq_some {d : Disk} {pending : List Bytes}
    {updates : List (List Bytes)} (h : recoveredUpdates d = some (pending, updates)) :
    ∃ latest checkpoint frames, ManifestContent "r" FrameLimits.default d latest checkpoint frames ∧
      (∃ doc, rebuild OpDoc checkpoint frames = .ok doc) ∧
      checkpoint.pendingUpdates = pending ∧ frames.map DeltaFrame.updates = updates := by
  unfold recoveredUpdates at h
  cases hcontent : readContent "r" FrameLimits.default d with
  | error error => simp [hcontent] at h
  | ok content =>
    obtain ⟨latest, checkpoint, frames⟩ := content
    simp only [hcontent] at h
    cases hrebuild : rebuild OpDoc checkpoint frames with
    | error error => simp [hrebuild] at h
    | ok doc =>
      simp only [hrebuild, Option.some.injEq, Prod.mk.injEq] at h
      exact ⟨latest, checkpoint, frames, manifestContent_of_readContent hcontent,
        ⟨doc, hrebuild⟩, h.1, h.2⟩

/-- What the frames of a stream hold. -/
def streamUpdates (d : Disk) (stream : String) : Option (List (List Bytes)) :=
  match decodeAllWithLimits (d.read stream) FrameLimits.default with
  | .ok frames => some (frames.map DeltaFrame.updates)
  | .error _ => none

theorem streamUpdates_eq_some {d : Disk} {stream : String} {updates : List (List Bytes)}
    (h : streamUpdates d stream = some updates) :
    ∃ frames, decodeAllWithLimits (d.read stream) FrameLimits.default = .ok frames ∧
      frames.map DeltaFrame.updates = updates := by
  unfold streamUpdates at h
  cases hdecode : decodeAllWithLimits (d.read stream) FrameLimits.default with
  | error error => simp [hdecode] at h
  | ok frames => exact ⟨frames, rfl, by simpa [hdecode] using h⟩

/-- A room without a manifest, which has an update. -/
theorem sample_unrotated :
    ∃ (g : System (gateway OpDoc "r" .default) World) (frames : List DeltaFrame),
      RoomReachable .lossy g ∧ g.world.disk.read (manifestStream "r").physical = [] ∧
      (g.world.disk.read (deltaStream "r").physical).length < wordSize ∧
      decodeAllWithLimits (g.world.disk.read (deltaStream "r").physical) FrameLimits.default =
        .ok frames ∧ frames.map DeltaFrame.updates = [[[1, 0]]] := by
  have hrun : ((lossyDirection .default).director.run
      [.boot (sampleBoot 1) (answeredAll 4), .command (.join 1 [] 7) [],
        .command (.update 1 (sampleBatch 1) [[1, 0]] 7) (answeredAll 1), .crash]
      ⟨World.empty, .down, []⟩).any (fun g =>
        decide (g.world.disk.read (manifestStream "r").physical = []) &&
          decide ((g.world.disk.read (deltaStream "r").physical).length < wordSize) &&
          decide (streamUpdates g.world.disk (deltaStream "r").physical = some [[[1, 0]]])) =
      true := by
    decide +kernel
  obtain ⟨g, hreach, hend⟩ := Direction.exists_of_run hrun
  simp only [Bool.and_eq_true, decide_eq_true_eq] at hend
  obtain ⟨⟨hmanifest, hword⟩, hupdates⟩ := hend
  obtain ⟨frames, hdecode, hframes⟩ := streamUpdates_eq_some hupdates
  exact ⟨g, frames, hreach, hmanifest, hword, hdecode, hframes⟩

/-- A rotated room, which is blocked by an update that is in its stream. -/
theorem sample_blocked :
    ∃ (w : World) (a : RoomActor OpDoc) (events : List (Event (gateway OpDoc "r" .default) World))
      (pending : PendingAppend) (frames : List DeltaFrame),
      RoomReachable (Policy.lossy : Policy OpDoc "r" .default) ⟨w, .idle a, events⟩ ∧
      a.blocked = some pending ∧ a.stream = (deltaStreamForGeneration "r" ⟨1⟩).physical ∧
      a.config = .default ∧ (w.disk.read a.stream).length < wordSize ∧
      decodeAllWithLimits (w.disk.read a.stream) FrameLimits.default = .ok frames ∧
      frames.map DeltaFrame.updates = [[[1, 2]]] := by
  have hrun : ((lossyDirection .default).director.run
      [.boot (sampleBoot 1) (answeredAll 4), .command (.join 1 [] 7) [],
        .command (.update 1 (sampleBatch 1) [[1, 0]] 7) (answeredAll 1),
        .command .rotate (answeredAll 10),
        .command (.update 1 (sampleBatch 2) [[1, 2]] 7) (List.replicate 6 (.lost "timeout"))]
      ⟨World.empty, .down, []⟩).any (whenIdle fun w a _ => a.blocked.isSome &&
        decide (a.stream = (deltaStreamForGeneration "r" ⟨1⟩).physical) &&
          decide ((w.disk.read a.stream).length < wordSize) &&
          decide (streamUpdates w.disk a.stream = some [[[1, 2]]])) = true := by
    decide +kernel
  obtain ⟨w, a, events, hreach, hend⟩ := Direction.exists_idle_of_run hrun
  simp only [Bool.and_eq_true, decide_eq_true_eq] at hend
  obtain ⟨⟨⟨hblocked, hstream⟩, hword⟩, hupdates⟩ := hend
  obtain ⟨pending, hpending⟩ := Option.isSome_iff_exists.1 hblocked
  obtain ⟨frames, hdecode, hframes⟩ := streamUpdates_eq_some hupdates
  exact ⟨w, a, events, pending, frames, hreach, hpending, hstream,
    (RoomReachable.placed hreach).config, hword, hdecode, hframes⟩

/-- A room that was never rotated is started again, a rotated one as well, and a rotated
one is reloaded. -/
theorem recovered_blobs_follow_sample :
    (∃ (g : System (gateway OpDoc "r" .default) World) (frames : List DeltaFrame)
      (a : RoomActor OpDoc) (w' : World),
      RoomReachable .lossy g ∧ frames.map DeltaFrame.updates = [[[1, 0]]] ∧
      Runs answered Eq (RoomActor.activate "r" .default (sampleBoot 2)) g.world a w' ∧
      Enforces a (frames.flatMap DeltaFrame.updates) (FramesFollow OpDoc True frames)) ∧
    (∃ (g : System (gateway OpDoc "r" .default) World) (latest : ManifestRecord)
      (checkpoint : CheckpointRecord) (frames : List DeltaFrame) (a : RoomActor OpDoc) (w' : World),
      RoomReachable .lossy g ∧ frames.map DeltaFrame.updates = [[[1, 2]]] ∧
      Runs answered Eq (RoomActor.activate "r" .default (sampleBoot 2)) g.world a w' ∧
      Enforces a (checkpoint.pendingUpdates ++ frames.flatMap DeltaFrame.updates)
        (ContentFollows OpDoc "r" .default g.world.disk latest checkpoint frames)) ∧
    ∃ (w : World) (a : RoomActor OpDoc) (events : List (Event (gateway OpDoc "r" .default) World))
      (pending : PendingAppend) (frames : List DeltaFrame) (result : RoomActor OpDoc × Bool)
      (w' : World), RoomReachable (Policy.lossy : Policy OpDoc "r" .default) ⟨w, .idle a, events⟩ ∧
      a.blocked = some pending ∧ frames.map DeltaFrame.updates = [[[1, 2]]] ∧
      Runs answered Eq (({ a with blocked := none } : RoomActor OpDoc).reload pending) w result w' ∧
      Enforces result.1 (frames.flatMap DeltaFrame.updates)
        (FramesFollow OpDoc (FirstOfRoom "r" ⟨1⟩ w.disk) frames) := by
  refine ⟨?_, ?_, ?_⟩
  · obtain ⟨g, frames, hreach, hmanifest, hword, hdecode, hframes⟩ := sample_unrotated
    obtain ⟨a, w', hactivate, _⟩ := exists_run_of_answered
      (RoomActor.wp_activate_replay OpDoc .default (sampleBoot 2) hmanifest hword)
    exact ⟨g, frames, a, w', hreach, hframes, hactivate,
      (recovered_blobs_follow_iff "r" .default (sampleBoot 2) g.world).1 frames a w' hmanifest hword
        hdecode hactivate⟩
  · have hrun : ((lossyDirection .default).director.run
        [.boot (sampleBoot 1) (answeredAll 4), .command (.join 1 [] 7) [],
          .command (.update 1 (sampleBatch 1) [[1, 0]] 7) (answeredAll 1),
          .command .rotate (answeredAll 10),
          .command (.update 1 (sampleBatch 2) [[1, 2]] 7) (answeredAll 1)]
        ⟨World.empty, .down, []⟩).any (fun g =>
          decide (recoveredUpdates g.world.disk = some ([], [[[1, 2]]]))) = true := by
      decide +kernel
    obtain ⟨g, hreach, hend⟩ := Direction.exists_of_run hrun
    obtain ⟨latest, checkpoint, frames, hcontent, hrebuild, hpending, hframes⟩ :=
      recoveredUpdates_eq_some (of_decide_eq_true hend)
    obtain ⟨a, w', hactivate, _⟩ := exists_run_of_answered (RoomActor.wp_activate_manifest
      OpDoc .default (sampleBoot 2) hcontent)
    have hfollows : ContentFollows OpDoc "r" ActorConfig.default.frameLimits g.world.disk latest
        checkpoint frames := by
      constructor
      · simp [hpending]
      · simp [hpending]
      · have hrules : BlobRules OpDoc false [[1, 2]] :=
          ⟨by simp, by simp, by simp [Loro.decodeImportBlobMeta]⟩
        exact (framesFollow_singleton hframes).2 ⟨false, nofun, hrules⟩
    exact ⟨g, latest, checkpoint, frames, a, w', hreach, hframes, hactivate,
      ((recovered_blobs_follow_iff "r" .default (sampleBoot 2) g.world).2.1 latest checkpoint
        frames a w' hcontent hactivate).2 (Or.inl hfollows)⟩
  · obtain ⟨w, a, events, pending, frames, hreach, hblocked, hstream, hconfig, hword, hdecode,
      hframes⟩ := sample_blocked
    let unblocked : RoomActor OpDoc := { a with blocked := none }
    have hword' : (w.disk.read unblocked.stream).length < wordSize := hword
    have hdecode' : decodeAllWithLimits (w.disk.read unblocked.stream)
        unblocked.config.frameLimits = .ok frames := by
      show decodeAllWithLimits (w.disk.read a.stream) a.config.frameLimits = .ok frames
      rw [hconfig]
      exact hdecode
    -- the only frame of the generation holds an update and no snapshot
    have hnot : ¬ StartsWithSnapshot OpDoc frames := by
      rintro ⟨frame, rest, blob, rfl, hblob, hmode⟩
      simp only [List.map_cons, hblob, List.cons.injEq, and_true] at hframes
      rw [hframes.1] at hmode
      exact absurd hmode (by decide)
    obtain ⟨result, w', hreload, _⟩ := exists_run_of_answered (RoomActor.wp_reload pending hword')
    exact ⟨w, a, events, pending, frames, result, w', hreach, hblocked, hframes, hreload,
      ((recovered_blobs_follow_iff "r" .default (sampleBoot 1) w).2.2 ⟨1⟩ unblocked pending frames
        result w' hstream hword' hdecode' hreload).2 (Or.inr (Or.inl hnot))⟩

/-- A rotated room accepts a full snapshot.  The next start takes it from the active
stream and is ready, although the room has an older frame. -/
theorem recovered_snapshot_accepted :
    ∃ (g : System (gateway OpDoc "r" .default) World) (latest : ManifestRecord)
      (checkpoint : CheckpointRecord) (frames : List DeltaFrame) (a : RoomActor OpDoc) (w' : World),
      RoomReachable .lossy g ∧
      ManifestContent "r" .default g.world.disk latest checkpoint frames ∧
      Runs answered Eq (RoomActor.activate "r" .default (sampleBoot 2)) g.world a w' ∧
      a.lifecycle = .ready ∧ a.history = [[0, 2]] ∧
      ¬ ContentFollows OpDoc "r" .default g.world.disk latest checkpoint frames := by
  have hrun : ((lossyDirection .default).director.run
      [.boot (sampleBoot 1) (answeredAll 4), .command (.join 1 [] 7) [],
        .command (.update 1 (sampleBatch 1) [[1, 0]] 7) (answeredAll 1),
        .command .rotate (answeredAll 10),
        .command (.update 1 (sampleBatch 2) [[0, 2]] 7) (answeredAll 1)]
      ⟨World.empty, .down, []⟩).any (fun g =>
        decide (recoveredUpdates g.world.disk = some ([], [[[0, 2]]])) &&
          decide (g.world.disk.read (deltaStream "r").physical ≠ [])) = true := by
    decide +kernel
  obtain ⟨g, hreach, hend⟩ := Direction.exists_of_run hrun
  obtain ⟨hrecovered, holder⟩ := Bool.and_eq_true_iff.1 hend
  have holder := of_decide_eq_true holder
  obtain ⟨latest, checkpoint, frames, hcontent, ⟨doc, hrebuild⟩, hpending, hframes⟩ :=
    recoveredUpdates_eq_some (of_decide_eq_true hrecovered)
  obtain ⟨a, w', hactivate, hresult⟩ := exists_run_of_answered (RoomActor.wp_activate_manifest
    OpDoc .default (sampleBoot 2) hcontent)
  simp only [hrebuild] at hresult
  refine ⟨g, latest, checkpoint, frames, a, w', hreach, hcontent, hactivate, hresult.1, ?_, ?_⟩
  · rw [hresult.2, hpending, List.flatMap_def, hframes]
    rfl
  · intro hfollows
    obtain ⟨allowSnapshot, hallow, hrules⟩ := (framesFollow_singleton hframes).1 hfollows.frames
    have hsnapshot := (hrules.mode [0, 2] List.mem_cons_self).resolve_left (by decide)
    exact holder (hallow hsnapshot.2.1 .zero hcontent.active_pos)

end LoroGateway
