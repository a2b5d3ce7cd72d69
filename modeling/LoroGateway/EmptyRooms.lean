import LoroGateway.Content
import LoroGateway.SnapshotPolicy

/-!
# Rooms that are taken for empty

`update` takes a room for an empty one when the retained history is empty, and lets a full
snapshot start it.  The history is not what the room holds: a rotation leaves of it what the
checkpoint retains, and a reload takes the active stream alone.

`Recalled` says what the history of a live room is by the disk, and every run keeps it
(`RoomReachable.recalls`).  So the history is empty exactly when the checkpoint of the
generation retains no blob and the active stream has no frame, but for one that the actor
takes for its next (`RoomActor.RecallsUpdate`).  After a rotation without pending updates a
full snapshot is accepted again, and `snapshot_refused_iff` says exactly when it is refused.
-/

namespace LoroGateway

open ByteCodec CrashLogic CrashLogic.Server

section

variable [Hashing] {Doc : Type} [Loro Doc] {roomId : String} {config : ActorConfig}

/-! ## The history of a room -/

/-- The history of a room that starts from `base` and has seen the frames. -/
inductive Recalled (base : Option CheckpointRecord) (seen : List DeltaFrame) : List Bytes → Prop
  | whole : Recalled base seen (keptBlobs base ++ seen.flatMap DeltaFrame.updates)
  /-- A reload leaves out what the checkpoint retains, but there is a frame. -/
  | reloaded (frame : seen ≠ []) : Recalled base seen (seen.flatMap DeltaFrame.updates)

section Recalled

variable {base : Option CheckpointRecord} {seen : List DeltaFrame} {history : List Bytes}

omit [Hashing] in
theorem Recalled.append (h : Recalled base seen history) (frame : DeltaFrame) :
    Recalled base (seen ++ [frame]) (history ++ frame.updates) := by
  have hframe : [frame].flatMap DeltaFrame.updates = frame.updates := List.flatMap_singleton ..
  cases h with
  | whole =>
    rw [List.append_assoc, ← hframe, ← List.flatMap_append]
    exact .whole
  | reloaded =>
    rw [← hframe, ← List.flatMap_append]
    exact .reloaded (by simp)

omit [Hashing] in
/-- No frame is without updates. -/
theorem Recalled.eq_nil_iff (h : Recalled base seen history)
    (hupdates : ∀ frame ∈ seen, frame.updates ≠ []) :
    history = [] ↔ keptBlobs base = [] ∧ seen = [] := by
  have hseen : seen.flatMap DeltaFrame.updates = [] ↔ seen = [] := by
    rw [List.flatMap_eq_nil_iff]
    constructor
    · intro hnone
      exact List.eq_nil_iff_forall_not_mem.mpr fun frame hmem =>
        hupdates frame hmem (hnone frame hmem)
    · rintro rfl
      exact fun _ hmem => absurd hmem List.not_mem_nil
  cases h with
  | whole => rw [List.append_eq_nil_iff, hseen]
  | reloaded hframe => simp [hseen, hframe]

end Recalled

/-- What the history of a live room is, by the disk. -/
def RoomActor.Recalls (roomId : String) (config : ActorConfig) (w : World) (a : RoomActor Doc) :
    Prop :=
  a.Live → ∃ base seen, StartsFrom Doc roomId w.disk a.activeDeltaGeneration base ∧
    a.Tracks roomId config.frameLimits w.disk seen ∧ Recalled base seen a.history

/-- The actor stands where it stood. -/
theorem RoomActor.Recalls.congr {w : World} {a a' : RoomActor Doc} (h : a.Recalls roomId config w)
    (hlive : a'.Live → a.Live) (hgeneration : a'.activeDeltaGeneration = a.activeDeltaGeneration)
    (hproducer : a'.producerId = a.producerId) (hsequence : a'.producerSequence = a.producerSequence)
    (hhistory : a'.history = a.history)
    (hoffset : a'.lifecycle = .ready →
      a.lifecycle = .ready ∧ a'.activeDeltaEndOffset = a.activeDeltaEndOffset) :
    a'.Recalls roomId config w := by
  intro hlive'
  obtain ⟨base, seen, hstart, htracks, hrecalled⟩ := h (hlive hlive')
  refine ⟨base, seen, hgeneration ▸ hstart, ?_, hhistory ▸ hrecalled⟩
  exact htracks.congr hgeneration hproducer hsequence hhistory hoffset

/-! ## The programs of an actor -/

section Programs

variable {serve : Serve Request Answer World} (hs : Orderly Doc roomId config serve) {w : World}
  {a : RoomActor Doc}

include hs

theorem recalls_boot {boot : Boot} (hfresh : FreshBoot roomId w boot)
    (hkept : Kept Doc roomId config w) :
    wp serve (Contract.orderly Doc roomId config fun _ => True)
      (RoomActor.activate roomId config boot)
      (fun (a : RoomActor Doc) t => a.Recalls roomId config t) w := by
  refine hs.boot hkept (fun _ _ _ => trivial) ?_ ?_
  · intro endOffset lifecycle lastError t _ _ hlifecycle hlive
    exact absurd hlive (RoomActor.not_live_failed hlifecycle)
  · intro a base frames t _ hsame hreopened _
    refine ⟨base, frames, hreopened.start, ?_, ?_⟩
    · exact hreopened.tracks hkept hfresh hsame.read hsame.last
    · rw [hreopened.history]
      exact .whole

variable (ha : a.Seated roomId config) (h : a.Recalls roomId config w)

include ha h

theorem recalls_retry :
    wp serve (Contract.orderly Doc roomId config fun _ => True) a.retryPending
      (fun r t => r.1.Recalls roomId config t) w := by
  by_cases hblocked : a.blocked = none
  · rw [RoomActor.retryPending, hblocked]
    exact h
  obtain ⟨base, seen, hstart, htracks, hrecalled⟩ := h (.inr hblocked)
  refine hs.retry ha (fun _ => htracks) (fun _ _ _ _ _ => trivial)
    (fun hnone => absurd hnone hblocked) ?_ ?_
  · intro pending endOffset lifecycle lastError t hpending _ htried hnot _
    have hprepares := (ha.blocked pending hpending).2
    refine ⟨base, seen, hstart.tried ha hprepares htried, ?_, hrecalled⟩
    exact (htracks.tried ha hprepares htried).congr rfl rfl rfl rfl
      fun hready => absurd hready hnot
  · intro pending endOffset next history doc t hpending _ htried hlog hend hhistory _ _ hnext _
    have hprepares := (ha.blocked pending hpending).2
    refine ⟨base, seen ++ [pending.frame], hstart.tried ha hprepares htried,
      htracks.reloaded ha hpending htried hlog hend hhistory hnext, ?_⟩
    -- the reload has the stream alone, and the reconciled frame is in it
    show Recalled base (seen ++ [pending.frame]) history
    rw [collectHistory_eq_ok hhistory, List.nil_append]
    exact .reloaded (by simp)

theorem recalls_rotate (hkept : Kept Doc roomId config w) :
    wp serve (Contract.orderly Doc roomId config fun _ => True) a.rotateGeneration
      (fun r t => r.1.Recalls roomId config t) w := by
  by_cases hready : a.lifecycle = .ready
  · obtain ⟨base, seen, _, htracks, _⟩ := h (.inl hready)
    refine hs.rotate ha hkept (fun _ => htracks) (fun _ _ _ _ _ => trivial) (fun _ => h) ?_ ?_
    · intro message t _ hblocked _ _ hlive
      exact hlive.elim nofun fun hne => absurd hblocked hne
    · intro result t _ _ _ _ hsuperseded _ hretained htracks' _
      refine ⟨some result.checkpoint, [], hsuperseded.start, htracks', ?_⟩
      -- the rotated room keeps what its checkpoint retains
      show Recalled (some result.checkpoint) [] result.retainedHistory
      rw [hretained]
      have hwhole : Recalled (some result.checkpoint) []
          (keptBlobs (some result.checkpoint) ++ [].flatMap DeltaFrame.updates) := .whole
      rwa [List.flatMap_nil, List.append_nil] at hwhole
  · exact RoomActor.wp_rotateGeneration (fun _ => h) fun hready' => absurd hready' hready

theorem recalls_update {connectionId : UInt64} {batchId : BatchId} {updates : List Bytes}
    {peer : PeerSender} :
    wp serve (Contract.orderly Doc roomId config fun _ => True)
      (a.update connectionId batchId updates peer) (fun r t => r.1.Recalls roomId config t) w := by
  refine RoomActor.wp_update (fun _ _ => h) fun admission hadmitted => ?_
  obtain ⟨base, seen, hstart, htracks, hrecalled⟩ := h (.inl hadmitted.ready)
  have hprepares := hadmitted.prepares
  refine wp_mono ?_ (hs.resolve ha hprepares htracks fun _ _ _ => trivial)
  intro r t hr _
  obtain ⟨_, htried, hok⟩ := hr
  have hstart' := hstart.tried ha hprepares htried
  have hafter : (a.finishUpdate connectionId batchId updates peer admission r).1.Tracks roomId
      config.frameLimits t.disk (RoomActor.Tracks.after seen admission.pending.frame r) :=
    htracks.finishUpdate ha hadmitted htried hok
  cases r with
  | error failure => cases failure <;> exact ⟨base, seen, hstart', hafter, hrecalled⟩
  | ok proof =>
    refine ⟨base, _, hstart', hafter, ?_⟩
    -- the committed batch is added to the history
    show Recalled base (seen ++ [admission.pending.frame]) admission.candidateHistory
    rw [hadmitted.history, hadmitted.frame]
    exact hrecalled.append _

theorem recalls_handle (hkept : Kept Doc roomId config w) (command : Command) :
    wp serve (Contract.orderly Doc roomId config fun _ => True) (a.handle command)
      (fun r t => r.1.Recalls roomId config t) w := by
  refine RoomActor.wp_handle (fun _ => h) (fun _ => recalls_retry hs ha h)
    (fun _ => recalls_rotate hs ha h hkept) (fun _ => h) ?_ ?_ ?_
  · intro connectionId version peer _ _
    obtain ⟨peers, ids, hjoin⟩ := a.join_fst connectionId version peer
    rw [hjoin]
    exact h.congr id rfl rfl rfl rfl fun hready => ⟨hready, rfl⟩
  · exact fun _ _ _ _ _ _ => recalls_update hs ha h
  · intro connectionId _ _
    exact h.congr id rfl rfl rfl rfl fun hready => ⟨hready, rfl⟩

end Programs

/-! ## Runs -/

variable {policy : Policy Doc roomId config} {w : World} {a : RoomActor Doc}
  {events : List (Event (gateway Doc roomId config) World)}

/-- What the room recalls, at every moment at which it waits for a command. -/
theorem RoomReachable.recalls (quiet : policy.Quiet)
    (hreach : RoomReachable policy ⟨w, .idle a, events⟩) : a.Recalls roomId config w := by
  have hpreserved := quiet.preserved (L := RoomActor.Placed roomId config)
    (J := fun w a _ => a.Recalls roomId config w) (F := fun _ _ => True)
    (fun _ _ => trivial) (fun _ _ => trivial)
    (fun hs hfresh hkept _ => recalls_boot hs hfresh hkept)
    (fun hs _ ha hkept h => recalls_handle hs ha.toSeated h hkept _)
  have hwithin : Reachable (keptWith policy (RoomActor.Placed roomId config))
      (fun w => w = World.empty) ⟨w, .idle a, events⟩ :=
    Reachable.within (fun h => RoomReachable.kept h) (fun h => RoomReachable.placed h) hreach
  refine (Reachable.idle_invariant hpreserved ?_ hwithin).2
  intro w hempty
  exact ⟨hempty ▸ kept_empty, trivial⟩

/-- Something has been seen exactly when the log has a frame that is not the next one. -/
theorem Seen.ne_nil_iff {P : DeltaFrame → Prop} {limits : FrameLimits} {stream : String}
    {producer : ProducerTuple} {d : Disk} {seen : List DeltaFrame}
    (h : Seen P limits stream producer d seen) :
    seen ≠ [] ↔ ∃ frames, DeltaLog P limits stream d frames ∧
      ∃ frame ∈ frames, frame.producer ≠ producer := by
  obtain ⟨rest, hlog, hrest⟩ := h.log
  constructor
  · intro hne
    obtain ⟨frame, hmem⟩ := List.exists_mem_of_ne_nil seen hne
    refine ⟨seen ++ rest, hlog, frame, List.mem_append_left rest hmem, ?_⟩
    intro hsame
    have hlt := h.behind frame hmem (by rw [hsame])
    rw [hsame] at hlt
    omega
  · intro hframe hnone
    obtain ⟨frames, hframes, frame, hmem, hother⟩ := hframe
    rw [← hlog.unique hframes, hnone, List.nil_append] at hmem
    cases hrest with
    | inl hnil => simp [hnil] at hmem
    | inr hlast =>
      obtain ⟨last, hsingle, hnext⟩ := hlast
      have hframe : frame = last := by simpa [hsingle] using hmem
      exact hother (hframe ▸ hnext)

namespace RoomActor

/-- What the room holds of its updates: the checkpoint that starts the generation retains
a blob, or the active stream has a frame that is not the next one of the actor. -/
def RecallsUpdate (roomId : String) (limits : FrameLimits) (d : Disk) (a : RoomActor Doc) : Prop :=
  (∃ checkpoint, StartsFrom Doc roomId d a.activeDeltaGeneration (some checkpoint) ∧
    checkpoint.pendingUpdates ≠ []) ∨
  ∃ frames, DeltaLog (NamedFrame roomId a.activeDeltaGeneration) limits
    (deltaStreamForGeneration roomId a.activeDeltaGeneration).physical d frames ∧
    ∃ frame ∈ frames, frame.producer ≠ ⟨a.producerId, 0, a.producerSequence⟩

/-- The history of a live room is empty exactly when the room recalls no update. -/
theorem Recalls.history_ne_iff (h : a.Recalls roomId config w) (hlive : a.Live) :
    a.history ≠ [] ↔ a.RecallsUpdate roomId config.frameLimits w.disk := by
  obtain ⟨base, seen, hstart, htracks, hrecalled⟩ := h hlive
  have hupdates : ∀ frame ∈ seen, frame.updates ≠ [] := by
    obtain ⟨rest, hlog, _⟩ := htracks.log.log
    intro frame hmem
    obtain ⟨bytes, hencode⟩ := (hlog.valid frame (List.mem_append_left rest hmem)).encodes
    obtain ⟨_, _, _, _, hlayout⟩ := DeltaFrame.encode_layout hencode
    exact hlayout.updates_ne
  have hbase : keptBlobs base ≠ [] ↔ ∃ checkpoint,
      StartsFrom Doc roomId w.disk a.activeDeltaGeneration (some checkpoint) ∧
        checkpoint.pendingUpdates ≠ [] := by
    constructor
    · intro hkept
      cases base with
      | none => exact absurd rfl hkept
      | some checkpoint => exact ⟨checkpoint, hstart, hkept⟩
    · intro hcheckpoint
      obtain ⟨checkpoint, hstart', hpending⟩ := hcheckpoint
      rw [hstart.unique hstart']
      exact hpending
  rw [RecallsUpdate, ← hbase, ← Seen.ne_nil_iff htracks.log, ne_eq, hrecalled.eq_nil_iff hupdates,
    not_and_or]

/-- Before the first rotation every frame of the room is in the active stream. -/
theorem Recalls.recallsUpdate_of_committed (h : a.Recalls roomId config w)
    (hkept : Kept Doc roomId config w) (hlive : a.Live) (hzero : a.activeDeltaGeneration = .zero)
    {generation : GenerationId} {frame : DeltaFrame}
    (hcommitted : Committed (NamedFrame roomId) config.frameLimits roomId generation frame w.disk)
    (hother : frame.producer ≠ ⟨a.producerId, 0, a.producerSequence⟩) :
    a.RecallsUpdate roomId config.frameLimits w.disk := by
  obtain ⟨base, seen, _, htracks, _⟩ := h hlive
  obtain ⟨frames, hlog, hmem⟩ := hcommitted
  have hopened : Opened roomId generation w := by
    apply hkept.delta.opened
    intro hempty
    rw [hlog.eq_nil hempty] at hmem
    exact List.not_mem_nil hmem
  have hcurrent : (w.disk.read (manifestStream roomId).physical).length = 188 * 0 := by
    have h := htracks.current
    rw [hzero] at h
    exact h
  have hfirst : generation = a.activeDeltaGeneration := by
    rw [hzero]
    apply GenerationId.ext
    apply UInt64.toNat_inj.mp
    show generation.value.toNat = 0
    unfold Opened at hopened
    omega
  subst hfirst
  exact .inr ⟨frames, hlog, frame, hmem, hother⟩

/-- A copy of the document takes the blob. -/
def Imports (a : RoomActor Doc) (blob : Bytes) : Prop :=
  ∃ (snapshot : Bytes) (copy : Doc) (imported : Doc × Bool),
    Loro.exportSnapshot a.doc = .ok snapshot ∧ Loro.fromSnapshot snapshot = .ok copy ∧
      Loro.importBatch copy [blob] = .ok imported

omit [Hashing] in
theorem not_imports_iff {blob : Bytes} :
    ¬ a.Imports blob ↔ ∃ message, buildCandidate a.doc [] [blob] = .error message := by
  have hok : a.Imports blob ↔ ∃ candidate, buildCandidate a.doc [] [blob] = .ok candidate := by
    constructor
    · intro h
      obtain ⟨snapshot, copy, imported, hsnapshot, hcopy, himported⟩ := h
      refine ⟨imported.1, ?_⟩
      rw [buildCandidate, hsnapshot]
      show (Loro.fromSnapshot snapshot >>= fun copy : Doc => importAll copy [blob]) = .ok imported.1
      rw [hcopy]
      show (Loro.importBatch copy [blob] >>= fun imported => .ok imported.1) = .ok imported.1
      rw [himported]
      rfl
    · intro h
      obtain ⟨candidate, h⟩ := h
      obtain ⟨snapshot, hsnapshot, h⟩ := bind_eq_ok.mp h
      obtain ⟨copy, hcopy, h⟩ := bind_eq_ok.mp h
      obtain ⟨imported, himported, _⟩ := bind_eq_ok.mp h
      exact ⟨snapshot, copy, imported, hsnapshot, hcopy, himported⟩
  rw [hok]
  cases buildCandidate a.doc [] [blob] <;> simp

/-- A joined connection sends the update to a ready and unblocked room, and the room
recalls an update, or the snapshot is not a batch of its own, or a copy of the document
does not take it. -/
def BarsSnapshot (roomId : String) (limits : FrameLimits) (d : Disk) (a : RoomActor Doc)
    (connectionId : UInt64) (updates : List Bytes) (blob : Bytes) : Prop :=
  a.peers.containsKey connectionId ∧ (a.lifecycle = .ready ∧ a.blocked = none) ∧
    (a.RecallsUpdate roomId limits d ∨ updates ≠ [blob] ∨ blob = [] ∨ ¬ a.Imports blob)

theorem Recalls.barsSnapshot_iff (h : a.Recalls roomId config w) {connectionId : UInt64}
    {updates : List Bytes} {blob : Bytes} :
    a.KeepsSnapshotOut connectionId updates blob ↔
      a.BarsSnapshot roomId config.frameLimits w.disk connectionId updates blob := by
  refine and_congr_right fun _ => and_congr_right fun hready => ?_
  have hrecalls := h.history_ne_iff (.inl hready.1)
  rw [← hrecalls]
  apply or_congr_right'
  intro hnone
  apply or_congr_right'
  intro honly
  rw [not_not.mp hnone, not_not.mp honly, not_imports_iff]

end RoomActor

/-- In every run an update with a full snapshot is answered `InvalidUpdate` and causes no
append exactly when `BarsSnapshot` holds of the disk and of the room that it reaches; and
so were all the updates before it.  Before the first rotation any frame that was committed
bars the snapshot, but for one that the room takes for its next. -/
theorem snapshot_refused_iff (quiet : policy.Quiet)
    (hreach : RoomReachable policy ⟨w, .idle a, events⟩) (connectionId : UInt64)
    (batchId : BatchId) (updates : List Bytes) (peer : PeerSender) (blob : Bytes)
    (hmem : blob ∈ updates) (hmode : Loro.decodeImportBlobMeta Doc blob = .ok .snapshot) :
    (a.RefusesUpdate connectionId batchId updates peer ↔
      a.BarsSnapshot roomId config.frameLimits w.disk connectionId updates blob) ∧
    (a.lifecycle = .ready → a.activeDeltaGeneration = .zero → ∀ generation frame,
      Committed (NamedFrame roomId) config.frameLimits roomId generation frame w.disk →
      frame.producer ≠ ⟨a.producerId, 0, a.producerSequence⟩ →
      a.RecallsUpdate roomId config.frameLimits w.disk) ∧
    ∀ before after a₀ outputs a₁,
      .handled (.update connectionId batchId updates peer) before a₀ outputs after a₁ ∈ events →
      a₀.BarsSnapshot roomId config.frameLimits before.disk connectionId updates blob →
      a₀.RefusesUpdate connectionId batchId updates peer ∧
        a₁ = a₀ ∧ outputs = sendAck peer a₀.roomId batchId .invalidUpdate := by
  refine ⟨?_, ?_, ?_⟩
  · rw [RoomActor.refusesUpdate_snapshot_iff hmem hmode]
    exact (hreach.recalls quiet).barsSnapshot_iff
  · intro hready hzero generation frame hcommitted hother
    exact (hreach.recalls quiet).recallsUpdate_of_committed (RoomReachable.kept hreach)
      (.inl hready) hzero hcommitted hother
  · intro before after a₀ outputs a₁ hevent hbars
    obtain ⟨⟨earlier, hbefore, _⟩, t, hrun, _⟩ := hreach.traced.handled hevent
    have hreach₀ : RoomReachable policy ⟨before, .idle a₀, earlier⟩ := hbefore
    have hkeeps := (hreach₀.recalls quiet).barsSnapshot_iff.mpr hbars
    have hrefuses : a₀.RefusesUpdate connectionId batchId updates peer :=
      (RoomActor.refusesUpdate_snapshot_iff hmem hmode).mpr hkeeps
    exact ⟨hrefuses, Prod.mk.inj (hrun.always hrefuses)⟩

/-- The active stream decodes to a frame that is not the next one of the actor. -/
def hasOtherFrame (roomId : String) (limits : FrameLimits) (d : Disk) (a : RoomActor Doc) : Bool :=
  match decodeAllWithLimits
    (d.read (deltaStreamForGeneration roomId a.activeDeltaGeneration).physical) limits with
  | .ok frames => frames.any fun frame => frame.producer ≠ ⟨a.producerId, 0, a.producerSequence⟩
  | .error _ => false

theorem recallsUpdate_of_hasOtherFrame (hkept : Kept Doc roomId config w)
    (h : hasOtherFrame roomId config.frameLimits w.disk a = true) :
    a.RecallsUpdate roomId config.frameLimits w.disk := by
  obtain ⟨frames, hlog⟩ := hkept.delta.logs a.activeDeltaGeneration
  unfold hasOtherFrame at h
  cases hdecode : decodeAllWithLimits
      (w.disk.read (deltaStreamForGeneration roomId a.activeDeltaGeneration).physical)
      config.frameLimits with
  | error error => simp [hdecode] at h
  | ok decoded =>
    rw [hdecode] at h
    obtain ⟨frame, hmem, hother⟩ := List.any_eq_true.mp h
    rw [hlog.eq_of_decode hdecode] at hmem
    exact .inr ⟨frames, hlog, frame, hmem, of_decide_eq_true hother⟩

end

open Sample

/-- The blobs of the updates that were acknowledged as committed, the last one first. -/
def committedBlobs (events : List (Event (sampleGateway .default) World)) : List (List Bytes) :=
  events.filterMap fun
    | .handled (.update _ batchId updates peer) _ _ outputs _ _ =>
      if .send peer (.ack "r" batchId .ok) ∈ outputs then some updates else none
    | _ => none

/-- The room is rotated between two updates.  The second one is in the active stream, so the
snapshot is refused. -/
theorem snapshot_refused_sample :
    ∃ (w : World) (a : RoomActor OpDoc) (events : List (Event (gateway OpDoc "r" .default) World)),
      RoomReachable (Policy.lossy : Policy OpDoc "r" .default) ⟨w, .idle a, events⟩ ∧
      a.activeDeltaGeneration.value = 1 ∧ committedBlobs events = [[[1, 2]], [[1, 0]]] ∧
      a.RefusesUpdate 1 (sampleBatch 3) [[0, 4]] 7 := by
  have hrun : ((lossyDirection .default).director.run
      [.boot (sampleBoot 1) (answeredAll 4), .command (.join 1 [] 7) [],
        .command (.update 1 (sampleBatch 1) [[1, 0]] 7) (answeredAll 1),
        .command .rotate (answeredAll 10),
        .command (.update 1 (sampleBatch 2) [[1, 2]] 7) (answeredAll 1)]
      ⟨World.empty, .down, []⟩).any (whenIdle fun w a events =>
        decide (a.activeDeltaGeneration.value = 1) &&
          decide (committedBlobs events = [[[1, 2]], [[1, 0]]]) &&
          decide (a.peers.containsKey 1) && decide (a.lifecycle = .ready) &&
          decide (a.blocked = none) && hasOtherFrame "r" .default w.disk a) = true := by
    decide +kernel
  obtain ⟨w, a, events, hreach, hend⟩ := Direction.exists_idle_of_run hrun
  simp only [Bool.and_eq_true, decide_eq_true_eq] at hend
  obtain ⟨⟨⟨⟨⟨hgeneration, hcommitted⟩, hpeer⟩, hready⟩, hunblocked⟩, hframe⟩ := hend
  have hiff := (snapshot_refused_iff Policy.lossy_quiet hreach 1 (sampleBatch 3) [[0, 4]] 7 [0, 4]
    List.mem_cons_self rfl).1
  have hrecalls := recallsUpdate_of_hasOtherFrame (RoomReachable.kept hreach) hframe
  refine ⟨w, a, events, hreach, hgeneration, hcommitted, hiff.mpr ?_⟩
  exact ⟨hpeer, ⟨hready, hunblocked⟩, .inl hrecalls⟩

/-- An update is committed and the room is rotated.  Nothing is pending, so nothing is
retained, and a full snapshot is then committed as well. -/
theorem snapshot_accepted_after_rotation :
    ∃ (w : World) (a : RoomActor OpDoc) (events : List (Event (gateway OpDoc "r" .default) World)),
      RoomReachable (Policy.lossy : Policy OpDoc "r" .default) ⟨w, .idle a, events⟩ ∧
      a.activeDeltaGeneration.value = 1 ∧ Loro.decodeImportBlobMeta OpDoc [0, 2] = .ok .snapshot ∧
      committedBlobs events = [[[0, 2]], [[1, 0]]] := by
  have hrun : ((lossyDirection .default).director.run
      [.boot (sampleBoot 1) (answeredAll 4), .command (.join 1 [] 7) [],
        .command (.update 1 (sampleBatch 1) [[1, 0]] 7) (answeredAll 1),
        .command .rotate (answeredAll 10),
        .command (.update 1 (sampleBatch 2) [[0, 2]] 7) (answeredAll 1)]
      ⟨World.empty, .down, []⟩).any (whenIdle fun _ a events =>
        decide (a.activeDeltaGeneration.value = 1) &&
          decide (committedBlobs events = [[[0, 2]], [[1, 0]]])) = true := by
    decide +kernel
  obtain ⟨w, a, events, hreach, hend⟩ := Direction.exists_idle_of_run hrun
  simp only [Bool.and_eq_true, decide_eq_true_eq] at hend
  exact ⟨w, a, events, hreach, hend.1, rfl, hend.2⟩

end LoroGateway
