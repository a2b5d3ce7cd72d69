import LoroGateway.Acknowledged
import LoroGateway.Answered
import LoroGateway.Quiet
import LoroGateway.Scripted

/-!
# What a restart accepts

The write path checks one frame at a time, against the history in memory.  The
replay checks the whole stream.  `Replayable` is what the replay asks of the
frames besides the length of the stream; in a room that never rotates it holds
at every moment (`RoomReachable.replayable`).  The length is what the write path
does not look at.
-/

namespace LoroGateway

open ByteCodec CrashLogic CrashLogic.Server

section

/-! ## Frames that can be replayed -/

section Blobs

variable {Doc : Type} [Loro Doc]

theorem collectHistory_append (history : List Bytes) (left right : List DeltaFrame) :
    collectHistory Doc history (left ++ right) =
      (collectHistory Doc history left >>= fun history => collectHistory Doc history right) := by
  induction left generalizing history with
  | nil => rfl
  | cons frame left ih =>
    rw [List.cons_append, collectHistory, collectHistory]
    cases validateUpdateBlobs Doc frame.updates history.isEmpty with
    | error message => rfl
    | ok value => exact ih _

/-- The replay accepts the frames, but for the length of their stream. -/
structure Replayable (Doc : Type) [Loro Doc] (frames : List DeltaFrame) : Prop where
  valid : ∃ history, collectHistory Doc [] frames = .ok history
  importable : ∀ blob ∈ frames.flatMap DeltaFrame.updates, Importable Doc blob

namespace Replayable

theorem nil : Replayable Doc [] := ⟨⟨[], rfl⟩, nofun⟩

theorem of_append {left right : List DeltaFrame} (h : Replayable Doc (left ++ right)) :
    Replayable Doc left := by
  obtain ⟨history, hhistory⟩ := h.valid
  rw [collectHistory_append] at hhistory
  obtain ⟨middle, hleft, _⟩ := bind_eq_ok.mp hhistory
  refine ⟨⟨middle, hleft⟩, fun blob hmem => h.importable blob ?_⟩
  rw [List.flatMap_append]
  exact List.mem_append_left _ hmem

/-- A frame that passes the check of the live room passes that of the replay. -/
theorem snoc {frames : List DeltaFrame} {frame : DeltaFrame} (h : Replayable Doc frames)
    (hvalid : validateUpdateBlobs Doc frame.updates
      (frames.flatMap DeltaFrame.updates).isEmpty = .ok ())
    (himportable : ∀ blob ∈ frame.updates, Importable Doc blob) :
    Replayable Doc (frames ++ [frame]) := by
  obtain ⟨history, hhistory⟩ := h.valid
  have hsame := collectHistory_eq_ok hhistory
  rw [List.nil_append] at hsame
  subst hsame
  refine ⟨⟨frames.flatMap DeltaFrame.updates ++ frame.updates, ?_⟩, ?_⟩
  · rw [collectHistory_append, hhistory]
    exact bind_eq_ok.mpr ⟨_, rfl, bind_eq_ok.mpr ⟨(), hvalid, rfl⟩⟩
  · rw [List.flatMap_append, List.flatMap_singleton]
    exact List.forall_mem_append.mpr ⟨h.importable, himportable⟩

end Replayable

end Blobs

variable [Hashing] {Doc : Type} [Loro Doc]

/-- The replay of a delta stream succeeds: its frames are decoded, each of them
passes the check of its blobs, and the blobs are imported. -/
def Replays (Doc : Type) [Loro Doc] (limits : FrameLimits) (bytes : Bytes) : Prop :=
  ∃ (frames : List DeltaFrame) (history : List Bytes) (doc : Doc),
    decodeAllWithLimits bytes limits = .ok frames ∧
    collectHistory Doc [] frames = .ok history ∧ replay Doc history = .ok doc

theorem replays_iff {limits : FrameLimits} {bytes : Bytes} :
    Replays Doc limits bytes ↔ ∃ loaded, replayStream Doc limits bytes = .ok loaded := by
  constructor
  · rintro ⟨frames, history, doc, hframes, hhistory, hdoc⟩
    refine ⟨(history, doc), bind_eq_ok.mpr ⟨frames, mapError_eq_ok.mpr hframes, ?_⟩⟩
    refine bind_eq_ok.mpr ⟨history, mapError_eq_ok.mpr hhistory, ?_⟩
    exact bind_eq_ok.mpr ⟨doc, mapError_eq_ok.mpr hdoc, rfl⟩
  · rintro ⟨⟨history, doc⟩, hloaded⟩
    obtain ⟨frames, hframes, hhistory, hdoc⟩ := replayStream_eq_ok hloaded
    exact ⟨frames, history, doc, hframes, hhistory, hdoc⟩

/-- Replayable frames are replayed exactly when their stream is within its limit. -/
theorem Replayable.replays_iff {Op : Type} {S : Loro.Observers Doc Op} (total : Loro.Total S)
    {limits : FrameLimits} {frames : List DeltaFrame} (h : Replayable Doc frames)
    (hvalid : ∀ frame ∈ frames, frame.Valid limits)
    (hword : (logBytes limits frames).length < wordSize) :
    Replays Doc limits (logBytes limits frames) ↔
      (logBytes limits frames).length ≤ limits.maxStreamBytes := by
  have hdecode := decodeAll_logBytes hvalid hword
  constructor
  · rintro ⟨decoded, _, _, hdecoded, _⟩
    rw [hdecode] at hdecoded
    split_ifs at hdecoded with hle
    exact hle
  · intro hle
    obtain ⟨history, hhistory⟩ := h.valid
    have hsame := collectHistory_eq_ok hhistory
    rw [List.nil_append] at hsame
    have htotal : (∃ doc, importAll (Loro.new : Doc) history = .ok doc) ↔ _ := importAll_total total
    obtain ⟨doc, hdoc⟩ := htotal.mpr (hsame ▸ h.importable)
    rw [if_pos hle] at hdecode
    exact ⟨frames, history, doc, hdecode, hhistory, hdoc⟩

/-! ## The start of a room that has no manifest -/

namespace RoomActor

variable {roomId : String} {config : ActorConfig} {boot : Boot}

/-- A start over a store that answers takes what the replay makes of the stream. -/
theorem wp_activate_replay (Doc : Type) [Loro Doc] (config : ActorConfig) (boot : Boot)
    {w : World} (hempty : w.disk.read (manifestStream roomId).physical = [])
    (hword : (w.disk.read (deltaStream roomId).physical).length < wordSize) :
    wp answered (.alone fun _ => True) (activate roomId config boot)
      (fun (a : RoomActor Doc) _ =>
        match replayStream Doc config.frameLimits (w.disk.read (deltaStream roomId).physical) with
        | .ok loaded => a.lifecycle = .ready ∧ a.history = loaded.1
        | .error _ => a.lifecycle = .corrupt) w := by
  rw [activate, initializeActor, wp_bind, wp_bind, recoverFromManifest]
  refine wp_mapErr_bind (wp_ensureStream_answered (wp_mapErr_bind (wp_readAll_answered ?_)))
  have hread : (w.ensure (manifestStream roomId).physical).disk.read
      (manifestStream roomId).physical = [] := (Disk.read_ensure _ _ _).trans hempty
  dsimp only
  split_ifs with hnil
  · change wp answered _ (UrsulaStore.ensureStream _ >>= _) _ _
    rw [wp_bind]
    refine wp_ensureStream_answered ?_
    change wp answered _ (loadFromStore _ >>= _) _ _
    rw [wp_bind, loadFromStore, wp_bind]
    refine wp_readAll_answered ?_
    have hbytes : ((w.ensure (manifestStream roomId).physical).ensure
        (deltaStream roomId).physical).disk.read (deltaStream roomId).physical =
        w.disk.read (deltaStream roomId).physical :=
      (Disk.read_ensure _ _ _).trans (Disk.read_ensure _ _ _)
    obtain ⟨endOffset, hend⟩ : ∃ endOffset : UInt64,
        endOffset.toNat = (w.disk.read (deltaStream roomId).physical).length :=
      ⟨UInt64.ofNat _, UInt64.toNat_ofNat_of_lt' hword⟩
    simp only [new]
    rw [hbytes, u64OfUsize_eq_some.mpr hend]
    dsimp only
    cases hreplay : replayStream Doc config.frameLimits
        (w.disk.read (deltaStream roomId).physical) with
    | ok loaded => exact ⟨rfl, rfl⟩
    | error failure => exact replayStream_error hreplay
  · exact absurd hread hnil

/-- A start over a store that answers is ready exactly when the replay succeeds. -/
theorem wp_activate_answered {w : World} (hempty : w.disk.read (manifestStream roomId).physical = [])
    (hword : (w.disk.read (deltaStream roomId).physical).length < wordSize) :
    wp answered (.alone fun _ => True) (activate roomId config boot)
      (fun (a : RoomActor Doc) _ => a.lifecycle = .ready ↔
        Replays Doc config.frameLimits (w.disk.read (deltaStream roomId).physical)) w := by
  refine wp_mono (fun a _ h => ?_) (wp_activate_replay Doc config boot hempty hword)
  rw [replays_iff]
  cases hreplay : replayStream Doc config.frameLimits
      (w.disk.read (deltaStream roomId).physical) with
  | ok loaded =>
    rw [hreplay] at h
    exact ⟨fun _ => ⟨loaded, rfl⟩, fun _ => h.1⟩
  | error failure =>
    rw [hreplay] at h
    exact ⟨fun hready => absurd (h.symm.trans hready) nofun, nofun⟩

end RoomActor

/-! ## A room that never rotates -/

variable {roomId : String} {config : ActorConfig}

/-- A lossy store, and a room that is never told to rotate. -/
def Policy.unrotated : Policy Doc roomId config where
  fate _ fate := fate.Prompt
  answer _ _ _ _ := True
  deliver _ _ _ := False
  accept _ _ _ command := command ≠ .rotate

theorem Policy.unrotated_quiet : (Policy.unrotated : Policy Doc roomId config).Quiet where
  honest := by
    rintro _ _ _ h rfl
    exact h
  still _ _ _ := id

/-- The disk of a room that has not rotated. -/
structure Unrotated (Doc : Type) [Loro Doc] (roomId : String) (limits : FrameLimits) (d : Disk) :
    Prop where
  manifest : d.read (manifestStream roomId).physical = []
  log : ∃ frames, DeltaLog (NamedFrame roomId .zero) limits
    (deltaStreamForGeneration roomId .zero).physical d frames ∧ Replayable Doc frames

namespace Unrotated

variable {d d' : Disk} {a : RoomActor Doc} {seen : List DeltaFrame}

theorem same (h : Unrotated Doc roomId config.frameLimits d) (hsame : d.Same d') :
    Unrotated Doc roomId config.frameLimits d' where
  manifest := (congrFun hsame.read _).trans h.manifest
  log := h.log.imp fun _ hlog => ⟨hlog.1.congr (congrFun hsame.read _) fun id =>
    congrFun (congrFun hsame.last _) id, hlog.2⟩

theorem generation (h : Unrotated Doc roomId config.frameLimits d)
    (htracks : a.Tracks roomId config.frameLimits d seen) : a.activeDeltaGeneration = .zero := by
  refine htracks.current.unique ?_
  rw [Current, h.manifest]
  rfl

/-- An admitted frame may follow what the actor has seen. -/
theorem admitted {Op : Type} {S : Loro.Observers Doc Op} (total : Loro.Total S)
    (h : Unrotated Doc roomId config.frameLimits d)
    (htracks : a.Tracks roomId config.frameLimits d seen) {connectionId : UInt64}
    {batchId : BatchId} {updates : List Bytes} {admission : RoomActor.Admission Doc}
    (hadmitted : a.Admitted connectionId batchId updates admission) :
    Replayable Doc (seen ++ [admission.pending.frame]) := by
  have hzero := h.generation htracks
  obtain ⟨frames, hlog, hreplayable⟩ := h.log
  have hseen := htracks.log
  rw [hzero] at hseen
  obtain ⟨rest, rfl⟩ := hseen.isPrefix hlog
  obtain ⟨kept, hhistory, hkept⟩ := htracks.history
  rw [hkept hzero, List.nil_append] at hhistory
  obtain ⟨_, _, hbuild⟩ := bind_eq_ok.mp hadmitted.candidate
  obtain ⟨_, _, himport⟩ := bind_eq_ok.mp hbuild
  have hblobs := hadmitted.blobs
  rw [hhistory] at hblobs
  rw [hadmitted.frame]
  exact hreplayable.of_append.snoc hblobs fun blob hmem =>
    (importAll_total total).mp ⟨_, himport⟩ blob (List.mem_append_right _ hmem)

theorem tried (h : Unrotated Doc roomId config.frameLimits d)
    (htracks : a.Tracks roomId config.frameLimits d seen) (ha : a.Seated roomId config)
    {pending : PendingAppend} (hpending : a.Prepares pending)
    (hreplayable : Replayable Doc (seen ++ [pending.frame])) (htried : Tried d pending.app d') :
    Unrotated Doc roomId config.frameLimits d' := by
  rcases htried with rfl | ⟨haccepts, rfl⟩
  · exact h
  · have happ : pending.app = _ := hpending.append_eq ha
    rw [happ] at haccepts ⊢
    have hlog := (htracks.log.log_of_accepts (hpending.frame.trans hpending.producer) haccepts).accept
      (hpending.submittable ha) haccepts
    have hzero := h.generation htracks
    refine ⟨?_, seen ++ [pending.frame], ?_, hreplayable⟩
    · rw [Disk.read_accept_ne deltaStream_ne_manifestStream.symm]
      exact h.manifest
    · rw [hzero] at hlog ⊢
      exact hlog

end Unrotated

/-- What the actor of such a room knows, and that its blocked append may follow. -/
def Resumable (roomId : String) (config : ActorConfig) (w : World) (a : RoomActor Doc) : Prop :=
  Unrotated Doc roomId config.frameLimits w.disk ∧
    ∃ seen, a.Live → a.Tracks roomId config.frameLimits w.disk seen ∧
      ∀ pending, a.blocked = some pending → Replayable Doc (seen ++ [pending.frame])

section Programs

variable {serve : Serve Request Answer World} (hs : Orderly Doc roomId config serve) {w : World}

include hs

theorem resumable_boot {boot : Boot} (hfresh : FreshBoot roomId w boot)
    (hkept : Kept Doc roomId config w) (h : Unrotated Doc roomId config.frameLimits w.disk) :
    wp serve (Contract.orderly Doc roomId config fun w => Unrotated Doc roomId config.frameLimits w.disk)
      (RoomActor.activate roomId config boot)
      (fun (a : RoomActor Doc) t => Resumable roomId config t a) w := by
  refine hs.boot hkept (fun w' _ hsame => h.same hsame) ?_ ?_
  · rintro endOffset lifecycle lastError t _ hsame hlifecycle
    refine ⟨h.same hsame, [], fun hlive => ?_⟩
    rcases hlive with hready | hblocked
    · rcases hlifecycle with rfl | rfl
      · cases hready
      · cases hready
    · exact absurd rfl hblocked
  · intro a base frames t _ hsame hreopened
    refine ⟨h.same hsame, frames, fun _ => ⟨hreopened.tracks hkept hfresh hsame.read hsame.last, ?_⟩⟩
    intro pending hpending
    rw [hreopened.unblocked] at hpending
    cases hpending

variable {Op : Type} {S : Loro.Observers Doc Op} (total : Loro.Total S) {a : RoomActor Doc}
  (ha : a.Placed roomId config w) (h : Resumable roomId config w a)

include ha h

theorem resumable_retry :
    wp serve (Contract.orderly Doc roomId config fun w => Unrotated Doc roomId config.frameLimits w.disk)
      a.retryPending (fun r t => Resumable roomId config t r.1) w := by
  obtain ⟨hdisk, seen, hactor⟩ := id h
  have hlive : ∀ pending, a.blocked = some pending → a.Live := fun pending hpending =>
    .inr (by rw [hpending]; exact Option.some_ne_none _)
  have htried : ∀ {pending} {t : World}, a.blocked = some pending → Tried w.disk pending.app t.disk →
      Unrotated Doc roomId config.frameLimits t.disk := by
    intro pending t hpending htried
    obtain ⟨htracks, hreplayable⟩ := hactor (hlive pending hpending)
    exact hdisk.tried htracks ha.toSeated (ha.blocked pending hpending).2
      (hreplayable pending hpending) htried
  refine hs.retry ha.toSeated (fun hlive => (hactor hlive).1)
    (fun _ _ hpending _ h => htried hpending h) (fun _ => h) ?_ ?_
  · intro pending endOffset lifecycle lastError t hpending _ htried' hnot
    obtain ⟨htracks, hreplayable⟩ := hactor (hlive pending hpending)
    refine ⟨htried hpending htried', seen, fun _ => ⟨?_, hreplayable⟩⟩
    exact (htracks.tried ha.toSeated (ha.blocked pending hpending).2 htried').congr rfl rfl rfl rfl
      fun hready => absurd hready hnot
  · intro pending endOffset next history doc t hpending _ htried' hlog hend hhistory _ _ hnext
    obtain ⟨htracks, _⟩ := hactor (hlive pending hpending)
    exact ⟨htried hpending htried', seen ++ [pending.frame], fun _ =>
      ⟨htracks.reloaded ha.toSeated hpending htried' hlog hend hhistory hnext, nofun⟩⟩

include total

theorem resumable_update {connectionId : UInt64} {batchId : BatchId} {updates : List Bytes}
    {peer : PeerSender} :
    wp serve (Contract.orderly Doc roomId config fun w => Unrotated Doc roomId config.frameLimits w.disk)
      (a.update connectionId batchId updates peer) (fun r t => Resumable roomId config t r.1) w := by
  obtain ⟨hdisk, seen, hactor⟩ := id h
  refine RoomActor.wp_update (fun _ _ => h) fun admission hadmitted => ?_
  obtain ⟨htracks, hblocked⟩ := hactor (.inl hadmitted.ready)
  have hreplayable := hdisk.admitted total htracks hadmitted
  have htried : ∀ {t : World}, Tried w.disk admission.pending.app t.disk →
      Unrotated Doc roomId config.frameLimits t.disk :=
    hdisk.tried htracks ha.toSeated hadmitted.prepares hreplayable
  refine wp_mono ?_ (hs.resolve ha.toSeated hadmitted.prepares htracks fun _ _ h => htried h)
  rintro r t ⟨_, htried', hok⟩
  refine ⟨htried htried', _, fun _ => ⟨htracks.finishUpdate ha.toSeated hadmitted htried' hok, ?_⟩⟩
  match r with
  | .ok proof =>
    intro pending hpending
    exact absurd (hadmitted.unblocked.symm.trans hpending) nofun
  | .error (.definitelyRejected kind message) => exact hblocked
  | .error (.outcomeUnknown error) =>
    rintro pending ⟨⟩
    exact hreplayable

theorem resumable_handle (command : Command) (hnot : command ≠ .rotate) :
    wp serve (Contract.orderly Doc roomId config fun w => Unrotated Doc roomId config.frameLimits w.disk)
      (a.handle command) (fun r t => Resumable roomId config t r.1) w := by
  refine RoomActor.wp_handle (fun _ => h) (fun _ => resumable_retry hs ha h)
    (fun hrotate => absurd hrotate hnot) (fun _ => h) ?_
    (fun _ _ _ _ _ _ => resumable_update hs total ha h) ?_
  · intro connectionId version peer _ _
    obtain ⟨peers, ids, hjoin⟩ := a.join_fst connectionId version peer
    rw [hjoin]
    exact ⟨h.1, h.2.imp fun _ hactor hlive =>
      ⟨(hactor hlive).1.congr rfl rfl rfl rfl fun hready => ⟨hready, rfl⟩, (hactor hlive).2⟩⟩
  · intro connectionId _ _
    exact ⟨h.1, h.2.imp fun _ hactor hlive =>
      ⟨(hactor hlive).1.congr rfl rfl rfl rfl fun hready => ⟨hready, rfl⟩, (hactor hlive).2⟩⟩

end Programs

/-- At every moment the frames of a room that never rotates can be replayed. -/
theorem RoomReachable.unrotated {Op : Type} {S : Loro.Observers Doc Op} (total : Loro.Total S)
    {g : System (gateway Doc roomId config) World}
    (hreach : RoomReachable (Policy.unrotated : Policy Doc roomId config) g) :
    Unrotated Doc roomId config.frameLimits g.world.disk := by
  have hpreserved := (Policy.unrotated_quiet : (Policy.unrotated : Policy Doc roomId config).Quiet).preserved
    (L := RoomActor.Placed roomId config) (J := fun w a _ => Resumable roomId config w a)
    (F := fun w _ => Unrotated Doc roomId config.frameLimits w.disk) (fun _ h => h.1) (fun _ h => h)
    (fun hs hfresh hkept h => resumable_boot hs hfresh hkept h)
    (fun hs haccepts ha _ h => resumable_handle hs total ha h _ haccepts)
  refine (Reachable.crash_invariant hpreserved ?_ hreach.inKept).2
  rintro w rfl
  exact ⟨kept_empty, rfl, [], .empty, .nil⟩

/-- A restart of a room that never rotates succeeds, and the replay of its stream with
it, exactly when the stream is no longer than the limit for whole streams. -/
theorem restart_ready_iff {Op : Type} {S : Loro.Observers Doc Op} (total : Loro.Total S)
    {g : System (gateway Doc roomId config) World}
    (hreach : RoomReachable (Policy.unrotated : Policy Doc roomId config) g) (boot : Boot) :
    (∃ (a : RoomActor Doc) (w' : World),
      Runs answered Eq (RoomActor.activate roomId config boot) (crashedWorld g.world) a w') ∧
    ∀ (a : RoomActor Doc) (w' : World),
      Runs answered Eq (RoomActor.activate roomId config boot) (crashedWorld g.world) a w' →
      (a.lifecycle = .ready ∧
        Replays Doc config.frameLimits (g.world.disk.read (deltaStream roomId).physical) ↔
      (g.world.disk.read (deltaStream roomId).physical).length ≤ config.frameLimits.maxStreamBytes) := by
  have h := hreach.unrotated total
  obtain ⟨frames, hlog, hreplayable⟩ := h.log
  have hcontent : g.world.disk.read (deltaStream roomId).physical =
      logBytes config.frameLimits frames := hlog.content
  have hstart : wp answered (.alone fun _ => True) (RoomActor.activate roomId config boot)
      (fun (a : RoomActor Doc) _ => a.lifecycle = .ready ↔
        Replays Doc config.frameLimits (g.world.disk.read (deltaStream roomId).physical))
      (crashedWorld g.world) := RoomActor.wp_activate_answered h.manifest (hcontent ▸ hlog.word)
  refine ⟨?_, fun a w' hrun => ?_⟩
  · obtain ⟨a, w', hrun, _⟩ := exists_run_of_answered hstart
    exact ⟨a, w', hrun⟩
  · have hready := (hrun.sound_alone trivial hstart).2
    change a.lifecycle = .ready ↔ Replays Doc config.frameLimits
      (g.world.disk.read (deltaStream roomId).physical) at hready
    rw [hready, and_self_iff, hcontent]
    exact hreplayable.replays_iff total hlog.valid hlog.word

/-- The event acknowledges its batch, if it brings one. -/
def acknowledges : Event (gateway Doc roomId config) World → Bool
  | .handled (.update _ batchId _ _) _ _ outputs _ _ => decide (batchId ∈ ackedIn outputs)
  | _ => true

end

open Sample

/-- Limits under which no stream may hold a frame. -/
def narrowConfig : ActorConfig where
  ambiguousRetries := 0
  frameLimits := { FrameLimits.default with maxStreamBytes := 64 }

/-- Scripts for a room that never rotates. -/
def unrotatedDirection (config : ActorConfig) : Direction config :=
  { lossyDirection config with
    policy := .unrotated
    accepts := fun _ command =>
      match command with
      | .rotate => false
      | _ => true
    accepts_accept := by
      rintro w a events command h rfl
      cases h }

/-- A room with one acknowledged update is opened again under the usual limits. -/
theorem restart_ready_iff_acked :
    ∃ (g : System (gateway OpDoc "r" .default) World) (a : RoomActor OpDoc) (w' : World),
      RoomReachable .unrotated g ∧ acks g.events = [(sampleBatch 1, [[1, 0]])] ∧
      Runs answered Eq (RoomActor.activate "r" .default (sampleBoot 2)) (crashedWorld g.world) a w' ∧
      a.lifecycle = .ready := by
  have hrun : ((unrotatedDirection .default).director.run
      [.boot (sampleBoot 1) (answeredAll 4), .command (.join 1 [] 7) [],
        .command (.update 1 (sampleBatch 1) [[1, 0]] 7) (answeredAll 1)]
      ⟨World.empty, .down, []⟩).any (fun g =>
        decide (acks g.events = [(sampleBatch 1, [[1, 0]])]) &&
        decide ((g.world.disk.read (deltaStream "r").physical).length ≤ 4096)) = true := by
    decide +kernel
  obtain ⟨g, hreach, hend⟩ := Direction.exists_of_run hrun
  rw [Bool.and_eq_true, decide_eq_true_eq, decide_eq_true_eq] at hend
  obtain ⟨⟨a, w', hactivate⟩, hready⟩ := restart_ready_iff OpDoc.total hreach (sampleBoot 2)
  have hshort : 4096 ≤ FrameLimits.default.maxStreamBytes := by decide
  exact ⟨g, a, w', hreach, hend.1, hactivate, ((hready a w' hactivate).mpr (hend.2.trans hshort)).1⟩

/-- One acknowledged update makes a stream that a restart refuses. -/
theorem restart_refuses_long_stream :
    ∃ (g : System (gateway OpDoc "r" narrowConfig) World) (a : RoomActor OpDoc) (w' : World),
      RoomReachable .unrotated g ∧ acks g.events = [(sampleBatch 1, [[1, 0]])] ∧
      (∀ event ∈ g.events, acknowledges event = true) ∧
      Runs answered Eq (RoomActor.activate "r" narrowConfig (sampleBoot 2)) (crashedWorld g.world) a
        w' ∧ a.lifecycle ≠ .ready := by
  have hrun : ((unrotatedDirection narrowConfig).director.run
      [.boot (sampleBoot 1) (answeredAll 4), .command (.join 1 [] 7) [],
        .command (.update 1 (sampleBatch 1) [[1, 0]] 7) (answeredAll 1)]
      ⟨World.empty, .down, []⟩).any (fun g =>
        decide (acks g.events = [(sampleBatch 1, [[1, 0]])]) && g.events.all acknowledges &&
        decide (g.world.disk.read (manifestStream "r").physical = []) &&
        decide (64 < (g.world.disk.read (deltaStream "r").physical).length ∧
          (g.world.disk.read (deltaStream "r").physical).length < wordSize)) = true := by
    decide +kernel
  obtain ⟨g, hreach, hend⟩ := Direction.exists_of_run hrun
  simp only [Bool.and_eq_true, decide_eq_true_eq, List.all_eq_true] at hend
  obtain ⟨⟨⟨hacks, hall⟩, hempty⟩, hlong, hword⟩ := hend
  have hstart : wp answered (.alone fun _ => True)
      (RoomActor.activate "r" narrowConfig (sampleBoot 2))
      (fun (a : RoomActor OpDoc) _ => a.lifecycle = .ready ↔ Replays OpDoc narrowConfig.frameLimits
        (g.world.disk.read (deltaStream "r").physical))
      (crashedWorld g.world) := RoomActor.wp_activate_answered hempty hword
  obtain ⟨a, w', hactivate, hready⟩ := exists_run_of_answered hstart
  refine ⟨g, a, w', hreach, hacks, hall, hactivate, fun h => ?_⟩
  obtain ⟨frames, _, _, hdecode, _⟩ := hready.mp h
  rw [decodeAllWithLimits, Frame.enforceLimit, check_bind_eq_ok] at hdecode
  exact absurd hdecode.1 (Nat.not_le.mpr hlong)

end LoroGateway
