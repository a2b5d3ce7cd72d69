import LoroGateway.Acknowledged
import LoroGateway.Content
import LoroGateway.Scripted

/-!
# Acknowledged updates are kept

An acknowledged update is in a frame of the active stream, or in the checkpoint
that the generation starts from.  `RetainedDisk` says this of the disk and holds
between any two calls; `Retained` adds what a live room knows of it.

One program can break the chain.  A retry of a blocked append reloads the room
from its active stream alone, so in a generation that starts from a checkpoint
the document forgets what only the checkpoint held; the next rotation then makes
the loss durable.  `Spared` is the condition under which a retry does no harm.
-/

namespace LoroGateway

open ByteCodec CrashLogic CrashLogic.Server

section

variable [Hashing] {Doc : Type} [Loro Doc] {roomId : String} {config : ActorConfig} {Op : Type}

/-! ## The operations of the acknowledged batches -/

/-- The operations of the batches that were acknowledged. -/
def ackedOps (S : Loro.Observers Doc Op) (events : List (Event (gateway Doc roomId config) World)) :
    Set Op :=
  {o | ∃ ack ∈ acks events, o ∈ S.ops ack.2}

section AckedOps

variable {S : Loro.Observers Doc Op} {events : List (Event (gateway Doc roomId config) World)}
  {before after : World} {a a' : RoomActor Doc} {outputs : List Output}

theorem ackedOps_nil : ackedOps S ([] : List (Event (gateway Doc roomId config) World)) = ∅ := by
  ext o
  simp [ackedOps, acks]

/-- A turn that acknowledges nothing. -/
theorem ackedOps_silent {command : Command} (h : ackedIn outputs = []) :
    ackedOps S (.handled command before a outputs after a' :: events) = ackedOps S events := by
  simp only [ackedOps, acks, List.flatMap_cons, h, List.map_nil, List.nil_append]

/-- A turn that acknowledges an update. -/
theorem ackedOps_update {connectionId : UInt64} {batchId : BatchId} {updates : List Bytes}
    {peer : PeerSender} (h : ackedIn outputs = [batchId]) :
    ackedOps S (.handled (.update connectionId batchId updates peer) before a outputs after a' ::
      events) = ackedOps S events ∪ S.ops updates := by
  have hacks : acks (.handled (.update connectionId batchId updates peer) before a outputs after a' ::
      events) = (batchId, updates) :: acks events := by
    simp only [acks, List.flatMap_cons, h]
    rfl
  ext o
  simp only [ackedOps, hacks, List.mem_cons, exists_eq_or_imp, Set.mem_ofPred_eq, Set.mem_union]
  exact or_comm

end AckedOps

/-! ## What a retry must spare -/

/-- The active stream holds all that the document knows. -/
def RoomActor.Spared (S : Loro.Observers Doc Op) (roomId : String) (limits : FrameLimits) (d : Disk)
    (a : RoomActor Doc) : Prop :=
  ∀ frames, DeltaLog (NamedFrame roomId a.activeDeltaGeneration) limits
      (deltaStreamForGeneration roomId a.activeDeltaGeneration).physical d frames →
    S.known a.doc ⊆ S.ops (frames.flatMap DeltaFrame.updates)

/-- A lossy store, and reloads that spare the document in every generation after the
first.  A retry reads a whole stream only to reload it, once its append is settled. -/
def Policy.sparing (S : Loro.Observers Doc Op) : Policy Doc roomId config where
  fate _ fate := fate.Prompt
  answer task w req x :=
    match task, req, x with
    | .command .retryAmbiguous a, .readAll _, .ok _ =>
      a.activeDeltaGeneration ≠ .zero → a.Spared S roomId config.frameLimits w.disk
    | _, _, _ => True
  deliver _ _ _ := False
  accept _ _ _ _ := True

theorem Policy.sparing_quiet {S : Loro.Observers Doc Op} :
    (Policy.sparing S : Policy Doc roomId config).Quiet where
  honest := by
    rintro _ _ _ h rfl
    exact h
  still _ _ _ := id

/-! ## The invariant -/

section Invariant

variable (S : Loro.Observers Doc Op) (roomId) (config)

/-- The disk holds the operations of all acknowledged batches. -/
def RetainedDisk (d : Disk) (acked : Set Op) : Prop :=
  ∃ generation base frames, OnDisk Doc roomId config.frameLimits d generation base frames ∧
    acked ⊆ S.contentOps base frames

/-- So does the document of a live room, which knows nothing besides what the disk holds. -/
structure Retained (w : World) (a : RoomActor Doc) (acked : Set Op) : Prop where
  disk : RetainedDisk roomId config S w.disk acked
  live : a.Live → ∃ base seen, StartsFrom Doc roomId w.disk a.activeDeltaGeneration base ∧
    a.Tracks roomId config.frameLimits w.disk seen ∧
    S.known a.doc ⊆ S.contentOps base seen ∧ acked ⊆ S.known a.doc

variable {S} {roomId} {config} {d d' : Disk} {w : World} {a : RoomActor Doc} {acked : Set Op}

theorem RetainedDisk.same (h : RetainedDisk roomId config S d acked) (hsame : d.Same d') :
    RetainedDisk roomId config S d' acked := by
  obtain ⟨generation, base, frames, hheld, hacked⟩ := h
  exact ⟨generation, base, frames, hheld.same hsame, hacked⟩

/-- A tried append takes nothing away. -/
theorem RetainedDisk.tried (h : RetainedDisk roomId config S d acked) (ha : a.Seated roomId config)
    (hcurrent : Current roomId a.activeDeltaGeneration d) {pending : PendingAppend}
    (hpending : a.Prepares pending) (htried : Tried d pending.app d') :
    RetainedDisk roomId config S d' acked := by
  obtain ⟨generation, base, frames, hheld, hacked⟩ := h
  obtain rfl := hheld.current.unique hcurrent
  rcases hpending.tried_holding ha hheld htried with hsame | hmore
  · exact ⟨_, base, frames, hsame, hacked⟩
  · exact ⟨_, base, _, hmore, hacked.trans (contentOps_mono (List.prefix_append _ _))⟩

/-- The room stands where it stood. -/
theorem Retained.congr (h : Retained roomId config S w a acked) {a' : RoomActor Doc}
    (hblocked : a'.blocked = a.blocked) (hlifecycle : a'.lifecycle = a.lifecycle)
    (hgeneration : a'.activeDeltaGeneration = a.activeDeltaGeneration)
    (hproducer : a'.producerId = a.producerId) (hsequence : a'.producerSequence = a.producerSequence)
    (hhistory : a'.history = a.history) (hoffset : a'.activeDeltaEndOffset = a.activeDeltaEndOffset)
    (hdoc : a'.doc = a.doc) : Retained roomId config S w a' acked where
  disk := h.disk
  live hlive := by
    rw [RoomActor.Live, hlifecycle, hblocked] at hlive
    obtain ⟨base, seen, hstart, htracks, hknown, hacked⟩ := h.live hlive
    refine ⟨base, seen, hgeneration ▸ hstart, ?_, hdoc ▸ hknown, hdoc ▸ hacked⟩
    exact htracks.congr hgeneration hproducer hsequence hhistory
      fun hready => ⟨hlifecycle ▸ hready, hoffset⟩

section Programs

variable {serve : Serve Request Answer World} (hs : Orderly Doc roomId config serve)

include hs

theorem retained_boot (sem : Loro.Semantics S) {boot : Boot} (hfresh : FreshBoot roomId w boot)
    (hkept : Kept Doc roomId config w) (h : RetainedDisk roomId config S w.disk acked) :
    wp serve (Contract.orderly Doc roomId config fun w => RetainedDisk roomId config S w.disk acked)
      (RoomActor.activate roomId config boot)
      (fun (a : RoomActor Doc) t => Retained roomId config S t a acked) w := by
  refine hs.boot hkept (fun w' _ hsame => h.same hsame) ?_ ?_
  · intro endOffset lifecycle lastError t _ hsame hlifecycle
    exact ⟨h.same hsame, fun hlive => absurd hlive (RoomActor.not_live_failed hlifecycle)⟩
  · intro a base frames t _ hsame hreopened
    refine ⟨h.same hsame, fun _ => ⟨base, frames, hreopened.start,
      hreopened.tracks hkept hfresh hsame.read hsame.last, (hreopened.content sem).le, ?_⟩⟩
    obtain ⟨generation, base', frames', hheld, hacked⟩ := h.same hsame
    obtain ⟨rfl, rfl, rfl⟩ := hreopened.holding.unique hheld
    rw [hreopened.content sem]
    exact hacked

variable (ha : a.Placed roomId config w) (h : Retained roomId config S w a acked)

include ha h

theorem retained_retry (sem : Loro.Semantics S)
    (hspared : ∀ {t t' : World} {bytes : Bytes}, serve t (.readAll a.stream) (.ok bytes) t' →
      a.activeDeltaGeneration ≠ .zero → a.Spared S roomId config.frameLimits t.disk) :
    wp serve (Contract.orderly Doc roomId config fun w => RetainedDisk roomId config S w.disk acked)
      a.retryPending (fun r t => Retained roomId config S t r.1 acked) w := by
  by_cases hblocked : a.blocked = none
  · rw [RoomActor.retryPending, hblocked]
    exact h
  have hlive : a.Live := .inr hblocked
  obtain ⟨base, seen, hstart, htracks, hknown, hacked⟩ := h.live hlive
  have hdisk : ∀ {pending} {t : World}, a.blocked = some pending → Tried w.disk pending.app t.disk →
      RetainedDisk roomId config S t.disk acked := fun hpending htried =>
    h.disk.tried ha.toSeated htracks.current (ha.blocked _ hpending).2 htried
  refine hs.retry ha.toSeated (fun _ => htracks) (fun _ _ hpending _ htried => hdisk hpending htried)
    (fun hnone => absurd hnone hblocked) ?_ ?_
  · intro pending endOffset lifecycle lastError t hpending _ htried hnot
    have hprepares := (ha.blocked pending hpending).2
    refine ⟨hdisk hpending htried, fun _ => ⟨base, seen, hstart.tried ha.toSeated hprepares htried, ?_,
      hknown, hacked⟩⟩
    exact (htracks.tried ha.toSeated hprepares htried).congr rfl rfl rfl rfl
      fun hready => absurd hready hnot
  · intro pending endOffset next history doc t hpending _ htried hlog hend hhistory hdoc hserve
      hnext
    have hprepares := (ha.blocked pending hpending).2
    have hreplayed : S.known doc = S.ops ((seen ++ [pending.frame]).flatMap DeltaFrame.updates) := by
      have hsame := collectHistory_eq_ok hhistory
      rw [List.nil_append] at hsame
      rw [replay_known sem hdoc, hsame]
    refine ⟨hdisk hpending htried, fun _ => ⟨base, seen ++ [pending.frame],
      hstart.tried ha.toSeated hprepares htried,
      htracks.reloaded ha.toSeated hpending htried hlog hend hhistory hnext, ?_, hacked.trans ?_⟩⟩
    · exact hreplayed.le.trans Set.subset_union_right
    · change S.known a.doc ⊆ S.known doc
      rw [hreplayed]
      by_cases hzero : a.activeDeltaGeneration = .zero
      · -- the first generation starts from nothing
        rw [hzero] at hstart
        cases hstart with
        | nothing =>
          have hmore : S.contentOps none seen ⊆ S.contentOps none (seen ++ [pending.frame]) :=
            contentOps_mono (List.prefix_append _ _)
          exact hknown.trans (hmore.trans (Set.union_subset (Set.empty_subset _) subset_rfl))
        | checkpoint hnext => exact absurd hnext (Nat.succ_ne_zero _).symm
      · exact hspared hserve hzero _ hlog

omit ha in
/-- A rotation makes the document the checkpoint of the next generation. -/
theorem retained_rotate (sem : Loro.Semantics S) (ha : a.Seated roomId config)
    (hremembers : a.Remembers S) (hkept : Kept Doc roomId config w) :
    wp serve (Contract.orderly Doc roomId config fun w => RetainedDisk roomId config S w.disk acked)
      a.rotateGeneration (fun r t => Retained roomId config S t r.1 acked) w := by
  by_cases hready : a.lifecycle = .ready
  · obtain ⟨base, seen, hstart, htracks, hknown, hacked⟩ := h.live (.inl hready)
    have hnext : ∀ {t : World} {next : GenerationId} {checkpoint : CheckpointRecord},
        Kept Doc roomId config t → a.Superseded roomId next checkpoint t.disk →
        RetainedDisk roomId config S t.disk acked := by
      intro t next checkpoint hkept' hsuperseded
      refine ⟨next, some checkpoint, [], hsuperseded.holding hkept', ?_⟩
      rw [contentOps_nil, hsuperseded.baseOps sem hremembers]
      exact hacked
    have hclosing : ∀ {t : World}, Kept Doc roomId config t → a.Closing roomId w.disk t.disk →
        RetainedDisk roomId config S t.disk acked := by
      intro t hkept' hclosing
      obtain ⟨generation, base', frames, hheld, hacked'⟩ := h.disk
      obtain rfl := hheld.current.unique htracks.current
      rcases hclosing.holding hkept' hheld with hsame | ⟨next, checkpoint, hsuperseded, _⟩
      · exact ⟨_, base', frames, hsame, hacked'⟩
      · exact hnext hkept' hsuperseded
    refine hs.rotate ha hkept (fun _ => htracks)
      (fun _ _ _ hkept' hclosed => hclosing hkept' hclosed) (fun _ => h) ?_ ?_
    · intro message t _ hblocked hkept' hclosed
      refine ⟨hclosing hkept' hclosed, fun hlive => ?_⟩
      exact hlive.elim nofun fun hne => absurd hblocked hne
    · intro result t _ _ hkept' _ hsuperseded _ _ htracks'
      refine ⟨hnext hkept' hsuperseded, fun _ =>
        ⟨some result.checkpoint, [], hsuperseded.start, htracks', ?_, hacked⟩⟩
      rw [contentOps_nil, hsuperseded.baseOps sem hremembers]
      exact subset_rfl
  · exact RoomActor.wp_rotateGeneration (fun _ => h) fun hready' => absurd hready' hready

variable {events : List (Event (gateway Doc roomId config) World)}

omit h in
theorem retained_update (sem : Loro.Semantics S) (hremembers : a.Remembers S)
    (h : Retained roomId config S w a (ackedOps S events)) {connectionId : UInt64}
    {batchId : BatchId} {updates : List Bytes} {peer : PeerSender} :
    wp serve (Contract.orderly Doc roomId config
        fun w => RetainedDisk roomId config S w.disk (ackedOps S events))
      (a.update connectionId batchId updates peer)
      (fun r t => Retained roomId config S t r.1 (ackedOps S
        (.handled (.update connectionId batchId updates peer) w a r.2 t r.1 :: events))) w := by
  refine RoomActor.wp_update (fun status hstatus => ?_) fun admission hadmitted => ?_
  · rw [ackedOps_silent (ackedIn_sendAck_ne (RoomActor.admitUpdate_error_ne hstatus).1)]
    exact h
  obtain ⟨base, seen, hstart, htracks, hknown, hacked⟩ := h.live (.inl hadmitted.ready)
  have hprepares := hadmitted.prepares
  have hupdates : admission.pending.frame.updates = updates := by
    rw [hadmitted.frame]
    rfl
  refine wp_mono ?_ (hs.resolve ha.toSeated hprepares htracks fun _ _ htried =>
    h.disk.tried ha.toSeated htracks.current hprepares htried)
  rintro r t ⟨_, htried, hok⟩
  have hdisk := h.disk.tried ha.toSeated htracks.current hprepares htried
  have hstart' := hstart.tried ha.toSeated hprepares htried
  have hafter : (a.finishUpdate connectionId batchId updates peer admission r).1.Tracks roomId
      config.frameLimits t.disk (RoomActor.Tracks.after seen admission.pending.frame r) :=
    htracks.finishUpdate ha.toSeated hadmitted htried hok
  cases r with
  | error failure =>
    rw [ackedOps_silent (ackedIn_finishUpdate_error failure)]
    refine ⟨hdisk, fun _ => ⟨base, seen, ?_⟩⟩
    cases failure <;> exact ⟨hstart', hafter, hknown, hacked⟩
  | ok proof =>
    have hcandidate : S.known admission.candidate = S.known a.doc ∪ S.ops updates :=
      buildCandidate_eq_union sem hremembers.pending hremembers.known hadmitted.candidate
    have hlog := (hok proof rfl).1
    obtain ⟨generation, base', frames, hheld, hacked'⟩ := hdisk
    obtain rfl := hheld.current.unique hafter.current
    obtain rfl := hheld.log.unique hlog
    rw [ackedOps_update (ackedIn_finishUpdate_ok proof)]
    refine ⟨⟨_, base', _, hheld, Set.union_subset hacked' ?_⟩, fun _ =>
      ⟨base, _, hstart', hafter, ?_, ?_⟩⟩
    · rw [contentOps_snoc, hupdates]
      exact Set.subset_union_right
    · change S.known admission.candidate ⊆ _
      rw [hcandidate]
      change _ ⊆ S.contentOps base (seen ++ [admission.pending.frame])
      rw [contentOps_snoc, hupdates]
      exact Set.union_subset_union_left _ hknown
    · change _ ⊆ S.known admission.candidate
      rw [hcandidate]
      exact Set.union_subset_union_left _ hacked

omit h in
theorem retained_handle (sem : Loro.Semantics S) (hremembers : a.Remembers S)
    (hkept : Kept Doc roomId config w) (h : Retained roomId config S w a (ackedOps S events))
    {command : Command} (hspared : ∀ {t t' : World} {bytes : Bytes},
      serve t (.readAll a.stream) (.ok bytes) t' → command = .retryAmbiguous →
        a.activeDeltaGeneration ≠ .zero → a.Spared S roomId config.frameLimits t.disk) :
    wp serve (Contract.orderly Doc roomId config
        fun w => RetainedDisk roomId config S w.disk (ackedOps S events))
      (a.handle command) (fun r t => Retained roomId config S t r.1
        (ackedOps S (.handled command w a r.2 t r.1 :: events))) w := by
  refine RoomActor.wp_handle ?_ ?_ ?_ ?_ ?_ ?_ ?_
  · intro _
    rw [ackedOps_silent rfl]
    exact h
  · intro hretry
    refine wp_mono (fun r t hr => ?_)
      (retained_retry hs ha h sem fun hserve => hspared hserve hretry)
    rw [ackedOps_silent rfl]
    exact hr
  · intro _
    refine wp_mono (fun r t hr => ?_) (retained_rotate hs h sem ha.toSeated hremembers hkept)
    rw [ackedOps_silent rfl]
    exact hr
  · intro _
    rw [ackedOps_silent (ackedIn_rejectUnavailable command)]
    exact h
  · intro connectionId version peer _ _
    rw [ackedOps_silent ackedIn_join]
    obtain ⟨peers, ids, hjoin⟩ := a.join_fst connectionId version peer
    rw [hjoin]
    exact h.congr rfl rfl rfl rfl rfl rfl rfl rfl
  · rintro connectionId batchId updates peer rfl _
    exact retained_update hs ha sem hremembers h
  · intro connectionId _ _
    rw [ackedOps_silent rfl]
    exact h.congr rfl rfl rfl rfl rfl rfl rfl rfl

end Programs

/-! ## Runs -/

/-- What the policy says of a reload. -/
theorem spared_of_reload {L : World → RoomActor Doc → Prop} {command : Command} {t t' : World}
    {stream : String} {bytes : Bytes}
    (h : (keptWith (Policy.sparing S : Policy Doc roomId config) L).serve (.command command a) t
      (.readAll stream) (.ok bytes) t') (hretry : command = .retryAmbiguous)
    (hlater : a.activeDeltaGeneration ≠ .zero) : a.Spared S roomId config.frameLimits t.disk := by
  subst hretry
  obtain ⟨⟨_, _, hanswer, _⟩, _⟩ := h
  exact hanswer hlater

/-- A room whose retries spare its document retains all acknowledged batches. -/
theorem RoomReachable.retained (sem : Loro.Semantics S)
    {events : List (Event (gateway Doc roomId config) World)}
    (hreach : RoomReachable (Policy.sparing S : Policy Doc roomId config) ⟨w, .idle a, events⟩) :
    Retained roomId config S w a (ackedOps S events) := by
  have hpreserved := Policy.preserved_over (Policy.sparing_quiet (S := S)).still
    (L := fun w (a : RoomActor Doc) => a.Placed roomId config w ∧ a.Remembers S)
    (J := fun w a events => Retained roomId config S w a (ackedOps S events))
    (F := fun w events => RetainedDisk roomId config S w.disk (ackedOps S events))
    (fun _ h => h.disk) (fun _ h => h)
    (fun hfresh hkept h =>
      retained_boot (Policy.sparing_quiet.honest.orderly _ _) sem hfresh hkept h)
    (fun _ ha hkept h => retained_handle (Policy.sparing_quiet.honest.orderly _ _) ha.1 sem ha.2
      hkept h fun hserve hretry => spared_of_reload hserve hretry)
  have hwithin : Reachable (keptWith (Policy.sparing S)
      fun w (a : RoomActor Doc) => a.Placed roomId config w ∧ a.Remembers S)
      (fun w => w = World.empty) ⟨w, .idle a, events⟩ :=
    Reachable.within (fun h => RoomReachable.kept h)
      (fun h => ⟨RoomReachable.placed h, RoomReachable.actor (RoomActor.Remembers.invariant sem) h⟩)
      hreach
  refine (Reachable.idle_invariant hpreserved ?_ hwithin).2
  rintro w rfl
  refine ⟨kept_empty, .zero, none, [], .empty, ?_⟩
  rw [ackedOps_nil]
  exact Set.empty_subset _

/-- In every ready room, whatever crashes, rotations and lost answers it has been through,
the document holds every batch that was acknowledged, provided that each retry that comes to
reload in a later generation finds all that the document knows in the active stream. -/
theorem acknowledged_updates_kept (sem : Loro.Semantics S)
    {events : List (Event (gateway Doc roomId config) World)}
    (hreach : RoomReachable (Policy.sparing S : Policy Doc roomId config) ⟨w, .idle a, events⟩)
    (hready : a.lifecycle = .ready) :
    ∀ ack ∈ acks events, S.ops ack.2 ⊆ S.known a.doc := by
  obtain ⟨base, seen, _, _, _, hacked⟩ := (hreach.retained sem).live (.inl hready)
  exact fun ack hmem o ho => hacked ⟨ack, hmem, ho⟩

end Invariant

end

open Sample

/-- Scripts for rooms that are retried in their first generation alone. -/
def sparingDirection (config : ActorConfig) : Direction config where
  policy := .sparing OpDoc.observers
  permits := (lossyDirection config).permits
  permits_fate := (lossyDirection config).permits_fate
  allows a command _ req _ :=
    match command, req with
    | .retryAmbiguous, .readAll _ => decide (a.activeDeltaGeneration = .zero)
    | _, _ => true
  answers_boot _ _ _ _ := trivial
  answers_command := by
    intro a command w req x h
    cases command with
    | retryAmbiguous =>
      cases req with
      | readAll stream =>
        cases x with
        | ok bytes => exact fun hlater => absurd (of_decide_eq_true h) hlater
        | error error => exact True.intro
      | _ => exact True.intro
    | _ => exact True.intro
  delivers _ _ := false
  delivers_deliver := nofun
  accepts _ _ := true
  accepts_accept _ := trivial

/-- A blocked update is reconciled in the first generation, the room rotates and is
started again. -/
theorem acknowledged_updates_kept_rotated :
    ∃ (w : World) (a : RoomActor OpDoc) (events : List (Event (sampleGateway .default) World)),
      RoomReachable (Policy.sparing OpDoc.observers : Policy OpDoc "r" .default)
        ⟨w, .idle a, events⟩ ∧
      a.lifecycle = .ready ∧ a.activeDeltaGeneration = ⟨1⟩ ∧
      acks events = [(sampleBatch 3, [[1, 4]]), (sampleBatch 1, [[1, 0]])] ∧
      ∀ ack ∈ acks events, OpDoc.observers.ops ack.2 ⊆ OpDoc.observers.known a.doc := by
  have hrun : ((sparingDirection .default).director.run
      [.boot (sampleBoot 1) (answeredAll 4), .command (.join 1 [] 7) [],
        .command (.update 1 (sampleBatch 1) [[1, 0]] 7) (answeredAll 1),
        .command (.update 1 (sampleBatch 2) [[1, 2]] 7) (List.replicate 6 (.lost "timeout")),
        .command .retryAmbiguous (answeredAll 3), .command .rotate (answeredAll 10),
        .command (.update 1 (sampleBatch 3) [[1, 4]] 7) (answeredAll 1),
        .crash, .boot (sampleBoot 2) (answeredAll 4)]
      ⟨World.empty, .down, []⟩).any (whenIdle fun _ a events => decide (a.lifecycle = .ready) &&
        decide (a.activeDeltaGeneration = ⟨1⟩) &&
          decide (acks events = [(sampleBatch 3, [[1, 4]]), (sampleBatch 1, [[1, 0]])])) = true := by
    decide +kernel
  obtain ⟨w, a, events, hreach, hend⟩ := Direction.exists_idle_of_run hrun
  simp only [Bool.and_eq_true, decide_eq_true_eq] at hend
  obtain ⟨⟨hready, hgeneration⟩, hacks⟩ := hend
  exact ⟨w, a, events, hreach, hready, hgeneration, hacks,
    acknowledged_updates_kept OpDoc.semantics hreach hready⟩

/-- What happened before a room was started just now. -/
def beforeStart : List (Event (sampleGateway .default) World) →
    Option (List (Event (sampleGateway .default) World))
  | .booted _ _ _ :: earlier => some earlier
  | _ => none

theorem beforeStart_eq_some {events earlier : List (Event (sampleGateway .default) World)}
    (h : beforeStart events = some earlier) :
    ∃ boot after booted, events = .booted boot after booted :: earlier := by
  unfold beforeStart at h
  split at h
  · cases h
    exact ⟨_, _, _, rfl⟩
  · cases h

/-- A retry after a rotation forgets what the checkpoint holds, the next rotation makes a
checkpoint without it, and a room that is started again lacks an acknowledged batch. -/
theorem acknowledged_update_lost :
    ∃ (w after : World) (a booted : RoomActor OpDoc) (boot : Boot)
      (events : List (Event (sampleGateway .default) World)),
      RoomReachable (Policy.lossy : Policy OpDoc "r" .default)
        ⟨w, .idle a, .booted boot after booted :: events⟩ ∧
      a.lifecycle = .ready ∧ (sampleBatch 1, [[1, 0]]) ∈ acks events ∧
      ¬ OpDoc.observers.ops [[1, 0]] ⊆ OpDoc.observers.known a.doc := by
  have hrun : ((lossyDirection .default).director.run
      [.boot (sampleBoot 1) (answeredAll 4), .command (.join 1 [] 7) [],
        .command (.update 1 (sampleBatch 1) [[1, 0]] 7) (answeredAll 1),
        .command .rotate (answeredAll 10),
        .command (.update 1 (sampleBatch 2) [[1, 2]] 7) (List.replicate 6 (.lost "timeout")),
        .command .retryAmbiguous (answeredAll 3), .command .rotate (answeredAll 10),
        .crash, .boot (sampleBoot 2) (answeredAll 4)]
      ⟨World.empty, .down, []⟩).any (whenIdle fun _ a events => decide (a.lifecycle = .ready) &&
        decide (a.doc.received = [2]) && (beforeStart events).any fun earlier =>
          decide ((sampleBatch 1, [[1, 0]]) ∈ acks earlier)) = true := by
    decide +kernel
  obtain ⟨w, a, events, hreach, hend⟩ := Direction.exists_idle_of_run hrun
  simp only [Bool.and_eq_true, decide_eq_true_eq] at hend
  obtain ⟨⟨hready, hreceived⟩, hevents⟩ := hend
  obtain ⟨earlier, hearlier, hacked⟩ := (Option.any_eq_true _ _).mp hevents
  obtain ⟨boot, after, booted, rfl⟩ := beforeStart_eq_some hearlier
  refine ⟨w, after, a, booted, boot, earlier, hreach, hready, of_decide_eq_true hacked,
    fun hsubset => ?_⟩
  have hop : (0 : Fin 8) ∈ OpDoc.opsOf [1, 0] := by decide
  have hknown := hsubset ⟨[1, 0], List.mem_singleton_self _, hop⟩
  rw [OpDoc.known_eq, hreceived] at hknown
  exact absurd hknown (by decide)

end LoroGateway
