import LoroGateway.Answered
import LoroGateway.Quiet
import LoroGateway.Remembered
import LoroGateway.Scripted

/-!
# The ambiguous path against the direct path

An update whose append ends with an unknown outcome blocks the room.  A retry
that succeeds reloads the room from its delta stream.  Had the append been
answered at once, the room would have imported the update into its document.

`interruptedBy` finds the update that has blocked a room, `Reconciled` is what
the reload makes of it, and `Agrees` compares that with the direct path.  The
reload starts from an empty document, so the two agree exactly when the active
stream and the update hold all that the document knew.
-/

namespace LoroGateway

open ByteCodec CrashLogic CrashLogic.Server

section

variable [Hashing] {Doc : Type} [Loro Doc] {roomId : String} {config : ActorConfig}

/-- An update whose append ended with an unknown outcome, with the room as it was when
the update came. -/
structure Interrupted (Doc : Type) where
  before : World
  actor : RoomActor Doc
  connectionId : UInt64
  batchId : BatchId
  updates : List Bytes

/-- The update that has blocked the room and has not been reconciled yet. -/
def interruptedBy :
    List (Event (gateway Doc roomId config) World) → Option (Interrupted Doc)
  | .handled command before (a : RoomActor Doc) _ _ (a' : RoomActor Doc) :: events =>
    if a'.blocked.isNone then none
    else
      match command with
      | .update connectionId batchId updates _ =>
        if a.blocked.isNone then some ⟨before, a, connectionId, batchId, updates⟩
        else interruptedBy events
      | _ => interruptedBy events
  | _ => none

/-- The events before a retry that has just succeeded. -/
def beforeRetry : List (Event (gateway Doc roomId config) World) →
    Option (List (Event (gateway Doc roomId config) World))
  | .handled .retryAmbiguous _ _ [.respond true] _ _ :: earlier => some earlier
  | _ => none

theorem beforeRetry_eq_some {events earlier : List (Event (gateway Doc roomId config) World)}
    (h : beforeRetry events = some earlier) : ∃ before a after a',
      events = .handled .retryAmbiguous before a [.respond true] after a' :: earlier := by
  rw [beforeRetry.eq_def] at h
  split at h
  · cases h
    exact ⟨_, _, _, _, rfl⟩
  · cases h

/-- A room that stays blocked is blocked by the same update. -/
theorem interruptedBy_blocked {events : List (Event (gateway Doc roomId config) World)}
    {command : Command} {before after : World} {a a' : RoomActor Doc} {outputs : List Output}
    (h : a.blocked ≠ none) (h' : a'.blocked ≠ none) :
    interruptedBy (.handled command before a outputs after a' :: events) = interruptedBy events := by
  have hnone : a.blocked.isNone = false := by
    rwa [Option.isNone_eq_false_iff, Option.isSome_iff_ne_none]
  have hnone' : a'.blocked.isNone = false := by
    rwa [Option.isNone_eq_false_iff, Option.isSome_iff_ne_none]
  cases command <;> simp only [interruptedBy, hnone, hnone', Bool.false_eq_true, if_false]

/-- The documents know and apply the same, the histories cover the same operations, and
the actors stand at the same place of the same stream. -/
structure Agrees {Op : Type} (S : Loro.Observers Doc Op) (a a' : RoomActor Doc) : Prop where
  applied : S.applied a.doc = S.applied a'.doc
  pending : S.pending a.doc = S.pending a'.doc
  history : S.ops a.history = S.ops a'.history
  producerSequence : a.producerSequence = a'.producerSequence
  stream : a.stream = a'.stream
  generation : a.activeDeltaGeneration = a'.activeDeltaGeneration
  endOffset : a.activeDeltaEndOffset = a'.activeDeltaEndOffset

namespace Interrupted

variable {Op : Type} (S : Loro.Observers Doc Op) (roomId : String) (config : ActorConfig)

/-- What is known of the room that an update has interrupted. -/
structure Awaits (i : Interrupted Doc) (admission : RoomActor.Admission Doc)
    (seen : List DeltaFrame) (a : RoomActor Doc) : Prop where
  seated : i.actor.Seated roomId config
  remembers : i.actor.Remembers S
  admitted : i.actor.admitUpdate i.connectionId i.batchId i.updates = .ok admission
  tracks : i.actor.Tracks roomId config.frameLimits i.before.disk seen
  stream : a.stream = i.actor.stream
  generation : a.activeDeltaGeneration = i.actor.activeDeltaGeneration

/-- What a reload has made of the room. -/
structure Reconciled (i : Interrupted Doc) (admission : RoomActor.Admission Doc)
    (seen : List DeltaFrame) (a : RoomActor Doc) : Prop
    extends i.Awaits S roomId config admission seen a where
  history : a.history = (seen ++ [admission.pending.frame]).flatMap DeltaFrame.updates
  doc : replay Doc a.history = .ok a.doc
  sequence : a.producerSequence.toNat = i.actor.producerSequence.toNat + 1
  endOffset : a.activeDeltaEndOffset.toNat =
    (logBytes config.frameLimits (seen ++ [admission.pending.frame])).length

end Interrupted

/-! ## The direct path -/

omit [Hashing] in
theorem extends_of_answered {α : Type} {p : StoreM α} {value : α} {w w' : World}
    (h : Runs answered Eq p w value w') : w.Extends w' := by
  induction h with
  | ret value w => exact .refl w
  | call others hserve _ ih =>
    subst others
    exact (served_extends (served_of_answered hserve)).trans ih

/-- An append that is answered as committed at once is accepted, and the update ends
there. -/
theorem RoomActor.update_committed {a direct : RoomActor Doc} {connectionId : UInt64}
    {batchId : BatchId} {updates : List Bytes} {peer : PeerSender} {admission : Admission Doc}
    (hadmitted : a.admitUpdate connectionId batchId updates = .ok admission) {outputs : List Output}
    {w w' : World}
    (hrun : Runs answered Eq (a.update connectionId batchId updates peer) w (direct, outputs) w')
    {app : Append} {n : UInt64} (hjournal : w'.journal = ⟨app, .ok (.committed n), true⟩ :: w.journal) :
    w.disk.Accepts admission.pending.app ∧ n = w.disk.endOffset admission.pending.app ∧
      direct = (a.finishUpdate connectionId batchId updates peer admission
        (.ok (.committed n))).1 := by
  have hdirect : Runs answered Eq
      (resolveAttempts a.config admission.pending a.config.ambiguousRetries >>= fun resolved =>
        pure (a.finishUpdate connectionId batchId updates peer admission resolved)) w
      (direct, outputs) w' := by
    rw [update, hadmitted] at hrun
    exact hrun
  rw [resolveAttempts] at hdirect
  cases hdirect with
  | @call _ _ _ _ w₁ _ x _ others hserved hrest =>
    subst others
    by_cases haccepts : w.disk.Accepts admission.pending.app
    · obtain ⟨rfl, rfl⟩ := Prod.mk.inj (hserved.trans (serve_answered_append haccepts))
      cases hrest with
      | ret =>
        obtain ⟨hattempt, _⟩ := List.cons_eq_cons.mp hjournal
        obtain rfl := (AppendOutcome.committed.inj (Except.ok.inj (congrArg Attempt.answer hattempt)))
        exact ⟨haccepts, rfl, rfl⟩
    · -- the first attempt stays in the journal as one that was not committed
      have hfirst : ∃ answer, w₁.journal = ⟨admission.pending.app, answer, false⟩ :: w.journal := by
        cases served_append (served_of_answered hserved) with
        | accepted h => exact absurd h haccepts
        | duplicate => exact ⟨_, rfl⟩
        | refused => exact ⟨_, rfl⟩
      obtain ⟨answer, hfirst⟩ := hfirst
      have hsuffix := (extends_of_answered hrest).journal
      rw [hfirst, hjournal] at hsuffix
      have heq := hsuffix.eq_of_length rfl
      cases congrArg Attempt.committed (List.cons_eq_cons.mp heq).1

/-- An update that the store accepts is answered as committed. -/
theorem RoomActor.update_accepted {a : RoomActor Doc} {connectionId : UInt64} {batchId : BatchId}
    {updates : List Bytes} {admission : Admission Doc} {w : World}
    (hadmitted : a.admitUpdate connectionId batchId updates = .ok admission)
    (haccepts : w.disk.Accepts admission.pending.app) (peer : PeerSender) :
    ∃ outputs, Runs answered Eq (a.handle (.update connectionId batchId updates peer)) w
      ((a.finishUpdate connectionId batchId updates peer admission
        (.ok (.committed (w.disk.endOffset admission.pending.app)))).1, outputs)
      (w.accept admission.pending.app) := by
  have hopen : ¬ a.Closed := by
    rw [Closed, (admitUpdate_eq_ok hadmitted).ready]
    decide
  refine ⟨(a.finishUpdate connectionId batchId updates peer admission
    (.ok (.committed (w.disk.endOffset admission.pending.app)))).2, ?_⟩
  rw [handle, if_neg hopen]
  rw [update, hadmitted]
  change Runs answered Eq (resolveAttempts a.config admission.pending a.config.ambiguousRetries >>=
    fun resolved => pure (a.finishUpdate connectionId batchId updates peer admission resolved)) w _ _
  rw [resolveAttempts]
  exact .call rfl (serve_answered_append haccepts).symm (.ret _ _)

namespace Interrupted

variable {Op : Type} {S : Loro.Observers Doc Op} {i : Interrupted Doc}
  {admission : RoomActor.Admission Doc} {seen : List DeltaFrame} {a : RoomActor Doc}

/-- The reload agrees with the direct path exactly when the active stream and the update
hold all that the document knew. -/
theorem Reconciled.agrees_iff (sem : Loro.Semantics S)
    (h : i.Reconciled S roomId config admission seen a)
    (haccepts : i.before.disk.Accepts admission.pending.app) {n : UInt64}
    (hn : n = i.before.disk.endOffset admission.pending.app) {peer : PeerSender} :
    Agrees S (i.actor.finishUpdate i.connectionId i.batchId i.updates peer admission
        (.ok (.committed n))).1 a ↔
      S.known i.actor.doc ⊆ S.ops (seen.flatMap DeltaFrame.updates) ∪ S.ops i.updates := by
  have hadmitted := RoomActor.admitUpdate_eq_ok h.admitted
  have hframe : admission.pending.frame.updates = i.updates := by
    rw [hadmitted.frame]
    rfl
  have hops : S.ops a.history = S.ops (seen.flatMap DeltaFrame.updates) ∪ S.ops i.updates := by
    rw [h.history, List.flatMap_append, List.flatMap_singleton, hframe, Loro.Observers.ops_append]
  have hreplayed : S.known a.doc = S.ops (seen.flatMap DeltaFrame.updates) ∪ S.ops i.updates :=
    (replay_known sem h.doc).trans hops
  have hdirect : S.known admission.candidate = S.known i.actor.doc ∪ S.ops i.updates :=
    buildCandidate_eq_union sem h.remembers.pending h.remembers.known hadmitted.candidate
  constructor
  · intro hagrees
    have hknown : S.known admission.candidate = S.known a.doc := by
      rw [Loro.Observers.known, Loro.Observers.known]
      exact congrArg₂ _ hagrees.applied hagrees.pending
    rw [← hreplayed, ← hknown, hdirect]
    exact Set.subset_union_left
  · intro hcovered
    obtain ⟨kept, hkept, _⟩ := h.tracks.history
    have hseen : S.ops (seen.flatMap DeltaFrame.updates) ⊆ S.ops i.actor.history := by
      rw [hkept]
      exact S.ops_mono (List.subset_append_right _ _)
    have hknown : S.known admission.candidate = S.known a.doc := by
      rw [hdirect, hreplayed]
      refine Set.Subset.antisymm (Set.union_subset hcovered Set.subset_union_right) ?_
      exact Set.union_subset_union_left _ (hseen.trans h.remembers.known)
    obtain ⟨happlied, hpending⟩ := sem.eq_of_known hknown
    refine ⟨happlied, hpending, ?_, ?_, h.stream.symm, h.generation.symm, ?_⟩
    · change S.ops admission.candidateHistory = S.ops a.history
      rw [hadmitted.history, Loro.Observers.ops_append, hops]
      refine Set.Subset.antisymm ?_ (Set.union_subset_union_left _ hseen)
      exact Set.union_subset (h.remembers.known.trans hcovered) Set.subset_union_right
    · exact UInt64.toNat_inj.mp (hadmitted.next.trans h.sequence.symm)
    · refine UInt64.toNat_inj.mp (Eq.trans ?_ h.endOffset.symm)
      have happ : admission.pending.app = _ := hadmitted.prepares.append_eq h.seated
      rw [happ] at haccepts hn
      have hlog := h.tracks.log.log_of_accepts
        (hadmitted.prepares.frame.trans hadmitted.prepares.producer) haccepts
      change n.toNat = _
      rw [hn, Disk.endOffset_toNat haccepts, logBytes_append, logBytes_singleton, List.length_append,
        ← hlog.content]
      rfl

end Interrupted

/-! ## The invariant -/

variable {Op : Type} (S : Loro.Observers Doc Op) (roomId) (config)

/-- What is known of a room and of the update that has blocked it. -/
structure Tracked (w : World) (a : RoomActor Doc)
    (events : List (Event (gateway Doc roomId config) World)) : Prop where
  blocked : ∃ seen, a.Live → a.Tracks roomId config.frameLimits w.disk seen ∧
    ∀ pending, a.blocked = some pending → ∃ i admission, interruptedBy events = some i ∧
      i.Awaits S roomId config admission seen a ∧ admission.pending = pending
  reconciled : ∀ earlier, beforeRetry events = some earlier →
      ∃ i admission seen, interruptedBy earlier = some i ∧
        i.Reconciled S roomId config admission seen a

variable {S} {roomId} {config}
  {events : List (Event (gateway Doc roomId config) World)} {w : World} {a : RoomActor Doc}

/-- A room without a blocked append. -/
theorem Tracked.of_unblocked {seen : List DeltaFrame}
    (htracks : a.Live → a.Tracks roomId config.frameLimits w.disk seen) (hblocked : a.blocked = none)
    (hevents : beforeRetry events = none) :
    Tracked roomId config S w a events where
  blocked := ⟨seen, fun hlive => ⟨htracks hlive, fun _ hpending =>
    absurd (hblocked.symm.trans hpending) nofun⟩⟩
  reconciled _ heq := absurd (hevents.symm.trans heq) nofun

/-- A room that can neither be updated nor be reconciled. -/
theorem Tracked.of_not_live (hdead : ¬ a.Live) (hevents : beforeRetry events = none) :
    Tracked roomId config S w a events where
  blocked := ⟨[], fun hlive => absurd hlive hdead⟩
  reconciled _ heq := absurd (hevents.symm.trans heq) nofun

/-- A command after which the room stands where it stood. -/
theorem Tracked.stay (h : Tracked roomId config S w a events) {command : Command}
    {outputs : List Output} {before after t : World} {a' : RoomActor Doc}
    (hlive : a'.Live → a.Live)
    (htracks : ∀ seen, a'.Live → a.Tracks roomId config.frameLimits w.disk seen →
      a'.Tracks roomId config.frameLimits t.disk seen)
    (hblocked : a'.blocked = a.blocked) (hstream : a'.stream = a.stream)
    (hgeneration : a'.activeDeltaGeneration = a.activeDeltaGeneration)
    (hquiet : beforeRetry (.handled command before a outputs after a' :: events) = none) :
    Tracked roomId config S t a' (.handled command before a outputs after a' :: events) where
  blocked := by
    obtain ⟨seen, hactor⟩ := h.blocked
    refine ⟨seen, fun hlive' => ⟨htracks seen hlive' (hactor (hlive hlive')).1, ?_⟩⟩
    intro pending hpending
    have hsome : a'.blocked ≠ none := by rw [hpending]; exact Option.some_ne_none _
    obtain ⟨i, admission, hi, hawaits, heq⟩ := (hactor (hlive hlive')).2 pending
      (hblocked.symm.trans hpending)
    refine ⟨i, admission, ?_, ?_, heq⟩
    · rw [interruptedBy_blocked (hblocked ▸ hsome) hsome]
      exact hi
    · exact { hawaits with
        stream := hstream.trans hawaits.stream
        generation := hgeneration.trans hawaits.generation }
  reconciled _ heq := absurd (hquiet.symm.trans heq) nofun

section Programs

variable {serve : Serve Request Answer World} (hs : Orderly Doc roomId config serve)

include hs

theorem tracked_boot {boot : Boot} (hfresh : FreshBoot roomId w boot)
    (hkept : Kept Doc roomId config w) :
    wp serve (Contract.orderly Doc roomId config fun _ => True)
      (RoomActor.activate roomId config boot)
      (fun (a : RoomActor Doc) t => Tracked roomId config S t a (.booted boot t a :: events)) w := by
  refine hs.boot hkept (fun _ _ _ => trivial) ?_ ?_
  · rintro endOffset lifecycle lastError t _ _ hlifecycle
    refine .of_not_live (fun hlive => ?_) rfl
    rcases hlive with hready | hblocked
    · rcases hlifecycle with rfl | rfl
      · cases hready
      · cases hready
    · exact absurd rfl hblocked
  · intro a base frames t _ hsame h
    exact .of_unblocked (fun _ => h.tracks hkept hfresh hsame.read hsame.last) h.unblocked rfl

variable (ha : a.Placed roomId config w) (h : Tracked roomId config S w a events)

include ha h

theorem tracked_retry :
    wp serve (Contract.orderly Doc roomId config fun _ => True) a.retryPending
      (fun r t => Tracked roomId config S t r.1
        (.handled .retryAmbiguous w a [.respond r.2] t r.1 :: events)) w := by
  obtain ⟨seen, hactor⟩ := h.blocked
  have hlive : ∀ pending, a.blocked = some pending → a.Live := fun pending hpending =>
    .inr (by rw [hpending]; exact Option.some_ne_none _)
  refine hs.retry ha.toSeated (fun hlive => (hactor hlive).1) (fun _ _ _ _ _ => trivial) ?_ ?_ ?_
  · exact fun hnone => h.stay id (fun _ _ => id) rfl rfl rfl rfl
  · intro pending endOffset lifecycle lastError t hpending _ htried hnot
    have hprepares := (ha.blocked pending hpending).2
    refine h.stay (fun _ => hlive pending hpending) (fun seen _ htracks => ?_) rfl rfl rfl
      rfl
    exact (htracks.tried ha.toSeated hprepares htried).congr rfl rfl rfl rfl
      fun hready => absurd hready hnot
  · intro pending endOffset next history doc t hpending _ htried hlog hend hhistory hdoc _ hnext
    obtain ⟨htracks, hawaits⟩ := hactor (hlive pending hpending)
    obtain ⟨i, admission, hi, hawaits, rfl⟩ := hawaits pending hpending
    have hsame := collectHistory_eq_ok hhistory
    rw [List.nil_append] at hsame
    have hproducer := (RoomActor.admitUpdate_eq_ok hawaits.admitted).producer
    refine ⟨⟨seen ++ [admission.pending.frame], fun _ =>
      ⟨htracks.reloaded ha.toSeated hpending htried hlog hend hhistory hnext, nofun⟩⟩, ?_⟩
    rintro earlier ⟨⟩
    refine ⟨i, admission, seen, hi, { hawaits with
      history := hsame
      doc := hdoc
      sequence := hnext.trans (by rw [hproducer])
      endOffset := hend }⟩

theorem tracked_rotate (hkept : Kept Doc roomId config w) :
    wp serve (Contract.orderly Doc roomId config fun _ => True) a.rotateGeneration
      (fun r t => Tracked roomId config S t r.1
        (.handled .rotate w a [.respond r.2] t r.1 :: events)) w := by
  obtain ⟨seen, hactor⟩ := h.blocked
  refine hs.rotate ha.toSeated hkept (fun hlive => (hactor hlive).1) (fun _ _ _ _ _ => trivial) ?_ ?_ ?_
  · exact fun _ => h.stay id (fun _ _ => id) rfl rfl rfl rfl
  · intro message t _ hblocked _ _
    refine .of_not_live (fun hlive => ?_) rfl
    exact hlive.elim nofun fun hne => absurd hblocked hne
  · exact fun result t _ hblocked _ _ _ _ _ htracks => .of_unblocked (fun _ => htracks) hblocked rfl

theorem tracked_update (hremembers : a.Remembers S) {connectionId : UInt64} {batchId : BatchId}
    {updates : List Bytes} {peer : PeerSender} :
    wp serve (Contract.orderly Doc roomId config fun _ => True)
      (a.update connectionId batchId updates peer)
      (fun r t => Tracked roomId config S t r.1
        (.handled (.update connectionId batchId updates peer) w a r.2 t r.1 :: events)) w := by
  obtain ⟨seen, hactor⟩ := h.blocked
  rw [RoomActor.update]
  cases hadmit : a.admitUpdate connectionId batchId updates with
  | error status => exact h.stay id (fun _ _ => id) rfl rfl rfl rfl
  | ok admission =>
    have hadmitted := RoomActor.admitUpdate_eq_ok hadmit
    obtain ⟨htracks, _⟩ := hactor (.inl hadmitted.ready)
    refine wp_bind.mpr (wp_mono ?_ (hs.resolve ha.toSeated hadmitted.prepares htracks
      fun _ _ _ => trivial))
    rintro r t ⟨_, htried, hok⟩
    have hafter : (a.finishUpdate connectionId batchId updates peer admission r).1.Tracks roomId
        config.frameLimits t.disk (RoomActor.Tracks.after seen admission.pending.frame r) :=
      htracks.finishUpdate ha.toSeated hadmitted htried hok
    cases r with
    | ok proof => exact .of_unblocked (fun _ => hafter) hadmitted.unblocked rfl
    | error failure =>
      cases failure with
      | definitelyRejected kind message =>
        exact .of_unblocked (fun _ => hafter) hadmitted.unblocked rfl
      | outcomeUnknown error =>
        refine ⟨⟨seen, fun _ => ⟨hafter, ?_⟩⟩, fun _ heq => by cases heq⟩
        rintro pending ⟨⟩
        refine ⟨⟨w, a, connectionId, batchId, updates⟩, admission, ?_,
          ⟨ha.toSeated, hremembers, hadmit, htracks, rfl, rfl⟩, rfl⟩
        have hnone : a.blocked.isNone = true := Option.isNone_iff_eq_none.mpr hadmitted.unblocked
        rw [interruptedBy]
        simp only [hnone, if_true]
        rfl

theorem tracked_handle (hkept : Kept Doc roomId config w) (hremembers : a.Remembers S)
    (command : Command) :
    wp serve (Contract.orderly Doc roomId config fun _ => True) (a.handle command)
      (fun r t => Tracked roomId config S t r.1 (.handled command w a r.2 t r.1 :: events)) w := by
  refine RoomActor.wp_handle ?_ ?_ ?_ ?_ ?_ ?_ ?_
  · rintro rfl
    exact h.stay id (fun _ _ => id) rfl rfl rfl rfl
  · rintro rfl
    exact tracked_retry hs ha h
  · rintro rfl
    exact tracked_rotate hs ha h hkept
  · intro _
    exact h.stay id (fun _ _ => id) rfl rfl rfl (by cases command <;> rfl)
  · rintro connectionId version peer rfl _
    obtain ⟨peers, ids, hjoin⟩ := a.join_fst connectionId version peer
    rw [hjoin]
    refine h.stay id (fun seen _ htracks => ?_) rfl rfl rfl rfl
    exact htracks.congr rfl rfl rfl rfl fun hready => ⟨hready, rfl⟩
  · rintro connectionId batchId updates peer rfl _
    exact tracked_update hs ha h hremembers
  · rintro connectionId rfl _
    refine h.stay id (fun seen _ htracks => ?_) rfl rfl rfl rfl
    exact htracks.congr rfl rfl rfl rfl fun hready => ⟨hready, rfl⟩

end Programs

/-- What an idle actor of a run knows. -/
theorem RoomReachable.tracked (sem : Loro.Semantics S) {policy : Policy Doc roomId config}
    (quiet : policy.Quiet) (hreach : RoomReachable policy ⟨w, .idle a, events⟩) :
    Tracked roomId config S w a events := by
  have hpreserved := quiet.preserved
    (L := fun w (a : RoomActor Doc) => a.Placed roomId config w ∧ a.Remembers S)
    (J := Tracked roomId config S) (F := fun _ _ => True) (fun _ _ => trivial) (fun _ _ => trivial)
    (fun hs hfresh hkept _ => tracked_boot hs hfresh hkept)
    (fun hs _ ha hkept h => tracked_handle hs ha.1 h hkept ha.2 _)
  have hwithin : Reachable (keptWith policy
      fun w (a : RoomActor Doc) => a.Placed roomId config w ∧ a.Remembers S)
      (fun w => w = World.empty) ⟨w, .idle a, events⟩ :=
    Reachable.within (fun h => RoomReachable.kept h)
      (fun h => ⟨RoomReachable.placed h, RoomReachable.actor (RoomActor.Remembers.invariant sem) h⟩)
      hreach
  exact (Reachable.idle_invariant hpreserved (by rintro w rfl; exact ⟨kept_empty, trivial⟩)
    hwithin).2

/-- Whenever a retry has just reconciled the room, it has reconciled one update that
came to a ready room, and the outcome agrees with the direct path of that update exactly
when the active stream of that moment and the update hold all that the document knew. -/
theorem ambiguous_path_agrees_iff (sem : Loro.Semantics S) {before after : World}
    {a₁ a₂ : RoomActor Doc} {earlier : List (Event (gateway Doc roomId config) World)}
    (hreach : RoomReachable (Policy.lossy : Policy Doc roomId config)
      ⟨w, .idle a, .handled .retryAmbiguous before a₁ [.respond true] after a₂ :: earlier⟩) :
    ∃ (i : Interrupted Doc) (frames : List DeltaFrame), interruptedBy earlier = some i ∧
      i.actor.lifecycle = .ready ∧
      DeltaLog (NamedFrame roomId i.actor.activeDeltaGeneration) config.frameLimits i.actor.stream
        i.before.disk frames ∧
      ∀ (peer : PeerSender) (direct : RoomActor Doc) (outputs : List Output) (w' : World)
        (app : Append) (n : UInt64),
        Runs answered Eq (i.actor.handle (.update i.connectionId i.batchId i.updates peer)) i.before
          (direct, outputs) w' →
        w'.journal = ⟨app, .ok (.committed n), true⟩ :: i.before.journal →
        (Agrees S direct a ↔
          S.known i.actor.doc ⊆ S.ops (frames.flatMap DeltaFrame.updates) ∪ S.ops i.updates) := by
  obtain ⟨i, admission, seen, hi, h⟩ := (hreach.tracked sem Policy.lossy_quiet).reconciled earlier rfl
  have hadmitted := RoomActor.admitUpdate_eq_ok h.admitted
  obtain ⟨rest, hlog, _⟩ := h.tracks.log.log
  rw [← h.seated.stream] at hlog
  refine ⟨i, seen ++ rest, hi, hadmitted.ready, hlog, ?_⟩
  intro peer direct outputs w' app n hrun hjournal
  have hopen : ¬ i.actor.Closed := by
    rw [RoomActor.Closed, hadmitted.ready]
    decide
  rw [RoomActor.handle, if_neg hopen] at hrun
  obtain ⟨haccepts, hn, rfl⟩ := RoomActor.update_committed h.admitted hrun hjournal
  rw [h.agrees_iff sem haccepts hn]
  have happ : admission.pending.app = _ := hadmitted.prepares.append_eq h.seated
  rw [happ] at haccepts
  have hseen := h.tracks.log.log_of_accepts
    (hadmitted.prepares.frame.trans hadmitted.prepares.producer) haccepts
  rw [← h.seated.stream] at hseen
  rw [hlog.unique hseen]

end

open Sample

/-- A room that a retry has just reconciled, and whose direct path is open. -/
def retriedWith {config : ActorConfig}
    (holds : Interrupted OpDoc → RoomActor.Admission OpDoc → RoomActor OpDoc → Bool) (_ : World)
    (a : RoomActor OpDoc) (events : List (Event (sampleGateway config) World)) : Bool :=
  match (beforeRetry events).bind interruptedBy with
  | some i =>
    match i.actor.admitUpdate i.connectionId i.batchId i.updates with
    | .ok admission => decide (i.before.disk.Accepts admission.pending.app) && holds i admission a
    | .error _ => false
  | none => false

/-- A script that ends with a retry, and the direct path of the update that it has reconciled. -/
theorem exists_retried_of_run {config : ActorConfig}
    {moves : List (Move (sampleGateway config) Fate Append)}
    {holds : Interrupted OpDoc → RoomActor.Admission OpDoc → RoomActor OpDoc → Bool}
    (hrun : ((lossyDirection config).director.run moves ⟨World.empty, .down, []⟩).any
      (whenIdle (retriedWith holds)) = true) (peer : PeerSender) :
    ∃ (w before after w' : World) (a a₁ a₂ direct : RoomActor OpDoc)
      (earlier : List (Event (gateway OpDoc "r" config) World)) (i : Interrupted OpDoc)
      (admission : RoomActor.Admission OpDoc) (outputs : List Output) (app : Append) (n : UInt64),
      RoomReachable (Policy.lossy : Policy OpDoc "r" config)
        ⟨w, .idle a, .handled .retryAmbiguous before a₁ [.respond true] after a₂ :: earlier⟩ ∧
      interruptedBy earlier = some i ∧
      Runs answered Eq (i.actor.handle (.update i.connectionId i.batchId i.updates peer)) i.before
        (direct, outputs) w' ∧
      w'.journal = ⟨app, .ok (.committed n), true⟩ :: i.before.journal ∧
      direct.doc = admission.candidate ∧ holds i admission a = true := by
  obtain ⟨w, a, events, hreach, hend⟩ := Direction.exists_idle_of_run hrun
  rw [retriedWith] at hend
  split at hend
  · rename_i i hi
    obtain ⟨earlier, hretry, hinterrupted⟩ := Option.bind_eq_some_iff.mp hi
    obtain ⟨before, a₁, after, a₂, rfl⟩ := beforeRetry_eq_some hretry
    split at hend
    · rename_i admission hadmit
      obtain ⟨haccepts, hholds⟩ := Bool.and_eq_true_iff.mp hend
      obtain ⟨outputs, hdirect⟩ := RoomActor.update_accepted hadmit (of_decide_eq_true haccepts) peer
      exact ⟨w, before, after, _, a, a₁, a₂, _, earlier, i, admission, outputs, _, _, hreach,
        hinterrupted, hdirect, rfl, rfl, hholds⟩
    · cases hend
  · cases hend

/-- After a rotation the ambiguous path loses what the checkpoint holds. -/
theorem ambiguous_path_loses_checkpoint :
    ∃ (w before after w' : World) (a a₁ a₂ direct : RoomActor OpDoc)
      (earlier : List (Event (gateway OpDoc "r" .default) World)) (i : Interrupted OpDoc)
      (outputs : List Output) (app : Append) (n : UInt64),
      RoomReachable (Policy.lossy : Policy OpDoc "r" .default)
        ⟨w, .idle a, .handled .retryAmbiguous before a₁ [.respond true] after a₂ :: earlier⟩ ∧
      interruptedBy earlier = some i ∧
      Runs answered Eq (i.actor.handle (.update i.connectionId i.batchId i.updates 7)) i.before
        (direct, outputs) w' ∧
      w'.journal = ⟨app, .ok (.committed n), true⟩ :: i.before.journal ∧
      ¬ Agrees OpDoc.observers direct a := by
  have hrun : ((lossyDirection .default).director.run
      [.boot (sampleBoot 1) (answeredAll 4), .command (.join 1 [] 7) [],
        .command (.update 1 (sampleBatch 1) [[1, 0]] 7) (answeredAll 1),
        .command .rotate (answeredAll 10),
        .command (.update 1 (sampleBatch 2) [[1, 2]] 7) (List.replicate 6 (.lost "timeout")),
        .command .retryAmbiguous (answeredAll 3)]
      ⟨World.empty, .down, []⟩).any (whenIdle (retriedWith fun _ admission a =>
        OpDoc.isApplied admission.candidate.received 0 &&
          !OpDoc.isApplied a.doc.received 0)) = true := by
    decide +kernel
  obtain ⟨w, before, after, w', a, a₁, a₂, direct, earlier, i, admission, outputs, app, n, hreach,
    hinterrupted, hdirect, hjournal, hdoc, hholds⟩ := exists_retried_of_run hrun 7
  refine ⟨w, before, after, w', a, a₁, a₂, direct, earlier, i, outputs, app, n, hreach, hinterrupted,
    hdirect, hjournal, fun hagrees => ?_⟩
  obtain ⟨happlied, hnot⟩ := Bool.and_eq_true_iff.mp hholds
  have hmem : (0 : Fin 8) ∈ OpDoc.observers.applied a.doc := hagrees.applied ▸ hdoc ▸ happlied
  rw [show OpDoc.isApplied a.doc.received 0 = true from hmem] at hnot
  cases hnot

/-- Do the frames of the active stream hold all that the document knew before the update? -/
def coveredByFrames (i : Interrupted OpDoc) : Bool :=
  match decodeAllWithLimits (i.before.disk.read i.actor.stream) FrameLimits.default with
  | .ok frames =>
    decide (∀ o ∈ i.actor.doc.received,
      ∃ blob ∈ frames.flatMap DeltaFrame.updates, o ∈ OpDoc.opsOf blob)
  | .error _ => false

/-- An update is committed in the first generation, the next one is reconciled, and the two
paths agree. -/
theorem ambiguous_path_agrees_iff_first :
    ∃ (w w' : World) (a direct : RoomActor OpDoc)
      (events : List (Event (gateway OpDoc "r" .default) World)) (i : Interrupted OpDoc)
      (outputs : List Output),
      RoomReachable (Policy.lossy : Policy OpDoc "r" .default) ⟨w, .idle a, events⟩ ∧
      (beforeRetry events).bind interruptedBy = some i ∧ i.actor.history = [[1, 0]] ∧
      Runs answered Eq (i.actor.handle (.update i.connectionId i.batchId i.updates 7)) i.before
        (direct, outputs) w' ∧
      Agrees OpDoc.observers direct a := by
  have hrun : ((lossyDirection .default).director.run
      [.boot (sampleBoot 1) (answeredAll 4), .command (.join 1 [] 7) [],
        .command (.update 1 (sampleBatch 1) [[1, 0]] 7) (answeredAll 1),
        .command (.update 1 (sampleBatch 2) [[1, 3]] 7) (List.replicate 6 (.lost "timeout")),
        .command .retryAmbiguous (answeredAll 3)]
      ⟨World.empty, .down, []⟩).any (whenIdle (retriedWith fun i _ _ =>
        decide (i.actor.history = [[1, 0]]) && coveredByFrames i)) = true := by
    decide +kernel
  obtain ⟨w, before, after, w', a, a₁, a₂, direct, earlier, i, admission, outputs, app, n, hreach,
    hinterrupted, hdirect, hjournal, _, hholds⟩ := exists_retried_of_run hrun 7
  obtain ⟨hhistory, hcovered⟩ := Bool.and_eq_true_iff.mp hholds
  obtain ⟨i', frames, hi, _, hlog, hagrees⟩ := ambiguous_path_agrees_iff OpDoc.semantics hreach
  obtain rfl := Option.some.inj (hi.symm.trans hinterrupted)
  refine ⟨w, w', a, direct, _, i', outputs, hreach, hinterrupted, of_decide_eq_true hhistory,
    hdirect, (hagrees 7 direct outputs w' app n hdirect hjournal).mpr ?_⟩
  rw [coveredByFrames] at hcovered
  split at hcovered
  · rename_i decoded hdecode
    obtain rfl := hlog.eq_of_decode hdecode
    rw [OpDoc.known_eq]
    exact fun o ho => .inl (of_decide_eq_true hcovered o ho)
  · cases hcovered

end LoroGateway
