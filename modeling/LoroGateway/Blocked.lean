import LoroGateway.Scripted
import LoroGateway.Seated

/-!
# The discipline of a blocked append

An append whose outcome is unknown blocks its room.  The module says what an
actor can do while it is blocked, and how it gets out.  Nothing is assumed of the
store: the statements hold for any environment, whatever it answers.
-/

namespace LoroGateway

open ByteCodec CrashLogic CrashLogic.Server

section

variable [Hashing] {Doc : Type} [Loro Doc] {roomId : String} {config : ActorConfig}

/-- An answer that admits a connection or confirms an update. -/
def Output.Grants : Output → Prop
  | .send _ (.joinResponseOk _ _ _ _) => True
  | .send _ (.ack _ _ .ok) => True
  | _ => False

namespace RoomActor

/-- How the lifecycle, the blocked append and the producer of an idle actor go
together. -/
structure Disciplined (a : RoomActor Doc) : Prop where
  active : a.lifecycle ≠ .recovering
  ready : a.lifecycle = .ready → a.blocked = none
  ambiguous : a.lifecycle = .appendAmbiguous → a.blocked ≠ none
  stream : ∀ pending, a.blocked = some pending → pending.targetStream = a.stream
  producer : ∀ pending, a.blocked = some pending →
    pending.producer = ⟨a.producerId, 0, a.producerSequence⟩
  frame : ∀ pending, a.blocked = some pending → pending.frame.producer = pending.producer
  encoding : ∀ pending, a.blocked = some pending →
    pending.frame.encodeWithLimits a.config.frameLimits = .ok pending.bytes

namespace Disciplined

variable {a : RoomActor Doc} {connectionId : UInt64} {batchId : BatchId} {updates : List Bytes}
  {peer : PeerSender} {admission : Admission Doc}

omit [Loro Doc] in
theorem of_unblocked (hblocked : a.blocked = none) (hactive : a.lifecycle ≠ .recovering)
    (hambiguous : a.lifecycle ≠ .appendAmbiguous) : a.Disciplined where
  active := hactive
  ready _ := hblocked
  ambiguous h := absurd h hambiguous
  stream _ hpending := absurd (hblocked.symm.trans hpending) nofun
  producer _ hpending := absurd (hblocked.symm.trans hpending) nofun
  frame _ hpending := absurd (hblocked.symm.trans hpending) nofun
  encoding _ hpending := absurd (hblocked.symm.trans hpending) nofun

omit [Loro Doc] in
theorem settled {lifecycle : RoomLifecycle} (hblocked : a.blocked = none) (lastError : Option String)
    (hactive : lifecycle ≠ .recovering) (hambiguous : lifecycle ≠ .appendAmbiguous) :
    (a.transition lifecycle lastError).Disciplined :=
  .of_unblocked hblocked hactive hambiguous

omit [Loro Doc] in
theorem withPeers (h : a.Disciplined) (peers : Peers) (ids : Stream' UInt64) :
    ({ a with peers := peers, serverBatchIds := ids } : RoomActor Doc).Disciplined :=
  { h with }

omit [Loro Doc] in
/-- A blocked actor that stays blocked. -/
theorem stuck (h : a.Disciplined) (hblocked : a.blocked ≠ none) {lifecycle : RoomLifecycle}
    (hready : lifecycle ≠ .ready) (hactive : lifecycle ≠ .recovering) (endOffset : UInt64)
    (lastError : Option String) :
    (({ a with activeDeltaEndOffset := endOffset } : RoomActor Doc).transition lifecycle
      lastError).Disciplined where
  active := hactive
  ready hnot := absurd hnot hready
  ambiguous _ := hblocked
  stream := h.stream
  producer := h.producer
  frame := h.frame
  encoding := h.encoding

theorem finishUpdate (h : a.Disciplined)
    (hadmitted : a.Admitted connectionId batchId updates admission)
    (resolved : Except AppendFailure DurableAppend) :
    (a.finishUpdate connectionId batchId updates peer admission resolved).1.Disciplined := by
  match resolved with
  | .ok proof => exact .of_unblocked hadmitted.unblocked nofun nofun
  | .error (.definitelyRejected kind message) => exact h
  | .error (.outcomeUnknown error) =>
    refine ⟨nofun, nofun, fun _ => Option.some_ne_none _, ?_, ?_, ?_, ?_⟩
    · rintro pending ⟨⟩
      exact hadmitted.stream
    · rintro pending ⟨⟩
      exact hadmitted.producer
    · rintro pending ⟨⟩
      rw [hadmitted.frame, hadmitted.producer]
      rfl
    · rintro pending ⟨⟩
      exact hadmitted.encode

end Disciplined

variable {a : RoomActor Doc}

/-- Does the append submit the blocked one? -/
def Resubmits (a : RoomActor Doc) (req : Request) : Prop :=
  ∀ pending, a.blocked = some pending → isAppend req → req = pending.request

omit [Hashing] [Loro Doc] in
theorem resubmits_of_unblocked (hblocked : a.blocked = none) (req : Request) : a.Resubmits req :=
  fun _ hpending => absurd (hblocked.symm.trans hpending) nofun

section Programs

omit [Hashing] [Loro Doc] in
theorem always_okOr {ε α : Type} {allowed : Request → Prop} (x : Option α) (error : ε) :
    (okOr x error : ExceptT ε StoreM α).run.Always allowed fun _ => True := by
  cases x <;> trivial

/-- The calls of a resolution: the append, and reads of what it has left. -/
def Resolves (pending : PendingAppend) (req : Request) : Prop :=
  req = pending.request ∨ ∃ stream offset length, req = .readRange stream offset length

omit [Loro Doc] in
theorem always_resolveDuplicate (pending : PendingAppend) (n : UInt64) :
    (resolveDuplicate config pending n).run.Always (Resolves pending) fun _ => True := by
  rw [resolveDuplicate]
  refine .run_bind (always_okOr _ _) fun _ => .run_bind (always_okOr _ _) fun _ => ?_
  exact .run_bind ⟨.inr ⟨_, _, _, rfl⟩, fun _ => trivial⟩ fun _ => Prog.always_run_lift _

omit [Loro Doc] in
/-- One turn of the retry loop. -/
theorem always_resolveAttempts_turn {pending : PendingAppend} {left : Nat}
    (again : ∀ left', left = left' + 1 →
      (resolveAttempts config pending left').Always (Resolves pending) fun _ => True) :
    (resolveAttempts config pending left).Always (Resolves pending) fun _ => True := by
  rw [resolveAttempts]
  refine Prog.always_call (.inl rfl) fun x => ?_
  cases x with
  | ok outcome =>
    cases outcome with
    | committed n => trivial
    | duplicate n =>
      change Prog.Always _ _ ((resolveDuplicate config pending n).run >>= _)
      refine .bind (always_resolveDuplicate pending n) fun r _ => ?_
      cases r <;> trivial
  | error error =>
    cases error with
    | ambiguous message =>
      cases left with
      | zero => trivial
      | succ left => exact again left rfl
    | rejected kind message => trivial
    | integrity message => trivial

omit [Loro Doc] in
/-- All appends of a resolution are alike. -/
theorem always_resolveAppend (pending : PendingAppend) :
    (resolveAppend config pending).Always (Resolves pending) fun _ => True := by
  unfold resolveAppend
  generalize config.ambiguousRetries = left
  induction left with
  | zero => exact always_resolveAttempts_turn nofun
  | succ left ih =>
    refine always_resolveAttempts_turn fun left' hleft => ?_
    obtain rfl := Nat.succ.inj hleft
    exact ih

/-- A load makes no appends and changes the end offset at most. -/
theorem always_loadFromStore :
    a.loadFromStore.Always (fun req => ¬ isAppend req) fun r =>
      (∃ endOffset, r.1 = { a with activeDeltaEndOffset := endOffset }) ∧
        ∀ failure, r.2 = .error failure →
          failure.state = .corrupt ∨ failure.state = .unavailable := by
  unfold loadFromStore
  refine Prog.always_call ?_ fun x => ?_
  · exact Bool.false_ne_true
  cases x with
  | error error =>
    refine ⟨⟨a.activeDeltaEndOffset, rfl⟩, ?_⟩
    rintro _ ⟨⟩
    exact initializationStoreFailure_state error
  | ok bytes =>
    simp only [Prog.bind]
    cases u64OfUsize bytes.length with
    | none =>
      refine ⟨⟨a.activeDeltaEndOffset, rfl⟩, ?_⟩
      rintro _ ⟨⟩
      exact .inl rfl
    | some endOffset =>
      exact ⟨⟨endOffset, rfl⟩, fun failure hfailure => .inl (replayStream_error hfailure)⟩

theorem always_initializeActor (hblocked : a.blocked = none) :
    a.initializeActor.Always (fun _ => True) fun r => r.1.blocked = none ∧
      ∀ failure, r.2 = .error failure →
        failure.state = .corrupt ∨ failure.state = .unavailable := by
  unfold initializeActor
  refine .bind (Prog.always_true _) fun x _ => ?_
  match x with
  | .error error =>
    refine ⟨hblocked, ?_⟩
    rintro _ ⟨⟩
    exact manifestRecoveryFailure_state error
  | .ok (some recovered) => exact ⟨hblocked, nofun⟩
  | .ok none =>
    refine .bind (Prog.always_true _) fun x _ => ?_
    match x with
    | .error error =>
      refine ⟨hblocked, ?_⟩
      rintro _ ⟨⟩
      exact initializationStoreFailure_state error
    | .ok () =>
      refine .bind (always_loadFromStore.mono (fun _ _ => trivial) fun _ h => h) ?_
      rintro ⟨_, loaded⟩ ⟨⟨endOffset, rfl⟩, hfailure⟩
      cases loaded with
      | error failure =>
        refine ⟨hblocked, ?_⟩
        rintro _ ⟨⟩
        exact hfailure failure rfl
      | ok loaded => exact ⟨hblocked, nofun⟩

/-- A start does not leave the actor in recovery. -/
theorem always_activate (boot : Boot) :
    (activate roomId config boot : StoreM (RoomActor Doc)).Always (fun _ => True)
      RoomActor.Disciplined := by
  unfold activate
  refine .bind (always_initializeActor rfl) ?_
  rintro ⟨b, r⟩ ⟨hblocked, hfailure⟩
  cases r with
  | ok value => exact .settled hblocked none (by decide) (by decide)
  | error failure =>
    refine .settled hblocked (some failure.message) ?_ ?_
    · rcases hfailure failure rfl with h | h <;> rw [h] <;> decide
    · rcases hfailure failure rfl with h | h <;> rw [h] <;> decide

/-- A retry submits the blocked append and nothing else. -/
theorem always_retryPending (h : a.Disciplined) :
    a.retryPending.Always a.Resubmits fun r => r.1.Disciplined := by
  rw [retryPending]
  split
  · exact h
  · rename_i pending hblocked
    have hne : a.blocked ≠ none := by
      rw [hblocked]
      exact Option.some_ne_none _
    have hback : ∀ endOffset : UInt64,
        { a with blocked := some pending, activeDeltaEndOffset := endOffset } =
          { a with activeDeltaEndOffset := endOffset } := by
      intro endOffset
      rw [← hblocked]
    have hstuck : ∀ (endOffset : UInt64) (lifecycle : RoomLifecycle) (lastError : Option String),
        lifecycle ≠ .ready → lifecycle ≠ .recovering →
          (({ a with blocked := some pending, activeDeltaEndOffset := endOffset } :
            RoomActor Doc).transition lifecycle lastError).Disciplined := by
      intro endOffset lifecycle lastError hready hactive
      rw [hback]
      exact h.stuck hne hready hactive endOffset lastError
    refine .bind ((always_resolveAppend pending).mono ?_ fun _ h => h) fun r _ => ?_
    · rintro req (hreq | ⟨_, _, _, rfl⟩) other hother happend
      · obtain rfl := Option.some.inj (hblocked.symm.trans hother)
        exact hreq
      · cases happend
    cases r with
    | error failure =>
      cases failure with
      | definitelyRejected kind message =>
        exact hstuck a.activeDeltaEndOffset .unavailable _ (by decide) (by decide)
      | outcomeUnknown error =>
        exact hstuck a.activeDeltaEndOffset .appendAmbiguous _ (by decide) (by decide)
    | ok proof =>
      refine .bind (always_loadFromStore.mono (fun _ hnot _ _ happend => absurd happend hnot)
        fun _ h => h) ?_
      rintro ⟨_, loaded⟩ ⟨⟨endOffset, rfl⟩, hfailure⟩
      cases loaded with
      | error failure =>
        refine hstuck endOffset failure.state _ ?_ ?_
        · rcases hfailure failure rfl with h | h <;> rw [h] <;> decide
        · rcases hfailure failure rfl with h | h <;> rw [h] <;> decide
      | ok loaded =>
        change Prog.Always _ _ (.ret (finishReload pending _ (.ok loaded)))
        rw [finishReload]
        split
        · exact hstuck endOffset .unavailable _ (by decide) (by decide)
        · exact .settled rfl none (by decide) (by decide)

theorem always_rotateGeneration (h : a.Disciplined) :
    a.rotateGeneration.Always a.Resubmits fun r => r.1.Disciplined := by
  rw [rotateGeneration]
  split_ifs with hnot
  · exact h
  · rw [not_or, not_not, not_not] at hnot
    refine .bind ((Prog.always_true _).mono (fun req _ => resubmits_of_unblocked hnot.2 req)
      fun _ h => h) fun r _ => ?_
    cases r with
    | ok rotated =>
      show (a.withRotation rotated).Disciplined
      unfold withRotation
      apply Disciplined.settled
      · exact hnot.2
      · decide
      · decide
    | error error =>
      show (a.transition .unavailable (some error.display)).Disciplined
      exact .settled hnot.2 _ (by decide) (by decide)

theorem always_update (h : a.Disciplined) (connectionId : UInt64) (batchId : BatchId)
    (updates : List Bytes) (peer : PeerSender) :
    (a.update connectionId batchId updates peer).Always a.Resubmits fun r => r.1.Disciplined := by
  rw [update]
  split
  · exact h
  · rename_i admission hadmission
    have hadmitted := admitUpdate_eq_ok hadmission
    refine .bind ((Prog.always_true _).mono
      (fun req _ => resubmits_of_unblocked hadmitted.unblocked req) fun _ h => h) fun r _ => ?_
    exact h.finishUpdate hadmitted r

/-- Every command keeps the discipline, whatever the store answers. -/
theorem always_handle (h : a.Disciplined) (command : Command) :
    (a.handle command).Always a.Resubmits fun r => r.1.Disciplined := by
  cases command with
  | waitForActivation => exact h
  | retryAmbiguous => exact .bind (always_retryPending h) fun _ h => h
  | rotate => exact .bind (always_rotateGeneration h) fun _ h => h
  | join connectionId version peer =>
    rw [handle]
    split_ifs
    · exact h
    · obtain ⟨peers, ids, hjoin⟩ := a.join_fst connectionId version peer
      change (a.join connectionId version peer).1.Disciplined
      rw [hjoin]
      exact h.withPeers peers ids
  | update connectionId batchId updates peer =>
    rw [handle]
    split_ifs
    · exact h
    · exact always_update h connectionId batchId updates peer
  | leave connectionId =>
    rw [handle]
    split_ifs
    · exact h
    · exact h.withPeers _ _

end Programs

/-- What a blocked actor does with a command that is no retry. -/
theorem handle_of_blocked (h : a.Disciplined) {pending : PendingAppend}
    (hblocked : a.blocked = some pending) {command : Command} (hretry : command ≠ .retryAmbiguous) :
    ∃ peers outputs, a.handle command = .ret ({ a with peers := peers }, outputs) ∧
      (∀ output ∈ outputs, ¬ output.Grants) ∧
      (command = .rotate → outputs = [.respond false]) := by
  have hready : a.lifecycle ≠ .ready := by
    intro hready
    cases hblocked.symm.trans (h.ready hready)
  cases command with
  | waitForActivation =>
    refine ⟨a.peers, _, rfl, ?_, by simp⟩
    rintro output hmem
    rw [List.mem_singleton.mp hmem]
    exact id
  | retryAmbiguous => exact absurd rfl hretry
  | rotate =>
    refine ⟨a.peers, [.respond false], ?_, ?_, fun _ => rfl⟩
    · rw [handle, rotateGeneration, if_pos (.inl hready)]
      rfl
    · rintro output hmem
      rw [List.mem_singleton.mp hmem]
      exact id
  | join connectionId version peer =>
    rw [handle]
    split_ifs
    · refine ⟨a.peers, _, rfl, ?_, by simp⟩
      rintro output hmem
      rw [List.mem_singleton.mp hmem]
      exact id
    · refine ⟨a.peers, [.send peer (.joinError a.roomId .appError
        "room state is not authoritative" none (some a.lifecycle.asStr))], ?_, ?_, by simp⟩
      · rw [join, if_pos hready]
        rfl
      · rintro output hmem
        rw [List.mem_singleton.mp hmem]
        exact id
  | update connectionId batchId updates peer =>
    rw [handle]
    split_ifs
    · refine ⟨a.peers, _, rfl, ?_, by simp⟩
      rintro output hmem
      rw [List.mem_singleton.mp hmem]
      exact id
    · cases hadmit : a.admitUpdate connectionId batchId updates with
      | ok admission => exact absurd (admitUpdate_eq_ok hadmit).ready hready
      | error status =>
        refine ⟨a.peers, sendAck peer a.roomId batchId status, ?_, ?_, by simp⟩
        · rw [update, hadmit]
          rfl
        · rintro output hmem hgrants
          rw [List.mem_singleton.mp hmem] at hgrants
          have hstatus := (admitUpdate_error_ne hadmit).1
          cases status
          all_goals first | exact hgrants | exact hstatus rfl
  | leave connectionId =>
    rw [handle]
    split_ifs
    · exact ⟨a.peers, [], rfl, by simp, by simp⟩
    · exact ⟨a.peers.remove connectionId, [], rfl, by simp, by simp⟩

section Retry

variable {σ : Type} {serve : Serve Request Answer σ} {rely : σ → σ → Prop}

/-- A retry of a blocked append either leaves the room blocked or has resolved
the append. -/
theorem retryPending_of_blocked {pending : PendingAppend} (hblocked : a.blocked = some pending)
    {s t : σ} {r : RoomActor Doc × Bool} (hrun : Runs serve rely a.retryPending s r t) :
    (r.1.activeDeltaGeneration = a.activeDeltaGeneration ∧ r.1.stream = a.stream ∧
      r.1.producerId = a.producerId) ∧
      (r.1.blocked = some pending ∨ r.1.blocked = none ∧ r.2 = true ∧
        ∃ proof u, Runs serve rely (resolveAppend a.config pending) s (.ok proof) u) := by
  rw [retryPending, hblocked] at hrun
  obtain ⟨resolved, u, hresolve, hrest⟩ := Runs.of_bind hrun
  cases resolved with
  | error failure =>
    cases failure with
    | definitelyRejected kind message =>
      cases hrest
      exact ⟨⟨rfl, rfl, rfl⟩, .inl rfl⟩
    | outcomeUnknown error =>
      cases hrest
      exact ⟨⟨rfl, rfl, rfl⟩, .inl rfl⟩
  | ok proof =>
    obtain ⟨⟨_, loaded⟩, v, hload, hfinish⟩ := Runs.of_bind hrest
    obtain ⟨⟨endOffset, rfl⟩, _⟩ := hload.always always_loadFromStore
    cases loaded with
    | error failure =>
      cases hfinish
      exact ⟨⟨rfl, rfl, rfl⟩, .inl rfl⟩
    | ok loaded =>
      have hfinish : Runs serve rely (.ret (finishReload pending _ (.ok loaded))) v r t := hfinish
      rw [finishReload] at hfinish
      split at hfinish
      · cases hfinish
        exact ⟨⟨rfl, rfl, rfl⟩, .inl rfl⟩
      · cases hfinish
        exact ⟨⟨rfl, rfl, rfl⟩, .inr ⟨rfl, rfl, proof, u, hresolve⟩⟩

end Retry

end RoomActor

variable {σ : Type} {env : Environment (gateway Doc roomId config) σ} {init : σ → Prop}

/-- What a turn of a blocked actor can be.  It admits nobody, confirms nothing and
does not rotate, and it ends blocked by the same append unless the turn is a
retry that has resolved it. -/
structure BlockedTurn (env : Environment (gateway Doc roomId config) σ) (command : Command)
    (before : σ) (a : RoomActor Doc) (pending : PendingAppend) (outputs : List Output)
    (a' : RoomActor Doc) : Prop where
  grants : ∀ output ∈ outputs, ¬ output.Grants
  rotation : command = .rotate → outputs = [.respond false]
  generation : a'.activeDeltaGeneration = a.activeDeltaGeneration ∧ a'.stream = a.stream ∧
    a'.producerId = a.producerId
  blocked : a'.blocked = some pending ∨ a'.blocked = none ∧ command = .retryAmbiguous ∧
    outputs = [.respond true] ∧ ∃ proof after, Runs (env.serve (.command command a)) env.rely
      (resolveAppend a.config pending) before (.ok proof) after

theorem blockedTurn_of_runs {a a' : RoomActor Doc} {pending : PendingAppend} {command : Command}
    {outputs : List Output} {before after : σ} (h : a.Disciplined)
    (hblocked : a.blocked = some pending)
    (hrun : Runs (env.serve (.command command a)) env.rely (a.handle command) before (a', outputs)
      after) : BlockedTurn env command before a pending outputs a' := by
  by_cases hretry : command = .retryAmbiguous
  · subst hretry
    obtain ⟨⟨b, result⟩, t, hrun, hrest⟩ := Runs.of_bind hrun
    obtain ⟨hgeneration, hend⟩ := RoomActor.retryPending_of_blocked hblocked hrun
    cases hrest
    refine ⟨?_, nofun, hgeneration, ?_⟩
    · rintro output hmem
      rw [List.mem_singleton.mp hmem]
      exact id
    · rcases hend with hkept | ⟨hnone, hresult, hresolved⟩
      · exact .inl hkept
      · dsimp only at hresult
        rw [hresult]
        exact .inr ⟨hnone, rfl, rfl, hresolved⟩
  · obtain ⟨peers, outputs', hhandle, hgrants, hrotate⟩ :=
      RoomActor.handle_of_blocked h hblocked hretry
    rw [hhandle] at hrun
    cases hrun
    exact ⟨hgrants, hrotate, ⟨rfl, rfl, rfl⟩, .inl hblocked⟩

/-- The discipline of a blocked append, in every run in any environment: in every
idle state, for every append that is submitted while the room is blocked, and
for every command that was handled in a blocked room. -/
theorem blocked_discipline {g : System (gateway Doc roomId config) σ} (h : Reachable env init g) :
    (∀ a : RoomActor Doc, g.phase = .idle a → a.Disciplined) ∧
      (∀ command before (a : RoomActor Doc) req next,
        g.phase = .serving command before a (.call req next) → a.Resubmits req) ∧
      ∀ command before (a : RoomActor Doc) outputs after a',
        .handled command before a outputs after a' ∈ g.events → ∀ pending,
          a.blocked = some pending → BlockedTurn env command before a pending outputs a' := by
  have hkeeps : ∀ {g' : System (gateway Doc roomId config) σ}, Reachable env init g' →
      g'.phase.Keeps (fun _ (a : RoomActor Doc) => a.Resubmits) RoomActor.Disciplined := by
    intro g' hreach
    exact hreach.keeps RoomActor.always_activate fun command a ha =>
      RoomActor.always_handle ha command
  refine ⟨?_, ?_, ?_⟩
  · intro a hphase
    have hidle := hkeeps h
    rw [hphase] at hidle
    exact hidle
  · intro command before a req next hphase
    have hserving := hkeeps h
    rw [hphase] at hserving
    exact hserving.2.1
  · intro command before a outputs after a' hmem pending hpending
    obtain ⟨⟨events, hreach, _⟩, t, hrun, _⟩ := h.traced.handled hmem
    exact blockedTurn_of_runs (hkeeps hreach) hpending hrun

end

open Sample

/-- Is the event a retry that ends the blocking of a room? -/
def unblocks : Event (sampleGateway .default) World → Bool
  | .handled .retryAmbiguous _ a _ _ a' => decide (a.blocked ≠ none) && decide (a'.blocked = none)
  | _ => false

theorem unblocks_cases {event : Event (sampleGateway .default) World} (h : unblocks event = true) :
    ∃ before a outputs after a' pending, event = .handled .retryAmbiguous before a outputs after a' ∧
      a.blocked = some pending ∧ a'.blocked = none := by
  unfold unblocks at h
  split at h
  · rename_i before a outputs after a'
    obtain ⟨hblocked, hnone⟩ := Bool.and_eq_true_iff.mp h
    obtain ⟨pending, hpending⟩ := Option.ne_none_iff_exists'.mp (of_decide_eq_true hblocked)
    exact ⟨before, a, outputs, after, a', pending, rfl, hpending, of_decide_eq_true hnone⟩
  · cases h

/-- An update whose answers are all lost, a join that is refused, and a retry that
finds the update committed. -/
theorem blocked_discipline_reconciled :
    ∃ (before : World) (a a' : RoomActor OpDoc) (pending : PendingAppend) (outputs : List Output),
      a.blocked = some pending ∧ a'.blocked = none ∧
        BlockedTurn (environment (lateDirection .default).policy) .retryAmbiguous before a pending
          outputs a' := by
  have hrun : ((lateDirection .default).director.run
      [.boot (sampleBoot 1) (answeredAll 4), .command (.join 1 [] 7) [],
        .command (.update 1 (sampleBatch 1) [[1, 0]] 7) (List.replicate 6 (.lost "timeout")),
        .command (.join 2 [] 8) [], .command .retryAmbiguous (answeredAll 3)]
      ⟨World.empty, .down, []⟩).any (fun g => g.events.any unblocks) = true := by
    decide +kernel
  obtain ⟨g, hreach, hevent⟩ := Direction.exists_of_run hrun
  obtain ⟨event, hmem, hunblocks⟩ := List.any_eq_true.mp hevent
  obtain ⟨before, a, outputs, after, a', pending, rfl, hpending, hnone⟩ := unblocks_cases hunblocks
  exact ⟨before, a, a', pending, outputs, hpending, hnone,
    (blocked_discipline hreach).2.2 _ _ _ _ _ _ hmem pending hpending⟩

end LoroGateway
