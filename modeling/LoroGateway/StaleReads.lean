import LoroGateway.Scripted
import LoroGateway.Turns

/-!
# What a stale read takes away

A retry that resolves its append reloads the room from its delta stream, and takes
what the read answers for the whole stream.  `KeepsKnowledge` says that a room
never knows less of its stream than it did; a stale read, or a history that the
stream does not hold, breaks it.  `knowledge_kept` shows that nothing else does.
-/

namespace LoroGateway

open ByteCodec CrashLogic CrashLogic.Server

/-! ## Runs -/

section Runs

variable [Hashing] {Doc : Type} [Loro Doc] {roomId : String} {config : ActorConfig}

/-- The states of the running actor, the newest first. -/
def statesOf : List (Event (gateway Doc roomId config) World) → List (RoomActor Doc)
  | .handled _ _ _ _ _ (a : RoomActor Doc) :: events => a :: statesOf events
  | .booted _ _ (a : RoomActor Doc) :: _ => [a]
  | _ => []

/-- From one ready state to a later one of the same actor in the same generation, the
history is only added to and the end offset does not decrease.  What a retry has
reconciled is known. -/
structure KeepsKnowledge (a : RoomActor Doc)
    (events : List (Event (gateway Doc roomId config) World)) : Prop where
  history : ∀ earlier ∈ statesOf events, earlier.lifecycle = .ready → a.lifecycle = .ready →
    earlier.activeDeltaGeneration = a.activeDeltaGeneration →
    earlier.history.Sublist a.history
  endOffset : ∀ earlier ∈ statesOf events, earlier.lifecycle = .ready → a.lifecycle = .ready →
    earlier.activeDeltaGeneration = a.activeDeltaGeneration →
    earlier.activeDeltaEndOffset ≤ a.activeDeltaEndOffset
  reconciled : ∀ before (a₁ : RoomActor Doc) after a₂ rest,
    events = .handled .retryAmbiguous before a₁ [.respond true] after a₂ :: rest →
    a₁.Reconciles after a₂

/-- What an earlier state of the actor knew, the actor knows. -/
structure RoomActor.KnownTo (earlier a : RoomActor Doc) (w : World) : Prop where
  generation : earlier.activeDeltaGeneration.value.toNat ≤ a.activeDeltaGeneration.value.toNat
  history : earlier.activeDeltaGeneration = a.activeDeltaGeneration →
    earlier.history.Sublist a.history
  precedes : earlier.activeDeltaGeneration = a.activeDeltaGeneration →
    earlier.lifecycle = .ready → a.Precedes earlier.activeDeltaEndOffset.toNat w
  endOffset : earlier.activeDeltaGeneration = a.activeDeltaGeneration →
    earlier.lifecycle = .ready → a.lifecycle = .ready →
    earlier.activeDeltaEndOffset ≤ a.activeDeltaEndOffset

namespace RoomActor.KnownTo

variable {earlier a a' : RoomActor Doc} {before w : World}

omit [Hashing] [Loro Doc] in
theorem deliver (h : earlier.KnownTo a w) (app : Append) : earlier.KnownTo a (w.deliver app) :=
  { h with precedes := fun hsame hready => (h.precedes hsame hready).append rfl }

omit [Hashing] [Loro Doc] in
/-- An actor knows what it knows. -/
theorem self (h : a.lifecycle = .ready → a.Precedes a.activeDeltaEndOffset.toNat w) :
    a.KnownTo a w where
  generation := le_refl _
  history _ := .refl _
  precedes _ := h
  endOffset _ _ _ := UInt64.le_refl _

omit [Loro Doc] in
/-- A command takes nothing away. -/
theorem moves (h : earlier.KnownTo a before) (hw : a.Since roomId config before w)
    (hmoves : Moves roomId before w a a') : earlier.KnownTo a' w := by
  rcases hmoves with hstays | hadvances | hrotates
  · constructor
    · rw [hstays.generation]
      exact h.generation
    · rw [hstays.generation, hstays.history]
      exact h.history
    · rw [hstays.generation]
      intro hsame hready
      exact hstays.precedes (hw.precedes _ (h.precedes hsame hready))
    · rw [hstays.generation]
      intro hsame hready hready'
      have ⟨hbefore, hoffset⟩ := hstays.ready hready'
      rw [hoffset]
      exact h.endOffset hsame hready hbefore
  · constructor
    · rw [hadvances.generation]
      exact h.generation
    · rw [hadvances.generation]
      intro hsame
      exact (h.history hsame).trans hadvances.history
    · rw [hadvances.generation]
      intro hsame hready
      exact hadvances.precedes (hw.precedes _ (h.precedes hsame hready))
    · rw [hadvances.generation]
      intro hsame hready _
      rw [UInt64.le_iff_toNat_le]
      exact hadvances.behind _ (h.precedes hsame hready)
  · have hlater : earlier.activeDeltaGeneration ≠ a'.activeDeltaGeneration := by
      intro hsame
      have hle := h.generation
      rw [hsame, hrotates.generation] at hle
      omega
    constructor
    · rw [hrotates.generation]
      exact Nat.le_succ_of_le h.generation
    · exact fun hsame => absurd hsame hlater
    · exact fun hsame => absurd hsame hlater
    · exact fun hsame => absurd hsame hlater

omit [Loro Doc] in
/-- After a command the actor is at an offset before its next frame, if it was. -/
theorem moves_self (h : a.KnownTo a before) (hw : a.Since roomId config before w)
    (hmoves : Moves roomId before w a a') : a'.KnownTo a' w := by
  apply self
  intro hready
  rcases hmoves with hstays | hadvances | hrotates
  · have ⟨hbefore, hoffset⟩ := hstays.ready hready
    rw [hoffset]
    exact hstays.precedes (hw.precedes _ (h.precedes rfl hbefore))
  · exact hadvances.precedes_self hw.owns
  · rw [hrotates.endOffset]
    exact precedes_zero a' w

end RoomActor.KnownTo

/-- What is known of an idle actor and its earlier states. -/
structure Knows (roomId : String) (config : ActorConfig) (a : RoomActor Doc)
    (states : List (RoomActor Doc)) (w : World) : Prop where
  recorded : Recorded roomId config.frameLimits w
  seated : a.Seated roomId config
  owns : a.Owns roomId w
  current : a ∈ states
  past : ∀ earlier ∈ states, earlier.KnownTo a w

omit [Loro Doc] in
theorem Knows.deliver {a : RoomActor Doc} {states : List (RoomActor Doc)} {w : World}
    (h : Knows roomId config a states w) {app : Append} (hmem : app ∈ w.underWay) :
    Knows roomId config a states (w.deliver app) where
  recorded := h.recorded.deliver hmem
  seated := h.seated
  owns := h.owns.deliver hmem
  current := h.current
  past earlier hearlier := (h.past earlier hearlier).deliver app

omit [Loro Doc] in
theorem Knows.turn {a a' : RoomActor Doc} {states : List (RoomActor Doc)} {before w : World}
    {reconciled : Prop} (h : Knows roomId config a states before)
    (hturn : a.TurnEnds roomId config before a' reconciled w) :
    Knows roomId config a' (a' :: states) w where
  recorded := hturn.since.recorded
  seated := hturn.seated
  owns := by
    rcases hturn.moves with hstays | hadvances | hrotates
    · exact hstays.owns hturn.since.owns
    · exact hadvances.owns hturn.since.owns
    · exact hrotates.owns hturn.since.owns
  current := List.mem_cons_self
  past earlier hearlier := by
    rcases List.mem_cons.1 hearlier with rfl | hold
    · exact (h.past a h.current).moves_self hturn.since hturn.moves
    · exact (h.past earlier hold).moves hturn.since hturn.moves

/-- The surroundings whose retries reach their append and lose no history. -/
abbrev coveringFollower (Doc : Type) [Loro Doc] (roomId : String) (config : ActorConfig) :
    Environment (gateway Doc roomId config) World :=
  followed (coveringReads Doc roomId config)

def knowledgeInvariant (Doc : Type) [Loro Doc] (roomId : String) (config : ActorConfig) :
    Invariant (gateway Doc roomId config) World where
  idle w a events := Knows roomId config (a : RoomActor Doc) (statesOf events) w ∧
    ∀ before (a₁ : RoomActor Doc) after a₂ rest,
      events = .handled .retryAmbiguous before a₁ [.respond true] after a₂ :: rest →
      a₁.Reconciles after a₂
  crash w _ := Recorded roomId config.frameLimits w

theorem knows_boot {boot : Boot} {w : World}
    (hw : Recorded roomId config.frameLimits w) (hfresh : FreshBoot roomId w boot) :
    wp ((coveringFollower Doc roomId config).serve (.boot boot))
      ((coveringFollower Doc roomId config).contract (Recorded roomId config.frameLimits))
      (RoomActor.activate roomId config boot)
      (fun (a : RoomActor Doc) t => Knows roomId config a [a] t) w := by
  have hstable : ((coveringFollower Doc roomId config).contract
      (Recorded roomId config.frameLimits)).Stable fun t => Recorded roomId config.frameLimits t ∧
        ∀ stream generation, Numbered stream
          (producerIdForGeneration boot.bootId roomId generation) (fun _ => False) t :=
    followed_stable fun _ _ hmem ht => ⟨ht.1.deliver hmem,
      fun stream generation => (ht.2 stream generation).deliver hmem⟩
  have hkeeps : ∀ req, isAppend req = false →
      Keeps ((coveringFollower Doc roomId config).serve (.boot boot))
        ((coveringFollower Doc roomId config).contract (Recorded roomId config.frameLimits))
        (fun t => Recorded roomId config.frameLimits t ∧ ∀ stream generation, Numbered stream
          (producerIdForGeneration boot.bootId roomId generation) (fun _ => False) t) req := by
    intro req hreq t x t' ht _ hserve
    have hserve' := trailing_of_followed coveringReads_trails hserve
    have hsubmits : Submits (NamedFrame roomId) config.frameLimits roomId req := by
      cases req with
      | append stream producer body => cases hreq
      | _ => trivial
    have ht' := ht.1.serve hsubmits hserve'
    refine ⟨⟨ht', trivial⟩, ht', fun stream generation => ?_⟩
    apply (ht.2 stream generation).serve _ hserve'
    rintro producer body rfl
    cases hreq
  refine wp_mono ?_ (RoomActor.wp_activate_trailing
    (fun hserve => trailing_of_followed coveringReads_trails hserve) hstable hkeeps boot
    ⟨hw, fun stream generation => .of_fresh hw.journaled hfresh stream generation⟩)
  rintro a t ⟨⟨ht, hunused⟩, ha, hboot, _, hwithin⟩
  have hnow : Numbered a.stream a.producerId (fun _ => False) t := by
    rw [ha.producer, hboot]
    exact hunused a.stream a.activeDeltaGeneration
  constructor
  · exact ht
  · exact ha
  · constructor
    · exact hnow.mono fun _ hfalse => hfalse.elim
    · intro generation _
      rw [hboot]
      exact hunused _ generation
  · exact List.mem_singleton_self a
  · intro earlier hmem
    rw [List.mem_singleton.1 hmem]
    apply RoomActor.KnownTo.self
    intro _
    exact ⟨hwithin, fun sequence endOffset hlast _ => (hnow.last sequence endOffset hlast).elim⟩

theorem knowledgeInvariant_preserved :
    (knowledgeInvariant Doc roomId config).Preserved (coveringFollower Doc roomId config) where
  crash_of_idle h := h.1.recorded
  boot hboots hw := by
    refine wp_mono ?_ (knows_boot hw hboots)
    intro a t ht w' hrely
    have hstable : ((coveringFollower Doc roomId config).contract fun _ => True).Stable
        (Knows roomId config a [a]) := followed_stable fun _ _ hmem h => h.deliver hmem
    exact ⟨hstable t w' ht hrely, nofun⟩
  handle := by
    intro w a events command _ hidle
    have ⟨hknows, _⟩ := hidle
    refine wp_mono ?_ (followed_handle hknows.seated hknows.owns hknows.recorded command)
    rintro ⟨a', outputs⟩ t hturn w' hrely
    have hstable : ((coveringFollower Doc roomId config).contract fun _ => True).Stable fun t =>
        Knows roomId config a' (a' :: statesOf events) t ∧
          (command = .retryAmbiguous ∧ outputs = [.respond true] → a.Reconciles t a') :=
      followed_stable fun _ _ hmem h => ⟨h.1.deliver hmem, h.2⟩
    have ⟨hknows', hreconciles⟩ := hstable t w' ⟨hknows.turn hturn, hturn.reconciles⟩ hrely
    refine ⟨hknows', ?_⟩
    intro before a₁ after a₂ rest heq
    obtain ⟨hevent, _⟩ := List.cons_eq_cons.1 heq
    cases hevent
    exact hreconciles ⟨rfl, rfl⟩
  crash := by
    rintro w w' events hw rfl
    exact hw.crashed
  drift_idle := by
    rintro w w' a events ⟨hknows, hreconciled⟩ ⟨app, hmem, _, rfl⟩
    exact ⟨hknows.deliver hmem, hreconciled⟩
  drift_crash := by
    rintro w w' events up hw ⟨app, hmem, _, rfl⟩
    exact hw.deliver hmem

/-- In every run over followers whose retries reach their append, and come to a room
whose stream holds its history, a room never knows less than it did. -/
theorem knowledge_kept {w : World} {a : RoomActor Doc}
    {events : List (Event (gateway Doc roomId config) World)}
    (hreach : Reachable (coveringFollower Doc roomId config) (fun w => w = World.empty)
      ⟨w, .idle a, events⟩) : KeepsKnowledge a events := by
  have ⟨hknows, hreconciled⟩ := Reachable.idle_invariant knowledgeInvariant_preserved
    (by rintro w rfl; exact .empty) hreach
  constructor
  · intro earlier hmem _ _ hsame
    exact (hknows.past earlier hmem).history hsame
  · intro earlier hmem hready hready' hsame
    exact (hknows.past earlier hmem).endOffset hsame hready hready'
  · exact hreconciled

end Runs

open Sample

/-! ## Scripts with followers -/

/-- A store of a script: a number stands for a read of so many bytes. -/
def followerStore (mayRead : World → String → Bytes → Bool) : Host Request Answer World (Fate ⊕ Nat)
  | .inl .answered, w, .readAll stream =>
    if mayRead w stream (w.disk.read stream) then some (.ok (w.disk.read stream), w) else none
  | .inr length, w, .readAll stream =>
    if mayRead w stream ((w.disk.read stream).take length) then
      some (.ok ((w.disk.read stream).take length), w)
    else none
  | .inl .answered, w, req => some (w.serve .answered req)
  | .inl (.lost message), w, .append stream producer body =>
    some (w.serve (.lost message) (.append stream producer body))
  | _, _, _ => none

/-- Scripts over a store whose reads may come from a follower. -/
structure FollowerScript where
  reads : Task (sampleGateway .default) → World → String → Bytes → Prop
  mayRead : World → String → Bytes → Bool
  mayReload : RoomActor OpDoc → World → Bytes → Bool
  reads_reload : ∀ {a w stream bytes}, mayRead w stream bytes = true → mayReload a w bytes = true →
    reads (.command .retryAmbiguous a) w stream bytes
  reads_other : ∀ {task w stream bytes}, (∀ a, task ≠ .command .retryAmbiguous a) →
    mayRead w stream bytes = true → reads task w stream bytes

/-- What the script lets a task read. -/
def FollowerScript.permits (script : FollowerScript) (task : Task (sampleGateway .default))
    (w : World) (stream : String) (bytes : Bytes) : Bool :=
  script.mayRead w stream bytes &&
    match task with
    | .command .retryAmbiguous a => script.mayReload a w bytes
    | _ => true

theorem FollowerScript.permits_reads {script : FollowerScript}
    {task : Task (sampleGateway .default)} {w : World} {stream : String} {bytes : Bytes}
    (h : script.permits task w stream bytes = true) : script.reads task w stream bytes := by
  unfold FollowerScript.permits at h
  obtain ⟨hread, htask⟩ := Bool.and_eq_true_iff.1 h
  split at htask
  · exact script.reads_reload hread htask
  · rename_i hother
    exact script.reads_other hother hread

theorem FollowerScript.crashes (script : FollowerScript) {w : World} :
    (followed script.reads).crash w (crashedWorld w) := rfl

def FollowerScript.director (script : FollowerScript) :
    Director (followed script.reads) (Fate ⊕ Nat) Append where
  host task := followerStore (script.permits task)
  host_serves := by
    intro task choice w req x w' h
    unfold followerStore at h
    split at h
    · split_ifs at h with hread
      obtain ⟨rfl, rfl⟩ := Prod.mk.inj (Option.some.inj h)
      exact ⟨rfl, fun bytes heq => Except.ok.inj heq ▸ script.permits_reads hread⟩
    · split_ifs at h with hread
      obtain ⟨rfl, rfl⟩ := Prod.mk.inj (Option.some.inj h)
      exact ⟨rfl, fun bytes heq => Except.ok.inj heq ▸ script.permits_reads hread⟩
    · rename_i hnot
      cases req with
      | readAll stream => exact (hnot stream rfl).elim
      | _ => exact ⟨.answered, nofun, trivial, (Option.some.inj h).symm⟩
    · exact ⟨.lost _, nofun, trivial, (Option.some.inj h).symm⟩
    · cases h
  drift _ _ := none
  drift_drifts := nofun
  boots := showsNone
  boots_boots h := freshBoot_of_showsNone h
  accepts _ _ := true
  accepts_accepts _ := trivial
  crash := crashedWorld
  crash_crashes := script.crashes

/-- A script that ends with an idle room. -/
theorem FollowerScript.exists_idle_of_run {script : FollowerScript}
    {moves : List (Move (sampleGateway .default) (Fate ⊕ Nat) Append)}
    {holds : World → RoomActor OpDoc → List (Event (sampleGateway .default) World) → Bool}
    (hrun : (script.director.run moves ⟨World.empty, .down, []⟩).any (whenIdle holds) = true) :
    ∃ (w : World) (a : RoomActor OpDoc) (events : List (Event (gateway OpDoc "r" .default) World)),
      Reachable (followed script.reads) (fun w => w = World.empty)
        ⟨w, .idle a, events⟩ ∧ holds w a events = true := by
  have hexists : ∃ g, Reachable (followed script.reads) (fun w => w = World.empty) g ∧
      whenIdle holds g = true := Director.exists_of_run rfl hrun
  obtain ⟨⟨w, phase, events⟩, hreach, hend⟩ := hexists
  cases phase with
  | idle a => exact ⟨w, a, events, hreach, hend⟩
  | down => cases hend
  | booting b p => cases hend
  | serving c before a p => cases hend

/-- Does a read reach what the newest append was answered with? -/
def coversNow (w : World) (bytes : Bytes) : Bool :=
  match w.journal.head? with
  | some ⟨_, .ok outcome, _⟩ => decide (outcome.nextOffset.toNat ≤ bytes.length)
  | _ => true

theorem covers_of_coversNow {w : World} {bytes : Bytes} (h : coversNow w bytes = true) :
    CoversAppend w bytes := by
  rintro ⟨app, answer, committed⟩ outcome hhead hanswer
  change answer = .ok outcome at hanswer
  subst hanswer
  unfold coversNow at h
  rw [hhead] at h
  exact of_decide_eq_true h

/-- Does the stream hold the history of the actor, up to the newest append? -/
def heldNow (a : RoomActor OpDoc) (w : World) : Bool :=
  match w.journal.head? with
  | some ⟨_, .ok outcome, _⟩ =>
    match decodeAllWithLimits ((w.disk.read a.stream).take outcome.nextOffset.toNat)
        FrameLimits.default with
    | .ok seen => decide (a.history.Sublist (seen.flatMap DeltaFrame.updates))
    | .error _ => false
  | _ => true

theorem held_of_heldNow {w : World} {a : RoomActor OpDoc} (h : heldNow a w = true) :
    a.Held .default w := by
  rintro ⟨app, answer, committed⟩ outcome hhead hanswer
  change answer = .ok outcome at hanswer
  subst hanswer
  unfold heldNow at h
  rw [hhead] at h
  dsimp only at h
  split at h
  · rename_i seen hdecode
    exact ⟨_, seen, Nat.le_refl _, hdecode, of_decide_eq_true h⟩
  · cases h

/-- Reads of a prefix, and reloads that reach the append and bring the history back. -/
def coveringScript : FollowerScript where
  reads := coveringReads OpDoc "r" .default
  mayRead w stream bytes := decide (bytes <+: w.disk.read stream)
  mayReload a w bytes := coversNow w bytes && heldNow a w
  reads_reload := by
    intro a w stream bytes hfront hreload
    have ⟨hcovers, hheld⟩ := Bool.and_eq_true_iff.1 hreload
    exact ⟨of_decide_eq_true hfront, covers_of_coversNow hcovers, held_of_heldNow hheld⟩
  reads_other := by
    intro task w stream bytes hother hfront
    unfold coveringReads
    split
    · exact absurd rfl (hother _)
    · exact of_decide_eq_true hfront

/-- An update is acknowledged, the next one is ambiguous, and a retry reconciles it. -/
theorem knowledge_kept_retried :
    ∃ (w : World) (a : RoomActor OpDoc) (events : List (Event (gateway OpDoc "r" .default) World)),
      Reachable (coveringFollower OpDoc "r" .default) (fun w => w = World.empty)
        ⟨w, .idle a, events⟩ ∧ a.history = [[1, 0], [1, 2]] ∧ KeepsKnowledge a events := by
  have hrun : (coveringScript.director.run
      [.boot (sampleBoot 1) (List.replicate 4 (.inl .answered)), .command (.join 1 [] 7) [],
        .command (.update 1 (sampleBatch 1) [[1, 0]] 7) [.inl .answered],
        .command (.update 1 (sampleBatch 2) [[1, 2]] 7)
          (List.replicate 6 (.inl (.lost "timeout"))),
        .command .retryAmbiguous (List.replicate 3 (.inl .answered))]
      ⟨World.empty, .down, []⟩).any (whenIdle fun _ a _ =>
        decide (a.history = [[1, 0], [1, 2]])) = true := by
    decide +kernel
  obtain ⟨w, a, events, hreach, hend⟩ := FollowerScript.exists_idle_of_run hrun
  exact ⟨w, a, events, hreach, of_decide_eq_true hend, knowledge_kept hreach⟩

/-- A read may answer any whole number of frames. -/
def alignedReads (limits : FrameLimits) :
    Task (sampleGateway .default) → World → String → Bytes → Prop :=
  fun _ w stream bytes => bytes <+: w.disk.read stream ∧
    (bytes = w.disk.read stream ∨ ∃ frames, decodeAllWithLimits bytes limits = .ok frames)

theorem aligned_of_prefix {w : World} {stream : String} {bytes : Bytes}
    {task : Task (sampleGateway .default)}
    (h : (decide (bytes <+: w.disk.read stream) && (decide (bytes = w.disk.read stream) ||
      (decodeAllWithLimits bytes FrameLimits.default).toBool)) = true) :
    alignedReads .default task w stream bytes := by
  have ⟨hfront, hwhole⟩ := Bool.and_eq_true_iff.1 h
  refine ⟨of_decide_eq_true hfront, ?_⟩
  rcases Bool.or_eq_true_iff.1 hwhole with hsame | hdecode
  · exact Or.inl (of_decide_eq_true hsame)
  · cases hframes : decodeAllWithLimits bytes FrameLimits.default with
    | ok frames => exact Or.inr ⟨frames, rfl⟩
    | error error =>
      rw [hframes] at hdecode
      cases hdecode

def alignedScript : FollowerScript where
  reads := alignedReads .default
  mayRead w stream bytes := decide (bytes <+: w.disk.read stream) &&
    (decide (bytes = w.disk.read stream) || (decodeAllWithLimits bytes .default).toBool)
  mayReload _ _ _ := true
  reads_reload h _ := aligned_of_prefix h
  reads_other _ h := aligned_of_prefix h

/-- A retry is answered, and the reload reads an empty prefix of the stream: the update
that was acknowledged before is no longer in the history. -/
theorem knowledge_lost :
    ∃ (w : World) (a : RoomActor OpDoc) (events : List (Event (gateway OpDoc "r" .default) World)),
      Reachable (followed (alignedReads .default)) (fun w => w = World.empty)
        ⟨w, .idle a, events⟩ ∧ ¬ KeepsKnowledge a events := by
  have hrun : (alignedScript.director.run
      [.boot (sampleBoot 1) (List.replicate 4 (.inl .answered)), .command (.join 1 [] 7) [],
        .command (.update 1 (sampleBatch 1) [[1, 0]] 7) [.inl .answered],
        .command (.update 1 (sampleBatch 2) [[1, 2]] 7)
          (List.replicate 6 (.inl (.lost "timeout"))),
        .command .retryAmbiguous [.inl .answered, .inl .answered, .inr 0]]
      ⟨World.empty, .down, []⟩).any (whenIdle fun _ a events =>
        decide (a.lifecycle = .ready ∧ a.history = []) &&
          (statesOf events).any fun earlier => decide (earlier.lifecycle = .ready ∧
            earlier.activeDeltaGeneration = a.activeDeltaGeneration ∧ earlier.history ≠ [])) =
      true := by
    decide +kernel
  obtain ⟨w, a, events, hreach, hend⟩ := FollowerScript.exists_idle_of_run hrun
  obtain ⟨hnow, hbefore⟩ := Bool.and_eq_true_iff.1 hend
  obtain ⟨hready, hempty⟩ := of_decide_eq_true hnow
  obtain ⟨earlier, hmem, hearlier⟩ := List.any_eq_true.1 hbefore
  obtain ⟨hready', hsame, hne⟩ := of_decide_eq_true hearlier
  refine ⟨w, a, events, hreach, fun hkeeps => ?_⟩
  have hsublist := hkeeps.history earlier hmem hready' hready hsame
  rw [hempty] at hsublist
  exact hne (List.sublist_nil.1 hsublist)

end LoroGateway
