import LoroGateway.DeltaSafety

/-!
# What lasts in a room

Streams only grow and no submitted append is forgotten.  So what has come to be
in the store stays there, and an invariant made of such facts needs no care
between two calls (`Invariant.over_preserved`).

An honest store answers a duplicate with the offset that it keeps.  Under it a
resolution that succeeds has its frame in the log of the stream
(`honest_resolve`).
-/

namespace LoroGateway

open ByteCodec CrashLogic CrashLogic.Server

/-- What a world may become. -/
structure World.Extends (w w' : World) : Prop where
  disk : w.disk.Grows w'.disk
  journal : w.journal <:+ w'.journal

theorem World.Extends.refl (w : World) : w.Extends w := ⟨Disk.Grows.refl _, List.suffix_rfl⟩

theorem World.Extends.trans {u v w : World} (h : u.Extends v) (h' : v.Extends w) : u.Extends w :=
  ⟨h.disk.trans h'.disk, h.journal.trans h'.journal⟩

/-- A call extends the world. -/
theorem served_extends {w w' : World} {req : Request} {x : Answer req} (h : served w req x w') :
    w.Extends w' := by
  refine ⟨served_grows h, ?_⟩
  cases req with
  | ensureStream stream =>
    rcases (served_ensureStream h).1 with rfl | rfl
    · exact List.suffix_rfl
    · exact List.suffix_rfl
  | readAll stream => exact (served_readAll h).1 ▸ List.suffix_rfl
  | readRange stream offset length => exact (served_readRange h).1 ▸ List.suffix_rfl
  | append stream producer body =>
    cases served_append h with
    | accepted => exact List.suffix_cons _ _
    | duplicate => exact List.suffix_cons _ _
    | refused => exact List.suffix_cons _ _

/-- The offset of a duplicate is the one that the store keeps. -/
theorem last_of_duplicate {w w' : World} {fate : Fate} {stream : String} {producer : ProducerTuple}
    {body : Bytes} {n : UInt64} (hfate : ∀ n, fate ≠ .misreported n)
    (h : ((.ok (.duplicate n) : Answer (.append stream producer body)), w') =
      w.serve fate (.append stream producer body)) :
    ∃ sequence, w.disk.last stream producer.id = some (sequence, n) := by
  have hanswer := (Prod.mk.inj h).1
  cases fate with
  | answered =>
    obtain ⟨_, sequence, hlast, _⟩ := Disk.appendAnswer_duplicate hanswer.symm
    exact ⟨sequence, hlast⟩
  | misreported n => exact absurd rfl (hfate n)
  | lost message => cases hanswer
  | garbled message => cases hanswer
  | failed error => cases hanswer
  | delayed message => cases hanswer

variable [Hashing] {Doc : Type} [Loro Doc] {roomId : String} {config : ActorConfig}

/-- The store answers a duplicate with the offset that it keeps. -/
def Policy.Honest (policy : Policy Doc roomId config) : Prop :=
  ∀ req fate n, policy.fate req fate → fate ≠ .misreported n

theorem Policy.late_honest : (Policy.late : Policy Doc roomId config).Honest :=
  fun _ _ n h => h n

variable {policy : Policy Doc roomId config} {task : Task (gateway Doc roomId config)}

theorem environment_progresses (policy : Policy Doc roomId config) :
    (environment policy).Progresses World.Extends where
  refl := World.Extends.refl
  trans := World.Extends.trans
  serve := by
    rintro task w req _ w' ⟨fate, _, _, heq⟩
    exact served_extends ⟨fate, heq⟩
  drift := by
    rintro up w w' ⟨app, _, _, rfl⟩
    exact ⟨Disk.grows_append _ _, List.suffix_rfl⟩
  crash := by
    rintro w w' rfl
    exact ⟨Disk.Grows.refl _, List.suffix_rfl⟩

/-- The surroundings in which the store is known to be in order, and the actor as `L`
says. -/
abbrev keptWith (policy : Policy Doc roomId config) (L : World → RoomActor Doc → Prop) :
    Environment (gateway Doc roomId config) World :=
  confined policy (Kept Doc roomId config) L

/-- The surroundings in which the store and the actor are known to be in order. -/
abbrev keptEnvironment (policy : Policy Doc roomId config) :
    Environment (gateway Doc roomId config) World :=
  keptWith policy (RoomActor.Placed roomId config)

variable {L : World → RoomActor Doc → Prop}

theorem kept_grounded (policy : Policy Doc roomId config) (L : World → RoomActor Doc → Prop)
    (task : Task (gateway Doc roomId config)) (inv : World → Prop) :
    Grounded ((keptWith policy L).serve task) ((keptWith policy L).contract inv) :=
  confined_grounded inv

/-- A program that has completed leaves the store in order. -/
theorem kept_of_completes {α : Type} {p : StoreM α} {value : α} {w w' : World}
    (hkept : Kept Doc roomId config w)
    (hcompletes : Completes (keptWith policy L) task p w value w') : Kept Doc roomId config w' := by
  obtain ⟨t, hrun, hrely⟩ := hcompletes
  refine kept_of_rely ?_ hrely
  clear hrely
  induction hrun with
  | ret => exact hkept
  | call _ served _ ih => exact ih served.2.2

/-- What survives growth lasts. -/
theorem GrowthStable.lasting {assertion : World → Prop} (h : GrowthStable assertion) :
    Lasting (Kept Doc roomId config) World.Extends assertion :=
  fun w w' _ _ hle hw => h w w' hle.disk hw

/-- Every call keeps what lasts. -/
theorem lasting_keeps {assertion : World → Prop}
    (h : Lasting (Kept Doc roomId config) World.Extends assertion) (req : Request) :
    Keeps ((keptWith policy L).serve task)
      ((keptWith policy L).contract (Kept Doc roomId config)) assertion req :=
  fun w _ w' hw hkept hserve => ⟨⟨hserve.2.2, trivial⟩,
    h w w' hkept hserve.2.2 (served_extends (served_of_confined hserve)) hw⟩

/-- A program leads to an extension of the world in which it started. -/
theorem wp_extends {inv : World → Prop} {α : Type} {p : StoreM α} {post : α → World → Prop}
    {w : World}
    (h : wp ((keptWith policy L).serve task) ((keptWith policy L).contract inv) p post w) :
    wp ((keptWith policy L).serve task) ((keptWith policy L).contract inv) p
      (fun r t => post r t ∧ w.Extends t) w :=
  wp_reaches World.Extends.refl World.Extends.trans (environment_progresses policy).rely
    (fun hserve => served_extends (served_of_confined hserve)) h

/-- A committed frame stays committed. -/
theorem lasting_committed {generation : GenerationId} {frame : DeltaFrame} :
    Lasting (Kept Doc roomId config) World.Extends fun w =>
      Committed (NamedFrame roomId) config.frameLimits roomId generation frame w.disk :=
  fun _ _ _ hkept hle h => h.mono hle.disk hkept.delta.toDeltaInvariant

/-- A resolution that succeeds has its frame in the log. -/
theorem honest_resolve (honest : policy.Honest) {a : RoomActor Doc} (ha : a.Seated roomId config)
    {pending : PendingAppend} (hpending : a.Prepares pending) {inv : World → Prop}
    (hinv : ∀ w, inv w → Kept Doc roomId config w)
    (hkeeps : Keeps ((keptWith policy L).serve task) ((keptWith policy L).contract inv)
      (fun _ => True) pending.request) (w : World) :
    wp ((keptWith policy L).serve task) ((keptWith policy L).contract inv)
      (resolveAppend a.config pending)
      (fun r t => ∀ proof, r = .ok proof →
        Committed (NamedFrame roomId) config.frameLimits roomId a.activeDeltaGeneration
          pending.frame t.disk) w := by
  have hc := kept_grounded policy L task inv
  refine wp_resolveAppend hc (growthStable_true.stable hc.grows) trivial hkeeps ?_ ?_ ?_ ?_
  · rintro w₁ n w₂ _ hinv₁ hserve _ _ proof _
    obtain ⟨frames, hlog⟩ := (hinv _ hinv₁).delta.logs a.activeDeltaGeneration
    have hserved := served_of_confined hserve
    generalize hx : Except.ok (AppendOutcome.committed n) = x at hserved
    cases served_append hserved with
    | accepted haccepts =>
      refine ⟨frames ++ [pending.frame], ?_, List.mem_append_right _ (List.mem_singleton_self _)⟩
      rw [hpending.append_eq ha] at haccepts ⊢
      exact hlog.accept (hpending.submittable ha) haccepts
    | duplicate => cases hx
    | refused => cases hx
  · rintro w₁ n w₂ _ hinv₁ hserve w₃ _ hinv₃ hrely hends proof _
    obtain ⟨⟨fate, hfate, _, heq⟩, _⟩ := id hserve
    obtain ⟨sequence, hlast⟩ := last_of_duplicate (fun n => honest _ fate n hfate) heq
    have hserved := served_of_confined hserve
    have hafter := (environment_progresses policy).rely hrely
    obtain ⟨frames₁, hlog₁⟩ := (hinv _ hinv₁).delta.logs a.activeDeltaGeneration
    obtain ⟨frames₃, hlog₃⟩ := (hinv _ hinv₃).delta.logs a.activeDeltaGeneration
    rw [hpending.stream, ha.stream] at hlast hends
    rw [hpending.bytes, ha.config] at hends
    exact ⟨frames₃, hlog₃, hlog₁.mem_of_endsAt (ha.config ▸ hpending.valid) hlog₃
      ((served_grows hserved).trans hafter.disk) hlast hends⟩
  · exact fun _ _ _ _ _ _ _ _ _ _ => nofun
  · exact fun _ _ _ _ _ => nofun

theorem RoomReachable.inKept {g : System (gateway Doc roomId config) World}
    (h : RoomReachable policy g) :
    Reachable (keptEnvironment policy) (fun w => w = World.empty) g :=
  Reachable.within (fun h => RoomReachable.kept h) (fun h => RoomReachable.placed h) h

/-- A process that is down has sent nothing that is still its own. -/
theorem RoomReachable.inflight_down {g : System (gateway Doc roomId config) World}
    (h : RoomReachable policy g)
    (hdown : g.phase = .down) : g.world.inflight = [] := by
  refine Reachable.down_rule (D := fun w => w.inflight = []) ?_ ?_ ?_ h hdown
  · intro w hinit
    subst hinit
    rfl
  · intro w w' hcrash
    subst hcrash
    rfl
  · intro w w' hw hdrift
    obtain ⟨app, _, _, hdelivered⟩ := hdrift
    subst hdelivered
    exact hw

end LoroGateway
