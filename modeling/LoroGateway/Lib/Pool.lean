import LoroGateway.Lib.Program

/-!
# A pool of programs

Any number of programs run against one host, with their calls interleaved in
any order.  A program can be started at any time, and can be abandoned between
any two of its calls.  Things can also happen by themselves.

`Reachable.sound` is the rule: if what each program guarantees is allowed by
what the others rely on, then the invariant holds in every reachable state and
every finished program has kept its promise, which still holds.
-/

namespace CrashLogic

namespace Pool

variable {Req : Type} {Ans : Req → Type} {σ ι α : Type}

/-- The state of a pool: the world, the programs that run and the results of
those that have finished, each under its label. -/
structure State (Req : Type) (Ans : Req → Type) (σ ι α : Type) where
  world : σ
  running : List (ι × Prog Req Ans α)
  finished : List (ι × α)

inductive Step (serve : Serve Req Ans σ) (drift : σ → σ → Prop) (program : ι → Prog Req Ans α) :
    State Req Ans σ ι α → State Req Ans σ ι α → Prop
  | start (i : ι) {w : σ} {running : List (ι × Prog Req Ans α)} {finished : List (ι × α)} :
      Step serve drift program ⟨w, running, finished⟩ ⟨w, (i, program i) :: running, finished⟩
  | call {i : ι} {req : Req} {next : Ans req → Prog Req Ans α} {x : Ans req} {w w' : σ}
      {before after : List (ι × Prog Req Ans α)} {finished : List (ι × α)}
      (h : serve w req x w') :
      Step serve drift program ⟨w, before ++ (i, .call req next) :: after, finished⟩
        ⟨w', before ++ (i, next x) :: after, finished⟩
  | finish {i : ι} {value : α} {w : σ} {before after : List (ι × Prog Req Ans α)}
      {finished : List (ι × α)} :
      Step serve drift program ⟨w, before ++ (i, .ret value) :: after, finished⟩
        ⟨w, before ++ after, (i, value) :: finished⟩
  | abandon {i : ι} {p : Prog Req Ans α} {w : σ} {before after : List (ι × Prog Req Ans α)}
      {finished : List (ι × α)} :
      Step serve drift program ⟨w, before ++ (i, p) :: after, finished⟩
        ⟨w, before ++ after, finished⟩
  | drift {w w' : σ} {running : List (ι × Prog Req Ans α)} {finished : List (ι × α)}
      (h : drift w w') :
      Step serve drift program ⟨w, running, finished⟩ ⟨w', running, finished⟩

/-- The states that a pool reaches from an empty one. -/
inductive Reachable (serve : Serve Req Ans σ) (drift : σ → σ → Prop)
    (program : ι → Prog Req Ans α) (init : σ → Prop) : State Req Ans σ ι α → Prop
  | init {w : σ} (h : init w) : Reachable serve drift program init ⟨w, [], []⟩
  | step {g g' : State Req Ans σ ι α} (h : Reachable serve drift program init g)
      (hstep : Step serve drift program g g') : Reachable serve drift program init g'

variable {serve : Serve Req Ans σ} {drift : σ → σ → Prop} {program : ι → Prog Req Ans α}
  {init : σ → Prop}

/-- What a proof about a pool has to show. -/
structure Sound (serve : Serve Req Ans σ) (drift : σ → σ → Prop) (program : ι → Prog Req Ans α)
    (init : σ → Prop) (c : Contract σ) (post : ι → α → σ → Prop) : Prop where
  init : ∀ {w}, init w → c.inv w
  start : ∀ i {w}, c.inv w → wp serve c (program i) (post i) w
  /-- What a program does is among what the others rely on. -/
  rely_of_guar : ∀ {w w'}, c.inv w → c.inv w' → c.guar w w' → c.rely w w'
  drift : ∀ {w w'}, c.inv w → drift w w' → c.inv w' ∧ c.rely w w'
  stable : ∀ i value, c.Stable (post i value)

/-- What holds of a state of the pool. -/
structure Holds (serve : Serve Req Ans σ) (c : Contract σ) (post : ι → α → σ → Prop)
    (g : State Req Ans σ ι α) : Prop where
  inv : c.inv g.world
  running : ∀ entry ∈ g.running, wp serve c entry.2 (post entry.1) g.world
  finished : ∀ entry ∈ g.finished, post entry.1 entry.2 g.world

variable {c : Contract σ} {post : ι → α → σ → Prop}

theorem Step.preserves (h : Sound serve drift program init c post) {g g' : State Req Ans σ ι α}
    (hstep : Step serve drift program g g') (hg : Holds serve c post g) :
    Holds serve c post g' := by
  obtain ⟨hinv, hrunning, hfinished⟩ := hg
  cases hstep with
  | start i =>
    refine ⟨hinv, ?_, hfinished⟩
    exact List.forall_mem_cons.mpr ⟨h.start i hinv, hrunning⟩
  | @call i req next x w w' before after finished hserve =>
    obtain ⟨hbefore, hrest⟩ := List.forall_mem_append.mp hrunning
    obtain ⟨hcall, hafter⟩ := List.forall_mem_cons.mp hrest
    obtain ⟨hinv', hguar, hnext⟩ := hcall w (c.rely_refl w) hinv x w' hserve
    have hrely := h.rely_of_guar hinv hinv' hguar
    refine ⟨hinv', ?_, fun entry hmem => h.stable _ _ _ _ (hfinished entry hmem) hrely⟩
    refine List.forall_mem_append.mpr ⟨fun entry hmem => ?_, List.forall_mem_cons.mpr
      ⟨hnext, fun entry hmem => ?_⟩⟩
    · exact wp_rely (h.stable _) (hbefore entry hmem) hrely
    · exact wp_rely (h.stable _) (hafter entry hmem) hrely
  | finish =>
    obtain ⟨hbefore, hrest⟩ := List.forall_mem_append.mp hrunning
    obtain ⟨hret, hafter⟩ := List.forall_mem_cons.mp hrest
    refine ⟨hinv, List.forall_mem_append.mpr ⟨hbefore, hafter⟩, ?_⟩
    exact List.forall_mem_cons.mpr ⟨hret, hfinished⟩
  | abandon =>
    obtain ⟨hbefore, hrest⟩ := List.forall_mem_append.mp hrunning
    obtain ⟨_, hafter⟩ := List.forall_mem_cons.mp hrest
    exact ⟨hinv, List.forall_mem_append.mpr ⟨hbefore, hafter⟩, hfinished⟩
  | drift hdrift =>
    obtain ⟨hinv', hrely⟩ := h.drift hinv hdrift
    refine ⟨hinv', fun entry hmem => ?_, fun entry hmem => ?_⟩
    · exact wp_rely (h.stable _) (hrunning entry hmem) hrely
    · exact h.stable _ _ _ _ (hfinished entry hmem) hrely

/-- Every reachable state of a sound pool satisfies the invariant, and every
result that has been answered is as promised. -/
theorem Reachable.sound (h : Sound serve drift program init c post) {g : State Req Ans σ ι α}
    (hreach : Reachable serve drift program init g) : Holds serve c post g := by
  induction hreach with
  | init hw => exact ⟨h.init hw, nofun, nofun⟩
  | step _ hstep ih => exact hstep.preserves h ih

/-- What a step of a sound pool does is among what each program relies on. -/
theorem Step.rely (h : Sound serve drift program init c post) {g g' : State Req Ans σ ι α}
    (hstep : Step serve drift program g g') (hg : Holds serve c post g) :
    c.rely g.world g'.world := by
  obtain ⟨hinv, hrunning, _⟩ := hg
  cases hstep with
  | start | finish | abandon => exact c.rely_refl _
  | call hserve =>
    have hcall := hrunning _ (List.mem_append_right _ List.mem_cons_self)
    obtain ⟨hinv', hguar, _⟩ := hcall _ (c.rely_refl _) hinv _ _ hserve
    exact h.rely_of_guar hinv hinv' hguar
  | drift hdrift => exact (h.drift hinv hdrift).2

/-- What the further steps of a sound pool do. -/
theorem Reachable.rely (h : Sound serve drift program init c post) {g g' : State Req Ans σ ι α}
    (hreach : Reachable serve drift program init g)
    (hsteps : Relation.ReflTransGen (Step serve drift program) g g') :
    Reachable serve drift program init g' ∧ c.rely g.world g'.world := by
  induction hsteps with
  | refl => exact ⟨hreach, c.rely_refl _⟩
  | tail _ hstep ih =>
    obtain ⟨hreach', hrely⟩ := ih
    exact ⟨.step hreach' hstep, c.rely_trans hrely (hstep.rely h (hreach'.sound h))⟩

end Pool

end CrashLogic
