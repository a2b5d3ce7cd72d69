import LoroGateway.Lib.Server

/-!
# A fleet of servers in one process

One process hosts a server for each index.  The servers share the host, they are
started under one boot value, and a crash of the process takes all of them down.

* `Event.map`, `Phase.map` and `System.map` look at a server through a view of
  the world.
* `Fleet` is a state of the process with all its servers, `Fleet.Step` its steps
  and `Fleet.Reachable` its runs.  The steps of different servers interleave at
  every call.
* `Fleet.Separates` says when the servers do not meet: what a server asks for is
  its own, and an answer to one server changes nothing in the view of another.
* `Fleet.Reachable.reaches` is the rule of the module: in a separated fleet each
  server, seen through its view, is in a state that it reaches alone.
-/

namespace CrashLogic

namespace Server

variable {Req : Type} {Ans : Req → Type} {σ τ : Type}

section View

variable {S : Server Req Ans} (view : σ → τ)

def Event.map : Event S σ → Event S τ
  | .booted b after a => .booted b (view after) a
  | .handled c before a outputs after a' => .handled c (view before) a outputs (view after) a'
  | .crashed => .crashed

def Phase.map : Phase S σ → Phase S τ
  | .down => .down
  | .booting b p => .booting b p
  | .idle a => .idle a
  | .serving c before a p => .serving c (view before) a p

def System.map (g : System S σ) : System S τ :=
  ⟨view g.world, g.phase.map view, g.events.map (Event.map view)⟩

/-- Has the server been started? -/
def Phase.up : Phase S σ → Bool
  | .down => false
  | _ => true

theorem Phase.up_eq_false {ph : Phase S σ} : ph.up = false ↔ ph = .down := by
  cases ph <;> simp [up]

@[simp] theorem Phase.up_map (view : σ → τ) (ph : Phase S σ) : (ph.map view).up = ph.up := by
  cases ph <;> rfl

end View

/-- One server of a fleet. -/
structure Member (S : Server Req Ans) (σ : Type) where
  phase : Phase S σ
  events : List (Event S σ)

/-- What a crash of the process leaves of a server.  One that was not started has
nothing to lose. -/
def Member.crashed {S : Server Req Ans} (m : Member S σ) : Member S σ :=
  match m.phase with
  | .down => m
  | _ => ⟨.down, .crashed :: m.events⟩

theorem Member.crashed_events {S : Server Req Ans} (m : Member S σ) :
    m.crashed.events = m.events ∨ m.crashed.events = .crashed :: m.events := by
  obtain ⟨phase, events⟩ := m
  cases phase with
  | down => exact .inl rfl
  | booting | idle | serving => exact .inr rfl

/-- A process that hosts a server for each index.  `process` is the boot value
under which it runs. -/
structure Fleet {ι : Type} (S : ι → Server Req Ans) (B σ : Type) where
  world : σ
  process : Option B
  member : ∀ i, Member (S i) σ

namespace Fleet

variable {ι : Type} {S : ι → Server Req Ans} {B : Type}

/-- One server and the world around it. -/
def system (g : Fleet S B σ) (i : ι) : System (S i) σ :=
  ⟨g.world, (g.member i).phase, (g.member i).events⟩

/-- The servers that have been started. -/
def up (g : Fleet S B σ) (i : ι) : Bool := (g.member i).phase.up

/-- The surroundings of a fleet. -/
structure Surroundings (S : ι → Server Req Ans) (B σ : Type) where
  /-- What the host may answer to a server while it is busy with a task. -/
  serve : ∀ i, Task (S i) → Serve Req Ans σ
  /-- When a command may come to a server. -/
  accepts : ∀ i, σ → (S i).State → List (Event (S i) σ) → (S i).Command → Prop
  /-- What may happen by itself, while the servers are up or down. -/
  drift : (ι → Bool) → σ → σ → Prop
  /-- When the process may be started. -/
  starts : σ → B → Prop
  /-- The boot value of a server in a process. -/
  bootOf : ∀ i, B → (S i).Boot
  /-- What a crash leaves of the world. -/
  crash : σ → σ → Prop

/-- The surroundings of one server between two steps of the process. -/
def Surroundings.member (env : Surroundings S B σ) (b : B) (i : ι) : Environment (S i) σ where
  serve := env.serve i
  drift _ _ _ := False
  boots _ _ b' := b' = env.bootOf i b
  accepts := env.accepts i
  crash _ _ := False

variable [DecidableEq ι]

/-- The fleet after a step of one server. -/
def withSystem (g : Fleet S B σ) (i : ι) (s : System (S i) σ) : Fleet S B σ :=
  { g with world := s.world, member := Function.update g.member i ⟨s.phase, s.events⟩ }

@[simp] theorem member_withSystem_self (g : Fleet S B σ) (i : ι) (s : System (S i) σ) :
    (g.withSystem i s).member i = ⟨s.phase, s.events⟩ := Function.update_self ..

theorem member_withSystem_ne (g : Fleet S B σ) {i j : ι} (h : i ≠ j) (s : System (S j) σ) :
    (g.withSystem j s).member i = g.member i := Function.update_of_ne h _ _

@[simp] theorem system_withSystem_self (g : Fleet S B σ) (i : ι) (s : System (S i) σ) :
    (g.withSystem i s).system i = s := by
  unfold system
  rw [member_withSystem_self]
  rfl

inductive Step (env : Surroundings S B σ) : Fleet S B σ → Fleet S B σ → Prop
  | start {g : Fleet S B σ} {b : B} (hdown : g.process = none) (h : env.starts g.world b) :
      Step env g { g with process := some b }
  | member {g : Fleet S B σ} {b : B} {i : ι} {s : System (S i) σ} (hup : g.process = some b)
      (h : Server.Step (env.member b i) (g.system i) s) : Step env g (g.withSystem i s)
  | drift {g : Fleet S B σ} {w' : σ} (h : env.drift g.up g.world w') :
      Step env g { g with world := w' }
  | crash {g : Fleet S B σ} {b : B} {w' : σ} (hup : g.process = some b)
      (h : env.crash g.world w') : Step env g ⟨w', none, fun i => (g.member i).crashed⟩

/-- The states that runs of a fleet reach.  At the start there is no process. -/
inductive Reachable (env : Surroundings S B σ) (init : σ → Prop) : Fleet S B σ → Prop
  | init {w : σ} (h : init w) : Reachable env init ⟨w, none, fun _ => ⟨.down, []⟩⟩
  | step {g g' : Fleet S B σ} (h : Reachable env init g) (hstep : Step env g g') :
      Reachable env init g'

/-- A server of a running process does what its surroundings let it do alone. -/
theorem Reachable.hosts {env : Surroundings S B σ} {init : σ → Prop} {g : Fleet S B σ} {b : B}
    {i : ι} (hreach : Reachable env init g) (hup : g.process = some b)
    (hnew : g.member i = ⟨.down, []⟩) {s : System (S i) σ}
    (h : Server.Reachable (env.member b i) (fun w => w = g.world) s) :
    Reachable env init (g.withSystem i s) := by
  induction h with
  | @init w hw =>
    have hsame : g.withSystem i ⟨w, .down, []⟩ = g := by
      unfold withSystem
      rw [hw, ← hnew, Function.update_eq_self]
    rw [hsame]
    exact hreach
  | @step s s' _ hstep ih =>
    have hnext : (g.withSystem i s).withSystem i s' = g.withSystem i s' := by
      unfold withSystem
      rw [Function.update_idem]
    rw [← hnext]
    refine ih.step (.member hup ?_)
    rw [system_withSystem_self]
    exact hstep

/-- The servers of a fleet do not meet: `view i` is what the server `i` has to do
with the world, `own i` are its surroundings when it is alone, and `mine i` are the
calls that it makes. -/
structure Separates (env : Surroundings S B σ) (init : σ → Prop) (view : ι → σ → τ)
    (own : ∀ i, Environment (S i) τ) (start : ι → τ → Prop) (mine : ι → Req → Prop) : Prop where
  init : ∀ {w} i, init w → start i (view i w)
  asks : ∀ {i g}, Server.Reachable (own i) (start i) g → g.phase.Asks (mine i)
  serve : ∀ {i task w req x w'}, mine i req → env.serve i task w req x w' →
    (own i).serve task (view i w) req x (view i w')
  apart : ∀ {i j task w req x w'}, i ≠ j → mine j req → env.serve j task w req x w' →
    view i w' = view i w
  accepts : ∀ {i w a evs c}, env.accepts i w a evs c →
    (own i).accepts (view i w) a (evs.map (Event.map (view i))) c
  drift : ∀ {up w w'} i, env.drift up w w' →
    view i w' = view i w ∨ (own i).drift (up i) (view i w) (view i w')
  starts : ∀ {w b} i evs, env.starts w b → (own i).boots (view i w) evs (env.bootOf i b)
  boots_drift : ∀ {i v v' evs b}, (own i).boots v evs b → (own i).drift false v v' →
    (own i).boots v' evs b
  crash : ∀ {w w'} i, env.crash w w' → (own i).crash (view i w) (view i w')
  crash_down : ∀ {i w w' evs}, Server.Reachable (own i) (start i) ⟨view i w, .down, evs⟩ →
    env.crash w w' → view i w' = view i w

omit [DecidableEq ι] in
theorem system_map_of_view {view : σ → τ} {g : Fleet S B σ} {w' : σ} {i : ι}
    (h : view w' = view g.world) :
    (System.mk w' (g.member i).phase (g.member i).events).map view = (g.system i).map view := by
  unfold System.map system
  rw [h]

omit [DecidableEq ι] in
/-- A step of a server asks for its next call, or leaves the world alone. -/
theorem step_world {env : Surroundings S B σ} {b : B} {j : ι} {g : Fleet S B σ}
    {s : System (S j) σ} (h : Server.Step (env.member b j) (g.system j) s) :
    s.world = g.world ∨ ∃ task req x, env.serve j task g.world req x s.world ∧
      ∀ mine, (g.member j).phase.Asks mine → mine req := by
  generalize hsystem : g.system j = s₀ at h
  obtain ⟨hworld, hphase, hevents⟩ := System.mk.inj hsystem
  rw [hworld, hphase]
  cases h with
  | boot | booted | receive | handled => exact .inl rfl
  | bootCall hserve => exact .inr ⟨_, _, _, hserve, fun _ h => h⟩
  | call hserve => exact .inr ⟨_, _, _, hserve, fun _ h => h⟩
  | crashIdle h | crashBooting h | crashServing h => exact h.elim
  | driftUp _ h | driftDown h => exact h.elim

/-- What is known of one server in a run of a fleet. -/
structure Alone (env : Surroundings S B σ) (view : ι → σ → τ) (own : ∀ i, Environment (S i) τ)
    (start : ι → τ → Prop) (g : Fleet S B σ) (i : ι) : Prop where
  reaches : Server.Reachable (own i) (start i) ((g.system i).map (view i))
  /-- A server that was not started yet can be started at any time. -/
  boots : ∀ {b}, g.process = some b → (g.member i).phase = .down →
    (own i).boots (view i g.world) ((g.member i).events.map (Event.map (view i))) (env.bootOf i b)

variable {env : Surroundings S B σ} {init : σ → Prop} {view : ι → σ → τ}
  {own : ∀ i, Environment (S i) τ} {start : ι → τ → Prop} {mine : ι → Req → Prop}

omit [DecidableEq ι] in
theorem asks_map {i : ι} {ph : Phase (S i) σ} {view : σ → τ} {mine : Req → Prop} :
    (ph.map view).Asks mine ↔ ph.Asks mine := by
  cases ph with
  | down => exact Iff.rfl
  | booting b p => cases p <;> exact Iff.rfl
  | idle a => exact Iff.rfl
  | serving c before a p => cases p <;> exact Iff.rfl

omit [DecidableEq ι] in
/-- A step that the server makes itself. -/
theorem Alone.own_step (hsep : Separates env init view own start mine) {g : Fleet S B σ} {i : ι}
    {b : B} {s : System (S i) σ} (h : Alone env view own start g i) (hup : g.process = some b)
    (hstep : Server.Step (env.member b i) (g.system i) s) :
    Server.Reachable (own i) (start i) (s.map (view i)) := by
  have hreach := h.reaches
  have hasks := asks_map.1 (hsep.asks hreach)
  have hboots := h.boots hup
  generalize hsystem : g.system i = s₀ at hstep hreach
  obtain ⟨hworld, hphase, hevents⟩ := System.mk.inj hsystem
  change (g.member i).phase.Asks (mine i) at hasks
  rw [hworld, hphase, hevents] at hboots
  rw [hphase] at hasks
  apply hreach.step
  cases hstep with
  | boot hb =>
    subst hb
    exact .boot (hboots rfl)
  | bootCall hserve => exact .bootCall (hsep.serve hasks hserve)
  | booted => exact .booted
  | receive haccepts => exact .receive (hsep.accepts haccepts)
  | call hserve => exact .call (hsep.serve hasks hserve)
  | handled => exact .handled
  | crashIdle h | crashBooting h | crashServing h => exact h.elim
  | driftUp _ h | driftDown h => exact h.elim

omit [DecidableEq ι] in
/-- A step of the world by itself. -/
theorem Alone.drift_step (hsep : Separates env init view own start mine) {g : Fleet S B σ} {i : ι}
    {w' : σ} (h : Alone env view own start g i) (hdrift : env.drift g.up g.world w') :
    Alone env view own start { g with world := w' } i := by
  rcases hsep.drift i hdrift with hsame | hown
  · constructor
    · change Server.Reachable _ _ (System.map (view i) ⟨w', _, _⟩)
      rw [system_map_of_view hsame]
      exact h.reaches
    · intro b hup hdown
      change (own i).boots (view i w') _ _
      rw [hsame]
      exact h.boots hup hdown
  · constructor
    · apply h.reaches.step
      unfold up at hown
      cases hup : (g.member i).phase.up with
      | false =>
        rw [hup] at hown
        unfold System.map system
        dsimp only
        rw [Phase.up_eq_false.1 hup]
        exact .driftDown hown
      | true =>
        rw [hup] at hown
        refine .driftUp ?_ hown
        intro hdown
        have hmap : ((g.member i).phase.map (view i)).up = false := Phase.up_eq_false.2 hdown
        rw [Phase.up_map, hup] at hmap
        cases hmap
    · intro b hup hdown
      have hfalse : g.up i = false := Phase.up_eq_false.2 hdown
      rw [hfalse] at hown
      exact hsep.boots_drift (h.boots hup hdown) hown

omit [DecidableEq ι] in
/-- A crash of the process. -/
theorem Alone.crash_step (hsep : Separates env init view own start mine) {g : Fleet S B σ} {i : ι}
    {w' : σ} (h : Alone env view own start g i) (hcrash : env.crash g.world w') :
    Server.Reachable (own i) (start i)
      (System.map (view i) ⟨w', (g.member i).crashed.phase, (g.member i).crashed.events⟩) := by
  have hreach := h.reaches
  unfold system System.map at hreach
  dsimp only at hreach
  unfold Member.crashed
  cases hphase : (g.member i).phase with
  | down =>
    rw [hphase] at hreach
    have hsame := hsep.crash_down hreach hcrash
    unfold System.map
    dsimp only
    rw [hphase, hsame]
    exact hreach
  | booting b p =>
    rw [hphase] at hreach
    exact hreach.step (.crashBooting (hsep.crash i hcrash))
  | idle a =>
    rw [hphase] at hreach
    exact hreach.step (.crashIdle (hsep.crash i hcrash))
  | serving c before a p =>
    rw [hphase] at hreach
    exact hreach.step (.crashServing (hsep.crash i hcrash))

theorem Alone.step (hsep : Separates env init view own start mine) {g g' : Fleet S B σ}
    (h : ∀ i, Alone env view own start g i) (hstep : Step env g g') (i : ι) :
    Alone env view own start g' i := by
  cases hstep with
  | start hdown hstarts =>
    constructor
    · exact (h i).reaches
    · intro b hup _
      obtain rfl := Option.some.inj hup
      exact hsep.starts i _ hstarts
  | @member b j s hup hown =>
    by_cases hij : i = j
    · subst hij
      constructor
      · rw [system_withSystem_self]
        exact (h i).own_step hsep hup hown
      · intro b' _ hphase
        -- no step of a server ends with the server down
        rw [member_withSystem_self] at hphase
        generalize g.system i = s₀ at hown
        cases hown with
        | boot | bootCall | booted | receive | call | handled => cases hphase
        | crashIdle h | crashBooting h | crashServing h => exact h.elim
        | driftUp _ h | driftDown h => exact h.elim
    · have hmember := g.member_withSystem_ne hij s
      have hview : view i s.world = view i g.world := by
        rcases step_world hown with hworld | ⟨task, req, x, hserve, hasks⟩
        · rw [hworld]
        · exact hsep.apart hij (hasks _ (asks_map.1 (hsep.asks (h j).reaches))) hserve
      constructor
      · unfold system
        rw [hmember]
        change Server.Reachable _ _ (System.map (view i) ⟨s.world, _, _⟩)
        rw [system_map_of_view hview]
        exact (h i).reaches
      · intro b' hup' hdown
        rw [hmember] at hdown ⊢
        change (own i).boots (view i s.world) _ _
        rw [hview]
        exact (h i).boots hup' hdown
  | drift hdrift => exact (h i).drift_step hsep hdrift
  | crash hup hcrash => exact ⟨(h i).crash_step hsep hcrash, nofun⟩

/-- In a separated fleet every server is in a state that it reaches alone. -/
theorem Reachable.reaches (hsep : Separates env init view own start mine) {g : Fleet S B σ}
    (hreach : Reachable env init g) (i : ι) :
    Server.Reachable (own i) (start i) ((g.system i).map (view i)) := by
  suffices h : ∀ i, Alone env view own start g i from (h i).reaches
  induction hreach with
  | init hw => exact fun i => ⟨.init (hsep.init i hw), nofun⟩
  | step _ hstep ih => exact fun i => Alone.step hsep ih hstep i

end Fleet

/-! ## What the servers do whatever the host answers -/

section Answers

variable {S : Server Req Ans}

/-- The memory of a server satisfies `P` between two commands, and `Q` holds of each
command that it has in hand once that is handled. -/
def Phase.Answers (P : S.State → Prop)
    (Q : S.Command → S.State → List S.Output → S.State → Prop) : Phase S σ → Prop
  | .down => True
  | .booting _ p => p.Always (fun _ => True) P
  | .idle a => P a
  | .serving c _ a p => p.Always (fun _ => True) fun r => P r.1 ∧ Q c a r.2 r.1

def Event.Answers (Q : S.Command → S.State → List S.Output → S.State → Prop) : Event S σ → Prop
  | .handled c _ a outputs _ a' => Q c a outputs a'
  | _ => True

theorem Step.answers {env : Environment S σ} {P : S.State → Prop}
    {Q : S.Command → S.State → List S.Output → S.State → Prop}
    (hboot : ∀ b, (S.boot b).Always (fun _ => True) P)
    (hhandle : ∀ c a, P a → (S.handle c a).Always (fun _ => True) fun r => P r.1 ∧ Q c a r.2 r.1)
    {g g' : System S σ} (hstep : Step env g g') (hphase : g.phase.Answers P Q)
    (hevents : ∀ event ∈ g.events, event.Answers Q) :
    g'.phase.Answers P Q ∧ ∀ event ∈ g'.events, event.Answers Q := by
  cases hstep with
  | boot => exact ⟨hboot _, hevents⟩
  | bootCall => exact ⟨hphase.2 _, hevents⟩
  | booted => exact ⟨hphase, List.forall_mem_cons.mpr ⟨trivial, hevents⟩⟩
  | receive => exact ⟨hhandle _ _ hphase, hevents⟩
  | call => exact ⟨hphase.2 _, hevents⟩
  | handled => exact ⟨hphase.1, List.forall_mem_cons.mpr ⟨hphase.2, hevents⟩⟩
  | crashIdle | crashBooting | crashServing =>
    exact ⟨trivial, List.forall_mem_cons.mpr ⟨trivial, hevents⟩⟩
  | driftUp | driftDown => exact ⟨hphase, hevents⟩

theorem Member.answers_crashed {m : Member S σ} {P : S.State → Prop}
    {Q : S.Command → S.State → List S.Output → S.State → Prop} (hphase : m.phase.Answers P Q)
    (hevents : ∀ event ∈ m.events, event.Answers Q) :
    m.crashed.phase.Answers P Q ∧ ∀ event ∈ m.crashed.events, event.Answers Q := by
  obtain ⟨phase, events⟩ := m
  cases phase with
  | down => exact ⟨hphase, hevents⟩
  | booting | idle | serving => exact ⟨trivial, List.forall_mem_cons.mpr ⟨trivial, hevents⟩⟩

end Answers

namespace Fleet

variable {ι : Type} {S : ι → Server Req Ans} {B : Type} [DecidableEq ι]

/-- What the programs of the servers do with any answers holds in every run of the
process.  The servers need not be separated. -/
theorem Reachable.answers {env : Surroundings S B σ} {init : σ → Prop} {P : ∀ i, (S i).State → Prop}
    {Q : ∀ i, (S i).Command → (S i).State → List (S i).Output → (S i).State → Prop}
    (hboot : ∀ i b, ((S i).boot b).Always (fun _ => True) (P i))
    (hhandle : ∀ i c a, P i a →
      ((S i).handle c a).Always (fun _ => True) fun r => P i r.1 ∧ Q i c a r.2 r.1)
    {g : Fleet S B σ} (hreach : Reachable env init g) (i : ι) :
    (g.member i).phase.Answers (P i) (Q i) ∧
      ∀ event ∈ (g.member i).events, event.Answers (Q i) := by
  induction hreach with
  | init => exact ⟨trivial, nofun⟩
  | step _ hstep ih =>
    cases hstep with
    | start | drift => exact ih
    | @member b j s hup hown =>
      by_cases hij : i = j
      · subst hij
        rw [member_withSystem_self]
        exact hown.answers (hboot i) (hhandle i) ih.1 ih.2
      · rw [member_withSystem_ne _ hij]
        exact ih
    | crash => exact Member.answers_crashed ih.1 ih.2

end Fleet

end Server

end CrashLogic
