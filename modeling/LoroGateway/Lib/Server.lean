import LoroGateway.Lib.Program

/-!
# A server that can crash and restart

A `Server` processes commands one at a time.  Each command runs a program
against a host, and so does each start.  Between any two calls the process can
die; its memory is lost, the host keeps its state, and the next start reads
what the host kept.  Requests that were sent and not answered can reach the
host later, while the server waits, runs or is down.

* `Server` is the code: what a start and what a command run.
* `Environment` is everything else: what the host may answer, what may happen
  by itself, which commands may come, and what a crash leaves behind.
* `System` is a state of the whole, `Step` its steps and `Reachable` its runs.
  `System.events` records what happened, the newest first.  A call that is served
  although the process dies before the answer is a call with a crash after it.
* `Reachable.traced` says what the events stand for: complete runs of the programs.
* `Reachable.invariant` is the rule of the module.  It asks for an invariant of
  the idle server, one of the crashed server, and one weakest precondition for
  each program; it gives the invariants in every reachable state, and the
  crashed one at every point between two calls.
-/

namespace CrashLogic

variable {Req : Type} {Ans : Req → Type} {σ : Type}

/-- A server: its memory, its commands, and the programs they run. -/
structure Server (Req : Type) (Ans : Req → Type) where
  State : Type
  Command : Type
  Output : Type
  Boot : Type
  boot : Boot → Prog Req Ans State
  handle : Command → State → Prog Req Ans (State × List Output)

namespace Server

/-- What the server is busy with. -/
inductive Task (S : Server Req Ans)
  | boot (b : S.Boot)
  | command (c : S.Command) (a : S.State)

/-- One completed step of the server, with the states it led from and to. -/
inductive Event (S : Server Req Ans) (σ : Type)
  | booted (b : S.Boot) (after : σ) (a : S.State)
  | handled (c : S.Command) (before : σ) (a : S.State) (outputs : List S.Output) (after : σ)
      (a' : S.State)
  | crashed

/-- Where the server stands. -/
inductive Phase (S : Server Req Ans) (σ : Type)
  | down
  | booting (b : S.Boot) (p : Prog Req Ans S.State)
  | idle (a : S.State)
  | serving (c : S.Command) (before : σ) (a : S.State) (p : Prog Req Ans (S.State × List S.Output))

/-- A state of the whole system. -/
structure System (S : Server Req Ans) (σ : Type) where
  world : σ
  phase : Phase S σ
  events : List (Event S σ)

/-- The surroundings of a server. -/
structure Environment (S : Server Req Ans) (σ : Type) where
  /-- What the host may answer while the server is busy with a task. -/
  serve : Task S → Serve Req Ans σ
  /-- What may happen by itself, while the process is up or down. -/
  drift : (up : Bool) → σ → σ → Prop
  /-- When the server may be started. -/
  boots : σ → List (Event S σ) → S.Boot → Prop
  /-- When a command may come. -/
  accepts : σ → S.State → List (Event S σ) → S.Command → Prop
  /-- What a crash leaves of the world. -/
  crash : σ → σ → Prop

variable {S : Server Req Ans} {env : Environment S σ}

inductive Step (env : Environment S σ) : System S σ → System S σ → Prop
  | boot {w : σ} {evs : List (Event S σ)} {b : S.Boot} (h : env.boots w evs b) :
      Step env ⟨w, .down, evs⟩ ⟨w, .booting b (S.boot b), evs⟩
  | bootCall {w w' : σ} {evs : List (Event S σ)} {b : S.Boot} {req : Req} {x : Ans req}
      {next : Ans req → Prog Req Ans S.State} (h : env.serve (.boot b) w req x w') :
      Step env ⟨w, .booting b (.call req next), evs⟩ ⟨w', .booting b (next x), evs⟩
  | booted {w : σ} {evs : List (Event S σ)} {b : S.Boot} {a : S.State} :
      Step env ⟨w, .booting b (.ret a), evs⟩ ⟨w, .idle a, .booted b w a :: evs⟩
  | receive {w : σ} {evs : List (Event S σ)} {a : S.State} {c : S.Command}
      (h : env.accepts w a evs c) :
      Step env ⟨w, .idle a, evs⟩ ⟨w, .serving c w a (S.handle c a), evs⟩
  | call {w w' before : σ} {evs : List (Event S σ)} {a : S.State} {c : S.Command} {req : Req}
      {x : Ans req} {next : Ans req → Prog Req Ans (S.State × List S.Output)}
      (h : env.serve (.command c a) w req x w') :
      Step env ⟨w, .serving c before a (.call req next), evs⟩
        ⟨w', .serving c before a (next x), evs⟩
  | handled {w before : σ} {evs : List (Event S σ)} {a a' : S.State} {c : S.Command}
      {outputs : List S.Output} :
      Step env ⟨w, .serving c before a (.ret (a', outputs)), evs⟩
        ⟨w, .idle a', .handled c before a outputs w a' :: evs⟩
  | crashIdle {w w' : σ} {evs : List (Event S σ)} {a : S.State} (h : env.crash w w') :
      Step env ⟨w, .idle a, evs⟩ ⟨w', .down, .crashed :: evs⟩
  | crashBooting {w w' : σ} {evs : List (Event S σ)} {b : S.Boot} {p : Prog Req Ans S.State}
      (h : env.crash w w') :
      Step env ⟨w, .booting b p, evs⟩ ⟨w', .down, .crashed :: evs⟩
  | crashServing {w w' before : σ} {evs : List (Event S σ)} {a : S.State} {c : S.Command}
      {p : Prog Req Ans (S.State × List S.Output)} (h : env.crash w w') :
      Step env ⟨w, .serving c before a p, evs⟩ ⟨w', .down, .crashed :: evs⟩
  | driftUp {w w' : σ} {evs : List (Event S σ)} {ph : Phase S σ} (hup : ph ≠ .down)
      (h : env.drift true w w') : Step env ⟨w, ph, evs⟩ ⟨w', ph, evs⟩
  | driftDown {w w' : σ} {evs : List (Event S σ)} (h : env.drift false w w') :
      Step env ⟨w, .down, evs⟩ ⟨w', .down, evs⟩

/-- The states that runs from a set of starting worlds reach.  The server is
down at the start. -/
inductive Reachable (env : Environment S σ) (init : σ → Prop) : System S σ → Prop
  | init {w : σ} (h : init w) : Reachable env init ⟨w, .down, []⟩
  | step {g g' : System S σ} (h : Reachable env init g) (hstep : Step env g g') :
      Reachable env init g'

/-- The contract of a program of the server, for an invariant of the world. -/
def Environment.contract (env : Environment S σ) (inv : σ → Prop) : Contract σ where
  inv := inv
  rely := Relation.ReflTransGen (env.drift true)
  guar _ _ := True
  rely_refl _ := Relation.ReflTransGen.refl
  rely_trans := Relation.ReflTransGen.trans

/-- Nothing happens by itself. -/
def Environment.Quiet (env : Environment S σ) : Prop := ∀ up w w', ¬ env.drift up w w'

theorem Environment.Quiet.rely_eq (h : env.Quiet) {up : Bool} {w w' : σ}
    (hrely : Relation.ReflTransGen (env.drift up) w w') : w = w' := by
  induction hrely with
  | refl => rfl
  | tail _ hlast _ => exact absurd hlast (h _ _ _)

/-- In a quiet environment a program runs alone. -/
theorem wp_of_alone (hquiet : env.Quiet) {inv : σ → Prop} {serve : Serve Req Ans σ} {α : Type}
    {p : Prog Req Ans α} {post : α → σ → Prop} {w : σ} (h : wp serve (.alone inv) p post w) :
    wp serve (env.contract inv) p post w := by
  refine wp_weaken ?_ ?_ ?_ h
  · exact fun hrely => hquiet.rely_eq hrely
  · exact fun hinv => hinv
  · exact fun _ hserve => ⟨hserve, fun hinv _ => ⟨hinv, trivial⟩⟩

/-- An invariant of a server: one assertion for the idle server and one for the
crashed one. -/
structure Invariant (S : Server Req Ans) (σ : Type) where
  idle : σ → S.State → List (Event S σ) → Prop
  crash : σ → List (Event S σ) → Prop

/-- What a finished start has to establish.  The world may drift before the
server is seen idle. -/
def Invariant.afterBoot (env : Environment S σ) (I : Invariant S σ) (b : S.Boot)
    (evs : List (Event S σ)) (a : S.State) (w : σ) : Prop :=
  ∀ w', Relation.ReflTransGen (env.drift true) w w' → I.idle w' a (.booted b w' a :: evs)

/-- What a finished command has to establish. -/
def Invariant.afterCommand (env : Environment S σ) (I : Invariant S σ) (c : S.Command) (before : σ)
    (a : S.State) (evs : List (Event S σ)) (r : S.State × List S.Output) (w : σ) : Prop :=
  ∀ w', Relation.ReflTransGen (env.drift true) w w' →
    I.idle w' r.1 (.handled c before a r.2 w' r.1 :: evs)

/-- What an invariant says of a state of the system. -/
def Invariant.Holds (env : Environment S σ) (I : Invariant S σ) (g : System S σ) : Prop :=
  I.crash g.world g.events ∧
    match g.phase with
    | .down => True
    | .idle a => I.idle g.world a g.events
    | .booting b p =>
      wp (env.serve (.boot b)) (env.contract fun w => I.crash w g.events) p
        (I.afterBoot env b g.events) g.world
    | .serving c before a p =>
      wp (env.serve (.command c a)) (env.contract fun w => I.crash w g.events) p
        (I.afterCommand env c before a g.events) g.world

/-- What a proof of an invariant has to show. -/
structure Invariant.Preserved (env : Environment S σ) (I : Invariant S σ) : Prop where
  /-- An idle server may crash. -/
  crash_of_idle : ∀ {w a evs}, I.idle w a evs → I.crash w evs
  /-- A start from what a crash left. -/
  boot : ∀ {w evs b}, env.boots w evs b → I.crash w evs →
    wp (env.serve (.boot b)) (env.contract fun w => I.crash w evs) (S.boot b)
      (I.afterBoot env b evs) w
  /-- A command in an idle server. -/
  handle : ∀ {w a evs c}, env.accepts w a evs c → I.idle w a evs →
    wp (env.serve (.command c a)) (env.contract fun w => I.crash w evs) (S.handle c a)
      (I.afterCommand env c w a evs) w
  /-- A crash, and what it leaves. -/
  crash : ∀ {w w' evs}, I.crash w evs → env.crash w w' → I.crash w' (.crashed :: evs)
  /-- What happens by itself. -/
  drift_idle : ∀ {w w' a evs}, I.idle w a evs → env.drift true w w' → I.idle w' a evs
  drift_crash : ∀ {w w' evs up}, I.crash w evs → env.drift up w w' → I.crash w' evs

/-- In a quiet environment nothing comes between a program and its end. -/
theorem Invariant.Preserved.of_quiet {I : Invariant S σ} (hquiet : env.Quiet)
    (crash_of_idle : ∀ {w a evs}, I.idle w a evs → I.crash w evs)
    (boot : ∀ {w evs b}, env.boots w evs b → I.crash w evs →
      wp (env.serve (.boot b)) (.alone fun w => I.crash w evs) (S.boot b)
        (fun a w => I.idle w a (.booted b w a :: evs)) w)
    (handle : ∀ {w a evs c}, env.accepts w a evs c → I.idle w a evs →
      wp (env.serve (.command c a)) (.alone fun w => I.crash w evs) (S.handle c a)
        (fun r w' => I.idle w' r.1 (.handled c w a r.2 w' r.1 :: evs)) w)
    (crash : ∀ {w w' evs}, I.crash w evs → env.crash w w' → I.crash w' (.crashed :: evs)) :
    I.Preserved env where
  crash_of_idle := crash_of_idle
  boot hboots hcrash := by
    refine wp_mono ?_ (wp_of_alone hquiet (boot hboots hcrash))
    intro a w h w' hrely
    obtain rfl := hquiet.rely_eq hrely
    exact h
  handle haccepts hidle := by
    refine wp_mono ?_ (wp_of_alone hquiet (handle haccepts hidle))
    intro r w h w' hrely
    obtain rfl := hquiet.rely_eq hrely
    exact h
  crash := crash
  drift_idle _ hdrift := absurd hdrift (hquiet _ _ _)
  drift_crash _ hdrift := absurd hdrift (hquiet _ _ _)

/-- What a program ensures whatever the host answers. -/
theorem wp_of_always {fact : Prop} (hfact : fact) {serve : Serve Req Ans σ} {α : Type}
    {p : Prog Req Ans α} {post : α → Prop} (h : p.Always (fun _ => True) post) (w : σ) :
    wp serve (env.contract fun _ => fact) p (fun a _ => post a) w := by
  induction p generalizing w with
  | ret value => exact h
  | call req next ih => exact fun _ _ _ x t _ => ⟨hfact, trivial, ih x (h.2 x) t⟩

/-- An invariant of the memory and the events.  The host may be any host. -/
theorem Invariant.Preserved.of_always {P : S.State → List (Event S σ) → Prop}
    {C : List (Event S σ) → Prop} (crash_of_idle : ∀ {a evs}, P a evs → C evs)
    (boot : ∀ {evs} b, C evs →
      (S.boot b).Always (fun _ => True) fun a => ∀ w, P a (.booted b w a :: evs))
    (handle : ∀ {a evs} c, P a evs → (S.handle c a).Always (fun _ => True) fun r =>
      ∀ w w', P r.1 (.handled c w a r.2 w' r.1 :: evs))
    (crash : ∀ {evs}, C evs → C (.crashed :: evs)) :
    (Invariant.mk (fun _ => P) fun _ => C).Preserved env where
  crash_of_idle := crash_of_idle
  boot _ hcrash := wp_mono (fun _ _ h w' _ => h w') (wp_of_always hcrash (boot _ hcrash) _)
  handle _ hidle := wp_mono (fun _ _ h w' _ => h _ w')
    (wp_of_always (crash_of_idle hidle) (handle _ hidle) _)
  crash h _ := crash h
  drift_idle h _ := h
  drift_crash h _ := h

variable {I : Invariant S σ} {init : σ → Prop}

/-- One step of the system keeps the invariant. -/
theorem Step.preserves (h : I.Preserved env) {g g' : System S σ} (hstep : Step env g g')
    (hg : I.Holds env g) : I.Holds env g' := by
  obtain ⟨hcrash, hphase⟩ := hg
  cases hstep with
  | boot hboots => exact ⟨hcrash, h.boot hboots hcrash⟩
  | bootCall hserve =>
    obtain ⟨hcrash', _, hrest⟩ := hphase _ .refl hcrash _ _ hserve
    exact ⟨hcrash', hrest⟩
  | booted =>
    have hidle := hphase _ .refl
    exact ⟨h.crash_of_idle hidle, hidle⟩
  | receive haccepts => exact ⟨hcrash, h.handle haccepts hphase⟩
  | call hserve =>
    obtain ⟨hcrash', _, hrest⟩ := hphase _ .refl hcrash _ _ hserve
    exact ⟨hcrash', hrest⟩
  | handled =>
    have hidle := hphase _ .refl
    exact ⟨h.crash_of_idle hidle, hidle⟩
  | crashIdle hc => exact ⟨h.crash hcrash hc, trivial⟩
  | crashBooting hc => exact ⟨h.crash hcrash hc, trivial⟩
  | crashServing hc => exact ⟨h.crash hcrash hc, trivial⟩
  | @driftUp w w' evs ph hup hd =>
    refine ⟨h.drift_crash hcrash hd, ?_⟩
    cases ph with
    | down => exact absurd rfl hup
    | idle a => exact h.drift_idle hphase hd
    | booting b p =>
      exact wp_rely (fun a t u ht hrely v hv => ht v (hrely.trans hv)) hphase (.single hd)
    | serving c before a p =>
      exact wp_rely (fun r t u ht hrely v hv => ht v (hrely.trans hv)) hphase (.single hd)
  | driftDown hd => exact ⟨h.drift_crash hcrash hd, trivial⟩

/-- The invariant holds in every reachable state. -/
theorem Reachable.invariant (h : I.Preserved env) (hinit : ∀ w, init w → I.crash w [])
    {g : System S σ} (hreach : Reachable env init g) : I.Holds env g := by
  induction hreach with
  | init hw => exact ⟨hinit _ hw, trivial⟩
  | step _ hstep ih => exact hstep.preserves h ih

/-- The crashed invariant holds in every reachable state, also between two
calls of a program. -/
theorem Reachable.crash_invariant (h : I.Preserved env) (hinit : ∀ w, init w → I.crash w [])
    {g : System S σ} (hreach : Reachable env init g) : I.crash g.world g.events :=
  (hreach.invariant h hinit).1

/-- The idle invariant holds whenever the server is idle. -/
theorem Reachable.idle_invariant (h : I.Preserved env) (hinit : ∀ w, init w → I.crash w [])
    {w : σ} {a : S.State} {evs : List (Event S σ)} (hreach : Reachable env init ⟨w, .idle a, evs⟩) :
    I.idle w a evs :=
  (hreach.invariant h hinit).2

/-- What every step of the world keeps holds of every world. -/
theorem Reachable.world {X : σ → Prop} (hinit : ∀ w, init w → X w)
    (hserve : ∀ {task w req x w'}, X w → env.serve task w req x w' → X w')
    (hdrift : ∀ {up w w'}, X w → env.drift up w w' → X w')
    (hcrash : ∀ {w w'}, X w → env.crash w w' → X w') {g : System S σ}
    (hreach : Reachable env init g) : X g.world := by
  induction hreach with
  | init hw => exact hinit _ hw
  | step _ hstep ih =>
    cases hstep with
    | boot | booted | receive | handled => exact ih
    | bootCall h | call h => exact hserve ih h
    | crashIdle h | crashBooting h | crashServing h => exact hcrash ih h
    | driftUp _ h | driftDown h => exact hdrift ih h

/-- The environment, cut down to the steps between worlds that satisfy `K`, and to
the commands that an actor gets while `L` holds. -/
def Environment.within (env : Environment S σ) (K : σ → Prop) (L : σ → S.State → Prop) :
    Environment S σ where
  serve task w req x w' := env.serve task w req x w' ∧ K w ∧ K w'
  drift up w w' := env.drift up w w' ∧ K w ∧ K w'
  boots w events b := env.boots w events b ∧ K w
  accepts w a events c := env.accepts w a events c ∧ L w a
  crash w w' := env.crash w w' ∧ K w ∧ K w'

/-- What holds in every reachable state may be assumed of every step.  So an
invariant can be proved on top of another one. -/
theorem Reachable.within {K : σ → Prop} {L : σ → S.State → Prop}
    (hK : ∀ {g}, Reachable env init g → K g.world)
    (hL : ∀ {w a events}, Reachable env init ⟨w, .idle a, events⟩ → L w a) {g : System S σ}
    (hreach : Reachable env init g) : Reachable (env.within K L) init g := by
  induction hreach with
  | init hw => exact .init hw
  | step hg hstep ih =>
    have hbefore := hK hg
    have hafter := hK (.step hg hstep)
    refine .step ih ?_
    cases hstep with
    | boot h => exact .boot ⟨h, hbefore⟩
    | bootCall h => exact .bootCall ⟨h, hbefore, hafter⟩
    | booted => exact .booted
    | receive h => exact .receive ⟨h, hL hg⟩
    | call h => exact .call ⟨h, hbefore, hafter⟩
    | handled => exact .handled
    | crashIdle h => exact .crashIdle ⟨h, hbefore, hafter⟩
    | crashBooting h => exact .crashBooting ⟨h, hbefore, hafter⟩
    | crashServing h => exact .crashServing ⟨h, hbefore, hafter⟩
    | driftUp hup h => exact .driftUp hup ⟨h, hbefore, hafter⟩
    | driftDown h => exact .driftDown ⟨h, hbefore, hafter⟩

/-! ## Invariants that last

In many hosts the state only grows, by an order `le`.  What has become true of
such a host stays true, between two calls and through a crash; so an invariant
made of such facts has to be shown only where a program ends. -/

/-- Everything that happens extends the world. -/
structure Environment.Progresses (env : Environment S σ) (le : σ → σ → Prop) : Prop where
  refl : ∀ w, le w w
  trans : ∀ {u v w}, le u v → le v w → le u w
  serve : ∀ {task w req x w'}, env.serve task w req x w' → le w w'
  drift : ∀ {up w w'}, env.drift up w w' → le w w'
  crash : ∀ {w w'}, env.crash w w' → le w w'

/-- What is true of a world stays true of the later ones.  The worlds satisfy `K`. -/
def Lasting (K : σ → Prop) (le : σ → σ → Prop) (P : σ → Prop) : Prop :=
  ∀ w w', K w → K w' → le w w' → P w → P w'

/-- An invariant on top of `K`. -/
def Invariant.over (K : σ → Prop) (J : σ → S.State → List (Event S σ) → Prop)
    (C : σ → List (Event S σ) → Prop) : Invariant S σ where
  idle w a evs := K w ∧ J w a evs
  crash w evs := K w ∧ C w evs

section Lasting

variable {K : σ → Prop} {L : σ → S.State → Prop} {le : σ → σ → Prop}
  {J : σ → S.State → List (Event S σ) → Prop} {C : σ → List (Event S σ) → Prop}
  (hle : env.Progresses le)

include hle

theorem Environment.Progresses.rely {w w' : σ}
    (h : Relation.ReflTransGen ((env.within K L).drift true) w w') : le w w' := by
  induction h with
  | refl => exact hle.refl w
  | tail _ hlast ih => exact hle.trans ih (hle.drift hlast.1)

omit hle in
theorem kept_of_rely {w w' : σ} (hw : K w)
    (h : Relation.ReflTransGen ((env.within K L).drift true) w w') : K w' := by
  cases h with
  | refl => exact hw
  | tail _ hlast => exact hlast.2.2

/-- A program need not look after what lasts. -/
theorem wp_lasting {P : σ → Prop} (hP : Lasting K le P) {task : Task S} {α : Type}
    {p : Prog Req Ans α} {post : α → σ → Prop} {w : σ} (hK : K w) (hw : P w)
    (h : wp ((env.within K L).serve task) ((env.within K L).contract K) p post w) :
    wp ((env.within K L).serve task) ((env.within K L).contract fun w => K w ∧ P w) p
      (fun a t => post a t ∧ le w t ∧ K t) w := by
  have hreaches : wp ((env.within K L).serve task) ((env.within K L).contract K) p
      (fun a t => post a t ∧ le w t) w :=
    wp_reaches hle.refl hle.trans (fun hrely => hle.rely hrely) (fun hserve => hle.serve hserve.1) h
  have hframe := wp_frame (c := (env.within K L).contract K)
    (fun hs ht hPs hserve => hP _ _ hs ht (hle.serve hserve.1) hPs) hw hreaches
  exact wp_mono (fun a t ht => ⟨ht.1.1, ht.1.2, ht.2.1⟩) (wp_inv ⟨hK, hw⟩ hframe)

/-- An invariant made of what lasts has to be shown where a program ends. -/
theorem Invariant.over_preserved (hJ : ∀ a evs, Lasting K le fun w => J w a evs)
    (hC : ∀ evs, Lasting K le fun w => C w evs)
    (crash_of_idle : ∀ {w a evs}, K w → J w a evs → C w evs)
    (crash : ∀ {w evs}, K w → C w evs → C w (.crashed :: evs))
    (boot : ∀ {w evs b}, env.boots w evs b → K w → C w evs →
      wp ((env.within K L).serve (.boot b)) ((env.within K L).contract K) (S.boot b)
        (fun a t => ∀ w', K w' → le w w' → le t w' → J w' a (.booted b w' a :: evs)) w)
    (handle : ∀ {w a evs c}, env.accepts w a evs c → L w a → K w → J w a evs →
      wp ((env.within K L).serve (.command c a)) ((env.within K L).contract K) (S.handle c a)
        (fun r t => ∀ w', K w' → le w w' → le t w' →
          J w' r.1 (.handled c w a r.2 w' r.1 :: evs)) w) :
    (Invariant.over K J C).Preserved (env.within K L) where
  crash_of_idle h := ⟨h.1, crash_of_idle h.1 h.2⟩
  boot := by
    rintro w evs b ⟨hboots, _⟩ ⟨hK, hcrash⟩
    refine wp_mono ?_ (wp_lasting hle (hC evs) hK hcrash (boot hboots hK hcrash))
    rintro a t ⟨hpost, hgrow, hKt⟩ w' hrely
    have hafter := hle.rely hrely
    have hK' := kept_of_rely hKt hrely
    exact ⟨hK', hpost w' hK' (hle.trans hgrow hafter) hafter⟩
  handle := by
    rintro w a evs c ⟨haccepts, hL⟩ ⟨hK, hidle⟩
    refine wp_mono ?_ (wp_lasting hle (hC evs) hK (crash_of_idle hK hidle)
      (handle haccepts hL hK hidle))
    rintro r t ⟨hpost, hgrow, hKt⟩ w' hrely
    have hafter := hle.rely hrely
    have hK' := kept_of_rely hKt hrely
    exact ⟨hK', hpost w' hK' (hle.trans hgrow hafter) hafter⟩
  crash := by
    rintro w w' evs ⟨hK, hcrash⟩ ⟨hcrashes, _, hK'⟩
    exact ⟨hK', crash hK' (hC evs _ _ hK hK' (hle.crash hcrashes) hcrash)⟩
  drift_idle := by
    rintro w w' a evs ⟨hK, hidle⟩ ⟨hdrift, _, hK'⟩
    exact ⟨hK', hJ a evs _ _ hK hK' (hle.drift hdrift) hidle⟩
  drift_crash := by
    rintro w w' evs up ⟨hK, hcrash⟩ ⟨hdrift, _, hK'⟩
    exact ⟨hK', hC evs _ _ hK hK' (hle.drift hdrift) hcrash⟩

end Lasting

/-- What others may do while the server waits. -/
def Environment.rely (env : Environment S σ) : σ → σ → Prop :=
  Relation.ReflTransGen (env.drift true)

/-- A run of a program, after which others may still act. -/
def Completes (env : Environment S σ) {α : Type} (task : Task S) (p : Prog Req Ans α) (w : σ)
    (value : α) (w' : σ) : Prop :=
  ∃ t, Runs (env.serve task) env.rely p w value t ∧ env.rely t w'

section Completes

variable {α : Type} {task : Task S} {p : Prog Req Ans α} {w w₁ w' : σ} {value : α}

theorem Completes.drift (hdrift : env.drift true w w₁) (h : Completes env task p w₁ value w') :
    Completes env task p w value w' := by
  obtain ⟨t, hrun, hrely⟩ := h
  cases hrun with
  | ret => exact ⟨w, .ret value w, .head hdrift hrely⟩
  | call others served rest => exact ⟨t, .call (.head hdrift others) served rest, hrely⟩

theorem Completes.call {req : Req} {x : Ans req} {next : Ans req → Prog Req Ans α}
    (hserve : env.serve task w req x w₁) (h : Completes env task (next x) w₁ value w') :
    Completes env task (.call req next) w value w' := by
  obtain ⟨t, hrun, hrely⟩ := h
  exact ⟨t, .call .refl hserve hrun, hrely⟩

end Completes

/-- A start, in a state of the world in which it was allowed. -/
def Started (env : Environment S σ) (init : σ → Prop) (b : S.Boot) (before : σ) : Prop :=
  ∃ events, Reachable env init ⟨before, .down, events⟩ ∧ env.boots before events b

/-- A command that came to an idle server. -/
def Received (env : Environment S σ) (init : σ → Prop) (c : S.Command) (before : σ)
    (a : S.State) : Prop :=
  ∃ events, Reachable env init ⟨before, .idle a, events⟩ ∧ env.accepts before a events c

/-- What the events of a run and its present phase stand for: each start and each
command that has completed was allowed and ran to its end, and the program that
is under way has run so far. -/
structure Traced (env : Environment S σ) (init : σ → Prop) (g : System S σ) : Prop where
  booted : ∀ {b after a}, .booted b after a ∈ g.events → ∃ before, Started env init b before ∧
    Completes env (.boot b) (S.boot b) before a after
  handled : ∀ {c before a outputs after a'}, .handled c before a outputs after a' ∈ g.events →
    Received env init c before a ∧
      Completes env (.command c a) (S.handle c a) before (a', outputs) after
  booting : ∀ {b p}, g.phase = .booting b p → ∃ before, Started env init b before ∧
    ∀ {value after}, Completes env (.boot b) p g.world value after →
      Completes env (.boot b) (S.boot b) before value after
  serving : ∀ {c before a p}, g.phase = .serving c before a p → Received env init c before a ∧
    ∀ {value after}, Completes env (.command c a) p g.world value after →
      Completes env (.command c a) (S.handle c a) before value after

theorem Reachable.traced {g : System S σ} (hreach : Reachable env init g) : Traced env init g := by
  induction hreach with
  | init => exact ⟨nofun, nofun, nofun, nofun⟩
  | step hg hstep ih =>
    cases hstep with
    | boot hboots =>
      refine ⟨ih.booted, ih.handled, ?_, nofun⟩
      rintro b p ⟨⟩
      exact ⟨_, ⟨_, hg, hboots⟩, id⟩
    | bootCall hserve =>
      obtain ⟨before, hstarted, hcompletes⟩ := ih.booting rfl
      refine ⟨ih.booted, ih.handled, ?_, nofun⟩
      rintro b p ⟨⟩
      exact ⟨before, hstarted, fun h => hcompletes (h.call hserve)⟩
    | booted =>
      obtain ⟨before, hstarted, hcompletes⟩ := ih.booting rfl
      refine ⟨fun hmem => ?_, fun hmem => ?_, nofun, nofun⟩
      · rcases List.mem_cons.mp hmem with heq | hmem
        · cases heq
          exact ⟨before, hstarted, hcompletes ⟨_, .ret _ _, .refl⟩⟩
        · exact ih.booted hmem
      · exact ih.handled ((List.mem_cons.mp hmem).resolve_left nofun)
    | receive haccepts =>
      refine ⟨ih.booted, ih.handled, nofun, ?_⟩
      rintro c before a p ⟨⟩
      exact ⟨⟨_, hg, haccepts⟩, id⟩
    | call hserve =>
      obtain ⟨hreceived, hcompletes⟩ := ih.serving rfl
      refine ⟨ih.booted, ih.handled, nofun, ?_⟩
      rintro c before a p ⟨⟩
      exact ⟨hreceived, fun h => hcompletes (h.call hserve)⟩
    | handled =>
      obtain ⟨hreceived, hcompletes⟩ := ih.serving rfl
      refine ⟨fun hmem => ?_, fun hmem => ?_, nofun, nofun⟩
      · exact ih.booted ((List.mem_cons.mp hmem).resolve_left nofun)
      · rcases List.mem_cons.mp hmem with heq | hmem
        · cases heq
          exact ⟨hreceived, hcompletes ⟨_, .ret _ _, .refl⟩⟩
        · exact ih.handled hmem
    | crashIdle | crashBooting | crashServing =>
      exact ⟨fun hmem => ih.booted ((List.mem_cons.mp hmem).resolve_left nofun),
        fun hmem => ih.handled ((List.mem_cons.mp hmem).resolve_left nofun), nofun, nofun⟩
    | driftUp hup hdrift =>
      refine ⟨ih.booted, ih.handled, ?_, ?_⟩
      · rintro b p ⟨⟩
        obtain ⟨before, hstarted, hcompletes⟩ := ih.booting rfl
        exact ⟨before, hstarted, fun h => hcompletes (h.drift hdrift)⟩
      · rintro c before a p ⟨⟩
        obtain ⟨hreceived, hcompletes⟩ := ih.serving rfl
        exact ⟨hreceived, fun h => hcompletes (h.drift hdrift)⟩
    | driftDown => exact ⟨ih.booted, ih.handled, nofun, nofun⟩

/-- What holds at the start and after every crash holds while the server is down. -/
theorem Reachable.down_rule {D : σ → Prop} (hinit : ∀ w, init w → D w)
    (hcrash : ∀ {w w'}, env.crash w w' → D w')
    (hdrift : ∀ {w w'}, D w → env.drift false w w' → D w') {g : System S σ}
    (hreach : Reachable env init g) (hdown : g.phase = .down) : D g.world := by
  induction hreach with
  | init hw => exact hinit _ hw
  | step _ hstep ih =>
    cases hstep with
    | crashIdle h | crashBooting h | crashServing h => exact hcrash h
    | driftDown h => exact hdrift (ih rfl) h
    | driftUp hup h => exact absurd hdown hup
    | boot | bootCall | booted | receive | call | handled => cases hdown

/-- What every start establishes and every command keeps holds of every idle server. -/
theorem Reachable.idle_rule {J : σ → S.State → Prop}
    (hboot : ∀ {b before a after}, Started env init b before →
      Completes env (.boot b) (S.boot b) before a after → J after a)
    (hhandle : ∀ {c before a r after}, Received env init c before a → J before a →
      Completes env (.command c a) (S.handle c a) before r after → J after r.1)
    (hdrift : ∀ {w w' a}, J w a → env.drift true w w' → J w' a) {g : System S σ}
    (hreach : Reachable env init g) :
    match g.phase with
    | .idle a => J g.world a
    | .serving _ before a _ => J before a
    | _ => True := by
  induction hreach with
  | init => trivial
  | step hg hstep ih =>
    cases hstep with
    | booted =>
      obtain ⟨before, hstarted, hcompletes⟩ := hg.traced.booting rfl
      exact hboot hstarted (hcompletes ⟨_, .ret _ _, .refl⟩)
    | receive => exact ih
    | call => exact ih
    | handled =>
      obtain ⟨hreceived, hcompletes⟩ := hg.traced.serving rfl
      exact hhandle hreceived ih (hcompletes ⟨_, .ret _ _, .refl⟩)
    | @driftUp w w' evs ph hup hd =>
      cases ph with
      | idle a => exact hdrift ih hd
      | serving c before a p => exact ih
      | booting b p => trivial
      | down => trivial
    | boot | bootCall | crashIdle | crashBooting | crashServing | driftDown => trivial

/-- A command that the host serves to its end without a pause. -/
theorem Reachable.serves {serve : Serve Req Ans σ} {c : S.Command} {a : S.State} {before w w' : σ}
    {events : List (Event S σ)} {p : Prog Req Ans (S.State × List S.Output)}
    {r : S.State × List S.Output}
    (hserve : ∀ {w req x w'}, serve w req x w' → env.serve (.command c a) w req x w')
    (hrun : Runs serve Eq p w r w') (h : Reachable env init ⟨w, .serving c before a p, events⟩) :
    Reachable env init ⟨w', .serving c before a (.ret r), events⟩ := by
  induction hrun with
  | ret value w => exact h
  | call others served _ ih =>
    subst others
    exact ih (h.step (.call (hserve served)))

/-- What holds of every reachable world holds around each call of the program. -/
theorem Reachable.runs_within {serve : Serve Req Ans σ} {K : σ → Prop} {c : S.Command} {a : S.State}
    {before w w' : σ} {events : List (Event S σ)} {p : Prog Req Ans (S.State × List S.Output)}
    {r : S.State × List S.Output} (hK : ∀ {g}, Reachable env init g → K g.world)
    (hserve : ∀ {w req x w'}, serve w req x w' → env.serve (.command c a) w req x w')
    (hrun : Runs serve Eq p w r w') (h : Reachable env init ⟨w, .serving c before a p, events⟩) :
    Runs (fun w req x w' => serve w req x w' ∧ K w ∧ K w') Eq p w r w' := by
  induction hrun with
  | ret value w => exact .ret value w
  | call others served _ ih =>
    subst others
    have hnext := h.step (.call (hserve served))
    exact .call rfl ⟨served, hK h, hK hnext⟩ (ih hnext)

/-- The same of a command that comes to an idle server. -/
theorem Reachable.handles_within {serve : Serve Req Ans σ} {K : σ → Prop} {c : S.Command}
    {a : S.State} {w w' : σ} {events : List (Event S σ)} {r : S.State × List S.Output}
    (hK : ∀ {g}, Reachable env init g → K g.world)
    (hserve : ∀ {w req x w'}, serve w req x w' → env.serve (.command c a) w req x w')
    (haccepts : env.accepts w a events c) (hrun : Runs serve Eq (S.handle c a) w r w')
    (h : Reachable env init ⟨w, .idle a, events⟩) :
    Runs (fun w req x w' => serve w req x w' ∧ K w ∧ K w') Eq (S.handle c a) w r w' :=
  (h.step (.receive haccepts)).runs_within hK hserve hrun

/-- An idle server has handled a command. -/
theorem Reachable.handles {serve : Serve Req Ans σ} {c : S.Command} {a a' : S.State} {w w' : σ}
    {events : List (Event S σ)} {outputs : List S.Output}
    (hserve : ∀ {w req x w'}, serve w req x w' → env.serve (.command c a) w req x w')
    (haccepts : env.accepts w a events c) (hrun : Runs serve Eq (S.handle c a) w (a', outputs) w')
    (h : Reachable env init ⟨w, .idle a, events⟩) :
    Reachable env init ⟨w', .idle a', .handled c w a outputs w' a' :: events⟩ :=
  ((h.step (.receive haccepts)).serves hserve hrun).step .handled

/-- What a phase says when every program keeps `P`, whatever the host answers. -/
def Phase.Keeps (allowed : S.Command → S.State → Req → Prop) (P : S.State → Prop) :
    Phase S σ → Prop
  | .down => True
  | .booting _ p => p.Always (fun _ => True) P
  | .idle a => P a
  | .serving c _ a p => P a ∧ p.Always (allowed c a) fun r => P r.1

/-- A property of the memory that every program keeps, whatever the host answers. -/
theorem Reachable.keeps {allowed : S.Command → S.State → Req → Prop} {P : S.State → Prop}
    (hboot : ∀ b, (S.boot b).Always (fun _ => True) P)
    (hhandle : ∀ c a, P a → (S.handle c a).Always (allowed c a) fun r => P r.1)
    {g : System S σ} (hreach : Reachable env init g) : g.phase.Keeps allowed P := by
  induction hreach with
  | init => trivial
  | step _ hstep ih =>
    cases hstep with
    | boot => exact hboot _
    | bootCall => exact ih.2 _
    | booted => exact ih
    | receive => exact ⟨ih, hhandle _ _ ih⟩
    | call => exact ⟨ih.1, ih.2.2 _⟩
    | handled => exact ih.2
    | crashIdle | crashBooting | crashServing => trivial
    | driftUp => exact ih
    | driftDown => trivial

/-- The call at which a program waits is one of `mine`. -/
def Phase.Asks (mine : Req → Prop) : Phase S σ → Prop
  | .booting _ (.call req _) => mine req
  | .serving _ _ _ (.call req _) => mine req
  | _ => True

/-- A program that makes only calls of its own asks for what is its own. -/
theorem Phase.asks_booting {mine : Req → Prop} {b : S.Boot} {p : Prog Req Ans S.State}
    {post : S.State → Prop} (h : p.Always mine post) :
    (Phase.booting b p : Phase S σ).Asks mine := by
  cases p with
  | ret value => trivial
  | call req next => exact h.1

theorem Phase.asks_serving {mine : Req → Prop} {c : S.Command} {before : σ} {a : S.State}
    {p : Prog Req Ans (S.State × List S.Output)} {post : S.State × List S.Output → Prop}
    (h : p.Always mine post) : (Phase.serving c before a p : Phase S σ).Asks mine := by
  cases p with
  | ret value => trivial
  | call req next => exact h.1

/-- What a phase says when every program keeps `P` and makes only calls of its own. -/
def Phase.Stays (mine : Req → Prop) (P : S.State → Prop) : Phase S σ → Prop
  | .down => True
  | .booting _ p => p.Always mine P
  | .idle a => P a
  | .serving _ _ _ p => p.Always mine fun r => P r.1

theorem Phase.Stays.asks {mine : Req → Prop} {P : S.State → Prop} {ph : Phase S σ}
    (h : ph.Stays mine P) : ph.Asks mine := by
  cases ph with
  | down => trivial
  | booting b p => exact Phase.asks_booting h
  | idle a => trivial
  | serving c before a p => exact Phase.asks_serving h

/-- Programs that make only calls of their own, from a memory that satisfies `P`. -/
theorem Reachable.stays {mine : Req → Prop} {P : S.State → Prop}
    (hboot : ∀ b, (S.boot b).Always mine P)
    (hhandle : ∀ c a, P a → (S.handle c a).Always mine fun r => P r.1) {g : System S σ}
    (hreach : Reachable env init g) : g.phase.Stays mine P := by
  induction hreach with
  | init => trivial
  | step _ hstep ih =>
    cases hstep with
    | boot => exact hboot _
    | bootCall => exact ih.2 _
    | booted => exact ih
    | receive => exact hhandle _ _ ih
    | call => exact ih.2 _
    | handled => exact ih
    | crashIdle | crashBooting | crashServing => trivial
    | driftUp => exact ih
    | driftDown => trivial

/-- A start that the host serves to its end without a pause. -/
theorem Reachable.starts {serve : Serve Req Ans σ} {b : S.Boot} {a : S.State} {w w' : σ}
    {events : List (Event S σ)}
    (hserve : ∀ {w req x w'}, serve w req x w' → env.serve (.boot b) w req x w')
    (hboots : env.boots w events b) (hrun : Runs serve Eq (S.boot b) w a w')
    (h : Reachable env init ⟨w, .down, events⟩) :
    Reachable env init ⟨w', .idle a, .booted b w' a :: events⟩ := by
  have hbooting := h.step (.boot hboots)
  clear h hboots
  generalize S.boot b = p at hrun hbooting
  induction hrun with
  | ret value w => exact hbooting.step .booted
  | call others served _ ih =>
    subst others
    exact ih (hbooting.step (.bootCall (hserve served)))

/-- A run in a smaller environment is a run in a larger one. -/
theorem Reachable.mono {env' : Environment S σ} {init' : σ → Prop}
    (hserve : ∀ t s req x s', env.serve t s req x s' → env'.serve t s req x s')
    (hdrift : ∀ up s s', env.drift up s s' → env'.drift up s s')
    (hboots : ∀ w evs b, env.boots w evs b → env'.boots w evs b)
    (haccepts : ∀ w a evs c, env.accepts w a evs c → env'.accepts w a evs c)
    (hcrash : ∀ w w', env.crash w w' → env'.crash w w')
    (hinit : ∀ w, init w → init' w) {g : System S σ} (hreach : Reachable env init g) :
    Reachable env' init' g := by
  induction hreach with
  | init hw => exact .init (hinit _ hw)
  | step _ hstep ih =>
    refine .step ih ?_
    cases hstep with
    | boot h => exact .boot (hboots _ _ _ h)
    | bootCall h => exact .bootCall (hserve _ _ _ _ _ h)
    | booted => exact .booted
    | receive h => exact .receive (haccepts _ _ _ _ h)
    | call h => exact .call (hserve _ _ _ _ _ h)
    | handled => exact .handled
    | crashIdle h => exact .crashIdle (hcrash _ _ h)
    | crashBooting h => exact .crashBooting (hcrash _ _ h)
    | crashServing h => exact .crashServing (hcrash _ _ h)
    | driftUp hup h => exact .driftUp hup (hdrift _ _ _ h)
    | driftDown h => exact .driftDown (hdrift _ _ _ h)

/-- What is assumed of every step may be forgotten. -/
theorem Reachable.of_within {K : σ → Prop} {L : σ → S.State → Prop} {g : System S σ}
    (hreach : Reachable (env.within K L) init g) : Reachable env init g := by
  refine hreach.mono ?_ ?_ ?_ ?_ ?_ ?_
  · exact fun _ _ _ _ _ h => h.1
  · exact fun _ _ _ h => h.1
  · exact fun _ _ _ h => h.1
  · exact fun _ _ _ _ h => h.1
  · exact fun _ _ h => h.1
  · exact fun _ h => h

end Server

end CrashLogic
