import LoroGateway.Lib.Server

/-!
# Calls that are programs of a lower layer

A server makes calls of one kind, and each of these calls is itself a program that
makes calls of another kind, against a host below.  `Prog.layered` puts the programs
of the lower layer in the place of the calls, and `Server.layered` does so with all
programs of a server.

* `Called` is a call of the upper layer that takes effect at once, with what others
  do before and after it.
* `Carries` says that a lower layer carries the calls of an upper one: the program
  of a call has at every moment either done nothing or what the call does at once,
  and it ends with the answer of the call.
* `Reachable.carried` is the rule of the module: whatever a server reaches over the
  lower layer, with a crash at any point between two calls there, it reaches over
  the upper one.
-/

namespace CrashLogic

variable {Req Req' : Type} {Ans : Req → Type} {Ans' : Req' → Type} {α β σ τ : Type}

namespace Prog

/-- The program whose calls are programs of another layer. -/
def layered (impl : ∀ req, Prog Req' Ans' (Ans req)) : Prog Req Ans α → Prog Req' Ans' α
  | ret value => ret value
  | call req next => (impl req).bind fun x => (next x).layered impl

end Prog

/-- A call that takes effect at once, while others act before and after it. -/
def Called (serve : Serve Req Ans σ) (rely : σ → σ → Prop) (w : σ) (req : Req) (x : Ans req)
    (w' : σ) : Prop :=
  ∃ u v, rely w u ∧ serve u req x v ∧ rely v w'

namespace Server

/-- A server whose calls are programs of another layer. -/
@[reducible]
def layered (S : Server Req Ans) (impl : ∀ req, Prog Req' Ans' (Ans req)) : Server Req' Ans' where
  State := S.State
  Command := S.Command
  Output := S.Output
  Boot := S.Boot
  boot b := (S.boot b).layered impl
  handle c a := (S.handle c a).layered impl

variable {S : Server Req Ans} {impl : ∀ req, Prog Req' Ans' (Ans req)}

def Task.layered (impl : ∀ req, Prog Req' Ans' (Ans req)) : Task S → Task (S.layered impl)
  | .boot b => .boot b
  | .command c a => .command c a

/-- The same event in two layers. -/
inductive Event.Like (R : σ → τ → Prop) : Event (S.layered impl) σ → Event S τ → Prop
  | booted {b : S.Boot} {after : σ} {after' : τ} {a : S.State} (h : R after after') :
      Like R (.booted b after a) (.booted b after' a)
  | handled {c : S.Command} {before after : σ} {before' after' : τ} {a a' : S.State}
      {outputs : List S.Output} (h : R before before') (h' : R after after') :
      Like R (.handled c before a outputs after a') (.handled c before' a outputs after' a')
  | crashed : Like R .crashed .crashed

/-- The same phase in two layers.  Nothing is said of a program that is under way. -/
inductive Phase.Like (R : σ → τ → Prop) : Phase (S.layered impl) σ → Phase S τ → Prop
  | down : Like R .down .down
  | booting (b : S.Boot) (q : Prog Req' Ans' S.State) (p : Prog Req Ans S.State) :
      Like R (.booting b q) (.booting b p)
  | idle (a : S.State) : Like R (.idle a) (.idle a)
  | serving {c : S.Command} {before : σ} {before' : τ} {a : S.State} (h : R before before')
      (q : Prog Req' Ans' (S.State × List S.Output)) (p : Prog Req Ans (S.State × List S.Output)) :
      Like R (.serving c before a q) (.serving c before' a p)

/-- The same state in two layers. -/
structure System.Like (R : σ → τ → Prop) (g : System (S.layered impl) σ) (g' : System S τ) : Prop where
  world : R g.world g'.world
  phase : Phase.Like R g.phase g'.phase
  events : List.Forall₂ (Event.Like R) g.events g'.events

/-- What may have become of the upper world since a call was submitted in `w`: nothing
but what others did, or the call has taken effect with some answer. -/
def Within (env : Environment S τ) (R : σ → τ → Prop) (task : Task S) (w : τ) (req : Req)
    (n : σ) : Prop :=
  ∃ w', R n w' ∧ (env.rely w w' ∨ ∃ x, Called (env.serve task) env.rely w req x w')

/-- What is known of the upper world when a call is over. -/
def After (env : Environment S τ) (R : σ → τ → Prop) (task : Task S) (w : τ) (req : Req)
    (x : Ans req) (n : σ) : Prop :=
  ∃ w', R n w' ∧ Called (env.serve task) env.rely w req x w'

/-- Nothing has become of the upper world since a call was submitted in `w` but what
others did. -/
def Pending (env : Environment S τ) (R : σ → τ → Prop) (w : τ) (n : σ) : Prop :=
  ∃ w', R n w' ∧ env.rely w w'

/-- The contract of the program of a call. -/
def callContract (low : Environment (S.layered impl) σ) (inv : σ → Prop) : Contract σ where
  inv := inv
  rely := low.rely
  guar _ _ := True
  rely_refl _ := Relation.ReflTransGen.refl
  rely_trans := Relation.ReflTransGen.trans

/-- The lower layer carries the calls `mine` of the upper one.  `R` relates the worlds. -/
structure Carries (low : Environment (S.layered impl) σ) (env : Environment S τ) (R : σ → τ → Prop)
    (mine : Req → Prop) : Prop where
  call : ∀ {task n w req}, mine req → R n w →
    wp (low.serve (Task.layered impl task)) (callContract low (Within env R task w req)) (impl req)
      (After env R task w req) n
  drift : ∀ {up n n' w}, R n w → low.drift up n n' →
    ∃ w', Relation.ReflTransGen (env.drift up) w w' ∧ R n' w'
  boots : ∀ {n w events events' b}, R n w → low.boots n events' b → env.boots w events b
  accepts : ∀ {n w a events events' c}, R n w → low.accepts n a events' c → env.accepts w a events c
  crash : ∀ {n n' w}, R n w → low.crash n n' → ∃ w', env.crash w w' ∧ R n' w'

variable {low : Environment (S.layered impl) σ} {env : Environment S τ} {R : σ → τ → Prop}
  {mine : Req → Prop} {task : Task S} {req : Req} {n n' : σ} {w w' : τ}

theorem Pending.within (h : Pending env R w n) : Within env R task w req n := by
  obtain ⟨w', hR, hothers⟩ := h
  exact ⟨w', hR, .inl hothers⟩

theorem After.within {x : Ans req} (h : After env R task w req x n) :
    Within env R task w req n := by
  obtain ⟨w', hR, hcalled⟩ := h
  exact ⟨w', hR, .inr ⟨x, hcalled⟩⟩

/-- The call takes effect now. -/
theorem Pending.after (h : Pending env R w n) {x : Ans req}
    (hserve : ∀ w', R n w' → ∃ w'', env.serve task w' req x w'' ∧ R n' w'') :
    After env R task w req x n' := by
  obtain ⟨w', hR, hothers⟩ := h
  obtain ⟨w'', hserve', hR'⟩ := hserve w' hR
  exact ⟨w'', hR', w', w'', hothers, hserve', .refl⟩

/-- What others do in the lower layer, others do in the upper one. -/
theorem rely_of_drift
    (hdrift : ∀ {up n n' w}, R n w → low.drift up n n' →
      ∃ w', Relation.ReflTransGen (env.drift up) w w' ∧ R n' w')
    (hR : R n w) (hrely : low.rely n n') : ∃ w', env.rely w w' ∧ R n' w' := by
  induction hrely with
  | refl => exact ⟨w, .refl, hR⟩
  | tail _ hlast ih =>
    obtain ⟨w₁, hfront, hR₁⟩ := ih
    obtain ⟨w₂, hback, hR₂⟩ := hdrift hR₁ hlast
    exact ⟨w₂, hfront.trans hback, hR₂⟩

theorem called_rely {serve : Serve Req Ans τ} {x : Ans req}
    (h : Called serve env.rely w req x w') {w'' : τ} (hrely : env.rely w' w'') :
    Called serve env.rely w req x w'' := by
  obtain ⟨u, v, hbefore, hserve, hafter⟩ := h
  exact ⟨u, v, hbefore, hserve, hafter.trans hrely⟩

theorem Carries.rely (h : Carries low env R mine) (hR : R n w) (hrely : low.rely n n') :
    ∃ w', env.rely w w' ∧ R n' w' :=
  rely_of_drift h.drift hR hrely

theorem Carries.within_rely (h : Carries low env R mine) (hn : Within env R task w req n)
    (hrely : low.rely n n') : Within env R task w req n' := by
  obtain ⟨w₁, hR, hw⟩ := hn
  obtain ⟨w₂, hrely', hR'⟩ := h.rely hR hrely
  refine ⟨w₂, hR', ?_⟩
  rcases hw with hothers | ⟨x, hcalled⟩
  · exact .inl (hothers.trans hrely')
  · exact .inr ⟨x, called_rely hcalled hrely'⟩

theorem Carries.after_rely (h : Carries low env R mine) {x : Ans req}
    (hn : After env R task w req x n) (hrely : low.rely n n') : After env R task w req x n' := by
  obtain ⟨w₁, hR, hcalled⟩ := hn
  obtain ⟨w₂, hrely', hR'⟩ := h.rely hR hrely
  exact ⟨w₂, hR', called_rely hcalled hrely'⟩

/-- At every point of the program of a call. -/
theorem Carries.leads (h : Carries low env R mine) (hmine : mine req) (hR : R n w)
    {q : Prog Req' Ans' (Ans req)}
    (hleads : Leads (low.serve (Task.layered impl task)) low.rely (impl req) n q n') :
    Within env R task w req n' ∧
      wp (low.serve (Task.layered impl task)) (callContract low (Within env R task w req)) q
        (After env R task w req) n' := by
  apply Leads.sound (c := callContract low (Within env R task w req)) hleads
  · exact fun _ _ hn hrely => h.within_rely hn hrely
  · exact fun x _ _ hn hrely => h.after_rely hn hrely
  · exact ⟨w, hR, .inl .refl⟩
  · exact h.call hmine hR

/-- How a program stands over the lower layer when it stands at `p` over the upper one.
The call in which it is under way was submitted when the lower world was `n₀`. -/
inductive Follows {α : Type} (low : Environment (S.layered impl) σ) (R : σ → τ → Prop) (task : Task S) :
    Prog Req' Ans' α → σ → Prog Req Ans α → τ → Prop
  | done {value : α} {n : σ} {w : τ} (hR : R n w) :
      Follows low R task (.ret value) n (.ret value) w
  | within {n n₀ : σ} {w : τ} {req : Req} {next : Ans req → Prog Req Ans α} {r : Req'}
      {rest : Ans' r → Prog Req' Ans' (Ans req)} (hR : R n₀ w)
      (hleads : Leads (low.serve (Task.layered impl task)) low.rely (impl req) n₀ (.call r rest) n) :
      Follows low R task (.call r fun y => (rest y).bind fun x => (next x).layered impl) n
        (.call req next) w

/-- A way for a program to stand in a world of the upper layer, which others and the
calls of the program keep. -/
structure Standing {α : Type} (env : Environment S τ) (mine : Req → Prop) (task : Task S)
    (A : Prog Req Ans α → τ → Prop) : Prop where
  rely : ∀ {p w w'}, A p w → env.rely w w' → A p w'
  call : ∀ {req next w x w'}, A (.call req next) w → env.serve task w req x w' → A (next x) w'
  mine : ∀ {req next w}, A (.call req next) w → mine req

section CatchUp

variable {α : Type} {A : Prog Req Ans α → τ → Prop} {p : Prog Req Ans α}

theorem Standing.called (hA : Standing env mine task A) {next : Ans req → Prog Req Ans α}
    {x : Ans req} (h : A (.call req next) w) (hcalled : Called (env.serve task) env.rely w req x w') :
    A (next x) w' := by
  obtain ⟨u, v, hbefore, hserve, hafter⟩ := hcalled
  exact hA.rely (hA.call (hA.rely h hbefore) hserve) hafter

/-- Calls whose programs make no call of their own are over at once. -/
theorem Carries.catch_up (h : Carries low env R mine) (hA : Standing env mine task A) (hp : A p w)
    (hR : R n w) : ∃ p' w', A p' w' ∧ Follows low R task (p.layered impl) n p' w' := by
  induction p generalizing w with
  | ret value => exact ⟨_, w, hp, .done hR⟩
  | call req next ih =>
    cases himpl : impl req with
    | call r rest =>
      refine ⟨_, w, hp, ?_⟩
      show Follows low R task ((impl req).bind _) n _ w
      rw [himpl]
      refine .within hR ?_
      rw [himpl]
      exact .refl _ _
    | ret x =>
      have hsafe : wp (low.serve (Task.layered impl task)) _ (impl req) _ n :=
        h.call (hA.mine hp) hR
      rw [himpl] at hsafe
      obtain ⟨w', hR', hcalled⟩ := hsafe
      obtain ⟨p', w'', hp', hfollows⟩ := ih x (hA.called hp hcalled) hR'
      refine ⟨p', w'', hp', ?_⟩
      show Follows low R task ((impl req).bind _) n p' w''
      rw [himpl]
      exact hfollows

/-- One call of the lower layer. -/
theorem Carries.follow_call (h : Carries low env R mine) (hA : Standing env mine task A) {r : Req'}
    {rest : Ans' r → Prog Req' Ans' α} {y : Ans' r} (hp : A p w)
    (hfollows : Follows low R task (.call r rest) n p w)
    (hserve : low.serve (Task.layered impl task) n r y n') :
    ∃ p' w', A p' w' ∧ Follows low R task (rest y) n' p' w' := by
  cases hfollows with
  | @within _ n₀ _ req next _ rest hR hleads =>
    have hnext := hleads.call hserve
    dsimp only
    cases hrest : rest y with
    | call r' rest' =>
      rw [hrest] at hnext
      exact ⟨_, w, hp, .within hR hnext⟩
    | ret x =>
      rw [hrest] at hnext
      obtain ⟨w', hR', hcalled⟩ := (h.leads (hA.mine hp) hR hnext).2
      exact h.catch_up hA (hA.called hp hcalled) hR'

/-- What others do in the lower layer. -/
theorem Carries.follow_rely (h : Carries low env R mine) (hA : Standing env mine task A)
    {q : Prog Req' Ans' α} (hp : A p w) (hfollows : Follows low R task q n p w)
    (hothers : low.rely n n') : ∃ w', A p w' ∧ Follows low R task q n' p w' := by
  cases hfollows with
  | done hR =>
    obtain ⟨w', hrely', hR'⟩ := h.rely hR hothers
    exact ⟨w', hA.rely hp hrely', .done hR'⟩
  | within hR hleads => exact ⟨w, hp, .within hR (hleads.others hothers)⟩

/-- The upper layer can be at the present world of the lower one. -/
theorem Carries.present (h : Carries low env R mine) (hA : Standing env mine task A)
    {q : Prog Req' Ans' α} (hp : A p w) (hfollows : Follows low R task q n p w) :
    ∃ p' w', A p' w' ∧ R n w' := by
  cases hfollows with
  | done hR => exact ⟨_, w, hp, hR⟩
  | within hR hleads =>
    obtain ⟨w', hR', hothers | ⟨x, hcalled⟩⟩ := (h.leads (hA.mine hp) hR hleads).1
    · exact ⟨_, w', hA.rely hp hothers, hR'⟩
    · exact ⟨_, w', hA.called hp hcalled, hR'⟩

end CatchUp

/-- A state of the lower layer, with the state of the upper one that it has come to. -/
inductive Carried (low : Environment (S.layered impl) σ) (env : Environment S τ) (R : σ → τ → Prop)
    (init : τ → Prop) : System (S.layered impl) σ → Prop
  | down {n : σ} {w : τ} {events : List (Event (S.layered impl) σ)} {events' : List (Event S τ)}
      (hR : R n w) (hevents : List.Forall₂ (Event.Like R) events events')
      (hreach : Reachable env init ⟨w, .down, events'⟩) : Carried low env R init ⟨n, .down, events⟩
  | booting {n : σ} {w : τ} {events : List (Event (S.layered impl) σ)} {events' : List (Event S τ)}
      {b : S.Boot} {q : Prog Req' Ans' S.State} {p : Prog Req Ans S.State}
      (hfollows : Follows low R (.boot b) q n p w)
      (hevents : List.Forall₂ (Event.Like R) events events')
      (hreach : Reachable env init ⟨w, .booting b p, events'⟩) :
      Carried low env R init ⟨n, .booting b q, events⟩
  | idle {n : σ} {w : τ} {events : List (Event (S.layered impl) σ)} {events' : List (Event S τ)}
      {a : S.State} (hR : R n w) (hevents : List.Forall₂ (Event.Like R) events events')
      (hreach : Reachable env init ⟨w, .idle a, events'⟩) :
      Carried low env R init ⟨n, .idle a, events⟩
  | serving {n before : σ} {w before' : τ} {events : List (Event (S.layered impl) σ)}
      {events' : List (Event S τ)} {c : S.Command} {a : S.State}
      {q : Prog Req' Ans' (S.State × List S.Output)} {p : Prog Req Ans (S.State × List S.Output)}
      (hbefore : R before before') (hfollows : Follows low R (.command c a) q n p w)
      (hevents : List.Forall₂ (Event.Like R) events events')
      (hreach : Reachable env init ⟨w, .serving c before' a p, events'⟩) :
      Carried low env R init ⟨n, .serving c before a q, events⟩

section Runs

variable {init : τ → Prop} {events : List (Event S τ)}

theorem Reachable.drifts {ph : Phase S τ} (hup : ph ≠ .down)
    (h : Reachable env init ⟨w, ph, events⟩) (hrely : env.rely w w') :
    Reachable env init ⟨w', ph, events⟩ := by
  induction hrely with
  | refl => exact h
  | tail _ hlast ih => exact ih.step (.driftUp hup hlast)

theorem Reachable.drifts_down (h : Reachable env init ⟨w, .down, events⟩)
    (hdrift : Relation.ReflTransGen (env.drift false) w w') :
    Reachable env init ⟨w', .down, events⟩ := by
  induction hdrift with
  | refl => exact h
  | tail _ hlast ih => exact ih.step (.driftDown hlast)

variable (hasks : ∀ {g : System S τ}, Reachable env init g → g.phase.Asks mine)

include hasks

theorem standing_booting (b : S.Boot) (events : List (Event S τ)) :
    Standing env mine (.boot b) fun p w => Reachable env init ⟨w, .booting b p, events⟩ where
  rely h hrely := h.drifts nofun hrely
  call h hserve := h.step (.bootCall hserve)
  mine h := hasks h

theorem standing_serving (c : S.Command) (before : τ) (a : S.State) (events : List (Event S τ)) :
    Standing env mine (.command c a) fun p w =>
      Reachable env init ⟨w, .serving c before a p, events⟩ where
  rely h hrely := h.drifts nofun hrely
  call h hserve := h.step (.call hserve)
  mine h := hasks h

/-- One step of the lower layer. -/
theorem Carries.step (h : Carries low env R mine) {g g' : System (S.layered impl) σ}
    (hg : Carried low env R init g) (hstep : Step low g g') : Carried low env R init g' := by
  cases hstep with
  | boot hboots =>
    cases hg with
    | down hR hevents hreach =>
      have hbooting := hreach.step (.boot (h.boots hR hboots))
      obtain ⟨p, w, hp, hfollows⟩ := h.catch_up (standing_booting hasks _ _) hbooting hR
      exact .booting hfollows hevents hp
  | bootCall hserve =>
    cases hg with
    | booting hfollows hevents hreach =>
      obtain ⟨p, w, hp, hfollows⟩ :=
        h.follow_call (standing_booting hasks _ _) hreach hfollows hserve
      exact .booting hfollows hevents hp
  | booted =>
    cases hg with
    | booting hfollows hevents hreach =>
      cases hfollows with
      | done hR => exact .idle hR (.cons (.booted hR) hevents) (hreach.step .booted)
  | receive haccepts =>
    cases hg with
    | idle hR hevents hreach =>
      have hserving := hreach.step (.receive (h.accepts hR haccepts))
      obtain ⟨p, w, hp, hfollows⟩ := h.catch_up (standing_serving hasks _ _ _ _) hserving hR
      exact .serving hR hfollows hevents hp
  | call hserve =>
    cases hg with
    | serving hbefore hfollows hevents hreach =>
      obtain ⟨p, w, hp, hfollows⟩ :=
        h.follow_call (standing_serving hasks _ _ _ _) hreach hfollows hserve
      exact .serving hbefore hfollows hevents hp
  | handled =>
    cases hg with
    | serving hbefore hfollows hevents hreach =>
      cases hfollows with
      | done hR => exact .idle hR (.cons (.handled hbefore hR) hevents) (hreach.step .handled)
  | crashIdle hcrash =>
    cases hg with
    | idle hR hevents hreach =>
      obtain ⟨w', hcrash', hR'⟩ := h.crash hR hcrash
      exact .down hR' (.cons .crashed hevents) (hreach.step (.crashIdle hcrash'))
  | crashBooting hcrash =>
    cases hg with
    | booting hfollows hevents hreach =>
      obtain ⟨p, w, hp, hR⟩ := h.present (standing_booting hasks _ _) hreach hfollows
      obtain ⟨w', hcrash', hR'⟩ := h.crash hR hcrash
      exact .down hR' (.cons .crashed hevents) (hp.step (.crashBooting hcrash'))
  | crashServing hcrash =>
    cases hg with
    | serving hbefore hfollows hevents hreach =>
      obtain ⟨p, w, hp, hR⟩ := h.present (standing_serving hasks _ _ _ _) hreach hfollows
      obtain ⟨w', hcrash', hR'⟩ := h.crash hR hcrash
      exact .down hR' (.cons .crashed hevents) (hp.step (.crashServing hcrash'))
  | driftUp hup hdrift =>
    cases hg with
    | down => exact absurd rfl hup
    | booting hfollows hevents hreach =>
      obtain ⟨w', hp, hfollows⟩ :=
        h.follow_rely (standing_booting hasks _ _) hreach hfollows (.single hdrift)
      exact .booting hfollows hevents hp
    | idle hR hevents hreach =>
      obtain ⟨w', hrely, hR'⟩ := h.drift hR hdrift
      exact .idle hR' hevents (hreach.drifts nofun hrely)
    | serving hbefore hfollows hevents hreach =>
      obtain ⟨w', hp, hfollows⟩ :=
        h.follow_rely (standing_serving hasks _ _ _ _) hreach hfollows (.single hdrift)
      exact .serving hbefore hfollows hevents hp
  | driftDown hdrift =>
    cases hg with
    | down hR hevents hreach =>
      obtain ⟨w', hrely, hR'⟩ := h.drift hR hdrift
      exact .down hR' hevents (hreach.drifts_down hrely)

/-- A carried state is like one of the upper layer, also between two calls. -/
theorem Carries.like (h : Carries low env R mine) {g : System (S.layered impl) σ}
    (hg : Carried low env R init g) : ∃ g', Reachable env init g' ∧ System.Like R g g' := by
  cases hg with
  | down hR hevents hreach => exact ⟨_, hreach, hR, .down, hevents⟩
  | booting hfollows hevents hreach =>
    obtain ⟨p, w, hp, hR⟩ := h.present (standing_booting hasks _ _) hreach hfollows
    exact ⟨_, hp, hR, .booting _ _ _, hevents⟩
  | idle hR hevents hreach => exact ⟨_, hreach, hR, .idle _, hevents⟩
  | serving hbefore hfollows hevents hreach =>
    obtain ⟨p, w, hp, hR⟩ := h.present (standing_serving hasks _ _ _ _) hreach hfollows
    exact ⟨_, hp, hR, .serving hbefore _ _, hevents⟩

/-- What a server reaches over the lower layer, it reaches over the upper one. -/
theorem Reachable.carried (h : Carries low env R mine) {start : σ → Prop}
    (hstart : ∀ {n}, start n → ∃ w, init w ∧ R n w) {g : System (S.layered impl) σ}
    (hreach : Reachable low start g) : ∃ g', Reachable env init g' ∧ System.Like R g g' := by
  apply h.like hasks
  induction hreach with
  | init hn =>
    obtain ⟨w, hw, hR⟩ := hstart hn
    exact .down hR .nil (.init hw)
  | step _ hstep ih => exact h.step hasks ih hstep

end Runs

end Server

/-- The other direction: where the lower layer can answer what the upper one answers, it
runs a program to the same end. -/
theorem Runs.layered {impl : ∀ req, Prog Req' Ans' (Ans req)} {serve : Serve Req Ans τ}
    {low : Serve Req' Ans' σ} {R : σ → τ → Prop} {mine : Req → Prop} {post : α → Prop}
    {p : Prog Req Ans α} {w w' : τ} {value : α} {n : σ} (hrun : Runs serve Eq p w value w')
    (hcall : ∀ {n w req x w'}, mine req → R n w → serve w req x w' →
      ∃ n', Runs low Eq (impl req) n x n' ∧ R n' w')
    (hp : p.Always mine post) (hR : R n w) :
    ∃ n', Runs low Eq (p.layered impl) n value n' ∧ R n' w' := by
  induction hrun generalizing n with
  | ret value w => exact ⟨n, .ret value n, hR⟩
  | call others served _ ih =>
    subst others
    obtain ⟨n₁, hfirst, hR₁⟩ := hcall hp.1 hR served
    obtain ⟨n₂, hrest, hR₂⟩ := ih (hp.2 _) hR₁
    exact ⟨n₂, hfirst.bind hrest, hR₂⟩

end CrashLogic
