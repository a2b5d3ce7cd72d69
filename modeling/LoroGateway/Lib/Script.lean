import LoroGateway.Lib.Pool
import LoroGateway.Lib.Server

/-!
# Scripted runs

A relation says what may happen; a script says what does.  `Director` turns the
choices of a script into steps of an environment, and each field comes with the
proof that the environment allows the step.  A run of a script is a computation,
so a property of the state in which it ends can be evaluated, and the state is
reachable (`Director.exists_of_run`).
-/

namespace CrashLogic

variable {Req : Type} {Ans : Req → Type} {σ κ δ α : Type}

/-- A host that follows a script: each call comes with a choice. -/
abbrev Host (Req : Type) (Ans : Req → Type) (σ κ : Type) : Type :=
  κ → σ → (req : Req) → Option (Ans req × σ)

/-- Serve the next calls of a program as a script says. -/
def Prog.play (host : Host Req Ans σ κ) : List κ → Prog Req Ans α → σ → Option (Prog Req Ans α × σ)
  | [], p, s => some (p, s)
  | _ :: _, .ret _, _ => none
  | choice :: choices, .call req next, s =>
    match host choice s req with
    | none => none
    | some (x, t) => play host choices (next x) t

/-- A property that one call preserves is preserved by a script. -/
theorem Prog.play_induction {host : Host Req Ans σ κ} {motive : Prog Req Ans α → σ → Prop}
    (hcall : ∀ {req next s choice x t}, host choice s req = some (x, t) →
      motive (.call req next) s → motive (next x) t)
    {choices : List κ} {p p' : Prog Req Ans α} {s s' : σ}
    (hplay : p.play host choices s = some (p', s')) (h : motive p s) : motive p' s' := by
  induction choices generalizing p s with
  | nil =>
    cases hplay
    exact h
  | cons choice choices ih =>
    cases p with
    | ret value => cases hplay
    | call req next =>
      rw [Prog.play] at hplay
      split at hplay
      · cases hplay
      · rename_i x t hhost
        exact ih hplay (hcall hhost h)

/-- A program that a script serves to its end. -/
theorem Runs.of_play {host : Host Req Ans σ κ} {serve : Serve Req Ans σ}
    (hserve : ∀ choice s req x t, host choice s req = some (x, t) → serve s req x t)
    {choices : List κ} {p : Prog Req Ans α} {value : α} {s t : σ}
    (hplay : p.play host choices s = some (.ret value, t)) : Runs serve Eq p s value t := by
  induction choices generalizing p s with
  | nil =>
    cases hplay
    exact .ret value t
  | cons choice choices ih =>
    cases p with
    | ret value => cases hplay
    | call req next =>
      rw [Prog.play] at hplay
      split at hplay
      · cases hplay
      · rename_i x t₁ hhost
        exact .call rfl (hserve _ _ _ _ _ hhost) (ih hplay)

namespace Pool

variable {ι : Type} {serve : Serve Req Ans σ} {drift : σ → σ → Prop} {program : ι → Prog Req Ans α}
  {init : σ → Prop} {host : Host Req Ans σ κ}

/-- A program of a pool that is served by a script. -/
theorem Reachable.play
    (hserve : ∀ choice w req x w', host choice w req = some (x, w') → serve w req x w')
    {choices : List κ} {i : ι} {p p' : Prog Req Ans α} {w w' : σ}
    {before after : List (ι × Prog Req Ans α)} {finished : List (ι × α)}
    (hplay : p.play host choices w = some (p', w'))
    (h : Reachable serve drift program init ⟨w, before ++ (i, p) :: after, finished⟩) :
    Reachable serve drift program init ⟨w', before ++ (i, p') :: after, finished⟩ :=
  Prog.play_induction (motive := fun p w =>
    Reachable serve drift program init ⟨w, before ++ (i, p) :: after, finished⟩)
    (fun hhost h => .step h (.call (hserve _ _ _ _ _ hhost))) hplay h

/-- Two programs that race: the second one runs between two calls of the first. -/
def race (host : Host Req Ans σ κ) (early whole late : List κ) (p q : Prog Req Ans α) (w : σ) :
    Option (α × α × σ) :=
  match p.play host early w with
  | none => none
  | some (p', w₁) =>
    match q.play host whole w₁ with
    | some (.ret second, w₂) =>
      match p'.play host late w₂ with
      | some (.ret first, w₃) => some (first, second, w₃)
      | _ => none
    | _ => none

theorem Reachable.race
    (hserve : ∀ choice w req x w', host choice w req = some (x, w') → serve w req x w')
    {early whole late : List κ} {i j : ι} {first second : α} {w w' : σ}
    (hrace : race host early whole late (program i) (program j) w = some (first, second, w'))
    (hinit : init w) :
    Reachable serve drift program init ⟨w', [], [(i, first), (j, second)]⟩ := by
  rw [Pool.race] at hrace
  split at hrace
  · cases hrace
  rename_i p w₁ hearly
  split at hrace
  · rename_i w₂ hwhole
    split at hrace
    · rename_i w₃ hlate
      cases hrace
      have hstart : Reachable serve drift program init ⟨w, [] ++ (i, program i) :: [], []⟩ :=
        .step (.init hinit) (.start i)
      have hfirst := hstart.play hserve hearly
      have hboth : Reachable serve drift program init
          ⟨w₁, [] ++ (j, program j) :: [(i, p)], []⟩ := .step hfirst (.start j)
      have hsecond := (hboth.play hserve hwhole).step .finish
      exact ((hsecond : Reachable serve drift program init
        ⟨w₂, [] ++ (i, p) :: [], [(j, second)]⟩).play hserve hlate).step .finish
    · cases hrace
  · cases hrace

end Pool

namespace Server

variable {S : Server Req Ans} {env : Environment S σ}

/-- What a script can let happen. -/
inductive Move (S : Server Req Ans) (κ δ : Type)
  /-- A start, up to its end. -/
  | boot (b : S.Boot) (choices : List κ)
  /-- A command, up to its end. -/
  | command (c : S.Command) (choices : List κ)
  /-- A command, up to a crash between two calls. -/
  | interrupted (c : S.Command) (choices : List κ)
  /-- A crash of the idle server. -/
  | crash
  /-- Something that happens by itself. -/
  | drift (d : δ)

/-- Choices that an environment allows. -/
structure Director (env : Environment S σ) (κ δ : Type) where
  host : Task S → Host Req Ans σ κ
  host_serves : ∀ {task choice w req x w'}, host task choice w req = some (x, w') →
    env.serve task w req x w'
  drift : δ → σ → Option σ
  drift_drifts : ∀ {up d w w'}, drift d w = some w' → env.drift up w w'
  boots : σ → S.Boot → Bool
  boots_boots : ∀ {w events b}, boots w b = true → env.boots w events b
  accepts : S.State → S.Command → Bool
  accepts_accepts : ∀ {w a events c}, accepts a c = true → env.accepts w a events c
  crash : σ → σ
  crash_crashes : ∀ {w}, env.crash w (crash w)

namespace Director

variable (D : Director env κ δ)

/-- One move, from a state in which the server is idle or down. -/
def move : Move S κ δ → System S σ → Option (System S σ)
  | .boot b choices, ⟨w, .down, events⟩ =>
    if D.boots w b then
      match (S.boot b).play (D.host (.boot b)) choices w with
      | some (.ret a, w') => some ⟨w', .idle a, .booted b w' a :: events⟩
      | _ => none
    else none
  | .command c choices, ⟨w, .idle a, events⟩ =>
    if D.accepts a c then
      match (S.handle c a).play (D.host (.command c a)) choices w with
      | some (.ret (a', outputs), w') =>
        some ⟨w', .idle a', .handled c w a outputs w' a' :: events⟩
      | _ => none
    else none
  | .interrupted c choices, ⟨w, .idle a, events⟩ =>
    if D.accepts a c then
      match (S.handle c a).play (D.host (.command c a)) choices w with
      | some (_, w') => some ⟨D.crash w', .down, .crashed :: events⟩
      | none => none
    else none
  | .crash, ⟨w, .idle _, events⟩ => some ⟨D.crash w, .down, .crashed :: events⟩
  | .drift d, ⟨w, phase, events⟩ =>
    match D.drift d w with
    | some w' => some ⟨w', phase, events⟩
    | none => none
  | _, _ => none

/-- A script. -/
def run : List (Move S κ δ) → System S σ → Option (System S σ)
  | [], g => some g
  | m :: moves, g =>
    match D.move m g with
    | some g' => run moves g'
    | none => none

variable {D} {init : σ → Prop}

/-- A start that has been served by a script. -/
theorem reachable_boot {b : S.Boot} {choices : List κ} {p : Prog Req Ans S.State} {w w' : σ}
    {events : List (Event S σ)} (hboots : D.boots w b = true)
    (hplay : (S.boot b).play (D.host (.boot b)) choices w = some (p, w'))
    (h : Reachable env init ⟨w, .down, events⟩) :
    Reachable env init ⟨w', .booting b p, events⟩ :=
  Prog.play_induction (motive := fun p w => Reachable env init ⟨w, .booting b p, events⟩)
    (fun hhost h => .step h (.bootCall (D.host_serves hhost))) hplay
    (.step h (.boot (D.boots_boots hboots)))

/-- A command that has been served by a script. -/
theorem reachable_serving {c : S.Command} {a : S.State} {choices : List κ}
    {p : Prog Req Ans (S.State × List S.Output)} {w w' : σ} {events : List (Event S σ)}
    (haccepts : env.accepts w a events c)
    (hplay : (S.handle c a).play (D.host (.command c a)) choices w = some (p, w'))
    (h : Reachable env init ⟨w, .idle a, events⟩) :
    Reachable env init ⟨w', .serving c w a p, events⟩ :=
  Prog.play_induction (motive := fun p w' => Reachable env init ⟨w', .serving c w a p, events⟩)
    (fun hhost h => .step h (.call (D.host_serves hhost))) hplay
    (.step h (.receive haccepts))

theorem reachable_of_move {m : Move S κ δ} {g g' : System S σ} (hmove : D.move m g = some g')
    (h : Reachable env init g) : Reachable env init g' := by
  obtain ⟨w, phase, events⟩ := g
  cases m with
  | boot b choices =>
    cases phase with
    | down =>
      rw [move] at hmove
      split_ifs at hmove with hboots
      split at hmove
      · rename_i hplay
        cases hmove
        exact .step (reachable_boot hboots hplay h) .booted
      · cases hmove
    | _ => cases hmove
  | command c choices =>
    cases phase with
    | idle a =>
      rw [move] at hmove
      split_ifs at hmove with haccepts
      split at hmove
      · rename_i hplay
        cases hmove
        exact .step (reachable_serving (D.accepts_accepts haccepts) hplay h) .handled
      · cases hmove
    | _ => cases hmove
  | interrupted c choices =>
    cases phase with
    | idle a =>
      rw [move] at hmove
      split_ifs at hmove with haccepts
      split at hmove
      · rename_i hplay
        cases hmove
        exact .step (reachable_serving (D.accepts_accepts haccepts) hplay h)
          (.crashServing D.crash_crashes)
      · cases hmove
    | _ => cases hmove
  | crash =>
    cases phase with
    | idle a =>
      cases hmove
      exact .step h (.crashIdle D.crash_crashes)
    | _ => cases hmove
  | drift d =>
    rw [move] at hmove
    split at hmove
    · rename_i hdrift
      cases hmove
      cases phase with
      | down => exact .step h (.driftDown (D.drift_drifts hdrift))
      | _ => exact .step h (.driftUp (by simp) (D.drift_drifts hdrift))
    · cases hmove

theorem reachable_of_run {moves : List (Move S κ δ)} {g g' : System S σ}
    (hrun : D.run moves g = some g') (h : Reachable env init g) : Reachable env init g' := by
  induction moves generalizing g with
  | nil =>
    cases hrun
    exact h
  | cons m moves ih =>
    rw [run] at hrun
    split at hrun
    · rename_i hmove
      exact ih hrun (reachable_of_move hmove h)
    · cases hrun

/-- What can be computed of the end of a script holds of a reachable state. -/
theorem exists_of_run {moves : List (Move S κ δ)} {w : σ} {holds : System S σ → Bool}
    (hinit : init w) (hrun : (D.run moves ⟨w, .down, []⟩).any holds = true) :
    ∃ g, Reachable env init g ∧ holds g = true := by
  obtain ⟨g, hg, hholds⟩ := (Option.any_eq_true _ _).mp hrun
  exact ⟨g, reachable_of_run hg (.init hinit), hholds⟩

end Director

end Server

end CrashLogic
