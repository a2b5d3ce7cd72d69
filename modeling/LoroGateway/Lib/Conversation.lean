import LoroGateway.Lib.Bytes
import LoroGateway.Lib.Program

/-!
# What a program and its host say to each other

A host about which nothing is known answers the calls of a program one by one.
`Prog.converse` is the conversation with a host whose answers are given, and
`Prog.Says` is the relation of all the conversations: `says_converse` and
`heard_converse` say that the first is among the second, and `says_bind` and
`says_run_bind` cut a conversation where one program follows another.  `Served` is
a conversation with a host that has a state.
-/

namespace CrashLogic

variable {Req : Type} {Ans : Req → Type} {α β ε : Type}

/-- A call and its answer. -/
abbrev Exchange (Req : Type) (Ans : Req → Type) : Type := (req : Req) × Ans req

namespace Prog

/-- The calls of a program with their answers, and the value at the end. -/
def converse (answers : Nat → (req : Req) → Ans req) :
    Prog Req Ans α → List (Exchange Req Ans) × α
  | .ret value => ([], value)
  | .call req next =>
    let rest := (next (answers 0 req)).converse fun n => answers (n + 1)
    (⟨req, answers 0 req⟩ :: rest.1, rest.2)

inductive Says : Prog Req Ans α → List (Exchange Req Ans) → α → Prop
  | ret (value : α) : Says (.ret value) [] value
  | call {req : Req} {next : Ans req → Prog Req Ans α} {x : Ans req}
      {log : List (Exchange Req Ans)} {value : α} (rest : Says (next x) log value) :
      Says (.call req next) (⟨req, x⟩ :: log) value

theorem says_converse (answers : Nat → (req : Req) → Ans req) (p : Prog Req Ans α) :
    p.Says (p.converse answers).1 (p.converse answers).2 := by
  induction p generalizing answers with
  | ret value => exact .ret value
  | call req next ih => exact .call (ih _ _)

/-- The answers of a conversation are the first ones of a sequence. -/
def Heard (answers : Nat → (req : Req) → Ans req) : List (Exchange Req Ans) → Prop
  | [] => True
  | ⟨req, x⟩ :: log => x = answers 0 req ∧ Heard (fun n => answers (n + 1)) log

theorem heard_converse (answers : Nat → (req : Req) → Ans req) (p : Prog Req Ans α) :
    Heard answers (p.converse answers).1 := by
  induction p generalizing answers with
  | ret value => trivial
  | call req next ih => exact ⟨rfl, ih _ _⟩

theorem says_ret {value value' : α} {log : List (Exchange Req Ans)} :
    (ret value : Prog Req Ans α).Says log value' ↔ log = [] ∧ value' = value := by
  constructor
  · intro h
    cases h
    exact ⟨rfl, rfl⟩
  · rintro ⟨rfl, rfl⟩
    exact .ret _

theorem says_bind {p : Prog Req Ans α} {f : α → Prog Req Ans β} {log : List (Exchange Req Ans)}
    {value : β} : (p >>= f).Says log value ↔
      ∃ a front back, p.Says front a ∧ (f a).Says back value ∧ log = front ++ back := by
  constructor
  · intro h
    induction p generalizing log with
    | ret a => exact ⟨a, [], log, .ret a, h, rfl⟩
    | call req next ih =>
      cases h with
      | @call _ _ x log _ rest =>
        obtain ⟨a, front, back, hp, hf, rfl⟩ := ih x rest
        exact ⟨a, ⟨req, x⟩ :: front, back, .call hp, hf, rfl⟩
  · rintro ⟨a, front, back, hp, hf, rfl⟩
    induction hp with
    | ret a => exact hf
    | call _ ih => exact .call (ih hf)

/-- A fallible program ends with the first error. -/
theorem says_run_bind {p : ExceptT ε (Prog Req Ans) α} {f : α → ExceptT ε (Prog Req Ans) β}
    {log : List (Exchange Req Ans)} {r : Except ε β} : (p >>= f).run.Says log r ↔
      (∃ a front back, p.run.Says front (.ok a) ∧ (f a).run.Says back r ∧ log = front ++ back) ∨
      ∃ e, p.run.Says log (.error e) ∧ r = .error e := by
  rw [ExceptT.run_bind, says_bind]
  constructor
  · rintro ⟨a | a, front, back, hp, hf, rfl⟩
    · obtain ⟨rfl, rfl⟩ := says_ret.1 hf
      rw [List.append_nil]
      exact .inr ⟨a, hp, rfl⟩
    · exact .inl ⟨a, front, back, hp, hf, rfl⟩
  · rintro (⟨a, front, back, hp, hf, rfl⟩ | ⟨e, hp, rfl⟩)
    · exact ⟨.ok a, front, back, hp, hf, rfl⟩
    · exact ⟨.error e, log, [], hp, .ret _, (List.append_nil log).symm⟩

theorem says_run_pure {a : α} {log : List (Exchange Req Ans)} {r : Except ε α} :
    (pure a : ExceptT ε (Prog Req Ans) α).run.Says log r ↔ log = [] ∧ r = .ok a := says_ret

theorem says_run_throw {e : ε} {log : List (Exchange Req Ans)} {r : Except ε α} :
    (throw e : ExceptT ε (Prog Req Ans) α).run.Says log r ↔ log = [] ∧ r = .error e := says_ret

/-! A step that makes no call either goes on or is the end. -/

section Steps

variable {f : α → ExceptT ε (Prog Req Ans) β} {log : List (Exchange Req Ans)} {r : Except ε β}

theorem says_run_lift_bind {s : Except ε α} :
    ((liftM s : ExceptT ε (Prog Req Ans) α) >>= f).run.Says log r ↔
      (∃ a, s = .ok a ∧ (f a).run.Says log r) ∨ ∃ e, s = .error e ∧ log = [] ∧ r = .error e := by
  cases s with
  | ok a =>
    show (f a).run.Says log r ↔ _
    simp
  | error e =>
    show (ret (.error e) : Prog Req Ans (Except ε β)).Says log r ↔ _
    simp [says_ret]

theorem says_run_okOr_bind {value : Option α} {e : ε} :
    ((ByteCodec.okOr value e : ExceptT ε (Prog Req Ans) α) >>= f).run.Says log r ↔
      (∃ a, value = some a ∧ (f a).run.Says log r) ∨ (value = none ∧ log = [] ∧ r = .error e) := by
  cases value with
  | some a =>
    show (f a).run.Says log r ↔ _
    simp
  | none =>
    show (ret (.error e) : Prog Req Ans (Except ε β)).Says log r ↔ _
    simp [says_ret]

theorem says_run_check_bind {cond : Prop} [Decidable cond] {e : ε}
    {f : Unit → ExceptT ε (Prog Req Ans) β} :
    ((ByteCodec.check cond e : ExceptT ε (Prog Req Ans) Unit) >>= f).run.Says log r ↔
      (cond ∧ (f ()).run.Says log r) ∨ (¬ cond ∧ log = [] ∧ r = .error e) := by
  by_cases hcond : cond
  · simp only [ByteCodec.check, hcond, not_true, true_and, false_and, or_false]
    rfl
  · simp only [ByteCodec.check, hcond, not_false_eq_true, true_and, false_and,
      false_or]
    exact says_ret

end Steps

theorem says_run_lift {s : Except ε α} {log : List (Exchange Req Ans)} {r : Except ε α} :
    (liftM s : ExceptT ε (Prog Req Ans) α).run.Says log r ↔ log = [] ∧ r = s := by
  cases s <;> exact says_ret

end Prog

/-- A conversation with a host that has a state: others may change it before each call. -/
inductive Served {σ : Type} (serve : Serve Req Ans σ) (rely : σ → σ → Prop) :
    σ → List (Exchange Req Ans) → σ → Prop
  | nil (s : σ) : Served serve rely s [] s
  | cons {s s₁ s₂ t : σ} {req : Req} {x : Ans req} {log : List (Exchange Req Ans)}
      (others : rely s s₁) (served : serve s₁ req x s₂) (rest : Served serve rely s₂ log t) :
      Served serve rely s (⟨req, x⟩ :: log) t

/-- A run is a conversation. -/
theorem Runs.says {σ : Type} {serve : Serve Req Ans σ} {rely : σ → σ → Prop} {p : Prog Req Ans α}
    {s t : σ} {value : α} (hrun : Runs serve rely p s value t) :
    ∃ log, p.Says log value ∧ Served serve rely s log t := by
  induction hrun with
  | ret value s => exact ⟨[], .ret value, .nil s⟩
  | call others served _ ih =>
    obtain ⟨log, hsays, hserved⟩ := ih
    exact ⟨_, .call hsays, .cons others served hserved⟩

end CrashLogic
