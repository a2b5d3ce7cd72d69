import Mathlib.Logic.Relation
import Mathlib.Tactic

/-!
# Programs that call a host

A `Prog Req Ans α` is a program that answers an `α` after finitely many calls
to a host: it is either finished, or it waits for the answer to one request.
The shape keeps every point at which the program can be suspended, which is
what a crash, a lost answer or another program can observe.

The host is a relation `serve s r x t`: in the state `s` the host may answer
the request `r` by `x` and move to the state `t`.  It is a relation and not a
function because a host may fail, lose an answer or refuse.

* `Runs` is a complete run of one program, and `Leads` a run up to some point between
  two of its calls.
* `wp` is the weakest precondition of a program under a `Contract`.  The
  contract names an invariant that holds whenever the program is suspended, so
  a crash finds it; a rely, which is what others may do to the state while the
  program waits; and a guarantee, which is what the program itself does.
* `wp_bind`, `wp_mono` and the `run` lemmas are the rules a proof uses.
* `Runs.sound` and `wp_rely` are what makes the rules mean something.
* `Prog.Always` is what a program does whatever its host answers.
-/

namespace CrashLogic

/-- A program over the requests `Req`, whose answers have the types `Ans`. -/
inductive Prog (Req : Type) (Ans : Req → Type) (α : Type) : Type
  | ret (value : α)
  | call (req : Req) (next : Ans req → Prog Req Ans α)

namespace Prog

variable {Req : Type} {Ans : Req → Type} {α β γ : Type}

/-- Run one program after another. -/
def bind : Prog Req Ans α → (α → Prog Req Ans β) → Prog Req Ans β
  | ret value, f => f value
  | call req next, f => call req fun x => (next x).bind f

instance : Monad (Prog Req Ans) where
  pure := ret
  bind := bind

/-- The program that makes one call and answers what the host answers. -/
def request (req : Req) : Prog Req Ans (Ans req) := call req ret

/-- Every call of a program is allowed and every answer satisfies `post`, whatever
the host answers. -/
def Always (allowed : Req → Prop) (post : α → Prop) : Prog Req Ans α → Prop
  | ret value => post value
  | call req next => allowed req ∧ ∀ x, (next x).Always allowed post

section Always

variable {allowed allowed' : Req → Prop} {post post' : α → Prop}

theorem Always.mono {p : Prog Req Ans α} (h : p.Always allowed post)
    (hallowed : ∀ req, allowed req → allowed' req) (hpost : ∀ a, post a → post' a) :
    p.Always allowed' post' := by
  induction p with
  | ret value => exact hpost value h
  | call req next ih => exact ⟨hallowed req h.1, fun x => ih x (h.2 x)⟩

theorem Always.and {p : Prog Req Ans α} (h : p.Always allowed post)
    (h' : p.Always allowed' post') : p.Always allowed fun a => post a ∧ post' a := by
  induction p with
  | ret value => exact ⟨h, h'⟩
  | call req next ih => exact ⟨h.1, fun x => ih x (h.2 x) (h'.2 x)⟩

theorem Always.bind {post : β → Prop} {mid : α → Prop} {p : Prog Req Ans α}
    {f : α → Prog Req Ans β} (hp : p.Always allowed mid)
    (hf : ∀ a, mid a → (f a).Always allowed post) : (p >>= f).Always allowed post := by
  induction p with
  | ret value => exact hf value hp
  | call req next ih => exact ⟨hp.1, fun x => ih x (hp.2 x)⟩

/-- A program of which nothing is asked. -/
theorem always_true (p : Prog Req Ans α) : p.Always (fun _ => True) fun _ => True := by
  induction p with
  | ret value => trivial
  | call req next ih => exact ⟨trivial, ih⟩

theorem always_call {req : Req} {next : Ans req → Prog Req Ans α} (h : allowed req)
    (hnext : ∀ x, (next x).Always allowed post) : (call req next).Always allowed post :=
  ⟨h, hnext⟩

/-- A fallible program that ends with a step whose outcome is known. -/
theorem Always.run_bind_post {ε : Type} {post : Except ε β → Prop}
    {p : ExceptT ε (Prog Req Ans) α} {f : α → ExceptT ε (Prog Req Ans) β}
    (herr : ∀ e, post (.error e)) (hp : p.run.Always allowed fun _ => True)
    (hf : ∀ a, (f a).run.Always allowed post) : (p >>= f).run.Always allowed post := by
  rw [ExceptT.run_bind]
  refine hp.bind fun r _ => ?_
  cases r with
  | ok a => exact hf a
  | error e => exact herr e

/-- The calls of a fallible program are those of its steps. -/
theorem Always.run_bind {ε : Type} {p : ExceptT ε (Prog Req Ans) α}
    {f : α → ExceptT ε (Prog Req Ans) β} (hp : p.run.Always allowed fun _ => True)
    (hf : ∀ a, (f a).run.Always allowed fun _ => True) :
    (p >>= f).run.Always allowed fun _ => True :=
  .run_bind_post (fun _ => trivial) hp hf

/-- A step that computes makes no calls. -/
theorem always_run_lift {ε : Type} (r : Except ε α) :
    (liftM r : ExceptT ε (Prog Req Ans) α).run.Always allowed fun _ => True := by
  cases r <;> trivial

end Always

end Prog

section Logic

variable {Req : Type} {Ans : Req → Type} {α β σ : Type}

/-- What a host may do: answer the request in a state and move on. -/
abbrev Serve (Req : Type) (Ans : Req → Type) (σ : Type) : Type :=
  σ → (req : Req) → Ans req → σ → Prop

/-- A complete run of a program: it starts in one state, and answers a value
in another.  Between two calls others may change the state as `rely` says. -/
inductive Runs (serve : Serve Req Ans σ) (rely : σ → σ → Prop) :
    Prog Req Ans α → σ → α → σ → Prop
  | ret (value : α) (s : σ) : Runs serve rely (.ret value) s value s
  | call {req : Req} {next : Ans req → Prog Req Ans α} {s s₁ s₂ t : σ} {x : Ans req} {value : α}
      (others : rely s s₁) (served : serve s₁ req x s₂) (rest : Runs serve rely (next x) s₂ value t) :
      Runs serve rely (.call req next) s value t

/-- What a program and its surroundings promise each other. -/
structure Contract (σ : Type) where
  /-- What holds in every state in which the program is suspended. -/
  inv : σ → Prop
  /-- What others may do while the program is suspended. -/
  rely : σ → σ → Prop
  /-- What a call of the program does. -/
  guar : σ → σ → Prop
  rely_refl : ∀ s, rely s s
  rely_trans : ∀ {s t u}, rely s t → rely t u → rely s u

/-- The contract of a program that runs alone. -/
def Contract.alone (inv : σ → Prop) : Contract σ where
  inv := inv
  rely := Eq
  guar _ _ := True
  rely_refl _ := rfl
  rely_trans := Eq.trans

/-- The weakest precondition of a program: from a state that satisfies it,
every call keeps the contract and every answer satisfies `post`. -/
def wp (serve : Serve Req Ans σ) (c : Contract σ) :
    Prog Req Ans α → (α → σ → Prop) → σ → Prop
  | .ret value, post, s => post value s
  | .call req next, post, s =>
      ∀ s₁, c.rely s s₁ → c.inv s₁ → ∀ x s₂, serve s₁ req x s₂ →
        c.inv s₂ ∧ c.guar s₁ s₂ ∧ wp serve c (next x) post s₂

variable {serve : Serve Req Ans σ} {c : Contract σ} {post : α → σ → Prop} {s : σ}

@[simp] theorem wp_ret (value : α) : wp serve c (.ret value) post s = post value s := rfl

theorem wp_call {req : Req} {next : Ans req → Prog Req Ans α}
    (h : ∀ s₁, c.rely s s₁ → c.inv s₁ → ∀ x s₂, serve s₁ req x s₂ →
      c.inv s₂ ∧ c.guar s₁ s₂ ∧ wp serve c (next x) post s₂) :
    wp serve c (.call req next) post s := h

/-- A call of a program that runs alone. -/
theorem wp_call_alone {inv : σ → Prop} {req : Req} {next : Ans req → Prog Req Ans α}
    (h : inv s → ∀ x t, serve s req x t →
      inv t ∧ wp serve (.alone inv) (next x) post t) :
    wp serve (.alone inv) (.call req next) post s := by
  rintro _ rfl hinv x t hserve
  obtain ⟨hinv', hrest⟩ := h hinv x t hserve
  exact ⟨hinv', trivial, hrest⟩

theorem wp_bind {p : Prog Req Ans α} {f : α → Prog Req Ans β} {post : β → σ → Prop} :
    wp serve c (p >>= f) post s ↔ wp serve c p (fun a t => wp serve c (f a) post t) s := by
  induction p generalizing s with
  | ret value => exact Iff.rfl
  | call req next ih =>
    constructor
    · intro h s₁ hrely hinv x s₂ hserve
      obtain ⟨hinv', hguar, hrest⟩ := h s₁ hrely hinv x s₂ hserve
      exact ⟨hinv', hguar, (ih x).mp hrest⟩
    · intro h s₁ hrely hinv x s₂ hserve
      obtain ⟨hinv', hguar, hrest⟩ := h s₁ hrely hinv x s₂ hserve
      exact ⟨hinv', hguar, (ih x).mpr hrest⟩

theorem wp_mono {p : Prog Req Ans α} {post' : α → σ → Prop}
    (himp : ∀ a t, post a t → post' a t) (h : wp serve c p post s) : wp serve c p post' s := by
  induction p generalizing s with
  | ret value => exact himp value s h
  | call req next ih =>
    intro s₁ hrely hinv x s₂ hserve
    obtain ⟨hinv', hguar, hrest⟩ := h s₁ hrely hinv x s₂ hserve
    exact ⟨hinv', hguar, ih x hrest⟩

/-- Two facts about the end of a program. -/
theorem wp_and {p : Prog Req Ans α} {post' : α → σ → Prop} (h : wp serve c p post s)
    (h' : wp serve c p post' s) : wp serve c p (fun a t => post a t ∧ post' a t) s := by
  induction p generalizing s with
  | ret value => exact ⟨h, h'⟩
  | call req next ih =>
    intro s₁ hrely hinv x s₂ hserve
    obtain ⟨hinv₂, hguar, hrest⟩ := h s₁ hrely hinv x s₂ hserve
    exact ⟨hinv₂, hguar, ih x hrest (h' s₁ hrely hinv x s₂ hserve).2.2⟩

/-- The consequence rule for calls: a host that does less, under a contract that
asks for more and whose calls keep it. -/
theorem wp_weaken {serve' : Serve Req Ans σ} {c' : Contract σ} {p : Prog Req Ans α}
    (hrely : ∀ {s t}, c'.rely s t → c.rely s t) (hinv : ∀ {s}, c'.inv s → c.inv s)
    (hserve : ∀ {s req x t}, c'.inv s → serve' s req x t → serve s req x t ∧
      (c.inv t → c.guar s t → c'.inv t ∧ c'.guar s t))
    (h : wp serve c p post s) : wp serve' c' p post s := by
  induction p generalizing s with
  | ret value => exact h
  | call req next ih =>
    intro s₁ hr hi x s₂ hs
    obtain ⟨hs', hback⟩ := hserve hi hs
    obtain ⟨hinv', hguar, hrest⟩ := h s₁ (hrely hr) (hinv hi) x s₂ hs'
    obtain ⟨hinv'', hguar'⟩ := hback hinv' hguar
    exact ⟨hinv'', hguar', ih x hrest⟩

/-- Only the calls that a program makes matter. -/
theorem wp_of_calls {allowed : Req → Prop} {p : Prog Req Ans α}
    (hp : p.Always allowed fun _ => True)
    (h : wp (fun s req x t => allowed req ∧ serve s req x t) c p post s) :
    wp serve c p post s := by
  induction p generalizing s with
  | ret value => exact h
  | call req next ih =>
    intro s₁ hrely hinv x s₂ hserve
    obtain ⟨hinv', hguar, hrest⟩ := h s₁ hrely hinv x s₂ ⟨hp.1, hserve⟩
    exact ⟨hinv', hguar, ih x (hp.2 x) hrest⟩

/-- The invariant of the contract holds at the end, if it does at the start. -/
theorem wp_inv {p : Prog Req Ans α} (hinv : c.inv s) (h : wp serve c p post s) :
    wp serve c p (fun a t => post a t ∧ c.inv t) s := by
  induction p generalizing s with
  | ret value => exact ⟨h, hinv⟩
  | call req next ih =>
    intro s₁ hrely hinv₁ x s₂ hserve
    obtain ⟨hinv₂, hguar, hrest⟩ := h s₁ hrely hinv₁ x s₂ hserve
    exact ⟨hinv₂, hguar, ih x hinv₂ hrest⟩

/-- The frame rule: what the calls do not change may be added to the invariant of a
contract. -/
theorem wp_frame {F : σ → Prop} {p : Prog Req Ans α}
    (hserve : ∀ {s req x t}, c.inv s → c.inv t → F s → serve s req x t → F t)
    (hF : F s) (h : wp serve c p post s) :
    wp serve { c with inv := fun s => c.inv s ∧ F s } p post s := by
  induction p generalizing s with
  | ret value => exact h
  | call req next ih =>
    rintro s₁ hr ⟨hinv, hF₁⟩ x s₂ hs
    obtain ⟨hinv', hguar, hrest⟩ := h s₁ hr hinv x s₂ hs
    have hF₂ := hserve hinv hinv' hF₁ hs
    exact ⟨⟨hinv', hF₂⟩, hguar, ih x hF₂ hrest⟩

/-- A program leads as far as its calls and the others do. -/
theorem wp_reaches {le : σ → σ → Prop} (hrefl : ∀ s, le s s)
    (htrans : ∀ {s t u}, le s t → le t u → le s u) (hrely : ∀ {s t}, c.rely s t → le s t)
    (hserve : ∀ {s req x t}, serve s req x t → le s t) {p : Prog Req Ans α}
    (h : wp serve c p post s) : wp serve c p (fun a t => post a t ∧ le s t) s := by
  induction p generalizing s with
  | ret value => exact ⟨h, hrefl s⟩
  | call req next ih =>
    intro s₁ hr hinv x s₂ hs
    obtain ⟨hinv', hguar, hrest⟩ := h s₁ hr hinv x s₂ hs
    refine ⟨hinv', hguar, wp_mono ?_ (ih x hrest)⟩
    exact fun a t ht => ⟨ht.1, htrans (htrans (hrely hr) (hserve hs)) ht.2⟩

/-- A state assertion that others do not break. -/
def Contract.Stable (c : Contract σ) (assertion : σ → Prop) : Prop :=
  ∀ s t, assertion s → c.rely s t → assertion t

/-- A suspended program stays safe while others act. -/
theorem wp_rely {p : Prog Req Ans α} {t : σ} (hstable : ∀ a, c.Stable (post a))
    (h : wp serve c p post s) (hrely : c.rely s t) : wp serve c p post t := by
  cases p with
  | ret value => exact hstable value s t h hrely
  | call req next =>
    intro s₁ hr hinv x s₂ hserve
    exact h s₁ (c.rely_trans hrely hr) hinv x s₂ hserve

/-- Every complete run of a safe program keeps the invariant and ends in the
postcondition. -/
theorem Runs.sound {p : Prog Req Ans α} {value : α} {t : σ} (hrun : Runs serve c.rely p s value t)
    (hkeep : ∀ s t, c.inv s → c.rely s t → c.inv t) (hinv : c.inv s)
    (h : wp serve c p post s) : c.inv t ∧ post value t := by
  induction hrun with
  | ret value s => exact ⟨hinv, h⟩
  | call others served _ ih =>
    obtain ⟨hinv', _, hrest⟩ := h _ others (hkeep _ _ hinv others) _ _ served
    exact ih hinv' hrest

/-- A complete run of a program that runs alone ends in the postcondition. -/
theorem Runs.sound_alone {inv : σ → Prop} {p : Prog Req Ans α} {value : α} {t : σ}
    (hrun : Runs serve Eq p s value t) (hinv : inv s) (h : wp serve (.alone inv) p post s) :
    inv t ∧ post value t := by
  have hkeep : ∀ s t, inv s → s = t → inv t := fun _ _ hs heq => heq ▸ hs
  exact hrun.sound hkeep hinv h

/-- A run of a program up to some point between two of its calls, with what others have
done. -/
inductive Leads (serve : Serve Req Ans σ) (rely : σ → σ → Prop) :
    Prog Req Ans α → σ → Prog Req Ans α → σ → Prop
  | refl (p : Prog Req Ans α) (s : σ) : Leads serve rely p s p s
  | others {p q : Prog Req Ans α} {s t u : σ} (h : Leads serve rely p s q t) (hrely : rely t u) :
      Leads serve rely p s q u
  | call {p : Prog Req Ans α} {s t u : σ} {req : Req} {next : Ans req → Prog Req Ans α}
      {x : Ans req} (h : Leads serve rely p s (.call req next) t) (hserve : serve t req x u) :
      Leads serve rely p s (next x) u

/-- What holds at every point of a run. -/
theorem Leads.sound {serve : Serve Req Ans σ} {c : Contract σ} {post : α → σ → Prop}
    {p q : Prog Req Ans α} {s t : σ} (h : Leads serve c.rely p s q t)
    (hkeep : ∀ s t, c.inv s → c.rely s t → c.inv t) (hstable : ∀ a, c.Stable (post a))
    (hinv : c.inv s) (hsafe : wp serve c p post s) : c.inv t ∧ wp serve c q post t := by
  induction h with
  | refl => exact ⟨hinv, hsafe⟩
  | others _ hrely ih =>
    obtain ⟨hinv', hsafe'⟩ := ih hinv hsafe
    exact ⟨hkeep _ _ hinv' hrely, wp_rely hstable hsafe' hrely⟩
  | call _ hserve ih =>
    obtain ⟨hinv', hsafe'⟩ := ih hinv hsafe
    obtain ⟨hinv'', _, hrest⟩ := hsafe' _ (c.rely_refl _) hinv' _ _ hserve
    exact ⟨hinv'', hrest⟩

/-- What holds at every point of a run of a program that runs alone. -/
theorem Leads.sound_alone {inv : σ → Prop} {p q : Prog Req Ans α} {t : σ}
    (h : Leads serve Eq p s q t) (hinv : inv s) (hsafe : wp serve (.alone inv) p post s) :
    inv t ∧ wp serve (.alone inv) q post t := by
  have hkeep : ∀ s t, inv s → s = t → inv t := fun _ _ hs heq => heq ▸ hs
  have hstable : ∀ a, (Contract.alone inv).Stable (post a) := fun _ _ _ hpost heq => heq ▸ hpost
  exact h.sound hkeep hstable hinv hsafe

/-- A run that is preceded by what others do. -/
theorem Leads.after {rely : σ → σ → Prop} {p q : Prog Req Ans α} {t u : σ} (hrely : rely s t)
    (h : Leads serve rely p t q u) : Leads serve rely p s q u := by
  induction h with
  | refl => exact .others (.refl p s) hrely
  | others _ hrely' ih => exact .others (ih hrely) hrely'
  | call _ hserve ih => exact .call (ih hrely) hserve

/-- A run that is preceded by a call. -/
theorem Leads.cons {rely : σ → σ → Prop} {req : Req} {next : Ans req → Prog Req Ans α} {x : Ans req}
    {q : Prog Req Ans α} {t u : σ} (hserve : serve s req x t) (h : Leads serve rely (next x) t q u) :
    Leads serve rely (.call req next) s q u := by
  induction h with
  | refl => exact .call (.refl _ s) hserve
  | others _ hrely ih => exact .others (ih hserve) hrely
  | call _ hserve' ih => exact .call (ih hserve) hserve'

/-- A complete run leads to the end of the program. -/
theorem Runs.leads {rely : σ → σ → Prop} {p : Prog Req Ans α} {value : α} {t : σ}
    (h : Runs serve rely p s value t) : Leads serve rely p s (.ret value) t := by
  induction h with
  | ret value s => exact .refl _ s
  | call others served _ ih => exact (Leads.cons served ih).after others

theorem Runs.bind {rely : σ → σ → Prop} {p : Prog Req Ans α} {f : α → Prog Req Ans β} {a : α} {b : β}
    {t u : σ} (hp : Runs serve rely p s a t) (hf : Runs serve rely (f a) t b u) :
    Runs serve rely (p >>= f) s b u := by
  induction hp with
  | ret value s => exact hf
  | call others served _ ih => exact .call others served (ih hf)

end Logic

section Runs

variable {Req : Type} {Ans : Req → Type} {α β σ : Type} {serve : Serve Req Ans σ}
  {rely : σ → σ → Prop}

/-- A run of one program after another, cut between the two. -/
theorem Runs.of_bind {p : Prog Req Ans α} {f : α → Prog Req Ans β} {s u : σ} {value : β}
    (hrun : Runs serve rely (p >>= f) s value u) :
    ∃ a t, Runs serve rely p s a t ∧ Runs serve rely (f a) t value u := by
  induction p generalizing s with
  | ret a => exact ⟨a, s, .ret a s, hrun⟩
  | call req next ih =>
    cases hrun with
    | call others served rest =>
      obtain ⟨a, t, hp, hf⟩ := ih _ rest
      exact ⟨a, t, .call others served hp, hf⟩

/-- A run is one of a host that may do more, where others may do more. -/
theorem Runs.mono {serve' : Serve Req Ans σ} {rely' : σ → σ → Prop} {p : Prog Req Ans α} {s t : σ}
    {value : α} (hrun : Runs serve rely p s value t)
    (hserve : ∀ {s req x t}, serve s req x t → serve' s req x t)
    (hrely : ∀ {s t}, rely s t → rely' s t) : Runs serve' rely' p s value t := by
  induction hrun with
  | ret value s => exact .ret value s
  | call others served _ ih => exact .call (hrely others) (hserve served) ih

/-- A host that answers every call lets every program run to its end. -/
theorem Runs.exists_of_total {p : Prog Req Ans α} (hrefl : ∀ s, rely s s)
    (htotal : ∀ s req, ∃ x t, serve s req x t) (s : σ) : ∃ value t, Runs serve rely p s value t := by
  induction p generalizing s with
  | ret value => exact ⟨value, s, .ret value s⟩
  | call req next ih =>
    obtain ⟨x, t, hserve⟩ := htotal s req
    obtain ⟨value, u, hrun⟩ := ih x t
    exact ⟨value, u, .call (hrefl s) hserve hrun⟩

/-- What a program answers whatever its host does, it answers in a run. -/
theorem Runs.always {p : Prog Req Ans α} {allowed : Req → Prop} {post : α → Prop} {s t : σ}
    {value : α} (hrun : Runs serve rely p s value t) (h : p.Always allowed post) : post value := by
  induction hrun with
  | ret value s => exact h
  | call others served rest ih => exact ih (h.2 _)

end Runs

/-! ## Programs that may fail

A fallible program is one in `ExceptT ε (Prog Req Ans)`.  The rules say what a
step of such a program needs from the rest. -/

section Fallible

variable {Req : Type} {Ans : Req → Type} {α β σ ε : Type}
variable {serve : Serve Req Ans σ} {c : Contract σ} {s : σ}

theorem wp_run_bind {p : ExceptT ε (Prog Req Ans) α} {f : α → ExceptT ε (Prog Req Ans) β}
    {post : Except ε β → σ → Prop} :
    wp serve c (p >>= f).run post s ↔
      wp serve c p.run
        (fun r t => match r with
          | .ok a => wp serve c (f a).run post t
          | .error e => post (.error e) t) s := by
  rw [ExceptT.run_bind, wp_bind]
  constructor
  · refine wp_mono fun r t h => ?_
    cases r <;> exact h
  · refine wp_mono fun r t h => ?_
    cases r <;> exact h

/-- The sequence rule, with the assertion between the two halves named. -/
theorem wp_run_seq {p : ExceptT ε (Prog Req Ans) α} {f : α → ExceptT ε (Prog Req Ans) β}
    {post : Except ε β → σ → Prop} {mid : Except ε α → σ → Prop}
    (hp : wp serve c p.run mid s)
    (hok : ∀ a t, mid (.ok a) t → wp serve c (f a).run post t)
    (herr : ∀ e t, mid (.error e) t → post (.error e) t) :
    wp serve c (p >>= f).run post s := by
  refine wp_run_bind.mpr (wp_mono ?_ hp)
  intro r t h
  cases r with
  | ok a => exact hok a t h
  | error e => exact herr e t h

/-- A step that computes and does not call the host. -/
theorem wp_run_lift {r : Except ε α} {post : Except ε α → σ → Prop} :
    wp serve c (liftM r : ExceptT ε (Prog Req Ans) α).run post s = post r s := by
  cases r <;> rfl

end Fallible

end CrashLogic
