import LoroGateway.Lib.Bytes

/-!
# What a parser accepts

A parser moves through its input and answers a value, or it stops with an
error.  `Parses` says of a parser that it succeeds exactly on the inputs that go
on with a string of a given language, that it stops behind that string, and that
its errors are of a given kind.  The rules follow the parser:

* `Parses.pure`, `Parses.throw`, `Parses.check` and `Parses.okOr` take nothing;
* `Parses.guard` and `Parses.guardSome` put a check in front;
* `Parses.bind` takes one string after another;
* `Parses.of_iff` changes the language where the input allows it.

`Finishes` is the same for a parser that has to reach the end of the input, and
that may ask whether it is there.
-/

namespace ByteCodec

/-- What it means to move through an input. -/
structure Feed (σ : Type) where
  ready : σ → Prop
  eats : σ → Bytes → σ → Prop
  eats_ready : ∀ {s bytes t}, ready s → eats s bytes t → ready t
  eats_nil : ∀ {s t}, eats s [] t ↔ t = s
  eats_append : ∀ {s front back u}, ready s →
    (eats s (front ++ back) u ↔ ∃ t, eats s front t ∧ eats t back u)

structure Parses {σ ε α : Type} (feed : Feed σ) (safe : ε → Prop) (m : StateT σ (Except ε) α)
    (accepts : α → Bytes → Prop) : Prop where
  ok_iff : ∀ {s a t}, feed.ready s →
    (m.run s = .ok (a, t) ↔ ∃ bytes, accepts a bytes ∧ feed.eats s bytes t)
  errors : ∀ {s e}, feed.ready s → m.run s = .error e → safe e

namespace Parses

variable {σ ε α β : Type} {feed : Feed σ} {safe : ε → Prop} {m : StateT σ (Except ε) α}
  {accepts : α → Bytes → Prop}

theorem of_iff {accepts' : α → Bytes → Prop} (h : Parses feed safe m accepts)
    (hiff : ∀ {s bytes t} a, feed.ready s → feed.eats s bytes t →
      (accepts a bytes ↔ accepts' a bytes)) : Parses feed safe m accepts' where
  ok_iff := by
    intro s a t hs
    rw [h.ok_iff hs]
    constructor
    · intro ⟨bytes, haccepts, heats⟩
      exact ⟨bytes, (hiff a hs heats).1 haccepts, heats⟩
    · intro ⟨bytes, haccepts, heats⟩
      exact ⟨bytes, (hiff a hs heats).2 haccepts, heats⟩
  errors := h.errors

theorem pure (a : α) :
    Parses feed safe (pure a : StateT σ (Except ε) α) (fun b bytes => b = a ∧ bytes = []) where
  ok_iff := by
    intro s b t hs
    show Except.ok (a, s) = Except.ok (b, t) ↔ _
    constructor
    · intro heq
      cases heq
      exact ⟨[], ⟨rfl, rfl⟩, feed.eats_nil.2 rfl⟩
    · intro ⟨bytes, ⟨hb, hbytes⟩, heats⟩
      subst hb hbytes
      rw [feed.eats_nil.1 heats]
  errors := by
    intro s e hs heq
    cases heq

theorem throw {e : ε} (h : safe e) :
    Parses feed safe (throw e : StateT σ (Except ε) α) (fun _ _ => False) where
  ok_iff := by
    intro s b t hs
    constructor
    · intro heq
      cases heq
    · intro ⟨_, hfalse, _⟩
      exact hfalse.elim
  errors := by
    intro s e' hs heq
    cases heq
    exact h

theorem bind {f : α → StateT σ (Except ε) β} {accepts' : α → β → Bytes → Prop}
    (hm : Parses feed safe m accepts) (hf : ∀ a, Parses feed safe (f a) (accepts' a)) :
    Parses feed safe (m >>= f) (fun b bytes =>
      ∃ a front back, accepts a front ∧ accepts' a b back ∧ bytes = front ++ back) where
  ok_iff := by
    intro s b u hs
    rw [StateT.run_bind, bind_eq_ok]
    constructor
    · intro ⟨⟨a, t⟩, hfirst, hsecond⟩
      obtain ⟨front, hfront, heats⟩ := (hm.ok_iff hs).1 hfirst
      obtain ⟨back, hback, heats'⟩ := ((hf a).ok_iff (feed.eats_ready hs heats)).1 hsecond
      exact ⟨front ++ back, ⟨a, front, back, hfront, hback, rfl⟩,
        (feed.eats_append hs).2 ⟨t, heats, heats'⟩⟩
    · intro ⟨bytes, ⟨a, front, back, hfront, hback, hbytes⟩, heats⟩
      subst hbytes
      obtain ⟨t, hfirst, hsecond⟩ := (feed.eats_append hs).1 heats
      exact ⟨(a, t), (hm.ok_iff hs).2 ⟨front, hfront, hfirst⟩,
        ((hf a).ok_iff (feed.eats_ready hs hfirst)).2 ⟨back, hback, hsecond⟩⟩
  errors := by
    intro s e hs heq
    rw [StateT.run_bind] at heq
    cases hrun : m.run s with
    | error e' =>
      rw [hrun] at heq
      cases heq
      exact hm.errors hs hrun
    | ok p =>
      rw [hrun] at heq
      obtain ⟨bytes, _, heats⟩ := (hm.ok_iff hs).1 hrun
      exact (hf p.1).errors (feed.eats_ready hs heats) heq

theorem check {cond : Prop} [Decidable cond] {e : ε} (h : safe e) :
    Parses feed safe (check cond e : StateT σ (Except ε) Unit)
      (fun _ bytes => cond ∧ bytes = []) := by
  unfold ByteCodec.check
  by_cases hcond : cond
  · rw [if_pos hcond]
    exact (pure ()).of_iff fun _ _ _ => by simp [hcond]
  · rw [if_neg hcond]
    exact (throw h).of_iff fun _ _ _ => by simp [hcond]

theorem okOr {value : Option α} {e : ε} (h : safe e) :
    Parses feed safe (okOr value e : StateT σ (Except ε) α)
      (fun a bytes => value = some a ∧ bytes = []) := by
  unfold ByteCodec.okOr
  cases value with
  | none => exact (throw h).of_iff fun _ _ _ => by simp
  | some a => exact (pure a).of_iff fun _ _ _ => by simp [eq_comm]

/-- A parser behind a check. -/
theorem guard {cond : Prop} [Decidable cond] {e : ε} (h : safe e)
    (hm : Parses feed safe m accepts) :
    Parses feed safe (ByteCodec.check cond e >>= fun _ : Unit => m)
      (fun a bytes => cond ∧ accepts a bytes) := by
  refine ((check h).bind fun _ => hm).of_iff fun a _ _ => ?_
  constructor
  · intro ⟨_, front, back, ⟨hcond, hfront⟩, hback, hbytes⟩
    subst hfront hbytes
    exact ⟨hcond, hback⟩
  · intro ⟨hcond, hbytes⟩
    exact ⟨(), [], _, ⟨hcond, rfl⟩, hbytes, rfl⟩

/-- A parser behind a computation that can fail. -/
theorem guardSome (value : Option β) {e : ε} {f : β → StateT σ (Except ε) α}
    {accepts' : β → α → Bytes → Prop} (h : safe e)
    (hf : ∀ b, Parses feed safe (f b) (accepts' b)) :
    Parses feed safe (ByteCodec.okOr value e >>= f)
      (fun a bytes => ∃ b, value = some b ∧ accepts' b a bytes) := by
  refine ((okOr h).bind hf).of_iff fun a _ _ => ?_
  constructor
  · intro ⟨b, front, back, ⟨hvalue, hfront⟩, hback, hbytes⟩
    subst hfront hbytes
    exact ⟨b, hvalue, hback⟩
  · intro ⟨b, hvalue, hbytes⟩
    exact ⟨b, [], _, ⟨hvalue, rfl⟩, hbytes, rfl⟩

/-- The value is not used. -/
theorem discard (hm : Parses feed safe m accepts) :
    Parses feed safe (m >>= fun _ => Pure.pure ())
      (fun (_ : Unit) bytes => ∃ a, accepts a bytes) := by
  refine (hm.bind fun _ => pure ()).of_iff fun _ _ _ => ?_
  constructor
  · intro ⟨a, front, back, hfront, ⟨_, hback⟩, hbytes⟩
    subst hback
    rw [List.append_nil] at hbytes
    exact ⟨a, hbytes ▸ hfront⟩
  · intro ⟨a, hbytes⟩
    exact ⟨a, _, [], hbytes, ⟨rfl, rfl⟩, (List.append_nil _).symm⟩

end Parses

/-- A parser that ends well exactly where the rest of the input is in a language.
It may leave it to a later check whether it is at the end. -/
structure Finishes {σ ε α : Type} (feed : Feed σ) (done good : σ → Prop) (safe : ε → Prop)
    (m : StateT σ (Except ε) α) (accepts : Bytes → Prop) : Prop where
  ok_iff : ∀ {s}, feed.ready s → ((∃ a t, m.run s = .ok (a, t) ∧ good t) ↔
    ∃ bytes t, accepts bytes ∧ feed.eats s bytes t ∧ done t)
  errors : ∀ {s e}, feed.ready s → m.run s = .error e → safe e

namespace Finishes

variable {σ ε α β : Type} {feed : Feed σ} {done good : σ → Prop} {safe : ε → Prop}
  {m : StateT σ (Except ε) α}

theorem of_iff {accepts accepts' : Bytes → Prop} (h : Finishes feed done good safe m accepts)
    (hiff : ∀ bytes, accepts bytes ↔ accepts' bytes) : Finishes feed done good safe m accepts' :=
  funext (fun bytes => propext (hiff bytes)) ▸ h

theorem of_parses {accepts : α → Bytes → Prop} (h : Parses feed safe m accepts) :
    Finishes feed done done safe m (fun bytes => ∃ a, accepts a bytes) where
  ok_iff := by
    intro s hs
    constructor
    · intro ⟨a, t, hrun, hdone⟩
      obtain ⟨bytes, haccepts, heats⟩ := (h.ok_iff hs).1 hrun
      exact ⟨bytes, t, ⟨a, haccepts⟩, heats, hdone⟩
    · intro ⟨bytes, t, ⟨a, haccepts⟩, heats, hdone⟩
      exact ⟨a, t, (h.ok_iff hs).2 ⟨bytes, haccepts, heats⟩, hdone⟩
  errors := h.errors

theorem bind {accepts : α → Bytes → Prop} {f : α → StateT σ (Except ε) β}
    {accepts' : α → Bytes → Prop} (hm : Parses feed safe m accepts)
    (hf : ∀ a, Finishes feed done good safe (f a) (accepts' a)) :
    Finishes feed done good safe (m >>= f) (fun bytes =>
      ∃ a front back, accepts a front ∧ accepts' a back ∧ bytes = front ++ back) where
  ok_iff := by
    intro s hs
    simp only [StateT.run_bind, bind_eq_ok]
    constructor
    · intro ⟨b, u, ⟨⟨a, t⟩, hfirst, hsecond⟩, hgood⟩
      obtain ⟨front, hfront, heats⟩ := (hm.ok_iff hs).1 hfirst
      obtain ⟨back, v, hback, heats', hdone⟩ :=
        ((hf a).ok_iff (feed.eats_ready hs heats)).1 ⟨b, u, hsecond, hgood⟩
      exact ⟨front ++ back, v, ⟨a, front, back, hfront, hback, rfl⟩,
        (feed.eats_append hs).2 ⟨t, heats, heats'⟩, hdone⟩
    · intro ⟨bytes, u, ⟨a, front, back, hfront, hback, hbytes⟩, heats, hdone⟩
      subst hbytes
      obtain ⟨t, hfirst, hsecond⟩ := (feed.eats_append hs).1 heats
      obtain ⟨b, v, hrun, hgood⟩ :=
        ((hf a).ok_iff (feed.eats_ready hs hfirst)).2 ⟨back, u, hback, hsecond, hdone⟩
      exact ⟨b, v, ⟨(a, t), (hm.ok_iff hs).2 ⟨front, hfront, hfirst⟩, hrun⟩, hgood⟩
  errors := by
    intro s e hs heq
    rw [StateT.run_bind] at heq
    cases hrun : m.run s with
    | error e' =>
      rw [hrun] at heq
      cases heq
      exact hm.errors hs hrun
    | ok p =>
      rw [hrun] at heq
      obtain ⟨bytes, _, heats⟩ := (hm.ok_iff hs).1 hrun
      exact (hf p.1).errors (feed.eats_ready hs heats) heq

theorem guard {accepts : Bytes → Prop} {cond : Prop} [Decidable cond] {e : ε} (h : safe e)
    (hm : Finishes feed done good safe m accepts) :
    Finishes feed done good safe (ByteCodec.check cond e >>= fun _ : Unit => m)
      (fun bytes => cond ∧ accepts bytes) := by
  refine (bind (Parses.check h) fun _ => hm).of_iff fun bytes => ?_
  constructor
  · intro ⟨_, front, back, ⟨hcond, hfront⟩, hback, hbytes⟩
    subst hfront hbytes
    exact ⟨hcond, hback⟩
  · intro ⟨hcond, hbytes⟩
    exact ⟨(), [], _, ⟨hcond, rfl⟩, hbytes, rfl⟩

theorem run_check_state (done : σ → Prop) [DecidablePred done] {e : ε} (s : σ) :
    (get >>= fun s => ByteCodec.check (done s) e : StateT σ (Except ε) Unit).run s =
      if done s then .ok ((), s) else .error e := by
  show (ByteCodec.check (done s) e : StateT σ (Except ε) Unit).run s = _
  unfold ByteCodec.check
  by_cases hdone : done s
  · rw [if_pos hdone, if_pos hdone]
    rfl
  · rw [if_neg hdone, if_neg hdone]
    rfl

/-- The check that the end is there. -/
theorem ended {accepts : Bytes → Prop} [DecidablePred done] {e : ε} (h : safe e)
    {m : StateT σ (Except ε) Unit} (hm : Finishes feed done done safe m accepts) :
    Finishes feed done (fun _ => True) safe
      (m >>= fun _ => get >>= fun s => ByteCodec.check (done s) e) accepts where
  ok_iff := by
    intro s hs
    rw [← hm.ok_iff hs]
    constructor
    · intro ⟨_, u, hrun, _⟩
      rw [StateT.run_bind, bind_eq_ok] at hrun
      obtain ⟨⟨_, t⟩, hrun, hcheck⟩ := hrun
      rw [run_check_state] at hcheck
      split_ifs at hcheck with hdone
      exact ⟨(), t, hrun, hdone⟩
    · intro ⟨_, t, hrun, hdone⟩
      refine ⟨(), t, ?_, trivial⟩
      rw [StateT.run_bind, bind_eq_ok]
      exact ⟨((), t), hrun, (run_check_state done t).trans (if_pos hdone)⟩
  errors := by
    intro s e' hs heq
    rw [StateT.run_bind] at heq
    cases hrun : m.run s with
    | error e'' =>
      rw [hrun] at heq
      cases heq
      exact hm.errors hs hrun
    | ok p =>
      rw [hrun] at heq
      have hcheck := (run_check_state done p.2).symm.trans heq
      split_ifs at hcheck
      cases hcheck
      exact h

section Answer

variable {accepts : Bytes → Prop} {m : StateT σ (Except ε) Unit} {s : σ}

/-- What is answered when the end has been checked. -/
theorem answer_ok_iff (h : Finishes feed done (fun _ => True) safe m accepts) (hs : feed.ready s) :
    m.run' s = .ok () ↔ ∃ bytes, accepts bytes ∧ ∃ t, feed.eats s bytes t ∧ done t := by
  have hiff := h.ok_iff hs
  unfold StateT.run'
  show Prod.fst <$> m.run s = .ok () ↔ _
  constructor
  · intro hrun
    cases hm : m.run s with
    | error e =>
      rw [hm] at hrun
      cases hrun
    | ok p =>
      obtain ⟨bytes, t, haccepts, hend⟩ := hiff.1 ⟨p.1, p.2, hm, trivial⟩
      exact ⟨bytes, haccepts, t, hend⟩
  · intro ⟨bytes, haccepts, t, hend⟩
    obtain ⟨_, _, hrun, _⟩ := hiff.2 ⟨bytes, t, haccepts, hend⟩
    rw [hrun]
    rfl

theorem answer_error (h : Finishes feed done good safe m accepts) (hs : feed.ready s) {e : ε}
    (heq : m.run' s = .error e) : safe e := by
  unfold StateT.run' at heq
  cases hm : m.run s with
  | error e' =>
    have hrun : Prod.fst <$> m.run s = .error e := heq
    rw [hm] at hrun
    cases hrun
    exact h.errors hs hm
  | ok p =>
    have hrun : Prod.fst <$> m.run s = .error e := heq
    rw [hm] at hrun
    cases hrun

end Answer

end Finishes

end ByteCodec
