import Mathlib.Data.List.ReduceOption
import Mathlib.Algebra.BigOperators.Group.List.Basic
import Mathlib.Algebra.GroupWithZero.Nat

/-!
# Tables that are filled in any order

A sender splits a value into parts, and a receiver has one slot for each part.
The parts come in any order.  `PartOf` says that a table of slots holds only
parts of the value, each in its place.  The receiver counts what came, and
`PartOf.eq_of_full` says that a full count means that every part is there.
-/

namespace Slots

variable {α : Type*}

/-- Each slot is empty or holds the part that belongs there. -/
def PartOf (slots : List (Option α)) (parts : List α) : Prop :=
  List.Forall₂ (fun slot part => slot = none ∨ slot = some part) slots parts

theorem partOf_replicate (parts : List α) :
    PartOf (List.replicate parts.length none) parts := by
  unfold PartOf
  induction parts with
  | nil => exact .nil
  | cons part parts ih => exact .cons (Or.inl rfl) ih

theorem PartOf.set {slots : List (Option α)} {parts : List α} (h : PartOf slots parts)
    {index : Nat} {part : α} (hpart : parts[index]? = some part) :
    PartOf (slots.set index (some part)) parts := by
  unfold PartOf at h ⊢
  induction h generalizing index with
  | nil => simp at hpart
  | cons hslot hrest ih =>
    cases index with
    | zero =>
      have heq := Option.some.inj hpart
      exact .cons (Or.inr (by rw [heq])) hrest
    | succ index => exact .cons hslot (ih hpart)

theorem PartOf.getElem? {slots : List (Option α)} {parts : List α} (h : PartOf slots parts)
    {index : Nat} {part : α} (hpart : parts[index]? = some part) :
    slots[index]? = some none ∨ slots[index]? = some (some part) := by
  unfold PartOf at h
  induction h generalizing index with
  | nil => simp at hpart
  | cons hslot hrest ih =>
    cases index with
    | zero =>
      have heq := Option.some.inj hpart
      simpa [heq] using hslot
    | succ index => exact ih hpart

/-- What came weighs at most as much as the whole. -/
theorem PartOf.sum_le {slots : List (Option α)} {parts : List α} (h : PartOf slots parts)
    (weight : α → Nat) : (slots.reduceOption.map weight).sum ≤ (parts.map weight).sum := by
  unfold PartOf at h
  induction h with
  | nil => exact Nat.le_refl _
  | cons hslot hrest ih =>
    rcases hslot with hnone | hsome
    · subst hnone
      simp only [List.reduceOption_cons_of_none, List.map_cons, List.sum_cons]
      omega
    · subst hsome
      simp only [List.reduceOption_cons_of_some, List.map_cons, List.sum_cons]
      omega

theorem PartOf.eq_of_full {slots : List (Option α)} {parts : List α} (h : PartOf slots parts)
    (hfull : slots.reduceOption.length = slots.length) : slots = parts.map some := by
  have hall := List.reduceOption_length_eq_iff.1 hfull
  unfold PartOf at h
  induction h with
  | nil => rfl
  | cons hslot hrest ih =>
    rcases hslot with hnone | hsome
    · subst hnone
      have := hall none (List.mem_cons_self ..)
      simp at this
    · have hrests := fun slot hmem => hall slot (List.mem_cons_of_mem _ hmem)
      rw [hsome, ih (List.reduceOption_length_eq_iff.2 hrests) hrests]
      rfl

/-- Filling an empty slot adds one part to what came. -/
theorem reduceOption_set {slots : List (Option α)} {index : Nat}
    (h : slots[index]? = some none) (part : α) :
    ∃ front back, slots.reduceOption = front ++ back ∧
      (slots.set index (some part)).reduceOption = front ++ part :: back := by
  have ⟨hlt, hnone⟩ := List.getElem?_eq_some_iff.1 h
  have hbefore : slots = slots.take index ++ none :: slots.drop (index + 1) := by
    rw [← hnone, List.getElem_cons_drop, List.take_append_drop]
  have hafter : slots.set index (some part) =
      slots.take index ++ some part :: slots.drop (index + 1) :=
    List.set_eq_take_append_cons_drop.trans (if_pos hlt)
  refine ⟨(slots.take index).reduceOption, (slots.drop (index + 1)).reduceOption, ?_, ?_⟩
  · calc slots.reduceOption
        = (slots.take index ++ none :: slots.drop (index + 1)).reduceOption := by
          rw [← hbefore]
      _ = (slots.take index).reduceOption ++ (slots.drop (index + 1)).reduceOption := by
          rw [List.reduceOption_append, List.reduceOption_cons_of_none]
  · rw [hafter, List.reduceOption_append, List.reduceOption_cons_of_some]

theorem mapM_map_some (parts : List α) : (parts.map some).mapM id = some parts := by
  induction parts with
  | nil => rfl
  | cons part parts ih => simp [ih]

/-- A table whose parts can all be read is full. -/
theorem eq_map_some_of_mapM {slots : List (Option α)} {parts : List α}
    (h : slots.mapM id = some parts) : slots = parts.map some := by
  induction slots generalizing parts with
  | nil => simp_all
  | cons slot slots ih =>
    cases slot with
    | none => simp at h
    | some part =>
      cases hrest : slots.mapM id with
      | none => simp [hrest] at h
      | some rest =>
        simp only [List.mapM_cons, id_eq, hrest, Option.pure_def, Option.bind_eq_bind,
          Option.bind_some, Option.some.injEq] at h
        rw [← h, ih hrest]
        rfl

end Slots
