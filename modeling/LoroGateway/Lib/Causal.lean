import Mathlib.Data.Set.Basic
import Mathlib.Data.Set.Lattice
import Mathlib.Tactic
import Mathlib.Order.CompletePartialOrder

/-!
# Operations with dependencies

A replica that receives operations in any order applies an operation as soon
as everything it depends on has been applied, and keeps the others waiting.
`settled deps known` is the set of the operations that are applied when the
set `known` has been received.  It is the least set that holds every known
operation whose dependencies it holds.

The lemmas say that the settled set only grows, that it is closed under
dependencies, and that nothing between the settled and the known set settles
differently (`settled_eq_of_between`), which is what makes it safe to forget
the waiting operations and to receive them again.
-/

namespace Causal

variable {Op : Type} {deps : Op → Set Op} {known known' : Set Op}

/-- An operation is settled when it is known and all it depends on is settled. -/
inductive Settled (deps : Op → Set Op) (known : Set Op) : Op → Prop
  | intro {o : Op} (mem : o ∈ known) (ready : ∀ d ∈ deps o, Settled deps known d) :
      Settled deps known o

/-- The operations that are applied when `known` has been received. -/
def settled (deps : Op → Set Op) (known : Set Op) : Set Op := {o | Settled deps known o}

theorem settled_subset : settled deps known ⊆ known := by
  rintro o ⟨hmem, _⟩
  exact hmem

theorem settled_mono (h : known ⊆ known') : settled deps known ⊆ settled deps known' := by
  intro o ho
  induction ho with
  | intro hmem _ ih => exact ⟨h hmem, ih⟩

/-- A set between the settled and the known operations settles to the same
operations. -/
theorem settled_eq_of_between (hlow : settled deps known ⊆ known') (hhigh : known' ⊆ known) :
    settled deps known' = settled deps known := by
  refine Set.Subset.antisymm (settled_mono hhigh) ?_
  intro o ho
  induction ho with
  | intro hmem hready ih => exact ⟨hlow ⟨hmem, hready⟩, ih⟩

theorem settled_settled : settled deps (settled deps known) = settled deps known :=
  settled_eq_of_between subset_rfl settled_subset

/-- A piece of what is known is wholly settled on its own base exactly when it
is settled in the whole. -/
theorem subset_settled_union_iff {piece : Set Op} (h : piece ⊆ known) :
    piece ⊆ settled deps (settled deps known ∪ piece) ↔ piece ⊆ settled deps known := by
  have hbetween : settled deps (settled deps known ∪ piece) = settled deps known :=
    settled_eq_of_between Set.subset_union_left (Set.union_subset settled_subset h)
  rw [hbetween]

end Causal
