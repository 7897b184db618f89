import Mathlib.Data.List.Basic
import Mathlib.Logic.Function.Basic

/-!
# Making a table symmetric in place

`meetCell g m (i, j)` writes `g (m i j) (m j i)` into the cell `(i, j)` of a table and into its
mirror image. Where `g` is commutative and idempotent, a second visit of a pair changes nothing,
from either side. Hence the order of the visits does not matter (`foldl_meetCell`): after a list of
cells those pairs are met that occur in it.
-/

namespace LinkState

variable {ι α : Type*}

/-- Write `g` of a cell and its mirror image into both. -/
def meetCell [DecidableEq ι] (g : α → α → α) (m : ι → ι → α) (p : ι × ι) : ι → ι → α := fun i j =>
  if (i, j) = p ∨ (j, i) = p then g (m i j) (m j i) else m i j

/-- The table in which every pair has been met. -/
def meetAll (g : α → α → α) (m : ι → ι → α) : ι → ι → α := fun i j => g (m i j) (m j i)

theorem meetAll_comm {g : α → α → α} [Std.Commutative g] (m : ι → ι → α) (i j : ι) :
    meetAll g m i j = meetAll g m j i :=
  Std.Commutative.comm (m i j) (m j i)

variable {g : α → α → α} [Std.Commutative g] [Std.IdempotentOp g]

/-- **The order of the visits does not matter.** -/
theorem foldl_meetCell [DecidableEq ι] (cells : List (ι × ι)) (m : ι → ι → α) (i j : ι) :
    cells.foldl (meetCell g) m i j =
      if (i, j) ∈ cells ∨ (j, i) ∈ cells then meetAll g m i j else m i j := by
  induction cells generalizing m with
  | nil => simp
  | cons p cells ih =>
    rw [List.foldl_cons, ih]
    have hcell : ∀ {i j : ι}, (i, j) = p ∨ (j, i) = p → meetCell g m p i j = meetAll g m i j :=
      fun h => if_pos h
    by_cases hp : (i, j) = p ∨ (j, i) = p
    · have hmem : (i, j) ∈ p :: cells ∨ (j, i) ∈ p :: cells :=
        hp.imp (fun h => List.mem_cons.2 (Or.inl h)) fun h => List.mem_cons.2 (Or.inl h)
      rw [if_pos hmem]
      split_ifs
      · -- Met by the first visit already
        have hself : g (meetAll g m i j) (meetAll g m i j) = meetAll g m i j :=
          Std.IdempotentOp.idempotent _
        rw [meetAll, hcell hp, hcell hp.symm, meetAll_comm m j i, hself]
      · exact hcell hp
    · have hsame : meetCell g m p i j = m i j := if_neg hp
      have hsame' : meetCell g m p j i = m j i := if_neg fun h => hp h.symm
      have hiff : ((i, j) ∈ p :: cells ∨ (j, i) ∈ p :: cells) ↔
          ((i, j) ∈ cells ∨ (j, i) ∈ cells) := by
        have hi : (i, j) ≠ p := fun h => hp (Or.inl h)
        have hj : (j, i) ≠ p := fun h => hp (Or.inr h)
        simp [hi, hj]
      simp only [hiff, meetAll, hsame, hsame']

end LinkState
