import LinkState.Library.Symmetric
import LinkState.Calculator
import Mathlib.Data.List.ProdSigma

/-!
# The correction of the costs

`makeAdjMatrix` ends with a loop over all cells that gives the two cells of a pair one cost. It
writes into the matrix that it reads, and it comes to every pair twice. `correctCosts` is this loop
for costs of any ordered type, and `correctAdjMatrix` is the loop for the costs of Adjacency LSAs.

A turn of the loop is `meetCell commonCost` (`correctCostCell_eq`), and `commonCost` is commutative
and idempotent, so the outcome is the same for every order of the cells.
-/

namespace LinkState

namespace RoutingTableCalculator

variable {C : Type*} [LinearOrder C] [Zero C]

/-- `adjMatrix[row][col] = cost`. -/
def setCost (m : Nat → Nat → C) (row col : Nat) (cost : C) : Nat → Nat → C :=
  fun i j => if i = row ∧ j = col then cost else m i j

/-- One turn of the loop. -/
def correctCostCell (row col : Nat) (m : Nat → Nat → C) : Nat → Nat → C :=
  let toCost := m row col
  let fromCost := m col row
  if fromCost ≠ toCost then
    let correctedCost := if toCost ≠ 0 ∧ fromCost ≠ 0 then max toCost fromCost else 0
    setCost (setCost m row col correctedCost) col row correctedCost
  else m

/-- The correction loop of `makeAdjMatrix`. -/
def correctCosts (nRouters : Nat) (m : Nat → Nat → C) : Nat → Nat → C :=
  loop 0 nRouters (fun row m => loop 0 nRouters (fun col m => correctCostCell row col m) m) m

theorem correctAdjMatrix_eq_correctCosts (nRouters : Nat) (m : AdjMatrix) :
    correctAdjMatrix nRouters m = correctCosts nRouters m := rfl

/-! ## A turn of the loop -/

/-- The cost of a link with two costs: none if one side has none, else the larger one. -/
def commonCost (a b : C) : C := if a = 0 ∨ b = 0 then 0 else max a b

instance : Std.Commutative (commonCost (C := C)) where
  comm a b := by simp only [commonCost, or_comm, max_comm]

instance : Std.IdempotentOp (commonCost (C := C)) where
  idempotent a := by by_cases h : a = 0 <;> simp [commonCost, h]

theorem commonCost_comm (a b : C) : commonCost a b = commonCost b a := Std.Commutative.comm a b

theorem commonCost_self (a : C) : commonCost a a = a := Std.IdempotentOp.idempotent a

/-- **A turn gives both cells their common cost.** -/
theorem correctCostCell_eq (row col : Nat) (m : Nat → Nat → C) :
    correctCostCell row col m = meetCell commonCost m (row, col) := by
  funext i j
  unfold correctCostCell meetCell setCost
  by_cases hne : m col row ≠ m row col
  · rw [if_pos hne]
    have hval : (if m row col ≠ 0 ∧ m col row ≠ 0 then max (m row col) (m col row) else 0) =
        commonCost (m row col) (m col row) := by
      by_cases h₁ : m row col = 0 <;> by_cases h₂ : m col row = 0 <;> simp [commonCost, h₁, h₂]
    by_cases h₁ : i = row ∧ j = col
    · simp [hval, h₁]
    · by_cases h₂ : i = col ∧ j = row
      · simp [hval, h₂, commonCost_comm (m col row)]
      · have h₂' : ¬ (j = row ∧ i = col) := fun h => h₂ h.symm
        simp [h₁, h₂, h₂']
  · have heq : m col row = m row col := not_not.1 hne
    rw [if_neg hne]
    by_cases h₁ : i = row ∧ j = col
    · simp [h₁, heq, commonCost_self]
    · by_cases h₂ : i = col ∧ j = row
      · simp [h₂, heq, commonCost_self]
      · have h₂' : ¬ (j = row ∧ i = col) := fun h => h₂ h.symm
        simp [h₁, h₂']

/-! ## The loop -/

/-- The cells of the loop. -/
def cells (nRouters : Nat) : List (Nat × Nat) :=
  (List.range nRouters).product (List.range nRouters)

theorem mem_cells {nRouters i j : Nat} : (i, j) ∈ cells nRouters ↔ i < nRouters ∧ j < nRouters := by
  simp [cells]

theorem correctCosts_eq (nRouters : Nat) (m : Nat → Nat → C) :
    correctCosts nRouters m = (cells nRouters).foldl (meetCell commonCost) m := by
  simp only [correctCosts, loop, correctCostCell_eq, cells, List.product, Nat.sub_zero,
    List.range_eq_range', List.foldl_flatMap, List.foldl_map]

/-- The cells of the matrix get their common cost, and no other cell changes. -/
theorem correctCosts_apply (nRouters : Nat) (m : Nat → Nat → C) (i j : Nat) :
    correctCosts nRouters m i j =
      if i < nRouters ∧ j < nRouters then commonCost (m i j) (m j i) else m i j := by
  have hiff : ((i, j) ∈ cells nRouters ∨ (j, i) ∈ cells nRouters) ↔
      (i < nRouters ∧ j < nRouters) := by
    rw [mem_cells, mem_cells, and_comm (a := j < nRouters), or_self]
  rw [correctCosts_eq, foldl_meetCell]
  simp only [hiff, meetAll]

/-- Any list of cells of the matrix with one cell of every pair does. -/
theorem foldl_correctCostCell {nRouters : Nat} (m : Nat → Nat → C) {l : List (Nat × Nat)}
    (hl : ∀ i j, (i, j) ∈ l ∨ (j, i) ∈ l ↔ i < nRouters ∧ j < nRouters) :
    l.foldl (fun m p => correctCostCell p.1 p.2 m) m = correctCosts nRouters m := by
  funext i j
  simp only [correctCostCell_eq]
  rw [correctCosts_apply, foldl_meetCell]
  simp only [hl, meetAll]

/-- **The correction is independent of the order.** The loop, and a scan of the cells in any other
order that comes to every pair, end with the larger cost in both directions of a link, and with
none where one side has none; the matrix is then symmetric and the loop changes nothing more. -/
theorem correctCosts_spec (nRouters : Nat) (m : Nat → Nat → C) :
    (∀ i j, i < nRouters → j < nRouters →
      correctCosts nRouters m i j =
        if m i j = 0 ∨ m j i = 0 then 0 else max (m i j) (m j i)) ∧
    (∀ i j, i < nRouters → j < nRouters →
      correctCosts nRouters m i j = correctCosts nRouters m j i) ∧
    correctCosts nRouters (correctCosts nRouters m) = correctCosts nRouters m ∧
    ∀ l : List (Nat × Nat), (∀ i j, (i, j) ∈ l ∨ (j, i) ∈ l ↔ i < nRouters ∧ j < nRouters) →
      l.foldl (fun m p => correctCostCell p.1 p.2 m) m = correctCosts nRouters m := by
  have hcell : ∀ i j, i < nRouters → j < nRouters →
      correctCosts nRouters m i j = commonCost (m i j) (m j i) := fun i j hi hj => by
    rw [correctCosts_apply, if_pos ⟨hi, hj⟩]
  have hsymm : ∀ i j, i < nRouters → j < nRouters →
      correctCosts nRouters m i j = correctCosts nRouters m j i := fun i j hi hj => by
    rw [hcell i j hi hj, hcell j i hj hi]
    exact Std.Commutative.comm (m i j) (m j i)
  refine ⟨hcell, hsymm, ?_, fun l hl => foldl_correctCostCell m hl⟩
  funext i j
  rw [correctCosts_apply]
  split_ifs with h
  · rw [hsymm j i h.2 h.1, commonCost_self]
  · rfl

end RoutingTableCalculator

end LinkState
