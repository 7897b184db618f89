import LinkState.AdjMatrixSpec
import LinkState.CalculatorMemory

/-!
# The matrix in memory

Every function on the matrix runs without a fault and leaves in its rows what the function of the
same name makes of a function on numbers (`HoldsMatrix`). The link arrays are allocated for as many
links as were counted; `runs_takeLinks` says that they are filled with the links of the source, one
entry for each.
-/

namespace LinkState

open RoutingTableCalculator

/-- The matrix is `m`. -/
def HoldsMatrix (b : Cells (Cells Nat)) (n : Nat) (m : AdjMatrix) : Prop :=
  b.HoldsRows n (fun _ _ => True) m

variable {n : Nat} {m : AdjMatrix} {b : Cells (Cells Nat)} {c : CalculatorMemory}

theorem HoldsMatrix.readAt (h : HoldsMatrix b n m) {i j : Nat} (hi : i < n) (hj : j < n) :
    Runs (b.readAt i j) (· = m i j) :=
  Cells.HoldsRows.readAt h hi hj trivial

theorem HoldsMatrix.writeAt (h : HoldsMatrix b n m) {i j : Nat} (hi : i < n) (hj : j < n)
    (cost : Nat) : Runs (b.writeAt i j cost) (HoldsMatrix · n (m.set i j cost)) :=
  (Cells.HoldsRows.writeAt h hi hj cost).imp fun _ h' =>
    h'.congr fun _ _ _ _ _ => ⟨Or.inr trivial, rfl⟩

namespace CalculatorMemory

/-! ## The matrix -/

/-- The new rows have not been written. -/
theorem runs_allocateAdjMatrix (c : CalculatorMemory) (m : AdjMatrix) :
    Runs c.allocateAdjMatrix fun c' => ∃ adjMatrix, c' = { c with adjMatrix } ∧
      adjMatrix.HoldsRows c.nRouters (fun _ _ => False) m := by
  unfold allocateAdjMatrix
  refine (runs_loopM (P := fun i b => Cells.Holds b c.nRouters (· < i) fun _ =>
    Cells.alloc c.nRouters) (Nat.zero_le _) ?_ ?_).bind fun b hb => ?_
  · exact Cells.holds_zero (Cells.size_alloc _) _
  · exact fun i b _ hi hb => hb.write_next hi
  · exact Runs.ok ⟨b, rfl, hb.size, fun i hi => ⟨_, hb.cell i hi hi, Cells.holds_alloc _ _⟩⟩

theorem runs_initMatrix (h : c.adjMatrix.HoldsRows c.nRouters (fun _ _ => False) fun _ _ => 0) :
    Runs c.initMatrix fun c' => ∃ adjMatrix, c' = { c with adjMatrix } ∧
      HoldsMatrix adjMatrix c.nRouters fun _ _ => 0 := by
  unfold initMatrix
  refine (runs_loopM (P := fun i b => b.HoldsRows c.nRouters (fun r _ => r < i) fun _ _ => 0)
    (Nat.zero_le _) ?_ ?_).bind fun b hb => Runs.ok ⟨b, rfl, ?_⟩
  · exact h.congr fun _ _ _ _ h => absurd h (Nat.not_lt_zero _)
  · intro i b _ hi hb
    -- the cells before `j` in row `i`, and the rows before it
    refine (runs_loopM (P := fun j b => b.HoldsRows c.nRouters
      (fun r k => r < i ∨ r = i ∧ k < j) fun _ _ => 0) (Nat.zero_le _) ?_ ?_).imp fun b' hb' => ?_
    · exact hb.congr fun r k _ _ hr => ⟨by omega, rfl⟩
    · intro j b _ hj hb
      refine (hb.writeAt hi hj 0).imp fun b' hb' => hb'.congr fun r k _ _ hr => ⟨by omega, ?_⟩
      split_ifs <;> rfl
    · exact hb'.congr fun r k _ hk hr => ⟨by omega, rfl⟩
  · exact hb.congr fun i _ hi _ _ => ⟨hi, rfl⟩

/-- The costs one LSA advertises. -/
theorem runs_fillRow (h : HoldsMatrix b n m) (pMap : Map) (lsa : AdjLsa) :
    Runs (fillRow n pMap lsa b) (HoldsMatrix · n (lsa.adl.toList.foldl (fun m adjacent =>
      match pMap.getMappingNoByRouterName lsa.origRouter,
          pMap.getMappingNoByRouterName adjacent.name with
      | some row, some col =>
        if row < n ∧ col < n then m.set row col adjacent.getLinkCost else m
      | _, _ => m) m)) := by
  unfold fillRow
  refine runs_foldlM_sim (R := fun b m => HoldsMatrix b n m) (fun b m adjacent _ hb => ?_) h
  cases hrow : pMap.getMappingNoByRouterName lsa.origRouter with
  | none =>
    rw [Map.mappingNo_of_none hrow, if_neg (by omega)]
    exact Runs.ok hb
  | some row =>
    cases hcol : pMap.getMappingNoByRouterName adjacent.name with
    | none =>
      rw [Map.mappingNo_of_none hcol, if_neg (by omega)]
      exact Runs.ok hb
    | some col =>
      rw [Map.mappingNo_of_some hrow, Map.mappingNo_of_some hcol]
      dsimp only
      by_cases hlt : row < n ∧ col < n
      · rw [if_pos (by omega), if_pos hlt]
        exact hb.writeAt hlt.1 hlt.2 _
      · rw [if_neg (by omega), if_neg hlt]
        exact Runs.ok hb

theorem runs_correctCell (h : HoldsMatrix b n m) {row col : Nat} (hrow : row < n)
    (hcol : col < n) : Runs (correctCell row col b)
      (HoldsMatrix · n (RoutingTableCalculator.correctCell row col m)) := by
  unfold correctCell RoutingTableCalculator.correctCell
  refine (h.readAt hrow hcol).bind_eq ?_
  refine (h.readAt hcol hrow).bind_eq ?_
  dsimp only
  by_cases hne : m col row ≠ m row col
  · rw [if_pos hne, if_pos hne]
    exact (h.writeAt hrow hcol _).bind fun b' hb' => hb'.writeAt hcol hrow _
  · rw [if_neg hne, if_neg hne]
    exact Runs.ok h

theorem runs_correctRow (h : HoldsMatrix b n m) {row : Nat} (hrow : row < n) :
    Runs (loopM 0 n (fun col b => correctCell row col b) b) (HoldsMatrix · n
      (loop 0 n (fun col m => RoutingTableCalculator.correctCell row col m) m)) := by
  refine runs_loopM_sim (R := fun b m => HoldsMatrix b n m) (fun col b m _ hcol hb => ?_) h
  exact runs_correctCell hb hrow hcol

theorem runs_makeAdjMatrix (h : HoldsMatrix c.adjMatrix c.nRouters fun _ _ => 0)
    (adjLsdb : KeyedList AdjLsa.getKey) (pMap : Map) :
    Runs (c.makeAdjMatrix adjLsdb pMap) fun c' => ∃ adjMatrix, c' = { c with adjMatrix } ∧
      HoldsMatrix adjMatrix c.nRouters
        (RoutingTableCalculator.makeAdjMatrix c.nRouters adjLsdb pMap) := by
  have hfill := runs_foldlM_sim (R := fun b m => HoldsMatrix b c.nRouters m)
    (l := adjLsdb.toList) (fun _ _ lsa _ hb => runs_fillRow hb pMap lsa) h
  refine hfill.bind fun b hb => ?_
  refine (runs_loopM_sim (R := fun b m => HoldsMatrix b c.nRouters m)
    (fun row b m _ hrow hb => ?_) hb).bind fun b' hb' => Runs.ok ⟨b', rfl, hb'⟩
  exact runs_correctRow hb hrow

theorem runs_writeAdjMatrixLog (h : HoldsMatrix c.adjMatrix c.nRouters m) :
    Runs c.writeAdjMatrixLog fun _ => True := by
  refine runs_loopM (P := fun _ _ => True) (Nat.zero_le _) trivial fun i _ _ hi _ => ?_
  refine runs_loopM (P := fun _ _ => True) (Nat.zero_le _) trivial fun j _ _ hj _ => ?_
  exact (h.readAt hi hj).bind fun _ _ => Runs.ok trivial

theorem runs_freeAdjMatrix (h : HoldsMatrix c.adjMatrix c.nRouters m) :
    Runs c.freeAdjMatrix fun _ => True := by
  refine runs_loopM (P := fun _ _ => True) (Nat.zero_le _) trivial fun i _ _ hi _ => ?_
  obtain ⟨r, hr, -⟩ := h.row i hi
  rw [Cells.read_of_some hr]
  exact Runs.ok trivial

theorem runs_adjustAdMatrix (h : HoldsMatrix c.adjMatrix c.nRouters m) {source : Nat}
    (hsource : source < c.nRouters) (link linkCost : Nat) :
    Runs (c.adjustAdMatrix source link linkCost) fun c' => ∃ adjMatrix,
      c' = { c with adjMatrix } ∧ HoldsMatrix adjMatrix c.nRouters
        (RoutingTableCalculator.adjustAdMatrix c.nRouters source link linkCost m) := by
  unfold adjustAdMatrix
  refine (runs_loopM_sim (R := fun b m => HoldsMatrix b c.nRouters m)
    (f := fun i m => m.set source i (if i = link then linkCost else 0))
    (fun i b m _ hi hb => ?_) h).bind fun b hb => Runs.ok ⟨b, rfl, hb⟩
  by_cases hlink : i = link
  · rw [if_pos (by omega), if_pos hlink]
    exact hb.writeAt hsource hi _
  · rw [if_neg (by omega), if_neg hlink]
    exact hb.writeAt hsource hi _

/-! ## The links of the source -/

/-- The links of the source before router `i`. -/
def linksBefore (m : AdjMatrix) (source i : Nat) : List Nat :=
  (List.range i).filter fun k => m source k > 0

theorem getLinksFromAdjMatrix_eq (n : Nat) (m : AdjMatrix) (source : Nat) :
    RoutingTableCalculator.getLinksFromAdjMatrix n m source =
      (linksBefore m source n).map fun k => (k, m source k) := rfl

theorem linksBefore_succ (m : AdjMatrix) (source i : Nat) : linksBefore m source (i + 1) =
    if m source i > 0 then linksBefore m source i ++ [i] else linksBefore m source i := by
  rw [linksBefore, List.range_succ, List.filter_append, List.filter_singleton]
  split_ifs with h <;> simp [h, linksBefore]

theorem length_linksBefore_le (m : AdjMatrix) (source : Nat) {i n : Nat} (h : i ≤ n) :
    (linksBefore m source i).length ≤ (linksBefore m source n).length :=
  ((List.range_sublist.2 h).filter _).length_le

theorem runs_getNumOfLinkfromAdjMatrix (h : HoldsMatrix c.adjMatrix c.nRouters m) {source : Nat}
    (hsource : source < c.nRouters) : Runs (c.getNumOfLinkfromAdjMatrix source)
      (· = (linksBefore m source c.nRouters).length) := by
  refine runs_loopM (P := fun i noLink => noLink = (linksBefore m source i).length)
    (Nat.zero_le _) rfl fun i noLink _ hi hcount => ?_
  refine (h.readAt hsource hi).bind_eq ?_
  rw [linksBefore_succ]
  by_cases hpos : m source i > 0
  · rw [if_pos hpos, if_pos hpos]
    exact Runs.ok (by simp [hcount])
  · rw [if_neg hpos, if_neg hpos]
    exact Runs.ok hcount

/-- Every link that was counted gets one entry in each array. -/
theorem runs_getLinksFromAdjMatrix (h : HoldsMatrix c.adjMatrix c.nRouters m) {source : Nat}
    (hsource : source < c.nRouters) {v : Nat}
    (hv : v = (linksBefore m source c.nRouters).length) (hlinks : c.links = Cells.alloc v)
    (hcosts : c.linkCosts = Cells.alloc v) :
    Runs (c.getLinksFromAdjMatrix source) fun r => r.2 = v ∧ ∃ links linkCosts,
      r.1 = { c with links, linkCosts } ∧
        links.Filled v ((linksBefore m source c.nRouters).map fun k : Nat => (k : Int)) ∧
        linkCosts.Filled v ((linksBefore m source c.nRouters).map (m source)) := by
  unfold getLinksFromAdjMatrix
  refine (runs_loopM (P := fun i s => s.j = (linksBefore m source i).length ∧
    s.links.Filled v ((linksBefore m source i).map fun k : Nat => (k : Int)) ∧
    s.linkCosts.Filled v ((linksBefore m source i).map (m source)))
    (Nat.zero_le _) ?_ ?_).bind fun s hs => ?_
  · exact ⟨rfl, hlinks ▸ Cells.filled_alloc v, hcosts ▸ Cells.filled_alloc v⟩
  · rintro i s - hi ⟨hj, hfilled, hfilled'⟩
    have hle := length_linksBefore_le m source (Nat.succ_le_of_lt hi)
    rw [linksBefore_succ] at hle ⊢
    refine (h.readAt hsource hi).bind_eq ?_
    by_cases hpos : m source i > 0
    · rw [if_pos hpos] at hle ⊢
      rw [if_pos hpos]
      have hroom : (linksBefore m source i).length < v := by
        rw [hv]
        simpa [Nat.succ_le_iff] using hle
      have hj₁ : s.j = ((linksBefore m source i).map fun k : Nat => (k : Int)).length := by
        simp [hj]
      have hj₂ : s.j = ((linksBefore m source i).map (m source)).length := by simp [hj]
      refine Runs.bind (hj₁ ▸ hfilled.write (by simpa using hroom) (i : Int)) fun links hl => ?_
      refine (h.readAt hsource hi).bind_eq ?_
      refine Runs.bind (hj₂ ▸ hfilled'.write (by simpa using hroom) (m source i)) fun costs hc => ?_
      exact Runs.ok ⟨by simp [hj], by simpa using hl, by simpa using hc⟩
    · rw [if_neg hpos, if_neg hpos]
      exact Runs.ok ⟨hj, hfilled, hfilled'⟩
  · exact Runs.ok ⟨hs.1.trans hv.symm, s.links, s.linkCosts, rfl, hs.2⟩

/-- **The link arrays** have an entry for each link of the source, and no other cell. -/
theorem runs_takeLinks (h : HoldsMatrix c.adjMatrix c.nRouters m) {source : Nat}
    (hsource : source < c.nRouters) :
    Runs (c.takeLinks source) fun r =>
      r.2 = (linksBefore m source c.nRouters).length ∧ ∃ links linkCosts,
        r.1 = { c with vNoLink := r.2, links, linkCosts } ∧
          links.Filled r.2 ((linksBefore m source c.nRouters).map fun k : Nat => (k : Int)) ∧
          linkCosts.Filled r.2 ((linksBefore m source c.nRouters).map (m source)) := by
  refine (runs_getNumOfLinkfromAdjMatrix h hsource).bind fun v hv => ?_
  refine (runs_getLinksFromAdjMatrix (c := ((c.setNoLink v).allocateLinks.allocateLinkCosts))
    h hsource hv rfl rfl).imp ?_
  rintro ⟨c', j⟩ ⟨hj, links, linkCosts, hform, hfilled⟩
  obtain rfl : j = v := hj
  exact ⟨hv, links, linkCosts, hform, hfilled⟩

end CalculatorMemory

end LinkState
