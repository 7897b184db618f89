import LinkState.Correction
import LinkState.DijkstraRun

/-!
# The cost matrix and the graph of the LSDB

The graph of an Adjacency LSDB has a link between two routers when each lists the other with a
cost, at the larger of the two costs (`linkCost`). `makeAdjMatrix` is this graph written with
router numbers (`makeAdjMatrix_spec`): it first fills in what each LSA advertises
(`fillAdjMatrix_spec`) and then corrects every cell in place (`correctAdjMatrix_spec`).
-/

namespace LinkState

/-- The cost at which the LSA of `x` lists `y`; 0 when it does not. -/
def advertisedCost (adjLsdb : KeyedList AdjLsa.getKey) (x y : Name) : Nat :=
  match adjLsdb.find? (AdjLsa.key x) with
  | none => 0
  | some lsa =>
    match lsa.adl.find? y with
    | none => 0
    | some adjacent => adjacent.getLinkCost

/-- The cost two sides agree on: none if one side has none, else the larger one. -/
def agreedCost (a b : Nat) : Nat := if a = 0 ∨ b = 0 then 0 else max a b

/-- **The graph of an Adjacency LSDB**: 0 for no link. -/
def linkCost (adjLsdb : KeyedList AdjLsa.getKey) (x y : Name) : Nat :=
  if x = y then 0 else agreedCost (advertisedCost adjLsdb x y) (advertisedCost adjLsdb y x)

theorem agreedCost_comm (a b : Nat) : agreedCost a b = agreedCost b a := by
  simp only [agreedCost, or_comm, max_comm]

theorem linkCost_self (adjLsdb : KeyedList AdjLsa.getKey) (x : Name) : linkCost adjLsdb x x = 0 :=
  if_pos rfl

/-- The adjacents of an LSA, by name and cost, as the matrix reads them. -/
theorem advertisedCost_eq (adjLsdb : KeyedList AdjLsa.getKey) (x y : Name) :
    advertisedCost adjLsdb x y = ((adjLsdb.find? (AdjLsa.key x)).bind fun lsa =>
      (lsa.adl.find? y).map Adjacent.getLinkCost).getD 0 := by
  unfold advertisedCost
  cases adjLsdb.find? (AdjLsa.key x) with
  | none => rfl
  | some lsa =>
    dsimp only [Option.bind_some]
    cases lsa.adl.find? y <;> rfl

/-- Linked routers list each other. -/
theorem exists_adjacent_of_linkCost {adjLsdb : KeyedList AdjLsa.getKey} {x y : Name}
    (h : 0 < linkCost adjLsdb x y) :
    ∃ lsa a, adjLsdb.find? (AdjLsa.key x) = some lsa ∧ lsa.adl.find? y = some a := by
  have hadv : advertisedCost adjLsdb x y ≠ 0 := by
    intro h0
    unfold linkCost agreedCost at h
    simp [h0] at h
  rw [advertisedCost_eq] at hadv
  cases hlsa : adjLsdb.find? (AdjLsa.key x) with
  | none => simp [hlsa] at hadv
  | some lsa =>
    cases ha : lsa.adl.find? y with
    | none => simp [hlsa, ha] at hadv
    | some a => exact ⟨lsa, a, rfl, ha⟩

theorem linkCost_comm (adjLsdb : KeyedList AdjLsa.getKey) (x y : Name) :
    linkCost adjLsdb x y = linkCost adjLsdb y x := by
  unfold linkCost
  by_cases h : x = y
  · rw [if_pos h, if_pos h.symm]
  · rw [if_neg h, if_neg (Ne.symm h), agreedCost_comm]

/-- A linked router has an LSA. -/
theorem contains_of_linkCost {adjLsdb : KeyedList AdjLsa.getKey} {x y : Name}
    (h : 0 < linkCost adjLsdb x y) : adjLsdb.contains (AdjLsa.key y) := by
  rw [linkCost_comm] at h
  obtain ⟨lsa, -, hlsa, -⟩ := exists_adjacent_of_linkCost h
  rw [KeyedList.contains, hlsa]
  rfl

namespace RoutingTableCalculator

/-! ## Filling in what is advertised -/

/-- What the LSAs of an LSDB advertise: origin, adjacent, cost. -/
def advertisements (adjLsdb : KeyedList AdjLsa.getKey) : List (Name × Name × Nat) :=
  adjLsdb.toList.flatMap fun lsa =>
    lsa.adl.toList.map fun adjacent => (lsa.origRouter, adjacent.name, adjacent.getLinkCost)

/-- Write one advertised cost into the matrix. -/
def setAdvertised (nRouters : Nat) (pMap : Map) (m : AdjMatrix) (e : Name × Name × Nat) :
    AdjMatrix :=
  match pMap.getMappingNoByRouterName e.1, pMap.getMappingNoByRouterName e.2.1 with
  | some row, some col => if row < nRouters ∧ col < nRouters then m.set row col e.2.2 else m
  | _, _ => m

theorem fillAdjMatrix_eq (nRouters : Nat) (adjLsdb : KeyedList AdjLsa.getKey) (pMap : Map) :
    fillAdjMatrix nRouters adjLsdb pMap =
      (advertisements adjLsdb).foldl (setAdvertised nRouters pMap) fun _ _ => 0 := by
  rw [advertisements, List.foldl_flatMap]
  refine congrArg (fun f => List.foldl f _ _) ?_
  funext m lsa
  rw [List.foldl_map]
  rfl

/-- A cost of the list is the cost in the LSA of its origin. -/
theorem cost_of_mem_advertisements {adjLsdb : KeyedList AdjLsa.getKey} {x y : Name} {c : Nat}
    (h : (x, y, c) ∈ advertisements adjLsdb) : advertisedCost adjLsdb x y = c := by
  obtain ⟨lsa, hlsa, hmem⟩ := List.mem_flatMap.1 h
  obtain ⟨adjacent, hadj, heq⟩ := List.mem_map.1 hmem
  obtain ⟨rfl, rfl, rfl⟩ : lsa.origRouter = x ∧ adjacent.name = y ∧ adjacent.getLinkCost = c := by
    simpa using heq
  have hl : adjLsdb.find? (AdjLsa.key lsa.origRouter) = some lsa := KeyedList.find?_of_mem hlsa
  have ha : lsa.adl.find? adjacent.name = some adjacent := KeyedList.find?_of_mem hadj
  simp only [advertisedCost, hl, ha]

/-- Routers that do not occur together in the list have no advertised cost. -/
theorem advertisedCost_eq_zero {adjLsdb : KeyedList AdjLsa.getKey} {x y : Name}
    (h : ∀ c, (x, y, c) ∉ advertisements adjLsdb) : advertisedCost adjLsdb x y = 0 := by
  unfold advertisedCost
  cases hl : adjLsdb.find? (AdjLsa.key x) with
  | none => rfl
  | some lsa =>
    have hkey : lsa.getKey = AdjLsa.key x := KeyedList.key_of_find? hl
    have hx : lsa.origRouter = x := AdjLsa.key_injective hkey
    cases ha : lsa.adl.find? y with
    | none => simp [ha]
    | some adjacent =>
      refine absurd ?_ (h adjacent.getLinkCost)
      refine List.mem_flatMap.2 ⟨lsa, KeyedList.mem_of_find? hl, List.mem_map.2
        ⟨adjacent, KeyedList.mem_of_find? ha, ?_⟩⟩
      rw [hx, KeyedList.key_of_find? ha]

theorem setAdvertised_apply {nRouters : Nat} {pMap : Map} (m : AdjMatrix) (e : Name × Name × Nat)
    {i j : Nat} (hi : i < nRouters) (hj : j < nRouters) :
    setAdvertised nRouters pMap m e i j =
      if pMap.getMappingNoByRouterName e.1 = some i ∧
          pMap.getMappingNoByRouterName e.2.1 = some j then e.2.2 else m i j := by
  unfold setAdvertised
  cases hrow : pMap.getMappingNoByRouterName e.1 with
  | none => simp
  | some row =>
    cases hcol : pMap.getMappingNoByRouterName e.2.1 with
    | none => simp
    | some col =>
      by_cases hcell : row = i ∧ col = j
      · obtain ⟨rfl, rfl⟩ := hcell
        simp [hi, hj, AdjMatrix.set]
      · have hcell' : ¬ (i = row ∧ j = col) := fun h => hcell ⟨h.1.symm, h.2.symm⟩
        simp only [Option.some.injEq, if_neg hcell]
        split_ifs
        · rw [AdjMatrix.set, if_neg hcell']
        · rfl

/-- Entries for a cell that all have one cost put this cost there. -/
theorem foldl_setAdvertised {nRouters : Nat} {pMap : Map} {i j c : Nat} (hi : i < nRouters)
    (hj : j < nRouters) (l : List (Name × Name × Nat)) (m : AdjMatrix)
    (hc : ∀ e ∈ l, pMap.getMappingNoByRouterName e.1 = some i →
      pMap.getMappingNoByRouterName e.2.1 = some j → e.2.2 = c) :
    ((∃ e ∈ l, pMap.getMappingNoByRouterName e.1 = some i ∧
        pMap.getMappingNoByRouterName e.2.1 = some j) →
      l.foldl (setAdvertised nRouters pMap) m i j = c) ∧
    ((¬ ∃ e ∈ l, pMap.getMappingNoByRouterName e.1 = some i ∧
        pMap.getMappingNoByRouterName e.2.1 = some j) →
      l.foldl (setAdvertised nRouters pMap) m i j = m i j) := by
  induction l generalizing m with
  | nil => exact ⟨fun h => by simp at h, fun _ => rfl⟩
  | cons e l ih =>
    have hcl := fun e' he' => hc e' (List.mem_cons_of_mem _ he')
    obtain ⟨hsome, hnone⟩ := ih (setAdvertised nRouters pMap m e) hcl
    rw [List.foldl_cons]
    by_cases hl : ∃ e ∈ l, pMap.getMappingNoByRouterName e.1 = some i ∧
        pMap.getMappingNoByRouterName e.2.1 = some j
    · refine ⟨fun _ => hsome hl, fun h => absurd ?_ h⟩
      obtain ⟨e', he', h'⟩ := hl
      exact ⟨e', List.mem_cons_of_mem _ he', h'⟩
    · rw [hnone hl, setAdvertised_apply m e hi hj]
      by_cases he : pMap.getMappingNoByRouterName e.1 = some i ∧
          pMap.getMappingNoByRouterName e.2.1 = some j
      · rw [if_pos he]
        exact ⟨fun _ => hc e List.mem_cons_self he.1 he.2,
          fun h => absurd ⟨e, List.mem_cons_self, he⟩ h⟩
      · rw [if_neg he]
        refine ⟨fun h => ?_, fun _ => rfl⟩
        obtain ⟨e', he', h'⟩ := h
        rcases List.mem_cons.1 he' with rfl | he'
        · exact absurd h' he
        · exact absurd ⟨e', he', h'⟩ hl

/-- **Filling in**: each cell holds what the router of its row advertises for that of its
column. -/
theorem fillAdjMatrix_spec {adjLsdb : KeyedList AdjLsa.getKey} {pMap : Map} (h : pMap.Numbered)
    {i j : Nat} (hi : i < pMap.getMapSize) (hj : j < pMap.getMapSize) :
    fillAdjMatrix pMap.getMapSize adjLsdb pMap i j =
      advertisedCost adjLsdb (pMap.getRouterNameByMappingNo i)
        (pMap.getRouterNameByMappingNo j) := by
  have hnum : ∀ {x : Name} {k : Nat}, k < pMap.getMapSize →
      (pMap.getMappingNoByRouterName x = some k ↔ pMap.getRouterNameByMappingNo k = x) :=
    fun hk => (Map.getMappingNo_eq_some_iff h).trans (and_iff_right hk)
  obtain ⟨hsome, hnone⟩ := foldl_setAdvertised hi hj (advertisements adjLsdb) (fun _ _ => 0)
    (c := advertisedCost adjLsdb (pMap.getRouterNameByMappingNo i)
      (pMap.getRouterNameByMappingNo j)) (by
      intro e he hx hy
      rw [(hnum hi).1 hx, (hnum hj).1 hy]
      exact (cost_of_mem_advertisements he).symm)
  rw [fillAdjMatrix_eq]
  by_cases hex : ∃ e ∈ advertisements adjLsdb, pMap.getMappingNoByRouterName e.1 = some i ∧
      pMap.getMappingNoByRouterName e.2.1 = some j
  · exact hsome hex
  · rw [hnone hex, advertisedCost_eq_zero]
    exact fun c hc => hex ⟨_, hc, (hnum hi).2 rfl, (hnum hj).2 rfl⟩

/-! ## Correcting the cells -/

/-- **Correcting in place**: every link ends with the cost its two sides agree on. -/
theorem correctAdjMatrix_spec {nRouters : Nat} (m : AdjMatrix) {i j : Nat} (hi : i < nRouters)
    (hj : j < nRouters) : correctAdjMatrix nRouters m i j = agreedCost (m i j) (m j i) := by
  rw [correctAdjMatrix_eq_correctCosts, correctCosts_apply, if_pos ⟨hi, hj⟩]
  rfl

/-- **The matrix is the graph**, self-loops aside. -/
theorem makeAdjMatrix_spec {adjLsdb : KeyedList AdjLsa.getKey} {pMap : Map} (h : pMap.Numbered)
    {i j : Nat} (hi : i < pMap.getMapSize) (hj : j < pMap.getMapSize) (hij : i ≠ j) :
    makeAdjMatrix pMap.getMapSize adjLsdb pMap i j =
      linkCost adjLsdb (pMap.getRouterNameByMappingNo i) (pMap.getRouterNameByMappingNo j) := by
  have hne : pMap.getRouterNameByMappingNo i ≠ pMap.getRouterNameByMappingNo j :=
    fun hc => hij (Map.getRouterNameByMappingNo_inj h hi hj hc)
  rw [makeAdjMatrix, correctAdjMatrix_spec _ hi hj, fillAdjMatrix_spec h hi hj,
    fillAdjMatrix_spec h hj hi, linkCost, if_neg hne]

/-! ## The row of the source -/

theorem adjustAdMatrix_spec (nRouters source link cost : Nat) (m : AdjMatrix) (i j : Nat) :
    adjustAdMatrix nRouters source link cost m i j =
      if i = source ∧ j < nRouters then (if j = link then cost else 0) else m i j := by
  have h := loop_induction (k := 0) (n := nRouters) (b := m)
    (f := fun i m => AdjMatrix.set m source i (if i = link then cost else 0))
    (P := fun k (m' : AdjMatrix) => ∀ i j, m' i j =
      if i = source ∧ j < k then (if j = link then cost else 0) else m i j)
    (Nat.zero_le _) (fun i j => by simp) ?_
  · exact h i j
  · intro k m' _ _ hm' i j
    rw [AdjMatrix.set]
    by_cases h₁ : i = source ∧ j = k
    · have hlt : i = source ∧ j < k + 1 := ⟨h₁.1, by omega⟩
      rw [if_pos h₁, if_pos hlt, h₁.2]
    · have hiff : (i = source ∧ j < k + 1) ↔ (i = source ∧ j < k) := by omega
      rw [if_neg h₁, hm']
      simp only [hiff]

/-- Cutting the row again forgets the first cut. -/
theorem adjustAdMatrix_adjustAdMatrix (nRouters source link cost link' cost' : Nat)
    (m : AdjMatrix) :
    adjustAdMatrix nRouters source link cost (adjustAdMatrix nRouters source link' cost' m) =
      adjustAdMatrix nRouters source link cost m := by
  funext i j
  simp only [adjustAdMatrix_spec]
  split_ifs <;> rfl

theorem mem_getLinksFromAdjMatrix {nRouters : Nat} {m : AdjMatrix} {source : Nat}
    {link : Nat × Nat} : link ∈ getLinksFromAdjMatrix nRouters m source ↔
      link.1 < nRouters ∧ 0 < m source link.1 ∧ link.2 = m source link.1 := by
  obtain ⟨l, c⟩ := link
  simp only [getLinksFromAdjMatrix, List.mem_map, List.mem_filter, List.mem_range,
    decide_eq_true_eq, Prod.mk.injEq]
  constructor
  · rintro ⟨i, ⟨hi, hpos⟩, rfl, rfl⟩; exact ⟨hi, hpos, rfl⟩
  · rintro ⟨hl, hpos, rfl⟩; exact ⟨l, ⟨hl, hpos⟩, rfl, rfl⟩

end RoutingTableCalculator

end LinkState
