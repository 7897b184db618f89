import LinkState.DijkstraMemory
import LinkState.LinkStatePaths

/-!
# The calculator stays in its arrays

`calculator_stays_in_arrays`: with this router's own Adjacency LSA in the LSDB, a calculation on the
arrays runs without a fault and leaves the routing table that the calculation on numbers leaves.

* The map gives the routers of the LSDB the numbers below its size, so a look-up that succeeds gives
  an index into every array; the one of this router does.
* The link arrays are as long as the list of links (`runs_takeLinks`), which is taken before the
  first turn rewrites the row of the source. A turn walks that list and leaves the arrays it needs
  next as it found them (`runs_linkTurn`).
-/

namespace LinkState

open RoutingTableCalculator LinkStateRoutingTableCalculator

/-! ## The numbering -/

namespace Map

variable {m : Map}

/-- The numbers below the size, as the look-ups take and return them. -/
def mappingNumbers (m : Map) : Set Int := {i | 0 ≤ i ∧ i < m.getMapSize}

theorem invOn_routerName (h : m.Numbered) :
    Set.InvOn m.routerName m.mappingNo {name | m.table.contains name} m.mappingNumbers := by
  constructor
  · intro name hname
    obtain ⟨i, hi⟩ := contains_iff_mapping.1 hname
    rw [mappingNo_of_some hi, routerName_natCast]
    exact ((getMappingNo_eq_some_iff h).1 hi).2
  · rintro _ ⟨hnonneg, hlt⟩
    obtain ⟨i, rfl⟩ := Int.eq_ofNat_of_zero_le hnonneg
    rw [routerName_natCast]
    exact mappingNo_of_some ((getMappingNo_eq_some_iff h).2 ⟨Int.ofNat_lt.1 hlt, rfl⟩)

theorem mapsTo_mappingNo (h : m.Numbered) :
    Set.MapsTo m.mappingNo {name | m.table.contains name} m.mappingNumbers := by
  intro name hname
  obtain ⟨i, hi⟩ := contains_iff_mapping.1 hname
  rw [mappingNo_of_some hi]
  exact ⟨Int.natCast_nonneg i, Int.ofNat_lt.2 (mappingNumber_lt h hi)⟩

theorem mapsTo_routerName (h : m.Numbered) :
    Set.MapsTo m.routerName m.mappingNumbers {name | m.table.contains name} := by
  rintro _ ⟨hnonneg, hlt⟩
  obtain ⟨i, rfl⟩ := Int.eq_ofNat_of_zero_le hnonneg
  rw [routerName_natCast]
  exact contains_iff_mapping.2 ⟨i, (getMappingNo_eq_some_iff h).2 ⟨Int.ofNat_lt.1 hlt, rfl⟩⟩

/-- The two look-ups are bijections between `names` and the numbers below the size, each the inverse
of the other; a name that is not one of them has the number -1. -/
structure Numbers (m : Map) (names : Set Name) : Prop where
  mappingNo : Set.BijOn m.mappingNo names m.mappingNumbers
  routerName : Set.BijOn m.routerName m.mappingNumbers names
  inverse : Set.InvOn m.routerName m.mappingNo names m.mappingNumbers
  unknown : ∀ name, name ∉ names → m.mappingNo name = -1

/-- **The map numbers the routers of the LSDB**, each name once. -/
theorem numbers_createFromAdjLsdb (adjLsdb : KeyedList AdjLsa.getKey) :
    (createFromAdjLsdb adjLsdb).Numbers {name | ∃ lsa ∈ adjLsdb, name ∈ namesOfAdjLsa lsa} := by
  have hnum := numbered_createFromAdjLsdb adjLsdb
  have hinv := invOn_routerName hnum
  simp only [← contains_createFromAdjLsdb]
  refine ⟨hinv.bijOn (mapsTo_mappingNo hnum) (mapsTo_routerName hnum),
    hinv.symm.bijOn (mapsTo_routerName hnum) (mapsTo_mappingNo hnum), hinv, fun name hname => ?_⟩
  refine mappingNo_of_none (Option.eq_none_iff_forall_ne_some.2 fun i hi => hname ?_)
  exact contains_iff_mapping.2 ⟨i, hi⟩

end Map

namespace CalculatorMemory

variable {n : Nat} {m : AdjMatrix} {c : CalculatorMemory}

/-! ## A calculation -/

theorem runs_prepare (pMap : Map) (pnlsr : Nlsr) : Runs (prepare pMap pnlsr) (Ready ·
    pMap.getMapSize (RoutingTableCalculator.makeAdjMatrix pMap.getMapSize pnlsr.lsdb.adjLsdb
      pMap)) := by
  unfold prepare
  refine (runs_allocateAdjMatrix ⟨pMap.getMapSize, _, _, _, _, _, _⟩ fun _ _ => 0).bind ?_
  rintro _ ⟨b, rfl, hb⟩
  refine (runs_initMatrix (c := ⟨pMap.getMapSize, b, _, _, _, _, _⟩) hb).bind ?_
  rintro _ ⟨b, rfl, hb⟩
  refine (runs_makeAdjMatrix (c := ⟨pMap.getMapSize, b, _, _, _, _, _⟩) hb _ pMap).bind ?_
  rintro _ ⟨b, rfl, hb⟩
  refine (runs_writeAdjMatrixLog (c := ⟨pMap.getMapSize, b, _, _, _, _, _⟩) hb).bind fun _ _ => ?_
  exact Runs.ok ⟨rfl, hb, Cells.size_alloc _, Cells.size_alloc _⟩

/-- What the multi-path loop finds at the start of a turn. -/
structure HoldsTurn (r : CalculatorMemory × RouteTable) (n : Nat) (links : List (Nat × Nat))
    (t : AdjMatrix × RouteTable) : Prop where
  ready : r.1.Ready n t.1
  filled : r.1.links.Filled links.length (links.map fun link => (link.1 : Int))
  filledCosts : r.1.linkCosts.Filled links.length (links.map Prod.snd)
  table : r.2 = t.2

/-- **Before the first turn**: each array has got as many entries as it has cells. -/
theorem holdsTurn_takeLinks (h : c.Ready n m) {source : Nat} (hsource : source < n)
    (rt : RouteTable) : Runs (c.takeLinks source) fun r =>
      r.2 = r.1.vNoLink ∧
      r.1.vNoLink = (RoutingTableCalculator.getLinksFromAdjMatrix n m source).length ∧
      HoldsTurn (r.1, rt) n (RoutingTableCalculator.getLinksFromAdjMatrix n m source) (m, rt) := by
  obtain ⟨rfl, hm, hparent, hdistance⟩ := h
  refine (runs_takeLinks hm hsource).imp ?_
  rintro ⟨c', j⟩ ⟨hj, links, linkCosts, hc', hlinks, hcosts⟩
  obtain rfl : c' = { c with vNoLink := j, links, linkCosts } := hc'
  rw [getLinksFromAdjMatrix_eq]
  have hlen : j = ((linksBefore m source c.nRouters).map fun k => (k, m source k)).length := by
    rw [List.length_map]
    exact hj
  refine ⟨rfl, hlen, ⟨rfl, hm, hparent, hdistance⟩, ?_, ?_, rfl⟩
  · rw [← hlen, List.map_map]
    exact hlinks
  · rw [← hlen, List.map_map]
    exact hcosts

theorem runs_linkTurn {r : CalculatorMemory × RouteTable} {links : List (Nat × Nat)}
    {t : AdjMatrix × RouteTable} (h : HoldsTurn r n links t) {source : Nat} (hsource : source < n)
    {i : Nat} (hi : i < links.length) (pMap : Map) (pnlsr : Nlsr) : Runs (do
      let c ← r.1.adjustAdMatrix source (← r.1.links.read i) (← r.1.linkCosts.read i)
      c.writeAdjMatrixLog
      c.addPaths pMap pnlsr source r.2)
      (HoldsTurn · n links (linkTurn pnlsr.adjacencyList pMap n source t links[i])) := by
  obtain ⟨c, rt⟩ := r
  obtain ⟨m, rt'⟩ := t
  obtain ⟨⟨rfl, hm, hparent, hdistance⟩, hlinks, hcosts, rfl⟩ := h
  refine (hlinks.read (by simpa using hi)).bind_eq ?_
  refine (hcosts.read (by simpa using hi)).bind_eq ?_
  rw [List.getElem_map, List.getElem_map]
  refine (runs_adjustAdMatrix hm hsource _ _).bind ?_
  rintro _ ⟨b, rfl, hb⟩
  refine (runs_writeAdjMatrixLog (c := { c with adjMatrix := b }) hb).bind fun _ _ => ?_
  refine (runs_addPaths (c := { c with adjMatrix := b }) ⟨rfl, hb, hparent, hdistance⟩ hsource
    pMap pnlsr rt).imp ?_
  rintro ⟨_, rt'⟩ ⟨⟨distance, parent, rfl⟩, hready, hrt'⟩
  exact ⟨hready, hlinks, hcosts, hrt'⟩

/-- **A calculation from a router of the map.** -/
theorem runs_calculatePath {pMap : Map} {pnlsr : Nlsr} {source : Nat}
    (hself : pMap.getMappingNoByRouterName pnlsr.routerPrefix = some source)
    (hsource : source < pMap.getMapSize) (rt : RouteTable) : Runs (calculatePath pMap rt pnlsr)
      (· = LinkStateRoutingTableCalculator.calculatePath pMap rt pnlsr) := by
  unfold calculatePath LinkStateRoutingTableCalculator.calculatePath
  refine (runs_prepare pMap pnlsr).bind fun c hc => ?_
  rw [Map.mappingNo_of_some hself, hself]
  dsimp only
  by_cases hsingle : pnlsr.confParam.maxFacesPerPrefix = 1
  · rw [if_pos hsingle, if_pos hsingle]
    refine (runs_addPaths hc hsource pMap pnlsr rt).bind ?_
    rintro ⟨c, rt⟩ ⟨-, hc, rfl⟩
    exact (runs_freeAdjMatrix (hc.nRouters ▸ hc.matrix)).bind fun _ _ => Runs.ok rfl
  · rw [if_neg hsingle, if_neg hsingle]
    refine (holdsTurn_takeLinks hc hsource rt).bind ?_
    rintro ⟨c, j⟩ ⟨-, hlen, hturn⟩
    dsimp only at hlen ⊢
    rw [hlen]
    refine (runs_loopM_foldl (R := fun r t => HoldsTurn r pMap.getMapSize _ t)
      (fun i hi r t ht => runs_linkTurn ht hsource hi pMap pnlsr) hturn).bind ?_
    rintro ⟨c, rt⟩ ⟨hready, -, -, rfl⟩
    exact (runs_freeAdjMatrix (hready.nRouters ▸ hready.matrix)).bind fun _ _ => Runs.ok rfl

/-- **The calculator stays in its arrays.** With the own Adjacency LSA in the LSDB no access of a
calculation fails, and every loop ends: it gives the routing table that the calculation on numbers
gives. The map numbers the routers, this one is found in it, and each link array has an entry for
every link of the source and no other cell. -/
theorem calculator_stays_in_arrays (s : Nlsr) (hown : s.ownAdjLsaExists) (rt : RouteTable) :
    let pMap := Map.createFromAdjLsdb s.lsdb.adjLsdb
    pMap.Numbers {name | ∃ lsa ∈ s.lsdb.adjLsdb, name ∈ Map.namesOfAdjLsa lsa} ∧
    calculatePath pMap rt s = .ok (LinkStateRoutingTableCalculator.calculatePath pMap rt s) ∧
    ∃ source : Nat, pMap.mappingNo s.routerPrefix = source ∧ source < pMap.getMapSize ∧
      ∃ c c', prepare pMap s = .ok c ∧ c.takeLinks source = .ok (c', c'.vNoLink) ∧
        ∃ links : List (Nat × Nat), links.length = c'.vNoLink ∧
          c'.links.cells.toList = links.map (fun link => some (link.1 : Int)) ∧
          c'.linkCosts.cells.toList = links.map (fun link => some link.2) ∧
          ∀ link ∈ links, link.1 < pMap.getMapSize := by
  intro pMap
  obtain ⟨source, hself⟩ := exists_mapping_of_ownAdjLsa hown
  have hsource := Map.mappingNumber_lt (Map.numbered_createFromAdjLsdb _) hself
  refine ⟨Map.numbers_createFromAdjLsdb _, ?_, source, Map.mappingNo_of_some hself, hsource, ?_⟩
  · obtain ⟨rt', hrun, rfl⟩ := runs_calculatePath hself hsource rt
    exact hrun
  · obtain ⟨c, hprepare, hc⟩ := runs_prepare pMap s
    obtain ⟨⟨c', j⟩, htake, hj, hlen, hturn⟩ := holdsTurn_takeLinks hc hsource rt
    obtain rfl : j = c'.vNoLink := hj
    refine ⟨c, c', hprepare, htake, _, hlen.symm, ?_, ?_, ?_⟩
    · exact (hturn.filled.toList_cells (List.length_map _)).trans (List.map_map ..)
    · exact (hturn.filledCosts.toList_cells (List.length_map _)).trans (List.map_map ..)
    · exact fun link hlink => (mem_getLinksFromAdjMatrix.1 hlink).1

/-- A router `/a` that lists itself, and `/b`, of which there is no LSA. -/
def selfListed : Nlsr :=
  let own : AdjLsa :=
    { origRouter := [⟨"a"⟩]
      adl := (KeyedList.empty.insert { name := [⟨"a"⟩] }).insert { name := [⟨"b"⟩] } }
  { confParam := { network := [⟨"a"⟩] }, lsdb := { adjLsdb := KeyedList.empty.insert own } }

theorem calculator_stays_in_arrays_selfListed :
    let pMap := Map.createFromAdjLsdb selfListed.lsdb.adjLsdb
    pMap.getMapSize = 2 ∧ calculatePath pMap KeyedList.empty selfListed =
      .ok (LinkStateRoutingTableCalculator.calculatePath pMap KeyedList.empty selfListed) :=
  ⟨by decide +kernel,
    (calculator_stays_in_arrays selfListed (by decide +kernel) KeyedList.empty).2.1⟩

end CalculatorMemory

end LinkState
