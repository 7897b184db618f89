import LinkState.LinkStatePaths
import Mathlib.Order.Lattice.Nat

/-!
# One path or several

With one face per prefix the calculator runs Dijkstra once, on the whole matrix; with any other
number it runs once for each link of this router. A path from the source leaves it for the last
time over some link (`Walk.leave`), so the one run finds the least of what the others find.

* `singlePath_spec`: the single-path table has one hop for each destination in reach, over a
  neighbour that comes first on a shortest path.
* `singlePath_agrees`: **the single-path table is the cheapest part of the multi-path table.**
-/

namespace LinkState

namespace LinkStateRoutingTableCalculator

open RoutingTableCalculator

/-! ## Paths over a neighbour -/

/-- A path of cost `c` leads over the neighbour `nbr` and then stays away from this router. -/
structure ReachesOver (adjLsdb : KeyedList AdjLsa.getKey) (router dest : Name) (c : Nat)
    (nbr : Name) : Prop where
  link : 0 < linkCost adjLsdb router nbr
  path : ∃ k, Walk (without (linkCost adjLsdb) router) nbr dest k ∧
    c = linkCost adjLsdb router nbr + k

/-- The costs at which a destination can be reached, below `infDistance`. -/
def reachCosts (adjLsdb : KeyedList AdjLsa.getKey) (self dest : Name) : Set Nat :=
  {c | c < infDistance ∧ ∃ nbr, ReachesOver adjLsdb self dest c nbr}

section Costs

variable {adjLsdb : KeyedList AdjLsa.getKey} {adjacencyList : AdjacencyList} {self dest nbr : Name}
  {c : Nat}

/-- A linked router is another one. -/
theorem ReachesOver.ne_self (h : ReachesOver adjLsdb self dest c nbr) : nbr ≠ self := by
  rintro rfl
  have hlink := h.link
  rw [linkCost_self] at hlink
  exact absurd hlink (Nat.lt_irrefl 0)

/-- Path costs over a face are costs at which the destination can be reached. -/
theorem exists_reachCosts_of_pathCosts {faceUri : String} {x : Double}
    (h : x ∈ pathCosts adjLsdb adjacencyList self dest faceUri) :
    ∃ c ∈ reachCosts adjLsdb self dest, x = (c : Double) := by
  obtain ⟨nbr, k, hpos, -, hk, hlt, hx⟩ := h
  exact ⟨_, ⟨hlt, nbr, hpos, k, hk.1, rfl⟩, hx⟩

/-- The least cost is a path cost over the face of the neighbour that comes first. -/
theorem mem_pathCosts_of_isLeast (h : IsLeast (reachCosts adjLsdb self dest) c)
    (hover : ReachesOver adjLsdb self dest c nbr) :
    (c : Double) ∈ pathCosts adjLsdb adjacencyList self dest
      (adjacencyList.getAdjacent nbr).connectingFaceUri := by
  obtain ⟨k, hk, hc⟩ := hover.path
  have hlt := h.1.1
  refine ⟨nbr, k, hover.link, rfl, ⟨hk, fun k' hk' => ?_⟩, by omega, by rw [hc]⟩
  -- A shorter walk from the neighbour would be cheaper
  by_contra hshort
  have hshort : k' < k := not_le.1 hshort
  have := h.2 ⟨by omega, nbr, hover.link, k', hk', rfl⟩
  omega

end Costs

/-! ## The run on the whole matrix -/

/-- No path is shorter than the distance found. -/
theorem distance_le_of_firstHop {n source v d x : Nat} {m : AdjMatrix} (hsource : source < n)
    (h : FirstHop n m source v d x) (hd : d < infDistance) :
    (doDijkstraPathCalculation n m source).distance v ≤ d := by
  obtain ⟨hrun, hdone⟩ := refines_doDijkstraPathCalculation (m := m) hsource
  obtain ⟨k, hk, hdk⟩ := h.path
  have hwalk : Walk (within n m) source v (within n m source x + k) :=
    Walk.resume h.edge (fun a b _ hab => (if_neg hab).symm) (fun a => if_pos rfl) hk
  rw [hdk] at hd ⊢
  exact hrun.inv.distance_le hdone hwalk hd

section Names

variable {adjLsdb : KeyedList AdjLsa.getKey} {pMap : Map} {adjacencyList : AdjacencyList}
  {self dest : Name} {source : Nat}

/-- The first hop with numbers and with names. -/
theorem firstHop_iff (hmap : pMap = Map.createFromAdjLsdb adjLsdb) {i x c : Nat}
    (hs : source < pMap.getMapSize) (hi : i < pMap.getMapSize) (hx : x < pMap.getMapSize) :
    FirstHop pMap.getMapSize (makeAdjMatrix pMap.getMapSize adjLsdb pMap) source i c x ↔
      ReachesOver adjLsdb (pMap.getRouterNameByMappingNo source)
        (pMap.getRouterNameByMappingNo i) c (pMap.getRouterNameByMappingNo x) := by
  have hcost : x ≠ source →
      within pMap.getMapSize (makeAdjMatrix pMap.getMapSize adjLsdb pMap) source x =
        linkCost adjLsdb (pMap.getRouterNameByMappingNo source)
          (pMap.getRouterNameByMappingNo x) := by
    intro hne
    rw [← loopless_eq_linkCost hmap hs hx, loopless, if_neg (Ne.symm hne)]
  constructor
  · rintro ⟨hne, hedge, k, hk, hc⟩
    rw [hcost hne] at hedge hc
    exact ⟨hedge, k, (walk_iff hmap hs hx hi).1 hk, hc⟩
  · intro h
    have hne : x ≠ source := fun heq => h.ne_self (by rw [heq])
    obtain ⟨k, hk, hc⟩ := h.path
    rw [← hcost hne] at hc
    exact ⟨hne, by rw [hcost hne]; exact h.link, k, (walk_iff hmap hs hx hi).2 hk, hc⟩

/-- Routers on a path are in the map. -/
theorem ReachesOver.exists_mapping {c : Nat} {nbr : Name}
    (h : ReachesOver adjLsdb self dest c nbr) :
    (∃ x, (Map.createFromAdjLsdb adjLsdb).getMappingNoByRouterName nbr = some x) ∧
      ∃ i, (Map.createFromAdjLsdb adjLsdb).getMappingNoByRouterName dest = some i := by
  have hnbr := exists_mapping_of_linkCost (by rw [linkCost_comm]; exact h.link)
  obtain ⟨k, hk, -⟩ := h.path
  refine ⟨hnbr, ?_⟩
  rcases hk.eq_or_exists_edge with rfl | ⟨y, hy⟩
  · exact hnbr
  · refine exists_mapping_of_linkCost (y := y) ?_
    rw [linkCost_comm]
    rw [without] at hy
    split_ifs at hy
    · exact absurd hy (Nat.lt_irrefl 0)
    · exact hy

/-- The offers of the one run. -/
def singleOffers (adjacencyList : AdjacencyList) (adjLsdb : KeyedList AdjLsa.getKey) (pMap : Map)
    (source : Nat) : List (Name × NextHop) :=
  offers adjacencyList pMap pMap.getMapSize source (doDijkstraPathCalculation pMap.getMapSize
    (makeAdjMatrix pMap.getMapSize adjLsdb pMap) source)

/-- **What is offered comes over the first router of a shortest path.** -/
theorem of_mem_singleOffers (hmap : pMap = Map.createFromAdjLsdb adjLsdb)
    (hself : pMap.getMappingNoByRouterName self = some source) {nh : NextHop}
    (h : (dest, nh) ∈ singleOffers adjacencyList adjLsdb pMap source) :
    dest ≠ self ∧ ∃ c nbr, IsLeast (reachCosts adjLsdb self dest) c ∧
      ReachesOver adjLsdb self dest c nbr ∧
      nh = { connectingFaceUri := (adjacencyList.getAdjacent nbr).connectingFaceUri
             routeCost := c } := by
  have hnum := numbered_map hmap
  obtain ⟨hs, rfl⟩ := (Map.getMappingNo_eq_some_iff hnum).1 hself
  obtain ⟨i, x, hi, his, hx, rfl, rfl⟩ := mem_offers.1 h
  refine ⟨fun hd => his (Map.getRouterNameByMappingNo_inj hnum hi hs hd), ?_⟩
  rcases getLsNextHop_spec (m := makeAdjMatrix pMap.getMapSize adjLsdb pMap) hs his with
    ⟨y, hy, hfirst, hlt⟩ | ⟨hnone, -⟩
  · obtain rfl : y = x := Option.some.inj (hy.symm.trans hx)
    have hyn : y < pMap.getMapSize := by
      by_contra hge
      have hedge := hfirst.edge
      rw [within, if_neg fun hc => hge hc.2] at hedge
      exact absurd hedge (Nat.lt_irrefl 0)
    have hover := (firstHop_iff hmap hs hi hyn).1 hfirst
    refine ⟨_, _, ⟨⟨hlt, _, hover⟩, fun c hc => ?_⟩, hover, rfl⟩
    obtain ⟨hc, nbr, hnbr⟩ := hc
    obtain ⟨⟨l, hl⟩, -⟩ := hnbr.exists_mapping
    rw [← hmap] at hl
    obtain ⟨hln, rfl⟩ := (Map.getMappingNo_eq_some_iff hnum).1 hl
    exact distance_le_of_firstHop hs ((firstHop_iff hmap hs hi hln).2 hnbr) hc
  · rw [hnone] at hx
    exact absurd hx.symm (Option.some_ne_none x)

/-- A router in reach is offered. -/
theorem exists_mem_singleOffers (hmap : pMap = Map.createFromAdjLsdb adjLsdb)
    (hself : pMap.getMappingNoByRouterName self = some source) (hdest : dest ≠ self)
    (h : (reachCosts adjLsdb self dest).Nonempty) :
    ∃ nh, (dest, nh) ∈ singleOffers adjacencyList adjLsdb pMap source := by
  have hnum := numbered_map hmap
  obtain ⟨hs, rfl⟩ := (Map.getMappingNo_eq_some_iff hnum).1 hself
  obtain ⟨c, hc, nbr, hover⟩ := h
  obtain ⟨⟨l, hl⟩, ⟨i, hi⟩⟩ := hover.exists_mapping
  rw [← hmap] at hl hi
  obtain ⟨hln, rfl⟩ := (Map.getMappingNo_eq_some_iff hnum).1 hl
  obtain ⟨hin, rfl⟩ := (Map.getMappingNo_eq_some_iff hnum).1 hi
  have his : i ≠ source := fun heq => hdest (by rw [heq])
  have hle := distance_le_of_firstHop hs ((firstHop_iff hmap hs hin hln).2 hover) hc
  rcases getLsNextHop_spec (m := makeAdjMatrix pMap.getMapSize adjLsdb pMap) hs his with
    ⟨x, hx, -, -⟩ | ⟨-, hinf⟩
  · exact ⟨_, mem_offers.2 ⟨i, x, hin, his, hx, rfl, rfl⟩⟩
  · rw [hinf] at hle
    exact absurd hc (not_lt.2 hle)

/-- A router is offered once. -/
theorem singleOffers_unique (hmap : pMap = Map.createFromAdjLsdb adjLsdb) {nh nh' : NextHop}
    (h : (dest, nh) ∈ singleOffers adjacencyList adjLsdb pMap source)
    (h' : (dest, nh') ∈ singleOffers adjacencyList adjLsdb pMap source) : nh' = nh := by
  obtain ⟨i, x, hi, -, hx, hd, rfl⟩ := mem_offers.1 h
  obtain ⟨i', x', hi', -, hx', hd', rfl⟩ := mem_offers.1 h'
  obtain rfl : i = i' :=
    Map.getRouterNameByMappingNo_inj (numbered_map hmap) hi hi' (hd.trans hd'.symm)
  obtain rfl : x = x' := Option.some.inj (hx.symm.trans hx')
  rfl

end Names

/-! ## The single-path table -/

/-- The single-path table is the table of the offers of the one run. -/
theorem calculatePath_single {s : Nlsr} (hsingle : s.confParam.maxFacesPerPrefix = 1)
    {source : Nat} (hself : (Map.createFromAdjLsdb s.lsdb.adjLsdb).getMappingNoByRouterName
      s.routerPrefix = some source) (rt : RouteTable) :
    calculatePath (Map.createFromAdjLsdb s.lsdb.adjLsdb) rt s =
      (singleOffers s.adjacencyList s.lsdb.adjLsdb (Map.createFromAdjLsdb s.lsdb.adjLsdb)
        source).foldl (fun t o => t.addNextHop o.1 o.2) rt := by
  unfold calculatePath
  rw [hself]
  dsimp only
  rw [if_pos hsingle]
  exact addAllLsNextHopsToRoutingTable_eq ..

/-- The hop of a single-path entry: over a neighbour that comes first on a shortest path. -/
structure ShortestHop (s : Nlsr) (dest : Name) (nh : NextHop) (c : Nat) (nbr : Name) : Prop where
  least : IsLeast (reachCosts s.lsdb.adjLsdb s.routerPrefix dest) c
  first : ReachesOver s.lsdb.adjLsdb s.routerPrefix dest c nbr
  face : nh.connectingFaceUri = (s.adjacencyList.getAdjacent nbr).connectingFaceUri
  cost : nh.routeCost = c

/-- **The single-path table**: one hop for each other router in reach. -/
theorem singlePath_spec {s : Nlsr} (hown : s.ownAdjLsaExists)
    (hsingle : s.confParam.maxFacesPerPrefix = 1) (dest : Name) :
    let rt := calculatePath (Map.createFromAdjLsdb s.lsdb.adjLsdb) KeyedList.empty s
    (rt.contains dest ↔
      dest ≠ s.routerPrefix ∧ (reachCosts s.lsdb.adjLsdb s.routerPrefix dest).Nonempty) ∧
    (rt.contains dest → ∃ nh c nbr, (rt.hops dest).toList = [nh] ∧ ShortestHop s dest nh c nbr) := by
  intro rt
  obtain ⟨source, hself⟩ := exists_mapping_of_ownAdjLsa hown
  have hrt := calculatePath_single hsingle hself KeyedList.empty
  have hcontains : rt.contains dest ↔ ∃ nh, (dest, nh) ∈ singleOffers s.adjacencyList
      s.lsdb.adjLsdb (Map.createFromAdjLsdb s.lsdb.adjLsdb) source := by
    show KeyedList.contains (calculatePath _ _ s) dest ↔ _
    rw [hrt, RouteTable.contains_foldl_addNextHop]
    exact or_iff_left Bool.false_ne_true
  constructor
  · rw [hcontains]
    constructor
    · rintro ⟨nh, hnh⟩
      obtain ⟨hdest, c, nbr, hleast, -, -⟩ := of_mem_singleOffers rfl hself hnh
      exact ⟨hdest, c, hleast.1⟩
    · rintro ⟨hdest, hreach⟩
      exact exists_mem_singleOffers rfl hself hdest hreach
  · intro h
    obtain ⟨nh, hnh⟩ := hcontains.1 h
    obtain ⟨-, c, nbr, hleast, hover, hhop⟩ := of_mem_singleOffers rfl hself hnh
    refine ⟨nh, c, nbr, ?_, hleast, hover, by rw [hhop], by rw [hhop]⟩
    show (RouteTable.hops (calculatePath _ _ s) dest).toList = _
    rw [hrt]
    exact RouteTable.toList_hops_foldl_addNextHop hnh fun nh' => singleOffers_unique rfl hnh

/-! ## One path and several -/

/-- The router with another `max-faces-per-prefix`. -/
def withMaxFaces (s : Nlsr) (maxFacesPerPrefix : UInt32) : Nlsr :=
  { s with confParam := { s.confParam with maxFacesPerPrefix } }

/-- The cheapest path is a hop of the multi-path table too. -/
theorem exists_hop_of_isLeast {s : Nlsr} (hown : s.ownAdjLsaExists)
    (hmulti : s.confParam.maxFacesPerPrefix ≠ 1) {dest nbr : Name} (hdest : dest ≠ s.routerPrefix)
    {c : Nat} (hleast : IsLeast (reachCosts s.lsdb.adjLsdb s.routerPrefix dest) c)
    (hover : ReachesOver s.lsdb.adjLsdb s.routerPrefix dest c nbr) :
    ∃ nh ∈ (calculatePath (Map.createFromAdjLsdb s.lsdb.adjLsdb) KeyedList.empty s).hops dest,
      nh.connectingFaceUri = (s.adjacencyList.getAdjacent nbr).connectingFaceUri ∧
        nh.routeCost = c := by
  refine (hasRoute_calculatePath hown hmulti hdest _ _).2
    ⟨mem_pathCosts_of_isLeast hleast hover, fun x hx => ?_⟩
  obtain ⟨c', hc', rfl⟩ := exists_reachCosts_of_pathCosts hx
  exact Nat.cast_le.2 (hleast.2 hc')

/-- No hop of the multi-path table is cheaper than the cheapest path. -/
theorem le_routeCost_of_isLeast {s : Nlsr} (hown : s.ownAdjLsaExists)
    (hmulti : s.confParam.maxFacesPerPrefix ≠ 1) {dest : Name} (hdest : dest ≠ s.routerPrefix)
    {c : Nat} (hleast : IsLeast (reachCosts s.lsdb.adjLsdb s.routerPrefix dest) c) {nh : NextHop}
    (hnh : nh ∈ (calculatePath (Map.createFromAdjLsdb s.lsdb.adjLsdb) KeyedList.empty s).hops
      dest) : (c : Double) ≤ nh.routeCost := by
  have hcost := (hasRoute_calculatePath hown hmulti hdest _ _).1 ⟨nh, hnh, rfl, rfl⟩
  obtain ⟨c', hc', heq⟩ := exists_reachCosts_of_pathCosts hcost.1
  rw [heq]
  exact Nat.cast_le.2 (hleast.2 hc')

/-- The multi-path table has an entry for each other router in reach. -/
theorem contains_multiPath {s : Nlsr} (hown : s.ownAdjLsaExists)
    (hmulti : s.confParam.maxFacesPerPrefix ≠ 1) (dest : Name) :
    (calculatePath (Map.createFromAdjLsdb s.lsdb.adjLsdb) KeyedList.empty s).contains dest ↔
      dest ≠ s.routerPrefix ∧ (reachCosts s.lsdb.adjLsdb s.routerPrefix dest).Nonempty := by
  constructor
  · intro h
    obtain ⟨hdest, nh, hnh⟩ := contains_calculatePath hown hmulti h
    obtain ⟨x, hx⟩ := (exists_hop_calculatePath hown hmulti hdest _).1 ⟨nh, hnh, rfl⟩
    obtain ⟨c, hc, -⟩ := exists_reachCosts_of_pathCosts hx
    exact ⟨hdest, c, hc⟩
  · intro h
    have hleast : IsLeast (reachCosts s.lsdb.adjLsdb s.routerPrefix dest) (sInf _) :=
      ⟨Nat.sInf_mem h.2, fun _ => Nat.sInf_le⟩
    obtain ⟨nbr, hover⟩ := hleast.1.2
    obtain ⟨nh, hnh, -⟩ := exists_hop_of_isLeast hown hmulti h.1 hleast hover
    exact RouteTable.contains_of_mem_hops hnh

/-- **Single-path and multi-path routing agree**: they reach the same destinations, and the one
hop of a single-path entry is a cheapest hop of the multi-path entry. -/
theorem singlePath_agrees (s : Nlsr) (hown : s.ownAdjLsaExists) (maxFacesPerPrefix : UInt32)
    (hmulti : maxFacesPerPrefix ≠ 1) (dest : Name) :
    let table k := calculatePath (Map.createFromAdjLsdb s.lsdb.adjLsdb) KeyedList.empty
      (withMaxFaces s k)
    ((table 1).contains dest ↔ (table maxFacesPerPrefix).contains dest) ∧
      ((table 1).contains dest → ∃ nh, ((table 1).hops dest).toList = [nh] ∧
        IsLeast {c | ∃ nh' ∈ (table maxFacesPerPrefix).hops dest, nh'.routeCost = c}
          nh.routeCost ∧
        ∃ nh' ∈ (table maxFacesPerPrefix).hops dest,
          nh'.connectingFaceUri = nh.connectingFaceUri ∧ nh'.routeCost = nh.routeCost) := by
  intro table
  obtain ⟨hcontains, hhop⟩ := singlePath_spec (s := withMaxFaces s 1) hown rfl dest
  have hagree := contains_multiPath (s := withMaxFaces s maxFacesPerPrefix) hown hmulti dest
  refine ⟨hcontains.trans hagree.symm, fun h => ?_⟩
  obtain ⟨nh, c, nbr, hnh, hleast, hover, hface, hcost⟩ := hhop h
  have hdest := (hcontains.1 h).1
  obtain ⟨nh', hnh', hface', hcost'⟩ := exists_hop_of_isLeast
    (s := withMaxFaces s maxFacesPerPrefix) hown hmulti hdest hleast hover
  refine ⟨nh, hnh, ⟨⟨nh', hnh', hcost'.trans hcost.symm⟩, ?_⟩, nh', hnh',
    hface'.trans hface.symm, hcost'.trans hcost.symm⟩
  rintro x ⟨nh'', hnh'', rfl⟩
  rw [hcost]
  exact le_routeCost_of_isLeast (s := withMaxFaces s maxFacesPerPrefix) hown hmulti hdest hleast
    hnh''

theorem singlePath_agrees_twoRouters :
    let single := calculatePath (Map.createFromAdjLsdb twoRouters.lsdb.adjLsdb) KeyedList.empty
      (withMaxFaces twoRouters 1)
    single.contains [⟨"b"⟩] ∧ ∃ nh, (single.hops [⟨"b"⟩]).toList = [nh] := by
  have hreach : (calculatePath (Map.createFromAdjLsdb twoRouters.lsdb.adjLsdb) KeyedList.empty
      (withMaxFaces twoRouters 1)).contains [⟨"b"⟩] = true := by decide +kernel
  have h := singlePath_agrees twoRouters (by decide +kernel) 2 (by decide) [⟨"b"⟩]
  obtain ⟨nh, hnh, -⟩ := h.2 hreach
  exact ⟨hreach, nh, hnh⟩

end LinkStateRoutingTableCalculator

end LinkState
