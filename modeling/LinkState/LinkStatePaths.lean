import LinkState.AdjMatrixSpec
import LinkState.RoutingTable

/-!
# The link-state routing table

`calculatePath` offers hops to a routing table: one Dijkstra run gives one offer for each router
it reaches. With several faces per prefix there is a run for each link of this router, in a
matrix whose source row is cut down to that link, so what a run finds is the distance over that
link: its cost and the distance from the neighbour in the graph without this router
(`mem_linkOffers`). The routing table keeps the least offer per face.

* `mem_multiOffers`: what is offered for a destination over a face, in terms of the graph.
* `hasRoute_calculatePath`: the routes of the multi-path table.
* `calculatePath_exact`: **the routing table is exactly the shortest-path answer.**
-/

namespace LinkState

namespace LinkStateRoutingTableCalculator

open RoutingTableCalculator

/-! ## Offers -/

/-- The offer of a Dijkstra run to one router, if it has a next hop. -/
def offerTo (adjacencyList : AdjacencyList) (pMap : Map) (nRouters sourceRouter : Nat)
    (paths : DijkstraState) (i : Nat) : Option (Name × NextHop) :=
  if i ≠ sourceRouter then
    (getLsNextHop nRouters paths.parent i sourceRouter).map fun nextHopRouter =>
      (pMap.getRouterNameByMappingNo i,
        { connectingFaceUri :=
            (adjacencyList.getAdjacent (pMap.getRouterNameByMappingNo nextHopRouter)).connectingFaceUri
          routeCost := paths.distance i })
  else none

/-- The offers of a Dijkstra run. -/
def offers (adjacencyList : AdjacencyList) (pMap : Map) (nRouters sourceRouter : Nat)
    (paths : DijkstraState) : List (Name × NextHop) :=
  (List.range nRouters).filterMap (offerTo adjacencyList pMap nRouters sourceRouter paths)

theorem addAllLsNextHopsToRoutingTable_eq (adjacencyList : AdjacencyList) (pMap : Map)
    (nRouters sourceRouter : Nat) (paths : DijkstraState) (rt : RouteTable) :
    addAllLsNextHopsToRoutingTable adjacencyList pMap nRouters sourceRouter paths rt =
      (offers adjacencyList pMap nRouters sourceRouter paths).foldl
        (fun t o => t.addNextHop o.1 o.2) rt := by
  rw [addAllLsNextHopsToRoutingTable, loop, offers, List.foldl_filterMap, ← List.range_eq_range']
  refine congrArg (fun f => List.foldl f rt (List.range nRouters)) ?_
  funext rt i
  unfold offerTo
  by_cases hi : i ≠ sourceRouter
  · rw [if_pos hi, if_pos hi]
    cases getLsNextHop nRouters paths.parent i sourceRouter <;> rfl
  · rw [if_neg hi, if_neg hi]

/-- The offers of all runs of the multi-path calculation. -/
def multiOffers (adjacencyList : AdjacencyList) (pMap : Map) (nRouters sourceRouter : Nat)
    (m : AdjMatrix) : List (Name × NextHop) :=
  (getLinksFromAdjMatrix nRouters m sourceRouter).flatMap fun link =>
    offers adjacencyList pMap nRouters sourceRouter
      (doDijkstraPathCalculation nRouters (adjustAdMatrix nRouters sourceRouter link.1 link.2 m)
        sourceRouter)

/-- One turn of the multi-path loop. -/
def linkTurn (adjacencyList : AdjacencyList) (pMap : Map) (nRouters sourceRouter : Nat)
    (t : AdjMatrix × RouteTable) (link : Nat × Nat) : AdjMatrix × RouteTable :=
  let m := adjustAdMatrix nRouters sourceRouter link.1 link.2 t.1
  (m, addAllLsNextHopsToRoutingTable adjacencyList pMap nRouters sourceRouter
    (doDijkstraPathCalculation nRouters m sourceRouter) t.2)

/-- The row a turn leaves behind does not matter to the next one. -/
theorem foldl_linkTurn (adjacencyList : AdjacencyList) (pMap : Map) (nRouters sourceRouter : Nat)
    (links : List (Nat × Nat)) {m m' : AdjMatrix} (rt : RouteTable)
    (hm' : ∀ l c, adjustAdMatrix nRouters sourceRouter l c m' =
      adjustAdMatrix nRouters sourceRouter l c m) :
    (links.foldl (linkTurn adjacencyList pMap nRouters sourceRouter) (m', rt)).2 =
      (links.flatMap fun link => offers adjacencyList pMap nRouters sourceRouter
        (doDijkstraPathCalculation nRouters
          (adjustAdMatrix nRouters sourceRouter link.1 link.2 m) sourceRouter)).foldl
        (fun t o => t.addNextHop o.1 o.2) rt := by
  induction links generalizing m' rt with
  | nil => rfl
  | cons link links ih =>
    rw [List.foldl_cons, List.flatMap_cons, List.foldl_append, linkTurn]
    rw [ih _ fun l c => (adjustAdMatrix_adjustAdMatrix ..).trans (hm' l c),
      addAllLsNextHopsToRoutingTable_eq, hm']

/-- The multi-path loop adds all offers. -/
theorem multiPath_eq (adjacencyList : AdjacencyList) (pMap : Map) (nRouters sourceRouter : Nat)
    (m : AdjMatrix) (rt : RouteTable) :
    ((getLinksFromAdjMatrix nRouters m sourceRouter).foldl
      (linkTurn adjacencyList pMap nRouters sourceRouter) (m, rt)).2 =
      (multiOffers adjacencyList pMap nRouters sourceRouter m).foldl
        (fun t o => t.addNextHop o.1 o.2) rt :=
  foldl_linkTurn adjacencyList pMap nRouters sourceRouter _ rt fun _ _ => rfl

/-! ## The graph written with numbers -/

section OneLink

variable {n source link c : Nat} {m : AdjMatrix}

theorem within_adjust_source (hsource : source < n) (hlink : link < n) (b : Nat) :
    within n (adjustAdMatrix n source link c m) source b = if b = link then c else 0 := by
  rw [within]
  by_cases hb : b < n
  · rw [if_pos ⟨hsource, hb⟩, adjustAdMatrix_spec, if_pos ⟨rfl, hb⟩]
  · have hne : b ≠ link := by rintro rfl; exact hb hlink
    rw [if_neg fun h => hb h.2, if_neg hne]

theorem within_adjust_of_ne {a b : Nat} (ha : a ≠ source) (hab : a ≠ b) :
    within n (adjustAdMatrix n source link c m) a b = loopless n m a b := by
  rw [loopless, if_neg hab]
  unfold within
  rw [adjustAdMatrix_spec, if_neg fun h : a = source ∧ b < n => ha h.1]

/-- **What the run over one link offers** a router: the cost of the link plus the distance from
its other end, without the source. -/
theorem distance_oneLink (hsource : source < n) (hlink : link < n) (hcost : 0 < c) {i d : Nat}
    (hi : i ≠ source) (hd : d < infDistance) :
    (doDijkstraPathCalculation n (adjustAdMatrix n source link c m) source).distance i = d ↔
      link ≠ source ∧ ∃ k, IsDist (without (loopless n m) source) link i k ∧ d = c + k := by
  rw [distance_spec hsource hd]
  have hrow : within n (adjustAdMatrix n source link c m) source link = c := by
    rw [within_adjust_source hsource hlink, if_pos rfl]
  by_cases hls : link = source
  · refine iff_of_false (fun h => hi ?_) fun h => h.1 hls
    refine Walk.eq_of_no_edge (fun b hb => ?_) h.1
    rw [within_adjust_source hsource hlink, if_neg (by rw [hls]; exact hb)]
  · have h := isDist_restart (w := within n (adjustAdMatrix n source link c m))
      (g := loopless n m) (s := source) (l := link) (v := i) (k := d) (by rw [hrow]; exact hcost)
      (fun b hb => by rw [within_adjust_source hsource hlink, if_neg hb])
      (fun a b ha hab => within_adjust_of_ne ha hab) (fun a => if_pos rfl) hi
    rw [h, hrow]
    simp [hls]

/-- The next hop of the run over one link is its other end. -/
theorem getLsNextHop_oneLink (hsource : source < n) (hlink : link < n) {i x : Nat}
    (hi : i ≠ source) :
    getLsNextHop n
        (doDijkstraPathCalculation n (adjustAdMatrix n source link c m) source).parent i
        source = some x ↔
      x = link ∧
        (doDijkstraPathCalculation n (adjustAdMatrix n source link c m) source).distance i <
          infDistance := by
  rcases getLsNextHop_spec (m := adjustAdMatrix n source link c m) hsource hi with
    ⟨y, hy, hfirst, hlt⟩ | ⟨hnone, heq⟩
  · have hyl : y = link := by
      have hw := hfirst.edge
      rw [within_adjust_source hsource hlink] at hw
      by_contra hne
      rw [if_neg hne] at hw
      exact absurd hw (Nat.lt_irrefl 0)
    subst hyl
    rw [hy, Option.some.injEq]
    exact ⟨fun h => ⟨h.symm, hlt⟩, fun h => h.1.symm⟩
  · rw [hnone]
    exact iff_of_false (fun h => by cases h) fun h => absurd h.2 (by rw [heq]; exact Nat.lt_irrefl _)

end OneLink

/-! ## From numbers to names -/

section Names

variable {adjLsdb : KeyedList AdjLsa.getKey}

/-- The origin of an LSA is in the map. -/
theorem exists_mapping_of_find? {lsa : AdjLsa} {x : Name}
    (h : adjLsdb.find? (AdjLsa.key x) = some lsa) :
    ∃ i, (Map.createFromAdjLsdb adjLsdb).getMappingNoByRouterName x = some i := by
  rw [← Map.contains_iff_mapping, Map.contains_createFromAdjLsdb]
  have hkey : lsa.getKey = AdjLsa.key x := KeyedList.key_of_find? h
  have hx : lsa.origRouter = x := AdjLsa.key_injective hkey
  exact ⟨lsa, KeyedList.mem_of_find? h, by rw [← hx]; exact List.mem_cons_self⟩

/-- Linked routers are in the map. -/
theorem exists_mapping_of_linkCost {x y : Name} (h : 0 < linkCost adjLsdb x y) :
    ∃ i, (Map.createFromAdjLsdb adjLsdb).getMappingNoByRouterName x = some i := by
  obtain ⟨lsa, -, hlsa, -⟩ := exists_adjacent_of_linkCost h
  exact exists_mapping_of_find? hlsa

variable {pMap : Map} (hmap : pMap = Map.createFromAdjLsdb adjLsdb)

include hmap

theorem numbered_map : pMap.Numbered := hmap ▸ Map.numbered_createFromAdjLsdb adjLsdb

/-- The matrix without self-loops is the graph. -/
theorem loopless_eq_linkCost {i j : Nat} (hi : i < pMap.getMapSize) (hj : j < pMap.getMapSize) :
    loopless pMap.getMapSize (makeAdjMatrix pMap.getMapSize adjLsdb pMap) i j =
      linkCost adjLsdb (pMap.getRouterNameByMappingNo i) (pMap.getRouterNameByMappingNo j) := by
  rw [loopless]
  by_cases hij : i = j
  · rw [if_pos hij, hij, linkCost_self]
  · rw [if_neg hij, within, if_pos ⟨hi, hj⟩, makeAdjMatrix_spec (numbered_map hmap) hi hj hij]

/-- **Walks without this router are the same with numbers and with names.** -/
theorem walk_iff {source i j k : Nat} (hs : source < pMap.getMapSize) (hi : i < pMap.getMapSize)
    (hj : j < pMap.getMapSize) :
    Walk (without (loopless pMap.getMapSize (makeAdjMatrix pMap.getMapSize adjLsdb pMap)) source)
        i j k ↔
      Walk (without (linkCost adjLsdb) (pMap.getRouterNameByMappingNo source))
        (pMap.getRouterNameByMappingNo i) (pMap.getRouterNameByMappingNo j) k := by
  have hnum := numbered_map hmap
  have hedge : ∀ a b, a < pMap.getMapSize → b < pMap.getMapSize →
      without (linkCost adjLsdb) (pMap.getRouterNameByMappingNo source)
          (pMap.getRouterNameByMappingNo a) (pMap.getRouterNameByMappingNo b) =
        without (loopless pMap.getMapSize (makeAdjMatrix pMap.getMapSize adjLsdb pMap)) source
          a b := by
    intro a b ha hb
    have hinj : ∀ {c}, c < pMap.getMapSize →
        (pMap.getRouterNameByMappingNo c = pMap.getRouterNameByMappingNo source ↔ c = source) :=
      fun hc => ⟨Map.getRouterNameByMappingNo_inj hnum hc hs, fun h => by rw [h]⟩
    simp only [without, loopless_eq_linkCost hmap ha hb, hinj ha, hinj hb]
  constructor
  · refine Walk.map pMap.getRouterNameByMappingNo fun a b hab => ?_
    have hpos : 0 < within pMap.getMapSize (makeAdjMatrix pMap.getMapSize adjLsdb pMap) a b := by
      unfold without loopless at hab
      split_ifs at hab with h₁ h₂
      · exact absurd hab (Nat.lt_irrefl 0)
      · exact absurd hab (Nat.lt_irrefl 0)
      · exact hab
    have hlt : a < pMap.getMapSize ∧ b < pMap.getMapSize := by
      by_contra hc
      rw [within, if_neg hc] at hpos
      exact absurd hpos (Nat.lt_irrefl 0)
    exact hedge a b hlt.1 hlt.2
  · intro h
    have hback : ∀ {c}, c < pMap.getMapSize →
        (pMap.getMappingNoByRouterName (pMap.getRouterNameByMappingNo c)).getD 0 = c :=
      fun hc => by rw [(Map.getMappingNo_eq_some_iff hnum).2 ⟨hc, rfl⟩]; rfl
    have h' := Walk.map (fun x => (pMap.getMappingNoByRouterName x).getD 0) (g := without
      (loopless pMap.getMapSize (makeAdjMatrix pMap.getMapSize adjLsdb pMap)) source)
      (fun x y hxy => ?_) h
    · rw [hback hi, hback hj] at h'
      exact h'
    · have hpos : 0 < linkCost adjLsdb x y := by
        rw [without] at hxy
        split_ifs at hxy
        · exact absurd hxy (Nat.lt_irrefl 0)
        · exact hxy
      obtain ⟨a, ha⟩ := exists_mapping_of_linkCost hpos
      obtain ⟨b, hb⟩ := exists_mapping_of_linkCost (by rwa [linkCost_comm])
      rw [← hmap] at ha hb
      obtain ⟨han, hax⟩ := (Map.getMappingNo_eq_some_iff hnum).1 ha
      obtain ⟨hbn, hby⟩ := (Map.getMappingNo_eq_some_iff hnum).1 hb
      rw [ha, hb]
      subst hax hby
      exact (hedge a b han hbn).symm

/-- Distances without this router are the same with numbers and with names. -/
theorem isDist_iff {source i j k : Nat} (hs : source < pMap.getMapSize)
    (hi : i < pMap.getMapSize) (hj : j < pMap.getMapSize) :
    IsDist (without (loopless pMap.getMapSize
        (makeAdjMatrix pMap.getMapSize adjLsdb pMap)) source) i j k ↔
      IsDist (without (linkCost adjLsdb) (pMap.getRouterNameByMappingNo source))
        (pMap.getRouterNameByMappingNo i) (pMap.getRouterNameByMappingNo j) k := by
  have hset : ({k | Walk (without (loopless pMap.getMapSize
      (makeAdjMatrix pMap.getMapSize adjLsdb pMap)) source) i j k} : Set Nat) =
        {k | Walk (without (linkCost adjLsdb) (pMap.getRouterNameByMappingNo source))
          (pMap.getRouterNameByMappingNo i) (pMap.getRouterNameByMappingNo j) k} := by
    ext k
    exact walk_iff hmap hs hi hj
  rw [IsDist, IsDist, hset]

end Names

/-! ## The table -/

/-- The costs at which a destination can be reached over a face: over a neighbour with this face,
along a shortest path from there that avoids this router, below `infDistance`. -/
def pathCosts (adjLsdb : KeyedList AdjLsa.getKey) (adjacencyList : AdjacencyList) (self dest : Name)
    (faceUri : String) : Set Double :=
  {c | ∃ (nbr : Name) (k : Nat), 0 < linkCost adjLsdb self nbr ∧
    (adjacencyList.getAdjacent nbr).connectingFaceUri = faceUri ∧
    IsDist (without (linkCost adjLsdb) self) nbr dest k ∧
    linkCost adjLsdb self nbr + k < infDistance ∧
    c = ((linkCost adjLsdb self nbr + k : Nat) : Double)}

section Table

variable {adjLsdb : KeyedList AdjLsa.getKey} {pMap : Map} {self : Name} {source : Nat}
  {adjacencyList : AdjacencyList}

theorem mem_offers {n : Nat} {paths : DijkstraState} {dest : Name} {nh : NextHop} :
    (dest, nh) ∈ offers adjacencyList pMap n source paths ↔
      ∃ i x, i < n ∧ i ≠ source ∧ getLsNextHop n paths.parent i source = some x ∧
        pMap.getRouterNameByMappingNo i = dest ∧
        nh = { connectingFaceUri :=
                 (adjacencyList.getAdjacent (pMap.getRouterNameByMappingNo x)).connectingFaceUri
               routeCost := paths.distance i } := by
  simp only [offers, List.mem_filterMap, List.mem_range, offerTo, Option.ite_none_right_eq_some,
    Option.map_eq_some_iff, Prod.mk.injEq]
  constructor
  · rintro ⟨i, hi, hne, x, hx, hd, hnh⟩; exact ⟨i, x, hi, hne, hx, hd, hnh.symm⟩
  · rintro ⟨i, x, hi, hne, hx, hd, hnh⟩; exact ⟨i, hi, hne, x, hx, hd, hnh.symm⟩

/-- **What the multi-path calculation offers for a destination over a face.** -/
theorem mem_multiOffers (hmap : pMap = Map.createFromAdjLsdb adjLsdb)
    (hself : pMap.getMappingNoByRouterName self = some source) {dest : Name} {faceUri : String}
    {c : Double} (hdest : dest ≠ self) :
    (∃ nh, (dest, nh) ∈ multiOffers adjacencyList pMap pMap.getMapSize source
        (makeAdjMatrix pMap.getMapSize adjLsdb pMap) ∧
        nh.connectingFaceUri = faceUri ∧ nh.routeCost = c) ↔
      c ∈ pathCosts adjLsdb adjacencyList self dest faceUri := by
  have hnum := numbered_map hmap
  obtain ⟨hs, hsn⟩ := (Map.getMappingNo_eq_some_iff hnum).1 hself
  constructor
  · rintro ⟨nh, hmem, hface, hc⟩
    obtain ⟨⟨link, cost⟩, hlink, hoffer⟩ := List.mem_flatMap.1 hmem
    obtain ⟨hln, hpos, hcost⟩ := mem_getLinksFromAdjMatrix.1 hlink
    dsimp only at hln hpos hcost hoffer
    obtain ⟨i, x, hi, his, hx, hd, rfl⟩ := mem_offers.1 hoffer
    obtain ⟨rfl, hlt⟩ := (getLsNextHop_oneLink hs hln his).1 hx
    obtain ⟨hls, k, hk, hdist⟩ :=
      (distance_oneLink hs hln (by omega) his hlt).1 rfl
    have hw : linkCost adjLsdb self (pMap.getRouterNameByMappingNo x) = cost := by
      rw [hcost, makeAdjMatrix_spec hnum hs hln (Ne.symm hls), hsn]
    rw [isDist_iff hmap hs hln hi, hsn, hd] at hk
    refine ⟨pMap.getRouterNameByMappingNo x, k, by omega, hface, hk, by omega, ?_⟩
    rw [← hc, hw, ← hdist]
  · rintro ⟨nbr, k, hpos, hface, hk, hlt, rfl⟩
    obtain ⟨l, hl⟩ := exists_mapping_of_linkCost
      (by rwa [linkCost_comm] : 0 < linkCost adjLsdb nbr self)
    rw [← hmap] at hl
    obtain ⟨hln, rfl⟩ := (Map.getMappingNo_eq_some_iff hnum).1 hl
    -- The destination is in the map: it is the neighbour or the end of a link.
    have hdm : ∃ i, pMap.getMappingNoByRouterName dest = some i := by
      rcases hk.1.eq_or_exists_edge with rfl | ⟨y, hy⟩
      · exact ⟨l, hl⟩
      · have hy' : 0 < linkCost adjLsdb dest y := by
          rw [linkCost_comm]
          rw [without] at hy
          split_ifs at hy
          · exact absurd hy (Nat.lt_irrefl 0)
          · exact hy
        rw [hmap]
        exact exists_mapping_of_linkCost hy'
    obtain ⟨i, hi⟩ := hdm
    obtain ⟨hin, rfl⟩ := (Map.getMappingNo_eq_some_iff hnum).1 hi
    have hls : l ≠ source := by
      rintro rfl
      rw [hsn, linkCost_self] at hpos
      exact absurd hpos (Nat.lt_irrefl 0)
    have his : i ≠ source := by rintro rfl; exact hdest hsn
    have hw : makeAdjMatrix pMap.getMapSize adjLsdb pMap source l =
        linkCost adjLsdb self (pMap.getRouterNameByMappingNo l) := by
      rw [makeAdjMatrix_spec hnum hs hln (Ne.symm hls), hsn]
    have hdist := (distance_oneLink (m := makeAdjMatrix pMap.getMapSize adjLsdb pMap)
      (c := linkCost adjLsdb self (pMap.getRouterNameByMappingNo l)) hs hln hpos his hlt).2
      ⟨hls, k, (isDist_iff hmap hs hln hin).2 (by rw [hsn]; exact hk), rfl⟩
    have hlink : (l, linkCost adjLsdb self (pMap.getRouterNameByMappingNo l)) ∈
        getLinksFromAdjMatrix pMap.getMapSize (makeAdjMatrix pMap.getMapSize adjLsdb pMap)
          source := mem_getLinksFromAdjMatrix.2 ⟨hln, by rw [hw]; exact hpos, hw.symm⟩
    have hx := (getLsNextHop_oneLink (m := makeAdjMatrix pMap.getMapSize adjLsdb pMap)
      (c := linkCost adjLsdb self (pMap.getRouterNameByMappingNo l)) (x := l) hs hln his).2
      ⟨rfl, by rw [hdist]; exact hlt⟩
    exact ⟨_, List.mem_flatMap.2 ⟨_, hlink, mem_offers.2 ⟨i, l, hin, his, hx, rfl, rfl⟩⟩, hface,
      by rw [hdist]⟩

/-- Nothing is offered for the router itself. -/
theorem ne_self_of_mem_multiOffers (hmap : pMap = Map.createFromAdjLsdb adjLsdb)
    (hself : pMap.getMappingNoByRouterName self = some source) {m : AdjMatrix} {dest : Name}
    {nh : NextHop} (h : (dest, nh) ∈ multiOffers adjacencyList pMap pMap.getMapSize source m) :
    dest ≠ self := by
  have hnum := numbered_map hmap
  obtain ⟨hs, hsn⟩ := (Map.getMappingNo_eq_some_iff hnum).1 hself
  obtain ⟨link, -, hoffer⟩ := List.mem_flatMap.1 h
  obtain ⟨i, x, hi, his, -, hd, -⟩ := mem_offers.1 hoffer
  rintro rfl
  exact his (Map.getRouterNameByMappingNo_inj hnum hi hs (hd.trans hsn.symm))

end Table

/-- This router is in the map of an LSDB that holds its own LSA. -/
theorem exists_mapping_of_ownAdjLsa {s : Nlsr} (h : s.ownAdjLsaExists) :
    ∃ source, (Map.createFromAdjLsdb s.lsdb.adjLsdb).getMappingNoByRouterName s.routerPrefix =
      some source := by
  obtain ⟨lsa, hlsa⟩ := Option.isSome_iff_exists.1 h
  exact exists_mapping_of_find? hlsa

/-- The multi-path table is the table of all offers. -/
theorem calculatePath_multi {s : Nlsr} (hmulti : s.confParam.maxFacesPerPrefix ≠ 1) {source : Nat}
    (hself : (Map.createFromAdjLsdb s.lsdb.adjLsdb).getMappingNoByRouterName s.routerPrefix =
      some source) (rt : RouteTable) :
    calculatePath (Map.createFromAdjLsdb s.lsdb.adjLsdb) rt s =
      (multiOffers s.adjacencyList (Map.createFromAdjLsdb s.lsdb.adjLsdb)
        (Map.createFromAdjLsdb s.lsdb.adjLsdb).getMapSize source
        (makeAdjMatrix (Map.createFromAdjLsdb s.lsdb.adjLsdb).getMapSize s.lsdb.adjLsdb
          (Map.createFromAdjLsdb s.lsdb.adjLsdb))).foldl (fun t o => t.addNextHop o.1 o.2) rt := by
  unfold calculatePath
  rw [hself]
  dsimp only
  rw [if_neg hmulti]
  exact multiPath_eq ..

/-- **The routes of the multi-path table** are the least path costs. -/
theorem hasRoute_calculatePath {s : Nlsr} (hown : s.ownAdjLsaExists)
    (hmulti : s.confParam.maxFacesPerPrefix ≠ 1) {dest : Name} (hdest : dest ≠ s.routerPrefix)
    (faceUri : String) (c : Double) :
    (calculatePath (Map.createFromAdjLsdb s.lsdb.adjLsdb) KeyedList.empty s).HasRoute dest faceUri
        c ↔ IsLeast (pathCosts s.lsdb.adjLsdb s.adjacencyList s.routerPrefix dest faceUri) c := by
  obtain ⟨source, hself⟩ := exists_mapping_of_ownAdjLsa hown
  rw [calculatePath_multi hmulti hself, RouteTable.hasRoute_foldl_addNextHop]
  have hset : {c | ∃ nh, (dest, nh) ∈ multiOffers s.adjacencyList
      (Map.createFromAdjLsdb s.lsdb.adjLsdb) (Map.createFromAdjLsdb s.lsdb.adjLsdb).getMapSize
      source (makeAdjMatrix (Map.createFromAdjLsdb s.lsdb.adjLsdb).getMapSize s.lsdb.adjLsdb
        (Map.createFromAdjLsdb s.lsdb.adjLsdb)) ∧ nh.connectingFaceUri = faceUri ∧
        nh.routeCost = c} =
      pathCosts s.lsdb.adjLsdb s.adjacencyList s.routerPrefix dest faceUri := by
    ext c
    exact mem_multiOffers rfl hself hdest
  rw [hset]

/-- A destination of the multi-path table is another router, and has a hop. -/
theorem contains_calculatePath {s : Nlsr} (hown : s.ownAdjLsaExists)
    (hmulti : s.confParam.maxFacesPerPrefix ≠ 1) {dest : Name}
    (h : (calculatePath (Map.createFromAdjLsdb s.lsdb.adjLsdb) KeyedList.empty s).contains dest) :
    dest ≠ s.routerPrefix ∧
      ∃ nh, nh ∈ (calculatePath (Map.createFromAdjLsdb s.lsdb.adjLsdb) KeyedList.empty s).hops
        dest := by
  obtain ⟨source, hself⟩ := exists_mapping_of_ownAdjLsa hown
  rw [calculatePath_multi hmulti hself] at h ⊢
  obtain ⟨nh, hnh⟩ | hempty := (RouteTable.contains_foldl_addNextHop _ _ _).1 h
  · obtain ⟨nh', hmem, -⟩ := (RouteTable.exists_mem_hops_foldl_addNextHop _ _ _).2 ⟨nh, hnh, rfl⟩
    exact ⟨ne_self_of_mem_multiOffers rfl hself hnh, nh', hmem⟩
  · exact absurd hempty Bool.false_ne_true

/-- A face has a hop exactly if there is a path over it. -/
theorem exists_hop_calculatePath {s : Nlsr} (hown : s.ownAdjLsaExists)
    (hmulti : s.confParam.maxFacesPerPrefix ≠ 1) {dest : Name} (hdest : dest ≠ s.routerPrefix)
    (faceUri : String) :
    (∃ nh ∈ (calculatePath (Map.createFromAdjLsdb s.lsdb.adjLsdb) KeyedList.empty s).hops dest,
        nh.connectingFaceUri = faceUri) ↔
      (pathCosts s.lsdb.adjLsdb s.adjacencyList s.routerPrefix dest faceUri).Nonempty := by
  obtain ⟨source, hself⟩ := exists_mapping_of_ownAdjLsa hown
  rw [calculatePath_multi hmulti hself, RouteTable.exists_mem_hops_foldl_addNextHop]
  constructor
  · rintro ⟨nh, hmem, hface⟩
    exact ⟨nh.routeCost, (mem_multiOffers rfl hself hdest).1 ⟨nh, hmem, hface, rfl⟩⟩
  · rintro ⟨c, hc⟩
    obtain ⟨nh, hmem, hface, -⟩ := (mem_multiOffers rfl hself hdest).2 hc
    exact ⟨nh, hmem, hface⟩

/-- **The link-state routing table is exactly the shortest-path answer.** For every other router
and every face there is a hop exactly if a path leads over a neighbour with this face; it is the
only one for the face and its cost is the least path cost. There is no entry for this router,
and none without a hop. -/
theorem calculatePath_exact (s : Nlsr) (hown : s.ownAdjLsaExists)
    (hmulti : s.confParam.maxFacesPerPrefix ≠ 1) :
    let rt := calculatePath (Map.createFromAdjLsdb s.lsdb.adjLsdb) KeyedList.empty s
    let costs := pathCosts s.lsdb.adjLsdb s.adjacencyList s.routerPrefix
    (∀ dest faceUri, dest ≠ s.routerPrefix →
      ((∃ nh ∈ rt.hops dest, nh.connectingFaceUri = faceUri) ↔ (costs dest faceUri).Nonempty) ∧
      ∀ nh ∈ rt.hops dest, nh.connectingFaceUri = faceUri →
        IsLeast (costs dest faceUri) nh.routeCost ∧
        ∀ nh' ∈ rt.hops dest, nh'.connectingFaceUri = faceUri → nh' = nh) ∧
    ∀ dest, rt.contains dest → dest ≠ s.routerPrefix ∧ ∃ nh, nh ∈ rt.hops dest := by
  intro rt costs
  refine ⟨fun dest faceUri hdest => ⟨exists_hop_calculatePath hown hmulti hdest faceUri, ?_⟩,
    fun dest => contains_calculatePath hown hmulti⟩
  intro nh hnh hface
  refine ⟨(hasRoute_calculatePath hown hmulti hdest faceUri nh.routeCost).1
    ⟨nh, hnh, hface, rfl⟩, fun nh' hnh' hface' => ?_⟩
  exact KeyedList.eq_of_key_eq hnh' hnh (hface'.trans hface.symm)

/-- A router `/a` with one neighbour `/b`, each listing the other, at costs 10 and 25. -/
def twoRouters : Nlsr :=
  let own : AdjLsa := { origRouter := [⟨"a"⟩], adl := KeyedList.empty.insert { name := [⟨"b"⟩] } }
  let other : AdjLsa :=
    { origRouter := [⟨"b"⟩], adl := KeyedList.empty.insert { name := [⟨"a"⟩], linkCost := 25 } }
  { confParam := { network := [⟨"a"⟩] }
    adjacencyList := KeyedList.empty.insert { name := [⟨"b"⟩], connectingFaceUri := "udp4://b" }
    lsdb := { adjLsdb := (KeyedList.empty.insert own).insert other } }

theorem calculatePath_exact_twoRouters :
    let rt := calculatePath (Map.createFromAdjLsdb twoRouters.lsdb.adjLsdb) KeyedList.empty
      twoRouters
    (∃ nh ∈ rt.hops [⟨"b"⟩], nh.connectingFaceUri = "udp4://b" ∧ nh.routeCost = 25) ∧
      IsLeast (pathCosts twoRouters.lsdb.adjLsdb twoRouters.adjacencyList [⟨"a"⟩] [⟨"b"⟩]
        "udp4://b") 25 := by
  have hhop : (⟨"udp4://b", 25, false⟩ : NextHop) ∈ ((calculatePath
      (Map.createFromAdjLsdb twoRouters.lsdb.adjLsdb) KeyedList.empty twoRouters).hops
        [⟨"b"⟩]).toList := by decide +kernel
  exact ⟨⟨_, hhop, rfl, rfl⟩, (((calculatePath_exact twoRouters (by decide +kernel)
    (by decide)).1 [⟨"b"⟩] "udp4://b" (by decide)).2 _ hhop rfl).1⟩

end LinkStateRoutingTableCalculator

namespace Nlsr

/-- The table of the link-state calculation. -/
def linkStateTable (s : Nlsr) : RouteTable :=
  LinkStateRoutingTableCalculator.calculatePath (Map.createFromAdjLsdb s.lsdb.adjLsdb)
    KeyedList.empty s

/-- The routing table as a calculation leaves it: with sorted hops, and empty when this router
has no Adjacency LSA of its own. -/
def currentTable (s : Nlsr) : RouteTable :=
  if s.ownAdjLsaExists then s.linkStateTable.sortAllHops else KeyedList.empty

/-- **What a calculation that runs stores**, with hyperbolic routing off. -/
theorem rTable_calculate {math : MathLib} {s : Nlsr} (h : s.CanCalculate)
    (hoff : s.confParam.hyperbolicState = .off) :
    (s.calculate math).routingTable.rTable = s.currentTable := by
  let s' : Nlsr := { s with isRoutingTableCalculating := true }
  have huse := (useRoutingTable_spec s' (s'.newRoutingTable math)).2.2.1
  rw [calculate_of_canCalculate h]
  refine huse.trans ?_
  unfold newRoutingTable currentTable
  by_cases hown : s.ownAdjLsaExists
  · rw [if_pos hown, if_pos (show s'.ownAdjLsaExists from hown)]
    have hoff' : s'.clearRoutingTable.clearDryRoutingTable.confParam.hyperbolicState = .off := hoff
    have htables : s'.clearRoutingTable.clearDryRoutingTable.calculateTables math =
        s'.clearRoutingTable.clearDryRoutingTable.calculateLsRoutingTable := by
      unfold calculateTables
      simp [hoff', calculateLsRoutingTable, setRTable]
    rw [htables]
    rfl
  · rw [if_neg hown, if_neg (show ¬ s'.ownAdjLsaExists from hown)]
    rfl

end Nlsr

end LinkState
