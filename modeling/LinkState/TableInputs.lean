import LinkState.Convergence
import LinkState.FibLaw
import LinkState.LinkStatePaths

/-!
# What the routing table is calculated from

The link-state calculation reads the configuration, the faces of the neighbours, and of every
stored Adjacency LSA the origin and the adjacents, in their order (`SameInputs`).

With several faces per prefix the order does not matter: the table is fixed by the links of the
graph (`SameLinks`). With one face per prefix it does: it decides between paths of one cost.
-/

namespace LinkState

/-- What the calculation reads of an Adjacency LSA. -/
def AdjLsa.content (l : AdjLsa) : Name × AdjacencyList := (l.origRouter, l.adl)

namespace Nlsr

open LinkStateRoutingTableCalculator RoutingTableCalculator

/-- Two routers offer the same faces. -/
def SameFaces (s t : Nlsr) : Prop :=
  ∀ n, (t.adjacencyList.getAdjacent n).connectingFaceUri =
    (s.adjacencyList.getAdjacent n).connectingFaceUri

theorem sameFaces_of_agree {s t : Nlsr}
    (h : s.adjacencyList.Agree Adjacent.triple t.adjacencyList) : SameFaces s t := by
  intro n
  have hn := h n
  unfold AdjacencyList.getAdjacent
  cases hs : s.adjacencyList.find? n with
  | none =>
    cases ht : t.adjacencyList.find? n with
    | none => rfl
    | some b => simp [hs, ht] at hn
  | some a =>
    cases ht : t.adjacencyList.find? n with
    | none => simp [hs, ht] at hn
    | some b =>
      rw [hs, ht] at hn
      exact congrArg (fun p => p.2.1) (Option.some.inj hn)

/-- The calculation reads the same from both. -/
structure SameInputs (s t : Nlsr) : Prop where
  confParam : t.confParam = s.confParam
  faces : SameFaces s t
  contents : t.lsdb.adjLsdb.toList.map AdjLsa.content = s.lsdb.adjLsdb.toList.map AdjLsa.content

/-- The calculation reads the same links from both. -/
structure SameLinks (s t : Nlsr) : Prop where
  confParam : t.confParam = s.confParam
  faces : SameFaces s t
  own : t.ownAdjLsaExists = s.ownAdjLsaExists
  links : linkCost t.lsdb.adjLsdb = linkCost s.lsdb.adjLsdb

/-! ## Reading in order -/

theorem createFromAdjLsdb_congr {db db' : KeyedList AdjLsa.getKey}
    (h : db'.toList.map AdjLsa.content = db.toList.map AdjLsa.content) :
    Map.createFromAdjLsdb db' = Map.createFromAdjLsdb db := by
  have hread : ∀ db : KeyedList AdjLsa.getKey, Map.createFromAdjLsdb db =
      (db.toList.map AdjLsa.content).foldl (fun m c =>
        (c.1 :: c.2.toList.map Adjacent.name).foldl Map.addEntry m) {} := by
    intro db
    rw [List.foldl_map]
    rfl
  rw [hread, hread, h]

theorem makeAdjMatrix_congr {db db' : KeyedList AdjLsa.getKey}
    (h : db'.toList.map AdjLsa.content = db.toList.map AdjLsa.content) (nRouters : Nat)
    (pMap : Map) : makeAdjMatrix nRouters db' pMap = makeAdjMatrix nRouters db pMap := by
  have hread : ∀ db : KeyedList AdjLsa.getKey, advertisements db =
      (db.toList.map AdjLsa.content).flatMap fun c =>
        c.2.toList.map fun adjacent => (c.1, adjacent.name, adjacent.getLinkCost) := by
    intro db
    rw [List.flatMap_map]
    rfl
  rw [makeAdjMatrix, makeAdjMatrix, fillAdjMatrix_eq, fillAdjMatrix_eq, hread, hread, h]

theorem ownAdjLsaExists_iff (s : Nlsr) :
    s.ownAdjLsaExists = true ↔
      ∃ c ∈ s.lsdb.adjLsdb.toList.map AdjLsa.content, c.1 = s.routerPrefix := by
  show (s.lsdb.adjLsdb.find? (AdjLsa.key s.routerPrefix)).isSome = true ↔ _
  rw [KeyedList.find?_isSome]
  constructor
  · rintro ⟨l, hl, hkey⟩
    exact ⟨l.content, List.mem_map_of_mem hl, AdjLsa.key_injective hkey⟩
  · rintro ⟨c, hc, horig⟩
    obtain ⟨l, hl, rfl⟩ := List.mem_map.1 hc
    exact ⟨l, hl, congrArg AdjLsa.key horig⟩

theorem addAllLsNextHopsToRoutingTable_congr {l l' : AdjacencyList}
    (h : ∀ n, (l'.getAdjacent n).connectingFaceUri = (l.getAdjacent n).connectingFaceUri)
    (pMap : Map) (nRouters sourceRouter : Nat) (paths : DijkstraState) :
    addAllLsNextHopsToRoutingTable l' pMap nRouters sourceRouter paths =
      addAllLsNextHopsToRoutingTable l pMap nRouters sourceRouter paths := by
  funext rt
  unfold addAllLsNextHopsToRoutingTable
  simp only [h]

/-- **The table is a function of what is read.** -/
theorem SameInputs.currentTable {s t : Nlsr} (h : SameInputs s t) :
    t.currentTable = s.currentTable := by
  have hpfx : t.routerPrefix = s.routerPrefix :=
    congrArg ConfParameter.routerPrefix h.confParam
  have hown : t.ownAdjLsaExists = s.ownAdjLsaExists := by
    rw [Bool.eq_iff_iff, ownAdjLsaExists_iff, ownAdjLsaExists_iff, h.contents, hpfx]
  have htable : t.linkStateTable = s.linkStateTable := by
    unfold linkStateTable calculatePath
    dsimp only
    rw [createFromAdjLsdb_congr h.contents, makeAdjMatrix_congr h.contents, hpfx, h.confParam]
    simp only [addAllLsNextHopsToRoutingTable_congr h.faces]
  rw [Nlsr.currentTable, Nlsr.currentTable, hown, htable]

/-! ## Reading the links -/

theorem SameLinks.hasRoute {s t : Nlsr} (h : SameLinks s t) (hown : s.ownAdjLsaExists)
    (hmulti : s.confParam.maxFacesPerPrefix ≠ 1) {dest : Name} (hdest : dest ≠ s.routerPrefix)
    (faceUri : String) (c : Double) :
    t.linkStateTable.HasRoute dest faceUri c ↔ s.linkStateTable.HasRoute dest faceUri c := by
  have hpfx : t.routerPrefix = s.routerPrefix :=
    congrArg ConfParameter.routerPrefix h.confParam
  have hcosts : pathCosts t.lsdb.adjLsdb t.adjacencyList t.routerPrefix dest faceUri =
      pathCosts s.lsdb.adjLsdb s.adjacencyList s.routerPrefix dest faceUri := by
    unfold pathCosts
    rw [h.links, hpfx]
    simp only [h.faces _]
  have ht := hasRoute_calculatePath (s := t) (h.own.trans hown) (h.confParam ▸ hmulti)
    (hpfx ▸ hdest) faceUri c
  have hs := hasRoute_calculatePath (s := s) hown hmulti hdest faceUri c
  rw [hcosts] at ht
  exact ht.trans hs.symm

/-- The hops are those of the links. -/
theorem SameLinks.mem_hops {s t : Nlsr} (h : SameLinks s t) (hown : s.ownAdjLsaExists)
    (hmulti : s.confParam.maxFacesPerPrefix ≠ 1) {dest : Name} (hdest : dest ≠ s.routerPrefix)
    (nh : NextHop) : nh ∈ t.linkStateTable.hops dest ↔ nh ∈ s.linkStateTable.hops dest := by
  -- A hop of the link-state table is its face and its cost
  have hmem : ∀ u : Nlsr, nh ∈ u.linkStateTable.hops dest ↔
      nh.isHyperbolic = false ∧
        u.linkStateTable.HasRoute dest nh.connectingFaceUri nh.routeCost := by
    intro u
    have huniform := uniform_calculatePath (Map.createFromAdjLsdb u.lsdb.adjLsdb) u
      (RouteTable.uniform_empty false) dest
    constructor
    · intro hnh
      exact ⟨huniform nh hnh, nh, hnh, rfl, rfl⟩
    · rintro ⟨hkind, nh', hnh', hface, hcost⟩
      have heq : nh' = nh := by
        have hkind' := huniform nh' hnh'
        cases nh
        cases nh'
        simp_all
      exact heq ▸ hnh'
  rw [hmem, hmem, h.hasRoute hown hmulti hdest]

/-- Sorted hops are the same where the hops are. -/
theorem sortHops_congr {l l' : NexthopList} (h : ∀ nh, nh ∈ l' ↔ nh ∈ l) :
    l'.sortHops = l.sortHops := by
  have hmem : ∀ nh, nh ∈ l'.sortHops.toList ↔ nh ∈ l.sortHops.toList := by
    intro nh
    have hsort : ∀ m : NexthopList, nh ∈ m.sortHops.toList ↔ nh ∈ m := fun m =>
      KeyedList.mem_sort
    rw [hsort, hsort, h]
  have hnodup : ∀ m : NexthopList, m.sortHops.toList.Nodup := fun m =>
    List.Nodup.of_map _ m.sortHops.nodup
  have hperm := (List.perm_ext_iff_of_nodup (hnodup l') (hnodup l)).2 hmem
  ext1
  exact hperm.eq_of_pairwise (fun a b _ _ hab hba => absurd (hab.trans hba) (lt_irrefl _))
    l'.pairwise_sortHops l.pairwise_sortHops

/-- **With several faces per prefix the table is a function of the links.** -/
theorem SameLinks.find?_currentTable {s t : Nlsr} (h : SameLinks s t)
    (hmulti : s.confParam.maxFacesPerPrefix ≠ 1) (dest : Name) :
    t.currentTable.find? dest = s.currentTable.find? dest := by
  unfold Nlsr.currentTable
  rw [h.own]
  by_cases hown : s.ownAdjLsaExists = true
  · rw [if_pos hown, if_pos hown]
    have hpfx : t.routerPrefix = s.routerPrefix :=
      congrArg ConfParameter.routerPrefix h.confParam
    have hmulti' : t.confParam.maxFacesPerPrefix ≠ 1 := h.confParam ▸ hmulti
    have hown' : t.ownAdjLsaExists = true := h.own.trans hown
    -- An entry is its sorted hops, and it is there where there is a hop
    have hcontains : t.linkStateTable.contains dest ↔ s.linkStateTable.contains dest := by
      constructor
      · intro hc
        obtain ⟨hdest, nh, hnh⟩ := contains_calculatePath hown' hmulti' hc
        exact RouteTable.contains_of_mem_hops
          ((h.mem_hops hown hmulti (hpfx ▸ hdest) nh).1 hnh)
      · intro hc
        obtain ⟨hdest, nh, hnh⟩ := contains_calculatePath hown hmulti hc
        exact RouteTable.contains_of_mem_hops ((h.mem_hops hown hmulti hdest nh).2 hnh)
    have hentry : ∀ u : Nlsr, u.linkStateTable.sortAllHops.find? dest =
        if u.linkStateTable.contains dest then
          some { destination := dest, nexthopList := (u.linkStateTable.hops dest).sortHops }
        else none := by
      intro u
      rw [RouteTable.sortAllHops, KeyedList.find?_mapValues, KeyedList.contains, RouteTable.hops]
      cases hfind : u.linkStateTable.find? dest with
      | none => rfl
      | some rte =>
        have hdest : rte.destination = dest := KeyedList.key_of_find? hfind
        rw [← hdest]
        rfl
    rw [hentry, hentry]
    by_cases hc : s.linkStateTable.contains dest = true
    · obtain ⟨hdest, -⟩ := contains_calculatePath hown hmulti hc
      rw [if_pos hc, if_pos (hcontains.2 hc),
        sortHops_congr fun nh => h.mem_hops hown hmulti hdest nh]
    · rw [if_neg hc, if_neg fun hc' => hc (hcontains.1 hc')]
  · rw [if_neg hown, if_neg hown]

/-! ## Updates that change no content -/

/-- A stored LSA is replaced by one with the same adjacents in any order. -/
theorem sameLinks_of_replace {s t : Nlsr} (hconf : t.confParam = s.confParam)
    (hfaces : SameFaces s t) {chk l : AdjLsa}
    (hdb : t.lsdb.adjLsdb = s.lsdb.adjLsdb.replace l)
    (hchk : s.lsdb.adjLsdb.find? l.getKey = some chk) (hadl : ∀ a, a ∈ l.adl ↔ a ∈ chk.adl) :
    SameLinks s t := by
  have hpfx : t.routerPrefix = s.routerPrefix := congrArg ConfParameter.routerPrefix hconf
  refine ⟨hconf, hfaces, ?_, ?_⟩
  · show t.lsdb.adjLsdb.contains _ = s.lsdb.adjLsdb.contains _
    rw [hdb, hpfx, Bool.eq_iff_iff, KeyedList.contains_replace]
  · have hadvertised : advertisedCost t.lsdb.adjLsdb = advertisedCost s.lsdb.adjLsdb := by
      funext x y
      rw [advertisedCost_eq, advertisedCost_eq, hdb, KeyedList.find?_replace]
      split_ifs with hx
      · rw [hx, hchk, Option.map_some, Option.bind_some, Option.bind_some,
          KeyedList.find?_congr hadl]
      · rfl
    funext x y
    rw [linkCost, linkCost, hadvertised]

/-- A stored LSA is replaced by one with the same adjacents in the same order. -/
theorem sameInputs_of_replace {s t : Nlsr} (hconf : t.confParam = s.confParam)
    (hfaces : SameFaces s t) {chk l : AdjLsa}
    (hdb : t.lsdb.adjLsdb = s.lsdb.adjLsdb.replace l)
    (hchk : s.lsdb.adjLsdb.find? l.getKey = some chk) (hadl : l.adl = chk.adl) :
    SameInputs s t := by
  have horig : l.origRouter = chk.origRouter :=
    AdjLsa.key_injective (KeyedList.key_of_find? hchk).symm
  have hcontent : l.content = chk.content := by rw [AdjLsa.content, AdjLsa.content, horig, hadl]
  exact ⟨hconf, hfaces, by rw [hdb, KeyedList.map_replace hchk hcontent]⟩

end Nlsr

end LinkState
