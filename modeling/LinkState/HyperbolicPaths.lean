import LinkState.Calculator

/-!
# The hyperbolic routing table

Every neighbour that may be used offers itself at cost 0 and, if it is in the router map, the
other routers of the map at their distance from it. The routing table keeps the least offer per
face.

The distance is an arbitrary function of two names; where it is `unknownDistance`, nothing is
offered. `calculatePathsOver_exact`: **the routing table is exactly what the neighbours offer.**
-/

namespace LinkState

namespace HyperbolicRoutingCalculator

/-- `calculatePaths` for any distance function. -/
def calculatePathsOver (distance : Name → Name → Double) (map : Map) (rt : RouteTable)
    (adjacencies : AdjacencyList) (thisRouterName : Name) : RouteTable :=
  adjacencies.toList.foldl (fun rt adj => addNeighborHops distance map thisRouterName adj rt) rt

/-- The code calculates with the distance between the stored coordinates. -/
theorem calculatePaths_eq_over (math : MathLib) (map : Map) (rt : RouteTable)
    (corLsdb : KeyedList CoordinateLsa.getKey) (adjacencies : AdjacencyList)
    (thisRouterName : Name) :
    calculatePaths math map rt corLsdb adjacencies thisRouterName =
      calculatePathsOver (getHyperbolicDistance math corLsdb) map rt adjacencies thisRouterName :=
  rfl

/-! ## Offers -/

/-- A hop over a neighbour, as the hyperbolic calculation makes it. -/
def hopOver (adj : Adjacent) (cost : Double) : NextHop where
  connectingFaceUri := adj.connectingFaceUri
  routeCost := cost
  isHyperbolic := true

variable (distance : Name → Name → Double) (map : Map) (thisRouterName : Name)

/-- The offer of the neighbour with number `src` for the router with number `dest`. -/
def offerTo (adj : Adjacent) (src dest : Nat) : Option (Name × NextHop) :=
  if some dest ≠ map.getMappingNoByRouterName thisRouterName ∧ dest ≠ src then
    if distance adj.name (map.getRouterNameByMappingNo dest) = unknownDistance then none
    else some (map.getRouterNameByMappingNo dest,
      hopOver adj (distance adj.name (map.getRouterNameByMappingNo dest)))
  else none

/-- The offers of a neighbour. -/
def offers (adj : Adjacent) : List (Name × NextHop) :=
  if adj.status = .inactive then []
  else if adj.name = thisRouterName then []
  else (adj.name, hopOver adj 0) :: match map.getMappingNoByRouterName adj.name with
    | none => []
    | some src =>
      (List.range map.getMapSize).filterMap (offerTo distance map thisRouterName adj src)

theorem addNeighborHops_eq (adj : Adjacent) (rt : RouteTable) :
    addNeighborHops distance map thisRouterName adj rt =
      (offers distance map thisRouterName adj).foldl (fun t o => t.addNextHop o.1 o.2) rt := by
  unfold addNeighborHops offers
  split_ifs
  · rfl
  · rfl
  · rw [List.foldl_cons]
    cases map.getMappingNoByRouterName adj.name with
    | none => rfl
    | some src =>
      dsimp only
      rw [loop, List.foldl_filterMap, ← List.range_eq_range', Nat.sub_zero]
      refine congrArg (fun f => List.foldl f _ (List.range map.getMapSize)) ?_
      funext rt dest
      unfold offerTo
      split_ifs <;> rfl

theorem calculatePathsOver_eq (rt : RouteTable) (adjacencies : AdjacencyList) :
    calculatePathsOver distance map rt adjacencies thisRouterName =
      (adjacencies.toList.flatMap (offers distance map thisRouterName)).foldl
        (fun t o => t.addNextHop o.1 o.2) rt := by
  unfold calculatePathsOver
  rw [List.foldl_flatMap]
  refine congrArg (fun f => List.foldl f rt adjacencies.toList) ?_
  funext rt adj
  exact addNeighborHops_eq distance map thisRouterName adj rt

/-! ## What is offered -/

/-- The neighbour may be used. -/
def Usable (adj : Adjacent) : Prop := adj.status ≠ .inactive ∧ adj.name ≠ thisRouterName

/-- A usable neighbour is reached at cost 0; and another router of the map at its distance from
the neighbour, if the neighbour is in the map and the distance is known. -/
def ReachedAt (adj : Adjacent) (d : Name) (c : Double) : Prop :=
  d = adj.name ∧ c = 0 ∨
    (map.table.contains adj.name ∧ map.table.contains d ∧ d ≠ thisRouterName ∧ d ≠ adj.name ∧
      distance adj.name d ≠ unknownDistance ∧ c = distance adj.name d)

/-- The costs of a destination over the usable neighbours with a face. -/
def neighborCosts (adjacencies : AdjacencyList) (d : Name) (faceUri : String) : Set Double :=
  {c | ∃ adj ∈ adjacencies, Usable thisRouterName adj ∧ adj.connectingFaceUri = faceUri ∧
    ReachedAt distance map thisRouterName adj d c}

variable {distance map thisRouterName}

theorem offerTo_eq_some {adj : Adjacent} {src dest : Nat} {d : Name} {nh : NextHop} :
    offerTo distance map thisRouterName adj src dest = some (d, nh) ↔
      some dest ≠ map.getMappingNoByRouterName thisRouterName ∧ dest ≠ src ∧
        map.getRouterNameByMappingNo dest = d ∧ distance adj.name d ≠ unknownDistance ∧
        nh = hopOver adj (distance adj.name d) := by
  unfold offerTo
  constructor
  · intro h
    split_ifs at h with hdest hknown
    obtain ⟨rfl, rfl⟩ := Prod.mk.inj (Option.some.inj h)
    exact ⟨hdest.1, hdest.2, rfl, hknown, rfl⟩
  · rintro ⟨hthis, hsrc, rfl, hknown, rfl⟩
    rw [if_pos ⟨hthis, hsrc⟩, if_neg hknown]

/-- **What a neighbour offers.** -/
theorem mem_offers (hmap : Map.Numbered map) {adj : Adjacent} {d : Name} {nh : NextHop} :
    (d, nh) ∈ offers distance map thisRouterName adj ↔ Usable thisRouterName adj ∧
      ∃ c, nh = hopOver adj c ∧ ReachedAt distance map thisRouterName adj d c := by
  unfold offers Usable
  split_ifs with hinactive hself
  · exact iff_of_false List.not_mem_nil fun h => h.1.1 hinactive
  · exact iff_of_false List.not_mem_nil fun h => h.1.2 hself
  · refine Iff.trans ?_ (and_iff_right ⟨hinactive, hself⟩).symm
    rw [List.mem_cons, Prod.mk.injEq]
    constructor
    · rintro (⟨rfl, rfl⟩ | h)
      · exact ⟨0, rfl, Or.inl ⟨rfl, rfl⟩⟩
      · cases hsrc : map.getMappingNoByRouterName adj.name with
        | none =>
          rw [hsrc] at h
          exact absurd h List.not_mem_nil
        | some src =>
          rw [hsrc] at h
          obtain ⟨dest, hdest, hoffer⟩ := List.mem_filterMap.1 h
          obtain ⟨hthis, hne, hname, hknown, hhop⟩ := offerTo_eq_some.1 hoffer
          have hd : map.getMappingNoByRouterName d = some dest :=
            (Map.getMappingNo_eq_some_iff hmap).2 ⟨List.mem_range.1 hdest, hname⟩
          refine ⟨_, hhop, Or.inr ⟨Map.contains_iff_mapping.2 ⟨src, hsrc⟩,
            Map.contains_iff_mapping.2 ⟨dest, hd⟩, ?_, ?_, hknown, rfl⟩⟩
          · rintro rfl
            exact hthis hd.symm
          · rintro rfl
            exact hne (Option.some.inj (hd.symm.trans hsrc))
    · rintro ⟨c, rfl, ⟨rfl, rfl⟩ | ⟨hsrc, hd, hthis, hne, hknown, rfl⟩⟩
      · exact Or.inl ⟨rfl, rfl⟩
      · obtain ⟨src, hsrc⟩ := Map.contains_iff_mapping.1 hsrc
        obtain ⟨dest, hd⟩ := Map.contains_iff_mapping.1 hd
        obtain ⟨hlt, hname⟩ := (Map.getMappingNo_eq_some_iff hmap).1 hd
        rw [hsrc]
        refine Or.inr (List.mem_filterMap.2 ⟨dest, List.mem_range.2 hlt, offerTo_eq_some.2
          ⟨fun hself => ?_, fun hself => ?_, hname, hknown, rfl⟩⟩)
        · exact hthis (hname.symm.trans ((Map.getMappingNo_eq_some_iff hmap).1 hself.symm).2)
        · subst hself
          exact hne (hname.symm.trans ((Map.getMappingNo_eq_some_iff hmap).1 hsrc).2)

theorem mem_allOffers (hmap : Map.Numbered map) {adjacencies : AdjacencyList} {d : Name}
    {nh : NextHop} :
    (d, nh) ∈ adjacencies.toList.flatMap (offers distance map thisRouterName) ↔
      ∃ adj ∈ adjacencies, Usable thisRouterName adj ∧
        ∃ c, nh = hopOver adj c ∧ ReachedAt distance map thisRouterName adj d c := by
  rw [List.mem_flatMap]
  exact exists_congr fun adj => and_congr_right fun _ => mem_offers hmap

theorem offered_costs (hmap : Map.Numbered map) (adjacencies : AdjacencyList) (d : Name)
    (faceUri : String) :
    {c | ∃ nh, (d, nh) ∈ adjacencies.toList.flatMap (offers distance map thisRouterName) ∧
        nh.connectingFaceUri = faceUri ∧ nh.routeCost = c} =
      neighborCosts distance map thisRouterName adjacencies d faceUri := by
  ext c
  constructor
  · rintro ⟨nh, hoffer, rfl, rfl⟩
    obtain ⟨adj, hadj, husable, c, rfl, hreached⟩ := (mem_allOffers hmap).1 hoffer
    exact ⟨adj, hadj, husable, rfl, hreached⟩
  · rintro ⟨adj, hadj, husable, rfl, hreached⟩
    exact ⟨hopOver adj c, (mem_allOffers hmap).2 ⟨adj, hadj, husable, c, rfl, hreached⟩, rfl, rfl⟩

/-! ## The table -/

theorem hasRoute_calculatePathsOver (hmap : Map.Numbered map) (adjacencies : AdjacencyList)
    (d : Name) (faceUri : String) (c : Double) :
    (calculatePathsOver distance map KeyedList.empty adjacencies thisRouterName).HasRoute d
        faceUri c ↔
      IsLeast (neighborCosts distance map thisRouterName adjacencies d faceUri) c := by
  rw [calculatePathsOver_eq, RouteTable.hasRoute_foldl_addNextHop, offered_costs hmap]

/-- A face has a hop exactly if a neighbour with this face reaches the destination. -/
theorem exists_hop_calculatePathsOver (hmap : Map.Numbered map) (adjacencies : AdjacencyList)
    (d : Name) (faceUri : String) :
    (∃ nh ∈ (calculatePathsOver distance map KeyedList.empty adjacencies thisRouterName).hops d,
        nh.connectingFaceUri = faceUri) ↔
      (neighborCosts distance map thisRouterName adjacencies d faceUri).Nonempty := by
  rw [calculatePathsOver_eq, RouteTable.exists_mem_hops_foldl_addNextHop, ← offered_costs hmap]
  constructor
  · rintro ⟨nh, hoffer, hface⟩
    exact ⟨nh.routeCost, nh, hoffer, hface, rfl⟩
  · rintro ⟨c, nh, hoffer, hface, -⟩
    exact ⟨nh, hoffer, hface⟩

theorem uniform_calculatePathsOver (adjacencies : AdjacencyList) :
    (calculatePathsOver distance map KeyedList.empty adjacencies thisRouterName).Uniform true := by
  rw [calculatePathsOver_eq]
  refine List.foldlRecOn (motive := fun t => RouteTable.Uniform t true) _ _
    (RouteTable.uniform_empty true) fun t ht o ho => ?_
  refine RouteTable.uniform_addNextHop ht ?_
  obtain ⟨adj, -, hadj⟩ := List.mem_flatMap.1 ho
  unfold offers at hadj
  split_ifs at hadj
  · exact absurd hadj List.not_mem_nil
  · exact absurd hadj List.not_mem_nil
  · rcases List.mem_cons.1 hadj with rfl | hadj
    · rfl
    · cases hsrc : map.getMappingNoByRouterName adj.name with
      | none =>
        rw [hsrc] at hadj
        exact absurd hadj List.not_mem_nil
      | some src =>
        rw [hsrc] at hadj
        obtain ⟨dest, -, hoffer⟩ := List.mem_filterMap.1 hadj
        rw [(offerTo_eq_some.1 hoffer).2.2.2.2]
        rfl

/-- A destination is a usable neighbour or another router of the map. -/
theorem ne_of_contains_calculatePathsOver (hmap : Map.Numbered map) {adjacencies : AdjacencyList}
    {d : Name}
    (h : (calculatePathsOver distance map KeyedList.empty adjacencies thisRouterName).contains d) :
    d ≠ thisRouterName := by
  rw [calculatePathsOver_eq] at h
  rcases (RouteTable.contains_foldl_addNextHop _ _ _).1 h with ⟨nh, hoffer⟩ | hempty
  · obtain ⟨adj, -, husable, c, -, hreached⟩ := (mem_allOffers hmap).1 hoffer
    rcases hreached with ⟨rfl, -⟩ | ⟨-, -, hthis, -⟩
    · exact husable.2
    · exact hthis
  · exact absurd hempty Bool.false_ne_true

variable (distance thisRouterName)

/-- **The hyperbolic routing table is exactly what the neighbours offer.** A destination has a hop
with a face exactly if a usable neighbour with this face is or reaches the destination; it is the
only one for the face and has the least of the costs. This router has no entry. The map is any
that is built by adding routers. -/
theorem calculatePathsOver_exact (routers : List Name) (adjacencies : AdjacencyList) :
    let map := routers.foldl Map.addEntry {}
    let rt := calculatePathsOver distance map KeyedList.empty adjacencies thisRouterName
    let costs := neighborCosts distance map thisRouterName adjacencies
    (∀ d faceUri,
      ((∃ nh ∈ rt.hops d, nh.connectingFaceUri = faceUri) ↔ (costs d faceUri).Nonempty) ∧
      ∀ nh ∈ rt.hops d, nh.connectingFaceUri = faceUri →
        IsLeast (costs d faceUri) nh.routeCost ∧ nh.isHyperbolic = true ∧
        ∀ nh' ∈ rt.hops d, nh'.connectingFaceUri = faceUri → nh' = nh) ∧
    ¬ rt.contains thisRouterName := by
  intro map rt costs
  have hmap : Map.Numbered map := Map.numbered_foldl_addEntry Map.numbered_empty routers
  refine ⟨fun d faceUri => ⟨exists_hop_calculatePathsOver hmap adjacencies d faceUri, ?_⟩,
    fun h => ne_of_contains_calculatePathsOver hmap h rfl⟩
  intro nh hnh hface
  refine ⟨(hasRoute_calculatePathsOver hmap adjacencies d faceUri nh.routeCost).1
    ⟨nh, hnh, hface, rfl⟩, uniform_calculatePathsOver adjacencies d nh hnh,
      fun nh' hnh' hface' => ?_⟩
  exact KeyedList.eq_of_key_eq hnh' hnh (hface'.trans hface.symm)

end HyperbolicRoutingCalculator

end LinkState
