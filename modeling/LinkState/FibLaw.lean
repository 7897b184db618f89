import LinkState.Operations

/-!
# The FIB is a function of the other tables

`MergedHops s n` is what the name prefix table and the routing table say about a name: the next
hops of all its recorded origins, taken from the routing table, and of each face the cheapest.

`fib_follows_tables`: as long as no FIB entry expires, the FIB has an entry for a name exactly
if the name is in the name prefix table and has a merged hop, and the faces of the entry are the
first `k` in the order of rank.

The name prefix table works on copies of the routing table entries. The invariant `TablesAgree`
says that the copies are up to date, and that the FIB has what the merged copies ask for.
-/

namespace LinkState

/-! ## Every table has hops of one kind -/

namespace LinkStateRoutingTableCalculator

open RouteTable RoutingTableCalculator

theorem uniform_addAllLsNextHopsToRoutingTable {adjacencyList : AdjacencyList} {pMap : Map}
    {nRouters sourceRouter : Nat} {paths : DijkstraState} {rt : RouteTable}
    (h : Uniform rt false) :
    Uniform (addAllLsNextHopsToRoutingTable adjacencyList pMap nRouters sourceRouter paths rt)
      false := by
  refine loop_preserves (P := fun rt => Uniform rt false) h fun i rt _ _ hrt => ?_
  split_ifs
  · split
    · exact uniform_addNextHop hrt rfl
    · exact hrt
  · exact hrt

/-- The link-state calculation makes hops with plain costs. -/
theorem uniform_calculatePath (pMap : Map) {rt : RouteTable} (s : Nlsr)
    (h : Uniform rt false) : Uniform (calculatePath pMap rt s) false := by
  unfold calculatePath
  dsimp only
  split
  · exact h
  · split_ifs
    · exact uniform_addAllLsNextHopsToRoutingTable h
    · -- One run for each link, on one table
      have hfold : ∀ (links : List (Nat × Nat)) (m : AdjMatrix) (rt : RouteTable),
          Uniform rt false → ∀ n source, Uniform (links.foldl (fun (p : AdjMatrix × RouteTable)
            link => (adjustAdMatrix n source link.1 link.2 p.1,
              addAllLsNextHopsToRoutingTable s.adjacencyList pMap n source
                (doDijkstraPathCalculation n (adjustAdMatrix n source link.1 link.2 p.1) source)
                p.2)) (m, rt)).2 false := by
        intro links
        induction links with
        | nil => exact fun _ _ hrt _ _ => hrt
        | cons link links ih =>
          exact fun m rt hrt n source =>
            ih _ _ (uniform_addAllLsNextHopsToRoutingTable hrt) n source
      exact hfold _ _ _ h _ _

end LinkStateRoutingTableCalculator

namespace HyperbolicRoutingCalculator

open RouteTable

theorem uniform_addNeighborHops {distance : Name → Name → Double} {map : Map}
    {thisRouterName : Name} {adj : Adjacent} {rt : RouteTable} (h : Uniform rt true) :
    Uniform (addNeighborHops distance map thisRouterName adj rt) true := by
  have hadj : Uniform (addNextHop adj.name adj.connectingFaceUri 0 rt) true :=
    uniform_addNextHop h rfl
  unfold addNeighborHops
  split_ifs
  · exact h
  · exact h
  · dsimp only
    split
    · exact hadj
    · refine loop_preserves (P := fun rt => Uniform rt true) hadj fun dest rt _ _ hrt => ?_
      split_ifs
      · exact hrt
      · exact uniform_addNextHop hrt rfl
      · exact hrt

/-- The hyperbolic calculation makes hops with hyperbolic costs. -/
theorem uniform_calculatePaths {math : MathLib} {map : Map} {rt : RouteTable}
    {corLsdb : KeyedList CoordinateLsa.getKey} {adjacencies : AdjacencyList}
    {thisRouterName : Name} (h : Uniform rt true) :
    Uniform (calculatePaths math map rt corLsdb adjacencies thisRouterName) true := by
  unfold calculatePaths
  generalize adjacencies.toList = adjs
  induction adjs generalizing rt with
  | nil => exact h
  | cons adj adjs ih => exact ih (uniform_addNeighborHops h)

end HyperbolicRoutingCalculator

namespace Nlsr

open RouteTable

/-- Are the costs of the routing table hyperbolic? -/
def hyperbolicTable (s : Nlsr) : Bool := s.confParam.hyperbolicState = .on

/-- Hyperbolic routing fills the table itself, the other two ways the link-state calculator. -/
theorem rTable_calculateTables (math : MathLib) (s : Nlsr) :
    (s.calculateTables math).routingTable.rTable =
      if s.confParam.hyperbolicState = .on then
        HyperbolicRoutingCalculator.calculatePaths math (Map.createFromAdjLsdb s.lsdb.adjLsdb)
          s.routingTable.rTable s.lsdb.corLsdb s.adjacencyList s.routerPrefix
      else LinkStateRoutingTableCalculator.calculatePath (Map.createFromAdjLsdb s.lsdb.adjLsdb)
        s.routingTable.rTable s := by
  unfold calculateTables
  cases h : s.confParam.hyperbolicState <;>
    simp [h, calculateLsRoutingTable, calculateHypRoutingTable_eq, calculateHypDryRoutingTable_eq,
      setRTable, setDryTable]

theorem uniform_newRoutingTable (math : MathLib) (s : Nlsr) :
    Uniform (s.newRoutingTable math).rTable s.hyperbolicTable := by
  unfold newRoutingTable hyperbolicTable
  split_ifs
  · rw [rTable_calculateTables]
    by_cases h : s.confParam.hyperbolicState = .on
    · have h' : s.clearRoutingTable.clearDryRoutingTable.confParam.hyperbolicState = .on := h
      rw [if_pos h', h]
      exact HyperbolicRoutingCalculator.uniform_calculatePaths (uniform_empty _)
    · have h' : ¬ s.clearRoutingTable.clearDryRoutingTable.confParam.hyperbolicState = .on := h
      rw [if_neg h', decide_eq_false h]
      exact LinkStateRoutingTableCalculator.uniform_calculatePath _ _ (uniform_empty _)
  · exact uniform_empty _

/-! ## The invariant -/

/-- The copies in the name prefix table are the current entries, the FIB has what the merged
copies ask for, and all hops are of one kind. -/
structure TablesAgree (s : Nlsr) : Prop where
  copies : ∀ n o rte, (s.origins n).find? o = some rte →
    ∀ nh, nh ∈ rte.nexthopList ↔ nh ∈ s.routingTable.rTable.hops o
  follows : ∀ n, s.FibFollows n
  uniform : s.routingTable.rTable.Uniform s.hyperbolicTable

theorem FibFollows.congr {s t : Nlsr} {n : Name} (hconf : t.confParam = s.confParam)
    (hnpt : t.namePrefixTable = s.namePrefixTable) (hfib : t.fib.table = s.fib.table)
    (hs : s.FibFollows n) : t.FibFollows n := by
  unfold FibFollows Installed at hs ⊢
  rw [hnpt, hfib]
  cases h : s.namePrefixTable.find? n with
  | none => rw [h] at hs; exact hs
  | some entry =>
    rw [h] at hs
    dsimp only at hs ⊢
    rw [hopsToInstall_congr hconf]
    exact hs

theorem SameTables.tablesAgree {s t : Nlsr} (h : SameTables s t) (hs : s.TablesAgree) :
    t.TablesAgree where
  copies n o rte hrte nh := by
    rw [origins, h.namePrefixTable, ← origins] at hrte
    rw [h.routingTable]
    exact hs.copies n o rte hrte nh
  follows n := (hs.follows n).congr h.confParam h.namePrefixTable h.fibTable
  uniform := by
    rw [hyperbolicTable, h.routingTable, h.confParam]
    exact hs.uniform

/-- A pair that is entered gets a copy of the current entry. -/
theorem tablesAgree_addEntry {s : Nlsr} (hs : s.TablesAgree) (name dest : Name) :
    (s.addEntry name dest).TablesAgree where
  copies n o rte hrte nh := by
    rw [(onlyTables_addEntry s name dest).routingTable]
    rw [origins_addEntry] at hrte
    split_ifs at hrte with h
    · obtain ⟨-, rfl⟩ := h
      obtain rfl := Option.some.inj hrte
      rw [nexthopList_routingTableEntryOf]
    · exact hs.copies n o rte hrte nh
  follows := fibFollows_addEntry hs.follows name dest
  uniform := by
    rw [hyperbolicTable, (onlyTables_addEntry s name dest).routingTable,
      (onlyTables_addEntry s name dest).confParam]
    exact hs.uniform

theorem tablesAgree_removeEntry {s : Nlsr} (hs : s.TablesAgree) (name dest : Name) :
    (s.removeEntry name dest).TablesAgree where
  copies n o rte hrte nh := by
    rw [(onlyTables_removeEntry s name dest).routingTable]
    rw [origins_removeEntry] at hrte
    split_ifs at hrte
    exact hs.copies n o rte hrte nh
  follows := fibFollows_removeEntry hs.follows name dest
  uniform := by
    rw [hyperbolicTable, (onlyTables_removeEntry s name dest).routingTable,
      (onlyTables_removeEntry s name dest).confParam]
    exact hs.uniform

theorem Edits.tablesAgree {s t : Nlsr} {added removed : List (Name × Name)}
    (h : Edits s t added removed) (hs : s.TablesAgree) : t.TablesAgree := by
  refine h.induction (fun _ _ hsame => hsame.tablesAgree) (fun s pairs hs => ?_)
    (fun s pairs hs => ?_) hs
  · exact List.foldlRecOn pairs _ hs fun s hs p _ => tablesAgree_addEntry hs p.1 p.2
  · exact List.foldlRecOn pairs _ hs fun s hs p _ => tablesAgree_removeEntry hs p.1 p.2

/-! ### A calculation -/

theorem hops_sortAllHops (rt : RouteTable) (d : Name) :
    rt.sortAllHops.hops d = (rt.hops d).sortHops := by
  rw [RouteTable.hops, RouteTable.sortAllHops, KeyedList.find?_mapValues, RouteTable.hops]
  cases rt.find? d <;> rfl

@[simp] theorem mem_hops_sortAllHops {rt : RouteTable} {d : Name} {nh : NextHop} :
    nh ∈ rt.sortAllHops.hops d ↔ nh ∈ rt.hops d := by
  rw [hops_sortAllHops, NexthopList.sortHops, KeyedList.mem_sort]

/-- The log sorts the hops of the FIB entries, and so leaves their faces. -/
theorem fibFollows_fibWriteLog {s : Nlsr} {n : Name} (hs : s.FibFollows n) :
    s.fibWriteLog.FibFollows n := by
  have hfind : s.fibWriteLog.fib.table.find? n = (s.fib.table.find? n).map fun entry =>
      { entry with nexthopList := entry.nexthopList.sortHops } := by
    rw [fibWriteLog, KeyedList.find?_mapValues]
  unfold FibFollows Installed at hs ⊢
  have htable : s.fibWriteLog.namePrefixTable = s.namePrefixTable := rfl
  rw [htable, hfind]
  cases h : s.namePrefixTable.find? n with
  | none => rw [h] at hs; rw [hs]; rfl
  | some entry =>
    rw [h] at hs
    dsimp only at hs ⊢
    cases hfib : s.fib.table.find? n with
    | none => rw [hfib] at hs; exact hs
    | some fibEntry =>
      rw [hfib] at hs
      refine ⟨hs.1, fun f => Iff.trans ?_ (hs.2 f)⟩
      simp [NexthopList.sortHops, KeyedList.contains]

/-- **A new routing table reaches all tables.** -/
theorem tablesAgree_useRoutingTable {s : Nlsr} (hs : s.TablesAgree) {rt : RoutingTable}
    (hrt : rt.rTable.Uniform s.hyperbolicTable) : (s.useRoutingTable rt).TablesAgree := by
  obtain ⟨hframe, hnpt, hrTable, hfib, -⟩ := useRoutingTable_spec s rt
  let s' : Nlsr := { s with routingTable := rt }
  have hconf : (s.useRoutingTable rt).confParam = s.confParam := by
    rw [OnlyRouting] at hframe
    rw [hframe]
  have hconf' : s'.updateWithNewRoute.confParam = s.confParam :=
    (onlyTables_updateWithNewRoute s').confParam
  refine ⟨fun n o rte hrte nh => ?_, fun n => ?_, fun d nh hnh => ?_⟩
  · have hcopy : (s'.updateWithNewRoute.origins n).find? o = some rte := by
      rw [origins, ← hnpt, ← origins]
      exact hrte
    rw [origins_updateWithNewRoute] at hcopy
    obtain ⟨-, -, rfl⟩ := Option.map_eq_some_iff.1 hcopy
    rw [hrTable, mem_hops_sortAllHops, nexthopList_routingTableEntryOf]
  · have hfollows : ∀ m, s'.FibFollows m := fun m => (hs.follows m).congr rfl rfl rfl
    have hupdate : s'.updateWithNewRoute.FibFollows n := by
      rw [updateWithNewRoute_eq]
      exact fibFollows_addEntries hfollows _ n
    exact FibFollows.congr (s := s'.updateWithNewRoute.fibWriteLog) (hconf.trans hconf'.symm) hnpt
      (congrArg Fib.table hfib) (fibFollows_fibWriteLog hupdate)
  · rw [hrTable, mem_hops_sortAllHops] at hnh
    rw [hyperbolicTable, hconf]
    exact hrt d nh hnh

theorem tablesAgree_calculate (math : MathLib) {s : Nlsr} (hs : s.TablesAgree) :
    (s.calculate math).TablesAgree := by
  rcases calculate_cases math s with h | h | h
  · let s' : Nlsr := { s with isRoutingTableCalculating := true }
    have hsame : SameTables s s' := ⟨rfl, rfl, rfl, rfl⟩
    have huse := tablesAgree_useRoutingTable (hsame.tablesAgree hs)
      (uniform_newRoutingTable math s')
    have hflags : SameTables (s'.useRoutingTable (s'.newRoutingTable math)) (s.calculate math) := by
      rw [calculate_of_canCalculate h]
      exact ⟨rfl, rfl, rfl, rfl⟩
    exact hflags.tablesAgree huse
  · have hflags : SameTables s (s.calculate math) := by
      rw [h]
      exact ⟨rfl, rfl, rfl, rfl⟩
    exact hflags.tablesAgree hs
  · rw [h]
    exact (sameTables_scheduleRoutingTableCalculation s).tablesAgree hs

/-! ### Every step but an expiration -/

/-- The event is the expiration of a FIB entry. -/
def FibExpires (s : Nlsr) (e : Event) : Prop :=
  ∃ id name, e = .fire id ∧ s.pendingAction id = some (.removeFibEntry name)

theorem opOf_ne_fibRemove {s : Nlsr} {e : Event} (h : ¬ s.FibExpires e) (name : Name) :
    s.opOf e ≠ .fibRemove name := by
  cases e with
  | fire id =>
    intro hop
    change s.fireOp id = _ at hop
    unfold fireOp at hop
    cases hp : s.pendingAction id with
    | none =>
      rw [hp] at hop
      exact Op.noConfusion hop
    | some action =>
      rw [hp] at hop
      have hspec := s.actionOp_spec action
      rw [show s.actionOp action = _ from hop] at hspec
      cases hspec
      exact h ⟨id, name, rfl, hp⟩
  | advertise name =>
    show s.advertiseOp name ≠ _
    unfold advertiseOp
    split_ifs <;> exact Op.noConfusion
  | withdraw name =>
    show s.withdrawOp name ≠ _
    unfold withdrawOp
    split_ifs <;> exact Op.noConfusion
  | _ => exact Op.noConfusion

theorem tablesAgree_apply (math : MathLib) {s : Nlsr} {op : Op} (hs : s.TablesAgree)
    (hop : ∀ name, op ≠ .fibRemove name) : (s.apply math op).TablesAgree := by
  by_cases hcalculate : op = .calculate
  · subst hcalculate
    exact tablesAgree_calculate math hs
  · obtain ⟨added, removed, h⟩ := exists_edits_apply math s hcalculate hop
    exact h.tablesAgree hs

theorem tablesAgree_step (math : MathLib) (s : Nlsr) (e : Event) (hs : s.TablesAgree)
    (he : ¬ s.FibExpires e) : (s.step math e).TablesAgree := by
  obtain ⟨s₁, h₁, h₂⟩ := step_spec math s e
  exact h₂.sameTables.tablesAgree
    (tablesAgree_apply math (h₁.sameTables.tablesAgree hs) (opOf_ne_fibRemove he))

theorem tablesAgree_of_blank {s : Nlsr} (h : Blank s) : s.TablesAgree where
  copies n o rte hrte := by
    rw [origins, h.namePrefixTable] at hrte
    exact absurd hrte (Option.some_ne_none rte).symm
  follows n := by
    rw [FibFollows, h.namePrefixTable, h.fibTable]
    rfl
  uniform := by
    rw [h.rTable]
    exact uniform_empty _

/-! ## The law -/

/-- The current hops of all recorded origins of a name. -/
def OfferedHops (s : Nlsr) (n : Name) : Set NextHop :=
  {nh | ∃ o, s.Recorded n o ∧ nh ∈ s.routingTable.rTable.hops o}

/-- The offered hops merged: of each face the cheapest. -/
def MergedHops (s : Nlsr) (n : Name) : Set NextHop :=
  {nh | nh ∈ s.OfferedHops n ∧ ∀ nh' ∈ s.OfferedHops n,
    nh'.connectingFaceUri = nh.connectingFaceUri → nh.routeCost ≤ nh'.routeCost}

/-- How many faces an entry may have when there are `count` hops; a limit of 0 is no limit. -/
def facesAllowed (s : Nlsr) (count : Nat) : Nat :=
  if s.confParam.maxFacesPerPrefix = 0 then count
  else min count s.confParam.maxFacesPerPrefix.toNat

/-- The FIB has an entry for a name exactly if the name is in the name prefix table and has a
merged hop, and the faces of the entry are the first ones of the merged hops in the order of
rank: all of them, or as many as are allowed. -/
def FibFollowsTables (s : Nlsr) : Prop :=
  ∀ n, ∃ hops : List NextHop, (hops.Pairwise fun a b => a.rank < b.rank) ∧
    (∀ nh, nh ∈ hops ↔ nh ∈ s.MergedHops n) ∧
    (s.fib.table.contains n ↔ s.namePrefixTable.contains n ∧ hops ≠ []) ∧
    ∀ entry, s.fib.table.find? n = some entry → ∀ f, entry.nexthopList.contains f ↔
      f ∈ (hops.take (s.facesAllowed hops.length)).map NextHop.connectingFaceUri

theorem getNumberOfFacesForName_eq (s : Nlsr) (l : NexthopList) :
    s.getNumberOfFacesForName l = s.facesAllowed l.toList.length := by
  have hzero : s.confParam.maxFacesPerPrefix.toNat = 0 ↔ s.confParam.maxFacesPerPrefix = 0 := by
    rw [← UInt32.toNat_inj]
    rfl
  unfold getNumberOfFacesForName facesAllowed
  simp only [hzero]
  rfl

theorem facesAllowed_ne_zero {s : Nlsr} {count : Nat} (h : count ≠ 0) :
    s.facesAllowed count ≠ 0 := by
  unfold facesAllowed
  split_ifs with hmax
  · exact h
  · have hpos : s.confParam.maxFacesPerPrefix.toNat ≠ 0 := fun h0 =>
      hmax (UInt32.toNat_inj.1 h0)
    omega

theorem contains_of_installed {s : Nlsr} {n : Name} {hops : NexthopList}
    (h : s.Installed n hops) : s.fib.table.contains n ↔ hops.size ≠ 0 := by
  rw [Installed] at h
  rw [KeyedList.contains]
  cases hfib : s.fib.table.find? n with
  | none => rw [hfib] at h; simpa using h
  | some entry => rw [hfib] at h; simpa using h.1

/-- The hops of the copies are the offered hops. -/
theorem mem_flatMap_rteList {s : Nlsr} (hs : s.TablesAgree) {n : Name}
    {entry : NamePrefixTableEntry} (h : s.namePrefixTable.find? n = some entry) (nh : NextHop) :
    nh ∈ entry.rteList.toList.flatMap (fun rte => rte.nexthopList.toList) ↔
      nh ∈ s.OfferedHops n := by
  have horigins : s.origins n = entry.rteList := by rw [origins, h]
  rw [List.mem_flatMap]
  constructor
  · rintro ⟨rte, hrte, hnh⟩
    have hfind : (s.origins n).find? rte.destination = some rte := by
      rw [horigins]
      exact KeyedList.find?_of_mem hrte
    exact ⟨rte.destination, Option.isSome_iff_exists.2 ⟨rte, hfind⟩,
      (hs.copies n _ rte hfind nh).1 hnh⟩
  · rintro ⟨o, hrec, hnh⟩
    obtain ⟨rte, hfind⟩ := Option.isSome_iff_exists.1 hrec
    have hmem : rte ∈ entry.rteList := by
      rw [← horigins]
      exact KeyedList.mem_of_find? hfind
    exact ⟨rte, hmem, (hs.copies n o rte hfind nh).2 hnh⟩

/-- The merged hops of an entry are the merged hops of its name. -/
theorem mem_mergeHops {s : Nlsr} (hs : s.TablesAgree) {n : Name}
    {entry : NamePrefixTableEntry} (h : s.namePrefixTable.find? n = some entry) (nh : NextHop) :
    nh ∈ entry.mergeHops.nexthopList ↔ nh ∈ s.MergedHops n := by
  let offered := entry.rteList.toList.flatMap fun rte => rte.nexthopList.toList
  have hoffered : ∀ nh, nh ∈ offered ↔ nh ∈ s.OfferedHops n := mem_flatMap_rteList hs h
  have huniform : ∀ nh ∈ offered, nh.isHyperbolic = s.hyperbolicTable := fun nh hnh => by
    obtain ⟨o, -, hnh⟩ := (hoffered nh).1 hnh
    exact hs.uniform o nh hnh
  have hmerge : entry.mergeHops.nexthopList =
      (offered.foldl NexthopList.addNextHop KeyedList.empty).sortHops :=
    congrArg NexthopList.sortHops List.foldl_flatMap.symm
  rw [hmerge, NexthopList.sortHops, KeyedList.mem_sort,
    NexthopList.mem_foldl_addNextHop_empty huniform]
  simp only [hoffered]
  rfl

theorem TablesAgree.fibFollowsTables {s : Nlsr} (hs : s.TablesAgree) : s.FibFollowsTables := by
  intro n
  have hfollows := hs.follows n
  rw [FibFollows] at hfollows
  cases h : s.namePrefixTable.find? n with
  | none =>
    -- A name that is not in the table has no offers
    rw [h] at hfollows
    refine ⟨[], List.Pairwise.nil, fun nh => ?_, ?_, fun entry hentry => ?_⟩
    · refine iff_of_false List.not_mem_nil ?_
      rintro ⟨⟨o, hrec, -⟩, -⟩
      rw [Recorded, origins, h] at hrec
      exact Bool.false_ne_true hrec
    · simp [KeyedList.contains, hfollows]
    · exact absurd (hfollows.symm.trans hentry) (Option.some_ne_none entry).symm
  | some entry =>
    rw [h] at hfollows
    dsimp only at hfollows
    let l := entry.mergeHops.nexthopList
    have hlist := toList_hopsToInstall s l
    rw [getNumberOfFacesForName_eq] at hlist
    refine ⟨l.sortHops.toList, NexthopList.pairwise_sortHops l, fun nh => ?_, ?_, ?_⟩
    · rw [← mem_mergeHops hs h, ← KeyedList.mem_def, NexthopList.sortHops, KeyedList.mem_sort]
    · have hcontains : s.namePrefixTable.contains n = true := by
        rw [KeyedList.contains, h]
        rfl
      rw [contains_of_installed hfollows, and_iff_right hcontains]
      show (s.hopsToInstall l).toList.length ≠ 0 ↔ _
      rw [hlist, Ne, List.length_eq_zero_iff, List.take_eq_nil_iff, not_or]
      refine and_iff_right_of_imp fun hne => ?_
      exact facesAllowed_ne_zero fun h0 => hne (List.length_eq_zero_iff.1 h0)
    · intro fibEntry hfib f
      rw [Installed, hfib] at hfollows
      rw [hfollows.2 f, NexthopList.contains_iff_exists_mem]
      show (∃ nh ∈ (s.hopsToInstall l).toList, _) ↔ _
      rw [hlist, List.mem_map]

/-- **The FIB is a function of the name prefix table and the routing table**, in every state of
a run in which no FIB entry expires. -/
theorem fib_follows_tables (math : MathLib) (confParam : ConfParameter)
    (adjacencyList : AdjacencyList) (namePrefixList : NamePrefixList) (seqFile : Option UInt64)
    (now : TimePoint) (es : List Event) :
    let s₀ := (start confParam adjacencyList namePrefixList seqFile now).initializeNlsr
    Meets (step math) (fun s e => ¬ s.FibExpires e) s₀ es →
      Along (step math) FibFollowsTables s₀ es := by
  intro s₀ hmeets
  have h₀ : s₀.TablesAgree := initializeNlsr_induction (fun _ => tablesAgree_of_blank)
    (fun _ _ hq => hq.sameTables.tablesAgree)
    (fun s l _ hs => (exists_edits_install s l).elim fun _ ⟨_, h⟩ => h.tablesAgree hs)
    confParam adjacencyList namePrefixList seqFile now
  exact (along_of_meets (tablesAgree_step math) h₀ hmeets).imp
    fun _ => TablesAgree.fibFollowsTables

/-- An Adjacency LSA with one neighbour. -/
def linkTo (origin neighbor : Name) : AdjLsa where
  origRouter := origin
  lsSeqNo := 1
  expirationTimePoint := seconds 3600
  adl := KeyedList.empty.insert { name := neighbor }

/-- Router a with the neighbour b. -/
def oneNeighbor : Nlsr :=
  (start { network := [⟨"a"⟩] }
    (KeyedList.empty.insert { name := [⟨"b"⟩], connectingFaceUri := "udp4://b" })
    KeyedList.empty none 0).initializeNlsr

/-- Both ends of the link are learnt, then the routing table is calculated. -/
def learnLink : List Event :=
  [.installAdjLsa (linkTo [⟨"a"⟩] [⟨"b"⟩]), .installAdjLsa (linkTo [⟨"b"⟩] [⟨"a"⟩]), .fire 2]

theorem fib_follows_tables_learnLink :
    Along (step ⟨0, id, id, id, id⟩) FibFollowsTables oneNeighbor learnLink ∧
      (run (step ⟨0, id, id, id, id⟩) oneNeighbor learnLink).fib.table.contains [⟨"b"⟩] := by
  refine ⟨fib_follows_tables ⟨0, id, id, id, id⟩ { network := [⟨"a"⟩] }
    (KeyedList.empty.insert { name := [⟨"b"⟩], connectingFaceUri := "udp4://b" })
    KeyedList.empty none 0 learnLink ⟨?_, ?_, ?_, trivial⟩, by decide +kernel⟩
  · rintro ⟨id, name, h, -⟩
    exact Event.noConfusion h
  · rintro ⟨id, name, h, -⟩
    exact Event.noConfusion h
  · rintro ⟨eid, name, h, hp⟩
    obtain rfl := Event.fire.inj h
    have hcalculate : (run (step ⟨0, id, id, id, id⟩) oneNeighbor
        (learnLink.take 2)).pendingAction 2 = some .calculate := by decide +kernel
    exact Action.noConfusion (Option.some.inj (hcalculate.symm.trans hp))

end Nlsr

end LinkState
