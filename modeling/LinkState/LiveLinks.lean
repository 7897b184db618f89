import LinkState.Advertised
import LinkState.FibLaw
import LinkState.LoopFree

/-!
# Routes over live links

The calculator does not look at the statuses of the neighbours. It reads this router's own
Adjacency LSA, which says what they are except while a build is scheduled, and then nothing is
calculated.

* `active_of_hop`: a hop of the calculation is over a neighbour the own LSA lists.
* `routes_are_live`: **a calculation stores hops over ACTIVE neighbours only**, as long as the
  own LSA's number fits its 32 bits and the builds see the requests.
* `not_routes_are_live`: a number that wraps, or a build that misses the requests, leaves a route
  over a link that is down.
-/

namespace LinkState

open LinkStateRoutingTableCalculator RoutingTableCalculator

namespace Nlsr

/-! ## Hops and the own LSA -/

/-- A hop of the link-state table is the face of a linked router. -/
theorem exists_link_of_hop {s : Nlsr} (hown : s.ownAdjLsaExists) {dest : Name} {nh : NextHop}
    (h : nh ∈ s.linkStateTable.hops dest) :
    ∃ nbr, 0 < linkCost s.lsdb.adjLsdb s.routerPrefix nbr ∧
      nh.connectingFaceUri = (s.adjacencyList.getAdjacent nbr).connectingFaceUri := by
  have hcontains := RouteTable.contains_of_mem_hops h
  by_cases hsingle : s.confParam.maxFacesPerPrefix = 1
  · obtain ⟨nh', c, nbr, hhops, -, hover, hface, -⟩ :=
      (singlePath_spec hown hsingle dest).2 hcontains
    have hmem : nh ∈ (s.linkStateTable.hops dest).toList := h
    rw [linkStateTable, hhops, List.mem_singleton] at hmem
    exact ⟨nbr, hover.link, by rw [hmem, hface]⟩
  · obtain ⟨hdest, -⟩ := contains_calculatePath hown hsingle hcontains
    obtain ⟨c, nbr, k, hpos, hface, -⟩ :=
      (exists_hop_calculatePath hown hsingle hdest _).1 ⟨nh, h, rfl⟩
    exact ⟨nbr, hpos, hface.symm⟩

/-- **Where the own LSA says what the statuses say** a hop is the face of an ACTIVE neighbour. -/
theorem active_of_hop {s : Nlsr} (hown : s.ownAdjLsaExists) (hadv : s.Advertises) {dest : Name}
    {nh : NextHop} (h : nh ∈ s.linkStateTable.hops dest) :
    ∃ a ∈ s.adjacencyList, a.status = .active ∧
      a.connectingFaceUri = nh.connectingFaceUri := by
  obtain ⟨nbr, hlink, hface⟩ := exists_link_of_hop hown h
  obtain ⟨lsa, a, hlsa, ha⟩ := exists_adjacent_of_linkCost hlink
  have hadl : s.ownAdl = some lsa.adl := by
    rw [ownAdl, show s.lsdb.findAdjLsa _ = some lsa from hlsa]
    rfl
  have hactive : ∃ a ∈ s.adjacencyList, a.status = .active := by
    by_contra hnone
    rw [hadv.none hnone] at hadl
    exact absurd hadl.symm (Option.some_ne_none _)
  obtain ⟨adl, hadl', htriples⟩ := hadv.active hactive
  obtain rfl : adl = lsa.adl := Option.some.inj (hadl'.symm.trans hadl)
  obtain ⟨b, hb, hstatus, htriple⟩ :=
    (htriples a.triple).1 ⟨a, KeyedList.mem_of_find? ha, rfl⟩
  have haname : a.name = nbr := KeyedList.key_of_find? ha
  have hname : b.name = nbr := (congrArg Prod.fst htriple).trans haname
  refine ⟨b, hb, hstatus, ?_⟩
  rw [hface, AdjacencyList.getAdjacent, ← hname, KeyedList.find?_of_mem hb]
  rfl

/-! ## Every run -/

/-- When a pending calculation fires and fills the table, every hop it stores has the face URI
of a neighbour that is ACTIVE. -/
def FillsLive (math : MathLib) (s : Nlsr) : Prop :=
  ∀ id, s.pendingAction id = some .calculate → s.CanCalculate →
    ∀ dest, ∀ nh ∈ (s.step math (.fire id)).routingTable.rTable.hops dest,
      ∃ a ∈ s.adjacencyList, a.status = .active ∧ a.connectingFaceUri = nh.connectingFaceUri

theorem fire_calculate (math : MathLib) {s : Nlsr} {id : Nat}
    (h : s.pendingAction id = some .calculate) :
    s.step math (.fire id) = (s.cancelEvent (some id)).calculate math := by
  show s.fire math id = _
  rw [fire, h]
  rfl

theorem AdvertisingInv.fillsLive (math : MathLib) {links : AdjacencyList} {s : Nlsr}
    (h : s.AdvertisingInv links) (hoff : s.confParam.hyperbolicState = .off) :
    s.FillsLive math := by
  intro id hid hcan dest nh hnh
  let s' := s.cancelEvent (some id)
  have hcan' : s'.CanCalculate := hcan
  rw [fire_calculate math hid, rTable_calculate hcan' hoff, currentTable] at hnh
  by_cases hown : s'.ownAdjLsaExists
  · rw [if_pos hown, mem_hops_sortAllHops] at hnh
    have hadv : s.Advertises := h.advertises (h.count_of_not_scheduled (hcan.2 hown))
    have hadv' : s'.Advertises := ⟨hadv.active, hadv.none⟩
    exact active_of_hop hown hadv' hnh
  · rw [if_neg hown] at hnh
    exact absurd hnh (KeyedList.not_mem_empty nh)

/-- **A route is never computed over a dead link.** -/
theorem routes_are_live (math : MathLib) (confParam : ConfParameter)
    (hoff : confParam.hyperbolicState = .off) (adjacencyList : AdjacencyList)
    (namePrefixList : NamePrefixList) (seqFile : Option UInt64) (now : TimePoint)
    (hinactive : ∀ a ∈ adjacencyList, a.status ≠ .active) (es : List Event)
    (h : Meets (step math) (KeepsAdvertising math)
      (start confParam adjacencyList namePrefixList seqFile now).initializeNlsr es) :
    Along (step math) (FillsLive math)
      (start confParam adjacencyList namePrefixList seqFile now).initializeNlsr es := by
  refine Along.imp (P := fun s => s.AdvertisingInv (configuredNeighbors confParam adjacencyList) ∧
      s.confParam = confParam) (fun s hs => hs.1.fillsLive math (hs.2 ▸ hoff)) ?_
  refine along_of_meets (fun s e hs he => ?_)
    ⟨advertisingInv_initializeNlsr confParam namePrefixList seqFile now hinactive,
      confParam_initializeNlsr ..⟩ h
  exact ⟨advertisingInv_step math hs.1 he.ownAdj he.room he.requests,
    (confParam_step math s e).trans hs.2⟩

/-- The LSA of `n`, which lists this router. -/
def lsaOfN : AdjLsa :=
  { origRouter := [⟨"n"⟩], lsSeqNo := 1
    adl := ⟨[{ name := [⟨"a"⟩], connectingFaceUri := "ua" }], by simp⟩ }

/-- The LSA of `n` is not this router's. -/
theorem keepsOwnAdj_installN {s : Nlsr} (hconf : s.confParam = impatient) :
    s.KeepsOwnAdj (.installAdjLsa lsaOfN) := by
  refine ⟨?_, nofun⟩
  show lsaOfN.origRouter ≠ s.confParam.routerPrefix
  rw [hconf]
  decide

/-- Both neighbours answer, the first build is done, and the LSA of `n` arrives. -/
def linked : List Event := bothUp 2 ++ [.installAdjLsa lsaOfN]

theorem meets_linked : Meets (step ⟨0, id, id, id, id⟩) (KeepsAdvertising ⟨0, id, id, id, id⟩)
    flappingStart linked := by
  refine meets_append.2 ⟨meets_bothUp, ⟨keepsOwnAdj_installN ?_, keepsRoom_of_fits ?_ _, nofun⟩,
    trivial⟩
  · simp only [bothUp, run_cons, run_nil, confParam_step]
    rfl
  · decide +kernel

/-- The calculation that is pending then stores a hop over `n`. -/
theorem routes_are_live_bothUp :
    let s := run (step ⟨0, id, id, id, id⟩) flappingStart linked
    s.pendingAction 3 = some .calculate ∧ s.CanCalculate ∧
      ((s.step ⟨0, id, id, id, id⟩ (.fire 3)).routingTable.rTable.hops [⟨"n"⟩]).toList.map
        NextHop.connectingFaceUri = ["un"] ∧ s.FillsLive ⟨0, id, id, id, id⟩ := by
  refine ⟨by decide +kernel, ⟨by decide +kernel, fun _ => by decide +kernel⟩, by decide +kernel, ?_⟩
  exact (routes_are_live ⟨0, id, id, id, id⟩ impatient rfl silentNeighbors KeyedList.empty none 0
    silentNeighbors_inactive linked meets_linked).last

/-! ## A number that wraps -/

/-- Both neighbours are advertised, `n` has no LSA, and there is nothing to calculate. -/
structure Settled (s : Nlsr) : Prop where
  ownAdl : s.ownAdl = some (flapping .active 0)
  foreign : s.lsdb.findAdjLsa (AdjLsa.key [⟨"n"⟩]) = none
  isRouteCalculationScheduled : s.isRouteCalculationScheduled = false
  isRoutingTableCalculating : s.isRoutingTableCalculating = false

theorem Settled.onlyHello {s t : Nlsr} (h : Settled s) (ht : OnlyHello s t) : Settled t := by
  have hown := ht.ownAdl
  rw [OnlyHello] at ht
  refine ⟨hown.trans h.ownAdl, ?_, ?_, ?_⟩
  · rw [ht]; exact h.foreign
  · rw [ht]; exact h.isRouteCalculationScheduled
  · rw [ht]; exact h.isRoutingTableCalculating

/-- A build that finds what it has asks for nothing. -/
theorem Settled.build {s : Nlsr} (h : Settled s) (hconf : s.confParam = impatient)
    (hown : s.buildAndInstallOwnAdjLsa.ownAdl = some (flapping .active 0))
    (hsame : ∀ chk, s.lsdb.findAdjLsa (AdjLsa.key s.routerPrefix) = some chk →
      chk.lsSeqNo < s.ownAdjLsa.lsSeqNo → s.ownAdjLsa.adl = flapping .active 0) :
    Settled s.buildAndInstallOwnAdjLsa := by
  let s' : Nlsr := ({ s with
    sequencingManager := s.sequencingManager.increaseAdjLsaSeq } : Nlsr).publishRoutingUpdate
  have hrp : s.routerPrefix = [⟨"a"⟩] := congrArg ConfParameter.routerPrefix hconf
  have hkey : s.ownAdjLsa.getKey = AdjLsa.key s.routerPrefix := by
    rw [ownAdjLsa, AdjLsa.make_eq]
    rfl
  obtain ⟨chk, hchk, hadl⟩ := Option.map_eq_some_iff.1 h.ownAdl
  have hchk' : s'.lsdb.findAdjLsa s.ownAdjLsa.getKey = some chk := by
    rw [hkey]
    exact hchk
  have hframe : OnlyLsdb s' s.buildAndInstallOwnAdjLsa := onlyLsdb_installAdjLsa s' s.ownAdjLsa
  refine ⟨hown, ?_, ?_, ?_⟩
  · obtain ⟨-, eid, hinst⟩ := lsdb_installAdjLsa s' s.ownAdjLsa
    have hfind := hinst (AdjLsa.key [⟨"n"⟩])
    rw [if_neg (by rw [hkey, hrp]; decide)] at hfind
    exact hfind.trans h.foreign
  · by_cases hlt : chk.lsSeqNo < s.ownAdjLsa.lsSeqNo
    · have hequal : (chk.adl.eqSorting s.ownAdjLsa.adl).1 = true := by
        rw [hadl, hsame chk hchk hlt]
        decide +kernel
      show (s'.installAdjLsa s.ownAdjLsa).isRouteCalculationScheduled = false
      rw [installAdjLsa_of_newer hchk' hlt]
      dsimp only
      rw [if_pos hequal]
      exact h.isRouteCalculationScheduled
    · show (s'.installAdjLsa s.ownAdjLsa).isRouteCalculationScheduled = false
      rw [installAdjLsa_of_not_newer hchk' hlt]
      exact h.isRouteCalculationScheduled
  · rw [OnlyLsdb] at hframe
    rw [hframe]
    exact h.isRoutingTableCalculating

theorem adl_ownAdjLsa (s : Nlsr) :
    s.ownAdjLsa.adl = s.adjacencyList.filter fun a => a.status = .active := by
  rw [ownAdjLsa, AdjLsa.make_eq]

/-- A requested build fires, and keeps what is advertised. -/
theorem Settled.built (math : MathLib) {s t : Nlsr} {l : AdjacencyList} {id n : Nat}
    (h : Settled s) (hnumbered : s.Numbered) (hreq : Requested l id n s t) (hpos : 0 < n)
    (hlt : n < 2 ^ 31) (hconf : s.confParam = impatient) (hbuildable : l.isAdjLsaBuildable 1 = true)
    (hactive : l.getNumOfActiveNeighbor > 0)
    (hkeeps : ∀ u : Nlsr, Settled u → u.Numbered → u.adjacencyList = l →
      u.sequencingManager = s.sequencingManager →
      u.buildAndInstallOwnAdjLsa.ownAdl = some (flapping .active 0) ∧
        ∀ chk, u.lsdb.findAdjLsa (AdjLsa.key u.routerPrefix) = some chk →
          chk.lsSeqNo < u.ownAdjLsa.lsSeqNo → u.ownAdjLsa.adl = flapping .active 0) :
    Settled (t.step math (.fire id)) := by
  let u : Nlsr := { t.cancelEvent (some id) with isBuildAdjLsaSheduled := false }
  have ht : Settled t := h.onlyHello hreq.onlyHello
  have hu : Settled u := ⟨ht.ownAdl, ht.foreign, ht.isRouteCalculationScheduled,
    ht.isRoutingTableCalculating⟩
  have htn := hreq.onlyHello.sameNumbers.numbered hnumbered
  obtain ⟨hown, hsame⟩ := hkeeps u hu ⟨htn.thisRouterPrefix, htn.own⟩ hreq.adjacencyList
    hreq.onlyHello.sequencingManager
  have hbuilt := hu.build (hreq.onlyHello.confParam.trans hconf) hown hsame
  have hcount : LinkState.Nlsr.narrowToInt t.adjBuildCount > 0 := by
    rw [hreq.narrowToInt hlt]
    exact_mod_cast hpos
  rw [fire_buildAdjLsa math hreq.pendingAction,
    buildAdjLsa_of_active (s := t.cancelEvent (some id)) ?_ hcount ?_]
  · exact ⟨hbuilt.ownAdl, hbuilt.foreign, hbuilt.isRouteCalculationScheduled,
      hbuilt.isRoutingTableCalculating⟩
  · show t.adjacencyList.isAdjLsaBuildable t.confParam.interestRetryNumber = true
    rw [hreq.adjacencyList, hreq.onlyHello.confParam, hconf]
    exact hbuildable
  · show t.adjacencyList.getNumOfActiveNeighbor > 0
    rw [hreq.adjacencyList]
    exact hactive

/-- A flap leaves nothing to calculate. -/
theorem Settled.flap (math : MathLib) {k : Nat} {s : Nlsr} (h : Settled s) (hf : Flapping k s)
    (hk : k + 1 < 2 ^ 32) : Settled (run (step math) s (flap s.scheduler.nextId)) := by
  refine h.built math hf.inv.numbered ((hf.down math).up math) (by norm_num) (by norm_num)
    hf.confParam (by decide) (by decide) fun u hu hnumbered hlist hsm => ?_
  have hadl : u.ownAdjLsa.adl = flapping .active 0 := by
    rw [adl_ownAdjLsa, hlist]
    decide
  have hroom : u.HasRoom .adj := by
    rw [HasRoom, hsm, hf.counter]
    exact hk
  refine ⟨?_, fun _ _ _ => hadl⟩
  rw [ownAdl_buildAndInstallOwnAdjLsa hnumbered hroom, hu.ownAdl, hadl]
  decide +kernel

theorem Settled.flaps (math : MathLib) {k : Nat} {s : Nlsr} (h : Settled s) (hf : Flapping k s)
    (n : Nat) (hk : k + n < 2 ^ 32) :
    ∃ es, Meets (step math) MayWrap s es ∧ Flapping (k + n) (run (step math) s es) ∧
      Settled (run (step math) s es) := by
  induction n with
  | zero => exact ⟨[], trivial, hf, h⟩
  | succ n ih =>
    obtain ⟨es, hes, hfn, hn⟩ := ih (by omega)
    refine ⟨es ++ Nlsr.flap (run (step math) s es).scheduler.nextId,
      meets_append.2 ⟨hes, hfn.meets_flap math⟩, ?_, ?_⟩
    · rw [run_append]
      exact hfn.flap math (by omega)
    · rw [run_append]
      exact hn.flap math hfn (by omega)

/-- After the last number `n` goes down, and what is advertised stays. -/
theorem Settled.lost (math : MathLib) {s : Nlsr} (h : Settled s) (hf : Flapping (2 ^ 32 - 1) s) :
    let t := run (step math) s (loss s.scheduler.nextId)
    Settled t ∧ t.adjacencyList = flapping .inactive 1 ∧ t.isBuildAdjLsaSheduled = false ∧
      t.confParam = impatient := by
  have hdown := hf.down math
  have hbuilt := hdown.built math (by norm_num) (by norm_num) hf.confParam (by decide) (by decide)
  refine ⟨?_, hbuilt.adjacencyList.trans hdown.adjacencyList, hbuilt.isBuildAdjLsaSheduled,
    hbuilt.confParam.trans (hdown.onlyHello.confParam.trans hf.confParam)⟩
  refine h.built math hf.inv.numbered hdown (by norm_num) (by norm_num) hf.confParam (by decide)
    (by decide) fun u hu _ _ hsm => ?_
  have hlast : (u.sequencingManager.counter .adj).toNat = 2 ^ 32 - 1 := by rw [hsm, hf.counter]
  have hzero : u.ownAdjLsa.lsSeqNo.toNat = 0 := by
    rw [ownAdjLsa, AdjLsa.make_eq]
    show (u.sequencingManager.counter .adj + 1).toUInt32.toNat = 0
    rw [UInt64.toNat_toUInt32, UInt64.toNat_add, hlast]
    rfl
  refine ⟨ownAdl_build_of_last hlast hu.ownAdl, fun chk _ hlt => ?_⟩
  have hlt : chk.lsSeqNo.toNat < u.ownAdjLsa.lsSeqNo.toNat := hlt
  omega

theorem exists_calculate_of_not_scheduled {s : Nlsr} (h : s.isRouteCalculationScheduled = false) :
    ∃ e ∈ s.scheduleRoutingTableCalculation.scheduler.events, e.action = .calculate := by
  rw [scheduleRoutingTableCalculation, if_pos (by simp [h])]
  exact ⟨_, Scheduler.mem_scheduleEvent.2 (Or.inr rfl), rfl⟩

/-- A stored own LSA and the LSA of `n` list each other. -/
theorem linkCost_n {adjLsdb : KeyedList AdjLsa.getKey} {own : AdjLsa}
    (hown : adjLsdb.find? (AdjLsa.key [⟨"a"⟩]) = some own) (hadl : own.adl = flapping .active 0)
    (hn : adjLsdb.find? (AdjLsa.key [⟨"n"⟩]) = some lsaOfN) :
    linkCost adjLsdb [⟨"a"⟩] [⟨"n"⟩] = 10 := by
  have hto : advertisedCost adjLsdb [⟨"a"⟩] [⟨"n"⟩] = 10 := by
    rw [advertisedCost_eq, hown, Option.bind_some, hadl]
    decide +kernel
  have hfrom : advertisedCost adjLsdb [⟨"n"⟩] [⟨"a"⟩] = 10 := by
    rw [advertisedCost_eq, hn, Option.bind_some]
    decide +kernel
  rw [linkCost, if_neg (by decide), hto, hfrom]
  rfl

/-- The LSA of `n` lists the router, and the own LSA lists `n`. -/
theorem Settled.links {s : Nlsr} (h : Settled s) (hconf : s.confParam = impatient) :
    let adjLsdb := (s.installAdjLsa lsaOfN).lsdb.adjLsdb
    adjLsdb.contains (AdjLsa.key [⟨"a"⟩]) = true ∧ linkCost adjLsdb [⟨"a"⟩] [⟨"n"⟩] = 10 := by
  have hrp : s.routerPrefix = [⟨"a"⟩] := congrArg ConfParameter.routerPrefix hconf
  obtain ⟨own, hown, hadl⟩ := Option.map_eq_some_iff.1 h.ownAdl
  obtain ⟨-, eid, hinst⟩ := lsdb_installAdjLsa s lsaOfN
  have hown' : (s.installAdjLsa lsaOfN).lsdb.adjLsdb.find? (AdjLsa.key [⟨"a"⟩]) = some own := by
    refine (hinst _).trans ((if_neg (by decide)).trans ?_)
    rw [hrp] at hown
    exact hown
  have hn : (s.installAdjLsa lsaOfN).lsdb.adjLsdb.find? (AdjLsa.key [⟨"n"⟩]) = some lsaOfN := by
    refine (hinst _).trans ((if_pos rfl).trans ?_)
    rw [show s.lsdb.adjLsdb.find? (AdjLsa.key [⟨"n"⟩]) = none from h.foreign]
  refine ⟨?_, linkCost_n hown' hadl hn⟩
  rw [KeyedList.contains, hown']
  rfl

/-- The LSA of `n` is new and asks for a calculation. -/
theorem Settled.exists_calculate {s : Nlsr} (h : Settled s) :
    ∃ e ∈ (s.installAdjLsa lsaOfN).scheduler.events, e.action = .calculate := by
  let u := (s.setLsdb (s.lsdb.addAdjLsa lsaOfN)).addEntries
    (originPairs s.routerPrefix lsaOfN.origRouter)
  have hu : u.isRouteCalculationScheduled = false := by
    have htables : OnlyTables _ u := onlyTables_addEntries ..
    rw [OnlyTables] at htables
    rw [htables]
    exact h.isRouteCalculationScheduled
  obtain ⟨e, he, haction⟩ := exists_calculate_of_not_scheduled hu
  refine ⟨e, ?_, haction⟩
  rw [installAdjLsa_of_none h.foreign]
  exact Scheduler.mem_scheduleEvent.2 (Or.inl he)

/-- With the two links the table has a hop over `n`. -/
theorem exists_hop_over_n {s : Nlsr} (hlist : s.adjacencyList = flapping .inactive 1)
    (hconf : s.confParam = impatient)
    (hexists : s.lsdb.adjLsdb.contains (AdjLsa.key [⟨"a"⟩]) = true)
    (hlink : linkCost s.lsdb.adjLsdb [⟨"a"⟩] [⟨"n"⟩] = 10) :
    ∃ nh ∈ s.currentTable.hops [⟨"n"⟩], nh.connectingFaceUri = "un" := by
  have hrp : s.routerPrefix = [⟨"a"⟩] := congrArg ConfParameter.routerPrefix hconf
  have hexists' : s.ownAdjLsaExists = true := by
    show s.lsdb.adjLsdb.contains (AdjLsa.key s.routerPrefix) = true
    rw [hrp]
    exact hexists
  have hpath : (pathCosts s.lsdb.adjLsdb s.adjacencyList s.routerPrefix [⟨"n"⟩]
      "un").Nonempty := by
    rw [hrp, hlist]
    refine ⟨_, [⟨"n"⟩], 0, ?_, by decide, ⟨Walk.refl, fun k _ => Nat.zero_le k⟩, ?_, rfl⟩
    · rw [hlink]
      decide
    · rw [hlink]
      decide
  have hmulti : s.confParam.maxFacesPerPrefix ≠ 1 := by
    rw [hconf]
    decide
  have hdest : [⟨"n"⟩] ≠ s.routerPrefix := by
    rw [hrp]
    decide
  obtain ⟨nh, hnh, hface⟩ := (exists_hop_calculatePath hexists' hmulti hdest "un").2 hpath
  refine ⟨nh, ?_, hface⟩
  rw [currentTable, if_pos hexists', mem_hops_sortAllHops]
  exact hnh

/-- **An LSA of `n` brings `n` back**: a calculation is scheduled, and it will store a hop over the
neighbour that is down. -/
theorem Settled.routed (math : MathLib) {s : Nlsr} (h : Settled s)
    (hlist : s.adjacencyList = flapping .inactive 1) (hflag : s.isBuildAdjLsaSheduled = false)
    (hconf : s.confParam = impatient) : ¬ FillsLive math (s.step math (.installAdjLsa lsaOfN)) := by
  let v := s.installAdjLsa lsaOfN
  have hframe : OnlyLsdb s v := onlyLsdb_installAdjLsa s lsaOfN
  obtain ⟨hexists, hlink⟩ := h.links hconf
  obtain ⟨e, he, haction⟩ := h.exists_calculate
  rw [OnlyLsdb] at hframe
  have hlist' : v.adjacencyList = flapping .inactive 1 := by
    rw [hframe]
    exact hlist
  have hconf' : v.confParam = impatient := by
    rw [hframe]
    exact hconf
  have hpending : v.pendingAction e.id = some .calculate := by
    rw [pendingAction, KeyedList.find?_of_mem he, Option.map_some, haction]
  have hcan : v.CanCalculate := by
    refine ⟨?_, fun _ => ?_⟩
    · rw [hframe]; exact h.isRoutingTableCalculating
    · rw [hframe]; exact hflag
  let v' := v.cancelEvent (some e.id)
  have hcan' : v'.CanCalculate := hcan
  have hoff : v'.confParam.hyperbolicState = .off := by
    rw [show v'.confParam = impatient from hconf']
    rfl
  obtain ⟨nh, hnh, hface⟩ := exists_hop_over_n (s := v') hlist' hconf' hexists hlink
  have hstored : (v.step math (.fire e.id)).routingTable.rTable = v'.currentTable :=
    (congrArg (fun t => t.routingTable.rTable) (fire_calculate math hpending)).trans
      (rTable_calculate hcan' hoff)
  rw [← hstored] at hnh
  intro hlive
  obtain ⟨a, ha, hactive, haface⟩ := hlive e.id hpending hcan [⟨"n"⟩] nh hnh
  have hdown : ∀ a ∈ (flapping .inactive 1).toList, a.status = .active →
      a.connectingFaceUri ≠ "un" := by decide
  have ha' : a ∈ flapping .inactive 1 := hlist' ▸ ha
  exact hdown a ha' hactive (haface.trans hface)

/-- Both neighbours answer, the first build is done, and what it asks for is calculated. -/
def settling : List Event := bothUp 2 ++ [.fire 3]

theorem meets_settling : Meets (step ⟨0, id, id, id, id⟩) (KeepsAdvertising ⟨0, id, id, id, id⟩)
    flappingStart settling := by
  refine meets_append.2 ⟨meets_bothUp, ⟨⟨trivial, nofun⟩, keepsRoom_of_fits ?_ _,
    seesRequests_of_lt ?_ _⟩, trivial⟩
  · decide +kernel
  · decide +kernel

theorem flapping_settling :
    Flapping 1 (run (step ⟨0, id, id, id, id⟩) flappingStart settling) where
  inv := (advertisingInv_run ⟨0, id, id, id, id⟩ impatient KeyedList.empty none 0
    silentNeighbors_inactive meets_settling).last
  confParam := by simp only [settling, bothUp, List.cons_append, List.nil_append, run_cons, run_nil,
    confParam_step]; rfl
  adjacencyList := by decide +kernel
  isBuildAdjLsaSheduled := by decide +kernel
  counter := by decide +kernel

theorem settled_settling : Settled (run (step ⟨0, id, id, id, id⟩) flappingStart settling) where
  ownAdl := by decide +kernel
  foreign := by decide +kernel
  isRouteCalculationScheduled := by decide +kernel
  isRoutingTableCalculating := by decide +kernel

/-- After requests that the build missed, what is advertised stays, and `n` is down. -/
theorem Settled.missed (math : MathLib) {s t : Nlsr} {id : Nat} (h : Settled s)
    (hreq : Requested (flapping .inactive 1) id (2 ^ 31 + 1) s t)
    (hconf : s.confParam = impatient) :
    let u := t.step math (.fire id)
    Settled u ∧ u.adjacencyList = flapping .inactive 1 ∧ u.isBuildAdjLsaSheduled = false ∧
      u.confParam = impatient ∧ u.sequencingManager = t.sequencingManager := by
  intro u
  have ht : Settled t := h.onlyHello hreq.onlyHello
  have hu : u = { t.cancelEvent (some id) with isBuildAdjLsaSheduled := false } :=
    hreq.missed math hconf (by decide)
  rw [hu]
  exact ⟨⟨ht.ownAdl, ht.foreign, ht.isRouteCalculationScheduled, ht.isRoutingTableCalculating⟩,
    hreq.adjacencyList, rfl, hreq.onlyHello.confParam.trans hconf, rfl⟩

/-- Flaps until the number wraps, a loss, and the LSA of `n`. -/
theorem Settled.wraps (math : MathLib) {s : Nlsr} (h : Settled s) (hf : Flapping 1 s) :
    ∃ es, Meets (step math) MayWrap s es ∧ ¬ FillsLive math (run (step math) s es) := by
  obtain ⟨es, hes, hlast, hsettled⟩ := h.flaps math hf (2 ^ 32 - 2) (by norm_num)
  let last := run (step math) s es
  obtain ⟨hlost, hlist, hflag, hconf⟩ := hsettled.lost math hlast
  refine ⟨es ++ (loss last.scheduler.nextId ++ [.installAdjLsa lsaOfN]), ?_, ?_⟩
  · exact meets_append.2 ⟨hes, meets_append.2 ⟨hlast.meets_loss math,
      ⟨keepsOwnAdj_installN hconf, nofun⟩, trivial⟩⟩
  · rw [run_append, run_append]
    exact hlost.routed math hlist hflag hconf

/-- Requests that the build misses, and the LSA of `n`. -/
theorem Settled.misses (math : MathLib) {k : Nat} {s : Nlsr} (h : Settled s) (hf : Flapping k s) :
    ∃ es, Meets (step math) (MayMiss math) s es ∧ ¬ FillsLive math (run (step math) s es) := by
  obtain ⟨es, hes, hlast⟩ := hf.overcounted math
  obtain ⟨hmissed, hlist, hflag, hconf, hsm⟩ := h.missed math hlast hf.confParam
  refine ⟨es ++ [.fire s.scheduler.nextId, .installAdjLsa lsaOfN], ?_, ?_⟩
  · refine meets_append.2 ⟨hes, ⟨⟨trivial, nofun⟩, ?_⟩, ⟨keepsOwnAdj_installN hconf, ?_⟩, trivial⟩
    · exact keepsRoom_of_sequencingManager hsm
    · exact keepsRoom_of_sequencingManager (onlyLsdb_installAdjLsa _ lsaOfN).sequencingManager
  · rw [run_append]
    exact hmissed.routed math hlist hflag hconf

/-- **A number that wraps leaves a route over a link that is down**, and so does a build that misses
the requests. -/
theorem not_routes_are_live :
    (∃ es, Meets (step ⟨0, id, id, id, id⟩) MayWrap flappingStart es ∧
      ¬ FillsLive ⟨0, id, id, id, id⟩ (run (step ⟨0, id, id, id, id⟩) flappingStart es)) ∧
      ∃ es, Meets (step ⟨0, id, id, id, id⟩) (MayMiss ⟨0, id, id, id, id⟩) flappingStart es ∧
        ¬ FillsLive ⟨0, id, id, id, id⟩ (run (step ⟨0, id, id, id, id⟩) flappingStart es) := by
  constructor
  · obtain ⟨es, hes, hlast⟩ := settled_settling.wraps ⟨0, id, id, id, id⟩ flapping_settling
    refine ⟨settling ++ es, meets_append.2 ⟨?_, hes⟩, ?_⟩
    · exact meets_settling.imp fun _ _ h => ⟨h.ownAdj, h.requests⟩
    · rw [run_append]
      exact hlast
  · obtain ⟨es, hes, hlast⟩ := settled_settling.misses ⟨0, id, id, id, id⟩ flapping_settling
    refine ⟨settling ++ es, meets_append.2 ⟨?_, hes⟩, ?_⟩
    · exact meets_settling.imp fun _ _ h => ⟨h.ownAdj, h.room⟩
    · rw [run_append]
      exact hlast

end Nlsr

end LinkState
