import LinkState.Calculator
import LinkState.NamePrefixTable

/-!
# The routing table

`calculate` fills the table from the LSDB and hands it to the name prefix table. It declines to
run while an Adjacency LSA build is scheduled, and it empties the table when this router has no
Adjacency LSA of its own. Either way the request is taken as served.
-/

namespace LinkState

namespace RouteTable

/-- `writeLog` sorts the hops of every entry. -/
def sortAllHops (t : RouteTable) : RouteTable :=
  t.mapValues (fun rte => { rte with nexthopList := rte.nexthopList.sortHops }) fun _ => rfl

end RouteTable

namespace RoutingTable

def addNextHop (rt : RoutingTable) (destRouter : Name) (nh : NextHop) : RoutingTable :=
  { rt with rTable := rt.rTable.addNextHop destRouter nh }

def addNextHopToDryTable (rt : RoutingTable) (destRouter : Name) (nh : NextHop) : RoutingTable :=
  { rt with dryTable := rt.dryTable.addNextHop destRouter nh }

end RoutingTable

namespace HyperbolicRoutingCalculator

/-! ## The calculator on the routing table

The same loops as on one table, with the flag `m_isDryRun` that picks the table of each hop. -/

def addNextHopInto (isDryRun : Bool) (dest : Name) (faceUri : String) (cost : Double)
    (rt : RoutingTable) : RoutingTable :=
  let hop : NextHop := { connectingFaceUri := faceUri, routeCost := cost, isHyperbolic := true }
  if isDryRun then rt.addNextHopToDryTable dest hop else rt.addNextHop dest hop

def addNeighborHopsInto (isDryRun : Bool) (distance : Name → Name → Double) (map : Map)
    (thisRouterName : Name) (adj : Adjacent) (rt : RoutingTable) : RoutingTable :=
  if adj.status = .inactive then rt
  else if adj.name = thisRouterName then rt
  else
    let rt := addNextHopInto isDryRun adj.name adj.connectingFaceUri 0 rt
    match map.getMappingNoByRouterName adj.name with
    | none => rt
    | some src =>
      loop 0 map.getMapSize (fun dest rt =>
        if some dest ≠ map.getMappingNoByRouterName thisRouterName ∧ dest ≠ src then
          let destRouterName := map.getRouterNameByMappingNo dest
          let cost := distance adj.name destRouterName
          if cost = unknownDistance then rt
          else addNextHopInto isDryRun destRouterName adj.connectingFaceUri cost rt
        else rt) rt

/-- `calculatePaths`. -/
def calculatePathsInto (math : MathLib) (isDryRun : Bool) (map : Map) (rt : RoutingTable)
    (corLsdb : KeyedList CoordinateLsa.getKey) (adjacencies : AdjacencyList)
    (thisRouterName : Name) : RoutingTable :=
  adjacencies.toList.foldl (fun rt adj => addNeighborHopsInto isDryRun
    (getHyperbolicDistance math corLsdb) map thisRouterName adj rt) rt

/-- The table the flag picks. -/
def pick (isDryRun : Bool) (rt : RoutingTable) : RouteTable :=
  if isDryRun then rt.dryTable else rt.rTable

/-- Change the table the flag picks. -/
def setPicked (isDryRun : Bool) (rt : RoutingTable) (table : RouteTable) : RoutingTable :=
  if isDryRun then { rt with dryTable := table } else { rt with rTable := table }

@[simp] theorem setPicked_pick (isDryRun : Bool) (rt : RoutingTable) :
    setPicked isDryRun rt (pick isDryRun rt) = rt := by
  cases isDryRun <;> rfl

theorem addNextHopInto_setPicked (isDryRun : Bool) (dest : Name) (faceUri : String)
    (cost : Double) (rt : RoutingTable) (table : RouteTable) :
    addNextHopInto isDryRun dest faceUri cost (setPicked isDryRun rt table) =
      setPicked isDryRun rt (addNextHop dest faceUri cost table) := by
  cases isDryRun <;> rfl

theorem addNeighborHopsInto_setPicked (isDryRun : Bool) (distance : Name → Name → Double)
    (map : Map) (thisRouterName : Name) (adj : Adjacent) (rt : RoutingTable) (table : RouteTable) :
    addNeighborHopsInto isDryRun distance map thisRouterName adj (setPicked isDryRun rt table) =
      setPicked isDryRun rt (addNeighborHops distance map thisRouterName adj table) := by
  unfold addNeighborHopsInto addNeighborHops
  dsimp only
  rw [addNextHopInto_setPicked]
  split_ifs with hactive hself
  · rfl
  · rfl
  · cases map.getMappingNoByRouterName adj.name with
    | none => rfl
    | some src =>
      refine loop_hom (setPicked isDryRun rt) (fun table dest => ?_) 0 map.getMapSize _
      split_ifs
      · rfl
      · exact addNextHopInto_setPicked ..
      · rfl

/-- The calculator writes the table its flag picks, and reads no other. -/
theorem calculatePathsInto_eq (math : MathLib) (isDryRun : Bool) (map : Map) (rt : RoutingTable)
    (corLsdb : KeyedList CoordinateLsa.getKey) (adjacencies : AdjacencyList)
    (thisRouterName : Name) :
    calculatePathsInto math isDryRun map rt corLsdb adjacencies thisRouterName =
      setPicked isDryRun rt (calculatePaths math map (pick isDryRun rt) corLsdb adjacencies
        thisRouterName) := by
  unfold calculatePathsInto calculatePaths
  generalize getHyperbolicDistance math corLsdb = distance
  conv_lhs => rw [← setPicked_pick isDryRun rt]
  exact List.foldl_hom (setPicked isDryRun rt) fun table adj => addNeighborHopsInto_setPicked ..

end HyperbolicRoutingCalculator

namespace Nlsr

def scheduleRoutingTableCalculation (s : Nlsr) : Nlsr :=
  if s.isRouteCalculationScheduled ≠ true then
    let (s, _) := s.scheduleEvent (seconds s.routingTable.routingCalcInterval.toNat) .calculate
    { s with isRouteCalculationScheduled := true }
  else s

def setRTable (s : Nlsr) (rTable : RouteTable) : Nlsr :=
  { s with routingTable := { s.routingTable with rTable } }

def setDryTable (s : Nlsr) (dryTable : RouteTable) : Nlsr :=
  { s with routingTable := { s.routingTable with dryTable } }

def clearRoutingTable (s : Nlsr) : Nlsr := s.setRTable KeyedList.empty

def clearDryRoutingTable (s : Nlsr) : Nlsr := s.setDryTable KeyedList.empty

def calculateLsRoutingTable (s : Nlsr) : Nlsr :=
  let map := Map.createFromAdjLsdb s.lsdb.adjLsdb
  s.setRTable (LinkStateRoutingTableCalculator.calculatePath map s.routingTable.rTable s)

def calculateHypRoutingTable (math : MathLib) (s : Nlsr) : Nlsr :=
  let map := Map.createFromAdjLsdb s.lsdb.adjLsdb
  let routingTable := HyperbolicRoutingCalculator.calculatePathsInto math false map
    s.routingTable s.lsdb.corLsdb s.adjacencyList s.routerPrefix
  { s with routingTable }

def calculateHypDryRoutingTable (math : MathLib) (s : Nlsr) : Nlsr :=
  let map := Map.createFromAdjLsdb s.lsdb.adjLsdb
  let routingTable := HyperbolicRoutingCalculator.calculatePathsInto math true map
    s.routingTable s.lsdb.corLsdb s.adjacencyList s.routerPrefix
  { s with routingTable }

theorem calculateHypRoutingTable_eq (math : MathLib) (s : Nlsr) :
    s.calculateHypRoutingTable math =
      s.setRTable (HyperbolicRoutingCalculator.calculatePaths math
        (Map.createFromAdjLsdb s.lsdb.adjLsdb) s.routingTable.rTable s.lsdb.corLsdb
        s.adjacencyList s.routerPrefix) := by
  unfold calculateHypRoutingTable
  dsimp only
  rw [HyperbolicRoutingCalculator.calculatePathsInto_eq]
  rfl

theorem calculateHypDryRoutingTable_eq (math : MathLib) (s : Nlsr) :
    s.calculateHypDryRoutingTable math =
      s.setDryTable (HyperbolicRoutingCalculator.calculatePaths math
        (Map.createFromAdjLsdb s.lsdb.adjLsdb) s.routingTable.dryTable s.lsdb.corLsdb
        s.adjacencyList s.routerPrefix) := by
  unfold calculateHypDryRoutingTable
  dsimp only
  rw [HyperbolicRoutingCalculator.calculatePathsInto_eq]
  rfl

/-- `RoutingTable::writeLog`. -/
def routingTableWriteLog (s : Nlsr) : Nlsr :=
  let s := s.setRTable s.routingTable.rTable.sortAllHops
  if s.confParam.hyperbolicState = .dryRun then s.setDryTable s.routingTable.dryTable.sortAllHops
  else s

/-- The tables computed for the configured kind of routing. -/
def calculateTables (math : MathLib) (s : Nlsr) : Nlsr :=
  let s := if s.confParam.hyperbolicState = .off ∨ s.confParam.hyperbolicState = .dryRun then
    s.calculateLsRoutingTable else s
  let s := if s.confParam.hyperbolicState = .on then s.calculateHypRoutingTable math else s
  if s.confParam.hyperbolicState = .dryRun then s.calculateHypDryRoutingTable math else s

/-- `Lsdb::doesLsaExist` for this router's Adjacency LSA, by the key `calculate` writes out. -/
def ownAdjLsaExists (s : Nlsr) : Bool :=
  s.lsdb.adjLsdb.contains (s.routerPrefix ++ [Component.mk "adjacency"])

/-- `RoutingTable::calculate`. -/
def calculate (math : MathLib) (s : Nlsr) : Nlsr :=
  if s.isRoutingTableCalculating = false then
    let s := { s with isRoutingTableCalculating := true }
    let s :=
      if s.ownAdjLsaExists then
        if s.isBuildAdjLsaSheduled ≠ true then
          let s := s.clearRoutingTable.clearDryRoutingTable
          let s := s.calculateTables math
          s.updateWithNewRoute.routingTableWriteLog.fibWriteLog
        else
          -- Adjacency building is scheduled, so the routing table can not be calculated
          s
      else
        -- No Adjacency LSA of the router itself
        s.clearRoutingTable.clearDryRoutingTable.updateWithNewRoute.routingTableWriteLog.fibWriteLog
    { s with isRouteCalculationScheduled := false, isRoutingTableCalculating := false }
  else s.scheduleRoutingTableCalculation

/-! ## The three ways a calculation can go -/

/-- The routing table a calculation makes. -/
def newRoutingTable (math : MathLib) (s : Nlsr) : RoutingTable :=
  if s.ownAdjLsaExists then
    (s.clearRoutingTable.clearDryRoutingTable.calculateTables math).routingTable
  else s.clearRoutingTable.clearDryRoutingTable.routingTable

/-- Hand a new routing table to the name prefix table, then write the logs. -/
def useRoutingTable (s : Nlsr) (routingTable : RoutingTable) : Nlsr :=
  ({ s with routingTable } : Nlsr).updateWithNewRoute.routingTableWriteLog.fibWriteLog

/-- No calculation is running, and it is not declined. -/
def CanCalculate (s : Nlsr) : Prop :=
  s.isRoutingTableCalculating = false ∧
    (s.ownAdjLsaExists = true → s.isBuildAdjLsaSheduled = false)

theorem calculateTables_eq (math : MathLib) (s : Nlsr) :
    s.calculateTables math = { s with routingTable := (s.calculateTables math).routingTable } := by
  unfold calculateTables
  dsimp only
  split_ifs <;> rfl

theorem calculate_of_canCalculate {math : MathLib} {s : Nlsr} (h : s.CanCalculate) :
    s.calculate math =
      let s' : Nlsr := { s with isRoutingTableCalculating := true }
      { s'.useRoutingTable (s'.newRoutingTable math) with
        isRouteCalculationScheduled := false
        isRoutingTableCalculating := false } := by
  obtain ⟨hidle, hbuild⟩ := h
  rw [calculate, if_pos hidle]
  unfold newRoutingTable useRoutingTable
  dsimp only
  by_cases hown : ({ s with isRoutingTableCalculating := true } : Nlsr).ownAdjLsaExists = true
  · have hbuild' : s.isBuildAdjLsaSheduled ≠ true := by
      rw [hbuild hown]
      exact Bool.false_ne_true
    rw [if_pos hown, if_pos hbuild', if_pos hown, calculateTables_eq]
    rfl
  · rw [if_neg hown, if_neg hown]
    rfl

/-- While a build is scheduled the request is taken as served, and nothing is calculated. -/
theorem calculate_of_declined {math : MathLib} {s : Nlsr}
    (hidle : s.isRoutingTableCalculating = false) (hown : s.ownAdjLsaExists = true)
    (hbuild : s.isBuildAdjLsaSheduled = true) :
    s.calculate math =
      { s with isRouteCalculationScheduled := false, isRoutingTableCalculating := false } := by
  let s' : Nlsr := { s with isRoutingTableCalculating := true }
  have hown' : s'.ownAdjLsaExists = true := hown
  have hbuild' : ¬ s'.isBuildAdjLsaSheduled ≠ true := not_not.2 hbuild
  rw [calculate, if_pos hidle]
  dsimp only
  rw [if_pos hown', if_neg hbuild']

theorem calculate_of_busy {math : MathLib} {s : Nlsr}
    (hbusy : s.isRoutingTableCalculating = true) :
    s.calculate math = s.scheduleRoutingTableCalculation := by
  rw [calculate, if_neg (by simp [hbusy])]

theorem calculate_cases (math : MathLib) (s : Nlsr) :
    s.CanCalculate ∨
      s.calculate math =
        { s with isRouteCalculationScheduled := false, isRoutingTableCalculating := false } ∨
      s.calculate math = s.scheduleRoutingTableCalculation := by
  cases hidle : s.isRoutingTableCalculating with
  | true => exact Or.inr (Or.inr (calculate_of_busy hidle))
  | false =>
    by_cases h : s.ownAdjLsaExists = true ∧ s.isBuildAdjLsaSheduled = true
    · exact Or.inr (Or.inl (calculate_of_declined hidle h.1 h.2))
    · refine Or.inl ⟨hidle, fun hown => ?_⟩
      exact Bool.eq_false_iff.2 fun hbuild => h ⟨hown, hbuild⟩

/-! ## What a calculation leaves alone -/

/-- Nothing but the routing table, the tables fed from it, the scheduler and the two flags of
the calculation has changed. -/
def OnlyRouting (s t : Nlsr) : Prop :=
  t = { s with
    routingTable := t.routingTable
    namePrefixTable := t.namePrefixTable
    fib := t.fib
    scheduler := t.scheduler
    isRouteCalculationScheduled := t.isRouteCalculationScheduled
    isRoutingTableCalculating := t.isRoutingTableCalculating }

theorem routingTableWriteLog_eq (s : Nlsr) :
    s.routingTableWriteLog =
      { s with routingTable := s.routingTableWriteLog.routingTable } := by
  unfold routingTableWriteLog
  dsimp only
  split_ifs <;> rfl

@[simp] theorem rTable_routingTableWriteLog (s : Nlsr) :
    s.routingTableWriteLog.routingTable.rTable = s.routingTable.rTable.sortAllHops := by
  unfold routingTableWriteLog
  dsimp only
  split_ifs <;> rfl

/-- The tables after a new routing table is used. -/
theorem useRoutingTable_spec (s : Nlsr) (rt : RoutingTable) :
    let u := ({ s with routingTable := rt } : Nlsr).updateWithNewRoute
    OnlyRouting s (s.useRoutingTable rt) ∧
      (s.useRoutingTable rt).namePrefixTable = u.namePrefixTable ∧
      (s.useRoutingTable rt).routingTable.rTable = rt.rTable.sortAllHops ∧
      (s.useRoutingTable rt).fib = u.fibWriteLog.fib ∧
      (s.useRoutingTable rt).scheduler = u.scheduler := by
  have hupdate := onlyTables_updateWithNewRoute { s with routingTable := rt }
  unfold useRoutingTable
  generalize ({ s with routingTable := rt } : Nlsr).updateWithNewRoute = u at hupdate ⊢
  have hrt : u.routingTable = rt := hupdate.routingTable
  have hlog := routingTableWriteLog_eq u
  have hrTable := rTable_routingTableWriteLog u
  generalize u.routingTableWriteLog = w at hlog hrTable ⊢
  refine ⟨?_, ?_, ?_, ?_, ?_⟩
  · rw [OnlyTables] at hupdate
    rw [OnlyRouting, hlog, hupdate]
    rfl
  · rw [hlog]; rfl
  · show w.routingTable.rTable = _
    rw [hrTable, hrt]
  · rw [hlog]; rfl
  · rw [hlog]; rfl

theorem onlyRouting_calculate (math : MathLib) (s : Nlsr) : OnlyRouting s (s.calculate math) := by
  rcases calculate_cases math s with h | h | h
  · rw [calculate_of_canCalculate h]
    have hframe := (useRoutingTable_spec { s with isRoutingTableCalculating := true }
      (newRoutingTable math { s with isRoutingTableCalculating := true })).1
    rw [OnlyRouting] at hframe ⊢
    dsimp only
    rw [hframe]
  · rw [h]; rfl
  · rw [h]
    unfold scheduleRoutingTableCalculation
    split_ifs <;> rfl

/-- A calculation that runs uses the new routing table. -/
theorem namePrefixTable_calculate (math : MathLib) (s : Nlsr) :
    (s.calculate math).namePrefixTable = s.namePrefixTable ∨
      ∃ s' : Nlsr, s'.namePrefixTable = s.namePrefixTable ∧
        (s.calculate math).namePrefixTable = s'.updateWithNewRoute.namePrefixTable := by
  rcases calculate_cases math s with h | h | h
  · rw [calculate_of_canCalculate h]
    refine Or.inr ⟨_, ?_, (useRoutingTable_spec _ _).2.1⟩
    rfl
  · rw [h]; exact Or.inl rfl
  · rw [h]
    refine Or.inl ?_
    unfold scheduleRoutingTableCalculation
    split_ifs <;> rfl

end Nlsr

end LinkState
