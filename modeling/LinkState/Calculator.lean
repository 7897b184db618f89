import LinkState.Library.Loop
import LinkState.Map

/-!
# The routing table calculators

`LinkStateRoutingTableCalculator` turns the Adjacency LSDB into a cost matrix, makes its links
agree in both directions, and runs Dijkstra from this router: once, or once for each outgoing
link with the row of this router cut down to that link.

Costs are natural numbers. `getLinkCost` gives whole numbers and the calculator only adds,
compares and takes the larger one of two, all of which doubles do exactly below `infDistance`;
a cost or a sum from there on is never a distance.

`HyperbolicRoutingCalculator` offers every active neighbour for every destination, at the
hyperbolic distance between the two. The mathematical functions it calls are parameters.
-/

namespace LinkState

/-- Costs between router numbers; 0 is no link. -/
abbrev AdjMatrix := Nat → Nat → Nat

/-- `adjMatrix[row][col] = cost`. -/
def AdjMatrix.set (m : AdjMatrix) (row col cost : Nat) : AdjMatrix :=
  fun i j => if i = row ∧ j = col then cost else m i j

namespace RoutingTableCalculator

/-- `INF_DISTANCE`. -/
def infDistance : Nat := 2147483647

/-! ## The matrix -/

/-- The first part of `makeAdjMatrix`: the costs each LSA advertises, from a matrix of zeros. -/
def fillAdjMatrix (nRouters : Nat) (adjLsdb : KeyedList AdjLsa.getKey) (pMap : Map) : AdjMatrix :=
  adjLsdb.toList.foldl (fun m lsa =>
    let row := pMap.getMappingNoByRouterName lsa.origRouter
    lsa.adl.toList.foldl (fun m adjacent =>
      match row, pMap.getMappingNoByRouterName adjacent.name with
      | some row, some col =>
        if row < nRouters ∧ col < nRouters then m.set row col adjacent.getLinkCost else m
      | _, _ => m) m) (fun _ _ => 0)

/-- One cell of the correction: a link with two costs gets the larger one in both directions,
or none if one side has no cost. -/
def correctCell (row col : Nat) (m : AdjMatrix) : AdjMatrix :=
  let toCost := m row col
  let fromCost := m col row
  if fromCost ≠ toCost then
    let correctedCost := if toCost ≠ 0 ∧ fromCost ≠ 0 then max toCost fromCost else 0
    (m.set row col correctedCost).set col row correctedCost
  else m

/-- The second part of `makeAdjMatrix`: every cell is corrected in place. -/
def correctAdjMatrix (nRouters : Nat) (m : AdjMatrix) : AdjMatrix :=
  loop 0 nRouters (fun row m => loop 0 nRouters (fun col m => correctCell row col m) m) m

def makeAdjMatrix (nRouters : Nat) (adjLsdb : KeyedList AdjLsa.getKey) (pMap : Map) : AdjMatrix :=
  correctAdjMatrix nRouters (fillAdjMatrix nRouters adjLsdb pMap)

/-- Cut the row of the source down to one link. -/
def adjustAdMatrix (nRouters source link linkCost : Nat) (m : AdjMatrix) : AdjMatrix :=
  loop 0 nRouters (fun i m => m.set source i (if i = link then linkCost else 0)) m

/-- The links of the source and their costs. -/
def getLinksFromAdjMatrix (nRouters : Nat) (m : AdjMatrix) (source : Nat) : List (Nat × Nat) :=
  ((List.range nRouters).filter fun i => m source i > 0).map fun i => (i, m source i)

end RoutingTableCalculator

/-! ## Link-state routing -/

namespace LinkStateRoutingTableCalculator

open RoutingTableCalculator

/-- The arrays of one Dijkstra run. No parent is `EMPTY_PARENT`. -/
structure DijkstraState where
  queue : Nat → Nat
  head : Nat
  distance : Nat → Nat
  parent : Nat → Option Nat

def swapQueue (Q : Nat → Nat) (i j : Nat) : Nat → Nat :=
  fun k => if k = i then Q j else if k = j then Q i else Q k

/-- An exchange sort of `Q[start], …, Q[element - 1]` by distance. -/
def sortQueueByDistance (Q : Nat → Nat) (dist : Nat → Nat) (start element : Nat) : Nat → Nat :=
  loop start element (fun i Q =>
    loop (i + 1) element (fun j Q =>
      if dist (Q j) < dist (Q i) then swapQueue Q i j else Q) Q) Q

def isNotExplored (Q : Nat → Nat) (u start element : Nat) : Bool :=
  (List.range' start (element - start)).any fun i => Q i = u

/-- Offer the path over `u` to one router. -/
def relax (nRouters : Nat) (m : AdjMatrix) (u v : Nat) (s : DijkstraState) : DijkstraState :=
  if m u v > 0 ∧ isNotExplored s.queue v (s.head + 1) nRouters = true ∧
      s.distance u + m u v < s.distance v then
    { s with
      distance := fun x => if x = v then s.distance u + m u v else s.distance x
      parent := fun x => if x = v then some u else s.parent x }
  else s

/-- The body of the `while` loop once `Q[head]` is known to be reached. -/
def explore (nRouters : Nat) (m : AdjMatrix) (s : DijkstraState) : DijkstraState :=
  let u := s.queue s.head
  let s := loop 0 nRouters (fun v s => relax nRouters m u v s) s
  { s with
    head := s.head + 1
    queue := sortQueueByDistance s.queue s.distance (s.head + 1) nRouters }

/-- The `while` loop. `head` grows with every turn, so `nRouters` turns are enough. -/
def dijkstraLoop (nRouters : Nat) (m : AdjMatrix) : (turns : Nat) → DijkstraState → DijkstraState
  | 0, s => s
  | turns + 1, s =>
    if s.head < nRouters ∧ s.distance (s.queue s.head) ≠ infDistance then
      dijkstraLoop nRouters m turns (explore nRouters m s)
    else s

/-- The arrays after the initial loop, with the source at distance 0 and the queue sorted. -/
def dijkstraInit (nRouters sourceRouter : Nat) : DijkstraState :=
  let distance := fun v => if v = sourceRouter then 0 else infDistance
  { queue := sortQueueByDistance id distance 0 nRouters
    head := 0
    distance
    parent := fun _ => none }

def doDijkstraPathCalculation (nRouters : Nat) (m : AdjMatrix) (sourceRouter : Nat) :
    DijkstraState :=
  dijkstraLoop nRouters m nRouters (dijkstraInit nRouters sourceRouter)

/-- Follow the parents from a router: the router where they end and the one before it. A chain
of parents visits a router once, so `nRouters` steps are enough. -/
def followParents (parent : Nat → Option Nat) : (steps : Nat) → Nat → Option Nat →
    Nat × Option Nat
  | 0, dest, nextHop => (dest, nextHop)
  | steps + 1, dest, nextHop =>
    match parent dest with
    | none => (dest, nextHop)
    | some p => followParents parent steps p (some dest)

/-- The first hop from the source to a router; `none` is `NO_NEXT_HOP`. -/
def getLsNextHop (nRouters : Nat) (parent : Nat → Option Nat) (dest source : Nat) : Option Nat :=
  let (last, nextHop) := followParents parent nRouters dest none
  if last ≠ source then none else nextHop

def addAllLsNextHopsToRoutingTable (adjacencyList : AdjacencyList) (pMap : Map)
    (nRouters sourceRouter : Nat) (paths : DijkstraState) (rt : RouteTable) : RouteTable :=
  loop 0 nRouters (fun i rt =>
    if i ≠ sourceRouter then
      match getLsNextHop nRouters paths.parent i sourceRouter with
      | some nextHopRouter =>
        let nextHopRouterName := pMap.getRouterNameByMappingNo nextHopRouter
        let nextHopFace := (adjacencyList.getAdjacent nextHopRouterName).connectingFaceUri
        rt.addNextHop (pMap.getRouterNameByMappingNo i)
          { connectingFaceUri := nextHopFace, routeCost := paths.distance i }
      | none => rt
    else rt) rt

/-- `calculatePath`. A source that is not in the map is not looked for: the routing table is
calculated only when this router's own Adjacency LSA is there. -/
def calculatePath (pMap : Map) (rt : RouteTable) (pnlsr : Nlsr) : RouteTable :=
  let nRouters := pMap.getMapSize
  let adjMatrix := makeAdjMatrix nRouters pnlsr.lsdb.adjLsdb pMap
  match pMap.getMappingNoByRouterName pnlsr.routerPrefix with
  | none => rt
  | some sourceRouter =>
    if pnlsr.confParam.maxFacesPerPrefix = 1 then
      -- Single path
      addAllLsNextHopsToRoutingTable pnlsr.adjacencyList pMap nRouters sourceRouter
        (doDijkstraPathCalculation nRouters adjMatrix sourceRouter) rt
    else
      -- Multi path: one run for each link, the row of the source cut down to it
      ((getLinksFromAdjMatrix nRouters adjMatrix sourceRouter).foldl (fun (m, rt) link =>
        let m := adjustAdMatrix nRouters sourceRouter link.1 link.2 m
        (m, addAllLsNextHopsToRoutingTable pnlsr.adjacencyList pMap nRouters sourceRouter
          (doDijkstraPathCalculation nRouters m sourceRouter) rt)) (adjMatrix, rt)).2

end LinkStateRoutingTableCalculator

/-! ## Hyperbolic routing -/

/-- The mathematical library: pi and the functions of the distance formula. -/
structure MathLib where
  pi : Double
  cosh : Double → Double
  sinh : Double → Double
  cos : Double → Double
  acosh : Double → Double

namespace HyperbolicRoutingCalculator

/-- `UNKNOWN_DISTANCE`. -/
def unknownDistance : Double := -1

/-- `UNKNOWN_RADIUS`. -/
def unknownRadius : Double := -1

def getHyperbolicDistance (math : MathLib) (corLsdb : KeyedList CoordinateLsa.getKey)
    (src dest : Name) : Double :=
  match corLsdb.find? (CoordinateLsa.key src), corLsdb.find? (CoordinateLsa.key dest) with
  | some srcLsa, some destLsa =>
    let diffTheta := |srcLsa.corTheta - destLsa.corTheta|
    let diffTheta := if diffTheta > math.pi then 2 * math.pi - diffTheta else diffTheta
    let srcRadius := srcLsa.corRad
    let destRadius := destLsa.corRad
    if srcRadius = unknownRadius ∧ destRadius = unknownRadius then unknownDistance
    else if diffTheta = 0 then |srcRadius - destRadius|
    else math.acosh (math.cosh srcRadius * math.cosh destRadius -
      math.sinh srcRadius * math.sinh destRadius * math.cos diffTheta)
  | _, _ => unknownDistance

/-- `addNextHop`, on the table that `m_isDryRun` picks. -/
def addNextHop (dest : Name) (faceUri : String) (cost : Double) (rt : RouteTable) : RouteTable :=
  rt.addNextHop dest { connectingFaceUri := faceUri, routeCost := cost, isHyperbolic := true }

/-- The hops over one neighbour. -/
def addNeighborHops (distance : Name → Name → Double) (map : Map) (thisRouterName : Name)
    (adj : Adjacent) (rt : RouteTable) : RouteTable :=
  if adj.status = .inactive then rt
  else if adj.name = thisRouterName then rt
  else
    -- Direct neighbours have a 0 cost link
    let rt := addNextHop adj.name adj.connectingFaceUri 0 rt
    match map.getMappingNoByRouterName adj.name with
    | none => rt
    | some src =>
      loop 0 map.getMapSize (fun dest rt =>
        if some dest ≠ map.getMappingNoByRouterName thisRouterName ∧ dest ≠ src then
          let destRouterName := map.getRouterNameByMappingNo dest
          let cost := distance adj.name destRouterName
          if cost = unknownDistance then rt
          else addNextHop destRouterName adj.connectingFaceUri cost rt
        else rt) rt

def calculatePaths (math : MathLib) (map : Map) (rt : RouteTable)
    (corLsdb : KeyedList CoordinateLsa.getKey) (adjacencies : AdjacencyList)
    (thisRouterName : Name) : RouteTable :=
  adjacencies.toList.foldl (fun rt adj =>
    addNeighborHops (getHyperbolicDistance math corLsdb) map thisRouterName adj rt) rt

end HyperbolicRoutingCalculator

end LinkState
