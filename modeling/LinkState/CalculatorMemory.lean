import LinkState.Calculator
import LinkState.Library.Cells

/-!
# The arrays of the link-state calculator

`LinkStateRoutingTableCalculator` once more, now with its arrays. Every access is checked, and the
indices are the numbers the source uses, with -1 for a router that is not in the map and -12345 for
no parent. A loop that follows parents or walks the queue gets a bound on its turns, and fails if it
has not ended by then.

Numbers are unbounded, as no number but a cost or a distance exceeds the number of routers. What
`delete` does is left out, apart from the rows that `freeAdjMatrix` looks up.
-/

namespace LinkState

namespace Map

/-- `getMappingNoByRouterName` as the source returns it: -1 for an unknown router. -/
def mappingNo (m : Map) (rName : Name) : Int :=
  match m.getMappingNoByRouterName rName with
  | some mn => mn
  | none => -1

/-- `getRouterNameByMappingNo` for any number the source may pass; none below 0 is given. -/
def routerName (m : Map) (mn : Int) : Name :=
  if 0 ≤ mn then m.getRouterNameByMappingNo mn.toNat else []

variable {m : Map} {rName : Name}

theorem mappingNo_of_some {mn : Nat} (h : m.getMappingNoByRouterName rName = some mn) :
    m.mappingNo rName = mn := by
  rw [mappingNo, h]

theorem mappingNo_of_none (h : m.getMappingNoByRouterName rName = none) :
    m.mappingNo rName = -1 := by
  rw [mappingNo, h]

theorem routerName_natCast (m : Map) (mn : Nat) :
    m.routerName mn = m.getRouterNameByMappingNo mn := by
  rw [routerName, if_pos (Int.natCast_nonneg mn), Int.toNat_natCast]

end Map

/-- The members of a calculator. -/
structure CalculatorMemory where
  nRouters : Nat
  adjMatrix : Cells (Cells Nat) := Cells.alloc 0
  vNoLink : Nat := 0
  links : Cells Int := Cells.alloc 0
  linkCosts : Cells Nat := Cells.alloc 0
  parent : Cells Int := Cells.alloc 0
  distance : Cells Nat := Cells.alloc 0

/-- The arrays of one Dijkstra run. -/
structure DijkstraMemory where
  queue : Cells Int
  head : Nat
  distance : Cells Nat
  parent : Cells Int

namespace CalculatorMemory

open RoutingTableCalculator

/-- `EMPTY_PARENT`. -/
def emptyParent : Int := -12345

/-- `NO_MAPPING_NUM`. -/
def noMappingNum : Int := -1

/-- `NO_NEXT_HOP`. -/
def noNextHop : Int := -12345

/-! ## The matrix -/

def allocateAdjMatrix (c : CalculatorMemory) : Except Fault CalculatorMemory := do
  let adjMatrix ← loopM 0 c.nRouters (fun i m => m.write i (Cells.alloc c.nRouters))
    (Cells.alloc c.nRouters)
  return { c with adjMatrix }

def initMatrix (c : CalculatorMemory) : Except Fault CalculatorMemory := do
  let adjMatrix ← loopM 0 c.nRouters (fun i m =>
    loopM 0 c.nRouters (fun j m => m.writeAt i j 0) m) c.adjMatrix
  return { c with adjMatrix }

/-- The costs one LSA advertises, where both routers are in the matrix. -/
def fillRow (nRouters : Nat) (pMap : Map) (lsa : AdjLsa) (m : Cells (Cells Nat)) :
    Except Fault (Cells (Cells Nat)) :=
  let row := pMap.mappingNo lsa.origRouter
  lsa.adl.toList.foldlM (fun m adjacent =>
    let col := pMap.mappingNo adjacent.name
    if (row ≥ 0 ∧ row < nRouters) ∧ col ≥ 0 ∧ col < nRouters then
      m.writeAt row col adjacent.getLinkCost
    else pure m) m

def correctCell (row col : Nat) (m : Cells (Cells Nat)) : Except Fault (Cells (Cells Nat)) := do
  let toCost ← m.readAt row col
  let fromCost ← m.readAt col row
  if fromCost ≠ toCost then
    let correctedCost := if toCost ≠ 0 ∧ fromCost ≠ 0 then max toCost fromCost else 0
    let m ← m.writeAt row col correctedCost
    m.writeAt col row correctedCost
  else return m

def makeAdjMatrix (adjLsdb : KeyedList AdjLsa.getKey) (pMap : Map) (c : CalculatorMemory) :
    Except Fault CalculatorMemory := do
  let adjMatrix ← adjLsdb.toList.foldlM (fun m lsa => fillRow c.nRouters pMap lsa m) c.adjMatrix
  let adjMatrix ← loopM 0 c.nRouters (fun row m =>
    loopM 0 c.nRouters (fun col m => correctCell row col m) m) adjMatrix
  return { c with adjMatrix }

/-- The log reads every cell. -/
def writeAdjMatrixLog (c : CalculatorMemory) : Except Fault Unit :=
  loopM 0 c.nRouters (fun i _ => loopM 0 c.nRouters (fun j _ => do
    let _ ← c.adjMatrix.readAt i j
    return ()) ()) ()

/-- The rows are looked up to be deleted. -/
def freeAdjMatrix (c : CalculatorMemory) : Except Fault Unit :=
  loopM 0 c.nRouters (fun i _ => do
    let _ ← c.adjMatrix.read i
    return ()) ()

/-! ## The links of the source -/

def adjustAdMatrix (source link : Int) (linkCost : Nat) (c : CalculatorMemory) :
    Except Fault CalculatorMemory := do
  let adjMatrix ← loopM 0 c.nRouters (fun (i : Nat) m =>
    if (i : Int) = link then m.writeAt source i linkCost else m.writeAt source i 0) c.adjMatrix
  return { c with adjMatrix }

def getNumOfLinkfromAdjMatrix (sRouter : Int) (c : CalculatorMemory) : Except Fault Nat :=
  loopM 0 c.nRouters (fun i noLink => do
    if (← c.adjMatrix.readAt sRouter i) > 0 then return noLink + 1 else return noLink) 0

def setNoLink (nl : Nat) (c : CalculatorMemory) : CalculatorMemory := { c with vNoLink := nl }

def allocateLinks (c : CalculatorMemory) : CalculatorMemory :=
  { c with links := Cells.alloc c.vNoLink }

def allocateLinkCosts (c : CalculatorMemory) : CalculatorMemory :=
  { c with linkCosts := Cells.alloc c.vNoLink }

/-- The two arrays while they are filled, and the index of the next entry. -/
structure LinkCursor where
  links : Cells Int
  linkCosts : Cells Nat
  j : Nat

/-- Returned beside the arrays is the last value of `j`, the number of entries written to each. -/
def getLinksFromAdjMatrix (source : Int) (c : CalculatorMemory) :
    Except Fault (CalculatorMemory × Nat) := do
  let s ← loopM 0 c.nRouters (fun (i : Nat) (s : LinkCursor) => do
    if (← c.adjMatrix.readAt source i) > 0 then
      let links ← s.links.write s.j i
      let linkCosts ← s.linkCosts.write s.j (← c.adjMatrix.readAt source i)
      return { links, linkCosts, j := s.j + 1 }
    else return s) { links := c.links, linkCosts := c.linkCosts, j := 0 }
  return ({ c with links := s.links, linkCosts := s.linkCosts }, s.j)

/-- The links are counted, then the arrays are allocated and filled. -/
def takeLinks (source : Int) (c : CalculatorMemory) : Except Fault (CalculatorMemory × Nat) := do
  let noLink ← c.getNumOfLinkfromAdjMatrix source
  (c.setNoLink noLink).allocateLinks.allocateLinkCosts.getLinksFromAdjMatrix source

/-! ## Dijkstra -/

def allocateParent (c : CalculatorMemory) : CalculatorMemory :=
  { c with parent := Cells.alloc c.nRouters }

def allocateDistance (c : CalculatorMemory) : CalculatorMemory :=
  { c with distance := Cells.alloc c.nRouters }

/-- One comparison of the sort. -/
def sortStep (dist : Cells Nat) (i j : Nat) (Q : Cells Int) : Except Fault (Cells Int) := do
  if (← dist.read (← Q.read j)) < (← dist.read (← Q.read i)) then
    let tempU ← Q.read j
    let Q ← Q.write j (← Q.read i)
    Q.write i tempU
  else return Q

def sortQueueByDistance (Q : Cells Int) (dist : Cells Nat) (start element : Nat) :
    Except Fault (Cells Int) :=
  loopM start element (fun i Q => loopM (i + 1) element (fun j Q => sortStep dist i j Q) Q) Q

/-- The loop breaks where it finds the router. -/
def isNotExplored (Q : Cells Int) (u : Int) (start element : Nat) : Except Fault Bool :=
  (List.range' start (element - start)).anyM fun (i : Nat) => do return (← Q.read i) = u

/-- The body of the inner loop. -/
def relax (nRouters : Nat) (m : Cells (Cells Nat)) (u : Int) (v : Nat) (s : DijkstraMemory) :
    Except Fault DijkstraMemory := do
  if (← m.readAt u v) > 0 then
    if ← isNotExplored s.queue v (s.head + 1) nRouters then
      if (← s.distance.read u) + (← m.readAt u v) < (← s.distance.read v) then
        let distance ← s.distance.write v ((← s.distance.read u) + (← m.readAt u v))
        let parent ← s.parent.write v u
        return { s with distance, parent }
      else return s
    else return s
  else return s

/-- The body of the `while` loop once `Q[head]` is known to be reached. -/
def explore (nRouters : Nat) (m : Cells (Cells Nat)) (u : Int) (s : DijkstraMemory) :
    Except Fault DijkstraMemory := do
  let s ← loopM 0 nRouters (fun v s => relax nRouters m u v s) s
  let queue ← sortQueueByDistance s.queue s.distance (s.head + 1) nRouters
  return { s with head := s.head + 1, queue }

/-- The `while` loop. -/
def dijkstraLoop (nRouters : Nat) (m : Cells (Cells Nat)) :
    (turns : Nat) → DijkstraMemory → Except Fault DijkstraMemory
  | 0, _ => .error .endless
  | turns + 1, s => do
    if s.head < nRouters then
      let u ← s.queue.read s.head
      if (← s.distance.read u) = infDistance then return s
      else dijkstraLoop nRouters m turns (← explore nRouters m u s)
    else return s

/-- The loop that initiates the arrays, of which `queue` is new. -/
def initiate (c : CalculatorMemory) : Except Fault DijkstraMemory :=
  loopM 0 c.nRouters (fun (i : Nat) (s : DijkstraMemory) => do
    let parent ← s.parent.write i emptyParent
    let distance ← s.distance.write i infDistance
    let queue ← s.queue.write i i
    return { s with parent, distance, queue })
    { queue := Cells.alloc c.nRouters, head := 0, distance := c.distance, parent := c.parent }

def doDijkstraPathCalculation (sourceRouter : Int) (c : CalculatorMemory) :
    Except Fault CalculatorMemory := do
  let s ← c.initiate
  if sourceRouter ≠ noMappingNum then
    let distance ← s.distance.write sourceRouter 0
    let queue ← sortQueueByDistance s.queue distance s.head c.nRouters
    let s ← dijkstraLoop c.nRouters c.adjMatrix (c.nRouters + 1) { s with distance, queue }
    return { c with distance := s.distance, parent := s.parent }
  else return { c with distance := s.distance, parent := s.parent }

/-! ## The next hops -/

/-- The `while` loop: from `dest` along the parents. -/
def followParents (parent : Cells Int) : (turns : Nat) → (dest nextHop : Int) →
    Except Fault (Int × Int)
  | 0, _, _ => .error .endless
  | turns + 1, dest, nextHop => do
    let p ← parent.read dest
    if p ≠ emptyParent then followParents parent turns p dest
    else return (dest, nextHop)

def getLsNextHop (dest source : Int) (c : CalculatorMemory) : Except Fault Int := do
  let (dest, nextHop) ← followParents c.parent (c.nRouters + 1) dest noNextHop
  if dest ≠ source then return noNextHop else return nextHop

def addAllLsNextHopsToRoutingTable (adjacencyList : AdjacencyList) (pMap : Map)
    (sourceRouter : Int) (c : CalculatorMemory) (rt : RouteTable) : Except Fault RouteTable :=
  loopM 0 c.nRouters (fun (i : Nat) rt => do
    if (i : Int) ≠ sourceRouter then
      let nextHopRouter ← c.getLsNextHop i sourceRouter
      if nextHopRouter ≠ noNextHop then
        let routeCost ← c.distance.read i
        let nextHopRouterName := pMap.routerName nextHopRouter
        let nextHopFace := (adjacencyList.getAdjacent nextHopRouterName).connectingFaceUri
        return rt.addNextHop (pMap.routerName i)
          { connectingFaceUri := nextHopFace, routeCost := routeCost }
      else return rt
    else return rt) rt

/-! ## A calculation -/

/-- The matrix is made, and the arrays of Dijkstra are allocated. -/
def prepare (pMap : Map) (pnlsr : Nlsr) : Except Fault CalculatorMemory := do
  let c : CalculatorMemory := { nRouters := pMap.getMapSize }
  let c ← c.allocateAdjMatrix
  let c ← c.initMatrix
  let c ← c.makeAdjMatrix pnlsr.lsdb.adjLsdb pMap
  c.writeAdjMatrixLog
  return c.allocateParent.allocateDistance

/-- One run: the paths over what the matrix says, into the routing table. -/
def addPaths (pMap : Map) (pnlsr : Nlsr) (sourceRouter : Int) (c : CalculatorMemory)
    (rt : RouteTable) : Except Fault (CalculatorMemory × RouteTable) := do
  let c ← c.doDijkstraPathCalculation sourceRouter
  let rt ← c.addAllLsNextHopsToRoutingTable pnlsr.adjacencyList pMap sourceRouter rt
  return (c, rt)

def calculatePath (pMap : Map) (rt : RouteTable) (pnlsr : Nlsr) : Except Fault RouteTable := do
  let c ← prepare pMap pnlsr
  let sourceRouter := pMap.mappingNo pnlsr.routerPrefix
  if pnlsr.confParam.maxFacesPerPrefix = 1 then
    -- Single path
    let (c, rt) ← c.addPaths pMap pnlsr sourceRouter rt
    c.freeAdjMatrix
    return rt
  else
    -- Multi path
    let (c, _) ← c.takeLinks sourceRouter
    let (c, rt) ← loopM 0 c.vNoLink (fun (i : Nat) ((c, rt) : CalculatorMemory × RouteTable) => do
      let c ← c.adjustAdMatrix sourceRouter (← c.links.read i) (← c.linkCosts.read i)
      c.writeAdjMatrixLog
      c.addPaths pMap pnlsr sourceRouter rt) (c, rt)
    c.freeAdjMatrix
    return rt

end CalculatorMemory

end LinkState
