import LinkState.Library.KeyedList
import LinkState.Name
import Mathlib.Data.Rat.Floor

/-!
# Adjacents and adjacency lists

An `AdjacencyList` is the list of configured neighbours of a router and also the content of an
Adjacency LSA. `insert` refuses a name that is already there, so the list is keyed by name.

A `double` is a rational: every finite one is, and comparisons are exact. Where the source
casts a double to an unsigned integer the value is within range (outside it the cast has no
defined result).
-/

namespace LinkState

/-- A finite `double`. -/
abbrev Double := ℚ

/-- `std::numeric_limits<double>::epsilon()`. -/
def Double.epsilon : Double := 1 / 2 ^ 52

/-- The comparison of coordinates, and of a link cost with a rounded one: closer than `epsilon`. -/
def Double.near (a b : Double) : Bool := |a - b| < Double.epsilon

inductive Status
  | unknown
  | inactive
  | active
  deriving DecidableEq

structure Adjacent where
  name : Name
  connectingFaceUri : String := ""
  linkCost : Double := 10
  status : Status := .inactive
  interestTimedOutNo : UInt32 := 0
  faceId : UInt64 := 0
  deriving DecidableEq

namespace Adjacent

/-- `static_cast<uint64_t>(ceil(m_linkCost))`. -/
def getLinkCost (a : Adjacent) : Nat := ⌈a.linkCost⌉.toNat

/-- `Adjacent::operator==`. The cost of the right one is rounded up, the cost of the left one is
not, so an adjacent with a fractional cost differs from itself. -/
def eq (a b : Adjacent) : Bool :=
  a.name = b.name ∧ a.connectingFaceUri = b.connectingFaceUri ∧
    Double.near a.linkCost b.getLinkCost

end Adjacent

/-- At most one adjacent per name, in the order of insertion. -/
abbrev AdjacencyList := KeyedList Adjacent.name

namespace AdjacencyList

/-- Insert every adjacent of another list. -/
def addAdjacents (l adl : AdjacencyList) : AdjacencyList :=
  adl.toList.foldl KeyedList.insert l

/-- `getAdjacent`: a default adjacent when the name is not there. -/
def getAdjacent (l : AdjacencyList) (adjName : Name) : Adjacent :=
  (l.find? adjName).getD { name := adjName }

def isNeighbor (l : AdjacencyList) (adjName : Name) : Bool := l.contains adjName

/-- `m_adjList.sort(compareAdjacent)`. -/
def sortByName (l : AdjacencyList) : AdjacencyList := l.sort fun a b => a.name ≤ b.name

/-- The loop of `operator==`: are the two lists equal element by element? -/
def sameElements (l₁ l₂ : AdjacencyList) : Bool :=
  (l₁.toList.zip l₂.toList).all fun p => p.1.eq p.2

/-- `AdjacencyList::operator==`. Lists of one size are sorted in place before they are
compared, so the two lists are returned as the comparison leaves them. -/
def eqSorting (l adl : AdjacencyList) : Bool × AdjacencyList × AdjacencyList :=
  if l.size ≠ adl.size then (false, l, adl)
  else (sameElements l.sortByName adl.sortByName, l.sortByName, adl.sortByName)

/-- Apply an update to the neighbour with a name, if it is there. -/
def modify (l : AdjacencyList) (neighbor : Name) (f : Adjacent → Adjacent) : AdjacencyList :=
  match l.find? neighbor with
  | some a => l.replace (f a)
  | none => l

def incrementTimedOutInterestCount (l : AdjacencyList) (neighbor : Name) : AdjacencyList :=
  l.modify neighbor fun a => { a with interestTimedOutNo := a.interestTimedOutNo + 1 }

def setTimedOutInterestCount (l : AdjacencyList) (neighbor : Name) (count : UInt32) :
    AdjacencyList :=
  l.modify neighbor fun a => { a with interestTimedOutNo := count }

/-- `getTimedOutInterestCount`; -1 for an unknown neighbour, which the caller reads as an
unsigned number. -/
def getTimedOutInterestCount (l : AdjacencyList) (neighbor : Name) : UInt32 :=
  match l.find? neighbor with
  | some a => a.interestTimedOutNo
  | none => 0xFFFFFFFF

def getStatusOfNeighbor (l : AdjacencyList) (neighbor : Name) : Status :=
  match l.find? neighbor with
  | some a => a.status
  | none => .unknown

def setStatusOfNeighbor (l : AdjacencyList) (neighbor : Name) (status : Status) :
    AdjacencyList :=
  l.modify neighbor fun a => { a with status }

/-- Is every neighbour ACTIVE, or timed out often enough to count as dead? -/
def isAdjLsaBuildable (l : AdjacencyList) (interestRetryNumber : UInt32) : Bool :=
  l.toList.all fun a => a.status = .active ∨ interestRetryNumber ≤ a.interestTimedOutNo

def getNumOfActiveNeighbor (l : AdjacencyList) : Nat :=
  (l.toList.filter fun a => a.status = .active).length

/-- `findAdjacent(faceId)`. -/
def findAdjacentByFaceId (l : AdjacencyList) (faceId : UInt64) : Option Adjacent :=
  l.toList.find? fun a => a.faceId = faceId

/-- `getFaceId(faceUri)`; 0 when no neighbour has this face URI. -/
def getFaceId (l : AdjacencyList) (faceUri : String) : UInt64 :=
  match l.toList.find? fun a => a.connectingFaceUri = faceUri with
  | some a => a.faceId
  | none => 0

end AdjacencyList

end LinkState
