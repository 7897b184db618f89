import LinkState.Adjacency
import LinkState.Library.SortedList

/-!
# Link state advertisements

The three kinds of LSA a router floods: the names it advertises, the neighbours it can reach,
its hyperbolic coordinates. A database keeps one LSA of a kind for each key, the origin router
followed by the name of the kind; the three `getKey` are injective in the origin.

A time point is a number of nanoseconds.
-/

namespace LinkState

/-- A point in time, in nanoseconds. -/
abbrev TimePoint := Int

/-- The names an LSA or a configuration lists, each once. -/
abbrev NamePrefixList := KeyedList (id : Name → Name)

namespace NamePrefixList

def remove (l : NamePrefixList) (name : Name) : NamePrefixList := l.erase name

/-- `m_nameList.sort()`. -/
def sortNames (l : NamePrefixList) : NamePrefixList := l.sort fun a b => a ≤ b

end NamePrefixList

/-! ## The LSA types -/

structure Lsa where
  origRouter : Name := []
  lsType : String
  lsSeqNo : UInt32 := 0
  expirationTimePoint : TimePoint := 0
  expiringEventId : Option Nat := none
  deriving DecidableEq

structure NameLsa extends Lsa where
  lsType := "name"
  npl : NamePrefixList := KeyedList.empty
  deriving DecidableEq

structure AdjLsa extends Lsa where
  lsType := "adjacency"
  adl : AdjacencyList := KeyedList.empty
  deriving DecidableEq

structure CoordinateLsa extends Lsa where
  lsType := "coordinate"
  corRad : Double := 0
  corTheta : Double := 0
  deriving DecidableEq

/-! ### Name LSAs -/

namespace NameLsa

/-- `NameLsa::TYPE_STRING`. -/
def typeString : String := "name"

def key (origRouter : Name) : Name := origRouter ++ [Component.mk typeString]

def getKey (l : NameLsa) : Name := key l.origRouter

def addName (l : NameLsa) (name : Name) : NameLsa := { l with npl := l.npl.insert name }

/-- The constructor with arguments: the names are inserted one by one. -/
def make (origR : Name) (lst : String) (lsn : UInt32) (lt : TimePoint) (npl : NamePrefixList) :
    NameLsa :=
  npl.toList.foldl addName
    { origRouter := origR, lsType := lst, lsSeqNo := lsn, expirationTimePoint := lt }

end NameLsa

/-! ### Adjacency LSAs -/

namespace AdjLsa

/-- `AdjLsa::TYPE_STRING`. -/
def typeString : String := "adjacency"

def key (origRouter : Name) : Name := origRouter ++ [Component.mk typeString]

def getKey (l : AdjLsa) : Name := key l.origRouter

def addAdjacent (l : AdjLsa) (adj : Adjacent) : AdjLsa := { l with adl := l.adl.insert adj }

/-- The constructor with arguments: only the ACTIVE neighbours are inserted. -/
def make (origR : Name) (lst : String) (lsn : UInt32) (lt : TimePoint) (adl : AdjacencyList) :
    AdjLsa :=
  adl.toList.foldl (fun l a => if a.status = .active then l.addAdjacent a else l)
    { origRouter := origR, lsType := lst, lsSeqNo := lsn, expirationTimePoint := lt }

/-- `isEqualContent`, with the two lists as the comparison leaves them. -/
def isEqualContent (l alsa : AdjLsa) : Bool × AdjLsa × AdjLsa :=
  let (equal, adl, adl') := l.adl.eqSorting alsa.adl
  (equal, { l with adl }, { alsa with adl := adl' })

end AdjLsa

/-! ### Coordinate LSAs -/

namespace CoordinateLsa

/-- `CoordinateLsa::TYPE_STRING`. -/
def typeString : String := "coordinate"

def key (origRouter : Name) : Name := origRouter ++ [Component.mk typeString]

def getKey (l : CoordinateLsa) : Name := key l.origRouter

def make (origR : Name) (lst : String) (lsn : UInt32) (lt : TimePoint) (r theta : Double) :
    CoordinateLsa :=
  { origRouter := origR, lsType := lst, lsSeqNo := lsn, expirationTimePoint := lt,
    corRad := r, corTheta := theta }

def isEqualContent (l clsa : CoordinateLsa) : Bool :=
  Double.near l.corRad clsa.corRad ∧ Double.near l.corTheta clsa.corTheta

end CoordinateLsa

/-! ## Keys -/

theorem NameLsa.key_injective : Function.Injective NameLsa.key :=
  fun _ _ h => List.append_cancel_right h

theorem AdjLsa.key_injective : Function.Injective AdjLsa.key :=
  fun _ _ h => List.append_cancel_right h

theorem CoordinateLsa.key_injective : Function.Injective CoordinateLsa.key :=
  fun _ _ h => List.append_cancel_right h

@[simp] theorem NameLsa.key_inj {o o' : Name} : NameLsa.key o = NameLsa.key o' ↔ o = o' :=
  NameLsa.key_injective.eq_iff

@[simp] theorem AdjLsa.key_inj {o o' : Name} : AdjLsa.key o = AdjLsa.key o' ↔ o = o' :=
  AdjLsa.key_injective.eq_iff

@[simp] theorem CoordinateLsa.key_inj {o o' : Name} :
    CoordinateLsa.key o = CoordinateLsa.key o' ↔ o = o' :=
  CoordinateLsa.key_injective.eq_iff

/-! ## The constructors -/

/-- Building a Name LSA keeps the other fields and copies the list. -/
theorem NameLsa.make_eq (origR : Name) (lst : String) (lsn : UInt32) (lt : TimePoint)
    (npl : NamePrefixList) :
    NameLsa.make origR lst lsn lt npl =
      { origRouter := origR, lsType := lst, lsSeqNo := lsn, expirationTimePoint := lt, npl } := by
  have hfold : ∀ (names : List Name) (l : NameLsa), names.foldl NameLsa.addName l =
      { l with npl := names.foldl KeyedList.insert l.npl } := by
    intro names
    induction names with
    | nil => intro l; rfl
    | cons n names ih => intro l; rw [List.foldl_cons, ih]; rfl
  rw [NameLsa.make, hfold, KeyedList.foldl_insert_empty]

/-- Building an Adjacency LSA keeps the other fields and copies the ACTIVE neighbours. -/
theorem AdjLsa.make_eq (origR : Name) (lst : String) (lsn : UInt32) (lt : TimePoint)
    (adl : AdjacencyList) :
    AdjLsa.make origR lst lsn lt adl =
      { origRouter := origR, lsType := lst, lsSeqNo := lsn, expirationTimePoint := lt
        adl := adl.filter fun a => a.status = .active } := by
  have hfold : ∀ (as : List Adjacent) (l : AdjLsa),
      as.foldl (fun l a => if a.status = .active then l.addAdjacent a else l) l =
        { l with adl := (as.filter fun a => a.status = .active).foldl
                          KeyedList.insert l.adl } := by
    intro as
    induction as with
    | nil => intro l; rfl
    | cons a as ih =>
      intro l
      rw [List.foldl_cons, ih]
      by_cases ha : a.status = .active
      · simp [ha, AdjLsa.addAdjacent]
      · simp [ha]
  rw [AdjLsa.make, hfold]
  congr 1
  exact KeyedList.foldl_insert_empty (adl.filter fun a => a.status = .active)

end LinkState
