import LinkState.PacketFormat

/-!
# The LSDB status dataset

The values `tlv::LsdbStatus` and its parts, their encoders and their decoders, in the order of
the source: the encoders write the last field first, the decoders walk over the elements and go
on by their types. An LSA without names or adjacencies and a status without LSAs of a kind have
no element for them, and an expiration period that is absent is infinite; the flags are set again
from what is found.

The blocks, numbers and names of the library are a parameter (`TlvLib`); the example at the end
takes `packetFormat`. A `double` is its bit pattern. The copy of the wire that an object keeps is no part of its value:
only `wireEncode` and `wireDecode` fill it, and here nothing is encoded twice.

The value of a part determines one block (`LsaInfo.block`, …). The encoder writes that block and
the decoder reads the value back from it, one lemma each, from the inside out;
`wireDecode_wireEncode` puts them together.
-/

namespace LinkState

namespace Tlv

/-! ## The types -/

def lsaInfoType : Nat := 128
def originRouterType : Nat := 129
def sequenceNumberType : Nat := 130
def adjacencyLsaType : Nat := 131
def adjacencyType : Nat := 132
def coordinateLsaType : Nat := 133
def doubleType : Nat := 134
def hyperbolicRadiusType : Nat := 135
def hyperbolicAngleType : Nat := 136
def nameLsaType : Nat := 137
def lsdbStatusType : Nat := 138
def expirationPeriodType : Nat := 139
def costType : Nat := 140
def uriType : Nat := 141

/-! ## The values and their setters -/

/-- `time::milliseconds::max()`. -/
def infiniteExpirationPeriod : Int64 := Int64.maxValue

/-- `tlv::LsaInfo`, with the values of its constructor. -/
structure LsaInfo where
  originRouter : Name := []
  sequenceNumber : UInt64 := 0
  expirationPeriod : Int64 := infiniteExpirationPeriod
  hasInfiniteExpirationPeriod : Bool := true
  deriving DecidableEq

def LsaInfo.setOriginRouter (lsaInfo : LsaInfo) (name : Name) : LsaInfo :=
  { lsaInfo with originRouter := name }

def LsaInfo.setSequenceNumber (lsaInfo : LsaInfo) (sequenceNumber : UInt64) : LsaInfo :=
  { lsaInfo with sequenceNumber := sequenceNumber }

def LsaInfo.setExpirationPeriod (lsaInfo : LsaInfo) (expirationPeriod : Int64) : LsaInfo :=
  { lsaInfo with
    expirationPeriod := expirationPeriod
    hasInfiniteExpirationPeriod := decide (expirationPeriod = infiniteExpirationPeriod) }

/-- `tlv::Adjacency`. Every value is what the three setters make of the default one. -/
structure Adjacency where
  name : Name := []
  uri : String := ""
  cost : UInt64 := 0
  deriving DecidableEq

/-- `tlv::AdjacencyLsa`. -/
structure AdjacencyLsa where
  lsaInfo : LsaInfo := {}
  hasAdjacencies : Bool := false
  adjacencies : List Adjacency := []
  deriving DecidableEq

def AdjacencyLsa.setLsaInfo (lsa : AdjacencyLsa) (lsaInfo : LsaInfo) : AdjacencyLsa :=
  { lsa with lsaInfo := lsaInfo }

def AdjacencyLsa.addAdjacency (lsa : AdjacencyLsa) (adjacency : Adjacency) : AdjacencyLsa :=
  { lsa with adjacencies := lsa.adjacencies ++ [adjacency], hasAdjacencies := true }

def AdjacencyLsa.clearAdjacencies (lsa : AdjacencyLsa) : AdjacencyLsa :=
  { lsa with adjacencies := [], hasAdjacencies := false }

/-- `tlv::CoordinateLsa`. -/
structure CoordinateLsa where
  lsaInfo : LsaInfo := {}
  hyperbolicRadius : UInt64 := 0
  hyperbolicAngle : UInt64 := 0
  deriving DecidableEq

def CoordinateLsa.setLsaInfo (lsa : CoordinateLsa) (lsaInfo : LsaInfo) : CoordinateLsa :=
  { lsa with lsaInfo := lsaInfo }

def CoordinateLsa.setHyperbolicRadius (lsa : CoordinateLsa) (radius : UInt64) : CoordinateLsa :=
  { lsa with hyperbolicRadius := radius }

def CoordinateLsa.setHyperbolicAngle (lsa : CoordinateLsa) (angle : UInt64) : CoordinateLsa :=
  { lsa with hyperbolicAngle := angle }

/-- `tlv::NameLsa`. -/
structure NameLsa where
  lsaInfo : LsaInfo := {}
  hasNames : Bool := false
  names : List Name := []
  deriving DecidableEq

def NameLsa.setLsaInfo (lsa : NameLsa) (lsaInfo : LsaInfo) : NameLsa :=
  { lsa with lsaInfo := lsaInfo }

def NameLsa.addName (lsa : NameLsa) (name : Name) : NameLsa :=
  { lsa with names := lsa.names ++ [name], hasNames := true }

def NameLsa.clearNames (lsa : NameLsa) : NameLsa :=
  { lsa with names := [], hasNames := false }

/-- `tlv::LsdbStatus`. -/
structure LsdbStatus where
  adjacencyLsas : List AdjacencyLsa := []
  coordinateLsas : List CoordinateLsa := []
  nameLsas : List NameLsa := []
  hasAdjacencyLsas : Bool := false
  hasCoordinateLsas : Bool := false
  hasNameLsas : Bool := false
  deriving DecidableEq

namespace LsdbStatus

def addAdjacencyLsa (status : LsdbStatus) (lsa : AdjacencyLsa) : LsdbStatus :=
  { status with adjacencyLsas := status.adjacencyLsas ++ [lsa], hasAdjacencyLsas := true }

def clearAdjacencyLsas (status : LsdbStatus) : LsdbStatus :=
  { status with adjacencyLsas := [], hasAdjacencyLsas := false }

def addCoordinateLsa (status : LsdbStatus) (lsa : CoordinateLsa) : LsdbStatus :=
  { status with coordinateLsas := status.coordinateLsas ++ [lsa], hasCoordinateLsas := true }

def clearCoordinateLsas (status : LsdbStatus) : LsdbStatus :=
  { status with coordinateLsas := [], hasCoordinateLsas := false }

def addNameLsa (status : LsdbStatus) (lsa : NameLsa) : LsdbStatus :=
  { status with nameLsas := status.nameLsas ++ [lsa], hasNameLsas := true }

def clearNameLsas (status : LsdbStatus) : LsdbStatus :=
  { status with nameLsas := [], hasNameLsas := false }

end LsdbStatus

/-! ## The encoders -/

section codec

variable [TlvLib]

def LsaInfo.wireEncode (lsaInfo : LsaInfo) : Prepend := fun encoder =>
  let e := (0, encoder)
  -- absence of an expiration period signifies non-expiration
  let e := if lsaInfo.hasInfiniteExpirationPeriod then e else
    add e (prependNonNegativeIntegerBlock expirationPeriodType lsaInfo.expirationPeriod.toUInt64)
  let e := add e (prependNonNegativeIntegerBlock sequenceNumberType lsaInfo.sequenceNumber)
  let e := add e (prependNestedBlock originRouterType (encodeName lsaInfo.originRouter))
  let e := add e (prependVarNumber e.1)
  add e (prependVarNumber lsaInfoType)

def Adjacency.wireEncode (adjacency : Adjacency) : Prepend := fun encoder =>
  let e := add (0, encoder) (prependNonNegativeIntegerBlock costType adjacency.cost)
  let e := add e (prependByteArrayBlock uriType adjacency.uri.toList)
  let e := add e (encodeName adjacency.name)
  let e := add e (prependVarNumber e.1)
  add e (prependVarNumber adjacencyType)

def AdjacencyLsa.wireEncode (lsa : AdjacencyLsa) : Prepend := fun encoder =>
  let e := addAll Adjacency.wireEncode lsa.adjacencies (0, encoder)
  let e := add e lsa.lsaInfo.wireEncode
  let e := add e (prependVarNumber e.1)
  add e (prependVarNumber adjacencyLsaType)

/-- The eight bytes of a `double` in memory, the least significant first. -/
def doubleBytes (pattern : UInt64) : Wire := (Component.bigEndian 8 pattern.toNat).reverse

/-- The length of the block around a `double` is not counted but fixed. -/
def CoordinateLsa.wireEncode (lsa : CoordinateLsa) : Prepend := fun encoder =>
  let doubleLength := 10
  let e := add (0, encoder) (prependByteArrayBlock doubleType (doubleBytes lsa.hyperbolicAngle))
  let e := add e (prependVarNumber doubleLength)
  let e := add e (prependVarNumber hyperbolicAngleType)
  let e := add e (prependByteArrayBlock doubleType (doubleBytes lsa.hyperbolicRadius))
  let e := add e (prependVarNumber doubleLength)
  let e := add e (prependVarNumber hyperbolicRadiusType)
  let e := add e lsa.lsaInfo.wireEncode
  let e := add e (prependVarNumber e.1)
  add e (prependVarNumber coordinateLsaType)

def NameLsa.wireEncode (lsa : NameLsa) : Prepend := fun encoder =>
  let e := addAll encodeName lsa.names (0, encoder)
  let e := add e lsa.lsaInfo.wireEncode
  let e := add e (prependVarNumber e.1)
  add e (prependVarNumber nameLsaType)

def LsdbStatus.prepend (status : LsdbStatus) : Prepend := fun encoder =>
  let e := addAll NameLsa.wireEncode status.nameLsas (0, encoder)
  let e := addAll CoordinateLsa.wireEncode status.coordinateLsas e
  let e := addAll AdjacencyLsa.wireEncode status.adjacencyLsas e
  let e := add e (prependVarNumber e.1)
  add e (prependVarNumber lsdbStatusType)

/-- `LsdbStatus::wireEncode()`: the block in a new buffer. -/
def LsdbStatus.wireEncode (status : LsdbStatus) : Option Block :=
  (readBlock (status.prepend []).2).map Prod.fst

/-! ## The decoders -/

inductive DecodeError where
  /-- Thrown by the library. -/
  | library
  /-- Bytes are read that the block does not have. -/
  | outOfBounds
  /-- `Error(what)`. -/
  | error (what : String)
  deriving DecidableEq

def orThrow {α : Type*} : Option α → Except DecodeError α
  | some a => .ok a
  | none => .error .library

/-- A block that is not of its type. -/
def expected {α : Type*} (what : String) (type : Nat) : Except DecodeError α :=
  .error (.error ("Expected " ++ what ++ ", but Block is of a different type: #" ++ toString type))

/-- `if (m_wire.type() != type) throw Error(…); m_wire.parse()`. -/
def elementsOf (what : String) (type : Nat) (wire : Block) : Except DecodeError (List Block) :=
  if wire.type ≠ type then expected what wire.type else orThrow wire.parse

/-- `if (val != elements_end() && val->type() == type) { …; ++val; } else throw Error(what)`. -/
def required (type : Nat) (what : String) : List Block → Except DecodeError (Block × List Block)
  | val :: rest => if val.type = type then .ok (val, rest) else .error (.error what)
  | [] => .error (.error what)

/-- `for (; val != elements_end() && val->type() == type; ++val)`, with the elements left. -/
def decodeWhile {α σ : Type} (type : Nat) (wireDecode : Block → Except DecodeError α)
    (push : σ → α → σ) (s : σ) : List Block → Except DecodeError (σ × List Block)
  | [] => .ok (s, [])
  | val :: rest =>
    if val.type = type then do
      let a ← wireDecode val
      decodeWhile type wireDecode push (push s a) rest
    else .ok (s, val :: rest)

def LsaInfo.wireDecode (wire : Block) : Except DecodeError LsaInfo := do
  let elements ← elementsOf "LsaInfo Block" lsaInfoType wire
  let (val, elements) ← required originRouterType "Missing required OriginRouter field" elements
  let nested ← orThrow val.parse
  let (it, _) ← required nameType "OriginRouter: Missing required Name field" nested
  let originRouter ← orThrow (decodeName it)
  let (val, elements) ←
    required sequenceNumberType "Missing required SequenceNumber field" elements
  let sequenceNumber ← orThrow (readNonNegativeInteger val)
  match elements with
  | [] => return { originRouter, sequenceNumber }
  | val :: _ =>
    if val.type = expirationPeriodType then
      let expirationPeriod ← orThrow (readNonNegativeInteger val)
      return {
        originRouter, sequenceNumber
        expirationPeriod := expirationPeriod.toInt64
        hasInfiniteExpirationPeriod := false }
    else return { originRouter, sequenceNumber }

def Adjacency.wireDecode (wire : Block) : Except DecodeError Adjacency := do
  let elements ← elementsOf "Adjacency Block" adjacencyType wire
  let (val, elements) ← required nameType "Missing required Name field" elements
  let name ← orThrow (decodeName val)
  let (uri, elements) ← required uriType "Missing required Uri field" elements
  let (val, _) ← required costType "Missing required Cost field" elements
  let cost ← orThrow (readNonNegativeInteger val)
  return { name, uri := String.ofList uri.value, cost }

/-- One turn of the loop over the adjacencies. The text names the type of the whole block. -/
def AdjacencyLsa.decodeAdjacency (wire : Block) (lsa : AdjacencyLsa) (val : Block) :
    Except DecodeError AdjacencyLsa :=
  if val.type = adjacencyType then do
    let adjacency ← Adjacency.wireDecode val
    return lsa.addAdjacency adjacency
  else expected "Adjacency Block" wire.type

def AdjacencyLsa.wireDecode (wire : Block) : Except DecodeError AdjacencyLsa := do
  let elements ← elementsOf "AdjacencyLsa Block" adjacencyLsaType wire
  let (val, elements) ← required lsaInfoType "Missing required LsaInfo field" elements
  let lsaInfo ← LsaInfo.wireDecode val
  elements.foldlM (decodeAdjacency wire) { lsaInfo }

/-- `*reinterpret_cast<const double*>(it->value())`. -/
def readDouble (b : Block) : Except DecodeError UInt64 :=
  if 8 ≤ b.value.length then
    .ok (UInt64.ofNat (Component.ofBigEndian (b.value.take 8).reverse))
  else .error .outOfBounds

def CoordinateLsa.wireDecode (wire : Block) : Except DecodeError CoordinateLsa := do
  let elements ← elementsOf "CoordinateLsa Block" coordinateLsaType wire
  let (val, elements) ← required lsaInfoType "Missing required LsaInfo field" elements
  let lsaInfo ← LsaInfo.wireDecode val
  let (val, elements) ←
    required hyperbolicRadiusType "Missing required HyperbolicRadius field" elements
  let nested ← orThrow val.parse
  let (it, _) ← required doubleType "HyperbolicRadius: Missing required Double field" nested
  let hyperbolicRadius ← readDouble it
  let (val, _) ← required hyperbolicAngleType "Missing required HyperbolicAngle field" elements
  let nested ← orThrow val.parse
  let (it, _) ← required doubleType "HyperbolicAngle: Missing required Double field" nested
  let hyperbolicAngle ← readDouble it
  return { lsaInfo, hyperbolicRadius, hyperbolicAngle }

/-- One turn of the loop over the names. The text names the type of the whole block. -/
def NameLsa.decodeName (wire : Block) (lsa : NameLsa) (val : Block) :
    Except DecodeError NameLsa :=
  if val.type = nameType then do
    let name ← orThrow (Tlv.decodeName val)
    return lsa.addName name
  else expected "Name Block" wire.type

def NameLsa.wireDecode (wire : Block) : Except DecodeError NameLsa := do
  let elements ← elementsOf "NameLsa Block" nameLsaType wire
  let (val, elements) ← required lsaInfoType "Missing required LsaInfo field" elements
  let lsaInfo ← LsaInfo.wireDecode val
  elements.foldlM (NameLsa.decodeName wire) { lsaInfo }

def LsdbStatus.wireDecode (wire : Block) : Except DecodeError LsdbStatus := do
  let elements ← elementsOf "LsdbStatus Block" lsdbStatusType wire
  let (status, elements) ←
    decodeWhile adjacencyLsaType AdjacencyLsa.wireDecode addAdjacencyLsa {} elements
  let (status, elements) ←
    decodeWhile coordinateLsaType CoordinateLsa.wireDecode addCoordinateLsa status elements
  let (status, elements) ←
    decodeWhile nameLsaType NameLsa.wireDecode addNameLsa status elements
  match elements with
  | [] => return status
  | val :: _ => expected "the end of elements" val.type

end codec

/-! ## What the setters build -/

/-- Built through the setters of `tlv::LsaInfo`. -/
inductive LsaInfo.Built : LsaInfo → Prop where
  | default : Built {}
  | setOriginRouter {lsaInfo} (name) : Built lsaInfo → Built (lsaInfo.setOriginRouter name)
  | setSequenceNumber {lsaInfo} (n) : Built lsaInfo → Built (lsaInfo.setSequenceNumber n)
  | setExpirationPeriod {lsaInfo} (t) : Built lsaInfo → Built (lsaInfo.setExpirationPeriod t)

inductive AdjacencyLsa.Built : AdjacencyLsa → Prop where
  | default : Built {}
  | setLsaInfo {lsa lsaInfo} : lsaInfo.Built → Built lsa → Built (lsa.setLsaInfo lsaInfo)
  | addAdjacency {lsa} (adjacency) : Built lsa → Built (lsa.addAdjacency adjacency)
  | clearAdjacencies {lsa} : Built lsa → Built lsa.clearAdjacencies

inductive CoordinateLsa.Built : CoordinateLsa → Prop where
  | default : Built {}
  | setLsaInfo {lsa lsaInfo} : lsaInfo.Built → Built lsa → Built (lsa.setLsaInfo lsaInfo)
  | setHyperbolicRadius {lsa} (radius) : Built lsa → Built (lsa.setHyperbolicRadius radius)
  | setHyperbolicAngle {lsa} (angle) : Built lsa → Built (lsa.setHyperbolicAngle angle)

inductive NameLsa.Built : NameLsa → Prop where
  | default : Built {}
  | setLsaInfo {lsa lsaInfo} : lsaInfo.Built → Built lsa → Built (lsa.setLsaInfo lsaInfo)
  | addName {lsa} (name) : Built lsa → Built (lsa.addName name)
  | clearNames {lsa} : Built lsa → Built lsa.clearNames

inductive LsdbStatus.Built : LsdbStatus → Prop where
  | default : Built {}
  | addAdjacencyLsa {status lsa} : lsa.Built → Built status → Built (status.addAdjacencyLsa lsa)
  | clearAdjacencyLsas {status} : Built status → Built status.clearAdjacencyLsas
  | addCoordinateLsa {status lsa} :
      lsa.Built → Built status → Built (status.addCoordinateLsa lsa)
  | clearCoordinateLsas {status} : Built status → Built status.clearCoordinateLsas
  | addNameLsa {status lsa} : lsa.Built → Built status → Built (status.addNameLsa lsa)
  | clearNameLsas {status} : Built status → Built status.clearNameLsas

/-! The flags say what the lists and the period say. -/

theorem LsaInfo.Built.infinite {lsaInfo : LsaInfo} (h : lsaInfo.Built)
    (hflag : lsaInfo.hasInfiniteExpirationPeriod = true) :
    lsaInfo.expirationPeriod = infiniteExpirationPeriod := by
  induction h with
  | default => rfl
  | setOriginRouter _ _ ih => exact ih hflag
  | setSequenceNumber _ _ ih => exact ih hflag
  | setExpirationPeriod _ _ _ => exact of_decide_eq_true hflag

theorem AdjacencyLsa.Built.lsaInfo {lsa : AdjacencyLsa} (h : lsa.Built) : lsa.lsaInfo.Built := by
  induction h with
  | default => exact .default
  | setLsaInfo h _ _ => exact h
  | addAdjacency _ _ ih => exact ih
  | clearAdjacencies _ ih => exact ih

theorem AdjacencyLsa.Built.hasAdjacencies_eq {lsa : AdjacencyLsa} (h : lsa.Built) :
    lsa.hasAdjacencies = !lsa.adjacencies.isEmpty := by
  induction h with
  | default => rfl
  | setLsaInfo _ _ ih => exact ih
  | addAdjacency _ _ _ => simp [AdjacencyLsa.addAdjacency]
  | clearAdjacencies _ _ => rfl

theorem CoordinateLsa.Built.lsaInfo {lsa : CoordinateLsa} (h : lsa.Built) :
    lsa.lsaInfo.Built := by
  induction h with
  | default => exact .default
  | setLsaInfo h _ _ => exact h
  | setHyperbolicRadius _ _ ih => exact ih
  | setHyperbolicAngle _ _ ih => exact ih

theorem NameLsa.Built.lsaInfo {lsa : NameLsa} (h : lsa.Built) : lsa.lsaInfo.Built := by
  induction h with
  | default => exact .default
  | setLsaInfo h _ _ => exact h
  | addName _ _ ih => exact ih
  | clearNames _ ih => exact ih

theorem NameLsa.Built.hasNames_eq {lsa : NameLsa} (h : lsa.Built) :
    lsa.hasNames = !lsa.names.isEmpty := by
  induction h with
  | default => rfl
  | setLsaInfo _ _ ih => exact ih
  | addName _ _ _ => simp [NameLsa.addName]
  | clearNames _ _ => rfl

/-- The parts of a status are built through their setters, and its flags are those of its
lists. -/
structure LsdbStatus.Sound (status : LsdbStatus) : Prop where
  adjacencyLsas : ∀ lsa ∈ status.adjacencyLsas, lsa.Built
  coordinateLsas : ∀ lsa ∈ status.coordinateLsas, lsa.Built
  nameLsas : ∀ lsa ∈ status.nameLsas, lsa.Built
  hasAdjacencyLsas : status.hasAdjacencyLsas = !status.adjacencyLsas.isEmpty
  hasCoordinateLsas : status.hasCoordinateLsas = !status.coordinateLsas.isEmpty
  hasNameLsas : status.hasNameLsas = !status.nameLsas.isEmpty

theorem forall_mem_append_singleton {α : Type*} {p : α → Prop} {l : List α} {a : α}
    (hl : ∀ x ∈ l, p x) (ha : p a) : ∀ x ∈ l ++ [a], p x := by
  intro x hx
  rcases List.mem_append.mp hx with hx | hx
  · exact hl x hx
  · exact List.mem_singleton.mp hx ▸ ha

theorem LsdbStatus.Built.sound {status : LsdbStatus} (h : status.Built) : status.Sound := by
  induction h with
  | default => exact ⟨by simp, by simp, by simp, rfl, rfl, rfl⟩
  | addAdjacencyLsa hlsa _ ih =>
    refine { ih with adjacencyLsas := ?_, hasAdjacencyLsas := ?_ }
    · exact forall_mem_append_singleton ih.adjacencyLsas hlsa
    · simp [LsdbStatus.addAdjacencyLsa]
  | clearAdjacencyLsas _ ih =>
    exact { ih with
      adjacencyLsas := by simp [LsdbStatus.clearAdjacencyLsas], hasAdjacencyLsas := rfl }
  | addCoordinateLsa hlsa _ ih =>
    refine { ih with coordinateLsas := ?_, hasCoordinateLsas := ?_ }
    · exact forall_mem_append_singleton ih.coordinateLsas hlsa
    · simp [LsdbStatus.addCoordinateLsa]
  | clearCoordinateLsas _ ih =>
    exact { ih with
      coordinateLsas := by simp [LsdbStatus.clearCoordinateLsas], hasCoordinateLsas := rfl }
  | addNameLsa hlsa _ ih =>
    refine { ih with nameLsas := ?_, hasNameLsas := ?_ }
    · exact forall_mem_append_singleton ih.nameLsas hlsa
    · simp [LsdbStatus.addNameLsa]
  | clearNameLsas _ ih =>
    exact { ih with nameLsas := by simp [LsdbStatus.clearNameLsas], hasNameLsas := rfl }

/-! ## The parts of the encoding and the decoding

The bytes of a `double`, and the loops.
-/

theorem length_doubleBytes (pattern : UInt64) : (doubleBytes pattern).length = 8 := by
  unfold doubleBytes
  rw [List.length_reverse, Component.length_bigEndian]

/-- The bytes of a `double` are read as the same pattern. -/
theorem readDouble_doubleBytes (pattern : UInt64) :
    readDouble { type := doubleType, value := doubleBytes pattern } = .ok pattern := by
  have hlength := length_doubleBytes pattern
  unfold readDouble
  rw [if_pos hlength.ge, List.take_of_length_le hlength.le]
  unfold doubleBytes
  rw [List.reverse_reverse, Component.ofBigEndian_bigEndian pattern.toNat_lt, UInt64.ofNat_toNat]

@[simp] theorem orThrow_some {α : Type*} (a : α) : orThrow (some a) = .ok a := rfl

/-- A loop over blocks that are all taken puts the values in one by one. -/
theorem foldlM_map {α σ : Type} {turn : σ → Block → Except DecodeError σ} {push : σ → α → σ}
    {block : α → Block} (hturn : ∀ s a, turn s (block a) = .ok (push s a)) (l : List α) (s : σ) :
    (l.map block).foldlM turn s = .ok (l.foldl push s) := by
  induction l generalizing s with
  | nil => rfl
  | cons a l ih =>
    rw [List.map_cons, List.foldlM_cons, hturn, ok_bind, ih]
    rfl

theorem foldl_addAdjacency (l : List Adjacency) (lsa : AdjacencyLsa) :
    l.foldl AdjacencyLsa.addAdjacency lsa = {
      lsa with
      hasAdjacencies := lsa.hasAdjacencies || !l.isEmpty
      adjacencies := lsa.adjacencies ++ l } := by
  induction l generalizing lsa with
  | nil => simp
  | cons a l ih => simp [ih, AdjacencyLsa.addAdjacency]

theorem foldl_addName (l : List Name) (lsa : NameLsa) :
    l.foldl NameLsa.addName lsa = {
      lsa with
      hasNames := lsa.hasNames || !l.isEmpty
      names := lsa.names ++ l } := by
  induction l generalizing lsa with
  | nil => simp
  | cons name l ih => simp [ih, NameLsa.addName]

/-- The loop over the elements of a type takes all of them and stops where other ones begin. -/
theorem decodeWhile_map {α σ : Type} {type : Nat} {wireDecode : Block → Except DecodeError α}
    (push : σ → α → σ) {block : α → Block} {l : List α}
    (hl : ∀ a ∈ l, (block a).type = type ∧ wireDecode (block a) = .ok a) {rest : List Block}
    (hrest : ∀ b ∈ rest, b.type ≠ type) (s : σ) :
    decodeWhile type wireDecode push s (l.map block ++ rest) = .ok (l.foldl push s, rest) := by
  induction l generalizing s with
  | nil =>
    cases rest with
    | nil => rfl
    | cons b rest => exact if_neg (hrest b (List.mem_cons_self ..))
  | cons a l ih =>
    obtain ⟨htype, hdecode⟩ := hl a (List.mem_cons_self ..)
    rw [List.map_cons, List.cons_append, decodeWhile, if_pos htype, hdecode, ok_bind]
    exact ih (fun x hx => hl x (List.mem_cons_of_mem a hx)) (push s a)

theorem LsdbStatus.foldl_addAdjacencyLsa (l : List AdjacencyLsa) (status : LsdbStatus) :
    l.foldl addAdjacencyLsa status = {
      status with
      adjacencyLsas := status.adjacencyLsas ++ l
      hasAdjacencyLsas := status.hasAdjacencyLsas || !l.isEmpty } := by
  induction l generalizing status with
  | nil => simp
  | cons lsa l ih => simp [ih, addAdjacencyLsa]

theorem LsdbStatus.foldl_addCoordinateLsa (l : List CoordinateLsa) (status : LsdbStatus) :
    l.foldl addCoordinateLsa status = {
      status with
      coordinateLsas := status.coordinateLsas ++ l
      hasCoordinateLsas := status.hasCoordinateLsas || !l.isEmpty } := by
  induction l generalizing status with
  | nil => simp
  | cons lsa l ih => simp [ih, addCoordinateLsa]

theorem LsdbStatus.foldl_addNameLsa (l : List NameLsa) (status : LsdbStatus) :
    l.foldl addNameLsa status = {
      status with
      nameLsas := status.nameLsas ++ l
      hasNameLsas := status.hasNameLsas || !l.isEmpty } := by
  induction l generalizing status with
  | nil => simp
  | cons lsa l ih => simp [ih, addNameLsa]

/-! ## The block of a value -/

section codec

variable [TlvLib]

def LsaInfo.block (lsaInfo : LsaInfo) : Block where
  type := lsaInfoType
  value := wires (
    { type := originRouterType, value := wires [nameBlock lsaInfo.originRouter] } ::
    numberBlock sequenceNumberType lsaInfo.sequenceNumber ::
    if lsaInfo.hasInfiniteExpirationPeriod then []
    else [numberBlock expirationPeriodType lsaInfo.expirationPeriod.toUInt64])

def Adjacency.block (adjacency : Adjacency) : Block where
  type := adjacencyType
  value := wires [nameBlock adjacency.name, { type := uriType, value := adjacency.uri.toList },
    numberBlock costType adjacency.cost]

def AdjacencyLsa.block (lsa : AdjacencyLsa) : Block where
  type := adjacencyLsaType
  value := wires (lsa.lsaInfo.block :: lsa.adjacencies.map Adjacency.block)

/-- A `double` in a block of its own. -/
def doubleBlock (type : Nat) (pattern : UInt64) : Block where
  type := type
  value := wires [{ type := doubleType, value := doubleBytes pattern }]

def CoordinateLsa.block (lsa : CoordinateLsa) : Block where
  type := coordinateLsaType
  value := wires [lsa.lsaInfo.block, doubleBlock hyperbolicRadiusType lsa.hyperbolicRadius,
    doubleBlock hyperbolicAngleType lsa.hyperbolicAngle]

def NameLsa.block (lsa : NameLsa) : Block where
  type := nameLsaType
  value := wires (lsa.lsaInfo.block :: lsa.names.map nameBlock)

def LsdbStatus.block (status : LsdbStatus) : Block where
  type := lsdbStatusType
  value := wires (status.adjacencyLsas.map AdjacencyLsa.block ++
    (status.coordinateLsas.map CoordinateLsa.block ++ status.nameLsas.map NameLsa.block))

/-! ## Encoding -/

theorem LsaInfo.prepends_wireEncode (lsaInfo : LsaInfo) :
    Prepends lsaInfo.wireEncode lsaInfo.block.wire := by
  intro encoder
  have horigin := prepends_nestedBlock originRouterType
    (prepends_encodeName lsaInfo.originRouter)
  have hsequence := prepends_nonNegativeIntegerBlock sequenceNumberType lsaInfo.sequenceNumber
  have hexpiration := prepends_nonNegativeIntegerBlock expirationPeriodType
    lsaInfo.expirationPeriod.toUInt64
  show Written encoder _ _
  unfold wireEncode block
  cases lsaInfo.hasInfiniteExpirationPeriod with
  | true =>
    have h := ((written_nil encoder).add hsequence).add horigin
    simpa using h.header lsaInfoType
  | false =>
    have h := (((written_nil encoder).add hexpiration).add hsequence).add horigin
    simpa using h.header lsaInfoType

theorem Adjacency.prepends_wireEncode (adjacency : Adjacency) :
    Prepends adjacency.wireEncode adjacency.block.wire := by
  intro encoder
  have h := (((written_nil encoder).add
    (prepends_nonNegativeIntegerBlock costType adjacency.cost)).add
    (prepends_byteArrayBlock uriType adjacency.uri.toList)).add
    (prepends_encodeName adjacency.name)
  show Written encoder _ _
  unfold wireEncode block
  simpa using h.header adjacencyType

theorem AdjacencyLsa.prepends_wireEncode (lsa : AdjacencyLsa) :
    Prepends lsa.wireEncode lsa.block.wire := by
  intro encoder
  have h := ((written_nil encoder).addAll Adjacency.prepends_wireEncode lsa.adjacencies).add
    lsa.lsaInfo.prepends_wireEncode
  show Written encoder _ _
  unfold wireEncode block
  simpa using h.header adjacencyLsaType

/-- Ten is the length of a `double` with its header. -/
theorem Written.doubleBlock {encoder : Wire} {e : Nat × Wire} {w : Wire}
    (h : Written encoder e w) (type : Nat) (pattern : UInt64) :
    Written encoder (Tlv.add (Tlv.add (Tlv.add e
      (prependByteArrayBlock doubleType (doubleBytes pattern))) (prependVarNumber 10))
      (prependVarNumber type)) ((doubleBlock type pattern).wire ++ w) := by
  have hlength : (Block.wire { type := doubleType, value := doubleBytes pattern }).length = 10 := by
    have htype : doubleType < 253 := by decide
    unfold Block.wire Block.bytes
    rw [List.length_append, List.length_append, length_doubleBytes,
      TlvLib.length_varNumber htype, TlvLib.length_varNumber (by decide)]
  have h := ((h.add (prepends_byteArrayBlock doubleType (doubleBytes pattern))).add
    (prepends_varNumber 10)).add (prepends_varNumber type)
  unfold Tlv.doubleBlock
  rw [wires_cons, wires_nil, List.append_nil, Block.wire, Block.bytes, hlength]
  simpa using h

theorem CoordinateLsa.prepends_wireEncode (lsa : CoordinateLsa) :
    Prepends lsa.wireEncode lsa.block.wire := by
  intro encoder
  have h := (((written_nil encoder).doubleBlock hyperbolicAngleType lsa.hyperbolicAngle).doubleBlock
    hyperbolicRadiusType lsa.hyperbolicRadius).add lsa.lsaInfo.prepends_wireEncode
  show Written encoder _ _
  unfold wireEncode block
  simpa using h.header coordinateLsaType

theorem NameLsa.prepends_wireEncode (lsa : NameLsa) :
    Prepends lsa.wireEncode lsa.block.wire := by
  intro encoder
  have h := ((written_nil encoder).addAll prepends_encodeName lsa.names).add
    lsa.lsaInfo.prepends_wireEncode
  show Written encoder _ _
  unfold wireEncode block
  simpa using h.header nameLsaType

theorem LsdbStatus.prepends_prepend (status : LsdbStatus) :
    Prepends status.prepend status.block.wire := by
  intro encoder
  have h := (((written_nil encoder).addAll NameLsa.prepends_wireEncode status.nameLsas).addAll
    CoordinateLsa.prepends_wireEncode status.coordinateLsas).addAll
    AdjacencyLsa.prepends_wireEncode status.adjacencyLsas
  show Written encoder _ _
  unfold prepend block
  simpa using h.header lsdbStatusType

/-- **Encoding a status gives its block.** -/
theorem LsdbStatus.wireEncode_eq (status : LsdbStatus) : status.wireEncode = some status.block := by
  unfold wireEncode
  rw [status.prepends_prepend [], readBlock_wire]
  rfl

/-! ## Decoding -/

theorem parse_value {b : Block} {bs : List Block} (h : b.value = wires bs) : b.parse = some bs := by
  cases b
  subst h
  exact parse_wires _ bs

theorem elementsOf_value {what : String} {type : Nat} {b : Block} {bs : List Block}
    (htype : b.type = type) (hvalue : b.value = wires bs) : elementsOf what type b = .ok bs := by
  unfold elementsOf
  rw [if_neg (not_not_intro htype), parse_value hvalue]
  rfl

/-- **The expiration period comes back**: it is left out only when it is infinite. -/
theorem LsaInfo.wireDecode_block {lsaInfo : LsaInfo} (h : lsaInfo.Built) :
    wireDecode lsaInfo.block = .ok lsaInfo := by
  have helements : elementsOf "LsaInfo Block" lsaInfoType lsaInfo.block = .ok _ :=
    elementsOf_value rfl rfl
  unfold wireDecode
  rw [helements]
  simp only [ok_bind, required, if_true, parse_wires, orThrow_some, nameBlock_type,
    decodeName_nameBlock, numberBlock_type, readNonNegativeInteger_numberBlock]
  cases hflag : lsaInfo.hasInfiniteExpirationPeriod with
  | true =>
    have hperiod := h.infinite hflag
    cases lsaInfo
    subst hflag hperiod
    rfl
  | false =>
    simp only [Bool.false_eq_true, if_false, numberBlock_type, if_true,
      readNonNegativeInteger_numberBlock, orThrow_some, ok_bind, Int64.toInt64_toUInt64]
    cases lsaInfo
    subst hflag
    rfl

theorem Adjacency.wireDecode_block (adjacency : Adjacency) :
    wireDecode adjacency.block = .ok adjacency := by
  have helements : elementsOf "Adjacency Block" adjacencyType adjacency.block = .ok _ :=
    elementsOf_value rfl rfl
  unfold wireDecode
  rw [helements]
  simp only [ok_bind, required, if_true, orThrow_some, nameBlock_type, decodeName_nameBlock,
    numberBlock_type, readNonNegativeInteger_numberBlock, String.ofList_toList]
  rfl

theorem AdjacencyLsa.wireDecode_block {lsa : AdjacencyLsa} (h : lsa.Built) :
    wireDecode lsa.block = .ok lsa := by
  have helements : elementsOf "AdjacencyLsa Block" adjacencyLsaType lsa.block = .ok _ :=
    elementsOf_value rfl rfl
  have hturn : ∀ (s : AdjacencyLsa) (a : Adjacency),
      decodeAdjacency lsa.block s a.block = .ok (s.addAdjacency a) := by
    intro s a
    show (Adjacency.wireDecode a.block >>= fun adjacency => pure (s.addAdjacency adjacency)) = _
    rw [Adjacency.wireDecode_block, ok_bind]
    rfl
  have hinfo : lsa.lsaInfo.block.type = lsaInfoType := rfl
  unfold wireDecode
  rw [helements]
  simp only [ok_bind, required, if_true, hinfo, LsaInfo.wireDecode_block h.lsaInfo]
  rw [foldlM_map hturn, foldl_addAdjacency]
  simp only [Bool.false_or, List.nil_append, ← h.hasAdjacencies_eq]

theorem CoordinateLsa.wireDecode_block {lsa : CoordinateLsa} (h : lsa.Built) :
    wireDecode lsa.block = .ok lsa := by
  have helements : elementsOf "CoordinateLsa Block" coordinateLsaType lsa.block = .ok _ :=
    elementsOf_value rfl rfl
  have hinfo : lsa.lsaInfo.block.type = lsaInfoType := rfl
  unfold wireDecode
  rw [helements]
  simp only [ok_bind, required, if_true, hinfo, LsaInfo.wireDecode_block h.lsaInfo, doubleBlock,
    parse_wires, orThrow_some, readDouble_doubleBytes]
  rfl

theorem NameLsa.wireDecode_block {lsa : NameLsa} (h : lsa.Built) :
    wireDecode lsa.block = .ok lsa := by
  have helements : elementsOf "NameLsa Block" nameLsaType lsa.block = .ok _ :=
    elementsOf_value rfl rfl
  have hturn : ∀ (s : NameLsa) (name : Name),
      NameLsa.decodeName lsa.block s (nameBlock name) = .ok (s.addName name) := by
    intro s name
    show (orThrow (Tlv.decodeName (nameBlock name)) >>= fun name => pure (s.addName name)) = _
    rw [decodeName_nameBlock, orThrow_some, ok_bind]
    rfl
  have hinfo : lsa.lsaInfo.block.type = lsaInfoType := rfl
  unfold wireDecode
  rw [helements]
  simp only [ok_bind, required, if_true, hinfo, LsaInfo.wireDecode_block h.lsaInfo]
  rw [foldlM_map hturn, foldl_addName]
  simp only [Bool.false_or, List.nil_append, ← h.hasNames_eq]

namespace LsdbStatus

theorem wireDecode_block {status : LsdbStatus} (h : status.Sound) :
    wireDecode status.block = .ok status := by
  have helements : elementsOf "LsdbStatus Block" lsdbStatusType status.block = .ok _ :=
    elementsOf_value rfl rfl
  have hadjacency : ∀ lsa ∈ status.adjacencyLsas, lsa.block.type = adjacencyLsaType ∧
      AdjacencyLsa.wireDecode lsa.block = .ok lsa :=
    fun lsa hlsa => ⟨rfl, AdjacencyLsa.wireDecode_block (h.adjacencyLsas lsa hlsa)⟩
  have hcoordinate : ∀ lsa ∈ status.coordinateLsas, lsa.block.type = coordinateLsaType ∧
      CoordinateLsa.wireDecode lsa.block = .ok lsa :=
    fun lsa hlsa => ⟨rfl, CoordinateLsa.wireDecode_block (h.coordinateLsas lsa hlsa)⟩
  have hname : ∀ lsa ∈ status.nameLsas, lsa.block.type = nameLsaType ∧
      NameLsa.wireDecode lsa.block = .ok lsa :=
    fun lsa hlsa => ⟨rfl, NameLsa.wireDecode_block (h.nameLsas lsa hlsa)⟩
  -- what follows the elements of a type is of another type
  have hnames : ∀ b ∈ status.nameLsas.map NameLsa.block, b.type ≠ coordinateLsaType := by
    intro b hb
    obtain ⟨lsa, hlsa, rfl⟩ := List.mem_map.mp hb
    rw [(hname lsa hlsa).1]
    decide
  have hrest : ∀ b ∈ status.coordinateLsas.map CoordinateLsa.block ++
      status.nameLsas.map NameLsa.block, b.type ≠ adjacencyLsaType := by
    intro b hb
    rcases List.mem_append.mp hb with hb | hb
    · obtain ⟨lsa, hlsa, rfl⟩ := List.mem_map.mp hb
      rw [(hcoordinate lsa hlsa).1]
      decide
    · obtain ⟨lsa, hlsa, rfl⟩ := List.mem_map.mp hb
      rw [(hname lsa hlsa).1]
      decide
  have hloop := decodeWhile_map addNameLsa hname
    (fun b (hb : b ∈ []) => absurd hb List.not_mem_nil)
  rw [List.append_nil] at hloop
  unfold wireDecode
  rw [helements, ok_bind, decodeWhile_map _ hadjacency hrest, ok_bind]
  dsimp only
  rw [decodeWhile_map _ hcoordinate hnames, ok_bind]
  dsimp only
  rw [hloop, ok_bind, foldl_addAdjacencyLsa, foldl_addCoordinateLsa, foldl_addNameLsa]
  simp only [Bool.false_or, List.nil_append, ← h.hasAdjacencyLsas, ← h.hasCoordinateLsas,
    ← h.hasNameLsas]
  rfl

/-- **The LSDB status survives the trip.** -/
theorem wireDecode_wireEncode {status : LsdbStatus} (h : status.Built) :
    ∃ block, status.wireEncode = some block ∧ wireDecode block = .ok status :=
  ⟨status.block, status.wireEncode_eq, wireDecode_block h.sound⟩

end LsdbStatus

end codec

namespace LsdbStatus

/-- A name LSA without names that expired five milliseconds ago, after an adjacency LSA that
never does. -/
def expiredStatus : LsdbStatus :=
  (({} : LsdbStatus).addAdjacencyLsa (({} : AdjacencyLsa).addAdjacency
    { name := ["r"], uri := "udp://r", cost := 7 })).addNameLsa
    (({} : NameLsa).setLsaInfo (({} : LsaInfo).setExpirationPeriod (-5)))

theorem wireDecode_wireEncode_expiredStatus :
    ∃ block, expiredStatus.wireEncode = some block ∧ wireDecode block = .ok expiredStatus :=
  wireDecode_wireEncode (.addNameLsa (.setLsaInfo (.setExpirationPeriod _ .default) .default)
    (.addAdjacencyLsa (.addAdjacency _ .default) .default))

end LsdbStatus

end Tlv

end LinkState
