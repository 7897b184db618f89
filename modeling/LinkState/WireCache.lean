import LinkState.Library.Cache
import LinkState.LsdbStatus

/-!
# The kept wires of the dataset

The objects of the LSDB status with the wire each of them keeps (`m_wire`). The parts of an object
are objects with wires of their own, copied together with them; the template `wireEncode(block)`
of a part writes its fields and does not look at its wire.

The setters and the `add` functions drop the wire, the `clear` functions leave it. So an
`LsaInfo`, an `Adjacency` and a `CoordinateLsa` never return an old wire, and the other three do
so once something that was encoded is cleared: `fresh_iff_meets`. Whatever they return was made of
fields that the setters can build (`made_of_run`), so the decoder takes it.
-/

namespace LinkState

namespace Tlv

/-! ## Values and loops -/

theorem value_decodeWhile {α β σ τ : Type} {type : Nat} {u : α → β} {v : σ → τ}
    {decode : Block → Except DecodeError α} {decodeValue : Block → Except DecodeError β}
    {push : σ → α → σ} {pushValue : τ → β → τ} (hdecode : ∀ b, u <$> decode b = decodeValue b)
    (hpush : ∀ s a, v (push s a) = pushValue (v s) (u a)) (l : List Block) (s : σ) :
    (fun r => (v r.1, r.2)) <$> decodeWhile type decode push s l =
      decodeWhile type decodeValue pushValue (v s) l := by
  induction l generalizing s with
  | nil => rfl
  | cons b l ih =>
    unfold decodeWhile
    by_cases htype : b.type = type
    · rw [if_pos htype, if_pos htype, map_bind, ← hdecode, bind_map_left]
      refine bind_congr fun a => ?_
      rw [ih, hpush]
    · rw [if_neg htype, if_neg htype]
      rfl

/-- The value of an object is read by the decoder without wires. -/
theorem value_object {F V : Type} {value : F → V} {decode : Block → Except DecodeError F}
    {decodeValue : Block → Except DecodeError V}
    (h : ∀ wire, value <$> decode wire = decodeValue wire) (wire : Block) :
    (fun x : Cached F Block => value x.fields) <$> Cached.wireDecode decode wire =
      decodeValue wire := by
  rw [← h wire]
  unfold Cached.wireDecode
  cases decode wire <;> rfl

section

variable [TlvLib]

/-- `buffer.block()` after the template has written to the empty buffer. -/
def blockOf (wireEncode : Prepend) : Option Block := (readBlock (wireEncode []).2).map Prod.fst

theorem blockOf_eq {wireEncode : Prepend} {b : Block} (h : Prepends wireEncode b.wire) :
    blockOf wireEncode = some b := by
  unfold blockOf
  rw [h [], readBlock_wire]
  rfl

/-! ## The objects and their mutators -/

namespace LsaInfo

abbrev Object := Cached LsaInfo Block

def encode (lsaInfo : LsaInfo) : Option Block := blockOf lsaInfo.wireEncode

inductive Mutator where
  | setOriginRouter (name : Name)
  | setSequenceNumber (sequenceNumber : UInt64)
  | setExpirationPeriod (expirationPeriod : Int64)

def mutate (lsaInfo : Object) : Mutator → Object
  | .setOriginRouter name => lsaInfo.set fun fields => fields.setOriginRouter name
  | .setSequenceNumber sequenceNumber =>
    lsaInfo.set fun fields => fields.setSequenceNumber sequenceNumber
  | .setExpirationPeriod expirationPeriod =>
    lsaInfo.set fun fields => fields.setExpirationPeriod expirationPeriod

end LsaInfo

namespace Adjacency

abbrev Object := Cached Adjacency Block

def encode (adjacency : Adjacency) : Option Block := blockOf adjacency.wireEncode

inductive Mutator where
  | setName (name : Name)
  | setUri (uri : String)
  | setCost (cost : UInt64)

def mutate (adjacency : Object) : Mutator → Object
  | .setName name => adjacency.set fun fields => { fields with name := name }
  | .setUri uri => adjacency.set fun fields => { fields with uri := uri }
  | .setCost cost => adjacency.set fun fields => { fields with cost := cost }

end Adjacency

namespace AdjacencyLsa

/-- The fields, with the objects in them. -/
structure Fields where
  lsaInfo : LsaInfo.Object := { fields := {} }
  hasAdjacencies : Bool := false
  adjacencies : List Adjacency.Object := []

/-- The fields without the wires of the parts. -/
def Fields.value (fields : Fields) : AdjacencyLsa where
  lsaInfo := fields.lsaInfo.fields
  hasAdjacencies := fields.hasAdjacencies
  adjacencies := fields.adjacencies.map Cached.fields

abbrev Object := Cached Fields Block

def encode (fields : Fields) : Option Block := blockOf fields.value.wireEncode

inductive Mutator where
  | setLsaInfo (lsaInfo : LsaInfo.Object) (h : lsaInfo.fields.Built)
  | addAdjacency (adjacency : Adjacency.Object)
  | clearAdjacencies

def Fields.addAdjacency (fields : Fields) (adjacency : Adjacency.Object) : Fields :=
  { fields with adjacencies := fields.adjacencies ++ [adjacency], hasAdjacencies := true }

def mutate (lsa : Object) : Mutator → Object
  | .setLsaInfo lsaInfo _ => lsa.set fun fields => { fields with lsaInfo := lsaInfo }
  | .addAdjacency adjacency => lsa.set fun fields => fields.addAdjacency adjacency
  -- the wire is not reset
  | .clearAdjacencies =>
    lsa.keep fun fields => { fields with adjacencies := [], hasAdjacencies := false }

/-- The loop of the decoder puts in the element an adjacency is read from as its wire. -/
def Fields.decodeAdjacency (wire : Block) (fields : Fields) (val : Block) :
    Except DecodeError Fields :=
  if val.type = adjacencyType then do
    let adjacency ← Cached.wireDecode Adjacency.wireDecode val
    return fields.addAdjacency adjacency
  else expected "Adjacency Block" wire.type

def Fields.wireDecode (wire : Block) : Except DecodeError Fields := do
  let elements ← elementsOf "AdjacencyLsa Block" adjacencyLsaType wire
  let (val, elements) ← required lsaInfoType "Missing required LsaInfo field" elements
  let lsaInfo ← Cached.wireDecode LsaInfo.wireDecode val
  elements.foldlM (decodeAdjacency wire) { lsaInfo }

end AdjacencyLsa

namespace CoordinateLsa

structure Fields where
  lsaInfo : LsaInfo.Object := { fields := {} }
  hyperbolicRadius : UInt64 := 0
  hyperbolicAngle : UInt64 := 0

def Fields.value (fields : Fields) : CoordinateLsa where
  lsaInfo := fields.lsaInfo.fields
  hyperbolicRadius := fields.hyperbolicRadius
  hyperbolicAngle := fields.hyperbolicAngle

abbrev Object := Cached Fields Block

def encode (fields : Fields) : Option Block := blockOf fields.value.wireEncode

inductive Mutator where
  | setLsaInfo (lsaInfo : LsaInfo.Object) (h : lsaInfo.fields.Built)
  | setHyperbolicRadius (hyperbolicRadius : UInt64)
  | setHyperbolicAngle (hyperbolicAngle : UInt64)

def mutate (lsa : Object) : Mutator → Object
  | .setLsaInfo lsaInfo _ => lsa.set fun fields => { fields with lsaInfo := lsaInfo }
  | .setHyperbolicRadius radius => lsa.set fun fields => { fields with hyperbolicRadius := radius }
  | .setHyperbolicAngle angle => lsa.set fun fields => { fields with hyperbolicAngle := angle }

def Fields.wireDecode (wire : Block) : Except DecodeError Fields := do
  let elements ← elementsOf "CoordinateLsa Block" coordinateLsaType wire
  let (val, elements) ← required lsaInfoType "Missing required LsaInfo field" elements
  let lsaInfo ← Cached.wireDecode LsaInfo.wireDecode val
  let (val, elements) ←
    required hyperbolicRadiusType "Missing required HyperbolicRadius field" elements
  let nested ← orThrow val.parse
  let (it, _) ← required doubleType "HyperbolicRadius: Missing required Double field" nested
  let hyperbolicRadius ← readDouble it
  let (val, _) ← required hyperbolicAngleType "Missing required HyperbolicAngle field" elements
  let nested ← orThrow val.parse
  let (it, _) ← required doubleType "HyperbolicAngle: Missing required Double field" nested
  let hyperbolicAngle ← readDouble it
  return { lsaInfo, hyperbolicRadius, hyperbolicAngle }

end CoordinateLsa

namespace NameLsa

structure Fields where
  lsaInfo : LsaInfo.Object := { fields := {} }
  hasNames : Bool := false
  names : List Name := []

def Fields.value (fields : Fields) : NameLsa where
  lsaInfo := fields.lsaInfo.fields
  hasNames := fields.hasNames
  names := fields.names

abbrev Object := Cached Fields Block

def encode (fields : Fields) : Option Block := blockOf fields.value.wireEncode

inductive Mutator where
  | setLsaInfo (lsaInfo : LsaInfo.Object) (h : lsaInfo.fields.Built)
  | addName (name : Name)
  | clearNames

def Fields.addName (fields : Fields) (name : Name) : Fields :=
  { fields with names := fields.names ++ [name], hasNames := true }

def mutate (lsa : Object) : Mutator → Object
  | .setLsaInfo lsaInfo _ => lsa.set fun fields => { fields with lsaInfo := lsaInfo }
  | .addName name => lsa.set fun fields => fields.addName name
  -- the wire is not reset
  | .clearNames => lsa.keep fun fields => { fields with names := [], hasNames := false }

def Fields.decodeName (wire : Block) (fields : Fields) (val : Block) :
    Except DecodeError Fields :=
  if val.type = nameType then do
    let name ← orThrow (Tlv.decodeName val)
    return fields.addName name
  else expected "Name Block" wire.type

def Fields.wireDecode (wire : Block) : Except DecodeError Fields := do
  let elements ← elementsOf "NameLsa Block" nameLsaType wire
  let (val, elements) ← required lsaInfoType "Missing required LsaInfo field" elements
  let lsaInfo ← Cached.wireDecode LsaInfo.wireDecode val
  elements.foldlM (Fields.decodeName wire) { lsaInfo }

end NameLsa

namespace LsdbStatus

structure Fields where
  adjacencyLsas : List AdjacencyLsa.Object := []
  coordinateLsas : List CoordinateLsa.Object := []
  nameLsas : List NameLsa.Object := []
  hasAdjacencyLsas : Bool := false
  hasCoordinateLsas : Bool := false
  hasNameLsas : Bool := false

def Fields.value (fields : Fields) : LsdbStatus where
  adjacencyLsas := fields.adjacencyLsas.map fun lsa => lsa.fields.value
  coordinateLsas := fields.coordinateLsas.map fun lsa => lsa.fields.value
  nameLsas := fields.nameLsas.map fun lsa => lsa.fields.value
  hasAdjacencyLsas := fields.hasAdjacencyLsas
  hasCoordinateLsas := fields.hasCoordinateLsas
  hasNameLsas := fields.hasNameLsas

abbrev Object := Cached Fields Block

def encode (fields : Fields) : Option Block := blockOf fields.value.prepend

inductive Mutator where
  | addAdjacencyLsa (lsa : AdjacencyLsa.Object) (h : lsa.fields.value.Built)
  | clearAdjacencyLsas
  | addCoordinateLsa (lsa : CoordinateLsa.Object) (h : lsa.fields.value.Built)
  | clearCoordinateLsas
  | addNameLsa (lsa : NameLsa.Object) (h : lsa.fields.value.Built)
  | clearNameLsas

namespace Fields

def addAdjacencyLsa (fields : Fields) (lsa : AdjacencyLsa.Object) : Fields :=
  { fields with adjacencyLsas := fields.adjacencyLsas ++ [lsa], hasAdjacencyLsas := true }

def addCoordinateLsa (fields : Fields) (lsa : CoordinateLsa.Object) : Fields :=
  { fields with coordinateLsas := fields.coordinateLsas ++ [lsa], hasCoordinateLsas := true }

def addNameLsa (fields : Fields) (lsa : NameLsa.Object) : Fields :=
  { fields with nameLsas := fields.nameLsas ++ [lsa], hasNameLsas := true }

end Fields

def mutate (status : Object) : Mutator → Object
  | .addAdjacencyLsa lsa _ => status.set fun fields => fields.addAdjacencyLsa lsa
  -- as in the other two below, the wire is not reset
  | .clearAdjacencyLsas =>
    status.keep fun fields => { fields with adjacencyLsas := [], hasAdjacencyLsas := false }
  | .addCoordinateLsa lsa _ => status.set fun fields => fields.addCoordinateLsa lsa
  | .clearCoordinateLsas =>
    status.keep fun fields => { fields with coordinateLsas := [], hasCoordinateLsas := false }
  | .addNameLsa lsa _ => status.set fun fields => fields.addNameLsa lsa
  | .clearNameLsas =>
    status.keep fun fields => { fields with nameLsas := [], hasNameLsas := false }

def Fields.wireDecode (wire : Block) : Except DecodeError Fields := do
  let elements ← elementsOf "LsdbStatus Block" lsdbStatusType wire
  let (fields, elements) ←
    decodeWhile adjacencyLsaType (Cached.wireDecode AdjacencyLsa.Fields.wireDecode)
      addAdjacencyLsa {} elements
  let (fields, elements) ←
    decodeWhile coordinateLsaType (Cached.wireDecode CoordinateLsa.Fields.wireDecode)
      addCoordinateLsa fields elements
  let (fields, elements) ←
    decodeWhile nameLsaType (Cached.wireDecode NameLsa.Fields.wireDecode)
      addNameLsa fields elements
  match elements with
  | [] => return fields
  | val :: _ => expected "the end of elements" val.type

end LsdbStatus

/-! ## Decoding with and without wires

The decoders of the fields read the values that the decoders without wires read.
-/

namespace AdjacencyLsa

theorem value_decodeAdjacency (wire : Block) (fields : Fields) (val : Block) :
    Fields.value <$> fields.decodeAdjacency wire val =
      decodeAdjacency wire fields.value val := by
  unfold Fields.decodeAdjacency decodeAdjacency
  by_cases htype : val.type = adjacencyType
  · rw [if_pos htype, if_pos htype, Cached.wireDecode_bind, map_bind]
    refine bind_congr fun adjacency => ?_
    simp [Fields.value, Fields.addAdjacency, addAdjacency]
  · rw [if_neg htype, if_neg htype]
    rfl

theorem value_wireDecode (wire : Block) :
    Fields.value <$> Fields.wireDecode wire = wireDecode wire := by
  unfold Fields.wireDecode wireDecode
  rw [map_bind]
  refine bind_congr fun elements => ?_
  rw [map_bind]
  refine bind_congr ?_
  rintro ⟨val, elements⟩
  dsimp only
  rw [Cached.wireDecode_bind, map_bind]
  refine bind_congr fun lsaInfo => ?_
  exact map_foldlM (value_decodeAdjacency wire) elements _

end AdjacencyLsa

theorem CoordinateLsa.value_wireDecode (wire : Block) :
    Fields.value <$> Fields.wireDecode wire = wireDecode wire := by
  unfold Fields.wireDecode wireDecode
  simp only [map_bind, Cached.wireDecode_bind]
  rfl

namespace NameLsa

theorem value_decodeName (wire : Block) (fields : Fields) (val : Block) :
    Fields.value <$> fields.decodeName wire val = NameLsa.decodeName wire fields.value val := by
  unfold Fields.decodeName NameLsa.decodeName
  by_cases htype : val.type = nameType
  · rw [if_pos htype, if_pos htype, map_bind]
    rfl
  · rw [if_neg htype, if_neg htype]
    rfl

theorem value_wireDecode (wire : Block) :
    Fields.value <$> Fields.wireDecode wire = wireDecode wire := by
  unfold Fields.wireDecode wireDecode
  rw [map_bind]
  refine bind_congr fun elements => ?_
  rw [map_bind]
  refine bind_congr ?_
  rintro ⟨val, elements⟩
  dsimp only
  rw [Cached.wireDecode_bind, map_bind]
  refine bind_congr fun lsaInfo => ?_
  exact map_foldlM (value_decodeName wire) elements _

end NameLsa

namespace LsdbStatus

theorem value_wireDecode (wire : Block) :
    Fields.value <$> Fields.wireDecode wire = wireDecode wire := by
  have hadjacency : ∀ l (fields : Fields),
      (fun r => (r.1.value, r.2)) <$> decodeWhile adjacencyLsaType
        (Cached.wireDecode AdjacencyLsa.Fields.wireDecode) Fields.addAdjacencyLsa fields l =
      decodeWhile adjacencyLsaType AdjacencyLsa.wireDecode addAdjacencyLsa fields.value l :=
    value_decodeWhile (value_object AdjacencyLsa.value_wireDecode) fun fields lsa => by
      simp [Fields.value, Fields.addAdjacencyLsa, addAdjacencyLsa]
  have hcoordinate : ∀ l (fields : Fields),
      (fun r => (r.1.value, r.2)) <$> decodeWhile coordinateLsaType
        (Cached.wireDecode CoordinateLsa.Fields.wireDecode) Fields.addCoordinateLsa fields l =
      decodeWhile coordinateLsaType CoordinateLsa.wireDecode addCoordinateLsa fields.value l :=
    value_decodeWhile (value_object CoordinateLsa.value_wireDecode) fun fields lsa => by
      simp [Fields.value, Fields.addCoordinateLsa, addCoordinateLsa]
  have hname : ∀ l (fields : Fields),
      (fun r => (r.1.value, r.2)) <$> decodeWhile nameLsaType
        (Cached.wireDecode NameLsa.Fields.wireDecode) Fields.addNameLsa fields l =
      decodeWhile nameLsaType NameLsa.wireDecode addNameLsa fields.value l :=
    value_decodeWhile (value_object NameLsa.value_wireDecode) fun fields lsa => by
      simp [Fields.value, Fields.addNameLsa, addNameLsa]
  have hempty : ({} : LsdbStatus) = Fields.value {} := rfl
  unfold Fields.wireDecode wireDecode
  rw [map_bind]
  refine bind_congr fun elements => ?_
  rw [map_bind, hempty, ← hadjacency, bind_map_left]
  refine bind_congr ?_
  rintro ⟨fields, elements⟩
  dsimp only
  rw [map_bind, ← hcoordinate, bind_map_left]
  refine bind_congr ?_
  rintro ⟨fields, elements⟩
  dsimp only
  rw [map_bind, ← hname, bind_map_left]
  refine bind_congr ?_
  rintro ⟨fields, elements⟩
  cases elements <;> rfl

end LsdbStatus

/-! ## Runs of calls

A run is a list of mutators, of `wireEncode` and of `wireDecode` on what `wireEncode` has made of
some object of the class.
-/

/-- What the encoder makes of the fields is decoded, if the block of every good value is. -/
theorem reads_of_block {F V : Type} (value : F → V) (good : V → Prop) {wireEncode : V → Prepend}
    {block : V → Block} {decode : Block → Except DecodeError F}
    {decodeValue : Block → Except DecodeError V}
    (hvalue : ∀ wire, value <$> decode wire = decodeValue wire)
    (hprepends : ∀ v, Prepends (wireEncode v) (block v).wire)
    (hdecode : ∀ v, good v → decodeValue (block v) = .ok v) :
    Cached.Reads (fun fields => good (value fields))
      (fun fields => blockOf (wireEncode (value fields))) decode := by
  have htrip : ∀ v wire, good v → blockOf (wireEncode v) = some wire →
      decodeValue wire = .ok v := by
    intro v wire hgood hwire
    rw [blockOf_eq (hprepends v)] at hwire
    obtain rfl : block v = wire := Option.some.inj hwire
    exact hdecode v hgood
  exact Cached.reads_of_value hvalue htrip

theorem wires_inj {bs cs : List Block} : wires bs = wires cs ↔ bs = cs := by
  constructor
  · intro h
    have hparse := parse_wires 0 bs
    rw [h, parse_wires] at hparse
    exact (Option.some.inj hparse).symm
  · exact congrArg wires

namespace LsaInfo

abbrev Call := Cached.Call Mutator (Cached.Made Built encode)

abbrev step : Object → Call → Object := Cached.step encode wireDecode mutate

theorem reads : Cached.Reads Built encode wireDecode :=
  reads_of_block id Built (fun _ => id_map _) prepends_wireEncode fun _ => wireDecode_block

theorem along_fresh (calls : List Call) :
    Along step (Cached.Fresh encode) { fields := {} } calls := by
  refine Cached.along_fresh reads (fun lsaInfo op => ?_) (Cached.fresh_new _) calls
  cases op <;> exact Cached.fresh_set _ _

theorem made_of_run (calls : List Call) {wire : Block}
    (h : ((run step { fields := {} } calls).wireEncode encode).1 = some wire) :
    Cached.Made Built encode wire := by
  refine Cached.made_of_run reads (fun lsaInfo op hbuilt => ?_) (fun lsaInfo op => ?_)
    Built.default calls h
  · cases op with
    | setOriginRouter name => exact .setOriginRouter name hbuilt
    | setSequenceNumber sequenceNumber => exact .setSequenceNumber sequenceNumber hbuilt
    | setExpirationPeriod period => exact .setExpirationPeriod period hbuilt
  · cases op <;> exact .inl rfl

end LsaInfo

namespace Adjacency

abbrev Call := Cached.Call Mutator (Cached.Made (fun _ => True) encode)

abbrev step : Object → Call → Object := Cached.step encode wireDecode mutate

theorem reads : Cached.Reads (fun _ => True) encode wireDecode :=
  reads_of_block id (fun _ => True) (fun _ => id_map _) prepends_wireEncode
    fun adjacency _ => wireDecode_block adjacency

theorem along_fresh (calls : List Call) :
    Along step (Cached.Fresh encode) { fields := {} } calls := by
  refine Cached.along_fresh reads (fun adjacency op => ?_) (Cached.fresh_new _) calls
  cases op <;> exact Cached.fresh_set _ _

theorem made_of_run (calls : List Call) {wire : Block}
    (h : ((run step { fields := {} } calls).wireEncode encode).1 = some wire) :
    Cached.Made (fun _ => True) encode wire := by
  refine Cached.made_of_run reads (fun _ _ _ => trivial) (fun adjacency op => ?_) trivial calls h
  cases op <;> exact .inl rfl

end Adjacency

namespace CoordinateLsa

abbrev Call := Cached.Call Mutator (Cached.Made (fun fields => fields.value.Built) encode)

abbrev step : Object → Call → Object := Cached.step encode Fields.wireDecode mutate

theorem reads : Cached.Reads (fun fields => fields.value.Built) encode Fields.wireDecode :=
  reads_of_block Fields.value Built value_wireDecode prepends_wireEncode fun _ => wireDecode_block

theorem along_fresh (calls : List Call) :
    Along step (Cached.Fresh encode) { fields := {} } calls := by
  refine Cached.along_fresh reads (fun lsa op => ?_) (Cached.fresh_new _) calls
  cases op <;> exact Cached.fresh_set _ _

theorem made_of_run (calls : List Call) {wire : Block}
    (h : ((run step { fields := {} } calls).wireEncode encode).1 = some wire) :
    Cached.Made (fun fields => fields.value.Built) encode wire := by
  have hdefault : (Fields.value {}).Built := .default
  refine Cached.made_of_run reads (fun lsa op hbuilt => ?_) (fun lsa op => ?_) hdefault calls h
  · cases op with
    | setLsaInfo lsaInfo hinfo => exact Built.setLsaInfo hinfo hbuilt
    | setHyperbolicRadius radius => exact Built.setHyperbolicRadius radius hbuilt
    | setHyperbolicAngle angle => exact Built.setHyperbolicAngle angle hbuilt
  · cases op <;> exact .inl rfl

end CoordinateLsa

namespace AdjacencyLsa

abbrev Call := Cached.Call Mutator (Cached.Made (fun fields => fields.value.Built) encode)

abbrev step : Object → Call → Object := Cached.step encode Fields.wireDecode mutate

theorem reads : Cached.Reads (fun fields => fields.value.Built) encode Fields.wireDecode :=
  reads_of_block Fields.value Built value_wireDecode prepends_wireEncode fun _ => wireDecode_block

/-- Nothing is cleared that a kept wire still has. -/
def Allowed (lsa : Object) : Mutator → Prop
  | .clearAdjacencies => lsa.wire = none ∨ lsa.fields.adjacencies = []
  | _ => True

/-- Adjacencies show in the encoding. -/
theorem encode_eq_clear {fields : Fields} :
    encode fields = encode { fields with adjacencies := [], hasAdjacencies := false } ↔
      fields.adjacencies = [] := by
  unfold encode
  rw [blockOf_eq (prepends_wireEncode _), blockOf_eq (prepends_wireEncode _)]
  simp only [Option.some.injEq, block, Block.mk.injEq, true_and, wires_inj, Fields.value]
  simp

theorem along_fresh_iff (calls : List Call) :
    Along step (Cached.Fresh encode) { fields := {} } calls ↔
      Meets step (Cached.Allows Allowed) { fields := {} } calls := by
  refine Cached.along_fresh_iff reads (fun lsa op h => ?_) (Cached.fresh_new _) calls
  cases op with
  | setLsaInfo lsaInfo hinfo => exact iff_of_true (Cached.fresh_set _ _) trivial
  | addAdjacency adjacency => exact iff_of_true (Cached.fresh_set _ _) trivial
  | clearAdjacencies =>
    exact (Cached.fresh_keep_iff _ h).trans (or_congr_right encode_eq_clear)

theorem made_of_run (calls : List Call) {wire : Block}
    (h : ((run step { fields := {} } calls).wireEncode encode).1 = some wire) :
    Cached.Made (fun fields => fields.value.Built) encode wire := by
  have hdefault : (Fields.value {}).Built := .default
  refine Cached.made_of_run reads (fun lsa op hbuilt => ?_) (fun lsa op => ?_) hdefault calls h
  · cases op with
    | setLsaInfo lsaInfo hinfo => exact Built.setLsaInfo hinfo hbuilt
    | addAdjacency adjacency =>
      have hadd := Built.addAdjacency adjacency.fields hbuilt
      simpa [mutate, Cached.set, Fields.value, Fields.addAdjacency,
        AdjacencyLsa.addAdjacency] using hadd
    | clearAdjacencies => exact Built.clearAdjacencies hbuilt
  · cases op with
    | clearAdjacencies => exact .inr rfl
    | _ => exact .inl rfl

end AdjacencyLsa

namespace NameLsa

abbrev Call := Cached.Call Mutator (Cached.Made (fun fields => fields.value.Built) encode)

abbrev step : Object → Call → Object := Cached.step encode Fields.wireDecode mutate

theorem reads : Cached.Reads (fun fields => fields.value.Built) encode Fields.wireDecode :=
  reads_of_block Fields.value Built value_wireDecode prepends_wireEncode fun _ => wireDecode_block

/-- Nothing is cleared that a kept wire still has. -/
def Allowed (lsa : Object) : Mutator → Prop
  | .clearNames => lsa.wire = none ∨ lsa.fields.names = []
  | _ => True

/-- Names show in the encoding. -/
theorem encode_eq_clear {fields : Fields} :
    encode fields = encode { fields with names := [], hasNames := false } ↔
      fields.names = [] := by
  unfold encode
  rw [blockOf_eq (prepends_wireEncode _), blockOf_eq (prepends_wireEncode _)]
  simp only [Option.some.injEq, block, Block.mk.injEq, true_and, wires_inj, Fields.value]
  simp

theorem along_fresh_iff (calls : List Call) :
    Along step (Cached.Fresh encode) { fields := {} } calls ↔
      Meets step (Cached.Allows Allowed) { fields := {} } calls := by
  refine Cached.along_fresh_iff reads (fun lsa op h => ?_) (Cached.fresh_new _) calls
  cases op with
  | setLsaInfo lsaInfo hinfo => exact iff_of_true (Cached.fresh_set _ _) trivial
  | addName name => exact iff_of_true (Cached.fresh_set _ _) trivial
  | clearNames => exact (Cached.fresh_keep_iff _ h).trans (or_congr_right encode_eq_clear)

theorem made_of_run (calls : List Call) {wire : Block}
    (h : ((run step { fields := {} } calls).wireEncode encode).1 = some wire) :
    Cached.Made (fun fields => fields.value.Built) encode wire := by
  have hdefault : (Fields.value {}).Built := .default
  refine Cached.made_of_run reads (fun lsa op hbuilt => ?_) (fun lsa op => ?_) hdefault calls h
  · cases op with
    | setLsaInfo lsaInfo hinfo => exact Built.setLsaInfo hinfo hbuilt
    | addName name => exact Built.addName name hbuilt
    | clearNames => exact Built.clearNames hbuilt
  · cases op with
    | clearNames => exact .inr rfl
    | _ => exact .inl rfl

end NameLsa

namespace LsdbStatus

abbrev Call := Cached.Call Mutator (Cached.Made (fun fields => fields.value.Built) encode)

abbrev step : Object → Call → Object := Cached.step encode Fields.wireDecode mutate

theorem reads : Cached.Reads (fun fields => fields.value.Built) encode Fields.wireDecode :=
  reads_of_block Fields.value Built value_wireDecode prepends_prepend
    fun _ h => wireDecode_block h.sound

/-- Nothing is cleared that a kept wire still has. -/
def Allowed (status : Object) : Mutator → Prop
  | .clearAdjacencyLsas => status.wire = none ∨ status.fields.adjacencyLsas = []
  | .clearCoordinateLsas => status.wire = none ∨ status.fields.coordinateLsas = []
  | .clearNameLsas => status.wire = none ∨ status.fields.nameLsas = []
  | _ => True

/-- Two statuses have the same encoding if the lists of their blocks are the same. -/
theorem encode_eq_iff {fields fields' : Fields} :
    encode fields = encode fields' ↔
      fields.value.adjacencyLsas.map AdjacencyLsa.block ++
        (fields.value.coordinateLsas.map CoordinateLsa.block ++
          fields.value.nameLsas.map NameLsa.block) =
      fields'.value.adjacencyLsas.map AdjacencyLsa.block ++
        (fields'.value.coordinateLsas.map CoordinateLsa.block ++
          fields'.value.nameLsas.map NameLsa.block) := by
  unfold encode
  rw [blockOf_eq (prepends_prepend _), blockOf_eq (prepends_prepend _)]
  simp only [Option.some.injEq, block, Block.mk.injEq, true_and, wires_inj]

theorem along_fresh_iff (calls : List Call) :
    Along step (Cached.Fresh encode) { fields := {} } calls ↔
      Meets step (Cached.Allows Allowed) { fields := {} } calls := by
  refine Cached.along_fresh_iff reads (fun status op h => ?_) (Cached.fresh_new _) calls
  cases op with
  | addAdjacencyLsa lsa hlsa => exact iff_of_true (Cached.fresh_set _ _) trivial
  | clearAdjacencyLsas =>
    refine (Cached.fresh_keep_iff _ h).trans (or_congr_right (encode_eq_iff.trans ?_))
    simp [Fields.value]
  | addCoordinateLsa lsa hlsa => exact iff_of_true (Cached.fresh_set _ _) trivial
  | clearCoordinateLsas =>
    refine (Cached.fresh_keep_iff _ h).trans (or_congr_right (encode_eq_iff.trans ?_))
    simp [Fields.value]
  | addNameLsa lsa hlsa => exact iff_of_true (Cached.fresh_set _ _) trivial
  | clearNameLsas =>
    refine (Cached.fresh_keep_iff _ h).trans (or_congr_right (encode_eq_iff.trans ?_))
    simp [Fields.value]

theorem made_of_run (calls : List Call) {wire : Block}
    (h : ((run step { fields := {} } calls).wireEncode encode).1 = some wire) :
    Cached.Made (fun fields => fields.value.Built) encode wire := by
  have hdefault : (Fields.value {}).Built := .default
  refine Cached.made_of_run reads (fun status op hbuilt => ?_) (fun status op => ?_) hdefault
    calls h
  · cases op with
    | addAdjacencyLsa lsa hlsa =>
      have hadd := Built.addAdjacencyLsa hlsa hbuilt
      simpa [mutate, Cached.set, Fields.value, Fields.addAdjacencyLsa,
        LsdbStatus.addAdjacencyLsa] using hadd
    | clearAdjacencyLsas => exact Built.clearAdjacencyLsas hbuilt
    | addCoordinateLsa lsa hlsa =>
      have hadd := Built.addCoordinateLsa hlsa hbuilt
      simpa [mutate, Cached.set, Fields.value, Fields.addCoordinateLsa,
        LsdbStatus.addCoordinateLsa] using hadd
    | clearCoordinateLsas => exact Built.clearCoordinateLsas hbuilt
    | addNameLsa lsa hlsa =>
      have hadd := Built.addNameLsa hlsa hbuilt
      simpa [mutate, Cached.set, Fields.value, Fields.addNameLsa,
        LsdbStatus.addNameLsa] using hadd
    | clearNameLsas => exact Built.clearNameLsas hbuilt
  · cases op <;> first | exact .inl rfl | exact .inr rfl

end LsdbStatus

/-- **When the kept wires are those of the fields.** For the classes without a `clear` function
always; for the others exactly when nothing is cleared that a kept wire still has. -/
theorem fresh_iff_meets (lsaInfoCalls : List LsaInfo.Call) (adjacencyCalls : List Adjacency.Call)
    (coordinateLsaCalls : List CoordinateLsa.Call) (adjacencyLsaCalls : List AdjacencyLsa.Call)
    (nameLsaCalls : List NameLsa.Call) (statusCalls : List LsdbStatus.Call) :
    Along LsaInfo.step (Cached.Fresh LsaInfo.encode) { fields := {} } lsaInfoCalls ∧
    Along Adjacency.step (Cached.Fresh Adjacency.encode) { fields := {} } adjacencyCalls ∧
    Along CoordinateLsa.step (Cached.Fresh CoordinateLsa.encode) { fields := {} }
      coordinateLsaCalls ∧
    (Along AdjacencyLsa.step (Cached.Fresh AdjacencyLsa.encode) { fields := {} }
        adjacencyLsaCalls ↔
      Meets AdjacencyLsa.step (Cached.Allows AdjacencyLsa.Allowed) { fields := {} }
        adjacencyLsaCalls) ∧
    (Along NameLsa.step (Cached.Fresh NameLsa.encode) { fields := {} } nameLsaCalls ↔
      Meets NameLsa.step (Cached.Allows NameLsa.Allowed) { fields := {} } nameLsaCalls) ∧
    (Along LsdbStatus.step (Cached.Fresh LsdbStatus.encode) { fields := {} } statusCalls ↔
      Meets LsdbStatus.step (Cached.Allows LsdbStatus.Allowed) { fields := {} } statusCalls) :=
  ⟨LsaInfo.along_fresh lsaInfoCalls, Adjacency.along_fresh adjacencyCalls,
    CoordinateLsa.along_fresh coordinateLsaCalls, AdjacencyLsa.along_fresh_iff adjacencyLsaCalls,
    NameLsa.along_fresh_iff nameLsaCalls, LsdbStatus.along_fresh_iff statusCalls⟩

end

/-- An adjacency is added, the LSA is encoded, and the adjacencies are cleared. -/
def clearedAfterEncode : List AdjacencyLsa.Call :=
  [.mutate (.addAdjacency { fields := {} }), .wireEncode, .mutate .clearAdjacencies]

/-- The wire that is returned at the end still has the adjacency. -/
theorem not_fresh_clearedAfterEncode :
    ¬ Along AdjacencyLsa.step (Cached.Fresh AdjacencyLsa.encode) { fields := {} }
      clearedAfterEncode := by
  rw [AdjacencyLsa.along_fresh_iff]
  rintro ⟨-, -, hclear, -⟩
  rcases hclear with hnone | hempty
  · have hwire := blockOf_eq (AdjacencyLsa.prepends_wireEncode
      (AdjacencyLsa.Fields.value (AdjacencyLsa.Fields.addAdjacency {} { fields := {} })))
    exact Option.some_ne_none _ (hwire.symm.trans hnone)
  · exact List.cons_ne_nil _ _ hempty

end Tlv

end LinkState
