import LinkState.Library.Chunks
import LinkState.LsdbStatus
import LinkState.State

/-!
# The datasets of the LSDB

A publisher turns the LSAs of one kind into TLV values and prepends them to a buffer, cuts the
buffer into segments and puts each into a Data packet. The client puts the contents together again
and reads LSAs until the bytes end.

The buffer grows at the front, so the first LSA of the LSDB is the last one in it.
`publish_segmented` says what the packets are and `onFetchSuccess_wires` what the client makes of
a buffer of blocks; `datasets_survive` puts them together for the three kinds.
-/

namespace LinkState

open Tlv

/-! ## Data packets -/

/-- A number behind a byte that says what it counts. -/
def Component.fromNumberWithMarker (marker : Char) (n : UInt64) : Component :=
  ⟨String.ofList (marker :: (Component.fromNumber n).value.toList)⟩

/-- `Component::fromSegment`. -/
def Component.fromSegment (n : UInt64) : Component := .fromNumberWithMarker (Char.ofNat 0) n

/-- `Component::fromVersion`. -/
def Component.fromVersion (n : UInt64) : Component := .fromNumberWithMarker (Char.ofNat 253) n

/-- What the publisher sets of a Data packet. -/
structure Data where
  name : Name
  content : Wire
  freshnessPeriod : Int
  finalBlockId : Option Component
  deriving DecidableEq

/-- `ndn::MAX_NDN_PACKET_SIZE`. Half of it is the room of a segment. -/
structure PacketSize where
  maxNdnPacketSize : Nat
  two_le : 2 ≤ maxNdnPacketSize

namespace SegmentPublisher

def getMaxSegmentSize (size : PacketSize) : Nat := size.maxNdnPacketSize >>> 1

theorem getMaxSegmentSize_pos (size : PacketSize) : 0 < getMaxSegmentSize size := by
  unfold getMaxSegmentSize
  rw [Nat.shiftRight_eq_div_pow]
  exact Nat.div_pos size.two_le (by decide)

example : getMaxSegmentSize ⟨8800, by decide⟩ = 4400 := by decide

/-- Where the segment that begins here ends. -/
def segmentEnd (size : PacketSize) (bufferEnd segmentBegin : Nat) : Nat :=
  let segmentEnd := segmentBegin + getMaxSegmentSize size
  if segmentEnd > bufferEnd then bufferEnd else segmentEnd

theorem segmentBegin_lt_segmentEnd {size : PacketSize} {bufferEnd segmentBegin : Nat}
    (h : segmentEnd size bufferEnd segmentBegin < bufferEnd) :
    segmentBegin < segmentEnd size bufferEnd segmentBegin := by
  have hpos := getMaxSegmentSize_pos size
  unfold segmentEnd at h ⊢
  dsimp only at h ⊢
  split_ifs at h ⊢ <;> omega

/-- The loop of `publish`, from one turn on. -/
def publishFrom (size : PacketSize) (segmentPrefix : Name) (freshnessPeriod : Int)
    (rawBuffer : Wire) (segmentBegin : Nat) (segmentNo : UInt64) : List Data :=
  let segmentEnd := segmentEnd size rawBuffer.length segmentBegin
  let segmentName := segmentPrefix ++ [Component.fromSegment segmentNo]
  let data := {
    name := segmentName
    content := (rawBuffer.drop segmentBegin).take (segmentEnd - segmentBegin)
    freshnessPeriod
    finalBlockId := if segmentEnd ≥ rawBuffer.length then fromEnd segmentName 1 else none }
  data :: if segmentEnd < rawBuffer.length then
    publishFrom size segmentPrefix freshnessPeriod rawBuffer segmentEnd (segmentNo + 1)
  else []
termination_by rawBuffer.length - segmentBegin
decreasing_by
  have hlt := segmentBegin_lt_segmentEnd ‹_›
  omega

/-- `publish`: the version is the time. -/
def publish (size : PacketSize) (freshnessPeriod : Int) (namePrefix : Name) (version : UInt64)
    (buffer : Wire) : List Data :=
  publishFrom size (namePrefix ++ [Component.fromVersion version]) freshnessPeriod buffer 0 0

end SegmentPublisher

/-! ## The publishers -/

/-- `LsaPublisher::generate`, into a new buffer. -/
def LsaPublisher.generate {α : Type} (wireEncode : α → Prepend) (lsas : List α) : Wire :=
  (lsas.foldl (fun e lsaTlv => add e (wireEncode lsaTlv)) (0, [])).2

/-- `tlv::makeLsaInfo`; `duration_cast` cuts off what is less than a millisecond. -/
def makeLsaInfo (now : TimePoint) (lsa : Lsa) : Tlv.LsaInfo :=
  let lsaInfo : Tlv.LsaInfo := {}
  let lsaInfo := lsaInfo.setOriginRouter lsa.origRouter
  let lsaInfo := lsaInfo.setSequenceNumber lsa.lsSeqNo.toUInt64
  lsaInfo.setExpirationPeriod (Int64.ofInt ((lsa.expirationTimePoint - now).tdiv 1000000))

def AdjacencyLsaPublisher.tlvAdj (adj : Adjacent) : Tlv.Adjacency where
  name := adj.name
  uri := adj.connectingFaceUri
  cost := UInt64.ofNat adj.getLinkCost

def AdjacencyLsaPublisher.tlvLsa (now : TimePoint) (lsa : AdjLsa) : Tlv.AdjacencyLsa :=
  lsa.adl.toList.foldl (fun tlvLsa adj => tlvLsa.addAdjacency (tlvAdj adj))
    (({} : Tlv.AdjacencyLsa).setLsaInfo (makeLsaInfo now lsa.toLsa))

/-- The clock is read again for each LSA. -/
def AdjacencyLsaPublisher.getTlvLsas (now : Nat → TimePoint) (lsdb : Lsdb) :
    List Tlv.AdjacencyLsa :=
  lsdb.adjLsdb.toList.mapIdx fun i lsa => tlvLsa (now i) lsa

/-- `bits` is what a `double` is in memory. -/
def CoordinateLsaPublisher.tlvLsa (bits : Double → UInt64) (now : TimePoint)
    (lsa : CoordinateLsa) : Tlv.CoordinateLsa :=
  let tlvLsa := ({} : Tlv.CoordinateLsa).setLsaInfo (makeLsaInfo now lsa.toLsa)
  let tlvLsa := tlvLsa.setHyperbolicRadius (bits lsa.corRad)
  tlvLsa.setHyperbolicAngle (bits lsa.corTheta)

def CoordinateLsaPublisher.getTlvLsas (bits : Double → UInt64) (now : Nat → TimePoint)
    (lsdb : Lsdb) : List Tlv.CoordinateLsa :=
  lsdb.corLsdb.toList.mapIdx fun i lsa => tlvLsa bits (now i) lsa

def NameLsaPublisher.tlvLsa (now : TimePoint) (lsa : NameLsa) : Tlv.NameLsa :=
  lsa.npl.toList.foldl Tlv.NameLsa.addName
    (({} : Tlv.NameLsa).setLsaInfo (makeLsaInfo now lsa.toLsa))

def NameLsaPublisher.getTlvLsas (now : Nat → TimePoint) (lsdb : Lsdb) : List Tlv.NameLsa :=
  lsdb.nameLsdb.toList.mapIdx fun i lsa => tlvLsa (now i) lsa

/-! `publish` of the three publishers, with the buffer that `generate` fills. -/

section

open SegmentPublisher LsaPublisher

variable [TlvLib] (size : PacketSize) (freshnessPeriod : Int) (namePrefix : Name) (version : UInt64)
  (now : Nat → TimePoint) (lsdb : Lsdb)

def AdjacencyLsaPublisher.publish : List Data :=
  SegmentPublisher.publish size freshnessPeriod namePrefix version
    (generate Tlv.AdjacencyLsa.wireEncode (getTlvLsas now lsdb))

def CoordinateLsaPublisher.publish (bits : Double → UInt64) : List Data :=
  SegmentPublisher.publish size freshnessPeriod namePrefix version
    (generate Tlv.CoordinateLsa.wireEncode (getTlvLsas bits now lsdb))

def NameLsaPublisher.publish : List Data :=
  SegmentPublisher.publish size freshnessPeriod namePrefix version
    (generate Tlv.NameLsa.wireEncode (getTlvLsas now lsdb))

end

/-! ## The client -/

namespace Nlsrc

variable [TlvLib]

/-- `ndn::Block::fromBuffer`, with the size of the block. -/
def fromBuffer (buffer : Wire) (offset : Nat) : Option (Block × Nat) :=
  (readBlock (buffer.drop offset)).map fun (block, rest) =>
    (block, (buffer.drop offset).length - rest.length)

inductive Outcome where
  | completed
  /-- "cannot decode LSA TLV". -/
  | cannotDecode
  /-- The constructor of the LSA has thrown. -/
  | thrown (e : DecodeError)

/-- The LSAs given to `recordLsa`, and how the loop has ended. -/
structure Fetched (α : Type) where
  recorded : List α
  outcome : Outcome

theorem fromBuffer_size_pos {buffer : Wire} {offset n : Nat} {block : Block}
    (h : fromBuffer buffer offset = some (block, n)) : 0 < n := by
  obtain ⟨⟨b, rest⟩, hread, hn⟩ := Option.map_eq_some_iff.mp h
  have hlength := TlvLib.length_readBlock hread
  have hsize : (buffer.drop offset).length - rest.length = n := congrArg Prod.snd hn
  omega

/-- The loop of `onFetchSuccess`, from one turn on. -/
def fetchFrom {α : Type} (wireDecode : Block → Except DecodeError α) (data : Wire) (offset : Nat)
    (recorded : List α) : Fetched α :=
  if offset < data.length then
    match _hread : fromBuffer data offset with
    | none => { recorded, outcome := .cannotDecode }
    | some (block, size) =>
      match wireDecode block with
      | .error e => { recorded, outcome := .thrown e }
      | .ok lsa => fetchFrom wireDecode data (offset + size) (recorded ++ [lsa])
  else { recorded, outcome := .completed }
termination_by data.length - offset
decreasing_by
  have hpos := fromBuffer_size_pos _hread
  omega

def onFetchSuccess {α : Type} (wireDecode : Block → Except DecodeError α) (data : Wire) :
    Fetched α :=
  fetchFrom wireDecode data 0 []

end Nlsrc

/-! ## What is published -/

namespace SegmentPublisher

/-- The packet with a number and a piece of the buffer. -/
def segment (segmentPrefix : Name) (freshnessPeriod : Int) (segmentNo : UInt64) (isLast : Prop)
    [Decidable isLast] (content : Wire) : Data where
  name := segmentPrefix ++ [Component.fromSegment segmentNo]
  content := content
  freshnessPeriod := freshnessPeriod
  finalBlockId := if isLast then some (Component.fromSegment segmentNo) else none

theorem fromEnd_append_one (name : Name) (c : Component) : fromEnd (name ++ [c]) 1 = some c := by
  simp [fromEnd]

/-- **The loop cuts the buffer into pieces and numbers them.** -/
theorem publishFrom_eq (size : PacketSize) (segmentPrefix : Name) (freshnessPeriod : Int)
    (rawBuffer : Wire) {segmentBegin : Nat} (h : segmentBegin ≤ rawBuffer.length)
    (segmentNo : UInt64) :
    publishFrom size segmentPrefix freshnessPeriod rawBuffer segmentBegin segmentNo =
      (chunks (getMaxSegmentSize size) (rawBuffer.drop segmentBegin)).mapIdx fun i piece =>
        segment segmentPrefix freshnessPeriod (segmentNo + UInt64.ofNat i)
          (i + 1 = (chunks (getMaxSegmentSize size) (rawBuffer.drop segmentBegin)).length)
          piece := by
  have hpos := getMaxSegmentSize_pos size
  induction hleft : rawBuffer.length - segmentBegin using Nat.strong_induction_on
    generalizing segmentBegin segmentNo with
  | _ left ih =>
    have hdrop := List.length_drop (i := segmentBegin) (l := rawBuffer)
    rw [publishFrom]
    by_cases hlt : segmentBegin + getMaxSegmentSize size < rawBuffer.length
    · -- a full piece, and more to come
      have hend : segmentEnd size rawBuffer.length segmentBegin =
          segmentBegin + getMaxSegmentSize size := if_neg (by omega)
      have hne := chunks_ne_nil (getMaxSegmentSize size)
        (rawBuffer.drop (segmentBegin + getMaxSegmentSize size))
      rw [hend, chunks_of_lt hpos (by omega), List.drop_drop, List.mapIdx_cons,
        if_pos hlt, if_neg (Nat.not_le.mpr hlt), Nat.add_sub_cancel_left,
        ih _ (by omega) hlt.le _ rfl]
      generalize chunks (getMaxSegmentSize size)
        (rawBuffer.drop (segmentBegin + getMaxSegmentSize size)) = pieces at hne ⊢
      have hmore : ¬ 0 + 1 = ((rawBuffer.drop segmentBegin).take (getMaxSegmentSize size) ::
          pieces).length := by
        simpa using hne
      refine congrArg₂ List.cons ?_ ?_
      · rw [segment, if_neg hmore]
        simp
      · refine congrArg (List.mapIdx · pieces) (funext fun i => funext fun piece => ?_)
        have hno : segmentNo + 1 + UInt64.ofNat i = segmentNo + UInt64.ofNat (i + 1) := by
          rw [Nat.add_comm i 1, UInt64.ofNat_add, UInt64.add_assoc]
          rfl
        simp only [hno, List.length_cons, Nat.add_right_cancel_iff]
    · -- the last piece
      have hend : segmentEnd size rawBuffer.length segmentBegin = rawBuffer.length := by
        unfold segmentEnd
        dsimp only
        split_ifs <;> omega
      rw [hend, chunks_of_le (by omega), if_neg (lt_irrefl _), if_pos le_rfl, fromEnd_append_one,
        List.take_of_length_le (by omega)]
      simp [segment]

/-- The packets of a dataset: there is one, they are numbered from zero on, none is too large, and
the last one, and no other, names itself as the last one. -/
structure Segmented (maxSegmentSize : Nat) (segmentPrefix : Name) (datas : List Data) : Prop where
  ne_nil : datas ≠ []
  name : ∀ i data, datas[i]? = some data →
    data.name = segmentPrefix ++ [Component.fromSegment (UInt64.ofNat i)]
  size : ∀ data ∈ datas, data.content.length ≤ maxSegmentSize
  finalBlockId : ∀ i data, datas[i]? = some data → data.finalBlockId =
    if i + 1 = datas.length then some (Component.fromSegment (UInt64.ofNat i)) else none

section

variable (size : PacketSize) (freshnessPeriod : Int) (namePrefix : Name) (version : UInt64)
  (buffer : Wire)

theorem publish_eq :
    publish size freshnessPeriod namePrefix version buffer =
      (chunks (getMaxSegmentSize size) buffer).mapIdx fun i piece =>
        segment (namePrefix ++ [Component.fromVersion version]) freshnessPeriod (UInt64.ofNat i)
          (i + 1 = (chunks (getMaxSegmentSize size) buffer).length) piece := by
  unfold publish
  rw [publishFrom_eq size _ _ buffer (Nat.zero_le _), List.drop_zero]
  simp only [UInt64.zero_add]

/-- **The packets of any buffer.** -/
theorem publish_segmented :
    Segmented (getMaxSegmentSize size) (namePrefix ++ [Component.fromVersion version])
      (publish size freshnessPeriod namePrefix version buffer) := by
  rw [publish_eq]
  constructor
  case ne_nil =>
    rw [ne_eq, List.mapIdx_eq_nil_iff]
    exact chunks_ne_nil _ _
  case name =>
    intro i data hdata
    rw [List.getElem?_mapIdx, Option.map_eq_some_iff] at hdata
    obtain ⟨piece, -, rfl⟩ := hdata
    rfl
  case size =>
    intro data hdata
    obtain ⟨i, hi, rfl⟩ := List.mem_mapIdx.mp hdata
    exact length_le_of_mem_chunks (getMaxSegmentSize_pos size) (List.getElem_mem _)
  case finalBlockId =>
    intro i data hdata
    rw [List.getElem?_mapIdx, Option.map_eq_some_iff] at hdata
    obtain ⟨piece, -, rfl⟩ := hdata
    rw [List.length_mapIdx]
    rfl

/-- **The contents together are the buffer.** -/
theorem content_publish :
    (publish size freshnessPeriod namePrefix version buffer).flatMap Data.content = buffer := by
  have hcontents : (publish size freshnessPeriod namePrefix version buffer).map Data.content =
      chunks (getMaxSegmentSize size) buffer := by
    rw [publish_eq]
    apply List.ext_getElem?
    intro i
    simp [segment, Function.comp_def]
  rw [List.flatMap_def, hcontents, flatten_chunks]

end

end SegmentPublisher

/-! ## What is retrieved -/

/-- The last LSA comes first. -/
theorem LsaPublisher.generate_eq [TlvLib] {α : Type} {wireEncode : α → Prepend} {block : α → Block}
    (h : ∀ lsa, Prepends (wireEncode lsa) (block lsa).wire) (lsas : List α) :
    generate wireEncode lsas = wires (lsas.reverse.map block) := by
  have hall := (written_nil []).addAll h lsas.reverse
  unfold Tlv.addAll at hall
  rw [List.reverse_reverse, List.append_nil] at hall
  have hbuffer := congrArg Prod.snd hall
  rwa [List.append_nil] at hbuffer

namespace Nlsrc

variable [TlvLib]

theorem fromBuffer_append (done : Wire) (b : Block) (rest : Wire) :
    fromBuffer (done ++ (b.wire ++ rest)) done.length = some (b, b.wire.length) := by
  unfold fromBuffer
  rw [List.drop_left, readBlock_wire]
  simp

/-- The loop takes one block after another and ends where they do. -/
theorem fetchFrom_append {α : Type} {wireDecode : Block → Except DecodeError α}
    {block : α → Block} {lsas : List α} (h : ∀ lsa ∈ lsas, wireDecode (block lsa) = .ok lsa)
    (done : Wire) (recorded : List α) :
    fetchFrom wireDecode (done ++ wires (lsas.map block)) done.length recorded =
      { recorded := recorded ++ lsas, outcome := .completed } := by
  induction lsas generalizing done recorded with
  | nil =>
    rw [fetchFrom]
    simp
  | cons lsa lsas ih =>
    have hpos := List.length_pos_of_ne_nil (wire_ne_nil (block lsa))
    have hread := fromBuffer_append done (block lsa) (wires (lsas.map block))
    have hih := ih (fun x hx => h x (List.mem_cons_of_mem lsa hx)) (done ++ (block lsa).wire)
      (recorded ++ [lsa])
    rw [List.append_assoc, List.append_assoc, List.length_append, List.singleton_append] at hih
    rw [List.map_cons, wires_cons, fetchFrom, if_pos (by simp only [List.length_append]; omega)]
    split
    · rename_i hnone
      rw [hread] at hnone
      cases hnone
    · rename_i b n hsome
      rw [hread] at hsome
      cases hsome
      rw [h lsa (List.mem_cons_self ..)]
      exact hih

/-- **What a buffer of blocks is read as.** -/
theorem onFetchSuccess_wires {α : Type} {wireDecode : Block → Except DecodeError α}
    {block : α → Block} {lsas : List α} (h : ∀ lsa ∈ lsas, wireDecode (block lsa) = .ok lsa) :
    onFetchSuccess wireDecode (wires (lsas.map block)) =
      { recorded := lsas, outcome := .completed } :=
  fetchFrom_append h [] []

end Nlsrc

/-! ## What comes back -/

structure SameInfo (lsaInfo : Tlv.LsaInfo) (lsa : Lsa) : Prop where
  originRouter : lsaInfo.originRouter = lsa.origRouter
  sequenceNumber : lsaInfo.sequenceNumber.toNat = lsa.lsSeqNo.toNat

structure SameAdjLsa (tlvLsa : Tlv.AdjacencyLsa) (lsa : AdjLsa) : Prop where
  info : SameInfo tlvLsa.lsaInfo lsa.toLsa
  adjacencies : tlvLsa.adjacencies.map (fun adj => (adj.name, adj.uri, adj.cost)) =
    lsa.adl.toList.map fun adj =>
      (adj.name, adj.connectingFaceUri, UInt64.ofNat adj.getLinkCost)

structure SameCoordinateLsa (bits : Double → UInt64) (tlvLsa : Tlv.CoordinateLsa)
    (lsa : CoordinateLsa) : Prop where
  info : SameInfo tlvLsa.lsaInfo lsa.toLsa
  hyperbolicRadius : tlvLsa.hyperbolicRadius = bits lsa.corRad
  hyperbolicAngle : tlvLsa.hyperbolicAngle = bits lsa.corTheta

structure SameNameLsa (tlvLsa : Tlv.NameLsa) (lsa : NameLsa) : Prop where
  info : SameInfo tlvLsa.lsaInfo lsa.toLsa
  names : tlvLsa.names = lsa.npl.toList

/-- The client reads the packets to their end and records one LSA for each one of the list, the
last one first. -/
def Delivers [TlvLib] {α β : Type} (wireDecode : Block → Except DecodeError α) (same : α → β → Prop)
    (datas : List Data) (lsas : List β) : Prop :=
  ∃ recorded, Nlsrc.onFetchSuccess wireDecode (datas.flatMap Data.content) =
      { recorded, outcome := .completed } ∧
    List.Forall₂ same recorded lsas.reverse

theorem built_makeLsaInfo (now : TimePoint) (lsa : Lsa) : (makeLsaInfo now lsa).Built :=
  .setExpirationPeriod _ (.setSequenceNumber _ (.setOriginRouter _ .default))

theorem sameInfo_makeLsaInfo (now : TimePoint) (lsa : Lsa) :
    SameInfo (makeLsaInfo now lsa) lsa where
  originRouter := rfl
  sequenceNumber := UInt32.toNat_toUInt64 lsa.lsSeqNo

theorem AdjacencyLsaPublisher.built_tlvLsa (now : TimePoint) (lsa : AdjLsa) :
    (tlvLsa now lsa).Built :=
  List.foldlRecOn lsa.adl.toList _ (.setLsaInfo (built_makeLsaInfo now lsa.toLsa) .default)
    fun _ h adj _ => .addAdjacency (tlvAdj adj) h

theorem AdjacencyLsaPublisher.same_tlvLsa (now : TimePoint) (lsa : AdjLsa) :
    SameAdjLsa (tlvLsa now lsa) lsa := by
  unfold tlvLsa
  rw [← List.foldl_map, foldl_addAdjacency]
  constructor
  case info => exact sameInfo_makeLsaInfo now lsa.toLsa
  case adjacencies => simp [Tlv.AdjacencyLsa.setLsaInfo, Function.comp_def, tlvAdj]

theorem CoordinateLsaPublisher.built_tlvLsa (bits : Double → UInt64) (now : TimePoint)
    (lsa : CoordinateLsa) : (tlvLsa bits now lsa).Built :=
  .setHyperbolicAngle _ (.setHyperbolicRadius _
    (.setLsaInfo (built_makeLsaInfo now lsa.toLsa) .default))

theorem CoordinateLsaPublisher.same_tlvLsa (bits : Double → UInt64) (now : TimePoint)
    (lsa : CoordinateLsa) : SameCoordinateLsa bits (tlvLsa bits now lsa) lsa where
  info := sameInfo_makeLsaInfo now lsa.toLsa
  hyperbolicRadius := rfl
  hyperbolicAngle := rfl

theorem NameLsaPublisher.built_tlvLsa (now : TimePoint) (lsa : NameLsa) :
    (tlvLsa now lsa).Built :=
  List.foldlRecOn lsa.npl.toList _ (.setLsaInfo (built_makeLsaInfo now lsa.toLsa) .default)
    fun _ h name _ => .addName name h

theorem NameLsaPublisher.same_tlvLsa (now : TimePoint) (lsa : NameLsa) :
    SameNameLsa (tlvLsa now lsa) lsa := by
  unfold tlvLsa
  rw [foldl_addName]
  constructor
  case info => exact sameInfo_makeLsaInfo now lsa.toLsa
  case names => simp [Tlv.NameLsa.setLsaInfo]

theorem forall₂_mapIdx {α β : Type} {same : α → β → Prop} {f : Nat → β → α}
    (h : ∀ i b, same (f i b) b) (l : List β) : List.Forall₂ same (l.mapIdx f) l := by
  induction l generalizing f with
  | nil => exact .nil
  | cons b l ih =>
    rw [List.mapIdx_cons]
    exact .cons (h 0 b) (ih fun i => h (i + 1))

section

variable [TlvLib] (size : PacketSize) (freshnessPeriod : Int) (namePrefix : Name)
  (version : UInt64)

/-- What is read block by block as it was written is delivered. -/
theorem delivers_publish {α β : Type} {wireEncode : α → Prepend} {block : α → Block}
    {wireDecode : Block → Except DecodeError α} {same : α → β → Prop} {f : Nat → β → α}
    (hprepends : ∀ lsa, Prepends (wireEncode lsa) (block lsa).wire)
    (hdecode : ∀ i b, wireDecode (block (f i b)) = .ok (f i b)) (hsame : ∀ i b, same (f i b) b)
    (lsas : List β) :
    Delivers wireDecode same (SegmentPublisher.publish size freshnessPeriod namePrefix version
      (LsaPublisher.generate wireEncode (lsas.mapIdx f))) lsas := by
  refine ⟨(lsas.mapIdx f).reverse, ?_, List.forall₂_reverse_iff.mpr (forall₂_mapIdx hsame lsas)⟩
  rw [SegmentPublisher.content_publish, LsaPublisher.generate_eq hprepends]
  refine Nlsrc.onFetchSuccess_wires fun lsa hlsa => ?_
  obtain ⟨i, hi, rfl⟩ := List.mem_mapIdx.mp (List.mem_reverse.mp hlsa)
  exact hdecode i _

/-- **The datasets of an LSDB are published in whole and retrieved in whole.** -/
theorem datasets_survive (now : Nat → TimePoint) (bits : Double → UInt64) (lsdb : Lsdb) :
    let segmented := SegmentPublisher.Segmented (SegmentPublisher.getMaxSegmentSize size)
      (namePrefix ++ [Component.fromVersion version])
    let adjacencies :=
      AdjacencyLsaPublisher.publish size freshnessPeriod namePrefix version now lsdb
    let coordinates :=
      CoordinateLsaPublisher.publish size freshnessPeriod namePrefix version now lsdb bits
    let names := NameLsaPublisher.publish size freshnessPeriod namePrefix version now lsdb
    (segmented adjacencies ∧
      Delivers Tlv.AdjacencyLsa.wireDecode SameAdjLsa adjacencies lsdb.adjLsdb.toList) ∧
    (segmented coordinates ∧
      Delivers Tlv.CoordinateLsa.wireDecode (SameCoordinateLsa bits) coordinates
        lsdb.corLsdb.toList) ∧
    (segmented names ∧
      Delivers Tlv.NameLsa.wireDecode SameNameLsa names lsdb.nameLsdb.toList) := by
  refine ⟨⟨SegmentPublisher.publish_segmented .., ?_⟩,
    ⟨SegmentPublisher.publish_segmented .., ?_⟩, ⟨SegmentPublisher.publish_segmented .., ?_⟩⟩
  · exact delivers_publish size freshnessPeriod namePrefix version
      Tlv.AdjacencyLsa.prepends_wireEncode
      (fun i lsa => Tlv.AdjacencyLsa.wireDecode_block
        (AdjacencyLsaPublisher.built_tlvLsa (now i) lsa))
      (fun i lsa => AdjacencyLsaPublisher.same_tlvLsa (now i) lsa) lsdb.adjLsdb.toList
  · exact delivers_publish size freshnessPeriod namePrefix version
      Tlv.CoordinateLsa.prepends_wireEncode
      (fun i lsa => Tlv.CoordinateLsa.wireDecode_block
        (CoordinateLsaPublisher.built_tlvLsa bits (now i) lsa))
      (fun i lsa => CoordinateLsaPublisher.same_tlvLsa bits (now i) lsa) lsdb.corLsdb.toList
  · exact delivers_publish size freshnessPeriod namePrefix version
      Tlv.NameLsa.prepends_wireEncode
      (fun i lsa => Tlv.NameLsa.wireDecode_block (NameLsaPublisher.built_tlvLsa (now i) lsa))
      (fun i lsa => NameLsaPublisher.same_tlvLsa (now i) lsa) lsdb.nameLsdb.toList

end

end LinkState
