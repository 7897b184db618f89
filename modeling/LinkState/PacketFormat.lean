import LinkState.Tlv

/-!
# The library of the packet format

Types and lengths take one, three, five or nine bytes, numbers in values one, two, four or eight,
and a name is a sequence of blocks, one for each component. `packetFormat` is the library that
reads and writes like this.
-/

namespace LinkState

namespace PacketFormat

open Tlv (Wire Block)

/-! ## Numbers -/

/-- A number that eight bytes do not hold. The format has none, and nothing is so long; the laws
are without a bound, and this makes them true. The marker in front of it is no byte. -/
def overlong (n : Nat) : Wire := Char.ofNat 256 :: (List.replicate n '1' ++ ['0'])

def readOverlong : Wire → Option (Nat × Wire)
  | '1' :: w => (readOverlong w).map fun r => (r.1 + 1, r.2)
  | '0' :: w => some (0, w)
  | _ => none

/-- The encoding of types and lengths. -/
def varNumber (n : Nat) : Wire :=
  if n < 253 then [Char.ofNat n]
  else if n < 256 ^ 2 then Char.ofNat 253 :: Component.bigEndian 2 n
  else if n < 256 ^ 4 then Char.ofNat 254 :: Component.bigEndian 4 n
  else if n < 256 ^ 8 then Char.ofNat 255 :: Component.bigEndian 8 n
  else overlong n

/-- Read so many bytes as a number. -/
def readBytes (width : Nat) (w : Wire) : Option (Nat × Wire) :=
  if width ≤ w.length then some (Component.ofBigEndian (w.take width), w.drop width) else none

def readVarNumber : Wire → Option (Nat × Wire)
  | [] => none
  | c :: w =>
    if c.toNat < 253 then some (c.toNat, w)
    else if c.toNat = 253 then readBytes 2 w
    else if c.toNat = 254 then readBytes 4 w
    else if c.toNat = 255 then readBytes 8 w
    else readOverlong w

theorem readOverlong_append (n : Nat) (rest : Wire) :
    readOverlong (List.replicate n '1' ++ ['0'] ++ rest) = some (n, rest) := by
  induction n with
  | zero => rfl
  | succ n ih =>
    rw [List.replicate_succ, List.cons_append, List.cons_append, readOverlong, ih]
    rfl

theorem readBytes_bigEndian {width n : Nat} (h : n < 256 ^ width) (rest : Wire) :
    readBytes width (Component.bigEndian width n ++ rest) = some (n, rest) := by
  have hlength := Component.length_bigEndian width n
  unfold readBytes
  rw [if_pos (by rw [List.length_append, hlength]; exact Nat.le_add_right ..),
    List.take_left' hlength, List.drop_left' hlength, Component.ofBigEndian_bigEndian h]

theorem readVarNumber_varNumber (n : Nat) (rest : Wire) :
    readVarNumber (varNumber n ++ rest) = some (n, rest) := by
  unfold varNumber
  split_ifs with h₁ h₂ h₄ h₈
  · have hc : (Char.ofNat n).toNat = n := by
      have := Component.toNat_ofNat_byte n
      rwa [Nat.mod_eq_of_lt (by omega)] at this
    show (if (Char.ofNat n).toNat < 253 then some ((Char.ofNat n).toNat, rest) else _) = _
    rw [hc, if_pos h₁]
  · exact readBytes_bigEndian h₂ rest
  · exact readBytes_bigEndian h₄ rest
  · exact readBytes_bigEndian h₈ rest
  · exact readOverlong_append n rest

theorem length_varNumber {n : Nat} (h : n < 253) : (varNumber n).length = 1 := by
  rw [varNumber, if_pos h]
  rfl

/-! ## Blocks -/

/-- Read the block at the front. -/
def readBlock (w : Wire) : Option (Block × Wire) := do
  let (type, w) ← readVarNumber w
  let (length, w) ← readVarNumber w
  if length ≤ w.length then return ({ type, value := w.take length }, w.drop length)
  else none

/-- Read blocks to the end. A block has bytes, so there are no more blocks than bytes. -/
def readBlocks : (most : Nat) → Wire → Option (List Block)
  | _, [] => some []
  | 0, _ :: _ => none
  | n + 1, c :: w => do
    let (b, rest) ← readBlock (c :: w)
    let bs ← readBlocks n rest
    return b :: bs

theorem readBlock_bytes (b : Block) (rest : Wire) :
    readBlock (b.bytes varNumber ++ rest) = some (b, rest) := by
  unfold readBlock Block.bytes
  rw [List.append_assoc, readVarNumber_varNumber, List.append_assoc]
  simp only [Option.bind_eq_bind, Option.bind_some, readVarNumber_varNumber]
  rw [if_pos (by rw [List.length_append]; exact Nat.le_add_right ..), List.take_left' rfl,
    List.drop_left' rfl]
  rfl

theorem length_readOverlong {w rest : Wire} {n : Nat} (h : readOverlong w = some (n, rest)) :
    rest.length ≤ w.length := by
  fun_induction readOverlong w generalizing n rest with
  | case1 w ih =>
    obtain ⟨⟨m, rest'⟩, hread, hr⟩ := Option.map_eq_some_iff.mp h
    obtain rfl : rest' = rest := congrArg Prod.snd hr
    exact (ih hread).trans (Nat.le_succ _)
  | case2 w =>
    obtain rfl : w = rest := congrArg Prod.snd (Option.some.inj h)
    exact Nat.le_succ _
  | case3 => cases h

theorem length_readBytes {width n : Nat} {w rest : Wire}
    (h : readBytes width w = some (n, rest)) : rest.length ≤ w.length := by
  unfold readBytes at h
  split_ifs at h
  obtain rfl : w.drop width = rest := congrArg Prod.snd (Option.some.inj h)
  exact List.length_drop ▸ Nat.sub_le _ _

theorem length_readVarNumber {w rest : Wire} {n : Nat} (h : readVarNumber w = some (n, rest)) :
    rest.length < w.length := by
  cases w with
  | nil => cases h
  | cons c w =>
    rw [List.length_cons, Nat.lt_succ_iff]
    simp only [readVarNumber] at h
    split_ifs at h
    · obtain rfl : w = rest := congrArg Prod.snd (Option.some.inj h)
      exact le_rfl
    · exact length_readBytes h
    · exact length_readBytes h
    · exact length_readBytes h
    · exact length_readOverlong h

theorem length_readBlock {w rest : Wire} {b : Block} (h : readBlock w = some (b, rest)) :
    rest.length < w.length := by
  unfold readBlock at h
  simp only [Option.bind_eq_bind, Option.bind_eq_some_iff] at h
  obtain ⟨⟨type, w₁⟩, htype, ⟨length, w₂⟩, hlength, hvalue⟩ := h
  dsimp only at hvalue
  split_ifs at hvalue
  obtain rfl : w₂.drop length = rest := congrArg Prod.snd (Option.some.inj hvalue)
  calc (w₂.drop length).length
    _ ≤ w₂.length := List.length_drop ▸ Nat.sub_le _ _
    _ < w₁.length := length_readVarNumber hlength
    _ < w.length := length_readVarNumber htype

theorem bytes_ne_nil (b : Block) : b.bytes varNumber ≠ [] := by
  intro hnil
  have hread := readBlock_bytes b []
  rw [hnil] at hread
  exact absurd (length_readBlock hread) (Nat.lt_irrefl _)

theorem readBlocks_bytes {bs : List Block} {n : Nat}
    (h : (bs.flatMap (Block.bytes varNumber)).length ≤ n) :
    readBlocks n (bs.flatMap (Block.bytes varNumber)) = some bs := by
  induction bs generalizing n with
  | nil => cases n <;> rfl
  | cons b bs ih =>
    have hpos : 0 < (b.bytes varNumber).length := List.length_pos_of_ne_nil (bytes_ne_nil b)
    rw [List.flatMap_cons, List.length_append] at h
    obtain ⟨m, rfl⟩ := Nat.exists_eq_add_of_lt (Nat.lt_of_lt_of_le hpos (by omega : _ ≤ n))
    have hread := readBlock_bytes b (bs.flatMap (Block.bytes varNumber))
    rw [List.flatMap_cons]
    cases hw : b.bytes varNumber ++ bs.flatMap (Block.bytes varNumber) with
    | nil => exact absurd hw (List.append_ne_nil_of_left_ne_nil (bytes_ne_nil b) _)
    | cons c w =>
      rw [hw] at hread
      rw [show 0 + m + 1 = m + 1 by omega, readBlocks, hread]
      simp only [Option.bind_eq_bind, Option.bind_some,
        ih (by omega : (bs.flatMap (Block.bytes varNumber)).length ≤ m)]
      rfl

/-- The elements of the value. -/
def parse (b : Block) : Option (List Block) := readBlocks b.value.length b.value

theorem parse_bytes (type : Nat) (bs : List Block) :
    parse { type, value := bs.flatMap (Block.bytes varNumber) } = some bs :=
  readBlocks_bytes le_rfl

/-! ## Numbers and names in values -/

def numberValue (n : UInt64) : Wire := (Component.fromNumber n).value.toList

def readNonNegativeInteger (b : Block) : Option UInt64 :=
  Component.toNumber ⟨String.ofList b.value⟩

theorem readNonNegativeInteger_value (type : Nat) (n : UInt64) :
    readNonNegativeInteger { type, value := numberValue n } = some n := by
  unfold readNonNegativeInteger numberValue
  rw [String.ofList_toList]
  exact Component.toNumber_fromNumber n

def nameComponentType : Nat := 8

def componentBlock (c : Component) : Block where
  type := nameComponentType
  value := c.value.toList

def nameValue (name : Name) : Wire := (name.map componentBlock).flatMap (Block.bytes varNumber)

/-- The types of the components are not looked at. -/
def decodeName (b : Block) : Option Name :=
  if b.type = Tlv.nameType then
    (parse b).map fun elements => elements.map fun e => ⟨String.ofList e.value⟩
  else none

/-- **A name survives the trip through a block.** -/
theorem decodeName_value (name : Name) :
    decodeName { type := Tlv.nameType, value := nameValue name } = some name := by
  unfold decodeName nameValue
  rw [if_pos rfl, parse_bytes, Option.map_some, List.map_map]
  refine congrArg some (List.map_congr_left (fun c _ => ?_) |>.trans (List.map_id name))
  show Component.mk (String.ofList c.value.toList) = c
  rw [String.ofList_toList]

end PacketFormat

open PacketFormat in
instance packetFormat : TlvLib where
  varNumber := varNumber
  readBlock := readBlock
  parse := parse
  numberValue := numberValue
  readNonNegativeInteger := readNonNegativeInteger
  nameValue := nameValue
  decodeName := decodeName
  length_varNumber := length_varNumber
  readBlock_bytes := readBlock_bytes
  length_readBlock := length_readBlock
  parse_bytes := parse_bytes
  readNonNegativeInteger_value := readNonNegativeInteger_value
  decodeName_value := decodeName_value

end LinkState
