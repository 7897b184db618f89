import LinkState.Library.Fallible
import LinkState.Name

/-!
# The packet format

A block is a type, a length and a value; the value of a block may be a sequence of blocks. A wire
is a byte string with one character per byte, as in names.

How numbers and names are written is the library's business. `TlvLib` lists what is used of it and
what is relied on: what was written is read back.

The encoder is a buffer that grows at the front. Everything is prepended, the last part first,
and the length of a block is written when its value is already there: it is the sum of what the
prepends of the value have returned. `Prepends` says what a prepend does, and `Written` what a
sequence of them has done.
-/

namespace LinkState

namespace Tlv

/-- Bytes. -/
abbrev Wire := List Char

/-! ## The buffer -/

/-- A prepend: the number of bytes written and the new buffer. -/
abbrev Prepend := Wire → Nat × Wire

/-- `totalLength += …`. -/
def add (e : Nat × Wire) (f : Prepend) : Nat × Wire :=
  let (n, encoder) := f e.2
  (e.1 + n, encoder)

def prependByteArray (bytes : Wire) : Prepend := fun encoder => (bytes.length, bytes ++ encoder)

/-- `for (it = l.rbegin(); it != l.rend(); ++it) totalLength += it->wireEncode(block)`. -/
def addAll {α : Type*} (wireEncode : α → Prepend) (l : List α) (e : Nat × Wire) : Nat × Wire :=
  l.reverse.foldl (fun e a => add e (wireEncode a)) e

/-- The prepend puts these bytes in front and returns their number. -/
def Prepends (f : Prepend) (w : Wire) : Prop := ∀ encoder, f encoder = (w.length, w ++ encoder)

/-- So far these bytes have been put in front of the buffer, and they have been counted. -/
def Written (encoder : Wire) (e : Nat × Wire) (w : Wire) : Prop := e = (w.length, w ++ encoder)

theorem written_nil (encoder : Wire) : Written encoder (0, encoder) [] := rfl

theorem Written.add {encoder : Wire} {e : Nat × Wire} {v w : Wire} {f : Prepend}
    (h : Written encoder e w) (hf : Prepends f v) : Written encoder (add e f) (v ++ w) := by
  unfold Written at h
  subst h
  show ((_ : Nat), _) = _
  rw [hf]
  simp [Nat.add_comm]

theorem prepends_byteArray (bytes : Wire) : Prepends (prependByteArray bytes) bytes := fun _ => rfl

/-! ## Blocks -/

structure Block where
  type : Nat
  value : Wire
  deriving DecidableEq

/-- The bytes of a block whose type and length are written like this. -/
def Block.bytes (varNumber : Nat → Wire) (b : Block) : Wire :=
  varNumber b.type ++ (varNumber b.value.length ++ b.value)

def nameType : Nat := 7

end Tlv

open Tlv in
/-- ndn-cxx, as far as it reads and writes blocks. A function gives `none` where it throws. The
laws have no bound: no type and no length comes near the 64 bits that the format has for it. -/
class TlvLib where
  /-- A type or a length, as `prependVarNumber` writes it. -/
  varNumber : Nat → Wire
  /-- The block at the front, and what is behind it. -/
  readBlock : Wire → Option (Block × Wire)
  /-- `Block::parse`: the elements of the value. -/
  parse : Block → Option (List Block)
  /-- The value of a block with a number in it. -/
  numberValue : UInt64 → Wire
  readNonNegativeInteger : Block → Option UInt64
  /-- The value of the block of a name. -/
  nameValue : Name → Wire
  /-- `Name::wireDecode`. -/
  decodeName : Block → Option Name
  /-- A small number is a byte. -/
  length_varNumber {n : Nat} : n < 253 → (varNumber n).length = 1
  readBlock_bytes (b : Block) (rest : Wire) :
    readBlock (b.bytes varNumber ++ rest) = some (b, rest)
  /-- Reading a block uses up bytes. -/
  length_readBlock {w rest : Wire} {b : Block} :
    readBlock w = some (b, rest) → rest.length < w.length
  /-- The elements of a block are those it was made of. -/
  parse_bytes (type : Nat) (bs : List Block) :
    parse { type, value := bs.flatMap (Block.bytes varNumber) } = some bs
  readNonNegativeInteger_value (type : Nat) (n : UInt64) :
    readNonNegativeInteger { type, value := numberValue n } = some n
  decodeName_value (name : Name) :
    decodeName { type := nameType, value := nameValue name } = some name

namespace Tlv

export TlvLib (readBlock readNonNegativeInteger decodeName)

section

variable [TlvLib]

/-- The bytes of a block. -/
def Block.wire (b : Block) : Wire := b.bytes TlvLib.varNumber

def Block.parse (b : Block) : Option (List Block) := TlvLib.parse b

/-- Blocks one after another. -/
def wires (bs : List Block) : Wire := bs.flatMap Block.wire

@[simp] theorem wires_nil : wires [] = [] := rfl

@[simp] theorem wires_cons (b : Block) (bs : List Block) : wires (b :: bs) = b.wire ++ wires bs :=
  List.flatMap_cons

@[simp] theorem wires_append (bs cs : List Block) : wires (bs ++ cs) = wires bs ++ wires cs :=
  List.flatMap_append

theorem readBlock_wire (b : Block) (rest : Wire) : readBlock (b.wire ++ rest) = some (b, rest) :=
  TlvLib.readBlock_bytes b rest

theorem parse_wires (type : Nat) (bs : List Block) :
    Block.parse { type, value := wires bs } = some bs := TlvLib.parse_bytes type bs

theorem wire_ne_nil (b : Block) : b.wire ≠ [] := by
  intro hnil
  have hlength := TlvLib.length_readBlock (readBlock_wire b [])
  rw [hnil] at hlength
  exact Nat.lt_irrefl _ hlength

/-! ## The encoder -/

def prependVarNumber (n : Nat) : Prepend := prependByteArray (TlvLib.varNumber n)

def prependByteArrayBlock (type : Nat) (bytes : Wire) : Prepend := fun encoder =>
  let e := add (0, encoder) (prependByteArray bytes)
  let e := add e (prependVarNumber bytes.length)
  add e (prependVarNumber type)

def prependNonNegativeIntegerBlock (type : Nat) (n : UInt64) : Prepend :=
  prependByteArrayBlock type (TlvLib.numberValue n)

/-- `Name::wireEncode`: the block of the name. -/
def encodeName (name : Name) : Prepend :=
  prependByteArrayBlock nameType (TlvLib.nameValue name)

/-- A block whose value is written by a prepend of its own. -/
def prependNestedBlock (type : Nat) (wireEncode : Prepend) : Prepend := fun encoder =>
  let e := add (0, encoder) wireEncode
  let e := add e (prependVarNumber e.1)
  add e (prependVarNumber type)

theorem prepends_varNumber (n : Nat) : Prepends (prependVarNumber n) (TlvLib.varNumber n) :=
  fun _ => rfl

/-- The length and the type of a block whose value has been written. -/
theorem Written.header {encoder : Wire} {e : Nat × Wire} {w : Wire} (h : Written encoder e w)
    (type : Nat) :
    Written encoder (Tlv.add (Tlv.add e (prependVarNumber e.1)) (prependVarNumber type))
      (Block.wire { type, value := w }) := by
  have hlength : e.1 = w.length := congrArg Prod.fst h
  rw [hlength]
  exact (h.add (prepends_varNumber w.length)).add (prepends_varNumber type)

theorem prepends_byteArrayBlock (type : Nat) (bytes : Wire) :
    Prepends (prependByteArrayBlock type bytes) (Block.wire { type, value := bytes }) := by
  intro encoder
  have h := (written_nil encoder).add (prepends_byteArray bytes)
  rw [List.append_nil] at h
  exact (h.add (prepends_varNumber bytes.length)).add (prepends_varNumber type)

theorem prepends_nestedBlock (type : Nat) {f : Prepend} {w : Wire} (hf : Prepends f w) :
    Prepends (prependNestedBlock type f) (Block.wire { type, value := w }) := by
  intro encoder
  have h := (written_nil encoder).add hf
  rw [List.append_nil] at h
  exact h.header type

theorem Written.addAll {α : Type*} {encoder : Wire} {wireEncode : α → Prepend} {block : α → Block}
    (hf : ∀ a, Prepends (wireEncode a) (block a).wire) (l : List α) {e : Nat × Wire} {w : Wire}
    (h : Written encoder e w) :
    Written encoder (addAll wireEncode l e) (wires (l.map block) ++ w) := by
  unfold Tlv.addAll
  rw [List.foldl_reverse]
  induction l with
  | nil => exact h
  | cons a l ih =>
    have hcons : wires ((a :: l).map block) = (block a).wire ++ wires (l.map block) :=
      List.flatMap_cons
    rw [List.foldr_cons, hcons, List.append_assoc]
    exact ih.add (hf a)

/-! ## Numbers and names -/

/-- The block of a number. -/
def numberBlock (type : Nat) (n : UInt64) : Block where
  type := type
  value := TlvLib.numberValue n

@[simp] theorem numberBlock_type (type : Nat) (n : UInt64) : (numberBlock type n).type = type := rfl

theorem prepends_nonNegativeIntegerBlock (type : Nat) (n : UInt64) :
    Prepends (prependNonNegativeIntegerBlock type n) (numberBlock type n).wire :=
  prepends_byteArrayBlock type (TlvLib.numberValue n)

@[simp] theorem readNonNegativeInteger_numberBlock (type : Nat) (n : UInt64) :
    readNonNegativeInteger (numberBlock type n) = some n :=
  TlvLib.readNonNegativeInteger_value type n

/-- The block of a name. -/
def nameBlock (name : Name) : Block where
  type := nameType
  value := TlvLib.nameValue name

@[simp] theorem nameBlock_type (name : Name) : (nameBlock name).type = nameType := rfl

theorem prepends_encodeName (name : Name) : Prepends (encodeName name) (nameBlock name).wire :=
  prepends_byteArrayBlock nameType (TlvLib.nameValue name)

@[simp] theorem decodeName_nameBlock (name : Name) : decodeName (nameBlock name) = some name :=
  TlvLib.decodeName_value name

end

end Tlv

end LinkState
