import Mathlib.Data.List.Basic

/-!
# Protocol buffers on the wire

A message is a sequence of fields, each with a number and either an integer or a byte string.
An integer is written in groups of seven bits, the lowest first; all bytes but the last have
their high bit set. A byte string is written with its length in front.

What a reader gets is a list of fields. A field that comes several times counts as its last
occurrence, except that of an embedded message the occurrences are put together; fields the
reader does not know it passes over, and so it does with fields of fixed width and with groups.

A byte is a character below 256. Integers may be of any size.

* `decodeVarint_encodeVarint`, `parse_serialize`: what was written is read back.
-/

namespace LinkState.ProtocolBuffers

/-! ## Integers -/

/-- With `fuel` for each group of seven bits. -/
def encodeGroups : (fuel : Nat) → Nat → List Char
  | 0, n => [Char.ofNat (n % 128)]
  | fuel + 1, n =>
    if n < 128 then [Char.ofNat n]
    else Char.ofNat (n % 128 + 128) :: encodeGroups fuel (n / 128)

def encodeVarint (n : Nat) : List Char := encodeGroups n n

/-- The integer in front, and what comes after it. -/
def decodeVarint : List Char → Option (Nat × List Char)
  | [] => none
  | c :: cs =>
    if c.toNat < 128 then some (c.toNat, cs)
    else (decodeVarint cs).map fun r => (c.toNat - 128 + 128 * r.1, r.2)

theorem toNat_ofNat {n : Nat} (h : n < 256) : (Char.ofNat n).toNat = n := by
  have hvalid : n.isValidChar := Or.inl (by omega)
  rw [Char.ofNat, dif_pos hvalid]
  rfl

theorem decodeVarint_encodeGroups {fuel n : Nat} (h : n ≤ fuel) (rest : List Char) :
    decodeVarint (encodeGroups fuel n ++ rest) = some (n, rest) := by
  induction fuel generalizing n with
  | zero =>
    obtain rfl : n = 0 := Nat.le_zero.1 h
    rfl
  | succ fuel ih =>
    rw [encodeGroups]
    split_ifs with hlt
    · simp [decodeVarint, toNat_ofNat (by omega : n < 256), hlt]
    · have hbyte := toNat_ofNat (by omega : n % 128 + 128 < 256)
      have hsmall : ¬ n % 128 + 128 < 128 := by omega
      simp only [List.cons_append, decodeVarint, hbyte, hsmall, if_false,
        ih (by omega : n / 128 ≤ fuel), Option.map_some, Option.some.injEq, Prod.mk.injEq,
        and_true]
      omega

/-- **An integer is read back.** -/
theorem decodeVarint_encodeVarint (n : Nat) (rest : List Char) :
    decodeVarint (encodeVarint n ++ rest) = some (n, rest) :=
  decodeVarint_encodeGroups (Nat.le_refl n) rest

theorem encodeVarint_ne_nil (n : Nat) : encodeVarint n ≠ [] := by
  intro h
  have hread := decodeVarint_encodeVarint n []
  simp [h, decodeVarint] at hread

/-! ## Fields -/

inductive Field
  | varint (number value : Nat)
  | bytes (number : Nat) (content : List Char)
  deriving DecidableEq

/-- The key has the number and the wire type. -/
def Field.serialize : Field → List Char
  | .varint number value => encodeVarint (number * 8) ++ encodeVarint value
  | .bytes number content =>
    encodeVarint (number * 8 + 2) ++ encodeVarint content.length ++ content

def serialize (fields : List Field) : List Char := fields.flatMap Field.serialize

/-- What a message is made of. -/
inductive Item
  | field (field : Field)
  /-- A field of fixed width, which is passed over. -/
  | fixed
  | startGroup (number : Nat)
  | endGroup (number : Nat)

def readFixed (width : Nat) (cs : List Char) : Option (Item × List Char) :=
  if width ≤ cs.length then some (.fixed, cs.drop width) else none

/-- What follows a key. -/
def readValue (key : Nat) (cs : List Char) : Option (Item × List Char) :=
  match key % 8 with
  | 0 => (decodeVarint cs).map fun (n, rest) => (.field (.varint (key / 8) n), rest)
  | 1 => readFixed 8 cs
  | 2 => do
    let (n, rest) ← decodeVarint cs
    if n ≤ rest.length then some (.field (.bytes (key / 8) (rest.take n)), rest.drop n) else none
  | 3 => some (.startGroup (key / 8), cs)
  | 4 => some (.endGroup (key / 8), cs)
  | 5 => readFixed 4 cs
  | _ => none

/-- The item in front, and what comes after it. -/
def readItem (cs : List Char) : Option (Item × List Char) := do
  let (key, rest) ← decodeVarint cs
  readValue key rest

/-- Inside the `groups`, the innermost first, nothing is kept. With `fuel` for each item. -/
def parseItems : (fuel : Nat) → (groups : List Nat) → List Char → Option (List Field)
  | _, groups, [] => if groups = [] then some [] else none
  | 0, _, _ :: _ => none
  | fuel + 1, groups, c :: cs => do
    let (item, rest) ← readItem (c :: cs)
    match item, groups with
    | .field field, [] => (parseItems fuel [] rest).map (field :: ·)
    | .startGroup number, groups => parseItems fuel (number :: groups) rest
    | .endGroup number, group :: groups =>
      if number = group then parseItems fuel groups rest else none
    | .endGroup _, [] => none
    | _, groups => parseItems fuel groups rest

/-- An item takes at least a byte. -/
def parse (cs : List Char) : Option (List Field) := parseItems cs.length [] cs

theorem readItem_serialize (field : Field) (rest : List Char) :
    readItem (field.serialize ++ rest) = some (.field field, rest) := by
  cases field with
  | varint number value =>
    have hkey : number * 8 % 8 = 0 := by omega
    simp [readItem, readValue, Field.serialize, decodeVarint_encodeVarint, hkey]
  | bytes number content =>
    have htype : (number * 8 + 2) % 8 = 2 := by omega
    have hkey : (number * 8 + 2) / 8 = number := by omega
    simp [readItem, readValue, Field.serialize, decodeVarint_encodeVarint, hkey, htype]

theorem Field.serialize_ne_nil (field : Field) : field.serialize ≠ [] := by
  cases field <;> simp [Field.serialize, encodeVarint_ne_nil]

theorem length_le_serialize (fields : List Field) : fields.length ≤ (serialize fields).length := by
  induction fields with
  | nil => simp
  | cons field fields ih =>
    have hpos := List.length_pos_iff.2 field.serialize_ne_nil
    simp only [serialize, List.flatMap_cons, List.length_append, List.length_cons] at ih ⊢
    omega

theorem parseItems_serialize {fuel : Nat} {fields : List Field} (h : fields.length ≤ fuel) :
    parseItems fuel [] (serialize fields) = some fields := by
  induction fields generalizing fuel with
  | nil => cases fuel <;> rfl
  | cons field fields ih =>
    obtain ⟨fuel, rfl⟩ : ∃ m, fuel = m + 1 := ⟨fuel - 1, by simp at h; omega⟩
    have hread := readItem_serialize field (serialize fields)
    obtain ⟨c, cs, hcs⟩ := List.exists_cons_of_ne_nil (l := field.serialize ++ serialize fields)
      (by simp [field.serialize_ne_nil])
    show parseItems (fuel + 1) [] (field.serialize ++ serialize fields) = _
    rw [hcs] at hread ⊢
    simp [parseItems, hread, ih (Nat.le_of_succ_le_succ h)]

/-- **The fields are read back.** -/
theorem parse_serialize (fields : List Field) : parse (serialize fields) = some fields :=
  parseItems_serialize (length_le_serialize fields)

/-! ## What a reader gets -/

/-- The integers under a number, in order. -/
def varints (fields : List Field) (number : Nat) : List Nat :=
  fields.filterMap fun
    | .varint k value => if k = number then some value else none
    | .bytes _ _ => none

/-- The byte strings under a number, in order. -/
def contents (fields : List Field) (number : Nat) : List (List Char) :=
  fields.filterMap fun
    | .varint _ _ => none
    | .bytes k content => if k = number then some content else none

/-- An embedded message, from all its occurrences. -/
def embedded (fields : List Field) (number : Nat) : Option (List Char) :=
  if contents fields number = [] then none else some (contents fields number).flatten

end LinkState.ProtocolBuffers
