import LinkState.Name

/-!
# Digests

A digest is a byte string, 32 bytes of the hash function or the one zero byte that stands for
the empty state. On the network it is written in lower-case hexadecimal digits, and read with
digits of either case.

A sync Interest is named by a digest: `<sync prefix>/<digest>`, or
`<sync prefix>/recovery/<digest>` to ask for the whole state. `convertNameToDigestAndType_normal`
and `convertNameToDigestAndType_recovery`: who receives such a name reads the digest it was made
from.
-/

namespace LinkState.Sync

/-- Bytes, as one character per byte. -/
abbrev Bytes := List Char

/-- The buffer of a digest that is finalized. -/
abbrev Digest := Bytes

/-- A hash function with 32 bytes, SHA-256 in the code. What is added to a digest piece by piece
is hashed as one string. -/
structure HashFunction where
  hash : Bytes → Digest
  length_hash : ∀ m, (hash m).length = 32
  lt_of_mem_hash : ∀ m, ∀ c ∈ hash m, c.toNat < 256

/-- The digest of the empty state. -/
def zeroDigest : Digest := [Char.ofNat 0]

def Digest.isZero (d : Digest) : Bool := d = zeroDigest

theorem Digest.isZero_iff {d : Digest} : d.isZero ↔ d = zeroDigest := by
  simp [isZero]

/-- `Digest::getHash` does not throw: a digest other than zero has enough bytes for a `size_t`. -/
def Digest.hasHash (d : Digest) : Bool := d.isZero || 8 ≤ d.length

/-- What a digest is made of. -/
structure Digest.WellFormed (d : Digest) : Prop where
  ne_nil : d ≠ []
  lt_of_mem : ∀ c ∈ d, c.toNat < 256
  hasHash : d.hasHash

theorem wellFormed_zeroDigest : Digest.WellFormed zeroDigest where
  ne_nil := List.cons_ne_nil _ _
  lt_of_mem c hc := by
    obtain rfl := List.mem_singleton.1 hc
    decide
  hasHash := rfl

theorem HashFunction.wellFormed_hash (H : HashFunction) (m : Bytes) :
    Digest.WellFormed (H.hash m) where
  ne_nil h := by
    have hlength := H.length_hash m
    rw [h] at hlength
    exact absurd hlength (by decide)
  lt_of_mem := H.lt_of_mem_hash m
  hasHash := by simp [Digest.hasHash, H.length_hash]

theorem HashFunction.hash_ne_zeroDigest (H : HashFunction) (m : Bytes) :
    H.hash m ≠ zeroDigest := by
  intro h
  have hlength := H.length_hash m
  rw [h] at hlength
  exact absurd hlength (by decide)

theorem lt_of_mem_bigEndian {width n : Nat} {c : Char} (h : c ∈ Component.bigEndian width n) :
    c.toNat < 256 := by
  induction width generalizing n with
  | zero => simp [Component.bigEndian] at h
  | succ width ih =>
    simp only [Component.bigEndian, List.mem_append, List.mem_singleton] at h
    rcases h with h | rfl
    · exact ih h
    · rw [Component.toNat_ofNat_byte]
      exact Nat.mod_lt _ (by norm_num)

/-- The bytes as the digits of a number, cut to 32 bytes. -/
def checksumOf (m : Bytes) : Digest :=
  Component.bigEndian 32 (m.foldl (fun n c => n * 257 + c.toNat + 1) 0)

theorem length_checksumOf (m : Bytes) : (checksumOf m).length = 32 :=
  Component.length_bigEndian 32 _

/-- A hash function to compute with. -/
def checksum : HashFunction where
  hash := checksumOf
  length_hash := length_checksumOf
  lt_of_mem_hash _ _ := lt_of_mem_bigEndian

/-! ## Hexadecimal digits -/

/-- `hex_from_4_bit`. -/
def hexDigit (n : Nat) : Char := "0123456789abcdef".toList.getD n '0'

/-- `hex_to_4_bit`; `none` where it throws. -/
def hexValue (c : Char) : Option Nat :=
  if '0' ≤ c ∧ c ≤ '9' then some (c.toNat - 48)
  else if 'A' ≤ c ∧ c ≤ 'F' then some (c.toNat - 55)
  else if 'a' ≤ c ∧ c ≤ 'f' then some (c.toNat - 87)
  else none

/-- Two digits for each byte, the high one first. -/
def Digest.toHex (d : Digest) : List Char :=
  d.flatMap fun c => [hexDigit (c.toNat / 16), hexDigit (c.toNat % 16)]

/-- Two digits make a byte. In place of a missing one the end of the string is read, which is no
digit. -/
def readHex : List Char → Option Digest
  | [] => some []
  | [_] => none
  | a :: b :: cs => do
    let high ← hexValue a
    let low ← hexValue b
    return Char.ofNat (high * 16 + low) :: (← readHex cs)

/-- `operator>>`; `none` where it throws. -/
def Digest.ofHex (str : List Char) : Option Digest := if str = [] then none else readHex str

theorem hexValue_hexDigit {n : Nat} (h : n < 16) : hexValue (hexDigit n) = some n := by
  have hall : ∀ n : Fin 16, hexValue (hexDigit n) = some n.val := by decide
  exact hall ⟨n, h⟩

theorem readHex_toHex {d : Digest} (h : ∀ c ∈ d, c.toNat < 256) : readHex d.toHex = some d := by
  induction d with
  | nil => rfl
  | cons c d ih =>
    have hc : c.toNat < 256 := h c List.mem_cons_self
    have hhigh : hexValue (hexDigit (c.toNat / 16)) = some (c.toNat / 16) :=
      hexValue_hexDigit (by omega)
    have hlow : hexValue (hexDigit (c.toNat % 16)) = some (c.toNat % 16) :=
      hexValue_hexDigit (by omega)
    have hbyte : Char.ofNat (c.toNat / 16 * 16 + c.toNat % 16) = c := by
      rw [show c.toNat / 16 * 16 + c.toNat % 16 = c.toNat by omega, Char.ofNat_toNat]
    show readHex (_ :: _ :: Digest.toHex d) = _
    rw [readHex, hhigh, hlow, ih fun x hx => h x (List.mem_cons_of_mem _ hx)]
    simp [hbyte]

/-- **A digest is read back from its digits.** -/
theorem ofHex_toHex {d : Digest} (h : d.WellFormed) : Digest.ofHex d.toHex = some d := by
  have hne : d.toHex ≠ [] := by
    obtain ⟨c, d', rfl⟩ := List.exists_cons_of_ne_nil h.ne_nil
    exact List.cons_ne_nil _ _
  rw [Digest.ofHex, if_neg hne, readHex_toHex h.lt_of_mem]

/-! ## Names -/

/-- What follows the sync prefix in a name. No other names are handed to the protocol. -/
structure SyncName where
  interestType : Option Component := none
  hash : Component
  deriving DecidableEq

def Digest.component (d : Digest) : Component := ⟨String.ofList d.toHex⟩

/-- `<sync prefix>/<digest>` -/
def normalName (d : Digest) : SyncName where
  hash := d.component

/-- `<sync prefix>/recovery/<digest>` -/
def recoveryName (d : Digest) : SyncName where
  interestType := some ⟨"recovery"⟩
  hash := d.component

/-- `none` where it throws. A component that is not all digits is none either when it is written
as part of a URI. -/
def convertNameToDigestAndType (name : SyncName) : Option (Digest × String) := do
  let digest ← Digest.ofHex name.hash.value.toList
  return (digest, name.interestType.elim "normal" Component.value)

theorem ofHex_component {d : Digest} (h : d.WellFormed) :
    Digest.ofHex d.component.value.toList = some d := by
  rw [Digest.component, String.toList_ofList, ofHex_toHex h]

/-- **A sync Interest is read as the digest it was made from.** -/
theorem convertNameToDigestAndType_normal {d : Digest} (h : d.WellFormed) :
    convertNameToDigestAndType (normalName d) = some (d, "normal") := by
  rw [convertNameToDigestAndType, normalName, ofHex_component h]
  rfl

theorem convertNameToDigestAndType_recovery {d : Digest} (h : d.WellFormed) :
    convertNameToDigestAndType (recoveryName d) = some (d, "recovery") := by
  rw [convertNameToDigestAndType, recoveryName, ofHex_component h]
  rfl

theorem isSome_normalName {d : Digest} (h : d.WellFormed) :
    (convertNameToDigestAndType (normalName d)).isSome := by
  simp [convertNameToDigestAndType_normal h]

theorem isSome_recoveryName {d : Digest} (h : d.WellFormed) :
    (convertNameToDigestAndType (recoveryName d)).isSome := by
  simp [convertNameToDigestAndType_recovery h]

end LinkState.Sync
