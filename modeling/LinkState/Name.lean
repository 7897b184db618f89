import Mathlib.Data.Prod.Lex
import Mathlib.Data.List.Lex
import Mathlib.Data.String.Basic
import Mathlib.Tactic.NormNum

/-!
# Names

A name is a list of components, a component a byte string. Byte strings are Lean strings with
one character per byte, so the order of strings is the order of bytes.

* Components compare in the canonical order: the shorter one first, then byte by byte. Names
  compare component by component, a proper prefix first. This is the order `Name::operator<`
  gives to `sort` and `set_difference`.
* `Component.fromNumber` and `Component.toNumber` are the non-negative integer encoding of the
  packet format, big-endian in 1, 2, 4 or 8 bytes. `toNumber_fromNumber` is their round trip.
* `getNameComponentPosition` is `util::getNameComponentPosition`.
-/

namespace LinkState

/-- A name component. -/
structure Component where
  value : String
  deriving DecidableEq

namespace Component

/-- The canonical order: by length, then byte by byte. -/
instance : LinearOrder Component :=
  LinearOrder.lift' (fun c => toLex (c.value.length, c.value)) fun a b h => by
    have h' := congrArg (fun p => (ofLex p).2) h
    cases a; cases b; simpa using h'

instance : Coe String Component := ⟨Component.mk⟩

/-! ## Numbers in components -/

/-- The `width` low bytes of a number, the most significant first. -/
def bigEndian : (width n : Nat) → List Char
  | 0, _ => []
  | w + 1, n => bigEndian w (n / 256) ++ [Char.ofNat (n % 256)]

/-- The number a byte string stands for, the most significant byte first. -/
def ofBigEndian (bytes : List Char) : Nat := bytes.foldl (fun n c => n * 256 + c.toNat) 0

/-- `Component::fromNumber`: the shortest of the four widths that holds the number. -/
def fromNumber (n : UInt64) : Component :=
  let width := if n.toNat < 256 then 1 else if n.toNat < 256 ^ 2 then 2
    else if n.toNat < 256 ^ 4 then 4 else 8
  ⟨String.ofList (bigEndian width n.toNat)⟩

/-- `Component::toNumber`; `none` where it throws, on any other length. -/
def toNumber (c : Component) : Option UInt64 :=
  if c.value.length ∈ [1, 2, 4, 8] then
    some (UInt64.ofNat (ofBigEndian c.value.toList))
  else none

theorem length_bigEndian (w n : Nat) : (bigEndian w n).length = w := by
  induction w generalizing n with
  | zero => rfl
  | succ w ih => rw [bigEndian, List.length_append, ih]; rfl

theorem toNat_ofNat_byte (n : Nat) : (Char.ofNat (n % 256)).toNat = n % 256 := by
  have h : n % 256 < 256 := Nat.mod_lt n (by norm_num)
  have hv : (n % 256).isValidChar := Or.inl (by omega)
  rw [Char.ofNat, dif_pos hv]
  rfl

theorem ofBigEndian_bigEndian {w n : Nat} (h : n < 256 ^ w) :
    ofBigEndian (bigEndian w n) = n := by
  induction w generalizing n with
  | zero => simp_all [bigEndian, ofBigEndian]
  | succ w ih =>
    have hdiv : n / 256 < 256 ^ w := Nat.div_lt_of_lt_mul (by rw [pow_succ] at h; omega)
    have hih := ih hdiv
    rw [ofBigEndian] at hih ⊢
    rw [bigEndian, List.foldl_append, hih, List.foldl_cons, List.foldl_nil, toNat_ofNat_byte]
    omega

/-- **A number survives the trip through a name component.** -/
theorem toNumber_fromNumber (n : UInt64) : (fromNumber n).toNumber = some n := by
  have hlt : n.toNat < 256 ^ 8 := by have := n.toNat_lt; norm_num; omega
  have key : ∀ w ∈ [1, 2, 4, 8], n.toNat < 256 ^ w →
      toNumber ⟨String.ofList (bigEndian w n.toNat)⟩ = some n := by
    intro w hw hn
    have hlen : (String.ofList (bigEndian w n.toNat)).length = w := by
      rw [String.length_ofList, length_bigEndian]
    rw [toNumber, if_pos (by rw [hlen]; exact hw), String.toList_ofList,
      ofBigEndian_bigEndian hn, UInt64.ofNat_toNat]
  unfold fromNumber
  dsimp only
  split_ifs with h1 h2 h4
  · exact key 1 (by simp) (by simpa using h1)
  · exact key 2 (by simp) h2
  · exact key 4 (by simp) h4
  · exact key 8 (by simp) hlt

end Component

/-- A name: a list of components. -/
abbrev Name := List Component

/-- Position of the first component equal to the searched one; `none` stands for -1. -/
def getNameComponentPosition (name : Name) (searchString : String) : Option Nat :=
  name.findIdx? fun c => c = Component.mk searchString

/-- `Name::getSubName`: `nComponents` components from `iStart` on. -/
def getSubName (name : Name) (iStart nComponents : Nat) : Name :=
  (name.drop iStart).take nComponents

/-- `name[-i]`, the `i`-th component from the end. -/
def fromEnd (name : Name) (i : Nat) : Option Component := name.reverse[i - 1]?

theorem getNameComponentPosition_append {p q : Name} {s : String}
    (h : Component.mk s ∉ p) :
    getNameComponentPosition (p ++ Component.mk s :: q) s = some p.length := by
  rw [getNameComponentPosition, List.findIdx?_append, List.findIdx?_eq_none_iff.2]
  · simp [List.findIdx?_cons]
  · intro c hc
    have hne : c ≠ Component.mk s := fun he => h (he ▸ hc)
    simpa using hne

end LinkState
