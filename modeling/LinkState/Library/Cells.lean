import LinkState.Library.Fallible
import Mathlib.Logic.Function.Basic

/-!
# Arrays whose accesses are checked

`Cells` is what the allocation of an array gives: a number of cells that have no value until they
are written. Every access is checked, so a program that reads or writes outside of an array, or
reads a cell that was never written, ends with a `Fault`.

* `Holds n p f`: the array has `n` cells, and those in `p` have been written; `f` is what they hold.
* `Filled n l`: the cells have been written one after the other, and hold the values of `l`.

Cells that hold arrays are rows: `readAt`, `writeAt` and `HoldsRows` are for the cells of these.
-/

namespace LinkState

/-- Why a program stops. -/
inductive Fault
  | outOfRange
  | notWritten
  /-- A loop has not ended in the turns it was given. -/
  | endless
  deriving DecidableEq

structure Cells (α : Type) where
  cells : Array (Option α)

namespace Cells

variable {α : Type}

/-- Cells that have not been written. -/
def alloc (n : Nat) : Cells α := ⟨Array.replicate n none⟩

def size (b : Cells α) : Nat := b.cells.size

def read (b : Cells α) (i : Int) : Except Fault α :=
  if 0 ≤ i ∧ i < b.size then orError b.cells[i.toNat]?.join .notWritten else .error .outOfRange

def write (b : Cells α) (i : Int) (a : α) : Except Fault (Cells α) :=
  if 0 ≤ i ∧ i < b.size then .ok ⟨b.cells.setIfInBounds i.toNat (some a)⟩ else .error .outOfRange

@[simp] theorem size_alloc (n : Nat) : (alloc n : Cells α).size = n := Array.size_replicate

theorem inRange {b : Cells α} {i : Nat} (h : i < b.size) : (0 : Int) ≤ i ∧ (i : Int) < b.size :=
  ⟨Int.natCast_nonneg i, Int.ofNat_lt.2 h⟩

theorem read_of_some {b : Cells α} {i : Nat} {a : α} (h : b.cells[i]? = some (some a)) :
    b.read i = .ok a := by
  obtain ⟨hi, -⟩ := Array.getElem?_eq_some_iff.1 h
  rw [read, if_pos (inRange hi), Int.toNat_natCast, h]
  rfl

theorem write_of_lt {b : Cells α} {i : Nat} (h : i < b.size) (a : α) :
    b.write i a = .ok ⟨b.cells.setIfInBounds i (some a)⟩ := by
  rw [write, if_pos (inRange h), Int.toNat_natCast]

theorem getElem?_setIfInBounds {b : Cells α} {i : Nat} (h : i < b.size) (a : α) (k : Nat) :
    (b.cells.setIfInBounds i (some a))[k]? = if k = i then some (some a) else b.cells[k]? := by
  rw [Array.getElem?_setIfInBounds]
  by_cases hik : i = k
  · subst hik
    rw [if_pos rfl, if_pos rfl]
    exact if_pos h
  · rw [if_neg hik, if_neg (Ne.symm hik)]

/-! ## What an array holds -/

/-- The array has `n` cells, and those in `p` hold the values of `f`. -/
structure Holds (b : Cells α) (n : Nat) (p : Nat → Prop) (f : Nat → α) : Prop where
  size : b.size = n
  cell : ∀ i, i < n → p i → b.cells[i]? = some (some (f i))

variable {b : Cells α} {n : Nat} {p q : Nat → Prop} {f g : Nat → α}

theorem holds_alloc (n : Nat) (f : Nat → α) : (alloc n).Holds n (fun _ => False) f :=
  ⟨size_alloc n, fun _ _ => False.elim⟩

/-- Before the first cell is written. -/
theorem holds_zero (h : b.size = n) (f : Nat → α) : b.Holds n (· < 0) f :=
  ⟨h, fun _ _ hi => absurd hi (Nat.not_lt_zero _)⟩

theorem Holds.congr (h : b.Holds n p f) (hpq : ∀ i, i < n → q i → p i ∧ f i = g i) :
    b.Holds n q g where
  size := h.size
  cell i hi hq := by
    obtain ⟨hp, heq⟩ := hpq i hi hq
    rw [← heq]
    exact h.cell i hi hp

theorem Holds.read (h : b.Holds n p f) {i : Nat} (hi : i < n) (hp : p i) :
    Runs (b.read i) (· = f i) :=
  ⟨f i, read_of_some (h.cell i hi hp), rfl⟩

theorem Holds.write (h : b.Holds n p f) {i : Nat} (hi : i < n) (a : α) :
    Runs (b.write i a) (Holds · n (fun k => k = i ∨ p k) (Function.update f i a)) := by
  have hlt : i < b.size := h.size.symm ▸ hi
  refine ⟨_, write_of_lt hlt a, ?_, fun k hk hp => ?_⟩
  · exact (Array.size_setIfInBounds).trans h.size
  · rw [getElem?_setIfInBounds hlt]
    by_cases hki : k = i
    · subst hki
      rw [if_pos rfl, Function.update_self]
    · rw [if_neg hki, Function.update_of_ne hki]
      exact h.cell k hk (hp.resolve_left hki)

/-- The cells are written in order. -/
theorem Holds.write_next {i : Nat} (h : b.Holds n (· < i) f) (hi : i < n) :
    Runs (b.write i (f i)) (Holds · n (· < i + 1) f) := by
  refine (h.write hi (f i)).imp fun b' hb' => hb'.congr fun k _ hk => ⟨by omega, ?_⟩
  rw [Function.update_eq_self]

/-- The cells are written one after the other; the first ones hold the values of `l`. -/
def Filled (b : Cells α) (n : Nat) (l : List α) : Prop :=
  b.cells.toList = l.map some ++ List.replicate (n - l.length) none

theorem filled_alloc (n : Nat) : (alloc n : Cells α).Filled n [] := Array.toList_replicate

theorem Filled.read {l : List α} (h : b.Filled n l) {i : Nat} (hi : i < l.length) :
    Runs (b.read i) (· = l[i]) := by
  refine ⟨l[i], read_of_some ?_, rfl⟩
  rw [← Array.getElem?_toList, h, List.getElem?_append_left (by simpa using hi), List.getElem?_map,
    List.getElem?_eq_getElem hi]
  rfl

theorem Filled.write {l : List α} (h : b.Filled n l) (hlt : l.length < n) (a : α) :
    Runs (b.write l.length a) (Filled · n (l ++ [a])) := by
  have hsize : l.length < b.size := by
    rw [size, ← Array.length_toList, h]
    simp
    omega
  refine ⟨_, write_of_lt hsize a, ?_⟩
  have hrest : n - l.length = (n - (l ++ [a]).length) + 1 := by simp; omega
  show (b.cells.setIfInBounds l.length (some a)).toList = _
  rw [Array.toList_setIfInBounds, h, List.set_append_right _ _ (by simp), hrest,
    List.replicate_succ]
  simp

/-- All cells have been written. -/
theorem Filled.toList_cells {l : List α} (h : b.Filled n l) (hn : l.length = n) :
    b.cells.toList = l.map some := by
  rw [h, hn, Nat.sub_self, List.replicate_zero, List.append_nil]

/-! ## Rows -/

def readAt (b : Cells (Cells α)) (i j : Int) : Except Fault α := do
  let row ← b.read i
  row.read j

/-- The row is changed in place. -/
def writeAt (b : Cells (Cells α)) (i j : Int) (a : α) : Except Fault (Cells (Cells α)) := do
  let row ← b.read i
  let row ← row.write j a
  b.write i row

/-- `n` rows of `n` cells; those in `p` hold the values of `m`. -/
structure HoldsRows (b : Cells (Cells α)) (n : Nat) (p : Nat → Nat → Prop) (m : Nat → Nat → α) :
    Prop where
  size : b.size = n
  row : ∀ i, i < n → ∃ r, b.cells[i]? = some (some r) ∧ r.Holds n (p i) (m i)

variable {b : Cells (Cells α)} {p q : Nat → Nat → Prop} {m m' : Nat → Nat → α}

theorem HoldsRows.congr (h : b.HoldsRows n p m)
    (hpq : ∀ i j, i < n → j < n → q i j → p i j ∧ m i j = m' i j) : b.HoldsRows n q m' where
  size := h.size
  row i hi := by
    obtain ⟨r, hr, hholds⟩ := h.row i hi
    exact ⟨r, hr, hholds.congr fun j hj => hpq i j hi hj⟩

theorem HoldsRows.readAt (h : b.HoldsRows n p m) {i j : Nat} (hi : i < n) (hj : j < n)
    (hp : p i j) : Runs (b.readAt i j) (· = m i j) := by
  obtain ⟨r, hr, hholds⟩ := h.row i hi
  rw [Cells.readAt, read_of_some hr]
  exact hholds.read hj hp

theorem HoldsRows.writeAt (h : b.HoldsRows n p m) {i j : Nat} (hi : i < n) (hj : j < n) (a : α) :
    Runs (b.writeAt i j a) (HoldsRows · n (fun r c => r = i ∧ c = j ∨ p r c)
      fun r c => if r = i ∧ c = j then a else m r c) := by
  obtain ⟨r, hr, hholds⟩ := h.row i hi
  rw [Cells.writeAt, read_of_some hr]
  refine (hholds.write hj a).bind fun r' hr' => ?_
  have hlt : i < b.size := h.size.symm ▸ hi
  refine ⟨_, write_of_lt hlt r', Array.size_setIfInBounds.trans h.size, fun k hk => ?_⟩
  rw [getElem?_setIfInBounds hlt]
  by_cases hki : k = i
  · subst hki
    rw [if_pos rfl]
    refine ⟨r', rfl, hr'.congr fun c hc hp => ⟨?_, ?_⟩⟩
    · exact hp.imp_left And.right
    · by_cases hcj : c = j
      · subst hcj; simp
      · simp [hcj]
  · obtain ⟨r'', hr'', hholds''⟩ := h.row k hk
    rw [if_neg hki]
    refine ⟨r'', hr'', hholds''.congr fun c hc hp => ⟨?_, ?_⟩⟩
    · exact hp.resolve_left fun heq => hki heq.1
    · rw [if_neg fun heq => hki heq.1]

end Cells

end LinkState
