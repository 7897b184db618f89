import Mathlib.Data.List.Range

/-!
# Counting loops

`loop lo hi body` is `for (i = lo; i < hi; i++)` over a state. `loop_induction` is its invariant
rule: the invariant may mention the counter, and holds at `hi` after the loop.
-/

namespace LinkState

variable {β : Type*}

/-- Run the body for each counter from `lo` up to, not including, `hi`. -/
def loop (lo hi : Nat) (body : Nat → β → β) (b : β) : β :=
  (List.range' lo (hi - lo)).foldl (fun b i => body i b) b

theorem loop_of_le {lo hi : Nat} (h : hi ≤ lo) (body : Nat → β → β) (b : β) :
    loop lo hi body b = b := by
  rw [loop, Nat.sub_eq_zero_of_le h]
  rfl

theorem loop_succ {lo hi : Nat} (h : lo < hi) (body : Nat → β → β) (b : β) :
    loop lo hi body b = loop (lo + 1) hi body (body lo b) := by
  have hk : hi - lo = (hi - (lo + 1)) + 1 := by omega
  rw [loop, loop, hk, List.range'_succ, List.foldl_cons]

/-- **The invariant rule of the loop.** -/
theorem loop_induction {k n : Nat} {f : Nat → β → β} {b : β} {P : Nat → β → Prop}
    (hle : k ≤ n) (hb : P k b) (hstep : ∀ i b, k ≤ i → i < n → P i b → P (i + 1) (f i b)) :
    P n (loop k n f b) := by
  obtain ⟨d, hd⟩ := Nat.exists_eq_add_of_le hle
  induction d generalizing k b with
  | zero =>
    obtain rfl : n = k := hd
    rwa [loop_of_le (Nat.le_refl n)]
  | succ d ih =>
    have hlt : k < n := by omega
    rw [loop_succ hlt]
    exact ih hlt (hstep k b (Nat.le_refl k) hlt hb)
      (fun i b hi hlt => hstep i b (by omega) hlt) (by omega)

/-- A property that every iteration keeps. -/
theorem loop_preserves {lo hi : Nat} {body : Nat → β → β} {b : β} {P : β → Prop} (hb : P b)
    (hstep : ∀ i b, lo ≤ i → i < hi → P b → P (body i b)) : P (loop lo hi body b) := by
  rcases Nat.le_total lo hi with h | h
  · exact loop_induction (P := fun _ => P) h hb hstep
  · rwa [loop_of_le h]

/-- A map that every iteration commutes with commutes with the loop. -/
theorem loop_hom {α : Type*} (h : α → β) {f : Nat → α → α} {g : Nat → β → β}
    (hstep : ∀ a i, g i (h a) = h (f i a)) (lo hi : Nat) (a : α) :
    loop lo hi g (h a) = h (loop lo hi f a) :=
  List.foldl_hom h hstep

end LinkState
