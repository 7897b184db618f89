import Mathlib.Data.List.Basic
import Mathlib.Tactic.Common

/-!
# Cutting a list into pieces

`chunks size l` cuts a list into pieces of `size` elements, the last one with what is left. There
is a last piece even when nothing is left, so an empty list has one empty piece, and a list whose
length is a multiple of the size ends with a full one.
-/

namespace LinkState

variable {α : Type*}

def chunks (size : Nat) (l : List α) : List (List α) :=
  if 0 < size ∧ size < l.length then l.take size :: chunks size (l.drop size) else [l]
termination_by l.length
decreasing_by
  rw [List.length_drop]
  omega

theorem chunks_of_lt {size : Nat} {l : List α} (hsize : 0 < size) (h : size < l.length) :
    chunks size l = l.take size :: chunks size (l.drop size) := by
  rw [chunks, if_pos ⟨hsize, h⟩]

theorem chunks_of_le {size : Nat} {l : List α} (h : l.length ≤ size) : chunks size l = [l] := by
  rw [chunks, if_neg fun hlt => absurd hlt.2 (Nat.not_lt.mpr h)]

theorem chunks_ne_nil (size : Nat) (l : List α) : chunks size l ≠ [] := by
  rw [chunks]
  split_ifs <;> exact List.cons_ne_nil _ _

/-- **Nothing is lost or moved.** -/
theorem flatten_chunks (size : Nat) (l : List α) : (chunks size l).flatten = l := by
  induction l using chunks.induct size with
  | case1 l h ih => rw [chunks_of_lt h.1 h.2, List.flatten_cons, ih, List.take_append_drop]
  | case2 l h => rw [chunks, if_neg h, List.flatten_singleton]

theorem length_le_of_mem_chunks {size : Nat} (hsize : 0 < size) {l piece : List α}
    (h : piece ∈ chunks size l) : piece.length ≤ size := by
  induction l using chunks.induct size with
  | case1 l hlt ih =>
    rw [chunks_of_lt hlt.1 hlt.2] at h
    rcases List.mem_cons.mp h with rfl | h
    · exact List.length_take_le size l
    · exact ih h
  | case2 l hle =>
    rw [chunks, if_neg hle] at h
    obtain rfl : piece = l := List.mem_singleton.mp h
    exact Nat.le_of_not_lt fun hlt => hle ⟨hsize, hlt⟩

end LinkState
