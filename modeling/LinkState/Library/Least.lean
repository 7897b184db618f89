import Mathlib.Order.Bounds.Basic

/-!
# Least offers

A table that keeps the smallest value it was offered. `least_union_least`: keeping the least
of what came first and going on from there ends in the least of everything.
-/

namespace LinkState

variable {α : Type*} [LinearOrder α]

/-- Offers to the least of `s` are offers to `s`, when `s` has a least value or none at all. -/
theorem least_union_least {s t : Set α} (h : s.Nonempty → ∃ a, IsLeast s a) (c : α) :
    IsLeast ({a | IsLeast s a} ∪ t) c ↔ IsLeast (s ∪ t) c := by
  constructor
  · rintro ⟨hc, hmin⟩
    refine ⟨hc.imp_left fun h => h.1, ?_⟩
    rintro x (hx | hx)
    · obtain ⟨a, ha⟩ := h ⟨x, hx⟩
      exact (hmin (Or.inl ha)).trans (ha.2 hx)
    · exact hmin (Or.inr hx)
  · rintro ⟨hc, hmin⟩
    refine ⟨?_, fun x hx => hmin (hx.imp_left fun h => h.1)⟩
    rcases hc with hc | hc
    · exact Or.inl ⟨hc, fun x hx => hmin (Or.inl hx)⟩
    · exact Or.inr hc

/-- A set with at most one value has it as its least. -/
theorem isLeast_iff_of_subsingleton {s : Set α} (h : s.Subsingleton) (c : α) :
    IsLeast s c ↔ c ∈ s :=
  ⟨fun hc => hc.1, fun hc => ⟨hc, fun _ hx => (h hc hx).le⟩⟩

/-- A set inside two others that each have at most one value has a least if it is not
empty. -/
theorem exists_isLeast_of_subsingleton_union {s t : Set α} (hs : s.Subsingleton)
    (ht : t.Subsingleton) (h : (s ∪ t).Nonempty) : ∃ a, IsLeast (s ∪ t) a := by
  rcases s.eq_empty_or_nonempty with rfl | ⟨a, ha⟩
  · obtain ⟨b, hb⟩ := h
    exact ⟨b, hb, fun x hx => by
      simp only [Set.empty_union] at hb hx
      exact (ht hb hx).le⟩
  · rcases t.eq_empty_or_nonempty with rfl | ⟨b, hb⟩
    · refine ⟨a, Or.inl ha, ?_⟩
      rintro x (hx | hx)
      · exact (hs ha hx).le
      · exact absurd hx (Set.notMem_empty x)
    · rcases le_total a b with hab | hab
      · refine ⟨a, Or.inl ha, ?_⟩
        rintro x (hx | hx)
        · exact (hs ha hx).le
        · exact hab.trans (ht hb hx).le
      · refine ⟨b, Or.inr hb, ?_⟩
        rintro x (hx | hx)
        · exact hab.trans (hs ha hx).le
        · exact (ht hb hx).le

end LinkState
