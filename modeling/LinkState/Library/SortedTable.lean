import LinkState.Library.KeyedList
import Mathlib.Order.Defs.LinearOrder

/-!
# Tables in the order of their keys

A `SortedTable key` is a keyed list whose keys ascend. It is the shape of a container with a
unique ordered index: whatever the order of the insertions, it is walked in the order of the
keys.

So a table is determined by its lookups (`ext_find?`). What is computed by a walk through a
table, such as a hash over its elements, depends on the lookups alone.
-/

namespace LinkState

variable {α κ : Type*} [LinearOrder κ]

/-- A list of elements with ascending keys. -/
structure SortedTable (key : α → κ) extends KeyedList key where
  sorted : toList.Pairwise fun a b => key a < key b

namespace SortedTable

variable {key : α → κ}

theorem nodup_of_sorted {l : List α} (h : l.Pairwise fun a b => key a < key b) :
    (l.map key).Nodup :=
  List.pairwise_map.2 (h.imp fun hab => hab.ne)

def ofSorted (l : List α) (h : l.Pairwise fun a b => key a < key b) : SortedTable key :=
  ⟨⟨l, nodup_of_sorted h⟩, h⟩

/-- The table with no element. -/
def empty : SortedTable key := ofSorted [] List.Pairwise.nil

instance : Inhabited (SortedTable key) := ⟨empty⟩

/-- Membership is membership in the underlying list. -/
instance : Membership α (SortedTable key) := ⟨fun t a => a ∈ t.toList⟩

theorem mem_def {t : SortedTable key} {a : α} : a ∈ t ↔ a ∈ t.toList := Iff.rfl

/-- The element with a key, if there is one. -/
def find? (t : SortedTable key) (k : κ) : Option α := t.toKeyedList.find? k

theorem find?_eq_some {t : SortedTable key} {k : κ} {a : α} :
    t.find? k = some a ↔ a ∈ t ∧ key a = k :=
  KeyedList.find?_eq_some

theorem find?_eq_none {t : SortedTable key} {k : κ} :
    t.find? k = none ↔ ∀ a ∈ t, key a ≠ k :=
  KeyedList.find?_eq_none

theorem find?_of_mem {t : SortedTable key} {a : α} (h : a ∈ t) : t.find? (key a) = some a :=
  find?_eq_some.2 ⟨h, rfl⟩

theorem mem_of_find? {t : SortedTable key} {k : κ} {a : α} (h : t.find? k = some a) : a ∈ t :=
  (find?_eq_some.1 h).1

theorem key_of_find? {t : SortedTable key} {k : κ} {a : α} (h : t.find? k = some a) :
    key a = k :=
  (find?_eq_some.1 h).2

@[simp] theorem find?_empty (k : κ) : (empty : SortedTable key).find? k = none := rfl

/-- **A table is determined by its lookups.** -/
theorem ext_find? {t t' : SortedTable key} (h : ∀ k, t.find? k = t'.find? k) : t = t' := by
  have hmem : ∀ a, a ∈ t.toList ↔ a ∈ t'.toList := by
    intro a
    constructor
    · exact fun ha => mem_of_find? ((h (key a)).symm.trans (find?_of_mem ha))
    · exact fun ha => mem_of_find? ((h (key a)).trans (find?_of_mem ha))
  have hperm : t.toList.Perm t'.toList :=
    (List.perm_ext_iff_of_nodup t.nodup.of_map t'.nodup.of_map).2 hmem
  have hlist : t.toList = t'.toList :=
    hperm.eq_of_pairwise (fun _ _ _ _ hab hba => absurd hba hab.not_gt) t.sorted t'.sorted
  cases t; cases t'
  congr
  exact KeyedList.ext hlist

theorem eq_empty_iff {t : SortedTable key} : t = empty ↔ t.toList = [] := by
  constructor
  · rintro rfl
    rfl
  · intro h
    refine ext_find? fun k => find?_eq_none.2 fun a ha => ?_
    rw [mem_def, h] at ha
    exact absurd ha List.not_mem_nil

/-! ## Putting an element in its place -/

/-- Put an element at its place in a sorted list, instead of any element with its key. -/
def put (key : α → κ) (a : α) : List α → List α
  | [] => [a]
  | b :: l =>
    if key b < key a then b :: put key a l
    else if key b = key a then a :: l
    else a :: b :: l

theorem mem_put {l : List α} (h : l.Pairwise fun a b => key a < key b) {a x : α} :
    x ∈ put key a l ↔ x = a ∨ x ∈ l ∧ key x ≠ key a := by
  induction l with
  | nil => simp [put]
  | cons b l ih =>
    obtain ⟨hb, hl⟩ := List.pairwise_cons.1 h
    rw [put]
    split_ifs with hlt heq
    · rw [List.mem_cons, List.mem_cons, ih hl]
      constructor
      · rintro (rfl | rfl | hx)
        · exact Or.inr ⟨Or.inl rfl, hlt.ne⟩
        · exact Or.inl rfl
        · exact Or.inr ⟨Or.inr hx.1, hx.2⟩
      · rintro (rfl | ⟨rfl | hx, hne⟩)
        · exact Or.inr (Or.inl rfl)
        · exact Or.inl rfl
        · exact Or.inr (Or.inr ⟨hx, hne⟩)
    · -- Everything behind the replaced element has a greater key
      have hgt : ∀ y ∈ l, key y ≠ key a := fun y hy => heq ▸ (hb y hy).ne'
      simp only [List.mem_cons]
      constructor
      · exact Or.imp_right fun hx => ⟨Or.inr hx, hgt x hx⟩
      · rintro (rfl | ⟨rfl | hx, hne⟩)
        · exact Or.inl rfl
        · exact absurd heq hne
        · exact Or.inr hx
    · have hle : key a < key b := lt_of_le_of_ne (not_lt.1 hlt) (Ne.symm heq)
      have hgt : ∀ y ∈ b :: l, key y ≠ key a := by
        intro y hy
        rcases List.mem_cons.1 hy with rfl | hy
        · exact heq
        · exact (hle.trans (hb y hy)).ne'
      rw [List.mem_cons]
      exact or_congr_right ⟨fun hx => ⟨hx, hgt x hx⟩, And.left⟩

theorem pairwise_put {l : List α} (h : l.Pairwise fun a b => key a < key b) (a : α) :
    (put key a l).Pairwise fun a b => key a < key b := by
  induction l with
  | nil => exact List.pairwise_singleton _ a
  | cons b l ih =>
    obtain ⟨hb, hl⟩ := List.pairwise_cons.1 h
    rw [put]
    split_ifs with hlt heq
    · refine List.pairwise_cons.2 ⟨fun x hx => ?_, ih hl⟩
      rcases (mem_put hl).1 hx with rfl | hx
      · exact hlt
      · exact hb x hx.1
    · exact List.pairwise_cons.2 ⟨fun x hx => heq ▸ hb x hx, hl⟩
    · have hle : key a < key b := lt_of_le_of_ne (not_lt.1 hlt) (Ne.symm heq)
      refine List.pairwise_cons.2 ⟨fun x hx => ?_, h⟩
      rcases List.mem_cons.1 hx with rfl | hx
      · exact hle
      · exact hle.trans (hb x hx)

/-- Put an element in, instead of any element with its key. -/
def set (t : SortedTable key) (a : α) : SortedTable key :=
  ofSorted (put key a t.toList) (pairwise_put t.sorted a)

theorem mem_set {t : SortedTable key} {a x : α} :
    x ∈ t.set a ↔ x = a ∨ x ∈ t ∧ key x ≠ key a :=
  mem_put t.sorted

theorem find?_set (t : SortedTable key) (a : α) (k : κ) :
    (t.set a).find? k = if k = key a then some a else t.find? k := by
  split_ifs with hk
  · subst hk
    exact find?_of_mem (mem_set.2 (Or.inl rfl))
  · ext x
    rw [find?_eq_some, find?_eq_some, mem_set]
    constructor
    · rintro ⟨rfl | hx, rfl⟩
      · exact absurd rfl hk
      · exact ⟨hx.1, rfl⟩
    · rintro ⟨hx, rfl⟩
      exact ⟨Or.inr ⟨hx, hk⟩, rfl⟩

/-! ## Taking an element out -/

/-- Take out the element with a key. -/
def erase (t : SortedTable key) (k : κ) : SortedTable key :=
  ofSorted (t.toList.filter fun a => key a ≠ k) (t.sorted.sublist List.filter_sublist)

theorem mem_erase {t : SortedTable key} {k : κ} {x : α} :
    x ∈ t.erase k ↔ x ∈ t ∧ key x ≠ k := by
  rw [mem_def, erase, ofSorted, List.mem_filter]
  simp [mem_def]

theorem find?_erase (t : SortedTable key) (k k' : κ) :
    (t.erase k).find? k' = if k' = k then none else t.find? k' := by
  split_ifs with hk
  · subst hk
    exact find?_eq_none.2 fun a ha => (mem_erase.1 ha).2
  · ext x
    rw [find?_eq_some, find?_eq_some, mem_erase]
    constructor
    · exact fun h => ⟨h.1.1, h.2⟩
    · rintro ⟨hx, rfl⟩
      exact ⟨⟨hx, hk⟩, rfl⟩

/-! ## Walks -/

/-- **A walk whose steps write under the keys of the elements** has in the end written at a key
what the element with this key writes there, since no other element does. -/
theorem look_foldl {σ β : Type*} (step : σ → α → σ) (look : σ → κ → β) (f : β → α → β)
    (h : ∀ s a k, look (step s a) k = if k = key a then f (look s k) a else look s k)
    (t : SortedTable key) (s : σ) (k : κ) :
    look (t.toList.foldl step s) k = (t.find? k).elim (look s k) (f (look s k)) := by
  obtain ⟨⟨l, hnodup⟩, hsorted⟩ := t
  show look (l.foldl step s) k = (l.find? fun a => key a = k).elim _ _
  clear hsorted
  induction l generalizing s with
  | nil => rfl
  | cons b l ih =>
    rw [List.map_cons, List.nodup_cons] at hnodup
    rw [List.foldl_cons, ih (step s b) hnodup.2, List.find?_cons, h s b k]
    by_cases hk : key b = k
    · -- Its key does not come again
      subst hk
      have hnone : (l.find? fun a => key a = key b) = none := by
        refine List.find?_eq_none.2 fun c hc heq => hnodup.1 ?_
        exact (of_decide_eq_true heq) ▸ List.mem_map_of_mem hc
      simp [hnone]
    · simp [hk, Ne.symm hk]

/-- **What a walk puts out.** If a step puts out something that depends on what it finds under
the key of the element, the walk puts out what depends on what was there at the start. -/
theorem out_foldl {σ β ω : Type*} (step : σ → α → σ) (look : σ → κ → β) (out : σ → List ω)
    (f : β → α → List ω) (hlook : ∀ s a k, k ≠ key a → look (step s a) k = look s k)
    (hout : ∀ s a, out (step s a) = out s ++ f (look s (key a)) a) (t : SortedTable key) (s : σ) :
    out (t.toList.foldl step s) = out s ++ t.toList.flatMap fun a => f (look s (key a)) a := by
  obtain ⟨⟨l, hnodup⟩, hsorted⟩ := t
  show out (l.foldl step s) = out s ++ l.flatMap _
  clear hsorted
  induction l generalizing s with
  | nil => simp
  | cons b l ih =>
    rw [List.map_cons, List.nodup_cons] at hnodup
    rw [List.foldl_cons, ih (step s b) hnodup.2, hout, List.flatMap_cons, List.append_assoc]
    congr 2
    -- The keys of the rest have not been touched
    refine List.flatMap_congr fun a ha => ?_
    rw [hlook s b (key a) fun heq => hnodup.1 (heq ▸ List.mem_map_of_mem ha)]

/-- What the element with a key contributes, if everything contributed can be told by key. -/
theorem filter_flatMap {γ : Type*} (f : α → List γ) (p : γ → κ) (h : ∀ a, ∀ c ∈ f a, p c = key a)
    (t : SortedTable key) (k : κ) :
    ((t.toList.flatMap f).filter fun c => p c = k) = (t.find? k).elim [] f := by
  have hself : ∀ a, key a = k → ((f a).filter fun c => p c = k) = f a := by
    intro a ha
    exact List.filter_eq_self.2 fun c hc => decide_eq_true ((h a c hc).trans ha)
  have hother : ∀ a, key a ≠ k → ((f a).filter fun c => p c = k) = [] := by
    intro a ha
    refine List.filter_eq_nil_iff.2 fun c hc heq => ha ?_
    rw [← h a c hc, of_decide_eq_true heq]
  obtain ⟨⟨l, hnodup⟩, hsorted⟩ := t
  show ((l.flatMap f).filter _) = (l.find? fun a => key a = k).elim [] f
  clear hsorted
  induction l with
  | nil => rfl
  | cons b l ih =>
    rw [List.map_cons, List.nodup_cons] at hnodup
    rw [List.flatMap_cons, List.filter_append, ih hnodup.2, List.find?_cons]
    by_cases hk : key b = k
    · have hnone : (l.find? fun a => key a = k) = none := by
        refine List.find?_eq_none.2 fun c hc heq => hnodup.1 ?_
        rw [hk, ← of_decide_eq_true heq]
        exact List.mem_map_of_mem hc
      simp [hk, hself b hk, hnone]
    · simp [hk, hother b hk]

end SortedTable

end LinkState
