import Mathlib.Data.List.Sort
import Mathlib.Data.List.Nodup

/-!
# Lists with at most one element per key

A `KeyedList key` is a list whose elements have pairwise different keys. It is the shape of a
table kept as a sequential container and searched by key: every insertion is guarded by a
search, so a key occurs once, and the order is the order of insertion.

The uniqueness is a field, so a table with a repeated key cannot be built and no later proof
has to carry it. Seen from outside a keyed list is the partial map `find?`; the lemmas
`find?_insert`, `find?_replace`, `find?_erase`, `find?_sort` say how each operation acts on it.
-/

namespace LinkState

variable {α κ : Type*}

/-- A list whose elements have pairwise different keys. -/
structure KeyedList (key : α → κ) where
  toList : List α
  nodup : (toList.map key).Nodup

namespace KeyedList

variable {key : α → κ}

@[ext] theorem ext {l₁ l₂ : KeyedList key} (h : l₁.toList = l₂.toList) : l₁ = l₂ := by
  cases l₁; cases l₂; simp_all

instance [DecidableEq α] : DecidableEq (KeyedList key) := fun l₁ l₂ =>
  decidable_of_iff (l₁.toList = l₂.toList) ⟨ext, fun h => h ▸ rfl⟩

/-- The table with no element. -/
def empty : KeyedList key := ⟨[], List.nodup_nil⟩

instance : Inhabited (KeyedList key) := ⟨empty⟩

/-- Membership is membership in the underlying list. -/
instance : Membership α (KeyedList key) := ⟨fun l a => a ∈ l.toList⟩

theorem mem_def {l : KeyedList key} {a : α} : a ∈ l ↔ a ∈ l.toList := Iff.rfl

@[simp] theorem not_mem_empty (a : α) : a ∉ (empty : KeyedList key) := List.not_mem_nil

instance (l : KeyedList key) (p : α → Prop) [DecidablePred p] : Decidable (∀ a ∈ l, p a) :=
  inferInstanceAs (Decidable (∀ a ∈ l.toList, p a))

instance (l : KeyedList key) (p : α → Prop) [DecidablePred p] : Decidable (∃ a ∈ l, p a) :=
  inferInstanceAs (Decidable (∃ a ∈ l.toList, p a))

/-- The number of elements. -/
def size (l : KeyedList key) : Nat := l.toList.length

/-- Two elements with the same key are the same element. -/
theorem eq_of_key_eq {l : KeyedList key} {a b : α} (ha : a ∈ l) (hb : b ∈ l)
    (h : key a = key b) : a = b :=
  List.inj_on_of_nodup_map l.nodup ha hb h

/-- Lists with the same elements have the same number of them. -/
theorem size_congr {l₁ l₂ : KeyedList key} (h : ∀ a, a ∈ l₁ ↔ a ∈ l₂) : l₁.size = l₂.size :=
  ((List.perm_ext_iff_of_nodup l₁.nodup.of_map l₂.nodup.of_map).2 h).length_eq

/-- A list whose elements are all the same has one. -/
theorem toList_eq_singleton {l : KeyedList key} {a : α} (ha : a ∈ l) (h : ∀ b ∈ l, b = a) :
    l.toList = [a] := by
  have hrep : l.toList = List.replicate l.toList.length a := List.eq_replicate_of_mem h
  have hle : l.toList.length ≤ 1 := by
    have hnodup := l.nodup.of_map
    rw [hrep, List.nodup_replicate] at hnodup
    exact hnodup
  have hpos : 0 < l.toList.length := List.length_pos_of_mem ha
  rw [hrep, show l.toList.length = 1 by omega, List.replicate_one]

/-- Sort by a comparison. Insertion sort is stable, as `std::list::sort` is. -/
def sort (le : α → α → Prop) [DecidableRel le] (l : KeyedList key) : KeyedList key :=
  ⟨l.toList.insertionSort le,
    ((List.perm_insertionSort le l.toList).map key).nodup_iff.2 l.nodup⟩

@[simp] theorem mem_sort {le : α → α → Prop} [DecidableRel le] {l : KeyedList key} {a : α} :
    a ∈ l.sort le ↔ a ∈ l :=
  List.mem_insertionSort le

@[simp] theorem size_sort {le : α → α → Prop} [DecidableRel le] (l : KeyedList key) :
    (l.sort le).size = l.size :=
  List.length_insertionSort le l.toList

/-- Apply to every element a function that keeps its key. -/
def mapValues (f : α → α) (hf : ∀ a, key (f a) = key a) (l : KeyedList key) : KeyedList key :=
  ⟨l.toList.map f, by
    have h : (l.toList.map f).map key = l.toList.map key := by simp [hf]
    rw [h]; exact l.nodup⟩

theorem mem_mapValues {f : α → α} {hf : ∀ a, key (f a) = key a} {l : KeyedList key} {b : α} :
    b ∈ l.mapValues f hf ↔ ∃ a ∈ l, f a = b :=
  List.mem_map

/-- Keep the elements that pass a test. -/
def filter (p : α → Bool) (l : KeyedList key) : KeyedList key :=
  ⟨l.toList.filter p, l.nodup.sublist (List.filter_sublist.map key)⟩

@[simp] theorem mem_filter {p : α → Bool} {l : KeyedList key} {a : α} :
    a ∈ l.filter p ↔ a ∈ l ∧ p a = true :=
  List.mem_filter

variable [DecidableEq κ]

/-- The element with a key, if there is one. -/
def find? (l : KeyedList key) (k : κ) : Option α := l.toList.find? fun a => key a = k

/-- Is there an element with this key? -/
def contains (l : KeyedList key) (k : κ) : Bool := (l.find? k).isSome

theorem find?_eq_some {l : KeyedList key} {k : κ} {a : α} :
    l.find? k = some a ↔ a ∈ l ∧ key a = k := by
  constructor
  · intro h
    exact ⟨List.mem_of_find?_eq_some h, by simpa using List.find?_some h⟩
  · rintro ⟨ha, rfl⟩
    cases h : l.find? (key a) with
    | none => exact absurd (List.find?_eq_none.1 h a ha) (by simp)
    | some b =>
      have hb : b ∈ l := List.mem_of_find?_eq_some h
      have hk : key b = key a := by simpa using List.find?_some h
      rw [eq_of_key_eq hb ha hk]

theorem find?_of_mem {l : KeyedList key} {a : α} (h : a ∈ l) : l.find? (key a) = some a :=
  find?_eq_some.2 ⟨h, rfl⟩

theorem mem_of_find? {l : KeyedList key} {k : κ} {a : α} (h : l.find? k = some a) : a ∈ l :=
  (find?_eq_some.1 h).1

theorem key_of_find? {l : KeyedList key} {k : κ} {a : α} (h : l.find? k = some a) :
    key a = k :=
  (find?_eq_some.1 h).2

theorem find?_eq_none {l : KeyedList key} {k : κ} :
    l.find? k = none ↔ ∀ a ∈ l, key a ≠ k := by
  simp [find?, mem_def]

theorem find?_isSome {l : KeyedList key} {k : κ} :
    (l.find? k).isSome ↔ ∃ a ∈ l, key a = k := by
  simp [find?, mem_def]

@[simp] theorem find?_empty (k : κ) : (empty : KeyedList key).find? k = none := rfl

theorem find?_congr {l₁ l₂ : KeyedList key} (h : ∀ a, a ∈ l₁ ↔ a ∈ l₂) (k : κ) :
    l₁.find? k = l₂.find? k := by
  ext a
  simp only [find?_eq_some, h]

@[simp] theorem find?_sort {le : α → α → Prop} [DecidableRel le] (l : KeyedList key) (k : κ) :
    (l.sort le).find? k = l.find? k :=
  find?_congr (fun _ => mem_sort) k

@[simp] theorem find?_mapValues {f : α → α} {hf : ∀ a, key (f a) = key a}
    (l : KeyedList key) (k : κ) : (l.mapValues f hf).find? k = (l.find? k).map f := by
  have hcomp : ((fun a => decide (key a = k)) ∘ f) = fun a => decide (key a = k) := by
    funext a
    exact congrArg (fun x => decide (x = k)) (hf a)
  rw [find?, mapValues, List.find?_map, hcomp, find?]

/-! ## Insertion -/

/-- Append an element unless its key is already there. -/
def insert (l : KeyedList key) (a : α) : KeyedList key :=
  if h : l.find? (key a) = none then
    ⟨l.toList ++ [a], by
      rw [List.map_append, List.map_singleton]
      refine l.nodup.append (List.nodup_singleton _) ?_
      simpa [find?_eq_none, mem_def] using h⟩
  else l

theorem toList_insert_of_none {l : KeyedList key} {a : α} (h : l.find? (key a) = none) :
    (l.insert a).toList = l.toList ++ [a] := by
  rw [insert, dif_pos h]

theorem insert_of_ne_none {l : KeyedList key} {a : α} (h : l.find? (key a) ≠ none) :
    l.insert a = l := by
  rw [insert, dif_neg h]

theorem mem_insert {l : KeyedList key} {a b : α} :
    b ∈ l.insert a ↔ b ∈ l ∨ (b = a ∧ l.find? (key a) = none) := by
  by_cases h : l.find? (key a) = none
  · simp [mem_def, toList_insert_of_none h, h]
  · simp [insert_of_ne_none h, h]

theorem find?_insert (l : KeyedList key) (a : α) (k : κ) :
    (l.insert a).find? k =
      if k = key a ∧ l.find? (key a) = none then some a else l.find? k := by
  by_cases h : l.find? (key a) = none
  · have happ : (l.insert a).find? k = (l.find? k).or (if key a = k then some a else none) := by
      simp only [find?, toList_insert_of_none h, List.find?_append]
      by_cases hk : key a = k <;> simp [hk]
    rw [happ]
    by_cases hk : k = key a
    · subst hk; simp [h]
    · simp [hk, Ne.symm hk]
  · rw [insert_of_ne_none h, if_neg fun hc => h hc.2]

theorem find?_insert_self {l : KeyedList key} {a : α} (h : l.find? (key a) = none) :
    (l.insert a).find? (key a) = some a := by
  rw [find?_insert, if_pos ⟨rfl, h⟩]

theorem find?_insert_ne {l : KeyedList key} {a : α} {k : κ} (h : k ≠ key a) :
    (l.insert a).find? k = l.find? k := by
  rw [find?_insert, if_neg fun hc => h hc.1]

theorem contains_insert (l : KeyedList key) (a : α) (k : κ) :
    (l.insert a).contains k ↔ k = key a ∨ l.contains k := by
  simp only [contains, find?_insert]
  by_cases hk : k = key a
  · subst hk
    cases h : l.find? (key a) <;> simp
  · simp [hk]

/-- After inserting a list, a key leads to what was there, or else to its first element in the
list. -/
theorem find?_foldl_insert (l : KeyedList key) (as : List α) (k : κ) :
    (as.foldl insert l).find? k = (l.find? k).or (as.find? fun a => key a = k) := by
  induction as generalizing l with
  | nil => simp
  | cons a as ih =>
    rw [List.foldl_cons, ih, find?_insert, List.find?_cons]
    by_cases hk : k = key a
    · subst hk
      cases h : l.find? (key a) <;> simp
    · simp [hk, Ne.symm hk]

/-- Inserting elements with new keys one by one appends them. -/
theorem toList_foldl_insert {l : KeyedList key} {as : List α}
    (h : (l.toList.map key ++ as.map key).Nodup) :
    (as.foldl insert l).toList = l.toList ++ as := by
  induction as generalizing l with
  | nil => simp
  | cons a as ih =>
    have hnone : l.find? (key a) = none := by
      refine find?_eq_none.2 fun b hb heq => ?_
      exact List.disjoint_of_nodup_append h (List.mem_map_of_mem hb)
        (heq ▸ List.mem_cons_self)
    rw [List.foldl_cons, ih]
    · simp [toList_insert_of_none hnone]
    · simpa [toList_insert_of_none hnone] using h

/-- Inserting the elements of a table one by one copies it. -/
theorem foldl_insert_empty (l : KeyedList key) : l.toList.foldl insert empty = l := by
  ext1
  have h : (l.toList.foldl insert empty).toList = (empty : KeyedList key).toList ++ l.toList :=
    toList_foldl_insert (by simpa [empty] using l.nodup)
  simpa [empty] using h

/-! ## Replacement -/

/-- Put an element in the place of the one with the same key. -/
def replace (l : KeyedList key) (a : α) : KeyedList key :=
  ⟨l.toList.map fun b => if key b = key a then a else b, by
    have h : (l.toList.map fun b => if key b = key a then a else b).map key =
        l.toList.map key := by
      rw [List.map_map]
      refine List.map_congr_left fun b _ => ?_
      by_cases hb : key b = key a <;> simp [hb]
    rw [h]; exact l.nodup⟩

theorem find?_replace (l : KeyedList key) (a : α) (k : κ) :
    (l.replace a).find? k =
      if k = key a then (l.find? k).map fun _ => a else l.find? k := by
  have hkey : ∀ b, key (if key b = key a then a else b) = key b := by
    intro b
    by_cases hb : key b = key a <;> simp [hb]
  have hmap : (l.replace a).find? k =
      (l.find? k).map fun b => if key b = key a then a else b := by
    show (l.mapValues _ hkey).find? k = _
    rw [find?_mapValues]
  rw [hmap]
  cases h : l.find? k with
  | none => simp
  | some b =>
    have hb : key b = k := key_of_find? h
    by_cases hk : k = key a
    · simp [hb, hk]
    · simp [hb, hk]

theorem find?_replace_self {l : KeyedList key} {a b : α} (h : l.find? (key a) = some b) :
    (l.replace a).find? (key a) = some a := by
  rw [find?_replace, if_pos rfl, h]; rfl

theorem find?_replace_ne {l : KeyedList key} {a : α} {k : κ} (h : k ≠ key a) :
    (l.replace a).find? k = l.find? k := by
  rw [find?_replace, if_neg h]

@[simp] theorem contains_replace (l : KeyedList key) (a : α) (k : κ) :
    (l.replace a).contains k = l.contains k := by
  simp only [contains, find?_replace]
  split_ifs <;> simp

/-! ## Removal -/

/-- Remove the element with a key. -/
def erase (l : KeyedList key) (k : κ) : KeyedList key := l.filter fun a => key a ≠ k

@[simp] theorem mem_erase {l : KeyedList key} {k : κ} {a : α} :
    a ∈ l.erase k ↔ a ∈ l ∧ key a ≠ k := by
  simp [erase]

theorem size_erase {l : KeyedList key} {a : α} (h : a ∈ l) :
    (l.erase (key a)).size + 1 = l.size := by
  have hnodup : (a :: (l.erase (key a)).toList).Nodup :=
    List.nodup_cons.2 ⟨fun ha => (mem_erase.1 ha).2 rfl, (l.erase (key a)).nodup.of_map⟩
  have hperm : (a :: (l.erase (key a)).toList).Perm l.toList := by
    refine (List.perm_ext_iff_of_nodup hnodup l.nodup.of_map).2 fun b => ?_
    rw [List.mem_cons, ← mem_def, ← mem_def, mem_erase]
    constructor
    · rintro (rfl | ⟨hb, -⟩)
      · exact h
      · exact hb
    · intro hb
      by_cases hkey : key b = key a
      · exact Or.inl (eq_of_key_eq hb h hkey)
      · exact Or.inr ⟨hb, hkey⟩
  exact hperm.length_eq

theorem find?_erase (l : KeyedList key) (k k' : κ) :
    (l.erase k).find? k' = if k' = k then none else l.find? k' := by
  ext a
  by_cases hk : k' = k
  · subst hk
    simp only [find?_eq_some, mem_erase, if_true, reduceCtorEq, iff_false]
    rintro ⟨⟨-, hne⟩, heq⟩
    exact hne heq
  · simp only [find?_eq_some, mem_erase, if_neg hk]
    constructor
    · rintro ⟨⟨ha, -⟩, rfl⟩; exact ⟨ha, rfl⟩
    · rintro ⟨ha, rfl⟩; exact ⟨⟨ha, hk⟩, rfl⟩

@[simp] theorem find?_erase_self (l : KeyedList key) (k : κ) : (l.erase k).find? k = none := by
  rw [find?_erase, if_pos rfl]

theorem find?_erase_ne {l : KeyedList key} {k k' : κ} (h : k' ≠ k) :
    (l.erase k).find? k' = l.find? k' := by
  rw [find?_erase, if_neg h]

theorem erase_of_none {l : KeyedList key} {k : κ} (h : l.find? k = none) : l.erase k = l := by
  ext1
  refine List.filter_eq_self.2 fun a ha => ?_
  simpa using find?_eq_none.1 h a ha

/-! ## Tables that agree on a part of their elements -/

/-- The tables have the same keys, and elements of one key look the same through a function. -/
def Agree {β : Type*} (f : α → β) (l l' : KeyedList key) : Prop :=
  ∀ k, (l'.find? k).map f = (l.find? k).map f

theorem Agree.refl {β : Type*} (f : α → β) (l : KeyedList key) : Agree f l l := fun _ => rfl

theorem Agree.trans {β : Type*} {f : α → β} {l₁ l₂ l₃ : KeyedList key} (h : Agree f l₁ l₂)
    (h' : Agree f l₂ l₃) : Agree f l₁ l₃ := fun k => (h' k).trans (h k)

theorem Agree.symm {β : Type*} {f : α → β} {l l' : KeyedList key} (h : Agree f l l') :
    Agree f l' l := fun k => (h k).symm

theorem Agree.prod {β γ : Type*} {f : α → β} {g : α → γ} {l l' : KeyedList key}
    (hf : Agree f l l') (hg : Agree g l l') : Agree (fun a => (f a, g a)) l l' := by
  intro k
  have hfk := hf k
  have hgk := hg k
  cases h : l.find? k <;> cases h' : l'.find? k <;> simp_all

/-- An element of the one has its like in the other. -/
theorem Agree.exists_mem {β : Type*} {f : α → β} {l l' : KeyedList key} (h : Agree f l l') {a : α}
    (ha : a ∈ l) : ∃ b ∈ l', key b = key a ∧ f b = f a := by
  have hk := h (key a)
  rw [find?_of_mem ha, Option.map_some, Option.map_eq_some_iff] at hk
  obtain ⟨b, hb, hf⟩ := hk
  exact ⟨b, mem_of_find? hb, key_of_find? hb, hf⟩

theorem Agree.exists_iff {β : Type*} {f : α → β} {l l' : KeyedList key} (h : Agree f l l')
    (P : β → Prop) : (∃ a ∈ l', P (f a)) ↔ ∃ a ∈ l, P (f a) := by
  refine ⟨fun ⟨a, ha, hP⟩ => ?_, fun ⟨a, ha, hP⟩ => ?_⟩
  · obtain ⟨b, hb, -, hf⟩ := h.symm.exists_mem ha
    exact ⟨b, hb, hf ▸ hP⟩
  · obtain ⟨b, hb, -, hf⟩ := h.exists_mem ha
    exact ⟨b, hb, hf ▸ hP⟩

/-- Replacing an element by one that looks the same. -/
theorem agree_replace {β : Type*} {f : α → β} {l : KeyedList key} {a b : α}
    (h : l.find? (key b) = some a) (hf : f b = f a) : Agree f l (l.replace b) := by
  intro k
  rw [find?_replace]
  split_ifs with hk
  · rw [hk, h, Option.map_some, Option.map_some, Option.map_some, hf]
  · rfl

/-- The same for all elements in their order. -/
theorem map_replace {β : Type*} {f : α → β} {l : KeyedList key} {a b : α}
    (h : l.find? (key b) = some a) (hf : f b = f a) :
    (l.replace b).toList.map f = l.toList.map f := by
  show (l.toList.map _).map f = _
  rw [List.map_map]
  refine List.map_congr_left fun c hc => ?_
  show f (if key c = key b then b else c) = f c
  split_ifs with hkey
  · rw [hf, eq_of_key_eq hc (mem_of_find? h) (hkey.trans (key_of_find? h).symm)]
  · rfl

end KeyedList

end LinkState
