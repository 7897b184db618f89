import LinkState.State

/-!
# The router map

`Map` numbers the routers of an Adjacency LSDB from 0 on, in the order of their first
appearance. -1, the number of an unknown router, is `none`.

`Map.Numbered` is what every map built this way satisfies: the numbers are exactly
`0, …, size - 1`, each given once, so names and numbers determine each other.
-/

namespace LinkState

structure MapEntry where
  router : Name
  mappingNumber : Nat
  deriving DecidableEq

structure Map where
  table : KeyedList MapEntry.router := KeyedList.empty
  mappingIndex : Nat := 0

namespace Map

def addEntry (m : Map) (rtrName : Name) : Map :=
  if m.table.contains rtrName then m
  else { table := m.table.insert ⟨rtrName, m.mappingIndex⟩, mappingIndex := m.mappingIndex + 1 }

def getMappingNoByRouterName (m : Map) (rName : Name) : Option Nat :=
  (m.table.find? rName).map MapEntry.mappingNumber

/-- The router with a number; the empty name for an unknown number. -/
def getRouterNameByMappingNo (m : Map) (mn : Nat) : Name :=
  match m.table.toList.find? fun me => me.mappingNumber = mn with
  | some me => me.router
  | none => []

def getMapSize (m : Map) : Nat := m.table.size

/-- The names of an LSA in the order they are numbered: its origin, then its adjacents. -/
def namesOfAdjLsa (lsa : AdjLsa) : List Name := lsa.origRouter :: lsa.adl.toList.map Adjacent.name

def createFromAdjLsdb (adjLsdb : KeyedList AdjLsa.getKey) : Map :=
  adjLsdb.toList.foldl (fun m lsa => (namesOfAdjLsa lsa).foldl addEntry m) {}

/-! ## The numbering -/

/-- The numbers are `0, …, size - 1` in the order of the table. -/
structure Numbered (m : Map) : Prop where
  index : m.mappingIndex = m.table.size
  numbers : ∀ (i : Nat) (h : i < m.table.toList.length),
    (m.table.toList[i]).mappingNumber = i

theorem numbered_empty : Numbered {} :=
  ⟨rfl, fun _ h => absurd h (Nat.not_lt_zero _)⟩

theorem numbered_addEntry {m : Map} (h : Numbered m) (n : Name) : Numbered (m.addEntry n) := by
  unfold addEntry
  by_cases hc : m.table.contains n
  · rwa [if_pos hc]
  · have hnone : m.table.find? n = none := by simpa [KeyedList.contains] using hc
    have hlist : (m.table.insert (MapEntry.mk n m.mappingIndex)).toList =
        m.table.toList ++ [MapEntry.mk n m.mappingIndex] :=
      KeyedList.toList_insert_of_none hnone
    rw [if_neg hc]
    refine ⟨?_, ?_⟩
    · show m.mappingIndex + 1 = (m.table.insert (MapEntry.mk n m.mappingIndex)).toList.length
      rw [hlist, List.length_append, h.index]
      rfl
    · intro i hi
      have hi' : i < (m.table.toList ++ [MapEntry.mk n m.mappingIndex]).length := by
        rw [← hlist]; exact hi
      show ((m.table.insert (MapEntry.mk n m.mappingIndex)).toList.get ⟨i, hi⟩).mappingNumber = i
      simp only [List.get_eq_getElem, hlist]
      rw [List.getElem_append]
      by_cases hlt : i < m.table.toList.length
      · rw [dif_pos hlt]; exact h.numbers i hlt
      · rw [dif_neg hlt]
        rw [List.length_append, List.length_singleton] at hi'
        have hidx : m.mappingIndex = m.table.toList.length := h.index
        simp only [List.getElem_singleton]
        omega

theorem contains_addEntry (m : Map) (n n' : Name) :
    (m.addEntry n).table.contains n' ↔ n' = n ∨ m.table.contains n' := by
  unfold addEntry
  by_cases hc : m.table.contains n
  · rw [if_pos hc]
    constructor
    · exact Or.inr
    · rintro (rfl | h)
      · exact hc
      · exact h
  · rw [if_neg hc]
    exact KeyedList.contains_insert m.table ⟨n, m.mappingIndex⟩ n'

theorem contains_foldl_addEntry (names : List Name) (m : Map) (n : Name) :
    (names.foldl addEntry m).table.contains n ↔ n ∈ names ∨ m.table.contains n := by
  induction names generalizing m with
  | nil => simp
  | cons a names ih =>
    rw [List.foldl_cons, ih, contains_addEntry, List.mem_cons]
    tauto

theorem numbered_foldl_addEntry {m : Map} (h : Numbered m) (names : List Name) :
    Numbered (names.foldl addEntry m) := by
  induction names generalizing m with
  | nil => exact h
  | cons a names ih => exact ih (numbered_addEntry h a)

theorem createFromAdjLsdb_eq (adjLsdb : KeyedList AdjLsa.getKey) :
    createFromAdjLsdb adjLsdb = (adjLsdb.toList.flatMap namesOfAdjLsa).foldl addEntry {} := by
  rw [createFromAdjLsdb, List.foldl_flatMap]

theorem numbered_createFromAdjLsdb (adjLsdb : KeyedList AdjLsa.getKey) :
    Numbered (createFromAdjLsdb adjLsdb) := by
  rw [createFromAdjLsdb_eq]
  exact numbered_foldl_addEntry numbered_empty _

/-- A router is in the map exactly if it is an origin or an adjacent of some LSA. -/
theorem contains_createFromAdjLsdb (adjLsdb : KeyedList AdjLsa.getKey) (n : Name) :
    (createFromAdjLsdb adjLsdb).table.contains n ↔
      ∃ lsa ∈ adjLsdb, n ∈ namesOfAdjLsa lsa := by
  rw [createFromAdjLsdb_eq, contains_foldl_addEntry, List.mem_flatMap]
  constructor
  · rintro (h | h)
    · exact h
    · exact absurd h Bool.false_ne_true
  · exact Or.inl

/-! ## Names and numbers -/

theorem contains_iff_mapping {m : Map} {n : Name} :
    m.table.contains n ↔ ∃ i, m.getMappingNoByRouterName n = some i := by
  rw [KeyedList.contains, Option.isSome_iff_exists]
  constructor
  · rintro ⟨me, hme⟩
    exact ⟨me.mappingNumber, by rw [getMappingNoByRouterName, hme]; rfl⟩
  · rintro ⟨i, hi⟩
    obtain ⟨me, hme, -⟩ := Option.map_eq_some_iff.1 hi
    exact ⟨me, hme⟩

theorem mappingNumber_lt {m : Map} (h : Numbered m) {n : Name} {i : Nat}
    (hn : m.getMappingNoByRouterName n = some i) : i < m.getMapSize := by
  obtain ⟨me, hme, rfl⟩ := Option.map_eq_some_iff.1 hn
  obtain ⟨j, hj, rfl⟩ := List.getElem_of_mem (KeyedList.mem_of_find? hme)
  rw [h.numbers j hj]
  exact hj

/-- The two look-ups are inverse to each other. -/
theorem getMappingNo_eq_some_iff {m : Map} (h : Numbered m) {n : Name} {i : Nat} :
    m.getMappingNoByRouterName n = some i ↔
      i < m.getMapSize ∧ m.getRouterNameByMappingNo i = n := by
  have hfind : ∀ j (hj : j < m.table.toList.length),
      m.getRouterNameByMappingNo j = (m.table.toList[j]).router := by
    intro j hj
    have hsome : m.table.toList.find? (fun me => me.mappingNumber = j) =
        some m.table.toList[j] := by
      rw [List.find?_eq_some_iff_getElem]
      refine ⟨by simp [h.numbers j hj], j, hj, rfl, fun k hk => ?_⟩
      simp [h.numbers k (hk.trans hj), hk.ne]
    rw [getRouterNameByMappingNo, hsome]
  constructor
  · intro hn
    have hlt := mappingNumber_lt h hn
    refine ⟨hlt, ?_⟩
    obtain ⟨me, hme, hi⟩ := Option.map_eq_some_iff.1 hn
    obtain ⟨j, hj, rfl⟩ := List.getElem_of_mem (KeyedList.mem_of_find? hme)
    rw [h.numbers j hj] at hi
    subst hi
    rw [hfind j hj]
    exact KeyedList.key_of_find? hme
  · rintro ⟨hlt, rfl⟩
    rw [hfind i hlt, getMappingNoByRouterName,
      KeyedList.find?_of_mem (List.getElem_mem hlt), Option.map_some, h.numbers i hlt]

theorem getRouterNameByMappingNo_inj {m : Map} (h : Numbered m) {i j : Nat}
    (hi : i < m.getMapSize) (hj : j < m.getMapSize)
    (heq : m.getRouterNameByMappingNo i = m.getRouterNameByMappingNo j) : i = j := by
  have h₁ := (getMappingNo_eq_some_iff h).2 ⟨hi, rfl⟩
  have h₂ := (getMappingNo_eq_some_iff h).2 ⟨hj, rfl⟩
  rw [heq, h₂] at h₁
  exact (Option.some.inj h₁).symm

end Map

end LinkState
