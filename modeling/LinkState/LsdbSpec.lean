import LinkState.Lsdb
import LinkState.Library.Latest

/-!
# What the database operations do

Each operation on the database in one equation: the pairs it enters into the name prefix table
or takes out of it, as a list, and what it writes back.

* `patchedNames`: the names of a stored Name LSA after an update. `mem_patchedNames`: they are
  the names of the new LSA, so the patch is as good as a replacement.
* `OnlyLsdb`: what an install or a removal leaves alone.
* `lsdb_installNameLsa` and its two siblings: the database after an install.
-/

namespace LinkState

/-! ## Pairs -/

/-- The pairs a list of names of an origin stands for, this router's prefix left out. -/
def namePairs (routerPrefix origRouter : Name) (names : List Name) : List (Name × Name) :=
  if origRouter ≠ routerPrefix then
    (names.filter fun n => n ≠ routerPrefix).map fun n => (n, origRouter)
  else []

/-- The pair of an origin with itself, which every LSA of another router enters. -/
def originPairs (routerPrefix origRouter : Name) : List (Name × Name) :=
  if origRouter ≠ routerPrefix then [(origRouter, origRouter)] else []

theorem mem_namePairs {rp orig : Name} {names : List Name} {n o : Name} :
    (n, o) ∈ namePairs rp orig names ↔ o = orig ∧ orig ≠ rp ∧ n ∈ names ∧ n ≠ rp := by
  unfold namePairs
  split_ifs with h
  · simp only [List.mem_map, List.mem_filter, decide_eq_true_eq, Prod.mk.injEq]
    constructor
    · rintro ⟨m, ⟨hm, hne⟩, rfl, rfl⟩
      exact ⟨rfl, h, hm, hne⟩
    · rintro ⟨rfl, -, hm, hne⟩
      exact ⟨n, ⟨hm, hne⟩, rfl, rfl⟩
  · exact iff_of_false List.not_mem_nil fun hc => h hc.2.1

theorem mem_originPairs {rp orig n o : Name} :
    (n, o) ∈ originPairs rp orig ↔ n = orig ∧ o = orig ∧ orig ≠ rp := by
  unfold originPairs
  split_ifs with h
  · simp [h]
  · exact iff_of_false List.not_mem_nil fun hc => h hc.2.2

namespace Nlsr

theorem addNptNames_eq (s : Nlsr) (orig : Name) (names : List Name) :
    s.addNptNames orig names = s.addEntries (namePairs s.routerPrefix orig names) := by
  induction names generalizing s with
  | nil => simp [addNptNames, namePairs, addEntries]
  | cons n names ih =>
    rw [addNptNames, List.foldl_cons, ← addNptNames]
    by_cases ho : orig ≠ s.routerPrefix
    · by_cases hn : n ≠ s.routerPrefix
      · rw [if_pos ho, if_pos hn, ih, (onlyTables_addEntry s n orig).routerPrefix]
        simp [namePairs, ho, hn, addEntries]
      · rw [if_pos ho, if_neg hn, ih]
        simp [namePairs, hn]
    · rw [if_neg ho, ih]
      simp [namePairs, ho]

theorem removeNptNames_eq (s : Nlsr) (orig : Name) (names : List Name) :
    s.removeNptNames orig names = s.removeEntries (namePairs s.routerPrefix orig names) := by
  induction names generalizing s with
  | nil => simp [removeNptNames, namePairs, removeEntries]
  | cons n names ih =>
    rw [removeNptNames, List.foldl_cons, ← removeNptNames]
    by_cases ho : orig ≠ s.routerPrefix
    · by_cases hn : n ≠ s.routerPrefix
      · rw [if_pos ho, if_pos hn, ih, (onlyTables_removeEntry s n orig).routerPrefix]
        simp [namePairs, ho, hn, removeEntries]
      · rw [if_pos ho, if_neg hn, ih]
        simp [namePairs, hn]
    · rw [if_neg ho, ih]
      simp [namePairs, ho]

theorem addEntries_append (s : Nlsr) (ps qs : List (Name × Name)) :
    s.addEntries (ps ++ qs) = (s.addEntries ps).addEntries qs := List.foldl_append

theorem removeEntries_append (s : Nlsr) (ps qs : List (Name × Name)) :
    s.removeEntries (ps ++ qs) = (s.removeEntries ps).removeEntries qs := List.foldl_append

theorem addOrigin_eq (s : Nlsr) (orig : Name) :
    (if orig ≠ s.routerPrefix then s.addEntry orig orig else s) =
      s.addEntries (originPairs s.routerPrefix orig) := by
  unfold originPairs
  split_ifs <;> rfl

theorem removeOrigin_eq (s : Nlsr) (orig : Name) :
    (if orig ≠ s.routerPrefix then s.removeEntry orig orig else s) =
      s.removeEntries (originPairs s.routerPrefix orig) := by
  unfold originPairs
  split_ifs <;> rfl

theorem addNptEntries_eq (s : Nlsr) (alsa : AdjLsa) :
    s.addNptEntries alsa = s.addEntries (originPairs s.routerPrefix alsa.origRouter) :=
  addOrigin_eq s alsa.origRouter

theorem removeNptEntries_eq (s : Nlsr) (alsa : AdjLsa) :
    s.removeNptEntries alsa = s.removeEntries (originPairs s.routerPrefix alsa.origRouter) :=
  removeOrigin_eq s alsa.origRouter

/-! ## Names -/

/-- The names an update adds. -/
def namesToAdd (old new : NamePrefixList) : List Name :=
  setDifference new.sortNames.toList old.sortNames.toList

/-- The stored names with the new ones added. -/
def extendedNames (old new : NamePrefixList) : NamePrefixList :=
  NamePrefixList.sortNames ((namesToAdd old new).foldl KeyedList.insert old.sortNames)

/-- The names an update removes. -/
def namesToRemove (old new : NamePrefixList) : List Name :=
  setDifference (extendedNames old new).toList new.sortNames.toList

/-- The stored names after an update. -/
def patchedNames (old new : NamePrefixList) : NamePrefixList :=
  (namesToRemove old new).foldl NamePrefixList.remove (extendedNames old new)

theorem mem_foldl_insert {names : List Name} {l : NamePrefixList} {n : Name} :
    n ∈ (names.foldl KeyedList.insert l : NamePrefixList) ↔ n ∈ names ∨ n ∈ l := by
  induction names generalizing l with
  | nil => simp
  | cons m names ih =>
    have hone : n ∈ l.insert m ↔ n = m ∨ n ∈ l := by
      rw [KeyedList.mem_insert]
      constructor
      · rintro (h | ⟨rfl, -⟩)
        · exact Or.inr h
        · exact Or.inl rfl
      · rintro (rfl | h)
        · by_cases hl : l.find? (id n) = none
          · exact Or.inr ⟨rfl, hl⟩
          · obtain ⟨a, ha⟩ := Option.ne_none_iff_exists'.1 hl
            obtain ⟨hmem, rfl⟩ : a ∈ l ∧ a = n := KeyedList.find?_eq_some.1 ha
            exact Or.inl hmem
        · exact Or.inl h
    rw [List.foldl_cons, ih, hone, List.mem_cons]
    tauto

theorem mem_foldl_remove {names : List Name} {l : NamePrefixList} {n : Name} :
    n ∈ names.foldl NamePrefixList.remove l ↔ n ∉ names ∧ n ∈ l := by
  induction names generalizing l with
  | nil => simp
  | cons m names ih =>
    rw [List.foldl_cons, ih, NamePrefixList.remove, KeyedList.mem_erase, List.mem_cons]
    simp only [id_eq]
    tauto

theorem sortedLT_sortNames (l : NamePrefixList) : l.sortNames.toList.SortedLT :=
  sortedLT_insertionSort (by simpa using l.nodup)

@[simp] theorem mem_sortNames {l : NamePrefixList} {n : Name} : n ∈ l.sortNames ↔ n ∈ l :=
  KeyedList.mem_sort

theorem mem_namesToAdd {old new : NamePrefixList} {n : Name} :
    n ∈ namesToAdd old new ↔ n ∈ new ∧ n ∉ old := by
  rw [namesToAdd, mem_setDifference (sortedLT_sortNames new) (sortedLT_sortNames old),
    ← KeyedList.mem_def, ← KeyedList.mem_def, mem_sortNames, mem_sortNames]

theorem mem_extendedNames {old new : NamePrefixList} {n : Name} :
    n ∈ extendedNames old new ↔ n ∈ new ∨ n ∈ old := by
  rw [extendedNames, mem_sortNames, mem_foldl_insert, mem_namesToAdd, mem_sortNames]
  tauto

theorem mem_namesToRemove {old new : NamePrefixList} {n : Name} :
    n ∈ namesToRemove old new ↔ n ∈ old ∧ n ∉ new := by
  have hsorted : (extendedNames old new).toList.SortedLT := sortedLT_sortNames _
  rw [namesToRemove, mem_setDifference hsorted (sortedLT_sortNames new), ← KeyedList.mem_def,
    ← KeyedList.mem_def, mem_extendedNames, mem_sortNames]
  tauto

/-- **Patching is as good as replacing**: an update leaves the names of the new LSA. -/
theorem mem_patchedNames {old new : NamePrefixList} {n : Name} :
    n ∈ patchedNames old new ↔ n ∈ new := by
  rw [patchedNames, mem_foldl_remove, mem_namesToRemove, mem_extendedNames]
  tauto

/-! ## The operations on Name LSAs -/

/-- The pairs of a Name LSA of another router: its origin and its names. -/
def nameLsaPairs (routerPrefix : Name) (l : NameLsa) : List (Name × Name) :=
  originPairs routerPrefix l.origRouter ++ namePairs routerPrefix l.origRouter l.npl.toList

/-- Entering a Name LSA. -/
theorem addNameLsaPairs_eq (s : Nlsr) (l : NameLsa) :
    (if l.origRouter ≠ s.routerPrefix then
      (s.addEntry l.origRouter l.origRouter).addNptNames l.origRouter l.npl.toList else s) =
      s.addEntries (nameLsaPairs s.routerPrefix l) := by
  rw [addNptNames_eq, (onlyTables_addEntry ..).routerPrefix, nameLsaPairs]
  split_ifs with ho
  · rw [addEntries_append, originPairs, if_pos ho]; rfl
  · rw [originPairs, namePairs, if_neg ho, if_neg ho]; rfl

/-- Taking a Name LSA out. -/
theorem removeNameLsaPairs_eq (s : Nlsr) (l : NameLsa) :
    (if l.origRouter ≠ s.routerPrefix then
      (s.removeEntry l.origRouter l.origRouter).removeNptNames l.origRouter l.npl.toList
      else s) = s.removeEntries (nameLsaPairs s.routerPrefix l) := by
  rw [removeNptNames_eq, (onlyTables_removeEntry ..).routerPrefix, nameLsaPairs]
  split_ifs with ho
  · rw [removeEntries_append, originPairs, if_pos ho]; rfl
  · rw [originPairs, namePairs, if_neg ho, if_neg ho]; rfl

theorem installNameLsa_of_none {s : Nlsr} {nlsa : NameLsa}
    (h : s.lsdb.findNameLsa nlsa.getKey = none) :
    s.installNameLsa nlsa =
      let s₁ := (s.setLsdb (s.lsdb.addNameLsa nlsa)).addEntries (nameLsaPairs s.routerPrefix nlsa)
      (s₁.scheduleNameLsaExpiration nlsa.getKey nlsa.lsSeqNo (s₁.timeToExpire nlsa.toLsa)).1 := by
  rw [installNameLsa, h]
  dsimp only
  rw [addNameLsaPairs_eq (s.setLsdb (s.lsdb.addNameLsa nlsa))]
  rfl

/-- The stored LSA after an update. -/
def updatedNameLsa (chk nlsa : NameLsa) (eid : Nat) : NameLsa :=
  { chk with
    lsSeqNo := nlsa.lsSeqNo
    expirationTimePoint := nlsa.expirationTimePoint
    npl := patchedNames chk.npl nlsa.npl
    expiringEventId := some eid }

theorem installNameLsa_of_newer {s : Nlsr} {nlsa chk : NameLsa}
    (h : s.lsdb.findNameLsa nlsa.getKey = some chk) (hlt : chk.lsSeqNo < nlsa.lsSeqNo) :
    s.installNameLsa nlsa =
      let s₁ := ((s.setLsdb s.lsdb.onLsdbChange).addEntries
        (namePairs s.routerPrefix nlsa.origRouter (namesToAdd chk.npl nlsa.npl))).removeEntries
        (namePairs s.routerPrefix nlsa.origRouter (namesToRemove chk.npl nlsa.npl))
      let s₂ := s₁.cancelEvent chk.expiringEventId
      let r := s₂.scheduleNameLsaExpiration nlsa.getKey nlsa.lsSeqNo (s₂.timeToExpire nlsa.toLsa)
      r.1.putNameLsa (updatedNameLsa chk nlsa r.2) := by
  rw [installNameLsa, h]
  dsimp only
  rw [if_pos hlt, addNptNames_eq, removeNptNames_eq, (onlyTables_addEntries ..).routerPrefix]
  rfl

theorem installNameLsa_of_not_newer {s : Nlsr} {nlsa chk : NameLsa}
    (h : s.lsdb.findNameLsa nlsa.getKey = some chk) (hlt : ¬ chk.lsSeqNo < nlsa.lsSeqNo) :
    s.installNameLsa nlsa = s := by
  rw [installNameLsa, h]
  exact if_neg hlt

theorem removeNameLsa_of_none {s : Nlsr} {key : Name} (h : s.lsdb.findNameLsa key = none) :
    s.removeNameLsa key = s := by
  rw [removeNameLsa, h]

theorem removeNameLsa_of_some {s : Nlsr} {key : Name} {l : NameLsa}
    (h : s.lsdb.findNameLsa key = some l) :
    s.removeNameLsa key =
      let s₁ := s.removeEntries (nameLsaPairs s.routerPrefix l)
      s₁.setLsdb { s.lsdb with nameLsdb := s.lsdb.nameLsdb.erase key }.onLsdbChange := by
  rw [removeNameLsa, h]
  dsimp only
  rw [removeNameLsaPairs_eq, (onlyTables_removeEntries ..).lsdb]

/-! ## The operations on Adjacency LSAs -/

theorem installAdjLsa_of_none {s : Nlsr} {alsa : AdjLsa}
    (h : s.lsdb.findAdjLsa alsa.getKey = none) :
    s.installAdjLsa alsa =
      let s₁ := ((s.setLsdb (s.lsdb.addAdjLsa alsa)).addEntries
        (originPairs s.routerPrefix alsa.origRouter)).scheduleRoutingTableCalculation
      (s₁.scheduleAdjLsaExpiration alsa.getKey alsa.lsSeqNo (s₁.timeToExpire alsa.toLsa)).1 := by
  rw [installAdjLsa, h]
  dsimp only
  rw [addNptEntries_eq]
  rfl

/-- The stored adjacents after an update: those of the new LSA unless the comparison finds the
lists equal. Lists of one size are left sorted. -/
def updatedAdl (old new : AdjacencyList) : AdjacencyList :=
  if (old.eqSorting new).1 then (old.eqSorting new).2.1 else (old.eqSorting new).2.2

/-- The stored LSA after an update. -/
def updatedAdjLsa (chk alsa : AdjLsa) (eid : Nat) : AdjLsa :=
  { chk with
    lsSeqNo := alsa.lsSeqNo
    expirationTimePoint := alsa.expirationTimePoint
    adl := updatedAdl chk.adl alsa.adl
    expiringEventId := some eid }

theorem installAdjLsa_of_newer {s : Nlsr} {alsa chk : AdjLsa}
    (h : s.lsdb.findAdjLsa alsa.getKey = some chk) (hlt : chk.lsSeqNo < alsa.lsSeqNo) :
    s.installAdjLsa alsa =
      let s₀ := s.setLsdb s.lsdb.onLsdbChange
      let s₁ := if (chk.adl.eqSorting alsa.adl).1 then s₀ else s₀.scheduleRoutingTableCalculation
      let s₂ := s₁.cancelEvent chk.expiringEventId
      let r := s₂.scheduleAdjLsaExpiration alsa.getKey alsa.lsSeqNo (s₂.timeToExpire alsa.toLsa)
      r.1.putAdjLsa (updatedAdjLsa chk alsa r.2) := by
  rw [installAdjLsa, h]
  dsimp only [AdjLsa.isEqualContent]
  rw [if_pos hlt]
  unfold updatedAdjLsa updatedAdl
  cases (chk.adl.eqSorting alsa.adl).1 with
  | true => rfl
  | false => rw [AdjacencyList.addAdjacents, KeyedList.foldl_insert_empty]; rfl

theorem installAdjLsa_of_not_newer {s : Nlsr} {alsa chk : AdjLsa}
    (h : s.lsdb.findAdjLsa alsa.getKey = some chk) (hlt : ¬ chk.lsSeqNo < alsa.lsSeqNo) :
    s.installAdjLsa alsa = s := by
  rw [installAdjLsa, h]
  exact if_neg hlt

theorem removeAdjLsa_of_none {s : Nlsr} {key : Name} (h : s.lsdb.findAdjLsa key = none) :
    s.removeAdjLsa key = s := by
  rw [removeAdjLsa, h]

theorem removeAdjLsa_of_some {s : Nlsr} {key : Name} {l : AdjLsa}
    (h : s.lsdb.findAdjLsa key = some l) :
    s.removeAdjLsa key =
      let s₁ := s.removeEntries (originPairs s.routerPrefix l.origRouter)
      s₁.setLsdb { s.lsdb with adjLsdb := s.lsdb.adjLsdb.erase key }.onLsdbChange := by
  rw [removeAdjLsa, h]
  dsimp only
  rw [removeNptEntries_eq, (onlyTables_removeEntries ..).lsdb]

/-! ## The operations on Coordinate LSAs -/

theorem installCoordinateLsa_of_none {s : Nlsr} {clsa : CoordinateLsa}
    (h : s.lsdb.findCoordinateLsa clsa.getKey = none) :
    s.installCoordinateLsa clsa =
      let s₁ := ((s.setLsdb (s.lsdb.addCoordinateLsa clsa)).addEntries
        (originPairs s.routerPrefix clsa.origRouter)).scheduleIfHyperbolic
      (s₁.scheduleCoordinateLsaExpiration clsa.getKey clsa.lsSeqNo
        (s₁.timeToExpire clsa.toLsa)).1 := by
  rw [installCoordinateLsa, h]
  dsimp only
  rw [addOrigin_eq (s.setLsdb (s.lsdb.addCoordinateLsa clsa))]
  rfl

/-- The stored LSA after an update: the coordinates move only if they are not near. -/
def updatedCoordinateLsa (chk clsa : CoordinateLsa) (eid : Nat) : CoordinateLsa :=
  { chk with
    lsSeqNo := clsa.lsSeqNo
    expirationTimePoint := clsa.expirationTimePoint
    corRad := if chk.isEqualContent clsa then chk.corRad else clsa.corRad
    corTheta := if chk.isEqualContent clsa then chk.corTheta else clsa.corTheta
    expiringEventId := some eid }

theorem installCoordinateLsa_of_newer {s : Nlsr} {clsa chk : CoordinateLsa}
    (h : s.lsdb.findCoordinateLsa clsa.getKey = some chk) (hlt : chk.lsSeqNo < clsa.lsSeqNo) :
    s.installCoordinateLsa clsa =
      let s₀ := s.setLsdb s.lsdb.onLsdbChange
      let s₁ := if chk.isEqualContent clsa then s₀ else s₀.scheduleIfHyperbolic
      let s₂ := s₁.cancelEvent chk.expiringEventId
      let r := s₂.scheduleCoordinateLsaExpiration clsa.getKey clsa.lsSeqNo
        (s₂.timeToExpire clsa.toLsa)
      r.1.putCoordinateLsa (updatedCoordinateLsa chk clsa r.2) := by
  have hequal : ({ chk with
      lsSeqNo := clsa.lsSeqNo
      expirationTimePoint := clsa.expirationTimePoint } : CoordinateLsa).isEqualContent clsa =
        chk.isEqualContent clsa := rfl
  rw [installCoordinateLsa, h]
  dsimp only
  rw [if_pos hlt, hequal]
  unfold updatedCoordinateLsa
  cases chk.isEqualContent clsa <;> rfl

theorem installCoordinateLsa_of_not_newer {s : Nlsr} {clsa chk : CoordinateLsa}
    (h : s.lsdb.findCoordinateLsa clsa.getKey = some chk) (hlt : ¬ chk.lsSeqNo < clsa.lsSeqNo) :
    s.installCoordinateLsa clsa = s := by
  rw [installCoordinateLsa, h]
  exact if_neg hlt

theorem removeCoordinateLsa_of_none {s : Nlsr} {key : Name}
    (h : s.lsdb.findCoordinateLsa key = none) : s.removeCoordinateLsa key = s := by
  rw [removeCoordinateLsa, h]

theorem removeCoordinateLsa_of_some {s : Nlsr} {key : Name} {l : CoordinateLsa}
    (h : s.lsdb.findCoordinateLsa key = some l) :
    s.removeCoordinateLsa key =
      let s₁ := s.removeEntries (originPairs s.routerPrefix l.origRouter)
      s₁.setLsdb { s.lsdb with corLsdb := s.lsdb.corLsdb.erase key }.onLsdbChange := by
  rw [removeCoordinateLsa, h]
  dsimp only
  rw [removeOrigin_eq, (onlyTables_removeEntries ..).lsdb]

/-! ## What they leave alone -/

/-- Nothing but the database, the tables fed from it, the scheduler and the request for a
calculation has changed. -/
def OnlyLsdb (s t : Nlsr) : Prop :=
  t = { s with
    lsdb := t.lsdb
    namePrefixTable := t.namePrefixTable
    fib := t.fib
    scheduler := t.scheduler
    isRouteCalculationScheduled := t.isRouteCalculationScheduled }

theorem OnlyLsdb.refl (s : Nlsr) : OnlyLsdb s s := rfl

theorem OnlyLsdb.trans {s t u : Nlsr} (h₁ : OnlyLsdb s t) (h₂ : OnlyLsdb t u) :
    OnlyLsdb s u := by
  rw [OnlyLsdb] at h₁ h₂ ⊢
  rw [h₂, h₁]

theorem OnlyLsdb.routerPrefix {s t : Nlsr} (h : OnlyLsdb s t) :
    t.routerPrefix = s.routerPrefix := by
  rw [OnlyLsdb] at h
  rw [h]
  rfl

theorem OnlyTables.onlyLsdb {s t : Nlsr} (h : OnlyTables s t) : OnlyLsdb s t := by
  rw [OnlyTables] at h
  rw [OnlyLsdb, h]

theorem onlyLsdb_scheduleRoutingTableCalculation (s : Nlsr) :
    OnlyLsdb s s.scheduleRoutingTableCalculation := by
  unfold scheduleRoutingTableCalculation
  split_ifs <;> rfl

theorem onlyLsdb_scheduleIfHyperbolic (s : Nlsr) : OnlyLsdb s s.scheduleIfHyperbolic := by
  unfold scheduleIfHyperbolic
  split_ifs
  · exact onlyLsdb_scheduleRoutingTableCalculation s
  · exact OnlyLsdb.refl s

theorem onlyLsdb_installNameLsa (s : Nlsr) (nlsa : NameLsa) :
    OnlyLsdb s (s.installNameLsa nlsa) := by
  have hset : ∀ db, OnlyLsdb s (s.setLsdb db) := fun _ => rfl
  cases h : s.lsdb.findNameLsa nlsa.getKey with
  | none =>
    rw [installNameLsa_of_none h]
    exact ((hset _).trans (onlyTables_addEntries ..).onlyLsdb).trans rfl
  | some chk =>
    by_cases hlt : chk.lsSeqNo < nlsa.lsSeqNo
    · rw [installNameLsa_of_newer h hlt]
      exact (((hset _).trans (onlyTables_addEntries ..).onlyLsdb).trans
        (onlyTables_removeEntries ..).onlyLsdb).trans rfl
    · rw [installNameLsa_of_not_newer h hlt]
      exact OnlyLsdb.refl s

theorem onlyLsdb_installAdjLsa (s : Nlsr) (alsa : AdjLsa) :
    OnlyLsdb s (s.installAdjLsa alsa) := by
  have hset : ∀ db, OnlyLsdb s (s.setLsdb db) := fun _ => rfl
  cases h : s.lsdb.findAdjLsa alsa.getKey with
  | none =>
    rw [installAdjLsa_of_none h]
    exact (((hset _).trans (onlyTables_addEntries ..).onlyLsdb).trans
      (onlyLsdb_scheduleRoutingTableCalculation _)).trans rfl
  | some chk =>
    by_cases hlt : chk.lsSeqNo < alsa.lsSeqNo
    · rw [installAdjLsa_of_newer h hlt]
      dsimp only
      split_ifs
      · rfl
      · exact ((hset _).trans (onlyLsdb_scheduleRoutingTableCalculation _)).trans rfl
    · rw [installAdjLsa_of_not_newer h hlt]
      exact OnlyLsdb.refl s

theorem onlyLsdb_installCoordinateLsa (s : Nlsr) (clsa : CoordinateLsa) :
    OnlyLsdb s (s.installCoordinateLsa clsa) := by
  have hset : ∀ db, OnlyLsdb s (s.setLsdb db) := fun _ => rfl
  cases h : s.lsdb.findCoordinateLsa clsa.getKey with
  | none =>
    rw [installCoordinateLsa_of_none h]
    exact (((hset _).trans (onlyTables_addEntries ..).onlyLsdb).trans
      (onlyLsdb_scheduleIfHyperbolic _)).trans rfl
  | some chk =>
    by_cases hlt : chk.lsSeqNo < clsa.lsSeqNo
    · rw [installCoordinateLsa_of_newer h hlt]
      dsimp only
      split_ifs
      · rfl
      · exact ((hset _).trans (onlyLsdb_scheduleIfHyperbolic _)).trans rfl
    · rw [installCoordinateLsa_of_not_newer h hlt]
      exact OnlyLsdb.refl s

theorem onlyLsdb_removeNameLsa (s : Nlsr) (key : Name) : OnlyLsdb s (s.removeNameLsa key) := by
  cases h : s.lsdb.findNameLsa key with
  | none => rw [removeNameLsa_of_none h]; exact OnlyLsdb.refl s
  | some l =>
    rw [removeNameLsa_of_some h]
    exact (onlyTables_removeEntries ..).onlyLsdb.trans rfl

theorem onlyLsdb_removeAdjLsa (s : Nlsr) (key : Name) : OnlyLsdb s (s.removeAdjLsa key) := by
  cases h : s.lsdb.findAdjLsa key with
  | none => rw [removeAdjLsa_of_none h]; exact OnlyLsdb.refl s
  | some l =>
    rw [removeAdjLsa_of_some h]
    exact (onlyTables_removeEntries ..).onlyLsdb.trans rfl

theorem onlyLsdb_removeCoordinateLsa (s : Nlsr) (key : Name) :
    OnlyLsdb s (s.removeCoordinateLsa key) := by
  cases h : s.lsdb.findCoordinateLsa key with
  | none => rw [removeCoordinateLsa_of_none h]; exact OnlyLsdb.refl s
  | some l =>
    rw [removeCoordinateLsa_of_some h]
    exact (onlyTables_removeEntries ..).onlyLsdb.trans rfl

/-! ## The stored LSAs afterwards -/

/-- A request for a calculation leaves the database alone. -/
@[simp] theorem lsdb_scheduleRoutingTableCalculation (s : Nlsr) :
    s.scheduleRoutingTableCalculation.lsdb = s.lsdb := by
  unfold scheduleRoutingTableCalculation
  split_ifs <;> rfl

@[simp] theorem lsdb_scheduleIfHyperbolic (s : Nlsr) : s.scheduleIfHyperbolic.lsdb = s.lsdb := by
  unfold scheduleIfHyperbolic
  split_ifs <;> simp

theorem lsdb_installNameLsa_of_none {s : Nlsr} {nlsa : NameLsa}
    (h : s.lsdb.findNameLsa nlsa.getKey = none) :
    (s.installNameLsa nlsa).lsdb =
      ({ s.lsdb with nameLsdb := s.lsdb.nameLsdb.insert nlsa } : Lsdb).onLsdbChange := by
  have hnot : s.lsdb.nameLsdb.contains nlsa.getKey = false := by
    rw [KeyedList.contains, show s.lsdb.nameLsdb.find? nlsa.getKey = none from h]; rfl
  have hdb : (s.installNameLsa nlsa).lsdb = s.lsdb.addNameLsa nlsa := by
    rw [installNameLsa_of_none h]
    exact (onlyTables_addEntries ..).lsdb
  rw [hdb, Lsdb.addNameLsa, hnot]
  rfl

theorem lsdb_installNameLsa_of_newer {s : Nlsr} {nlsa chk : NameLsa}
    (h : s.lsdb.findNameLsa nlsa.getKey = some chk) (hlt : chk.lsSeqNo < nlsa.lsSeqNo) :
    ∃ eid, (s.installNameLsa nlsa).lsdb = { s.lsdb.onLsdbChange with
      nameLsdb := s.lsdb.nameLsdb.replace (updatedNameLsa chk nlsa eid) } := by
  have hdb : ∀ s₁ : Nlsr, s₁.lsdb = s.lsdb.onLsdbChange →
      let s₂ := s₁.cancelEvent chk.expiringEventId
      let r := s₂.scheduleNameLsaExpiration nlsa.getKey nlsa.lsSeqNo (s₂.timeToExpire nlsa.toLsa)
      (r.1.putNameLsa (updatedNameLsa chk nlsa r.2)).lsdb =
        { s.lsdb.onLsdbChange with
          nameLsdb := s.lsdb.nameLsdb.replace (updatedNameLsa chk nlsa r.2) } := by
    intro s₁ h₁
    dsimp only [putNameLsa, scheduleNameLsaExpiration, scheduleEvent, setLsdb, cancelEvent]
    rw [h₁]; rfl
  rw [installNameLsa_of_newer h hlt]
  dsimp only
  rw [hdb _ ((onlyTables_removeEntries ..).lsdb.trans (onlyTables_addEntries ..).lsdb)]
  exact ⟨_, rfl⟩

theorem lsdb_removeNameLsa_of_some {s : Nlsr} {key : Name} {l : NameLsa}
    (h : s.lsdb.findNameLsa key = some l) :
    (s.removeNameLsa key).lsdb =
      ({ s.lsdb with nameLsdb := s.lsdb.nameLsdb.erase key } : Lsdb).onLsdbChange := by
  rw [removeNameLsa_of_some h]
  rfl

/-- The database an install of a Name LSA leaves. -/
theorem lsdb_installNameLsa (s : Nlsr) (nlsa : NameLsa) :
    let db := (s.installNameLsa nlsa).lsdb
    db = { s.lsdb with nameLsdb := db.nameLsdb, seqNo := db.seqNo } ∧
      ∃ eid, Installs (fun l => l.lsSeqNo.toNat) nlsa (fun chk => updatedNameLsa chk nlsa eid)
        s.lsdb.nameLsdb db.nameLsdb := by
  dsimp only
  cases h : s.lsdb.findNameLsa nlsa.getKey with
  | none =>
    rw [lsdb_installNameLsa_of_none h]
    exact ⟨rfl, 0, installs_insert h⟩
  | some chk =>
    by_cases hlt : chk.lsSeqNo < nlsa.lsSeqNo
    · obtain ⟨eid, hdb⟩ := lsdb_installNameLsa_of_newer h hlt
      rw [hdb]
      exact ⟨rfl, eid, installs_replace (u := fun chk => updatedNameLsa chk nlsa eid) h
        (UInt32.lt_iff_toNat_lt.1 hlt) rfl⟩
    · rw [installNameLsa_of_not_newer h hlt]
      exact ⟨rfl, 0, installs_self h (mt UInt32.lt_iff_toNat_lt.2 hlt)⟩

theorem lsdb_installAdjLsa_of_none {s : Nlsr} {alsa : AdjLsa}
    (h : s.lsdb.findAdjLsa alsa.getKey = none) :
    (s.installAdjLsa alsa).lsdb =
      ({ s.lsdb with adjLsdb := s.lsdb.adjLsdb.insert alsa } : Lsdb).onLsdbChange := by
  have hnot : s.lsdb.adjLsdb.contains alsa.getKey = false := by
    rw [KeyedList.contains, show s.lsdb.adjLsdb.find? alsa.getKey = none from h]; rfl
  have hdb : (s.installAdjLsa alsa).lsdb = s.lsdb.addAdjLsa alsa := by
    rw [installAdjLsa_of_none h]
    exact (lsdb_scheduleRoutingTableCalculation _).trans (onlyTables_addEntries ..).lsdb
  rw [hdb, Lsdb.addAdjLsa, hnot]
  rfl

theorem lsdb_installAdjLsa_of_newer {s : Nlsr} {alsa chk : AdjLsa}
    (h : s.lsdb.findAdjLsa alsa.getKey = some chk) (hlt : chk.lsSeqNo < alsa.lsSeqNo) :
    ∃ eid, (s.installAdjLsa alsa).lsdb = { s.lsdb.onLsdbChange with
      adjLsdb := s.lsdb.adjLsdb.replace (updatedAdjLsa chk alsa eid) } := by
  have hdb : ∀ s₁ : Nlsr, s₁.lsdb = s.lsdb.onLsdbChange →
      let s₂ := s₁.cancelEvent chk.expiringEventId
      let r := s₂.scheduleAdjLsaExpiration alsa.getKey alsa.lsSeqNo (s₂.timeToExpire alsa.toLsa)
      (r.1.putAdjLsa (updatedAdjLsa chk alsa r.2)).lsdb =
        { s.lsdb.onLsdbChange with
          adjLsdb := s.lsdb.adjLsdb.replace (updatedAdjLsa chk alsa r.2) } := by
    intro s₁ h₁
    dsimp only [putAdjLsa, scheduleAdjLsaExpiration, scheduleEvent, setLsdb, cancelEvent]
    rw [h₁]; rfl
  rw [installAdjLsa_of_newer h hlt]
  dsimp only
  rw [hdb _ (by split_ifs <;> simp [setLsdb])]
  exact ⟨_, rfl⟩

theorem lsdb_removeAdjLsa_of_some {s : Nlsr} {key : Name} {l : AdjLsa}
    (h : s.lsdb.findAdjLsa key = some l) :
    (s.removeAdjLsa key).lsdb =
      ({ s.lsdb with adjLsdb := s.lsdb.adjLsdb.erase key } : Lsdb).onLsdbChange := by
  rw [removeAdjLsa_of_some h]
  rfl

/-- The database an install of an Adjacency LSA leaves. -/
theorem lsdb_installAdjLsa (s : Nlsr) (alsa : AdjLsa) :
    let db := (s.installAdjLsa alsa).lsdb
    db = { s.lsdb with adjLsdb := db.adjLsdb, seqNo := db.seqNo } ∧
      ∃ eid, Installs (fun l => l.lsSeqNo.toNat) alsa (fun chk => updatedAdjLsa chk alsa eid)
        s.lsdb.adjLsdb db.adjLsdb := by
  dsimp only
  cases h : s.lsdb.findAdjLsa alsa.getKey with
  | none =>
    rw [lsdb_installAdjLsa_of_none h]
    exact ⟨rfl, 0, installs_insert h⟩
  | some chk =>
    by_cases hlt : chk.lsSeqNo < alsa.lsSeqNo
    · obtain ⟨eid, hdb⟩ := lsdb_installAdjLsa_of_newer h hlt
      rw [hdb]
      exact ⟨rfl, eid, installs_replace (u := fun chk => updatedAdjLsa chk alsa eid) h
        (UInt32.lt_iff_toNat_lt.1 hlt) rfl⟩
    · rw [installAdjLsa_of_not_newer h hlt]
      exact ⟨rfl, 0, installs_self h (mt UInt32.lt_iff_toNat_lt.2 hlt)⟩

theorem lsdb_installCoordinateLsa_of_none {s : Nlsr} {clsa : CoordinateLsa}
    (h : s.lsdb.findCoordinateLsa clsa.getKey = none) :
    (s.installCoordinateLsa clsa).lsdb =
      ({ s.lsdb with corLsdb := s.lsdb.corLsdb.insert clsa } : Lsdb).onLsdbChange := by
  have hnot : s.lsdb.corLsdb.contains clsa.getKey = false := by
    rw [KeyedList.contains, show s.lsdb.corLsdb.find? clsa.getKey = none from h]; rfl
  have hdb : (s.installCoordinateLsa clsa).lsdb = s.lsdb.addCoordinateLsa clsa := by
    rw [installCoordinateLsa_of_none h]
    exact (lsdb_scheduleIfHyperbolic _).trans (onlyTables_addEntries ..).lsdb
  rw [hdb, Lsdb.addCoordinateLsa, hnot]
  rfl

theorem lsdb_installCoordinateLsa_of_newer {s : Nlsr} {clsa chk : CoordinateLsa}
    (h : s.lsdb.findCoordinateLsa clsa.getKey = some chk) (hlt : chk.lsSeqNo < clsa.lsSeqNo) :
    ∃ eid, (s.installCoordinateLsa clsa).lsdb = { s.lsdb.onLsdbChange with
      corLsdb := s.lsdb.corLsdb.replace (updatedCoordinateLsa chk clsa eid) } := by
  have hdb : ∀ s₁ : Nlsr, s₁.lsdb = s.lsdb.onLsdbChange →
      let s₂ := s₁.cancelEvent chk.expiringEventId
      let r := s₂.scheduleCoordinateLsaExpiration clsa.getKey clsa.lsSeqNo
        (s₂.timeToExpire clsa.toLsa)
      (r.1.putCoordinateLsa (updatedCoordinateLsa chk clsa r.2)).lsdb =
        { s.lsdb.onLsdbChange with
          corLsdb := s.lsdb.corLsdb.replace (updatedCoordinateLsa chk clsa r.2) } := by
    intro s₁ h₁
    dsimp only [putCoordinateLsa, scheduleCoordinateLsaExpiration, scheduleEvent, setLsdb,
      cancelEvent]
    rw [h₁]; rfl
  rw [installCoordinateLsa_of_newer h hlt]
  dsimp only
  rw [hdb _ (by split_ifs <;> simp [setLsdb])]
  exact ⟨_, rfl⟩

theorem lsdb_removeCoordinateLsa_of_some {s : Nlsr} {key : Name} {l : CoordinateLsa}
    (h : s.lsdb.findCoordinateLsa key = some l) :
    (s.removeCoordinateLsa key).lsdb =
      ({ s.lsdb with corLsdb := s.lsdb.corLsdb.erase key } : Lsdb).onLsdbChange := by
  rw [removeCoordinateLsa_of_some h]
  rfl

/-- The database an install of a Coordinate LSA leaves. -/
theorem lsdb_installCoordinateLsa (s : Nlsr) (clsa : CoordinateLsa) :
    let db := (s.installCoordinateLsa clsa).lsdb
    db = { s.lsdb with corLsdb := db.corLsdb, seqNo := db.seqNo } ∧
      ∃ eid, Installs (fun l => l.lsSeqNo.toNat) clsa (fun chk => updatedCoordinateLsa chk clsa eid)
        s.lsdb.corLsdb db.corLsdb := by
  dsimp only
  cases h : s.lsdb.findCoordinateLsa clsa.getKey with
  | none =>
    rw [lsdb_installCoordinateLsa_of_none h]
    exact ⟨rfl, 0, installs_insert h⟩
  | some chk =>
    by_cases hlt : chk.lsSeqNo < clsa.lsSeqNo
    · obtain ⟨eid, hdb⟩ := lsdb_installCoordinateLsa_of_newer h hlt
      rw [hdb]
      exact ⟨rfl, eid, installs_replace (u := fun chk => updatedCoordinateLsa chk clsa eid) h
        (UInt32.lt_iff_toNat_lt.1 hlt) rfl⟩
    · rw [installCoordinateLsa_of_not_newer h hlt]
      exact ⟨rfl, 0, installs_self h (mt UInt32.lt_iff_toNat_lt.2 hlt)⟩

/-! ## Refresh and expiration -/

/-- The refresh of an own Name LSA. -/
def refreshNameLsa (s : Nlsr) (chk : NameLsa) : Nlsr :=
  let s := s.setLsdb s.lsdb.onLsdbChange
  let lsSeqNo := chk.lsSeqNo + 1
  let s := { s with sequencingManager := s.sequencingManager.setNameLsaSeq lsSeqNo.toUInt64 }
  let (s, eid) := s.scheduleNameLsaExpiration chk.getKey lsSeqNo s.lsdb.lsaRefreshTime
  let s := s.putNameLsa { chk with
    lsSeqNo
    expirationTimePoint := s.getLsaExpirationTimePoint
    expiringEventId := some eid }
  s.publishRoutingUpdate

/-- The refresh of an own Adjacency LSA. -/
def refreshAdjLsa (s : Nlsr) (chk : AdjLsa) : Nlsr :=
  let s := s.setLsdb s.lsdb.onLsdbChange
  let lsSeqNo := chk.lsSeqNo + 1
  let s := { s with sequencingManager := s.sequencingManager.setAdjLsaSeq lsSeqNo.toUInt64 }
  let (s, eid) := s.scheduleAdjLsaExpiration chk.getKey lsSeqNo s.lsdb.lsaRefreshTime
  let s := s.putAdjLsa { chk with
    lsSeqNo
    expirationTimePoint := s.getLsaExpirationTimePoint
    expiringEventId := some eid }
  s.publishRoutingUpdate

/-- The refresh of an own Coordinate LSA. -/
def refreshCoordinateLsa (s : Nlsr) (chk : CoordinateLsa) : Nlsr :=
  let s := s.setLsdb s.lsdb.onLsdbChange
  let lsSeqNo := chk.lsSeqNo + 1
  let s := { s with sequencingManager := s.sequencingManager.setCorLsaSeq lsSeqNo.toUInt64 }
  let (s, eid) := s.scheduleCoordinateLsaExpiration chk.getKey lsSeqNo s.lsdb.lsaRefreshTime
  let s := s.putCoordinateLsa { chk with
    lsSeqNo
    expirationTimePoint := s.getLsaExpirationTimePoint
    expiringEventId := some eid }
  s.publishRoutingUpdate

end Nlsr

end LinkState
