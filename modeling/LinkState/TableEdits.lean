import LinkState.LsdbSpec

/-!
# What an operation enters and takes out

An install enters pairs of a name and an origin into the name prefix table and takes pairs out;
everything else it does leaves the tables alone. `Edits` says so, and there is one lemma for
each operation with the pairs it enters and takes out. The pairs recorded afterwards, and
whatever adding and removing pairs keeps, follow from it.
-/

namespace LinkState

namespace Nlsr

/-- The configuration, the name prefix table, the entries of the FIB and the routing table are
the same. -/
structure SameTables (s t : Nlsr) : Prop where
  confParam : t.confParam = s.confParam
  namePrefixTable : t.namePrefixTable = s.namePrefixTable
  fibTable : t.fib.table = s.fib.table
  routingTable : t.routingTable = s.routingTable

theorem SameTables.refl (s : Nlsr) : SameTables s s := ⟨rfl, rfl, rfl, rfl⟩

theorem SameTables.trans {s t u : Nlsr} (h₁ : SameTables s t) (h₂ : SameTables t u) :
    SameTables s u :=
  ⟨h₂.confParam.trans h₁.confParam, h₂.namePrefixTable.trans h₁.namePrefixTable,
    h₂.fibTable.trans h₁.fibTable, h₂.routingTable.trans h₁.routingTable⟩

theorem SameTables.routerPrefix {s t : Nlsr} (h : SameTables s t) :
    t.routerPrefix = s.routerPrefix := congrArg ConfParameter.routerPrefix h.confParam

theorem recorded_congr {s t : Nlsr} (h : t.namePrefixTable = s.namePrefixTable) (n o : Name) :
    t.Recorded n o ↔ s.Recorded n o := by
  rw [Recorded, origins, h, ← origins, ← Recorded]

theorem entriesHaveOrigins_congr {s t : Nlsr} (h : t.namePrefixTable = s.namePrefixTable)
    (hs : s.EntriesHaveOrigins) : t.EntriesHaveOrigins := by
  intro n hn
  rw [h] at hn
  obtain ⟨o, ho⟩ := hs n hn
  exact ⟨o, (recorded_congr h n o).2 ho⟩

theorem sameTables_scheduleRoutingTableCalculation (s : Nlsr) :
    SameTables s s.scheduleRoutingTableCalculation := by
  unfold scheduleRoutingTableCalculation
  split_ifs <;> exact ⟨rfl, rfl, rfl, rfl⟩

theorem sameTables_scheduleIfHyperbolic (s : Nlsr) : SameTables s s.scheduleIfHyperbolic := by
  unfold scheduleIfHyperbolic
  split_ifs
  · exact sameTables_scheduleRoutingTableCalculation s
  · exact SameTables.refl s

/-- The operation from one state to the other enters some pairs, then takes some out. -/
def Edits (s t : Nlsr) (added removed : List (Name × Name)) : Prop :=
  ∃ s₁, SameTables s s₁ ∧ SameTables ((s₁.addEntries added).removeEntries removed) t

theorem SameTables.edits {s t : Nlsr} (h : SameTables s t) : Edits s t [] [] :=
  ⟨t, h, SameTables.refl t⟩

namespace Edits

variable {s t : Nlsr} {added removed : List (Name × Name)}

theorem routerPrefix (h : Edits s t added removed) : t.routerPrefix = s.routerPrefix := by
  obtain ⟨s₁, h₁, h₂⟩ := h
  rw [h₂.routerPrefix, (onlyTables_removeEntries ..).routerPrefix,
    (onlyTables_addEntries ..).routerPrefix, h₁.routerPrefix]

theorem confParam (h : Edits s t added removed) : t.confParam = s.confParam := by
  obtain ⟨s₁, h₁, h₂⟩ := h
  rw [h₂.confParam, (onlyTables_removeEntries ..).confParam, (onlyTables_addEntries ..).confParam,
    h₁.confParam]

/-- The pairs recorded afterwards. -/
theorem recorded_iff (h : Edits s t added removed) (n o : Name) :
    t.Recorded n o ↔ (n, o) ∉ removed ∧ ((n, o) ∈ added ∨ s.Recorded n o) := by
  obtain ⟨s₁, h₁, h₂⟩ := h
  rw [recorded_congr h₂.namePrefixTable, recorded_removeEntries, recorded_addEntries,
    recorded_congr h₁.namePrefixTable]

/-- What quiet changes, additions and removals of pairs keep. -/
theorem induction {P : Nlsr → Prop} (h : Edits s t added removed)
    (hsame : ∀ s t, SameTables s t → P s → P t)
    (hadd : ∀ s pairs, P s → P (s.addEntries pairs))
    (hremove : ∀ s pairs, P s → P (s.removeEntries pairs)) (hs : P s) : P t := by
  obtain ⟨s₁, h₁, h₂⟩ := h
  exact hsame _ _ h₂ (hremove _ _ (hadd _ _ (hsame _ _ h₁ hs)))

/-- The copies of an origin that no pair names are left alone. -/
theorem origins_eq (h : Edits s t added removed) {o : Name} (hadded : ∀ p ∈ added, p.2 ≠ o)
    (hremoved : ∀ p ∈ removed, p.2 ≠ o) (n : Name) :
    (t.origins n).find? o = (s.origins n).find? o := by
  obtain ⟨s₁, h₁, h₂⟩ := h
  rw [origins, h₂.namePrefixTable, ← origins, origins_removeEntries,
    if_neg fun hmem => hremoved _ hmem rfl, origins_addEntries,
    if_neg fun hmem => hadded _ hmem rfl, origins, h₁.namePrefixTable, ← origins]

theorem routingTable (h : Edits s t added removed) : t.routingTable = s.routingTable := by
  obtain ⟨s₁, h₁, h₂⟩ := h
  rw [h₂.routingTable, (onlyTables_removeEntries ..).routingTable,
    (onlyTables_addEntries ..).routingTable, h₁.routingTable]

theorem entriesHaveOrigins (h : Edits s t added removed) (hs : s.EntriesHaveOrigins) :
    t.EntriesHaveOrigins :=
  h.induction (fun _ _ hsame => entriesHaveOrigins_congr hsame.namePrefixTable)
    (fun _ pairs hs => entriesHaveOrigins_addEntries hs pairs)
    (fun _ pairs hs => entriesHaveOrigins_removeEntries hs pairs) hs

end Edits

/-! ## The operations -/

theorem edits_installNameLsa_of_none {s : Nlsr} {l : NameLsa}
    (h : s.lsdb.findNameLsa l.getKey = none) :
    Edits s (s.installNameLsa l) (nameLsaPairs s.routerPrefix l) [] := by
  rw [installNameLsa_of_none h]
  exact ⟨s.setLsdb (s.lsdb.addNameLsa l), ⟨rfl, rfl, rfl, rfl⟩, ⟨rfl, rfl, rfl, rfl⟩⟩

theorem edits_installNameLsa_of_newer {s : Nlsr} {l chk : NameLsa}
    (h : s.lsdb.findNameLsa l.getKey = some chk) (hlt : chk.lsSeqNo < l.lsSeqNo) :
    Edits s (s.installNameLsa l)
      (namePairs s.routerPrefix l.origRouter (namesToAdd chk.npl l.npl))
      (namePairs s.routerPrefix l.origRouter (namesToRemove chk.npl l.npl)) := by
  rw [installNameLsa_of_newer h hlt]
  exact ⟨s.setLsdb s.lsdb.onLsdbChange, ⟨rfl, rfl, rfl, rfl⟩, ⟨rfl, rfl, rfl, rfl⟩⟩

/-- An Adjacency LSA enters the pair of its origin if it is the first one. -/
theorem edits_installAdjLsa (s : Nlsr) (l : AdjLsa) :
    (s.lsdb.findAdjLsa l.getKey ≠ none ∧ Edits s (s.installAdjLsa l) [] []) ∨
      Edits s (s.installAdjLsa l) (originPairs s.routerPrefix l.origRouter) [] := by
  cases h : s.lsdb.findAdjLsa l.getKey with
  | none =>
    rw [installAdjLsa_of_none h]
    refine Or.inr ⟨s.setLsdb (s.lsdb.addAdjLsa l), ⟨rfl, rfl, rfl, rfl⟩, ?_⟩
    exact (sameTables_scheduleRoutingTableCalculation _).trans ⟨rfl, rfl, rfl, rfl⟩
  | some chk =>
    refine Or.inl ⟨Option.some_ne_none chk, ?_⟩
    by_cases hlt : chk.lsSeqNo < l.lsSeqNo
    · rw [installAdjLsa_of_newer h hlt]
      dsimp only
      split_ifs
      · exact SameTables.edits ⟨rfl, rfl, rfl, rfl⟩
      · have hsched := sameTables_scheduleRoutingTableCalculation (s.setLsdb s.lsdb.onLsdbChange)
        exact SameTables.edits ⟨hsched.confParam, hsched.namePrefixTable, hsched.fibTable,
          hsched.routingTable⟩
    · rw [installAdjLsa_of_not_newer h hlt]
      exact (SameTables.refl s).edits

theorem edits_installCoordinateLsa (s : Nlsr) (l : CoordinateLsa) :
    (s.lsdb.findCoordinateLsa l.getKey ≠ none ∧ Edits s (s.installCoordinateLsa l) [] []) ∨
      Edits s (s.installCoordinateLsa l) (originPairs s.routerPrefix l.origRouter) [] := by
  cases h : s.lsdb.findCoordinateLsa l.getKey with
  | none =>
    rw [installCoordinateLsa_of_none h]
    refine Or.inr ⟨s.setLsdb (s.lsdb.addCoordinateLsa l), ⟨rfl, rfl, rfl, rfl⟩, ?_⟩
    exact (sameTables_scheduleIfHyperbolic _).trans ⟨rfl, rfl, rfl, rfl⟩
  | some chk =>
    refine Or.inl ⟨Option.some_ne_none chk, ?_⟩
    by_cases hlt : chk.lsSeqNo < l.lsSeqNo
    · rw [installCoordinateLsa_of_newer h hlt]
      dsimp only
      split_ifs
      · exact SameTables.edits ⟨rfl, rfl, rfl, rfl⟩
      · have hsched := sameTables_scheduleIfHyperbolic (s.setLsdb s.lsdb.onLsdbChange)
        exact SameTables.edits ⟨hsched.confParam, hsched.namePrefixTable, hsched.fibTable,
          hsched.routingTable⟩
    · rw [installCoordinateLsa_of_not_newer h hlt]
      exact (SameTables.refl s).edits

theorem edits_removeNameLsa {s : Nlsr} {key : Name} {l : NameLsa}
    (h : s.lsdb.findNameLsa key = some l) :
    Edits s (s.removeNameLsa key) [] (nameLsaPairs s.routerPrefix l) := by
  rw [removeNameLsa_of_some h]
  exact ⟨s, SameTables.refl s, ⟨rfl, rfl, rfl, rfl⟩⟩

theorem edits_removeAdjLsa {s : Nlsr} {key : Name} {l : AdjLsa}
    (h : s.lsdb.findAdjLsa key = some l) :
    Edits s (s.removeAdjLsa key) [] (originPairs s.routerPrefix l.origRouter) := by
  rw [removeAdjLsa_of_some h]
  exact ⟨s, SameTables.refl s, ⟨rfl, rfl, rfl, rfl⟩⟩

theorem edits_removeCoordinateLsa {s : Nlsr} {key : Name} {l : CoordinateLsa}
    (h : s.lsdb.findCoordinateLsa key = some l) :
    Edits s (s.removeCoordinateLsa key) [] (originPairs s.routerPrefix l.origRouter) := by
  rw [removeCoordinateLsa_of_some h]
  exact ⟨s, SameTables.refl s, ⟨rfl, rfl, rfl, rfl⟩⟩

/-- An install edits pairs of the origin of the LSA only. -/
theorem exists_edits_install_origin (s : Nlsr) (l : AnyLsa) :
    ∃ added removed, Edits s (s.install l) added removed ∧
      (∀ p ∈ added, p.2 = l.origRouter) ∧ ∀ p ∈ removed, p.2 = l.origRouter := by
  have hnone : ∀ p ∈ ([] : List (Name × Name)), p.2 = l.origRouter := by simp
  have horigin : ∀ p ∈ originPairs s.routerPrefix l.origRouter, p.2 = l.origRouter :=
    fun p hp => (mem_originPairs.1 hp).2.1
  have hnames : ∀ names, ∀ p ∈ namePairs s.routerPrefix l.origRouter names,
      p.2 = l.origRouter := fun names p hp => (mem_namePairs.1 hp).1
  cases l with
  | name l =>
    cases h : s.lsdb.findNameLsa l.getKey with
    | none =>
      refine ⟨_, _, edits_installNameLsa_of_none h, fun p hp => ?_, hnone⟩
      exact (List.mem_append.1 hp).elim (horigin p) (hnames _ p)
    | some chk =>
      by_cases hlt : chk.lsSeqNo < l.lsSeqNo
      · exact ⟨_, _, edits_installNameLsa_of_newer h hlt, hnames _, hnames _⟩
      · refine ⟨[], [], ?_, hnone, hnone⟩
        show Edits s (s.installNameLsa l) [] []
        rw [installNameLsa_of_not_newer h hlt]
        exact (SameTables.refl s).edits
  | adj l =>
    rcases edits_installAdjLsa s l with ⟨-, h⟩ | h
    · exact ⟨_, _, h, hnone, hnone⟩
    · exact ⟨_, _, h, horigin, hnone⟩
  | coordinate l =>
    rcases edits_installCoordinateLsa s l with ⟨-, h⟩ | h
    · exact ⟨_, _, h, hnone, hnone⟩
    · exact ⟨_, _, h, horigin, hnone⟩

/-- Every install, removal and refresh is an edit. -/
theorem exists_edits_install (s : Nlsr) (l : AnyLsa) :
    ∃ added removed, Edits s (s.install l) added removed := by
  obtain ⟨added, removed, h, -⟩ := exists_edits_install_origin s l
  exact ⟨added, removed, h⟩

theorem exists_edits_removeNameLsa (s : Nlsr) (key : Name) :
    ∃ added removed, Edits s (s.removeNameLsa key) added removed := by
  cases h : s.lsdb.findNameLsa key with
  | none => rw [removeNameLsa_of_none h]; exact ⟨_, _, (SameTables.refl s).edits⟩
  | some l => exact ⟨_, _, edits_removeNameLsa h⟩

theorem exists_edits_removeAdjLsa (s : Nlsr) (key : Name) :
    ∃ added removed, Edits s (s.removeAdjLsa key) added removed := by
  cases h : s.lsdb.findAdjLsa key with
  | none => rw [removeAdjLsa_of_none h]; exact ⟨_, _, (SameTables.refl s).edits⟩
  | some l => exact ⟨_, _, edits_removeAdjLsa h⟩

theorem exists_edits_removeCoordinateLsa (s : Nlsr) (key : Name) :
    ∃ added removed, Edits s (s.removeCoordinateLsa key) added removed := by
  cases h : s.lsdb.findCoordinateLsa key with
  | none => rw [removeCoordinateLsa_of_none h]; exact ⟨_, _, (SameTables.refl s).edits⟩
  | some l => exact ⟨_, _, edits_removeCoordinateLsa h⟩

theorem edits_refreshNameLsa (s : Nlsr) (chk : NameLsa) : Edits s (s.refreshNameLsa chk) [] [] :=
  SameTables.edits ⟨rfl, rfl, rfl, rfl⟩

theorem edits_refreshAdjLsa (s : Nlsr) (chk : AdjLsa) : Edits s (s.refreshAdjLsa chk) [] [] :=
  SameTables.edits ⟨rfl, rfl, rfl, rfl⟩

theorem edits_refreshCoordinateLsa (s : Nlsr) (chk : CoordinateLsa) :
    Edits s (s.refreshCoordinateLsa chk) [] [] :=
  SameTables.edits ⟨rfl, rfl, rfl, rfl⟩

end Nlsr

end LinkState
