import LinkState.Operations

/-!
# Route origins

The name prefix table records the origins of a name; the database says why. A pair of a name
and an origin is *backed* by an LSA of another router: by any of its three LSAs if the name is
the origin's own, by its Name LSA if the LSA lists the name.

* `recorded_backed`: in every reachable state every recorded pair is backed, and every entry has
  an origin. Nothing stale is left behind.
* `backed_recorded_iff`: every backed pair is recorded in every state of a run exactly if no
  step of the run takes out a pair that another LSA, or the rest of the same LSA, still backs.
  A removal or an expiration of one LSA takes the pair of the origin with itself out whether or
  not the origin has other LSAs.
-/

namespace LinkState

namespace Nlsr

/-! ## Backed pairs -/

def HasNameLsa (s : Nlsr) (o : Name) : Prop := s.lsdb.nameLsdb.contains (NameLsa.key o)

def HasAdjLsa (s : Nlsr) (o : Name) : Prop := s.lsdb.adjLsdb.contains (AdjLsa.key o)

def HasCoordinateLsa (s : Nlsr) (o : Name) : Prop :=
  s.lsdb.corLsdb.contains (CoordinateLsa.key o)

/-- The stored Name LSA of the origin lists the name. -/
def Lists (s : Nlsr) (o n : Name) : Prop :=
  ∃ l, s.lsdb.findNameLsa (NameLsa.key o) = some l ∧ n ∈ l.npl

/-- Some LSA of another router backs the pair. -/
def Backed (s : Nlsr) (n o : Name) : Prop :=
  o ≠ s.routerPrefix ∧
    ((n = o ∧ (s.HasNameLsa o ∨ s.HasAdjLsa o ∨ s.HasCoordinateLsa o)) ∨
      (n ≠ s.routerPrefix ∧ s.Lists o n))

/-- What the LSAs of every origin are, seen through the three look-ups. -/
structure Sources (t : Nlsr) (nameLsa adjLsa coordinateLsa : Name → Prop)
    (lists : Name → Name → Prop) : Prop where
  hasNameLsa : ∀ o, t.HasNameLsa o ↔ nameLsa o
  hasAdjLsa : ∀ o, t.HasAdjLsa o ↔ adjLsa o
  hasCoordinateLsa : ∀ o, t.HasCoordinateLsa o ↔ coordinateLsa o
  lists_iff : ∀ o n, t.Lists o n ↔ lists o n

theorem sources_of_eq {s t : Nlsr} (hname : t.lsdb.nameLsdb = s.lsdb.nameLsdb)
    (hadj : t.lsdb.adjLsdb = s.lsdb.adjLsdb) (hcor : t.lsdb.corLsdb = s.lsdb.corLsdb) :
    t.Sources s.HasNameLsa s.HasAdjLsa s.HasCoordinateLsa s.Lists where
  hasNameLsa o := by rw [HasNameLsa, hname, ← HasNameLsa]
  hasAdjLsa o := by rw [HasAdjLsa, hadj, ← HasAdjLsa]
  hasCoordinateLsa o := by rw [HasCoordinateLsa, hcor, ← HasCoordinateLsa]
  lists_iff o n := by rw [Lists, Lsdb.findNameLsa, hname, ← Lsdb.findNameLsa, ← Lists]

theorem Sources.backed {s t : Nlsr} (h : t.Sources s.HasNameLsa s.HasAdjLsa s.HasCoordinateLsa
    s.Lists) (hrp : t.routerPrefix = s.routerPrefix) (n o : Name) :
    t.Backed n o ↔ s.Backed n o := by
  unfold Backed
  rw [hrp, h.hasNameLsa, h.hasAdjLsa, h.hasCoordinateLsa, h.lists_iff]

/-- What has only the LSAs of another state has only its backed pairs. -/
theorem Sources.backed_mono {s t : Nlsr} {nameLsa adjLsa coordinateLsa : Name → Prop}
    {lists : Name → Name → Prop} (h : t.Sources nameLsa adjLsa coordinateLsa lists)
    (hrp : t.routerPrefix = s.routerPrefix) (hname : ∀ o, nameLsa o → s.HasNameLsa o)
    (hadj : ∀ o, adjLsa o → s.HasAdjLsa o) (hcor : ∀ o, coordinateLsa o → s.HasCoordinateLsa o)
    (hlists : ∀ o n, lists o n → s.Lists o n) {n o : Name} (hb : t.Backed n o) : s.Backed n o := by
  obtain ⟨ho, hb⟩ := hb
  rw [hrp] at ho hb
  rw [h.hasNameLsa, h.hasAdjLsa, h.hasCoordinateLsa, h.lists_iff] at hb
  refine ⟨ho, hb.imp (fun hself => ⟨hself.1, ?_⟩) fun hother => ⟨hother.1, hlists o n hother.2⟩⟩
  exact hself.2.imp (hname o) (Or.imp (hadj o) (hcor o))

/-- An origin that backs something has an LSA. -/
theorem Sources.of_backed {t : Nlsr} {nameLsa adjLsa coordinateLsa : Name → Prop}
    {lists : Name → Name → Prop} (h : t.Sources nameLsa adjLsa coordinateLsa lists) {n o : Name}
    (hb : t.Backed n o) : (nameLsa o ∨ adjLsa o ∨ coordinateLsa o) ∨ lists o n := by
  obtain ⟨-, hb⟩ := hb
  rw [h.hasNameLsa, h.hasAdjLsa, h.hasCoordinateLsa, h.lists_iff] at hb
  exact hb.imp And.right And.right

theorem Lists.hasNameLsa {s : Nlsr} {o n : Name} (h : s.Lists o n) : s.HasNameLsa o := by
  obtain ⟨l, hl, -⟩ := h
  exact KeyedList.find?_isSome.2 ⟨l, KeyedList.find?_eq_some.1 hl⟩

/-! ## The look-ups after an operation -/

/-- The keys of a table after an install. -/
theorem contains_of_installs {α : Type} {key : α → Name} {version : α → Nat} {l : α}
    {update : α → α} {db db' : KeyedList key} (h : Installs version l update db db') (k : Name) :
    db'.contains k ↔ k = key l ∨ db.contains k := by
  rw [KeyedList.contains, h k]
  by_cases hk : k = key l
  · subst hk
    cases hfind : db.find? (key l) with
    | none => simp
    | some chk => by_cases hlt : version chk < version l <;> simp [hlt]
  · simp [hk, KeyedList.contains]

theorem contains_erase {α : Type} {key : α → Name} (db : KeyedList key) (k k' : Name) :
    (db.erase k).contains k' ↔ k' ≠ k ∧ db.contains k' := by
  rw [KeyedList.contains, KeyedList.find?_erase]
  by_cases hk : k' = k <;> simp [hk, KeyedList.contains]

/-- A Name LSA that an install takes: it is the first one of its origin, or a newer one. -/
def TakesNameLsa (s : Nlsr) (l : NameLsa) : Prop :=
  ∀ chk, s.lsdb.findNameLsa l.getKey = some chk → chk.lsSeqNo < l.lsSeqNo

/-- The stored names after an install: those of the new LSA if it is taken. -/
def ListsAfter (s : Nlsr) (l : NameLsa) (o n : Name) : Prop :=
  (o = l.origRouter ∧ s.TakesNameLsa l ∧ n ∈ l.npl) ∨
    (¬ (o = l.origRouter ∧ s.TakesNameLsa l) ∧ s.Lists o n)

theorem sources_installNameLsa (s : Nlsr) (l : NameLsa) :
    (s.installNameLsa l).Sources (fun o => o = l.origRouter ∨ s.HasNameLsa o) s.HasAdjLsa
      s.HasCoordinateLsa (s.ListsAfter l) := by
  obtain ⟨hdb, eid, hinst⟩ := lsdb_installNameLsa s l
  refine ⟨fun o => ?_, fun o => ?_, fun o => ?_, fun o n => ?_⟩
  · rw [HasNameLsa, contains_of_installs hinst, NameLsa.getKey, NameLsa.key_inj, HasNameLsa]
  · rw [HasAdjLsa, hdb, ← HasAdjLsa]
  · rw [HasCoordinateLsa, hdb, ← HasCoordinateLsa]
  · have hfind := hinst (NameLsa.key o)
    rw [Lists, Lsdb.findNameLsa, hfind, ListsAfter]
    by_cases ho : o = l.origRouter
    · subst ho
      rw [if_pos (show NameLsa.key l.origRouter = l.getKey from rfl)]
      cases hchk : s.lsdb.nameLsdb.find? (NameLsa.key l.origRouter) with
      | none =>
        have htakes : s.TakesNameLsa l := fun chk hc => by
          rw [Lsdb.findNameLsa, NameLsa.getKey, hchk] at hc
          exact absurd hc (Option.some_ne_none chk).symm
        simp [htakes]
      | some chk =>
        have htakes : s.TakesNameLsa l ↔ chk.lsSeqNo.toNat < l.lsSeqNo.toNat := by
          rw [← UInt32.lt_iff_toNat_lt]
          constructor
          · exact fun h => h chk hchk
          · intro h chk' hc
            rw [Lsdb.findNameLsa, NameLsa.getKey, hchk] at hc
            exact Option.some.inj hc ▸ h
        have hlists : s.Lists l.origRouter n ↔ n ∈ chk.npl := by
          rw [Lists, Lsdb.findNameLsa, hchk]
          simp
        by_cases hlt : chk.lsSeqNo.toNat < l.lsSeqNo.toNat
        · have hmem : n ∈ (updatedNameLsa chk l eid).npl ↔ n ∈ l.npl := mem_patchedNames
          simp [htakes, hlt, hmem]
        · simp [htakes, hlt, hlists]
    · rw [if_neg (show ¬ NameLsa.key o = l.getKey from fun hk => ho (NameLsa.key_injective hk))]
      simp only [ho, false_and, not_false_eq_true, true_and, false_or]
      rfl

theorem sources_installAdjLsa (s : Nlsr) (l : AdjLsa) :
    (s.installAdjLsa l).Sources s.HasNameLsa (fun o => o = l.origRouter ∨ s.HasAdjLsa o)
      s.HasCoordinateLsa s.Lists := by
  obtain ⟨hdb, eid, hinst⟩ := lsdb_installAdjLsa s l
  refine ⟨fun o => ?_, fun o => ?_, fun o => ?_, fun o n => ?_⟩
  · rw [HasNameLsa, hdb, ← HasNameLsa]
  · rw [HasAdjLsa, contains_of_installs hinst, AdjLsa.getKey, AdjLsa.key_inj, HasAdjLsa]
  · rw [HasCoordinateLsa, hdb, ← HasCoordinateLsa]
  · rw [Lists, Lsdb.findNameLsa, hdb]; rfl

theorem sources_installCoordinateLsa (s : Nlsr) (l : CoordinateLsa) :
    (s.installCoordinateLsa l).Sources s.HasNameLsa s.HasAdjLsa
      (fun o => o = l.origRouter ∨ s.HasCoordinateLsa o) s.Lists := by
  obtain ⟨hdb, eid, hinst⟩ := lsdb_installCoordinateLsa s l
  refine ⟨fun o => ?_, fun o => ?_, fun o => ?_, fun o n => ?_⟩
  · rw [HasNameLsa, hdb, ← HasNameLsa]
  · rw [HasAdjLsa, hdb, ← HasAdjLsa]
  · rw [HasCoordinateLsa, contains_of_installs hinst, CoordinateLsa.getKey,
      CoordinateLsa.key_inj, HasCoordinateLsa]
  · rw [Lists, Lsdb.findNameLsa, hdb]; rfl

theorem sources_removeNameLsa {s : Nlsr} {key : Name} {l : NameLsa}
    (h : s.lsdb.findNameLsa key = some l) :
    (s.removeNameLsa key).Sources (fun o => o ≠ l.origRouter ∧ s.HasNameLsa o) s.HasAdjLsa
      s.HasCoordinateLsa (fun o n => o ≠ l.origRouter ∧ s.Lists o n) := by
  have hkey : key = NameLsa.key l.origRouter := (KeyedList.key_of_find? h).symm
  rw [removeNameLsa_of_some h, hkey]
  refine ⟨fun o => ?_, fun o => Iff.rfl, fun o => Iff.rfl, fun o n => ?_⟩
  · show (s.lsdb.nameLsdb.erase _).contains _ ↔ _
    rw [contains_erase, Ne, NameLsa.key_inj, HasNameLsa]
  · show (∃ l', (s.lsdb.nameLsdb.erase _).find? _ = some l' ∧ n ∈ l'.npl) ↔ _
    rw [KeyedList.find?_erase]
    by_cases ho : o = l.origRouter
    · simp [ho]
    · rw [if_neg fun hk => ho (NameLsa.key_injective hk)]
      exact (and_iff_right ho).symm

theorem sources_removeAdjLsa {s : Nlsr} {key : Name} {l : AdjLsa}
    (h : s.lsdb.findAdjLsa key = some l) :
    (s.removeAdjLsa key).Sources s.HasNameLsa (fun o => o ≠ l.origRouter ∧ s.HasAdjLsa o)
      s.HasCoordinateLsa s.Lists := by
  have hkey : key = AdjLsa.key l.origRouter := (KeyedList.key_of_find? h).symm
  rw [removeAdjLsa_of_some h, hkey]
  refine ⟨fun o => Iff.rfl, fun o => ?_, fun o => Iff.rfl, fun o n => Iff.rfl⟩
  show (s.lsdb.adjLsdb.erase _).contains _ ↔ _
  rw [contains_erase, Ne, AdjLsa.key_inj, HasAdjLsa]

theorem sources_removeCoordinateLsa {s : Nlsr} {key : Name} {l : CoordinateLsa}
    (h : s.lsdb.findCoordinateLsa key = some l) :
    (s.removeCoordinateLsa key).Sources s.HasNameLsa s.HasAdjLsa
      (fun o => o ≠ l.origRouter ∧ s.HasCoordinateLsa o) s.Lists := by
  have hkey : key = CoordinateLsa.key l.origRouter := (KeyedList.key_of_find? h).symm
  rw [removeCoordinateLsa_of_some h, hkey]
  refine ⟨fun o => Iff.rfl, fun o => Iff.rfl, fun o => ?_, fun o n => Iff.rfl⟩
  show (s.lsdb.corLsdb.erase _).contains _ ↔ _
  rw [contains_erase, Ne, CoordinateLsa.key_inj, HasCoordinateLsa]

/-! ## What keeps the origins -/

theorem findAdjLsa_eq_none_iff {s : Nlsr} {o : Name} :
    s.lsdb.findAdjLsa (AdjLsa.key o) = none ↔ ¬ s.HasAdjLsa o := by
  rw [HasAdjLsa, KeyedList.contains, Lsdb.findAdjLsa]
  cases s.lsdb.adjLsdb.find? (AdjLsa.key o) <;> simp

theorem findCoordinateLsa_eq_none_iff {s : Nlsr} {o : Name} :
    s.lsdb.findCoordinateLsa (CoordinateLsa.key o) = none ↔ ¬ s.HasCoordinateLsa o := by
  rw [HasCoordinateLsa, KeyedList.contains, Lsdb.findCoordinateLsa]
  cases s.lsdb.corLsdb.find? (CoordinateLsa.key o) <;> simp

/-- The recorded pairs stay, and every origin has the LSAs it had. -/
structure KeepsOrigins (s t : Nlsr) : Prop where
  routerPrefix : t.routerPrefix = s.routerPrefix
  recorded_iff : ∀ n o, t.Recorded n o ↔ s.Recorded n o
  entriesHaveOrigins : s.EntriesHaveOrigins → t.EntriesHaveOrigins
  sources : t.Sources s.HasNameLsa s.HasAdjLsa s.HasCoordinateLsa s.Lists

theorem Edits.keepsOrigins {s t : Nlsr} (h : Edits s t [] [])
    (hsrc : t.Sources s.HasNameLsa s.HasAdjLsa s.HasCoordinateLsa s.Lists) :
    KeepsOrigins s t where
  routerPrefix := h.routerPrefix
  recorded_iff n o := by simp [h.recorded_iff]
  entriesHaveOrigins := h.entriesHaveOrigins
  sources := hsrc

theorem Quiet.keepsOrigins {s t : Nlsr} (h : Quiet s t) : KeepsOrigins s t :=
  h.sameTables.edits.keepsOrigins (sources_of_eq h.nameLsdb h.adjLsdb h.corLsdb)

theorem keepsOrigins_refreshNameLsa {s : Nlsr} {key : Name} {chk : NameLsa}
    (h : s.lsdb.findNameLsa key = some chk) : KeepsOrigins s (s.refreshNameLsa chk) := by
  obtain ⟨hmem, rfl⟩ := KeyedList.find?_eq_some.1 h
  refine (edits_refreshNameLsa s chk).keepsOrigins
    ⟨fun o => ?_, fun o => Iff.rfl, fun o => Iff.rfl, fun o n => ?_⟩
  · show (s.lsdb.nameLsdb.replace _).contains _ ↔ _
    rw [KeyedList.contains_replace]
    rfl
  · show (∃ l, (s.lsdb.nameLsdb.replace _).find? _ = some l ∧ n ∈ l.npl) ↔ _
    rw [KeyedList.find?_replace]
    split_ifs with ho
    · -- The refreshed LSA has the names of the stored one
      have hchk : s.lsdb.nameLsdb.find? (NameLsa.key o) = some chk := by rw [ho]; exact h
      rw [hchk, Lists, Lsdb.findNameLsa, hchk]
      simp
    · rfl

theorem keepsOrigins_refreshAdjLsa (s : Nlsr) (chk : AdjLsa) :
    KeepsOrigins s (s.refreshAdjLsa chk) := by
  refine (edits_refreshAdjLsa s chk).keepsOrigins
    ⟨fun o => Iff.rfl, fun o => ?_, fun o => Iff.rfl, fun o n => Iff.rfl⟩
  show (s.lsdb.adjLsdb.replace _).contains _ ↔ _
  rw [KeyedList.contains_replace]
  rfl

theorem keepsOrigins_refreshCoordinateLsa (s : Nlsr) (chk : CoordinateLsa) :
    KeepsOrigins s (s.refreshCoordinateLsa chk) := by
  refine (edits_refreshCoordinateLsa s chk).keepsOrigins
    ⟨fun o => Iff.rfl, fun o => Iff.rfl, fun o => ?_, fun o n => Iff.rfl⟩
  show (s.lsdb.corLsdb.replace _).contains _ ↔ _
  rw [KeyedList.contains_replace]
  rfl

theorem keepsOrigins_calculate (math : MathLib) (s : Nlsr) : KeepsOrigins s (s.calculate math) := by
  have hframe := onlyRouting_calculate math s
  rw [OnlyRouting] at hframe
  have hrp : (s.calculate math).routerPrefix = s.routerPrefix := by rw [hframe]; rfl
  have hsrc := sources_of_eq (s := s) (t := s.calculate math)
    (by rw [hframe]) (by rw [hframe]) (by rw [hframe])
  rcases namePrefixTable_calculate math s with h | ⟨s', hs', h⟩
  · exact ⟨hrp, recorded_congr h, entriesHaveOrigins_congr h, hsrc⟩
  · refine ⟨hrp, fun n o => ?_, fun hs => ?_, hsrc⟩
    · rw [recorded_congr h, recorded_updateWithNewRoute, recorded_congr hs']
    · refine entriesHaveOrigins_congr h ?_
      rw [updateWithNewRoute_eq]
      exact entriesHaveOrigins_addEntries (entriesHaveOrigins_congr hs' hs) _

theorem keepsOrigins_fibRemove (s : Nlsr) (name : Name) : KeepsOrigins s (s.fibRemove name) := by
  have honly := onlyFib_fibRemove s name
  have hnpt := honly.namePrefixTable
  rw [OnlyFib] at honly
  refine ⟨?_, recorded_congr hnpt, entriesHaveOrigins_congr hnpt, sources_of_eq ?_ ?_ ?_⟩ <;>
    rw [honly]
  rfl

/-! ## Nothing stale -/

/-- Every recorded pair is backed, and every entry has an origin. -/
def OriginsBacked (s : Nlsr) : Prop :=
  (∀ n o, s.Recorded n o → s.Backed n o) ∧ s.EntriesHaveOrigins

/-- An operation leaves nothing stale if what it enters is backed, and what it leaves in stays
backed. -/
theorem Edits.originsBacked {s t : Nlsr} {added removed : List (Name × Name)}
    (h : Edits s t added removed) (hs : s.OriginsBacked)
    (hadded : ∀ n o, (n, o) ∈ added → t.Backed n o)
    (hkept : ∀ n o, s.Backed n o → (n, o) ∉ removed → t.Backed n o) : t.OriginsBacked := by
  refine ⟨fun n o hrec => ?_, h.entriesHaveOrigins hs.2⟩
  obtain ⟨hnot, hmem⟩ := (h.recorded_iff n o).1 hrec
  rcases hmem with hmem | hmem
  · exact hadded n o hmem
  · exact hkept n o (hs.1 n o hmem) hnot

theorem KeepsOrigins.originsBacked {s t : Nlsr} (h : KeepsOrigins s t) (hs : s.OriginsBacked) :
    t.OriginsBacked :=
  ⟨fun n o hrec => (h.sources.backed h.routerPrefix n o).2 (hs.1 n o ((h.recorded_iff n o).1 hrec)),
    h.entriesHaveOrigins hs.2⟩

theorem originsBacked_installNameLsa {s : Nlsr} (hs : s.OriginsBacked) (l : NameLsa) :
    (s.installNameLsa l).OriginsBacked := by
  have hsrc := sources_installNameLsa s l
  have hrp := (onlyLsdb_installNameLsa s l).routerPrefix
  have hself : ∀ o, o ≠ s.routerPrefix → o = l.origRouter → (s.installNameLsa l).Backed o o :=
    fun o ho heq => ⟨hrp ▸ ho, Or.inl ⟨rfl, Or.inl ((hsrc.hasNameLsa o).2 (Or.inl heq))⟩⟩
  cases h : s.lsdb.findNameLsa l.getKey with
  | none =>
    have htakes : s.TakesNameLsa l := fun chk hc =>
      absurd (h.symm.trans hc) (Option.some_ne_none chk).symm
    refine (edits_installNameLsa_of_none h).originsBacked hs (fun n o hmem => ?_)
      fun n o hb _ => ?_
    · rcases List.mem_append.1 hmem with hmem | hmem
      · obtain ⟨rfl, rfl, ho⟩ := mem_originPairs.1 hmem
        exact hself _ ho rfl
      · obtain ⟨rfl, ho, hn, hne⟩ := mem_namePairs.1 hmem
        refine ⟨hrp ▸ ho, Or.inr ⟨hrp ▸ hne, (hsrc.lists_iff _ n).2 ?_⟩⟩
        exact Or.inl ⟨rfl, htakes, hn⟩
    · obtain ⟨ho, ⟨rfl, hhas⟩ | ⟨hne, l', hl', hn⟩⟩ := hb
      · refine ⟨hrp ▸ ho, Or.inl ⟨rfl, ?_⟩⟩
        rw [hsrc.hasNameLsa, hsrc.hasAdjLsa, hsrc.hasCoordinateLsa]
        exact hhas.imp_left Or.inr
      · refine ⟨hrp ▸ ho, Or.inr ⟨hrp ▸ hne, (hsrc.lists_iff o n).2 (Or.inr ⟨?_, l', hl', hn⟩)⟩⟩
        rintro ⟨rfl, -⟩
        exact Option.some_ne_none l' (hl'.symm.trans h)
  | some chk =>
    have hhas : s.HasNameLsa l.origRouter := KeyedList.find?_isSome.2
      ⟨chk, KeyedList.find?_eq_some.1 h⟩
    by_cases hlt : chk.lsSeqNo < l.lsSeqNo
    · have htakes : s.TakesNameLsa l := fun chk' hc => by
        rw [h] at hc
        exact Option.some.inj hc ▸ hlt
      refine (edits_installNameLsa_of_newer h hlt).originsBacked hs (fun n o hmem => ?_)
        fun n o hb hnot => ?_
      · obtain ⟨rfl, ho, hn, hne⟩ := mem_namePairs.1 hmem
        refine ⟨hrp ▸ ho, Or.inr ⟨hrp ▸ hne, (hsrc.lists_iff _ n).2 ?_⟩⟩
        exact Or.inl ⟨rfl, htakes, (mem_namesToAdd.1 hn).1⟩
      · obtain ⟨ho, ⟨rfl, hhas'⟩ | ⟨hne, l', hl', hn⟩⟩ := hb
        · refine ⟨hrp ▸ ho, Or.inl ⟨rfl, ?_⟩⟩
          rw [hsrc.hasNameLsa, hsrc.hasAdjLsa, hsrc.hasCoordinateLsa]
          exact hhas'.imp_left Or.inr
        · refine ⟨hrp ▸ ho, Or.inr ⟨hrp ▸ hne, (hsrc.lists_iff o n).2 ?_⟩⟩
          by_cases heq : o = l.origRouter
          · -- A stored name the update does not remove is in the new list
            subst heq
            obtain rfl : chk = l' := Option.some.inj (h.symm.trans hl')
            refine Or.inl ⟨rfl, htakes, ?_⟩
            by_contra hnew
            exact hnot (mem_namePairs.2 ⟨rfl, ho, mem_namesToRemove.2 ⟨hn, hnew⟩, hne⟩)
          · exact Or.inr ⟨fun hc => heq hc.1, l', hl', hn⟩
    · rw [installNameLsa_of_not_newer h hlt]
      exact hs

/-- The pair of its origin is all an install of the other kinds enters. -/
theorem Edits.originsBacked_of_has {s t : Nlsr} {orig : Name} (hs : s.OriginsBacked)
    (h : Edits s t [] [] ∨ Edits s t (originPairs s.routerPrefix orig) [])
    (hname : ∀ o, t.HasNameLsa o ↔ s.HasNameLsa o) (hlists : ∀ o n, t.Lists o n ↔ s.Lists o n)
    (hhas : ∀ o, s.HasAdjLsa o ∨ s.HasCoordinateLsa o → t.HasAdjLsa o ∨ t.HasCoordinateLsa o)
    (horig : t.HasAdjLsa orig ∨ t.HasCoordinateLsa orig) : t.OriginsBacked := by
  have hrp : t.routerPrefix = s.routerPrefix :=
    h.elim Edits.routerPrefix Edits.routerPrefix
  have hkept : ∀ n o, s.Backed n o → t.Backed n o := by
    rintro n o ⟨ho, ⟨rfl, hhas'⟩ | ⟨hne, hl⟩⟩
    · exact ⟨hrp ▸ ho, Or.inl ⟨rfl, hhas'.imp (hname n).2 (hhas n)⟩⟩
    · exact ⟨hrp ▸ ho, Or.inr ⟨hrp ▸ hne, (hlists o n).2 hl⟩⟩
  rcases h with h | h
  · exact h.originsBacked hs (fun _ _ hmem => absurd hmem List.not_mem_nil)
      fun n o hb _ => hkept n o hb
  · refine h.originsBacked hs (fun n o hmem => ?_) fun n o hb _ => hkept n o hb
    obtain ⟨rfl, rfl, ho⟩ := mem_originPairs.1 hmem
    exact ⟨hrp ▸ ho, Or.inl ⟨rfl, Or.inr horig⟩⟩

theorem originsBacked_install {s : Nlsr} (hs : s.OriginsBacked) (l : AnyLsa) :
    (s.install l).OriginsBacked := by
  cases l with
  | name l => exact originsBacked_installNameLsa hs l
  | adj l =>
    have hsrc := sources_installAdjLsa s l
    refine Edits.originsBacked_of_has hs ((edits_installAdjLsa s l).imp_left And.right)
      hsrc.hasNameLsa hsrc.lists_iff (fun o ho => ?_) (Or.inl ((hsrc.hasAdjLsa _).2 (Or.inl rfl)))
    exact ho.imp (fun h => (hsrc.hasAdjLsa o).2 (Or.inr h)) (hsrc.hasCoordinateLsa o).2
  | coordinate l =>
    have hsrc := sources_installCoordinateLsa s l
    refine Edits.originsBacked_of_has hs ((edits_installCoordinateLsa s l).imp_left And.right)
      hsrc.hasNameLsa hsrc.lists_iff (fun o ho => ?_)
      (Or.inr ((hsrc.hasCoordinateLsa _).2 (Or.inl rfl)))
    exact ho.imp (hsrc.hasAdjLsa o).2 fun h => (hsrc.hasCoordinateLsa o).2 (Or.inr h)

/-- A removal takes out the pair of the origin and whatever only the removed LSA backs. -/
theorem Edits.originsBacked_of_removed {s t : Nlsr} {removed : List (Name × Name)}
    (h : Edits s t [] removed) (hs : s.OriginsBacked)
    (hself : ∀ o, o ≠ s.routerPrefix → (o, o) ∉ removed →
      s.HasNameLsa o ∨ s.HasAdjLsa o ∨ s.HasCoordinateLsa o →
      t.HasNameLsa o ∨ t.HasAdjLsa o ∨ t.HasCoordinateLsa o)
    (hlists : ∀ n o, o ≠ s.routerPrefix → n ≠ s.routerPrefix → (n, o) ∉ removed →
      s.Lists o n → t.Lists o n) : t.OriginsBacked := by
  refine h.originsBacked hs (fun _ _ hmem => absurd hmem List.not_mem_nil) ?_
  rintro n o ⟨ho, ⟨rfl, hhas⟩ | ⟨hne, hl⟩⟩ hnot
  · exact ⟨h.routerPrefix ▸ ho, Or.inl ⟨rfl, hself n ho hnot hhas⟩⟩
  · exact ⟨h.routerPrefix ▸ ho, Or.inr ⟨h.routerPrefix ▸ hne, hlists n o ho hne hnot hl⟩⟩

theorem originsBacked_removeNameLsa {s : Nlsr} (hs : s.OriginsBacked) (key : Name) :
    (s.removeNameLsa key).OriginsBacked := by
  cases h : s.lsdb.findNameLsa key with
  | none => rw [removeNameLsa_of_none h]; exact hs
  | some l =>
    have hsrc := sources_removeNameLsa h
    refine (edits_removeNameLsa h).originsBacked_of_removed hs (fun o ho hnot hhas => ?_)
      fun n o ho hne hnot hl => ?_
    · have hne : o ≠ l.origRouter := by
        rintro rfl
        exact hnot (List.mem_append_left _ (mem_originPairs.2 ⟨rfl, rfl, ho⟩))
      rw [hsrc.hasNameLsa, hsrc.hasAdjLsa, hsrc.hasCoordinateLsa]
      exact hhas.imp_left fun h => ⟨hne, h⟩
    · refine (hsrc.lists_iff o n).2 ⟨?_, hl⟩
      rintro rfl
      obtain ⟨l', hl', hn⟩ := hl
      have hkey : key = NameLsa.key l.origRouter := (KeyedList.key_of_find? h).symm
      obtain rfl : l = l' := Option.some.inj (h.symm.trans (hkey ▸ hl'))
      exact hnot (List.mem_append_right _ (mem_namePairs.2 ⟨rfl, ho, hn, hne⟩))

theorem originsBacked_removeAdjLsa {s : Nlsr} (hs : s.OriginsBacked) (key : Name) :
    (s.removeAdjLsa key).OriginsBacked := by
  cases h : s.lsdb.findAdjLsa key with
  | none => rw [removeAdjLsa_of_none h]; exact hs
  | some l =>
    have hsrc := sources_removeAdjLsa h
    refine (edits_removeAdjLsa h).originsBacked_of_removed hs (fun o ho hnot hhas => ?_)
      fun n o _ _ _ hl => (hsrc.lists_iff o n).2 hl
    have hne : o ≠ l.origRouter := by
      rintro rfl
      exact hnot (mem_originPairs.2 ⟨rfl, rfl, ho⟩)
    rw [hsrc.hasNameLsa, hsrc.hasAdjLsa, hsrc.hasCoordinateLsa]
    exact hhas.imp_right (Or.imp_left fun h => ⟨hne, h⟩)

theorem originsBacked_removeCoordinateLsa {s : Nlsr} (hs : s.OriginsBacked) (key : Name) :
    (s.removeCoordinateLsa key).OriginsBacked := by
  cases h : s.lsdb.findCoordinateLsa key with
  | none => rw [removeCoordinateLsa_of_none h]; exact hs
  | some l =>
    have hsrc := sources_removeCoordinateLsa h
    refine (edits_removeCoordinateLsa h).originsBacked_of_removed hs (fun o ho hnot hhas => ?_)
      fun n o _ _ _ hl => (hsrc.lists_iff o n).2 hl
    have hne : o ≠ l.origRouter := by
      rintro rfl
      exact hnot (mem_originPairs.2 ⟨rfl, rfl, ho⟩)
    rw [hsrc.hasNameLsa, hsrc.hasAdjLsa, hsrc.hasCoordinateLsa]
    exact hhas.imp_right (Or.imp_right fun h => ⟨hne, h⟩)

/-- **Every operation leaves nothing stale.** -/
theorem originsBacked_apply (math : MathLib) {s : Nlsr} (hs : s.OriginsBacked) (op : Op) :
    (s.apply math op).OriginsBacked := by
  cases op with
  | none => exact hs
  | install l => exact originsBacked_install hs l
  | removeNameLsa key => exact originsBacked_removeNameLsa hs key
  | removeAdjLsa key => exact originsBacked_removeAdjLsa hs key
  | removeCoordinateLsa key => exact originsBacked_removeCoordinateLsa hs key
  | refreshNameLsa key =>
    dsimp only [apply]
    split
    · exact hs
    · next chk h => exact (keepsOrigins_refreshNameLsa h).originsBacked hs
  | refreshAdjLsa key =>
    dsimp only [apply]
    split
    · exact hs
    · next chk h => exact (keepsOrigins_refreshAdjLsa s chk).originsBacked hs
  | refreshCoordinateLsa key =>
    dsimp only [apply]
    split
    · exact hs
    · next chk h => exact (keepsOrigins_refreshCoordinateLsa s chk).originsBacked hs
  | calculate => exact (keepsOrigins_calculate math s).originsBacked hs
  | fibRemove name => exact (keepsOrigins_fibRemove s name).originsBacked hs

theorem originsBacked_step (math : MathLib) (s : Nlsr) (e : Event) (hs : s.OriginsBacked) :
    (s.step math e).OriginsBacked := by
  obtain ⟨s₁, h₁, h₂⟩ := step_spec math s e
  exact h₂.keepsOrigins.originsBacked
    (originsBacked_apply math (h₁.keepsOrigins.originsBacked hs) _)

theorem not_recorded_of_blank {s : Nlsr} (h : Blank s) (n o : Name) : ¬ s.Recorded n o := by
  rw [Recorded, origins, h.namePrefixTable, KeyedList.find?_empty]
  exact Bool.false_ne_true

theorem originsBacked_of_blank {s : Nlsr} (h : Blank s) : s.OriginsBacked := by
  refine ⟨fun n o hrec => absurd hrec (not_recorded_of_blank h n o), fun n hn => ?_⟩
  rw [h.namePrefixTable] at hn
  exact absurd hn Bool.false_ne_true

/-! ## Nothing lost -/

/-- Every backed pair is recorded. -/
def BackedRecorded (s : Nlsr) : Prop := ∀ n o, s.Backed n o → s.Recorded n o

/-- Where an operation enters all that is newly backed, nothing is lost exactly if it takes
nothing out that is backed afterwards. -/
theorem Edits.backedRecorded_iff {s t : Nlsr} {added removed : List (Name × Name)}
    (h : Edits s t added removed) (hs : s.BackedRecorded)
    (hadded : ∀ n o, t.Backed n o → (n, o) ∈ added ∨ s.Backed n o) :
    t.BackedRecorded ↔ ∀ n o, t.Backed n o → (n, o) ∉ removed := by
  refine forall₂_congr fun n o => imp_congr_right fun hb => ?_
  rw [h.recorded_iff]
  exact and_iff_left ((hadded n o hb).imp_right (hs n o))

theorem KeepsOrigins.backedRecorded {s t : Nlsr} (h : KeepsOrigins s t)
    (hs : s.BackedRecorded) : t.BackedRecorded := fun n o hb =>
  (h.recorded_iff n o).2 (hs n o ((h.sources.backed h.routerPrefix n o).1 hb))

/-- Nothing that stays backed is taken out: an LSA of another router is removed only when that
router has no LSA of another kind, and an update of a Name LSA keeps the router's own name if
it was listed. -/
def KeepsBacked (s : Nlsr) : Op → Prop
  | .install (.name l) => ∀ chk, s.lsdb.findNameLsa l.getKey = some chk →
      chk.lsSeqNo < l.lsSeqNo → l.origRouter ≠ s.routerPrefix →
      l.origRouter ∈ chk.npl → l.origRouter ∈ l.npl
  | .removeNameLsa key => ∀ l, s.lsdb.findNameLsa key = some l →
      l.origRouter ≠ s.routerPrefix →
      ¬ (s.HasAdjLsa l.origRouter ∨ s.HasCoordinateLsa l.origRouter)
  | .removeAdjLsa key => ∀ l, s.lsdb.findAdjLsa key = some l →
      l.origRouter ≠ s.routerPrefix →
      ¬ (s.HasNameLsa l.origRouter ∨ s.HasCoordinateLsa l.origRouter)
  | .removeCoordinateLsa key => ∀ l, s.lsdb.findCoordinateLsa key = some l →
      l.origRouter ≠ s.routerPrefix →
      ¬ (s.HasNameLsa l.origRouter ∨ s.HasAdjLsa l.origRouter)
  | _ => True

theorem backedRecorded_installNameLsa_iff {s : Nlsr} (hs : s.BackedRecorded) (l : NameLsa) :
    (s.installNameLsa l).BackedRecorded ↔ s.KeepsBacked (.install (.name l)) := by
  have hsrc := sources_installNameLsa s l
  have hrp := (onlyLsdb_installNameLsa s l).routerPrefix
  cases h : s.lsdb.findNameLsa l.getKey with
  | none =>
    have hkeeps : s.KeepsBacked (.install (.name l)) := fun chk hc =>
      absurd (h.symm.trans hc) (Option.some_ne_none chk).symm
    refine iff_of_true ?_ hkeeps
    refine ((edits_installNameLsa_of_none h).backedRecorded_iff hs ?_).2
      fun _ _ _ => List.not_mem_nil
    rintro n o ⟨ho, ⟨rfl, hhas⟩ | ⟨hne, hl⟩⟩
    · rw [hrp] at ho
      rw [hsrc.hasNameLsa, hsrc.hasAdjLsa, hsrc.hasCoordinateLsa, or_assoc] at hhas
      rcases hhas with rfl | hhas
      · exact Or.inl (List.mem_append_left _ (mem_originPairs.2 ⟨rfl, rfl, ho⟩))
      · exact Or.inr ⟨ho, Or.inl ⟨rfl, hhas⟩⟩
    · rw [hrp] at ho hne
      rcases (hsrc.lists_iff o n).1 hl with ⟨rfl, -, hn⟩ | ⟨-, hl⟩
      · exact Or.inl (List.mem_append_right _ (mem_namePairs.2 ⟨rfl, ho, hn, hne⟩))
      · exact Or.inr ⟨ho, Or.inr ⟨hne, hl⟩⟩
  | some chk =>
    have hhas : s.HasNameLsa l.origRouter := KeyedList.find?_isSome.2
      ⟨chk, KeyedList.find?_eq_some.1 h⟩
    by_cases hlt : chk.lsSeqNo < l.lsSeqNo
    · have htakes : s.TakesNameLsa l := fun chk' hc => by
        rw [h] at hc
        exact Option.some.inj hc ▸ hlt
      have hkeeps : s.KeepsBacked (.install (.name l)) ↔
          (l.origRouter ≠ s.routerPrefix → l.origRouter ∈ chk.npl → l.origRouter ∈ l.npl) := by
        constructor
        · exact fun hk => hk chk h hlt
        · intro hk chk' hc _
          rw [h] at hc
          exact Option.some.inj hc ▸ hk
      rw [hkeeps, (edits_installNameLsa_of_newer h hlt).backedRecorded_iff hs]
      · constructor
        · -- The Name LSA stays, so the pair of the origin stays backed
          intro hdisj ho hold
          by_contra hnew
          refine hdisj l.origRouter l.origRouter ⟨hrp ▸ ho, Or.inl ⟨rfl, Or.inl ?_⟩⟩
            (mem_namePairs.2 ⟨rfl, ho, mem_namesToRemove.2 ⟨hold, hnew⟩, ho⟩)
          exact (hsrc.hasNameLsa _).2 (Or.inl rfl)
        · rintro hkeep n o ⟨ho, hb⟩ hmem
          obtain ⟨rfl, ho', hn, hne⟩ := mem_namePairs.1 hmem
          obtain ⟨hold, hnew⟩ := mem_namesToRemove.1 hn
          rcases hb with ⟨rfl, -⟩ | ⟨-, hl⟩
          · exact hnew (hkeep ho' hold)
          · rcases (hsrc.lists_iff _ n).1 hl with ⟨-, -, hin⟩ | ⟨hnot, -⟩
            · exact hnew hin
            · exact hnot ⟨rfl, htakes⟩
      · rintro n o ⟨ho, ⟨rfl, hhas'⟩ | ⟨hne, hl⟩⟩
        · rw [hsrc.hasNameLsa, hsrc.hasAdjLsa, hsrc.hasCoordinateLsa] at hhas'
          refine Or.inr ⟨hrp ▸ ho, Or.inl ⟨rfl, hhas'.imp_left ?_⟩⟩
          rintro (rfl | h)
          · exact hhas
          · exact h
        · rw [hrp] at ho hne
          rcases (hsrc.lists_iff o n).1 hl with ⟨rfl, -, hn⟩ | ⟨-, hl⟩
          · by_cases hold : n ∈ chk.npl
            · exact Or.inr ⟨ho, Or.inr ⟨hne, chk, h, hold⟩⟩
            · exact Or.inl (mem_namePairs.2 ⟨rfl, ho, mem_namesToAdd.2 ⟨hn, hold⟩, hne⟩)
          · exact Or.inr ⟨ho, Or.inr ⟨hne, hl⟩⟩
    · rw [installNameLsa_of_not_newer h hlt]
      refine iff_of_true hs fun chk' hc hlt' => ?_
      rw [h] at hc
      exact absurd (Option.some.inj hc ▸ hlt') hlt

/-- An install of the other kinds loses nothing. -/
theorem Edits.backedRecorded_of_has {s t : Nlsr} {orig : Name} {has : Name → Prop}
    (hs : s.BackedRecorded)
    (h : (has orig ∧ Edits s t [] []) ∨ Edits s t (originPairs s.routerPrefix orig) [])
    (hhas : ∀ o, t.HasNameLsa o ∨ t.HasAdjLsa o ∨ t.HasCoordinateLsa o →
      o = orig ∨ s.HasNameLsa o ∨ s.HasAdjLsa o ∨ s.HasCoordinateLsa o)
    (horig : has orig → s.HasNameLsa orig ∨ s.HasAdjLsa orig ∨ s.HasCoordinateLsa orig)
    (hlists : ∀ o n, t.Lists o n ↔ s.Lists o n) : t.BackedRecorded := by
  rcases h with ⟨hh, h⟩ | h
  · refine (h.backedRecorded_iff hs ?_).2 fun _ _ _ => List.not_mem_nil
    rintro n o ⟨ho, ⟨rfl, hb⟩ | ⟨hne, hl⟩⟩
    · refine Or.inr ⟨h.routerPrefix ▸ ho, Or.inl ⟨rfl, ?_⟩⟩
      rcases hhas n hb with rfl | hb
      · exact horig hh
      · exact hb
    · exact Or.inr ⟨h.routerPrefix ▸ ho, Or.inr ⟨h.routerPrefix ▸ hne, (hlists o n).1 hl⟩⟩
  · refine (h.backedRecorded_iff hs ?_).2 fun _ _ _ => List.not_mem_nil
    rintro n o ⟨ho, ⟨rfl, hb⟩ | ⟨hne, hl⟩⟩
    · rcases hhas n hb with rfl | hb
      · exact Or.inl (mem_originPairs.2 ⟨rfl, rfl, h.routerPrefix ▸ ho⟩)
      · exact Or.inr ⟨h.routerPrefix ▸ ho, Or.inl ⟨rfl, hb⟩⟩
    · exact Or.inr ⟨h.routerPrefix ▸ ho, Or.inr ⟨h.routerPrefix ▸ hne, (hlists o n).1 hl⟩⟩

theorem backedRecorded_install_iff {s : Nlsr} (hs : s.BackedRecorded) (l : AnyLsa) :
    (s.install l).BackedRecorded ↔ s.KeepsBacked (.install l) := by
  cases l with
  | name l => exact backedRecorded_installNameLsa_iff hs l
  | adj l =>
    have hsrc := sources_installAdjLsa s l
    have hedits := (edits_installAdjLsa s l).imp_left
      (And.imp_left fun h => not_not.1 (mt findAdjLsa_eq_none_iff.2 h))
    refine iff_of_true (Edits.backedRecorded_of_has hs hedits (fun o ho => ?_)
      (fun h => Or.inr (Or.inl h)) hsrc.lists_iff) trivial
    dsimp only [install] at ho
    rw [hsrc.hasNameLsa, hsrc.hasAdjLsa, hsrc.hasCoordinateLsa] at ho
    rcases ho with hname | (horig | hadj) | hcor
    · exact Or.inr (Or.inl hname)
    · exact Or.inl horig
    · exact Or.inr (Or.inr (Or.inl hadj))
    · exact Or.inr (Or.inr (Or.inr hcor))
  | coordinate l =>
    have hsrc := sources_installCoordinateLsa s l
    have hedits := (edits_installCoordinateLsa s l).imp_left
      (And.imp_left fun h => not_not.1 (mt findCoordinateLsa_eq_none_iff.2 h))
    refine iff_of_true (Edits.backedRecorded_of_has hs hedits (fun o ho => ?_)
      (fun h => Or.inr (Or.inr h)) hsrc.lists_iff) trivial
    dsimp only [install] at ho
    rw [hsrc.hasNameLsa, hsrc.hasAdjLsa, hsrc.hasCoordinateLsa] at ho
    rcases ho with hname | hadj | horig | hcor
    · exact Or.inr (Or.inl hname)
    · exact Or.inr (Or.inr (Or.inl hadj))
    · exact Or.inl horig
    · exact Or.inr (Or.inr (Or.inr hcor))

theorem forall_eq_some_iff {α : Type*} {x : Option α} {a : α} (h : x = some a) {p : α → Prop} :
    (∀ b, x = some b → p b) ↔ p a := by
  subst h
  simp

/-- A removal loses something exactly if the origin keeps an LSA. -/
theorem Edits.backedRecorded_iff_of_removed {s t : Nlsr} {removed : List (Name × Name)}
    {orig : Name} {others : Prop} (h : Edits s t [] removed) (hs : s.BackedRecorded)
    (hremoved : ∀ n o, (n, o) ∈ removed → o = orig ∧ orig ≠ s.routerPrefix)
    (horig : orig ≠ s.routerPrefix → (orig, orig) ∈ removed)
    (hbacked : ∀ n o, t.Backed n o → s.Backed n o)
    (hothers : ∀ n, t.Backed n orig → others)
    (hself : others → t.HasNameLsa orig ∨ t.HasAdjLsa orig ∨ t.HasCoordinateLsa orig) :
    t.BackedRecorded ↔ (orig ≠ s.routerPrefix → ¬ others) := by
  rw [h.backedRecorded_iff hs fun n o hb => Or.inr (hbacked n o hb)]
  constructor
  · intro hdisj ho hoth
    exact hdisj orig orig ⟨h.routerPrefix ▸ ho, Or.inl ⟨rfl, hself hoth⟩⟩ (horig ho)
  · intro hno n o hb hmem
    obtain ⟨rfl, ho⟩ := hremoved n o hmem
    exact hno ho (hothers n hb)

theorem backedRecorded_removeNameLsa_iff {s : Nlsr} (hs : s.BackedRecorded) (key : Name) :
    (s.removeNameLsa key).BackedRecorded ↔ s.KeepsBacked (.removeNameLsa key) := by
  cases h : s.lsdb.findNameLsa key with
  | none =>
    rw [removeNameLsa_of_none h]
    exact iff_of_true hs fun l hl => absurd (h.symm.trans hl) (Option.some_ne_none l).symm
  | some l =>
    have hsrc := sources_removeNameLsa h
    have hedits := edits_removeNameLsa h
    have hkeeps : s.KeepsBacked (.removeNameLsa key) ↔ (l.origRouter ≠ s.routerPrefix →
        ¬ (s.HasAdjLsa l.origRouter ∨ s.HasCoordinateLsa l.origRouter)) := forall_eq_some_iff h
    rw [hkeeps]
    refine hedits.backedRecorded_iff_of_removed hs (fun n o hmem => ?_) (fun ho => ?_)
      (fun n o hb => ?_) (fun n hb => ?_) fun hoth => ?_
    · rcases List.mem_append.1 hmem with hmem | hmem
      · exact ⟨(mem_originPairs.1 hmem).2.1, (mem_originPairs.1 hmem).2.2⟩
      · exact ⟨(mem_namePairs.1 hmem).1, (mem_namePairs.1 hmem).2.1⟩
    · exact List.mem_append_left _ (mem_originPairs.2 ⟨rfl, rfl, ho⟩)
    · exact hsrc.backed_mono hedits.routerPrefix (fun o ho => ho.2) (fun o ho => ho)
        (fun o ho => ho) (fun o n hl => hl.2) hb
    · rcases hsrc.of_backed hb with (hname | hothers) | hlists
      · exact absurd rfl hname.1
      · exact hothers
      · exact absurd rfl hlists.1
    · rw [hsrc.hasAdjLsa, hsrc.hasCoordinateLsa]
      exact Or.inr hoth

theorem backedRecorded_removeAdjLsa_iff {s : Nlsr} (hs : s.BackedRecorded) (key : Name) :
    (s.removeAdjLsa key).BackedRecorded ↔ s.KeepsBacked (.removeAdjLsa key) := by
  cases h : s.lsdb.findAdjLsa key with
  | none =>
    rw [removeAdjLsa_of_none h]
    exact iff_of_true hs fun l hl => absurd (h.symm.trans hl) (Option.some_ne_none l).symm
  | some l =>
    have hsrc := sources_removeAdjLsa h
    have hedits := edits_removeAdjLsa h
    have hkeeps : s.KeepsBacked (.removeAdjLsa key) ↔ (l.origRouter ≠ s.routerPrefix →
        ¬ (s.HasNameLsa l.origRouter ∨ s.HasCoordinateLsa l.origRouter)) := forall_eq_some_iff h
    rw [hkeeps]
    refine hedits.backedRecorded_iff_of_removed hs (fun n o hmem => ?_) (fun ho => ?_)
      (fun n o hb => ?_) (fun n hb => ?_) fun hoth => ?_
    · exact (mem_originPairs.1 hmem).2
    · exact mem_originPairs.2 ⟨rfl, rfl, ho⟩
    · exact hsrc.backed_mono hedits.routerPrefix (fun o ho => ho) (fun o ho => ho.2)
        (fun o ho => ho) (fun o n hl => hl) hb
    · rcases hsrc.of_backed hb with (hname | hadj | hcor) | hlists
      · exact Or.inl hname
      · exact absurd rfl hadj.1
      · exact Or.inr hcor
      · exact Or.inl hlists.hasNameLsa
    · rw [hsrc.hasNameLsa, hsrc.hasCoordinateLsa]
      exact hoth.imp_right Or.inr

theorem backedRecorded_removeCoordinateLsa_iff {s : Nlsr} (hs : s.BackedRecorded) (key : Name) :
    (s.removeCoordinateLsa key).BackedRecorded ↔ s.KeepsBacked (.removeCoordinateLsa key) := by
  cases h : s.lsdb.findCoordinateLsa key with
  | none =>
    rw [removeCoordinateLsa_of_none h]
    exact iff_of_true hs fun l hl => absurd (h.symm.trans hl) (Option.some_ne_none l).symm
  | some l =>
    have hsrc := sources_removeCoordinateLsa h
    have hedits := edits_removeCoordinateLsa h
    have hkeeps : s.KeepsBacked (.removeCoordinateLsa key) ↔ (l.origRouter ≠ s.routerPrefix →
        ¬ (s.HasNameLsa l.origRouter ∨ s.HasAdjLsa l.origRouter)) := forall_eq_some_iff h
    rw [hkeeps]
    refine hedits.backedRecorded_iff_of_removed hs (fun n o hmem => ?_) (fun ho => ?_)
      (fun n o hb => ?_) (fun n hb => ?_) fun hoth => ?_
    · exact (mem_originPairs.1 hmem).2
    · exact mem_originPairs.2 ⟨rfl, rfl, ho⟩
    · exact hsrc.backed_mono hedits.routerPrefix (fun o ho => ho) (fun o ho => ho)
        (fun o ho => ho.2) (fun o n hl => hl) hb
    · rcases hsrc.of_backed hb with (hname | hadj | hcor) | hlists
      · exact Or.inl hname
      · exact Or.inr hadj
      · exact absurd rfl hcor.1
      · exact Or.inl hlists.hasNameLsa
    · rw [hsrc.hasNameLsa, hsrc.hasAdjLsa]
      exact hoth.imp_right Or.inl

/-- **An operation loses nothing exactly if it takes out nothing that stays backed.** -/
theorem backedRecorded_apply_iff (math : MathLib) {s : Nlsr} (hs : s.BackedRecorded) (op : Op) :
    (s.apply math op).BackedRecorded ↔ s.KeepsBacked op := by
  cases op with
  | none => exact iff_of_true hs trivial
  | install l => exact backedRecorded_install_iff hs l
  | removeNameLsa key => exact backedRecorded_removeNameLsa_iff hs key
  | removeAdjLsa key => exact backedRecorded_removeAdjLsa_iff hs key
  | removeCoordinateLsa key => exact backedRecorded_removeCoordinateLsa_iff hs key
  | refreshNameLsa key =>
    refine iff_of_true ?_ trivial
    dsimp only [apply]
    split
    · exact hs
    · next chk h => exact (keepsOrigins_refreshNameLsa h).backedRecorded hs
  | refreshAdjLsa key =>
    refine iff_of_true ?_ trivial
    dsimp only [apply]
    split
    · exact hs
    · next chk h => exact (keepsOrigins_refreshAdjLsa s chk).backedRecorded hs
  | refreshCoordinateLsa key =>
    refine iff_of_true ?_ trivial
    dsimp only [apply]
    split
    · exact hs
    · next chk h => exact (keepsOrigins_refreshCoordinateLsa s chk).backedRecorded hs
  | calculate => exact iff_of_true ((keepsOrigins_calculate math s).backedRecorded hs) trivial
  | fibRemove name => exact iff_of_true ((keepsOrigins_fibRemove s name).backedRecorded hs) trivial

theorem Quiet.keepsBacked {s t : Nlsr} (h : Quiet s t) (op : Op) :
    t.KeepsBacked op ↔ s.KeepsBacked op := by
  have hsrc := sources_of_eq h.nameLsdb h.adjLsdb h.corLsdb
  have hname : ∀ k, t.lsdb.findNameLsa k = s.lsdb.findNameLsa k := fun k => by
    rw [Lsdb.findNameLsa, h.nameLsdb, ← Lsdb.findNameLsa]
  have hadj : ∀ k, t.lsdb.findAdjLsa k = s.lsdb.findAdjLsa k := fun k => by
    rw [Lsdb.findAdjLsa, h.adjLsdb, ← Lsdb.findAdjLsa]
  have hcor : ∀ k, t.lsdb.findCoordinateLsa k = s.lsdb.findCoordinateLsa k := fun k => by
    rw [Lsdb.findCoordinateLsa, h.corLsdb, ← Lsdb.findCoordinateLsa]
  unfold KeepsBacked
  simp only [hname, hadj, hcor, h.routerPrefix, hsrc.hasNameLsa, hsrc.hasAdjLsa,
    hsrc.hasCoordinateLsa]

theorem backedRecorded_step_iff (math : MathLib) (s : Nlsr) (e : Event) (hs : s.BackedRecorded) :
    (s.step math e).BackedRecorded ↔ s.KeepsBacked (s.opOf e) := by
  obtain ⟨s₁, h₁, h₂⟩ := step_spec math s e
  rw [← h₁.keepsBacked, ← backedRecorded_apply_iff math (h₁.keepsOrigins.backedRecorded hs)]
  exact ⟨h₂.symm.keepsOrigins.backedRecorded, h₂.keepsOrigins.backedRecorded⟩

theorem backedRecorded_of_blank {s : Nlsr} (h : Blank s) : s.BackedRecorded := by
  rintro n o ⟨-, ⟨-, hhas⟩ | ⟨-, l, hl, -⟩⟩
  · rw [HasNameLsa, HasAdjLsa, HasCoordinateLsa, h.nameLsdb, h.adjLsdb, h.corLsdb] at hhas
    rcases hhas with hhas | hhas | hhas <;> exact absurd hhas Bool.false_ne_true
  · rw [Lsdb.findNameLsa, h.nameLsdb, KeyedList.find?_empty] at hl
    exact absurd hl (Option.some_ne_none l).symm

/-- An LSA of this router loses nothing. -/
theorem keepsBacked_install_of_own {s : Nlsr} {l : AnyLsa} (h : l.origRouter = s.routerPrefix) :
    s.KeepsBacked (.install l) := by
  cases l with
  | name l => exact fun _ _ _ hne => absurd h hne
  | adj l => trivial
  | coordinate l => trivial

section run

variable (math : MathLib) (confParam : ConfParameter) (adjacencyList : AdjacencyList)
  (namePrefixList : NamePrefixList) (seqFile : Option UInt64) (now : TimePoint)

/-- **No stale route origin.** In every reachable state every recorded pair is of another
router and backed by an LSA of it that is in the database; every entry has an origin, and each
origin once. -/
theorem recorded_backed (es : List Event) :
    let s := after math confParam adjacencyList namePrefixList seqFile now es
    (∀ n o, s.Recorded n o → o ≠ s.routerPrefix ∧
      ((n = o ∧ ((∃ l ∈ s.lsdb.nameLsdb, l.origRouter = o) ∨
          (∃ l ∈ s.lsdb.adjLsdb, l.origRouter = o) ∨ ∃ l ∈ s.lsdb.corLsdb, l.origRouter = o)) ∨
        ∃ l ∈ s.lsdb.nameLsdb, l.origRouter = o ∧ n ∈ l.npl)) ∧
      ∀ entry ∈ s.namePrefixTable, entry.rteList.toList ≠ [] ∧
        (entry.rteList.toList.map RoutingTableEntry.destination).Nodup := by
  intro s
  have h : s.OriginsBacked := run_induction (originsBacked_step math)
    (initializeNlsr_induction (fun _ => originsBacked_of_blank)
      (fun _ _ hq => hq.keepsOrigins.originsBacked) (fun _ l _ hs => originsBacked_install hs l)
      confParam adjacencyList namePrefixList seqFile now) es
  refine ⟨fun n o hrec => ?_, fun entry hentry => ⟨fun hnil => ?_, entry.rteList.nodup⟩⟩
  · obtain ⟨ho, ⟨rfl, hhas⟩ | ⟨-, l, hl, hn⟩⟩ := h.1 n o hrec
    · refine ⟨ho, Or.inl ⟨rfl, hhas.imp ?_ (Or.imp ?_ ?_)⟩⟩
      · intro hc
        obtain ⟨l, hl, hk⟩ := KeyedList.find?_isSome.1 hc
        exact ⟨l, hl, NameLsa.key_injective hk⟩
      · intro hc
        obtain ⟨l, hl, hk⟩ := KeyedList.find?_isSome.1 hc
        exact ⟨l, hl, AdjLsa.key_injective hk⟩
      · intro hc
        obtain ⟨l, hl, hk⟩ := KeyedList.find?_isSome.1 hc
        exact ⟨l, hl, CoordinateLsa.key_injective hk⟩
    · obtain ⟨hmem, hk⟩ := KeyedList.find?_eq_some.1 hl
      exact ⟨ho, Or.inr ⟨l, hmem, NameLsa.key_injective hk, hn⟩⟩
  · obtain ⟨o, ho⟩ := h.2 entry.namePrefix
      (KeyedList.find?_isSome.2 ⟨entry, hentry, rfl⟩)
    rw [Recorded, origins, KeyedList.find?_of_mem hentry] at ho
    obtain ⟨rte, hrte, -⟩ := KeyedList.find?_isSome.1 ho
    rw [KeyedList.mem_def, hnil] at hrte
    exact List.not_mem_nil hrte

/-- Every LSA of another router has its origin recorded, and the names of its Name LSA. -/
structure NoLostOrigin (s : Nlsr) : Prop where
  nameLsa : ∀ l ∈ s.lsdb.nameLsdb, l.origRouter ≠ s.routerPrefix →
    s.Recorded l.origRouter l.origRouter ∧
      ∀ n ∈ l.npl, n ≠ s.routerPrefix → s.Recorded n l.origRouter
  adjLsa : ∀ l ∈ s.lsdb.adjLsdb, l.origRouter ≠ s.routerPrefix →
    s.Recorded l.origRouter l.origRouter
  coordinateLsa : ∀ l ∈ s.lsdb.corLsdb, l.origRouter ≠ s.routerPrefix →
    s.Recorded l.origRouter l.origRouter

theorem noLostOrigin_iff (s : Nlsr) : s.NoLostOrigin ↔ s.BackedRecorded := by
  constructor
  · rintro h n o ⟨ho, ⟨rfl, hhas⟩ | ⟨hne, l, hl, hn⟩⟩
    · rcases hhas with hhas | hhas | hhas
      · obtain ⟨l, hl, hk⟩ := KeyedList.find?_isSome.1 hhas
        obtain rfl := NameLsa.key_injective hk
        exact (h.nameLsa l hl ho).1
      · obtain ⟨l, hl, hk⟩ := KeyedList.find?_isSome.1 hhas
        obtain rfl := AdjLsa.key_injective hk
        exact h.adjLsa l hl ho
      · obtain ⟨l, hl, hk⟩ := KeyedList.find?_isSome.1 hhas
        obtain rfl := CoordinateLsa.key_injective hk
        exact h.coordinateLsa l hl ho
    · obtain ⟨hmem, hk⟩ := KeyedList.find?_eq_some.1 hl
      obtain rfl := NameLsa.key_injective hk
      exact (h.nameLsa l hmem ho).2 n hn hne
  · intro h
    refine ⟨fun l hl ho => ⟨?_, fun n hn hne => ?_⟩, fun l hl ho => ?_, fun l hl ho => ?_⟩
    · exact h _ _ ⟨ho, Or.inl ⟨rfl, Or.inl (KeyedList.find?_isSome.2 ⟨l, hl, rfl⟩)⟩⟩
    · exact h _ _ ⟨ho, Or.inr ⟨hne, l, KeyedList.find?_of_mem hl, hn⟩⟩
    · exact h _ _ ⟨ho, Or.inl ⟨rfl, Or.inr (Or.inl (KeyedList.find?_isSome.2 ⟨l, hl, rfl⟩))⟩⟩
    · exact h _ _ ⟨ho, Or.inl ⟨rfl, Or.inr (Or.inr (KeyedList.find?_isSome.2 ⟨l, hl, rfl⟩))⟩⟩

/-- **No lost route origin, exactly if nothing backed is taken out.** In every state of a run
every LSA of another router has its pairs recorded if and only if every step of the run keeps
what stays backed. -/
theorem backed_recorded_iff (es : List Event) :
    let s₀ := (start confParam adjacencyList namePrefixList seqFile now).initializeNlsr
    Along (step math) NoLostOrigin s₀ es ↔
      Meets (step math) (fun s e => s.KeepsBacked (s.opOf e)) s₀ es := by
  intro s₀
  have h₀ : s₀.BackedRecorded := initializeNlsr_induction (fun _ => backedRecorded_of_blank)
    (fun _ _ hq => hq.keepsOrigins.backedRecorded)
    (fun s l ho hs => (backedRecorded_install_iff hs l).2 (keepsBacked_install_of_own ho))
    confParam adjacencyList namePrefixList seqFile now
  refine along_iff_meets (I := fun _ => True) (fun _ _ _ => trivial) (fun s e _ hs => ?_) trivial
    ((noLostOrigin_iff s₀).2 h₀)
  rw [noLostOrigin_iff] at hs ⊢
  exact backedRecorded_step_iff math s e hs

end run

/-- Router a learns the Adjacency LSA and the Name LSA of router b, then the Name LSA expires:
the Adjacency LSA of b is in the database, and b is no longer an origin of its own name. -/
def afterNameLsaExpired : Nlsr :=
  after ⟨0, id, id, id, id⟩ { network := [⟨"a"⟩] } KeyedList.empty KeyedList.empty none 0
    [.installAdjLsa
        { origRouter := [⟨"b"⟩], lsSeqNo := 1, expirationTimePoint := seconds 3600 },
      .installNameLsa
        { origRouter := [⟨"b"⟩], lsSeqNo := 1, expirationTimePoint := seconds 60 },
      .clock (seconds 70), .fire 4]

theorem not_noLostOrigin_afterNameLsaExpired : ¬ afterNameLsaExpired.NoLostOrigin := by
  intro h
  have hother : ([⟨"b"⟩] : Name) ≠ afterNameLsaExpired.routerPrefix := by decide +kernel
  have hadj : (afterNameLsaExpired.lsdb.adjLsdb.contains (AdjLsa.key [⟨"b"⟩])) = true := by
    decide +kernel
  have hlost : (afterNameLsaExpired.origins [⟨"b"⟩]).contains [⟨"b"⟩] = false := by
    decide +kernel
  have hrec := (noLostOrigin_iff _).1 h [⟨"b"⟩] [⟨"b"⟩]
    ⟨hother, Or.inl ⟨rfl, Or.inr (Or.inl hadj)⟩⟩
  exact Bool.false_ne_true (hlost.symm.trans hrec)

end Nlsr

end LinkState
