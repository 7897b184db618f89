import LinkState.AllKinds

/-!
# Restarts

A router that crashes forgets everything but its sequence file. `lives` lists what each of its
incarnations announced, and `restart_never_reuses` says that a later incarnation announces only
greater numbers of each kind, and one incarnation never smaller ones.

The counters and the file do not move together: the builds of `initialize` count without
writing. What carries the argument is that a number is in the file before it is announced, and
that a restart begins past the file.

* `ownSeqNo` is the number of a stored own LSA. In every state it is the counter of its kind, so
  a refresh, which counts on from the stored number, counts on from the counter.
* `Turn` says what one event can do to the counters, the file and the announcements.
-/

namespace LinkState

namespace Nlsr

open SequencingManager

/-! ## The numbers of the own LSAs -/

/-- The number of this router's stored LSA of a kind. -/
def ownSeqNo (s : Nlsr) : Counter → Option Nat
  | .name => (s.lsdb.nameLsdb.find? (NameLsa.key s.routerPrefix)).map fun l => l.lsSeqNo.toNat
  | .adj => (s.lsdb.adjLsdb.find? (AdjLsa.key s.routerPrefix)).map fun l => l.lsSeqNo.toNat
  | .cor => (s.lsdb.corLsdb.find? (CoordinateLsa.key s.routerPrefix)).map fun l => l.lsSeqNo.toNat

/-- After an install of an own LSA the greater number is stored; other LSAs leave the own numbers
alone. -/
theorem ownSeqNo_install (s : Nlsr) (l : AnyLsa) (c : Counter) :
    (s.install l).ownSeqNo c =
      if c = l.counter ∧ l.origRouter = s.routerPrefix then
        some ((s.ownSeqNo c).elim l.lsSeqNo.toNat fun n => max n l.lsSeqNo.toNat)
      else s.ownSeqNo c := by
  cases l with
  | name l =>
    have hrp := (onlyLsdb_installNameLsa s l).routerPrefix
    obtain ⟨hdb, eid, hinst⟩ := lsdb_installNameLsa s l
    have hversion := hinst.find?_version (fun _ => rfl) (NameLsa.key s.routerPrefix)
    simp only [NameLsa.getKey, NameLsa.key_inj, eq_comm] at hversion
    have hadj : (s.installNameLsa l).lsdb.adjLsdb = s.lsdb.adjLsdb := by rw [hdb]
    have hcor : (s.installNameLsa l).lsdb.corLsdb = s.lsdb.corLsdb := by rw [hdb]
    cases c with
    | name => simpa [ownSeqNo, install, hrp, AnyLsa.counter, AnyLsa.origRouter, AnyLsa.lsSeqNo]
        using hversion
    | adj => simp [ownSeqNo, install, hrp, hadj, AnyLsa.counter]
    | cor => simp [ownSeqNo, install, hrp, hcor, AnyLsa.counter]
  | adj l =>
    have hrp := (onlyLsdb_installAdjLsa s l).routerPrefix
    obtain ⟨hdb, eid, hinst⟩ := lsdb_installAdjLsa s l
    have hversion := hinst.find?_version (fun _ => rfl) (AdjLsa.key s.routerPrefix)
    simp only [AdjLsa.getKey, AdjLsa.key_inj, eq_comm] at hversion
    have hname : (s.installAdjLsa l).lsdb.nameLsdb = s.lsdb.nameLsdb := by rw [hdb]
    have hcor : (s.installAdjLsa l).lsdb.corLsdb = s.lsdb.corLsdb := by rw [hdb]
    cases c with
    | name => simp [ownSeqNo, install, hrp, hname, AnyLsa.counter]
    | adj => simpa [ownSeqNo, install, hrp, AnyLsa.counter, AnyLsa.origRouter, AnyLsa.lsSeqNo]
        using hversion
    | cor => simp [ownSeqNo, install, hrp, hcor, AnyLsa.counter]
  | coordinate l =>
    have hrp := (onlyLsdb_installCoordinateLsa s l).routerPrefix
    obtain ⟨hdb, eid, hinst⟩ := lsdb_installCoordinateLsa s l
    have hversion := hinst.find?_version (fun _ => rfl) (CoordinateLsa.key s.routerPrefix)
    simp only [CoordinateLsa.getKey, CoordinateLsa.key_inj, eq_comm] at hversion
    have hname : (s.installCoordinateLsa l).lsdb.nameLsdb = s.lsdb.nameLsdb := by rw [hdb]
    have hadj : (s.installCoordinateLsa l).lsdb.adjLsdb = s.lsdb.adjLsdb := by rw [hdb]
    cases c with
    | name => simp [ownSeqNo, install, hrp, hname, AnyLsa.counter]
    | adj => simp [ownSeqNo, install, hrp, hadj, AnyLsa.counter]
    | cor => simpa [ownSeqNo, install, hrp, AnyLsa.counter, AnyLsa.origRouter, AnyLsa.lsSeqNo]
        using hversion

/-- A removal takes own numbers away and changes none. -/
def KeepsOwn (s t : Nlsr) : Prop := ∀ c, t.ownSeqNo c = s.ownSeqNo c ∨ t.ownSeqNo c = none

theorem keepsOwn_removeNameLsa (s : Nlsr) (key : Name) : KeepsOwn s (s.removeNameLsa key) := by
  have hrp := (onlyLsdb_removeNameLsa s key).routerPrefix
  intro c
  cases h : s.lsdb.findNameLsa key with
  | none => simp [removeNameLsa_of_none h]
  | some l =>
    have hdb := lsdb_removeNameLsa_of_some h
    cases c with
    | name =>
      simp only [ownSeqNo, hrp, hdb, Lsdb.onLsdbChange, KeyedList.find?_erase]
      split_ifs <;> simp
    | adj => simp [ownSeqNo, hrp, hdb, Lsdb.onLsdbChange]
    | cor => simp [ownSeqNo, hrp, hdb, Lsdb.onLsdbChange]

theorem keepsOwn_removeAdjLsa (s : Nlsr) (key : Name) : KeepsOwn s (s.removeAdjLsa key) := by
  have hrp := (onlyLsdb_removeAdjLsa s key).routerPrefix
  intro c
  cases h : s.lsdb.findAdjLsa key with
  | none => simp [removeAdjLsa_of_none h]
  | some l =>
    have hdb := lsdb_removeAdjLsa_of_some h
    cases c with
    | name => simp [ownSeqNo, hrp, hdb, Lsdb.onLsdbChange]
    | adj =>
      simp only [ownSeqNo, hrp, hdb, Lsdb.onLsdbChange, KeyedList.find?_erase]
      split_ifs <;> simp
    | cor => simp [ownSeqNo, hrp, hdb, Lsdb.onLsdbChange]

theorem keepsOwn_removeCoordinateLsa (s : Nlsr) (key : Name) :
    KeepsOwn s (s.removeCoordinateLsa key) := by
  have hrp := (onlyLsdb_removeCoordinateLsa s key).routerPrefix
  intro c
  cases h : s.lsdb.findCoordinateLsa key with
  | none => simp [removeCoordinateLsa_of_none h]
  | some l =>
    have hdb := lsdb_removeCoordinateLsa_of_some h
    cases c with
    | name => simp [ownSeqNo, hrp, hdb, Lsdb.onLsdbChange]
    | adj => simp [ownSeqNo, hrp, hdb, Lsdb.onLsdbChange]
    | cor =>
      simp only [ownSeqNo, hrp, hdb, Lsdb.onLsdbChange, KeyedList.find?_erase]
      split_ifs <;> simp

/-! ## What one event does -/

/-- The prefix of this router, and where it is kept a second time, are the same. -/
structure SamePrefix (s t : Nlsr) : Prop where
  routerPrefix : t.routerPrefix = s.routerPrefix
  thisRouterPrefix : t.lsdb.thisRouterPrefix = s.lsdb.thisRouterPrefix

/-- No counter moves. -/
structure Idles (s t : Nlsr) : Prop where
  samePrefix : SamePrefix s t
  sequencingManager : t.sequencingManager = s.sequencingManager
  own : KeepsOwn s t

/-- There is a next number in 32 bits. -/
def HasRoom (s : Nlsr) (c : Counter) : Prop := (s.sequencingManager.counter c).toNat + 1 < 2 ^ 32

/-- One counter moves, and the own LSA of its kind gets its number. -/
structure Counts (s t : Nlsr) (e : SeqStep) : Prop where
  samePrefix : SamePrefix s t
  sequencingManager : t.sequencingManager = seqStep s.sequencingManager e
  own : t.ownSeqNo e.of = some (t.sequencingManager.counter e.of).toNat
  others : ∀ c, c ≠ e.of → t.ownSeqNo c = s.ownSeqNo c

/-- One counter moves, and counts if there is room for it. -/
structure Moves (s t : Nlsr) (e : SeqStep) : Prop where
  moved : t.sequencingManager.counter e.of ≠ s.sequencingManager.counter e.of
  counts : s.HasRoom e.of → Counts s t e

/-- Nothing is written or announced. -/
structure Silent (s t : Nlsr) : Prop where
  seqFile : t.seqFile = s.seqFile
  published : t.published = s.published

/-- The combined number is written, then announced. -/
structure Announces (s t : Nlsr) : Prop where
  seqFile : t.seqFile = some t.sequencingManager.combinedSeqNo
  published : t.published = s.published ++ [t.sequencingManager.combinedSeqNo]

/-- An event moves at most one counter, then announces at most once. -/
structure Turn (s t : Nlsr) : Prop where
  moves : Idles s t ∨ ∃ e, Moves s t e
  announces : Silent s t ∨ Announces s t

/-- A stored own number is the counter of its kind. -/
structure Numbered (s : Nlsr) : Prop where
  thisRouterPrefix : s.lsdb.thisRouterPrefix = s.routerPrefix
  own : ∀ c n, s.ownSeqNo c = some n → n = (s.sequencingManager.counter c).toNat

theorem hasRoom_of_fits {s : Nlsr} (h : Fits s.sequencingManager) (c : Counter) : s.HasRoom c := by
  have hw : 2 ^ c.width ≤ 2 ^ 24 := by cases c <;> decide
  have hlt := h c
  unfold HasRoom
  omega

/-- Where a counter has no room it is not moved. -/
def KeepsRoom (s t : Nlsr) : Prop :=
  ∀ c, s.HasRoom c ∨ t.sequencingManager.counter c = s.sequencingManager.counter c

theorem keepsRoom_of_fits {s : Nlsr} (h : Fits s.sequencingManager) (t : Nlsr) : KeepsRoom s t :=
  fun c => Or.inl (hasRoom_of_fits h c)

theorem Turn.counts {s t : Nlsr} (h : Turn s t) (hroom : KeepsRoom s t) :
    Idles s t ∨ ∃ e, s.HasRoom e.of ∧ Counts s t e := by
  rcases h.moves with h | ⟨e, h⟩
  · exact Or.inl h
  · have hr := (hroom e.of).resolve_right h.moved
    exact Or.inr ⟨e, hr, h.counts hr⟩

theorem Silent.refl (s : Nlsr) : Silent s s := ⟨rfl, rfl⟩

theorem OnlyLsdb.silent {s t : Nlsr} (h : OnlyLsdb s t) : Silent s t := by
  rw [OnlyLsdb] at h
  rw [h]
  exact ⟨rfl, rfl⟩

theorem OnlyLsdb.sequencingManager {s t : Nlsr} (h : OnlyLsdb s t) :
    t.sequencingManager = s.sequencingManager := by
  rw [OnlyLsdb] at h
  rw [h]

theorem onlyLsdb_install (s : Nlsr) (l : AnyLsa) : OnlyLsdb s (s.install l) := by
  cases l with
  | name l => exact onlyLsdb_installNameLsa s l
  | adj l => exact onlyLsdb_installAdjLsa s l
  | coordinate l => exact onlyLsdb_installCoordinateLsa s l

theorem samePrefix_install (s : Nlsr) (l : AnyLsa) : SamePrefix s (s.install l) := by
  refine ⟨(onlyLsdb_install s l).routerPrefix, ?_⟩
  cases l with
  | name l => simp only [install]; rw [(lsdb_installNameLsa s l).1]
  | adj l => simp only [install]; rw [(lsdb_installAdjLsa s l).1]
  | coordinate l => simp only [install]; rw [(lsdb_installCoordinateLsa s l).1]

/-- An LSA of another router moves no counter. -/
theorem idles_install {s : Nlsr} {l : AnyLsa} (h : l.origRouter ≠ s.routerPrefix) :
    Idles s (s.install l) where
  samePrefix := samePrefix_install s l
  sequencingManager := (onlyLsdb_install s l).sequencingManager
  own c := Or.inl (by simp [ownSeqNo_install, h])

theorem HasRoom.toNat_add_one {s : Nlsr} {c : Counter} (h : s.HasRoom c) :
    (s.sequencingManager.counter c + 1).toNat = (s.sequencingManager.counter c).toNat + 1 := by
  unfold HasRoom at h
  exact BitField.toNat_add_one (by omega)

theorem HasRoom.toNat_toUInt32 {s : Nlsr} {c : Counter} (h : s.HasRoom c) :
    (s.sequencingManager.counter c + 1).toUInt32.toNat =
      (s.sequencingManager.counter c).toNat + 1 := by
  rw [UInt64.toNat_toUInt32, h.toNat_add_one]
  exact Nat.mod_eq_of_lt h

theorem counter_add_one_ne (n : UInt64) : n + 1 ≠ n := by
  intro h
  have hnat := congrArg UInt64.toNat h
  rw [UInt64.toNat_add] at hnat
  have hlt := n.toNat_lt
  simp at hnat
  omega

/-- A build moves its counter: the LSA that is installed has the next number. -/
theorem moves_install {s s' : Nlsr} {l : AnyLsa} (hs : s.Numbered) (hpfx : SamePrefix s s')
    (hown : s'.ownSeqNo = s.ownSeqNo)
    (hsm : s'.sequencingManager = seqStep s.sequencingManager (.increase l.counter))
    (horig : l.origRouter = s.routerPrefix)
    (hseq : l.lsSeqNo = (s.sequencingManager.counter l.counter + 1).toUInt32) :
    Moves s (s'.install l) (.increase l.counter) := by
  have hpfx' := samePrefix_install s' l
  have hsm' := (onlyLsdb_install s' l).sequencingManager.trans hsm
  have hnext : (s'.install l).sequencingManager.counter l.counter =
      s.sequencingManager.counter l.counter + 1 := by
    rw [hsm', counter_seqStep, SeqStep.of_increase, if_pos rfl]
  refine ⟨by rw [SeqStep.of_increase, hnext]; exact counter_add_one_ne _, fun hroom => ?_⟩
  rw [SeqStep.of_increase] at hroom
  refine ⟨⟨?_, ?_⟩, hsm', ?_, fun c hc => ?_⟩
  · rw [hpfx'.routerPrefix, hpfx.routerPrefix]
  · rw [hpfx'.thisRouterPrefix, hpfx.thisRouterPrefix]
  · -- The stored number, if there is one, is the counter, and so smaller
    have hlsa : l.lsSeqNo.toNat = (s.sequencingManager.counter l.counter).toNat + 1 := by
      rw [hseq, hroom.toNat_toUInt32]
    rw [SeqStep.of_increase, hnext, hroom.toNat_add_one, ownSeqNo_install,
      if_pos ⟨rfl, horig.trans hpfx.routerPrefix.symm⟩, hown]
    cases h : s.ownSeqNo l.counter with
    | none => simp [hlsa]
    | some n =>
      have hn := hs.own _ n h
      simp [hn, hlsa]
  · rw [ownSeqNo_install, if_neg fun h => hc h.1, hown]

/-- The number after a stored own number is the counter after it. -/
theorem HasRoom.toUInt64_add_one {s : Nlsr} {c : Counter} (h : s.HasRoom c) {n : UInt32}
    (hn : n.toNat = (s.sequencingManager.counter c).toNat) :
    (n + 1).toUInt64 = s.sequencingManager.counter c + 1 := by
  apply UInt64.toNat_inj.1
  rw [h.toNat_add_one, UInt32.toNat_toUInt64, UInt32.toNat_add, ← hn]
  unfold HasRoom at h
  exact Nat.mod_eq_of_lt (by simp; omega)

/-- A refresh moves its counter even where it wraps. -/
theorem toUInt64_add_one_ne {m : UInt64} {n : UInt32} (hn : n.toNat = m.toNat) :
    (n + 1).toUInt64 ≠ m := by
  intro h
  have hnat := congrArg UInt64.toNat h
  rw [UInt32.toNat_toUInt64, ← hn, UInt32.toNat_add] at hnat
  have hlt := n.toNat_lt
  simp at hnat
  omega

theorem turn_refreshNameLsa {s : Nlsr} (hs : s.Numbered) {key : Name} {chk : NameLsa}
    (h : s.lsdb.findNameLsa key = some chk) (horig : chk.origRouter = s.lsdb.thisRouterPrefix) :
    Turn s (s.refreshNameLsa chk) := by
  have horig' : chk.origRouter = s.routerPrefix := horig.trans hs.thisRouterPrefix
  have hkey : key = NameLsa.key s.routerPrefix := by
    rw [← horig']
    exact (KeyedList.key_of_find? h).symm
  subst hkey
  have hseq : chk.lsSeqNo.toNat = (s.sequencingManager.counter .name).toNat :=
    hs.own .name _ (by simp [ownSeqNo, show s.lsdb.nameLsdb.find? _ = some chk from h])
  have hsm : s.HasRoom .name → (s.refreshNameLsa chk).sequencingManager =
      seqStep s.sequencingManager (.refresh .name) := fun hroom => by
    show s.sequencingManager.setNameLsaSeq (chk.lsSeqNo + 1).toUInt64 = _
    rw [hroom.toUInt64_add_one hseq]
    rfl
  refine ⟨Or.inr ⟨.refresh .name, toUInt64_add_one_ne hseq, fun hroom =>
    ⟨⟨rfl, rfl⟩, hsm hroom, ?_, fun c hc => ?_⟩⟩, Or.inr ⟨rfl, rfl⟩⟩
  · show ((s.lsdb.nameLsdb.replace _).find? (NameLsa.key s.routerPrefix)).map _ =
      some ((chk.lsSeqNo + 1).toUInt64).toNat
    rw [KeyedList.find?_replace, if_pos (by simp [NameLsa.getKey, horig']),
      show s.lsdb.nameLsdb.find? _ = some chk from h, UInt32.toNat_toUInt64]
    rfl
  · cases c with
    | name => exact absurd rfl hc
    | adj => rfl
    | cor => rfl

theorem turn_refreshAdjLsa {s : Nlsr} (hs : s.Numbered) {key : Name} {chk : AdjLsa}
    (h : s.lsdb.findAdjLsa key = some chk) (horig : chk.origRouter = s.lsdb.thisRouterPrefix) :
    Turn s (s.refreshAdjLsa chk) := by
  have horig' : chk.origRouter = s.routerPrefix := horig.trans hs.thisRouterPrefix
  have hkey : key = AdjLsa.key s.routerPrefix := by
    rw [← horig']
    exact (KeyedList.key_of_find? h).symm
  subst hkey
  have hseq : chk.lsSeqNo.toNat = (s.sequencingManager.counter .adj).toNat :=
    hs.own .adj _ (by simp [ownSeqNo, show s.lsdb.adjLsdb.find? _ = some chk from h])
  have hsm : s.HasRoom .adj → (s.refreshAdjLsa chk).sequencingManager =
      seqStep s.sequencingManager (.refresh .adj) := fun hroom => by
    show s.sequencingManager.setAdjLsaSeq (chk.lsSeqNo + 1).toUInt64 = _
    rw [hroom.toUInt64_add_one hseq]
    rfl
  refine ⟨Or.inr ⟨.refresh .adj, toUInt64_add_one_ne hseq, fun hroom =>
    ⟨⟨rfl, rfl⟩, hsm hroom, ?_, fun c hc => ?_⟩⟩, Or.inr ⟨rfl, rfl⟩⟩
  · show ((s.lsdb.adjLsdb.replace _).find? (AdjLsa.key s.routerPrefix)).map _ =
      some ((chk.lsSeqNo + 1).toUInt64).toNat
    rw [KeyedList.find?_replace, if_pos (by simp [AdjLsa.getKey, horig']),
      show s.lsdb.adjLsdb.find? _ = some chk from h, UInt32.toNat_toUInt64]
    rfl
  · cases c with
    | name => rfl
    | adj => exact absurd rfl hc
    | cor => rfl

theorem turn_refreshCoordinateLsa {s : Nlsr} (hs : s.Numbered) {key : Name}
    {chk : CoordinateLsa} (h : s.lsdb.findCoordinateLsa key = some chk)
    (horig : chk.origRouter = s.lsdb.thisRouterPrefix) : Turn s (s.refreshCoordinateLsa chk) := by
  have horig' : chk.origRouter = s.routerPrefix := horig.trans hs.thisRouterPrefix
  have hkey : key = CoordinateLsa.key s.routerPrefix := by
    rw [← horig']
    exact (KeyedList.key_of_find? h).symm
  subst hkey
  have hseq : chk.lsSeqNo.toNat = (s.sequencingManager.counter .cor).toNat :=
    hs.own .cor _ (by simp [ownSeqNo, show s.lsdb.corLsdb.find? _ = some chk from h])
  have hsm : s.HasRoom .cor → (s.refreshCoordinateLsa chk).sequencingManager =
      seqStep s.sequencingManager (.refresh .cor) := fun hroom => by
    show s.sequencingManager.setCorLsaSeq (chk.lsSeqNo + 1).toUInt64 = _
    rw [hroom.toUInt64_add_one hseq]
    rfl
  refine ⟨Or.inr ⟨.refresh .cor, toUInt64_add_one_ne hseq, fun hroom =>
    ⟨⟨rfl, rfl⟩, hsm hroom, ?_, fun c hc => ?_⟩⟩, Or.inr ⟨rfl, rfl⟩⟩
  · show ((s.lsdb.corLsdb.replace _).find? (CoordinateLsa.key s.routerPrefix)).map _ =
      some ((chk.lsSeqNo + 1).toUInt64).toNat
    rw [KeyedList.find?_replace, if_pos (by simp [CoordinateLsa.getKey, horig']),
      show s.lsdb.corLsdb.find? _ = some chk from h, UInt32.toNat_toUInt64]
    rfl
  · cases c with
    | name => rfl
    | adj => rfl
    | cor => exact absurd rfl hc

/-! ## Every event -/

/-- Neither the numbers nor the announcements have changed. -/
structure SameNumbers (s t : Nlsr) : Prop where
  samePrefix : SamePrefix s t
  sequencingManager : t.sequencingManager = s.sequencingManager
  own : t.ownSeqNo = s.ownSeqNo
  silent : Silent s t

theorem SameNumbers.turn {s t : Nlsr} (h : SameNumbers s t) : Turn s t :=
  ⟨Or.inl ⟨h.samePrefix, h.sequencingManager, fun c => Or.inl (by rw [h.own])⟩, Or.inl h.silent⟩

theorem SameNumbers.numbered {s t : Nlsr} (h : SameNumbers s t) (hs : s.Numbered) :
    t.Numbered where
  thisRouterPrefix := by
    rw [h.samePrefix.thisRouterPrefix, h.samePrefix.routerPrefix, hs.thisRouterPrefix]
  own := by
    rw [h.own, h.sequencingManager]
    exact hs.own

theorem Turn.congr {s s' t t' : Nlsr} (hs : SameNumbers s s') (ht : SameNumbers t t')
    (h : Turn s' t) : Turn s t' := by
  have hpfx : SamePrefix s' t → SamePrefix s t' := fun h => by
    refine ⟨?_, ?_⟩
    · rw [ht.samePrefix.routerPrefix, h.routerPrefix, hs.samePrefix.routerPrefix]
    · rw [ht.samePrefix.thisRouterPrefix, h.thisRouterPrefix, hs.samePrefix.thisRouterPrefix]
  refine ⟨?_, ?_⟩
  · rcases h.moves with h | ⟨e, hmoved, hcounts⟩
    · refine Or.inl ⟨hpfx h.samePrefix, ?_, fun c => ?_⟩
      · rw [ht.sequencingManager, h.sequencingManager, hs.sequencingManager]
      · rw [ht.own, ← hs.own]
        exact h.own c
    · refine Or.inr ⟨e, ?_, fun hroom => ?_⟩
      · rwa [ht.sequencingManager, ← hs.sequencingManager]
      have h := hcounts (by rw [HasRoom, hs.sequencingManager]; exact hroom)
      refine ⟨hpfx h.samePrefix, ?_, ?_, fun c hc => ?_⟩
      · rw [ht.sequencingManager, h.sequencingManager, hs.sequencingManager]
      · rw [ht.own, ht.sequencingManager]
        exact h.own
      · rw [ht.own, ← hs.own]
        exact h.others c hc
  · rcases h.announces with h | h
    · refine Or.inl ⟨?_, ?_⟩
      · rw [ht.silent.seqFile, h.seqFile, hs.silent.seqFile]
      · rw [ht.silent.published, h.published, hs.silent.published]
    · refine Or.inr ⟨?_, ?_⟩
      · rw [ht.silent.seqFile, h.seqFile, ht.sequencingManager]
      · rw [ht.silent.published, h.published, hs.silent.published, ht.sequencingManager]

theorem SameNumbers.refl (s : Nlsr) : SameNumbers s s := ⟨⟨rfl, rfl⟩, rfl, rfl, Silent.refl s⟩

theorem SameNumbers.trans {s t u : Nlsr} (h₁ : SameNumbers s t) (h₂ : SameNumbers t u) :
    SameNumbers s u where
  samePrefix := ⟨h₂.samePrefix.routerPrefix.trans h₁.samePrefix.routerPrefix,
    h₂.samePrefix.thisRouterPrefix.trans h₁.samePrefix.thisRouterPrefix⟩
  sequencingManager := h₂.sequencingManager.trans h₁.sequencingManager
  own := h₂.own.trans h₁.own
  silent := ⟨h₂.silent.1.trans h₁.silent.1, h₂.silent.2.trans h₁.silent.2⟩

theorem OnlyHello.sameNumbers {s t : Nlsr} (h : OnlyHello s t) : SameNumbers s t := by
  rw [OnlyHello] at h
  rw [h]
  exact ⟨⟨rfl, rfl⟩, rfl, rfl, ⟨rfl, rfl⟩⟩

theorem OnlyRouting.sameNumbers {s t : Nlsr} (h : OnlyRouting s t) : SameNumbers s t := by
  rw [OnlyRouting] at h
  rw [h]
  exact ⟨⟨rfl, rfl⟩, rfl, rfl, ⟨rfl, rfl⟩⟩

theorem OnlyFib.sameNumbers {s t : Nlsr} (h : OnlyFib s t) : SameNumbers s t := by
  rw [OnlyFib] at h
  rw [h]
  exact ⟨⟨rfl, rfl⟩, rfl, rfl, ⟨rfl, rfl⟩⟩

theorem sameNumbers_scheduleRoutingTableCalculation (s : Nlsr) :
    SameNumbers s s.scheduleRoutingTableCalculation := by
  unfold scheduleRoutingTableCalculation
  split_ifs
  · exact ⟨⟨rfl, rfl⟩, rfl, rfl, ⟨rfl, rfl⟩⟩
  · exact SameNumbers.refl s

theorem sameNumbers_scheduleIfHyperbolic (s : Nlsr) : SameNumbers s s.scheduleIfHyperbolic := by
  unfold scheduleIfHyperbolic
  split_ifs
  · exact sameNumbers_scheduleRoutingTableCalculation s
  · exact SameNumbers.refl s

/-! ### Removals and expirations -/

theorem turn_removeNameLsa (s : Nlsr) (key : Name) : Turn s (s.removeNameLsa key) := by
  have hframe := onlyLsdb_removeNameLsa s key
  refine ⟨Or.inl ⟨⟨hframe.routerPrefix, ?_⟩, hframe.sequencingManager, keepsOwn_removeNameLsa s key⟩,
    Or.inl hframe.silent⟩
  cases h : s.lsdb.findNameLsa key with
  | none => rw [removeNameLsa_of_none h]
  | some l => rw [removeNameLsa_of_some h]; rfl

theorem turn_removeAdjLsa (s : Nlsr) (key : Name) : Turn s (s.removeAdjLsa key) := by
  have hframe := onlyLsdb_removeAdjLsa s key
  refine ⟨Or.inl ⟨⟨hframe.routerPrefix, ?_⟩, hframe.sequencingManager, keepsOwn_removeAdjLsa s key⟩,
    Or.inl hframe.silent⟩
  cases h : s.lsdb.findAdjLsa key with
  | none => rw [removeAdjLsa_of_none h]
  | some l => rw [removeAdjLsa_of_some h]; rfl

theorem turn_removeCoordinateLsa (s : Nlsr) (key : Name) : Turn s (s.removeCoordinateLsa key) := by
  have hframe := onlyLsdb_removeCoordinateLsa s key
  refine ⟨Or.inl ⟨⟨hframe.routerPrefix, ?_⟩, hframe.sequencingManager,
    keepsOwn_removeCoordinateLsa s key⟩, Or.inl hframe.silent⟩
  cases h : s.lsdb.findCoordinateLsa key with
  | none => rw [removeCoordinateLsa_of_none h]
  | some l => rw [removeCoordinateLsa_of_some h]; rfl

theorem turn_exprireOrRefreshNameLsa {s : Nlsr} (hs : s.Numbered) (lsaKey : Name)
    (seqNo : UInt64) : Turn s (s.exprireOrRefreshNameLsa lsaKey seqNo) := by
  unfold exprireOrRefreshNameLsa
  cases h : s.lsdb.findNameLsa lsaKey with
  | none => exact (SameNumbers.refl s).turn
  | some chk =>
    dsimp only
    split_ifs with hseq horig
    · exact turn_refreshNameLsa hs h horig
    · exact turn_removeNameLsa s lsaKey
    · exact (SameNumbers.refl s).turn

theorem turn_exprireOrRefreshAdjLsa {s : Nlsr} (hs : s.Numbered) (lsaKey : Name)
    (seqNo : UInt64) : Turn s (s.exprireOrRefreshAdjLsa lsaKey seqNo) := by
  unfold exprireOrRefreshAdjLsa
  cases h : s.lsdb.findAdjLsa lsaKey with
  | none => exact (SameNumbers.refl s).turn
  | some chk =>
    dsimp only
    split_ifs with hseq horig
    · exact (turn_refreshAdjLsa hs h horig).congr (SameNumbers.refl s)
        (sameNumbers_scheduleRoutingTableCalculation _)
    · exact (turn_removeAdjLsa s lsaKey).congr (SameNumbers.refl s)
        (sameNumbers_scheduleRoutingTableCalculation _)
    · exact (SameNumbers.refl s).turn

theorem turn_exprireOrRefreshCoordinateLsa {s : Nlsr} (hs : s.Numbered) (lsaKey : Name)
    (seqNo : UInt64) : Turn s (s.exprireOrRefreshCoordinateLsa lsaKey seqNo) := by
  unfold exprireOrRefreshCoordinateLsa
  cases h : s.lsdb.findCoordinateLsa lsaKey with
  | none => exact (SameNumbers.refl s).turn
  | some chk =>
    dsimp only
    split_ifs with hseq horig
    · exact (turn_refreshCoordinateLsa hs h horig).congr (SameNumbers.refl s)
        (sameNumbers_scheduleIfHyperbolic _)
    · exact (turn_removeCoordinateLsa s lsaKey).congr (SameNumbers.refl s)
        (sameNumbers_scheduleIfHyperbolic _)
    · exact (SameNumbers.refl s).turn

/-! ### Builds -/

theorem turn_buildAndInstallOwnNameLsa {s s₀ : Nlsr} (hs : s.Numbered) (h : SameNumbers s s₀) :
    Turn s s₀.buildAndInstallOwnNameLsa ∧ Silent s s₀.buildAndInstallOwnNameLsa := by
  let s' : Nlsr := { s₀ with sequencingManager := s₀.sequencingManager.increaseNameLsaSeq }
  have hsm : s'.sequencingManager = seqStep s.sequencingManager (.increase .name) := by
    rw [← h.sequencingManager]
    rfl
  have horig : s₀.ownNameLsa.origRouter = s.routerPrefix := by
    rw [ownNameLsa, NameLsa.make_eq]
    exact h.samePrefix.routerPrefix
  have hseq : s₀.ownNameLsa.lsSeqNo = (s.sequencingManager.counter .name + 1).toUInt32 := by
    rw [ownNameLsa, NameLsa.make_eq, h.sequencingManager]
    rfl
  have hmoves : Moves s (s'.install (.name s₀.ownNameLsa)) (.increase .name) :=
    moves_install hs ⟨h.samePrefix.routerPrefix, h.samePrefix.thisRouterPrefix⟩ h.own hsm horig
      hseq
  have hinstall := (onlyLsdb_install s' (.name s₀.ownNameLsa)).silent
  have hsilent : Silent s (s'.install (.name s₀.ownNameLsa)) :=
    ⟨hinstall.seqFile.trans h.silent.seqFile, hinstall.published.trans h.silent.published⟩
  exact ⟨⟨Or.inr ⟨_, hmoves⟩, Or.inl hsilent⟩, hsilent⟩

theorem turn_buildAndInstallOwnCoordinateLsa {s : Nlsr} (hs : s.Numbered) :
    Turn s s.buildAndInstallOwnCoordinateLsa := by
  let s' : Nlsr := { s with sequencingManager := s.sequencingManager.increaseCorLsaSeq }
  have hmoves : Moves s (s'.install (.coordinate s.ownCoordinateLsa)) (.increase .cor) :=
    moves_install hs ⟨rfl, rfl⟩ rfl rfl rfl rfl
  have hinstall := (onlyLsdb_install s' (.coordinate s.ownCoordinateLsa)).silent
  exact ⟨Or.inr ⟨_, hmoves⟩, Or.inl ⟨hinstall.seqFile, hinstall.published⟩⟩

theorem turn_buildAndInstallOwnAdjLsa {s : Nlsr} (hs : s.Numbered) :
    Turn s s.buildAndInstallOwnAdjLsa := by
  let s' : Nlsr := ({ s with
    sequencingManager := s.sequencingManager.increaseAdjLsaSeq } : Nlsr).publishRoutingUpdate
  have horig : s.ownAdjLsa.origRouter = s.routerPrefix := by
    rw [ownAdjLsa, AdjLsa.make_eq]
  have hseq : s.ownAdjLsa.lsSeqNo = (s.sequencingManager.counter .adj + 1).toUInt32 := by
    rw [ownAdjLsa, AdjLsa.make_eq]
    rfl
  have hmoves : Moves s (s'.install (.adj s.ownAdjLsa)) (.increase .adj) :=
    moves_install hs ⟨rfl, rfl⟩ rfl rfl horig hseq
  have hinstall := onlyLsdb_install s' (.adj s.ownAdjLsa)
  have hannounce : Announces s (s'.install (.adj s.ownAdjLsa)) := by
    refine ⟨?_, ?_⟩
    · rw [hinstall.silent.seqFile, hinstall.sequencingManager]
      rfl
    · rw [hinstall.silent.published, hinstall.sequencingManager]
      rfl
  exact ⟨Or.inr ⟨_, hmoves⟩, Or.inr hannounce⟩

theorem turn_buildAdjLsa {s : Nlsr} (hs : s.Numbered) : Turn s s.buildAdjLsa := by
  let s₁ : Nlsr := { s with isBuildAdjLsaSheduled := false }
  have h₁ : SameNumbers s s₁ := ⟨⟨rfl, rfl⟩, rfl, rfl, ⟨rfl, rfl⟩⟩
  have hcount : ∀ (u : Nlsr) (n : Int), SameNumbers u { u with adjBuildCount := n } :=
    fun u n => ⟨⟨rfl, rfl⟩, rfl, rfl, ⟨rfl, rfl⟩⟩
  unfold buildAdjLsa
  dsimp only
  split_ifs
  · exact (turn_buildAndInstallOwnAdjLsa (h₁.numbered hs)).congr h₁ (hcount _ _)
  · have hremove := (turn_removeAdjLsa s₁ (AdjLsa.key s.routerPrefix)).congr h₁
      (sameNumbers_scheduleRoutingTableCalculation _)
    exact hremove.congr (SameNumbers.refl s) (hcount _ _)
  · exact h₁.turn
  · exact SameNumbers.turn ⟨⟨rfl, rfl⟩, rfl, rfl, ⟨rfl, rfl⟩⟩

/-- Announcing after a silent turn. -/
theorem Turn.publishRoutingUpdate {s t : Nlsr} (h : Turn s t) (hsilent : Silent s t) :
    Turn s t.publishRoutingUpdate := by
  refine ⟨?_, Or.inr ⟨rfl, ?_⟩⟩
  · rcases h.moves with h | ⟨e, hmoved, hcounts⟩
    · exact Or.inl ⟨⟨h.samePrefix.routerPrefix, h.samePrefix.thisRouterPrefix⟩,
        h.sequencingManager, h.own⟩
    · refine Or.inr ⟨e, hmoved, fun hroom => ?_⟩
      have h := hcounts hroom
      exact ⟨⟨h.samePrefix.routerPrefix, h.samePrefix.thisRouterPrefix⟩, h.sequencingManager,
        h.own, h.others⟩
  · show t.published ++ _ = _
    rw [hsilent.published]
    rfl

theorem turn_advertise {s : Nlsr} (hs : s.Numbered) (name : Name) : Turn s (s.advertise name) := by
  let s₀ : Nlsr := { s with namePrefixList := s.namePrefixList.insert name }
  have h₀ : SameNumbers s s₀ := ⟨⟨rfl, rfl⟩, rfl, rfl, ⟨rfl, rfl⟩⟩
  obtain ⟨hturn, hsilent⟩ := turn_buildAndInstallOwnNameLsa hs h₀
  unfold advertise
  split_ifs
  · exact (SameNumbers.refl s).turn
  · exact hturn.publishRoutingUpdate hsilent

theorem turn_withdraw {s : Nlsr} (hs : s.Numbered) (name : Name) : Turn s (s.withdraw name) := by
  let s₀ : Nlsr := { s with namePrefixList := s.namePrefixList.remove name }
  have h₀ : SameNumbers s s₀ := ⟨⟨rfl, rfl⟩, rfl, rfl, ⟨rfl, rfl⟩⟩
  obtain ⟨hturn, hsilent⟩ := turn_buildAndInstallOwnNameLsa hs h₀
  unfold withdraw
  split_ifs
  · exact hturn.publishRoutingUpdate hsilent
  · exact (SameNumbers.refl s).turn

theorem turn_fire (math : MathLib) {s : Nlsr} (hs : s.Numbered) (id : Nat) :
    Turn s (s.fire math id) := by
  unfold fire
  cases s.pendingAction id with
  | none => exact (SameNumbers.refl s).turn
  | some action =>
    have hcancel : SameNumbers s (s.cancelEvent (some id)) := ⟨⟨rfl, rfl⟩, rfl, rfl, ⟨rfl, rfl⟩⟩
    have hs' := hcancel.numbered hs
    refine Turn.congr hcancel (SameNumbers.refl _) ?_
    cases action with
    | exprireOrRefreshNameLsa lsaKey seqNo => exact turn_exprireOrRefreshNameLsa hs' lsaKey seqNo
    | exprireOrRefreshAdjLsa lsaKey seqNo => exact turn_exprireOrRefreshAdjLsa hs' lsaKey seqNo
    | exprireOrRefreshCoordinateLsa lsaKey seqNo =>
      exact turn_exprireOrRefreshCoordinateLsa hs' lsaKey seqNo
    | buildAdjLsa => exact turn_buildAdjLsa hs'
    | calculate => exact (onlyRouting_calculate math _).sameNumbers.turn
    | removeFibEntry name => exact (onlyFib_fibRemove _ name).sameNumbers.turn

/-- An LSA that arrives is not in this router's name. -/
def ArrivesForeign (s : Nlsr) : Event → Prop
  | .installNameLsa nlsa => nlsa.origRouter ≠ s.routerPrefix
  | .installAdjLsa alsa => alsa.origRouter ≠ s.routerPrefix
  | .installCoordinateLsa clsa => clsa.origRouter ≠ s.routerPrefix
  | _ => True

instance (s : Nlsr) : ∀ e, Decidable (s.ArrivesForeign e)
  | .installNameLsa _ | .installAdjLsa _ | .installCoordinateLsa _ =>
    inferInstanceAs (Decidable (_ ≠ _))
  | .removeNameLsa _ | .removeAdjLsa _ | .removeCoordinateLsa _ | .fire _
  | .buildAndInstallOwnNameLsa | .buildAndInstallOwnCoordinateLsa | .publishRoutingUpdate
  | .scheduleAdjLsaBuild | .helloTimedOut _ | .helloValidated _ | .registrationSuccess _ _
  | .registrationFailure _ | .faceDestroyed _ | .advertise _ | .withdraw _ | .clock _ =>
    inferInstanceAs (Decidable True)

/-- **Every event is a turn.** -/
theorem turn_step (math : MathLib) {s : Nlsr} (hs : s.Numbered) (e : Event)
    (he : s.ArrivesForeign e) : Turn s (s.step math e) := by
  have hforeign : ∀ l : AnyLsa, l.origRouter ≠ s.routerPrefix → Turn s (s.install l) :=
    fun l hl => ⟨Or.inl (idles_install hl), Or.inl (onlyLsdb_install s l).silent⟩
  cases e with
  | installNameLsa nlsa => exact hforeign (.name _) he
  | installAdjLsa alsa => exact hforeign (.adj _) he
  | installCoordinateLsa clsa => exact hforeign (.coordinate _) he
  | removeNameLsa key => exact turn_removeNameLsa s key
  | removeAdjLsa key => exact turn_removeAdjLsa s key
  | removeCoordinateLsa key => exact turn_removeCoordinateLsa s key
  | fire id => exact turn_fire math hs id
  | buildAndInstallOwnNameLsa =>
    exact (turn_buildAndInstallOwnNameLsa hs (SameNumbers.refl s)).1
  | buildAndInstallOwnCoordinateLsa => exact turn_buildAndInstallOwnCoordinateLsa hs
  | publishRoutingUpdate =>
    exact (SameNumbers.refl s).turn.publishRoutingUpdate (Silent.refl s)
  | scheduleAdjLsaBuild => exact (onlyHello_scheduleAdjLsaBuild s).sameNumbers.turn
  | helloTimedOut interestName =>
    exact (onlyHello_processInterestTimedOut s interestName).sameNumbers.turn
  | helloValidated dataName => exact (onlyHello_onHelloValidated s dataName).sameNumbers.turn
  | registrationSuccess neighbor faceId =>
    exact (onlyHello_onRegistrationSuccess s neighbor faceId).sameNumbers.turn
  | registrationFailure neighbor =>
    exact (onlyHello_onRegistrationFailure s neighbor).sameNumbers.turn
  | faceDestroyed faceId => exact (onlyHello_onFaceDestroyed s faceId).sameNumbers.turn
  | advertise name => exact turn_advertise hs name
  | withdraw name => exact turn_withdraw hs name
  | clock now => exact SameNumbers.turn ⟨⟨rfl, rfl⟩, rfl, rfl, ⟨rfl, rfl⟩⟩

/-- No LSA arrives in the name of this router, and no counter leaves the 32 bits. -/
def Regular (math : MathLib) (s : Nlsr) (e : Event) : Prop :=
  s.ArrivesForeign e ∧ KeepsRoom s (s.step math e)

/-! ## What a turn keeps -/

theorem Turn.counter_le {s t : Nlsr} (h : Turn s t) (hroom : KeepsRoom s t) (c : Counter) :
    (s.sequencingManager.counter c).toNat ≤ (t.sequencingManager.counter c).toNat := by
  rcases h.counts hroom with h | ⟨e, hr, h⟩
  · rw [h.sequencingManager]
  · rw [h.sequencingManager, counter_seqStep]
    split_ifs with hc
    · subst hc
      rw [hr.toNat_add_one]
      exact Nat.le_succ _
    · exact Nat.le_refl _

theorem Turn.numbered {s t : Nlsr} (h : Turn s t) (hs : s.Numbered) (hroom : KeepsRoom s t) :
    t.Numbered := by
  rcases h.counts hroom with h | ⟨e, -, h⟩
  · refine ⟨?_, fun c n hn => ?_⟩
    · rw [h.samePrefix.thisRouterPrefix, h.samePrefix.routerPrefix, hs.thisRouterPrefix]
    · rw [h.sequencingManager]
      rcases h.own c with hown | hown
      · exact hs.own c n (hown ▸ hn)
      · simp [hown] at hn
  · refine ⟨?_, fun c n hn => ?_⟩
    · rw [h.samePrefix.thisRouterPrefix, h.samePrefix.routerPrefix, hs.thisRouterPrefix]
    · by_cases hc : c = e.of
      · subst hc
        rw [h.own] at hn
        exact (Option.some.inj hn).symm
      · rw [h.others c hc] at hn
        rw [h.sequencingManager, counter_seqStep, if_neg (Ne.symm hc)]
        exact hs.own c n hn

theorem Turn.packed {s t : Nlsr} (h : Turn s t) (hroom : KeepsRoom s t)
    (hs : Packed s.sequencingManager) : Packed t.sequencingManager := by
  rcases h.counts hroom with h | ⟨e, -, h⟩
  · rw [h.sequencingManager]
    exact hs
  · rw [h.sequencingManager]
    exact packed_seqStep _ e

/-- What was announced before stays behind the counters, and in the file. -/
structure NeverReuses (earlier : List UInt64) (s : Nlsr) : Prop where
  packed : Packed s.sequencingManager
  beyond : ∀ p ∈ earlier, ∀ c, savedField p c < (s.sequencingManager.counter c).toNat
  reached : ∀ p ∈ s.published, ∀ c, savedField p c ≤ (s.sequencingManager.counter c).toNat
  saved : ∀ p, p ∈ earlier ∨ p ∈ s.published →
    ∃ f, s.seqFile = some f ∧ ∀ c, savedField p c ≤ savedField f c
  ordered : s.published.Pairwise fun p q => ∀ c, savedField p c ≤ savedField q c
  later : ∀ p ∈ earlier, ∀ q ∈ s.published, ∀ c, savedField p c < savedField q c

/-- The fields of the combined number are the counters. -/
theorem savedField_combinedSeqNo {sm : SequencingManager} (hp : Packed sm) (h : Fits sm)
    (c : Counter) : savedField sm.combinedSeqNo c = (sm.counter c).toNat := by
  rw [← toNat_counter_splitSequenceNo]
  exact congrArg UInt64.toNat ((trips_iff_fits hp).2 h c)

/-- **A turn reuses nothing.** -/
theorem Turn.neverReuses {earlier : List UInt64} {s t : Nlsr} (h : Turn s t)
    (hroom : KeepsRoom s t) (hfits : Fits t.sequencingManager) (hn : s.NeverReuses earlier) :
    t.NeverReuses earlier := by
  have hle := h.counter_le hroom
  have hpacked := h.packed hroom hn.packed
  have hbeyond : ∀ p ∈ earlier, ∀ c,
      savedField p c < (t.sequencingManager.counter c).toNat :=
    fun p hp c => lt_of_lt_of_le (hn.beyond p hp c) (hle c)
  have hreached : ∀ p ∈ s.published, ∀ c,
      savedField p c ≤ (t.sequencingManager.counter c).toNat :=
    fun p hp c => (hn.reached p hp c).trans (hle c)
  rcases h.announces with h | h
  · refine ⟨hpacked, hbeyond, ?_, ?_, ?_, ?_⟩
    · rwa [h.published]
    · rw [h.published, h.seqFile]
      exact hn.saved
    · rw [h.published]
      exact hn.ordered
    · rw [h.published]
      exact hn.later
  · -- The number is in the file, past all that came before, when it is announced
    have hfield := savedField_combinedSeqNo hpacked hfits
    have hmem : ∀ q ∈ t.published, q ∈ s.published ∨ q = t.sequencingManager.combinedSeqNo :=
      fun q hq => by simpa [h.published] using hq
    refine ⟨hpacked, hbeyond, fun p hp c => ?_, fun p hp => ⟨_, h.seqFile, fun c => ?_⟩, ?_,
      fun p hp q hq c => ?_⟩
    · rcases hmem p hp with hp | rfl
      · exact hreached p hp c
      · exact (hfield c).le
    · rw [hfield]
      rcases hp with hp | hp
      · exact (hbeyond p hp c).le
      · rcases hmem p hp with hp | rfl
        · exact hreached p hp c
        · exact (hfield c).le
    · rw [h.published, List.pairwise_append]
      refine ⟨hn.ordered, List.pairwise_singleton _ _, fun p hp q hq c => ?_⟩
      rw [List.mem_singleton.1 hq, hfield]
      exact hreached p hp c
    · rcases hmem q hq with hq | rfl
      · exact hn.later p hp q hq c
      · rw [hfield]
        exact hbeyond p hp c

/-! ## The start -/

/-- The counters `initialize` leaves: from the file, then two builds. -/
def firstNumbers (seqFile : Option UInt64) : SequencingManager :=
  (initiateSeqNoFromFile seqFile).increaseNameLsaSeq.increaseCorLsaSeq

theorem fits_of_firstNumbers {seqFile : Option UInt64} (h : Fits (firstNumbers seqFile)) :
    Fits (initiateSeqNoFromFile seqFile) ∧
      Fits (initiateSeqNoFromFile seqFile).increaseNameLsaSeq := by
  let sm := initiateSeqNoFromFile seqFile
  -- A saved field is far from the end of the 64 bits, so counting on from it does not wrap
  have hsucc : ∀ c, (sm.counter c + 1).toNat = (sm.counter c).toNat + 1 := fun c => by
    refine BitField.toNat_add_one ?_
    rw [toNat_counter_initiateSeqNoFromFile]
    cases seqFile with
    | none => simp [startOf]
    | some saved =>
      have hw : 2 ^ c.width ≤ 2 ^ 24 := by cases c <;> decide
      have hlt := savedField_lt saved c
      simp only [startOf]
      omega
  have hname := hsucc .name
  have hcor := hsucc .cor
  have hn : (sm.counter .name + 1).toNat < 2 ^ 24 := h .name
  have ha : (sm.counter .adj).toNat < 2 ^ 20 := h .adj
  have hc : (sm.counter .cor + 1).toNat < 2 ^ 20 := h .cor
  have hn' : (sm.counter .name).toNat < 2 ^ 24 := by omega
  have hc' : (sm.counter .cor).toNat < 2 ^ 20 := by omega
  refine ⟨fun c => ?_, fun c => ?_⟩
  · cases c with
    | name => exact hn'
    | adj => exact ha
    | cor => exact hc'
  · cases c with
    | name => exact hn
    | adj => exact ha
    | cor => exact hc'

/-- At the start there is room for all that `initialize` counts. -/
theorem counter_initiateSeqNoFromFile_lt (seqFile : Option UInt64) (c : Counter) :
    ((initiateSeqNoFromFile seqFile).counter c).toNat < 2 ^ 24 + 10 := by
  rw [toNat_counter_initiateSeqNoFromFile]
  cases seqFile with
  | none => simp [startOf]
  | some saved =>
    have hw : 2 ^ c.width ≤ 2 ^ 24 := by cases c <;> decide
    have hlt := savedField_lt saved c
    simp only [startOf]
    omega

theorem sequencingManager_initializeNlsr (confParam : ConfParameter)
    (adjacencyList : AdjacencyList) (namePrefixList : NamePrefixList) (seqFile : Option UInt64)
    (now : TimePoint) :
    (start confParam adjacencyList namePrefixList seqFile now).initializeNlsr.sequencingManager =
      firstNumbers seqFile := by
  let s₀ := initiated confParam adjacencyList namePrefixList seqFile now
  have hbuilt : s₀.buildAndInstallOwnNameLsa.buildAndInstallOwnCoordinateLsa.sequencingManager =
      firstNumbers seqFile := by
    refine (onlyLsdb_installCoordinateLsa _ _).sequencingManager.trans ?_
    show s₀.buildAndInstallOwnNameLsa.sequencingManager.increaseCorLsaSeq = _
    rw [show s₀.buildAndInstallOwnNameLsa.sequencingManager = _ from
      (onlyLsdb_installNameLsa _ _).sequencingManager]
    rfl
  exact initializeNlsr_of_built (P := fun s => s.sequencingManager = firstNumbers seqFile)
    (fun _ h => h) hbuilt

section Start

variable (confParam : ConfParameter) (adjacencyList : AdjacencyList)
  (namePrefixList : NamePrefixList) (seqFile : Option UInt64) (now : TimePoint)

theorem numbered_initiated :
    (initiated confParam adjacencyList namePrefixList seqFile now).Numbered := by
  refine ⟨rfl, fun c n hn => ?_⟩
  cases c <;> exact absurd hn (by simp [ownSeqNo, initiated, configure, start])

/-- What is read from the file leaves room in every counter. -/
theorem hasRoom_initiated (c : Counter) :
    (initiated confParam adjacencyList namePrefixList seqFile now).HasRoom c := by
  have := counter_initiateSeqNoFromFile_lt seqFile c
  show ((initiateSeqNoFromFile seqFile).counter c).toNat + 1 < 2 ^ 32
  omega

/-- The first build, of the Name LSA. -/
theorem numbered_firstBuild :
    (initiated confParam adjacencyList namePrefixList seqFile
      now).buildAndInstallOwnNameLsa.Numbered := by
  have h₀ := numbered_initiated confParam adjacencyList namePrefixList seqFile now
  exact (turn_buildAndInstallOwnNameLsa h₀ (SameNumbers.refl _)).1.numbered h₀
    fun c => Or.inl (hasRoom_initiated confParam adjacencyList namePrefixList seqFile now c)

theorem hasRoom_firstBuild (c : Counter) :
    (initiated confParam adjacencyList namePrefixList seqFile
      now).buildAndInstallOwnNameLsa.HasRoom c := by
  let s₁ :=
    (initiated confParam adjacencyList namePrefixList seqFile now).buildAndInstallOwnNameLsa
  have hlt := counter_initiateSeqNoFromFile_lt seqFile c
  have hsm : s₁.sequencingManager =
      seqStep (initiateSeqNoFromFile seqFile) (.increase .name) :=
    (onlyLsdb_installNameLsa _ _).sequencingManager
  have hnext : (s₁.sequencingManager.counter c).toNat ≤
      ((initiateSeqNoFromFile seqFile).counter c).toNat + 1 := by
    rw [hsm, counter_seqStep]
    split_ifs
    · rw [UInt64.toNat_add]
      exact Nat.mod_le _ _
    · exact Nat.le_succ _
  show (s₁.sequencingManager.counter c).toNat + 1 < 2 ^ 32
  omega

theorem numbered_initializeNlsr :
    (start confParam adjacencyList namePrefixList seqFile now).initializeNlsr.Numbered := by
  have h₁ := numbered_firstBuild confParam adjacencyList namePrefixList seqFile now
  have h₂ := (turn_buildAndInstallOwnCoordinateLsa h₁).numbered h₁
    fun c => Or.inl (hasRoom_firstBuild confParam adjacencyList namePrefixList seqFile now c)
  exact initializeNlsr_of_built
    (fun _ h => (onlyHello_setAdjacencyList ..).sameNumbers.numbered h) h₂

end Start

/-- A restart begins past everything that is in the file. -/
theorem neverReuses_initializeNlsr {earlier : List UInt64} (confParam : ConfParameter)
    (adjacencyList : AdjacencyList) (namePrefixList : NamePrefixList) {seqFile : Option UInt64}
    (now : TimePoint)
    (hsaved : ∀ p ∈ earlier, ∃ f, seqFile = some f ∧ ∀ c, savedField p c ≤ savedField f c)
    (hfits : Fits (start confParam adjacencyList namePrefixList seqFile
      now).initializeNlsr.sequencingManager) :
    let s := (start confParam adjacencyList namePrefixList seqFile now).initializeNlsr
    s.Numbered ∧ s.NeverReuses earlier := by
  let s₀ := initiated confParam adjacencyList namePrefixList seqFile now
  let s₁ := s₀.buildAndInstallOwnNameLsa
  let s₂ := s₁.buildAndInstallOwnCoordinateLsa
  have hlast : SameNumbers s₂
      (start confParam adjacencyList namePrefixList seqFile now).initializeNlsr :=
    initializeNlsr_of_built (fun _ h => h.trans (onlyHello_setAdjacencyList ..).sameNumbers)
      (SameNumbers.refl s₂)
  have hsm₁ : s₁.sequencingManager = (initiateSeqNoFromFile seqFile).increaseNameLsaSeq :=
    (onlyLsdb_installNameLsa _ _).sequencingManager
  have hsm₂ : s₂.sequencingManager = firstNumbers seqFile := by
    rw [← hlast.sequencingManager, sequencingManager_initializeNlsr]
  rw [hlast.sequencingManager, hsm₂] at hfits
  obtain ⟨hfits₀, hfits₁⟩ := fits_of_firstNumbers hfits
  have h₀ : s₀.Numbered := numbered_initiated ..
  have hn₀ : s₀.NeverReuses earlier := by
    refine ⟨packed_initiateSeqNoFromFile seqFile, fun p hp c => ?_,
      by simp [s₀, initiated, start, configure], fun p hp => ?_, List.Pairwise.nil,
      fun p _ q hq => absurd hq List.not_mem_nil⟩
    · obtain ⟨f, rfl, hle⟩ := hsaved p hp
      have hstart := toNat_counter_initiateSeqNoFromFile (some f) c
      have := hle c
      simp only [startOf] at hstart
      show _ < ((initiateSeqNoFromFile (some f)).counter c).toNat
      omega
    · exact hsaved p (hp.resolve_right List.not_mem_nil)
  have hturn₁ := (turn_buildAndInstallOwnNameLsa h₀ (SameNumbers.refl s₀)).1
  have hroom₁ : KeepsRoom s₀ s₁ := keepsRoom_of_fits hfits₀ s₁
  have hn₁ : s₁.NeverReuses earlier := hturn₁.neverReuses hroom₁ (hsm₁ ▸ hfits₁) hn₀
  have h₁ : s₁.Numbered := numbered_firstBuild ..
  have hturn₂ := turn_buildAndInstallOwnCoordinateLsa h₁
  have hroom₂ : KeepsRoom s₁ s₂ := keepsRoom_of_fits (hsm₁ ▸ hfits₁) s₂
  have hn₂ : s₂.NeverReuses earlier := hturn₂.neverReuses hroom₂ (hsm₂ ▸ hfits) hn₁
  refine ⟨numbered_initializeNlsr ..,
    hlast.turn.neverReuses (keepsRoom_of_fits (hsm₂ ▸ hfits) _) ?_ hn₂⟩
  rw [hlast.sequencingManager, hsm₂]
  exact hfits

end Nlsr

/-! ## Incarnations -/

/-- One life of a router: its configuration, what happens to it, and the operation that its crash
cuts between the file write and the announcement, if it cuts one there. A crash anywhere else
leaves the file and the announcements as they are before or after an operation. -/
structure Incarnation where
  confParam : ConfParameter
  adjacencyList : AdjacencyList := KeyedList.empty
  namePrefixList : NamePrefixList := KeyedList.empty
  now : TimePoint := 0
  events : List Event
  cut : Option Event := none

namespace Incarnation

open Nlsr SequencingManager

variable (math : MathLib) (inc : Incarnation) (seqFile : Option UInt64)

def first : Nlsr :=
  (start inc.confParam inc.adjacencyList inc.namePrefixList seqFile inc.now).initializeNlsr

def last : Nlsr := run (step math) (inc.first seqFile) inc.events

/-- The sequence file after the crash. -/
def fileLeft : Option UInt64 :=
  match inc.cut with
  | none => (inc.last math seqFile).seqFile
  | some e => ((inc.last math seqFile).step math e).seqFile

/-- No counter reaches its field width, and no LSA arrives in the name of this router. -/
structure Regular : Prop where
  fits : Along (step math) (fun s => Fits s.sequencingManager) (inc.first seqFile) inc.events
  foreign : Meets (step math) ArrivesForeign (inc.first seqFile) inc.events
  cut : ∀ e, inc.cut = some e → (inc.last math seqFile).ArrivesForeign e ∧
    Fits ((inc.last math seqFile).step math e).sequencingManager

end Incarnation

/-- What each incarnation announces, one after another on one file. -/
def lives (math : MathLib) : Option UInt64 → List Incarnation → List (List UInt64)
  | _, [] => []
  | seqFile, inc :: incs =>
    (inc.last math seqFile).published :: lives math (inc.fileLeft math seqFile) incs

/-- Every incarnation is regular on the file it finds. -/
def AllRegular (math : MathLib) : Option UInt64 → List Incarnation → Prop
  | _, [] => True
  | seqFile, inc :: incs =>
    inc.Regular math seqFile ∧ AllRegular math (inc.fileLeft math seqFile) incs

/-- The sequence number of a kind that a combined number announces. -/
def announcedSeqNo (combined : UInt64) (c : SequencingManager.Counter) : UInt64 :=
  (SequencingManager.ofCombined combined).counter c

namespace Nlsr

open SequencingManager

theorem announcedSeqNo_lt_iff {p q : UInt64} {c : Counter} :
    announcedSeqNo p c < announcedSeqNo q c ↔ savedField p c < savedField q c := by
  rw [UInt64.lt_iff_toNat_lt, announcedSeqNo, announcedSeqNo, ofCombined, ofCombined,
    toNat_counter_splitSequenceNo, toNat_counter_splitSequenceNo]

theorem announcedSeqNo_le_iff {p q : UInt64} {c : Counter} :
    announcedSeqNo p c ≤ announcedSeqNo q c ↔ savedField p c ≤ savedField q c := by
  rw [UInt64.le_iff_toNat_le, announcedSeqNo, announcedSeqNo, ofCombined, ofCombined,
    toNat_counter_splitSequenceNo, toNat_counter_splitSequenceNo]

/-- **A run reuses nothing.** -/
theorem neverReuses_run (math : MathLib) {earlier : List UInt64} {s : Nlsr} (hs : s.Numbered)
    (hn : s.NeverReuses earlier) {es : List Event}
    (hfits : Along (step math) (fun s => Fits s.sequencingManager) s es)
    (hforeign : Meets (step math) ArrivesForeign s es) :
    (run (step math) s es).Numbered ∧ (run (step math) s es).NeverReuses earlier := by
  induction es generalizing s with
  | nil => exact ⟨hs, hn⟩
  | cons e es ih =>
    have hturn := turn_step math hs e hforeign.1
    have hroom := keepsRoom_of_fits hfits.1 (step math s e)
    exact ih (hturn.numbered hs hroom) (hturn.neverReuses hroom hfits.2.first hn) hfits.2
      hforeign.2

/-- After a crash everything announced so far is in the file. -/
theorem saved_fileLeft {math : MathLib} {inc : Incarnation} {seqFile : Option UInt64}
    {earlier : List UInt64} (h : inc.Regular math seqFile)
    (hs : (inc.last math seqFile).Numbered) (hn : (inc.last math seqFile).NeverReuses earlier) :
    ∀ p ∈ earlier ++ (inc.last math seqFile).published,
      ∃ f, inc.fileLeft math seqFile = some f ∧ ∀ c, savedField p c ≤ savedField f c := by
  intro p hp
  rw [List.mem_append] at hp
  unfold Incarnation.fileLeft
  cases hcut : inc.cut with
  | none => exact hn.saved p hp
  | some e =>
    obtain ⟨hforeign, hfits⟩ := h.cut e hcut
    have hturn := turn_step math hs e hforeign
    have hroom := keepsRoom_of_fits h.fits.last ((inc.last math seqFile).step math e)
    refine (hturn.neverReuses hroom hfits hn).saved p (hp.imp_right fun hp => ?_)
    rcases hturn.announces with ha | ha
    · rwa [ha.published]
    · rw [ha.published]
      exact List.mem_append_left _ hp

theorem neverReuses_lives (math : MathLib) {incs : List Incarnation} {seqFile : Option UInt64}
    {earlier : List UInt64} (h : AllRegular math seqFile incs)
    (hsaved : ∀ p ∈ earlier, ∃ f, seqFile = some f ∧ ∀ c, savedField p c ≤ savedField f c) :
    (∀ p ∈ earlier, ∀ announced ∈ lives math seqFile incs, ∀ q ∈ announced, ∀ c,
        savedField p c < savedField q c) ∧
      (lives math seqFile incs).Pairwise (fun before after => ∀ p ∈ before, ∀ q ∈ after, ∀ c,
        savedField p c < savedField q c) ∧
      ∀ announced ∈ lives math seqFile incs,
        announced.Pairwise fun p q => ∀ c, savedField p c ≤ savedField q c := by
  induction incs generalizing seqFile earlier with
  | nil => simp [lives]
  | cons inc incs ih =>
    obtain ⟨hinc, hrest⟩ := h
    obtain ⟨hs₀, hn₀⟩ := neverReuses_initializeNlsr inc.confParam inc.adjacencyList
      inc.namePrefixList inc.now hsaved hinc.fits.first
    obtain ⟨hs, hn⟩ := neverReuses_run math hs₀ hn₀ hinc.fits hinc.foreign
    obtain ⟨hafter, hpairs, hordered⟩ := ih hrest (saved_fileLeft hinc hs hn)
    refine ⟨fun p hp announced ha => ?_, ?_, fun announced ha => ?_⟩
    · rcases List.mem_cons.1 ha with rfl | ha
      · exact hn.later p hp
      · exact hafter p (List.mem_append_left _ hp) announced ha
    · exact List.pairwise_cons.2
        ⟨fun later hl p hp => hafter p (List.mem_append_right _ hp) later hl, hpairs⟩
    · rcases List.mem_cons.1 ha with rfl | ha
      · exact hn.ordered
      · exact hordered announced ha

/-- **A restart never reuses a published sequence number.** Of each kind, a later incarnation
announces only greater numbers than an earlier one, and one incarnation never smaller ones. -/
theorem restart_never_reuses (math : MathLib) (seqFile : Option UInt64)
    (incs : List Incarnation) (h : AllRegular math seqFile incs) :
    (lives math seqFile incs).Pairwise (fun before after => ∀ p ∈ before, ∀ q ∈ after, ∀ c,
        announcedSeqNo p c < announcedSeqNo q c) ∧
      ∀ announced ∈ lives math seqFile incs,
        announced.Pairwise fun p q => ∀ c, announcedSeqNo p c ≤ announcedSeqNo q c := by
  have hsaved : ∀ p ∈ ([] : List UInt64), ∃ f, seqFile = some f ∧
      ∀ c, savedField p c ≤ savedField f c := fun p hp => absurd hp List.not_mem_nil
  obtain ⟨-, hpairs, hordered⟩ := neverReuses_lives math h hsaved
  simp only [announcedSeqNo_lt_iff, announcedSeqNo_le_iff]
  exact ⟨hpairs, hordered⟩

/-- A router that has written its file a second time when it crashes, and is started again. -/
def crashedOnce : List Incarnation :=
  [{ confParam := { network := [⟨"a"⟩] }
     events := [.buildAndInstallOwnNameLsa, .publishRoutingUpdate, .buildAndInstallOwnNameLsa]
     cut := some .publishRoutingUpdate },
    { confParam := { network := [⟨"a"⟩] }, events := [.publishRoutingUpdate] }]

theorem restart_never_reuses_crashedOnce :
    (∃ p q, lives ⟨0, id, id, id, id⟩ none crashedOnce = [[p], [q]] ∧
        announcedSeqNo p .name = 2 ∧ announcedSeqNo q .name = 14) ∧
      (lives ⟨0, id, id, id, id⟩ none crashedOnce).Pairwise (fun before after =>
        ∀ p ∈ before, ∀ q ∈ after, ∀ c, announcedSeqNo p c < announcedSeqNo q c) := by
  refine ⟨⟨2199024304128, 15393175371786, ?_, ?_, ?_⟩,
    (restart_never_reuses ⟨0, id, id, id, id⟩ none crashedOnce ⟨⟨?_, ?_, ?_⟩, ⟨?_, ?_, ?_⟩,
      trivial⟩).1⟩
  · decide +kernel
  · decide
  · decide
  · decide +kernel
  · decide +kernel
  · intro e he
    obtain rfl := Option.some.inj he
    exact ⟨trivial, by decide +kernel⟩
  · decide +kernel
  · decide +kernel
  · intro e he
    exact absurd he (Option.some_ne_none e).symm

end Nlsr

end LinkState
