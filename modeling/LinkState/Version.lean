import LinkState.AllKinds
import LinkState.Library.ChangeCounter
import Mathlib.Dynamics.PeriodicPts.Lemmas

/-!
# The version of the database

`Lsdb` signals `onLsdbChange` by hand at every place that stores, takes out or renumbers an LSA,
and its version counts the signals. `countedAs_perform` goes through the nine operations: each
signals exactly once if it applies and changes nothing at all if it does not. Every step of the
router is such an operation or leaves the database alone (`counted_step`), so the version is the
number of changes, modulo `2 ^ 64`.
-/

namespace LinkState

open SequencingManager

/-- The sequence number stored under a kind and a key. -/
def Lsdb.seqNoAt (db : Lsdb) : Counter → Name → Option UInt32
  | .name, key => (db.findNameLsa key).map fun l => l.lsSeqNo
  | .adj, key => (db.findAdjLsa key).map fun l => l.lsSeqNo
  | .cor, key => (db.findCoordinateLsa key).map fun l => l.lsSeqNo

/-- An operation of the database on the LSAs of one kind. -/
inductive LsdbOp
  | install (l : AnyLsa)
  | remove (c : Counter) (key : Name)
  | exprireOrRefresh (c : Counter) (lsaKey : Name) (seqNo : UInt64)

/-- The operation changes an LSA: an install has a new key or a newer number, a removal and an
event find the LSA, the event with the number it was scheduled for. -/
def LsdbOp.Applies (db : Lsdb) : LsdbOp → Prop
  | .install l => ∀ n ∈ db.seqNoAt l.counter (l.counter.key l.origRouter), n < l.lsSeqNo
  | .remove c key => (db.seqNoAt c key).isSome
  | .exprireOrRefresh c lsaKey seqNo => (db.seqNoAt c lsaKey).map UInt32.toUInt64 = some seqNo

namespace Nlsr

def perform (s : Nlsr) : LsdbOp → Nlsr
  | .install l => s.install l
  | .remove .name key => s.removeNameLsa key
  | .remove .adj key => s.removeAdjLsa key
  | .remove .cor key => s.removeCoordinateLsa key
  | .exprireOrRefresh .name lsaKey seqNo => s.exprireOrRefreshNameLsa lsaKey seqNo
  | .exprireOrRefresh .adj lsaKey seqNo => s.exprireOrRefreshAdjLsa lsaKey seqNo
  | .exprireOrRefresh .cor lsaKey seqNo => s.exprireOrRefreshCoordinateLsa lsaKey seqNo

/-- An LSA was added, removed or given a new number. -/
def LsasChanged (s t : Nlsr) : Prop := t.lsdb.seqNoAt ≠ s.lsdb.seqNoAt

/-- The database changes exactly under a condition, and its version counts that. -/
structure CountedAs (p : Prop) (s t : Nlsr) : Prop where
  change : p → LsasChanged s t ∧ t.lsdb.seqNo = s.lsdb.seqNo + 1
  same : ¬ p → t.lsdb = s.lsdb ∧ t.namePrefixTable = s.namePrefixTable

theorem LsasChanged.at {s t : Nlsr} (c : Counter) (key : Name)
    (h : t.lsdb.seqNoAt c key ≠ s.lsdb.seqNoAt c key) : LsasChanged s t := by
  intro hsame
  exact h (congrFun (congrFun hsame c) key)

theorem countedAs_of {p : Prop} {s t : Nlsr} (c : Counter) (key : Name) (hp : p)
    (h : t.lsdb.seqNoAt c key ≠ s.lsdb.seqNoAt c key)
    (hversion : t.lsdb.seqNo = s.lsdb.seqNo + 1) : CountedAs p s t :=
  ⟨fun _ => ⟨LsasChanged.at c key h, hversion⟩, fun hnot => absurd hp hnot⟩

theorem countedAs_self {p : Prop} (s : Nlsr) (hp : ¬ p) : CountedAs p s s :=
  ⟨fun h => absurd h hp, fun _ => ⟨rfl, rfl⟩⟩

theorem CountedAs.imp {p q : Prop} {s t : Nlsr} (h : CountedAs p s t) (hp : p) (hq : q) :
    CountedAs q s t :=
  ⟨fun _ => h.change hp, fun hnot => absurd hq hnot⟩

theorem CountedAs.then {p : Prop} {s t u : Nlsr} (h : CountedAs p s t) (hdb : u.lsdb = t.lsdb)
    (htable : u.namePrefixTable = t.namePrefixTable) : CountedAs p s u := by
  refine ⟨fun hp => ?_, fun hp => ?_⟩
  · rw [LsasChanged, hdb]
    exact h.change hp
  · rw [hdb, htable]
    exact h.same hp

/-! ## Installs -/

theorem seqNoAt_key (s : Nlsr) (c : Counter) (o : Name) :
    s.lsdb.seqNoAt c (c.key o) = (s.lsaOf c o).map AnyLsa.lsSeqNo := by
  cases c <;> simp [Lsdb.seqNoAt, lsaOf, Counter.key, Function.comp_def, AnyLsa.lsSeqNo]

theorem version_installNameLsa {s : Nlsr} {nlsa : NameLsa}
    (h : (LsdbOp.install (.name nlsa)).Applies s.lsdb) :
    (s.installNameLsa nlsa).lsdb.seqNo = s.lsdb.seqNo + 1 := by
  cases hfind : s.lsdb.findNameLsa nlsa.getKey with
  | none =>
    rw [lsdb_installNameLsa_of_none hfind]
    rfl
  | some chk =>
    have hlt : chk.lsSeqNo < nlsa.lsSeqNo :=
      h chk.lsSeqNo (Option.map_eq_some_iff.2 ⟨chk, hfind, rfl⟩)
    obtain ⟨eid, hdb⟩ := lsdb_installNameLsa_of_newer hfind hlt
    rw [hdb]
    rfl

theorem version_installAdjLsa {s : Nlsr} {alsa : AdjLsa}
    (h : (LsdbOp.install (.adj alsa)).Applies s.lsdb) :
    (s.installAdjLsa alsa).lsdb.seqNo = s.lsdb.seqNo + 1 := by
  cases hfind : s.lsdb.findAdjLsa alsa.getKey with
  | none =>
    rw [lsdb_installAdjLsa_of_none hfind]
    rfl
  | some chk =>
    have hlt : chk.lsSeqNo < alsa.lsSeqNo :=
      h chk.lsSeqNo (Option.map_eq_some_iff.2 ⟨chk, hfind, rfl⟩)
    obtain ⟨eid, hdb⟩ := lsdb_installAdjLsa_of_newer hfind hlt
    rw [hdb]
    rfl

theorem version_installCoordinateLsa {s : Nlsr} {clsa : CoordinateLsa}
    (h : (LsdbOp.install (.coordinate clsa)).Applies s.lsdb) :
    (s.installCoordinateLsa clsa).lsdb.seqNo = s.lsdb.seqNo + 1 := by
  cases hfind : s.lsdb.findCoordinateLsa clsa.getKey with
  | none =>
    rw [lsdb_installCoordinateLsa_of_none hfind]
    rfl
  | some chk =>
    have hlt : chk.lsSeqNo < clsa.lsSeqNo :=
      h chk.lsSeqNo (Option.map_eq_some_iff.2 ⟨chk, hfind, rfl⟩)
    obtain ⟨eid, hdb⟩ := lsdb_installCoordinateLsa_of_newer hfind hlt
    rw [hdb]
    rfl

theorem version_install {s : Nlsr} {l : AnyLsa} (h : (LsdbOp.install l).Applies s.lsdb) :
    (s.install l).lsdb.seqNo = s.lsdb.seqNo + 1 := by
  cases l with
  | name l => exact version_installNameLsa h
  | adj l => exact version_installAdjLsa h
  | coordinate l => exact version_installCoordinateLsa h

/-- An install that does not apply finds the LSA, and it is not older. -/
theorem install_of_not_applies {s : Nlsr} {l : AnyLsa} (h : ¬ (LsdbOp.install l).Applies s.lsdb) :
    s.install l = s := by
  simp only [LsdbOp.Applies, not_forall] at h
  obtain ⟨n, hn, hnot⟩ := h
  cases l with
  | name l =>
    obtain ⟨chk, hfind, rfl⟩ := Option.map_eq_some_iff.1 hn
    exact installNameLsa_of_not_newer hfind hnot
  | adj l =>
    obtain ⟨chk, hfind, rfl⟩ := Option.map_eq_some_iff.1 hn
    exact installAdjLsa_of_not_newer hfind hnot
  | coordinate l =>
    obtain ⟨chk, hfind, rfl⟩ := Option.map_eq_some_iff.1 hn
    exact installCoordinateLsa_of_not_newer hfind hnot

/-- After an install that applies, the number is the one of the LSA. -/
theorem seqNoAt_install {s : Nlsr} {l : AnyLsa} (h : (LsdbOp.install l).Applies s.lsdb) :
    (s.install l).lsdb.seqNoAt l.counter (l.counter.key l.origRouter) = some l.lsSeqNo := by
  rw [LsdbOp.Applies, seqNoAt_key] at h
  obtain ⟨eid, hinstall⟩ := lsaOf_install s l
  rw [seqNoAt_key, hinstall, if_pos ⟨rfl, rfl⟩]
  cases hold : s.lsaOf l.counter l.origRouter with
  | none => rfl
  | some chk =>
    have hlt : chk.lsSeqNo < l.lsSeqNo := h chk.lsSeqNo (Option.map_eq_some_iff.2 ⟨chk, hold, rfl⟩)
    rw [afterOffer, if_pos (UInt32.lt_iff_toNat_lt.1 hlt), Option.map_some,
      AnyLsa.lsSeqNo_updated (counter_of_lsaOf hold).symm]

theorem countedAs_install (s : Nlsr) (l : AnyLsa) :
    CountedAs ((LsdbOp.install l).Applies s.lsdb) s (s.install l) := by
  by_cases h : (LsdbOp.install l).Applies s.lsdb
  · refine countedAs_of l.counter (l.counter.key l.origRouter) h ?_ (version_install h)
    rw [seqNoAt_install h]
    intro hsame
    exact UInt32.lt_irrefl l.lsSeqNo (h l.lsSeqNo hsame.symm)
  · rw [install_of_not_applies h]
    exact countedAs_self s h

/-! ## Removals -/

/-- A stored LSA is removed. -/
theorem countedAs_removed {s t : Nlsr} {c : Counter} {key : Name} {n : UInt32}
    (hstored : s.lsdb.seqNoAt c key = some n) (hgone : t.lsdb.seqNoAt c key = none)
    (hversion : t.lsdb.seqNo = s.lsdb.seqNo + 1) :
    CountedAs ((LsdbOp.remove c key).Applies s.lsdb) s t := by
  refine countedAs_of c key (by simp [LsdbOp.Applies, hstored]) ?_ hversion
  simp [hstored, hgone]

theorem countedAs_removeNameLsa (s : Nlsr) (key : Name) :
    CountedAs ((LsdbOp.remove .name key).Applies s.lsdb) s (s.removeNameLsa key) := by
  cases h : s.lsdb.findNameLsa key with
  | none =>
    rw [removeNameLsa_of_none h]
    exact countedAs_self s (by simp [LsdbOp.Applies, Lsdb.seqNoAt, h])
  | some l =>
    have hdb := lsdb_removeNameLsa_of_some h
    have hstored : s.lsdb.seqNoAt .name key = some l.lsSeqNo := by simp [Lsdb.seqNoAt, h]
    refine countedAs_removed hstored ?_ (by rw [hdb]; rfl)
    simp [hdb, Lsdb.seqNoAt, Lsdb.onLsdbChange, Lsdb.findNameLsa]

theorem countedAs_removeAdjLsa (s : Nlsr) (key : Name) :
    CountedAs ((LsdbOp.remove .adj key).Applies s.lsdb) s (s.removeAdjLsa key) := by
  cases h : s.lsdb.findAdjLsa key with
  | none =>
    rw [removeAdjLsa_of_none h]
    exact countedAs_self s (by simp [LsdbOp.Applies, Lsdb.seqNoAt, h])
  | some l =>
    have hdb := lsdb_removeAdjLsa_of_some h
    have hstored : s.lsdb.seqNoAt .adj key = some l.lsSeqNo := by simp [Lsdb.seqNoAt, h]
    refine countedAs_removed hstored ?_ (by rw [hdb]; rfl)
    simp [hdb, Lsdb.seqNoAt, Lsdb.onLsdbChange, Lsdb.findAdjLsa]

theorem countedAs_removeCoordinateLsa (s : Nlsr) (key : Name) :
    CountedAs ((LsdbOp.remove .cor key).Applies s.lsdb) s (s.removeCoordinateLsa key) := by
  cases h : s.lsdb.findCoordinateLsa key with
  | none =>
    rw [removeCoordinateLsa_of_none h]
    exact countedAs_self s (by simp [LsdbOp.Applies, Lsdb.seqNoAt, h])
  | some l =>
    have hdb := lsdb_removeCoordinateLsa_of_some h
    have hstored : s.lsdb.seqNoAt .cor key = some l.lsSeqNo := by simp [Lsdb.seqNoAt, h]
    refine countedAs_removed hstored ?_ (by rw [hdb]; rfl)
    simp [hdb, Lsdb.seqNoAt, Lsdb.onLsdbChange, Lsdb.findCoordinateLsa]

/-! ## Events -/

/-- A stored LSA gets its next number. -/
theorem countedAs_renewed {p : Prop} {s t : Nlsr} {c : Counter} {key : Name} {n : UInt32}
    (hp : p) (hstored : s.lsdb.seqNoAt c key = some n)
    (hnext : t.lsdb.seqNoAt c key = some (n + 1)) (hversion : t.lsdb.seqNo = s.lsdb.seqNo + 1) :
    CountedAs p s t := by
  refine countedAs_of c key hp ?_ hversion
  rw [hstored, hnext]
  simp

theorem countedAs_refreshNameLsa {p : Prop} {s : Nlsr} {key : Name} {chk : NameLsa}
    (hp : p) (h : s.lsdb.findNameLsa key = some chk) :
    CountedAs p s (s.refreshNameLsa chk) := by
  obtain rfl : chk.getKey = key := KeyedList.key_of_find? h
  have hstored : s.lsdb.seqNoAt .name chk.getKey = some chk.lsSeqNo := by simp [Lsdb.seqNoAt, h]
  have hnext : (s.refreshNameLsa chk).lsdb.seqNoAt .name chk.getKey =
      some (chk.lsSeqNo + 1) :=
    Option.map_eq_some_iff.2 ⟨_, KeyedList.find?_replace_self (b := chk) h, rfl⟩
  exact countedAs_renewed hp hstored hnext rfl

theorem countedAs_refreshAdjLsa {p : Prop} {s : Nlsr} {key : Name} {chk : AdjLsa}
    (hp : p) (h : s.lsdb.findAdjLsa key = some chk) :
    CountedAs p s (s.refreshAdjLsa chk) := by
  obtain rfl : chk.getKey = key := KeyedList.key_of_find? h
  have hstored : s.lsdb.seqNoAt .adj chk.getKey = some chk.lsSeqNo := by simp [Lsdb.seqNoAt, h]
  have hnext : (s.refreshAdjLsa chk).lsdb.seqNoAt .adj chk.getKey =
      some (chk.lsSeqNo + 1) :=
    Option.map_eq_some_iff.2 ⟨_, KeyedList.find?_replace_self (b := chk) h, rfl⟩
  exact countedAs_renewed hp hstored hnext rfl

theorem countedAs_refreshCoordinateLsa {p : Prop} {s : Nlsr} {key : Name} {chk : CoordinateLsa}
    (hp : p) (h : s.lsdb.findCoordinateLsa key = some chk) :
    CountedAs p s (s.refreshCoordinateLsa chk) := by
  obtain rfl : chk.getKey = key := KeyedList.key_of_find? h
  have hstored : s.lsdb.seqNoAt .cor chk.getKey = some chk.lsSeqNo := by simp [Lsdb.seqNoAt, h]
  have hnext : (s.refreshCoordinateLsa chk).lsdb.seqNoAt .cor chk.getKey =
      some (chk.lsSeqNo + 1) :=
    Option.map_eq_some_iff.2 ⟨_, KeyedList.find?_replace_self (b := chk) h, rfl⟩
  exact countedAs_renewed hp hstored hnext rfl

/-- An event for a stored LSA does nothing if it was meant for another number. -/
theorem countedAs_exprireOrRefresh {s t : Nlsr} {c : Counter} {lsaKey : Name} {seqNo : UInt64}
    {n : UInt32} (hstored : s.lsdb.seqNoAt c lsaKey = some n)
    (hsame : n.toUInt64 = seqNo → (LsdbOp.remove c lsaKey).Applies s.lsdb →
      CountedAs ((LsdbOp.remove c lsaKey).Applies s.lsdb) s t)
    (hother : n.toUInt64 ≠ seqNo → t = s) :
    CountedAs ((LsdbOp.exprireOrRefresh c lsaKey seqNo).Applies s.lsdb) s t := by
  have hremove : (LsdbOp.remove c lsaKey).Applies s.lsdb := by simp [LsdbOp.Applies, hstored]
  by_cases hseq : n.toUInt64 = seqNo
  · exact (hsame hseq hremove).imp hremove (by simp [LsdbOp.Applies, hstored, hseq])
  · rw [hother hseq]
    exact countedAs_self s (by simp [LsdbOp.Applies, hstored, hseq])

theorem countedAs_exprireOrRefreshNameLsa (s : Nlsr) (lsaKey : Name) (seqNo : UInt64) :
    CountedAs ((LsdbOp.exprireOrRefresh .name lsaKey seqNo).Applies s.lsdb) s
      (s.exprireOrRefreshNameLsa lsaKey seqNo) := by
  unfold exprireOrRefreshNameLsa
  cases h : s.lsdb.findNameLsa lsaKey with
  | none => exact countedAs_self s (by simp [LsdbOp.Applies, Lsdb.seqNoAt, h])
  | some chk =>
    have hstored : s.lsdb.seqNoAt .name lsaKey = some chk.lsSeqNo := by simp [Lsdb.seqNoAt, h]
    refine countedAs_exprireOrRefresh hstored (fun hseq hremove => ?_) fun hseq => if_neg hseq
    dsimp only
    rw [if_pos hseq]
    by_cases horig : chk.origRouter = s.lsdb.thisRouterPrefix
    · rw [if_pos horig]
      exact countedAs_refreshNameLsa hremove h
    · rw [if_neg horig]
      exact countedAs_removeNameLsa s lsaKey

theorem countedAs_exprireOrRefreshAdjLsa (s : Nlsr) (lsaKey : Name) (seqNo : UInt64) :
    CountedAs ((LsdbOp.exprireOrRefresh .adj lsaKey seqNo).Applies s.lsdb) s
      (s.exprireOrRefreshAdjLsa lsaKey seqNo) := by
  unfold exprireOrRefreshAdjLsa
  cases h : s.lsdb.findAdjLsa lsaKey with
  | none => exact countedAs_self s (by simp [LsdbOp.Applies, Lsdb.seqNoAt, h])
  | some chk =>
    have hstored : s.lsdb.seqNoAt .adj lsaKey = some chk.lsSeqNo := by simp [Lsdb.seqNoAt, h]
    refine countedAs_exprireOrRefresh hstored (fun hseq hremove => ?_) fun hseq => if_neg hseq
    dsimp only
    rw [if_pos hseq]
    by_cases horig : chk.origRouter = s.lsdb.thisRouterPrefix
    · rw [if_pos horig]
      exact (countedAs_refreshAdjLsa hremove h).then (lsdb_scheduleRoutingTableCalculation _)
        (quiet_scheduleRoutingTableCalculation _).namePrefixTable
    · rw [if_neg horig]
      exact (countedAs_removeAdjLsa s lsaKey).then (lsdb_scheduleRoutingTableCalculation _)
        (quiet_scheduleRoutingTableCalculation _).namePrefixTable

theorem countedAs_exprireOrRefreshCoordinateLsa (s : Nlsr) (lsaKey : Name) (seqNo : UInt64) :
    CountedAs ((LsdbOp.exprireOrRefresh .cor lsaKey seqNo).Applies s.lsdb) s
      (s.exprireOrRefreshCoordinateLsa lsaKey seqNo) := by
  unfold exprireOrRefreshCoordinateLsa
  cases h : s.lsdb.findCoordinateLsa lsaKey with
  | none => exact countedAs_self s (by simp [LsdbOp.Applies, Lsdb.seqNoAt, h])
  | some chk =>
    have hstored : s.lsdb.seqNoAt .cor lsaKey = some chk.lsSeqNo := by simp [Lsdb.seqNoAt, h]
    refine countedAs_exprireOrRefresh hstored (fun hseq hremove => ?_) fun hseq => if_neg hseq
    dsimp only
    rw [if_pos hseq]
    by_cases horig : chk.origRouter = s.lsdb.thisRouterPrefix
    · rw [if_pos horig]
      exact (countedAs_refreshCoordinateLsa hremove h).then (lsdb_scheduleIfHyperbolic _)
        (quiet_scheduleIfHyperbolic _).namePrefixTable
    · rw [if_neg horig]
      exact (countedAs_removeCoordinateLsa s lsaKey).then (lsdb_scheduleIfHyperbolic _)
        (quiet_scheduleIfHyperbolic _).namePrefixTable

/-- **Every operation signals once if it applies, and changes nothing if it does not.** -/
theorem countedAs_perform (s : Nlsr) (op : LsdbOp) :
    CountedAs (op.Applies s.lsdb) s (s.perform op) := by
  cases op with
  | install l => exact countedAs_install s l
  | remove c key =>
    cases c with
    | name => exact countedAs_removeNameLsa s key
    | adj => exact countedAs_removeAdjLsa s key
    | cor => exact countedAs_removeCoordinateLsa s key
  | exprireOrRefresh c lsaKey seqNo =>
    cases c with
    | name => exact countedAs_exprireOrRefreshNameLsa s lsaKey seqNo
    | adj => exact countedAs_exprireOrRefreshAdjLsa s lsaKey seqNo
    | cor => exact countedAs_exprireOrRefreshCoordinateLsa s lsaKey seqNo

theorem lsasChanged_perform_iff (s : Nlsr) (op : LsdbOp) :
    LsasChanged s (s.perform op) ↔ op.Applies s.lsdb := by
  constructor
  · intro hchanged
    by_contra hnot
    exact hchanged (congrArg Lsdb.seqNoAt ((countedAs_perform s op).same hnot).1)
  · intro h
    exact ((countedAs_perform s op).change h).1

/-! ## Runs -/

/-- The version counts the change from one state to another. -/
def VersionCounts : Nlsr → Nlsr → Prop :=
  Counted (fun s => s.lsdb.seqNo) (· + 1) (fun s => s.lsdb.seqNoAt) fun s => s.lsdb

theorem CountedAs.versionCounts {p : Prop} {s t : Nlsr} (h : CountedAs p s t) :
    VersionCounts s t := by
  by_cases hp : p
  · exact Or.inl (h.change hp)
  · have hdb := (h.same hp).1
    exact Or.inr ⟨congrArg Lsdb.seqNoAt hdb, hdb, congrArg Lsdb.seqNo hdb⟩

theorem versionCounts_of_lsdb {s t : Nlsr} (h : t.lsdb = s.lsdb) : VersionCounts s t :=
  Or.inr ⟨congrArg Lsdb.seqNoAt h, h, congrArg Lsdb.seqNo h⟩

/-- Only the database of the first state matters. -/
theorem VersionCounts.of_lsdb {s s' t : Nlsr} (h : VersionCounts s' t)
    (hdb : s'.lsdb = s.lsdb) : VersionCounts s t := by
  simpa only [VersionCounts, Counted, hdb] using h

theorem OnlyHello.versionCounts {s t : Nlsr} (h : OnlyHello s t) : VersionCounts s t := by
  rw [OnlyHello] at h
  rw [h]
  exact versionCounts_of_lsdb rfl

theorem versionCounts_buildAdjLsa (s : Nlsr) : VersionCounts s s.buildAdjLsa := by
  let s₁ : Nlsr := { s with isBuildAdjLsaSheduled := false }
  let s₂ : Nlsr := ({ s₁ with
    sequencingManager := s₁.sequencingManager.increaseAdjLsaSeq } : Nlsr).publishRoutingUpdate
  unfold buildAdjLsa
  dsimp only
  split_ifs
  · exact (countedAs_install s₂ (.adj s₁.ownAdjLsa)).versionCounts
  · exact ((countedAs_removeAdjLsa s₁ (AdjLsa.key s.routerPrefix)).then
      (lsdb_scheduleRoutingTableCalculation _)
      (quiet_scheduleRoutingTableCalculation _).namePrefixTable).versionCounts
  · exact versionCounts_of_lsdb rfl
  · exact versionCounts_of_lsdb rfl

theorem versionCounts_runAction (math : MathLib) (s : Nlsr) (action : Action) :
    VersionCounts s (s.runAction math action) := by
  cases action with
  | exprireOrRefreshNameLsa lsaKey seqNo =>
    exact (countedAs_exprireOrRefreshNameLsa s lsaKey seqNo).versionCounts
  | exprireOrRefreshAdjLsa lsaKey seqNo =>
    exact (countedAs_exprireOrRefreshAdjLsa s lsaKey seqNo).versionCounts
  | exprireOrRefreshCoordinateLsa lsaKey seqNo =>
    exact (countedAs_exprireOrRefreshCoordinateLsa s lsaKey seqNo).versionCounts
  | buildAdjLsa => exact versionCounts_buildAdjLsa s
  | calculate =>
    have h := onlyRouting_calculate math s
    rw [OnlyRouting] at h
    show VersionCounts s (s.calculate math)
    rw [h]
    exact versionCounts_of_lsdb rfl
  | removeFibEntry name =>
    have h := onlyFib_fibRemove s name
    rw [OnlyFib] at h
    show VersionCounts s (s.fibRemove name)
    rw [h]
    exact versionCounts_of_lsdb rfl

theorem versionCounts_fire (math : MathLib) (s : Nlsr) (id : Nat) :
    VersionCounts s (s.fire math id) := by
  unfold fire
  cases s.pendingAction id with
  | none => exact versionCounts_of_lsdb rfl
  | some action => exact versionCounts_runAction math (s.cancelEvent (some id)) action

theorem versionCounts_buildAndInstallOwnNameLsa (s : Nlsr) :
    VersionCounts s s.buildAndInstallOwnNameLsa := by
  let s₁ : Nlsr := { s with sequencingManager := s.sequencingManager.increaseNameLsaSeq }
  exact (countedAs_install s₁ (.name s.ownNameLsa)).versionCounts

theorem versionCounts_step (math : MathLib) (s : Nlsr) (e : Event) :
    VersionCounts s (s.step math e) := by
  cases e with
  | installNameLsa nlsa => exact (countedAs_install s (.name _)).versionCounts
  | installAdjLsa alsa => exact (countedAs_install s (.adj _)).versionCounts
  | installCoordinateLsa clsa => exact (countedAs_install s (.coordinate _)).versionCounts
  | removeNameLsa key => exact (countedAs_removeNameLsa s key).versionCounts
  | removeAdjLsa key => exact (countedAs_removeAdjLsa s key).versionCounts
  | removeCoordinateLsa key => exact (countedAs_removeCoordinateLsa s key).versionCounts
  | fire id => exact versionCounts_fire math s id
  | buildAndInstallOwnNameLsa => exact versionCounts_buildAndInstallOwnNameLsa s
  | buildAndInstallOwnCoordinateLsa =>
    let s₁ : Nlsr := { s with sequencingManager := s.sequencingManager.increaseCorLsaSeq }
    exact (countedAs_install s₁ (.coordinate s.ownCoordinateLsa)).versionCounts
  | publishRoutingUpdate => exact versionCounts_of_lsdb rfl
  | scheduleAdjLsaBuild => exact (onlyHello_scheduleAdjLsaBuild s).versionCounts
  | helloTimedOut interestName =>
    exact (onlyHello_processInterestTimedOut s interestName).versionCounts
  | helloValidated dataName => exact (onlyHello_onHelloValidated s dataName).versionCounts
  | registrationSuccess neighbor faceId =>
    exact (onlyHello_onRegistrationSuccess s neighbor faceId).versionCounts
  | registrationFailure neighbor =>
    exact (onlyHello_onRegistrationFailure s neighbor).versionCounts
  | faceDestroyed faceId => exact (onlyHello_onFaceDestroyed s faceId).versionCounts
  | advertise name =>
    show VersionCounts s (s.advertise name)
    unfold advertise
    split_ifs
    · exact versionCounts_of_lsdb rfl
    · exact (versionCounts_buildAndInstallOwnNameLsa
        { s with namePrefixList := s.namePrefixList.insert name }).of_lsdb rfl
  | withdraw name =>
    show VersionCounts s (s.withdraw name)
    unfold withdraw
    split_ifs
    · exact (versionCounts_buildAndInstallOwnNameLsa
        { s with namePrefixList := s.namePrefixList.remove name }).of_lsdb rfl
    · exact versionCounts_of_lsdb rfl
  | clock now => exact versionCounts_of_lsdb rfl

/-- How many events of a run change an LSA. -/
noncomputable def lsaChanges (math : MathLib) (s : Nlsr) (es : List Event) : Nat :=
  changes (step math) (fun s => s.lsdb.seqNoAt) s es

theorem toNat_iterate_succ (v : UInt64) (n : Nat) :
    ((· + 1)^[n] v).toNat = (v.toNat + n) % 2 ^ 64 := by
  induction n with
  | zero => simp [Nat.mod_eq_of_lt v.toNat_lt]
  | succ n ih =>
    rw [Function.iterate_succ_apply', UInt64.toNat_add, ih]
    simp [Nat.add_assoc]

/-- A version comes back after `2 ^ 64` changes, and not before. -/
theorem minimalPeriod_succ (v : UInt64) : Function.minimalPeriod (· + 1) v = 2 ^ 64 := by
  refine Nat.dvd_antisymm (Function.IsPeriodicPt.minimalPeriod_dvd ?_) ?_
  · refine UInt64.toNat_inj.1 ?_
    rw [toNat_iterate_succ, Nat.add_mod_right, Nat.mod_eq_of_lt v.toNat_lt]
  · have h := congrArg UInt64.toNat (Function.iterate_minimalPeriod (f := (· + 1)) (x := v))
    rw [toNat_iterate_succ] at h
    have hlt := v.toNat_lt
    omega

/-- **The version counts the changes**, modulo `2 ^ 64`: an operation signals one change if it
changes an LSA and leaves the database and the name prefix table alone if it does not; and a run
of fewer than `2 ^ 64` changes that ends with the version it began with has changed nothing. -/
theorem version_counts_changes (math : MathLib) :
    (∀ (s : Nlsr) (op : LsdbOp),
      let t := s.perform op
      (LsasChanged s t ↔ op.Applies s.lsdb) ∧
      (LsasChanged s t → t.lsdb.seqNo.toNat = (s.lsdb.seqNo.toNat + 1) % 2 ^ 64) ∧
      (¬ LsasChanged s t → t.lsdb = s.lsdb ∧ t.namePrefixTable = s.namePrefixTable)) ∧
    ∀ (s : Nlsr) (es : List Event),
      let t := run (step math) s es
      t.lsdb.seqNo.toNat = (s.lsdb.seqNo.toNat + lsaChanges math s es) % 2 ^ 64 ∧
      (lsaChanges math s es < 2 ^ 64 → t.lsdb.seqNo = s.lsdb.seqNo → t.lsdb = s.lsdb) := by
  constructor
  · intro s op
    have hcounted := countedAs_perform s op
    refine ⟨lsasChanged_perform_iff s op, fun hchanged => ?_, fun hsame => ?_⟩
    · rw [(hcounted.change ((lsasChanged_perform_iff s op).1 hchanged)).2, UInt64.toNat_add]
      rfl
    · exact hcounted.same fun happlies => hsame ((lsasChanged_perform_iff s op).2 happlies)
  · intro s es
    refine ⟨?_, fun hfew hversion => ?_⟩
    · rw [← toNat_iterate_succ]
      exact congrArg UInt64.toNat (version_run (versionCounts_step math) s es)
    · refine content_run_of_version_eq (versionCounts_step math) ?_ hversion
      rw [minimalPeriod_succ]
      exact hfew

/-! ## The version comes round -/

/-- A Name LSA of another router. -/
def foreignLsa (lsSeqNo : UInt32) : NameLsa := { origRouter := [⟨"other"⟩], lsSeqNo }

/-- The LSA comes and goes, again and again. -/
def comesAndGoes (n : Nat) : List Event :=
  (List.replicate n
    [Event.installNameLsa (foreignLsa 1), .removeNameLsa (foreignLsa 1).getKey]).flatten

/-- The number of the LSA and the version of the database. -/
structure HasLsa (number : Option UInt32) (version : UInt64) (s : Nlsr) : Prop where
  number : s.lsdb.seqNoAt .name (foreignLsa 1).getKey = number
  version : s.lsdb.seqNo = version

theorem HasLsa.install (math : MathLib) {number : Option UInt32} {version : UInt64} {s : Nlsr}
    (h : HasLsa number version s) (lsSeqNo : UInt32) (hnew : ∀ n ∈ number, n < lsSeqNo) :
    HasLsa (some lsSeqNo) (version + 1) (s.step math (.installNameLsa (foreignLsa lsSeqNo))) := by
  have happlies : (LsdbOp.install (.name (foreignLsa lsSeqNo))).Applies s.lsdb := by
    intro n hn
    exact hnew n (h.number ▸ hn)
  refine ⟨seqNoAt_install happlies, ?_⟩
  rw [← h.version]
  exact version_install happlies

theorem HasLsa.remove (math : MathLib) {n : UInt32} {version : UInt64} {s : Nlsr}
    (h : HasLsa (some n) version s) :
    HasLsa none (version + 1) (s.step math (.removeNameLsa (foreignLsa 1).getKey)) := by
  obtain ⟨l, hl, -⟩ := Option.map_eq_some_iff.1 h.number
  have hdb := lsdb_removeNameLsa_of_some hl
  refine ⟨?_, ?_⟩
  · show Lsdb.seqNoAt (s.removeNameLsa _).lsdb _ _ = none
    simp [hdb, Lsdb.seqNoAt, Lsdb.onLsdbChange, Lsdb.findNameLsa]
  · show (s.removeNameLsa _).lsdb.seqNo = _
    rw [hdb, ← h.version]
    rfl

theorem HasLsa.comesAndGoes (math : MathLib) (n : Nat) {version : UInt64} {s : Nlsr}
    (h : HasLsa none version s) :
    HasLsa none (version + UInt64.ofNat (2 * n)) (run (step math) s (comesAndGoes n)) := by
  induction n generalizing version s with
  | zero => simpa [Nlsr.comesAndGoes] using h
  | succ n ih =>
    have hpair := (h.install math 1 (by simp)).remove math
    have hrest := ih hpair
    have hsum : version + 1 + 1 + UInt64.ofNat (2 * n) = version + UInt64.ofNat (2 * (n + 1)) := by
      have htwo : UInt64.ofNat (2 * 1) = 1 + 1 := rfl
      rw [Nat.mul_add, UInt64.ofNat_add, UInt64.add_comm (UInt64.ofNat (2 * n)), htwo,
        ← UInt64.add_assoc, ← UInt64.add_assoc]
    rw [← hsum]
    exact hrest

/-- The router just after its start. -/
def justStarted : Nlsr := (start {} KeyedList.empty KeyedList.empty none 0).initializeNlsr

theorem hasLsa_justStarted : HasLsa none 2 justStarted := ⟨by decide +kernel, by decide +kernel⟩

/-- Two changes before version 0 comes back. -/
theorem hasLsa_last (math : MathLib) :
    HasLsa none (-2) (run (step math) justStarted (comesAndGoes (2 ^ 63 - 2))) := by
  have h := hasLsa_justStarted.comesAndGoes math (2 ^ 63 - 2)
  have hversion : (2 : UInt64) + UInt64.ofNat (2 * (2 ^ 63 - 2)) = -2 := by decide +kernel
  rw [← hversion]
  exact h

/-- The version is a 64-bit number: the change after number `2 ^ 64 - 1` does not make it grow, and
after `2 ^ 64` changes the version of the start is back with another database. -/
theorem not_version_counts_changes :
    (¬ ∀ (math : MathLib) (es : List Event) (op : LsdbOp),
      let s := run (step math) justStarted es
      LsasChanged s (s.perform op) →
        (s.perform op).lsdb.seqNo.toNat = s.lsdb.seqNo.toNat + 1) ∧
    ¬ ∀ (math : MathLib) (es es' : List Event),
      let s := run (step math) justStarted es
      let t := run (step math) s es'
      t.lsdb.seqNo = s.lsdb.seqNo → t.lsdb.seqNoAt = s.lsdb.seqNoAt := by
  let math : MathLib := ⟨0, id, id, id, id⟩
  obtain ⟨es₀, hlast⟩ : ∃ es₀, HasLsa none (-2) (run (step math) justStarted es₀) :=
    ⟨_, hasLsa_last math⟩
  have hone := hlast.install math 1 (by simp)
  have htwo := hone.install math 2 (by simp)
  constructor
  · intro hgrows
    -- Number 1, then number 2
    let es := es₀ ++ [.installNameLsa (foreignLsa 1)]
    have hes : HasLsa (some 1) (-1) (run (step math) justStarted es) := by
      rw [run_append]
      exact hone
    have hmore := hes.install math 2 (by simp)
    have happlies : (LsdbOp.install (.name (foreignLsa 2))).Applies
        (run (step math) justStarted es).lsdb := by
      intro n hn
      obtain rfl : 1 = n := Option.some_inj.1 (hes.number.symm.trans hn)
      decide
    have hgrown := hgrows math es (.install (.name (foreignLsa 2)))
      ((lsasChanged_perform_iff _ _).2 happlies)
    rw [hes.version] at hgrown
    have hzero : (-1 + 1 : UInt64).toNat = (-1 : UInt64).toNat + 1 :=
      (congrArg UInt64.toNat hmore.version).symm.trans hgrown
    exact absurd hzero (by decide)
  · intro hequal
    -- Number 1, number 2, gone, and number 1 again
    let es := es₀ ++ [.installNameLsa (foreignLsa 1),
      .installNameLsa (foreignLsa 2), .removeNameLsa (foreignLsa 1).getKey,
      .installNameLsa (foreignLsa 1)]
    have hes : HasLsa (some 1) 2 (run (step math) justStarted es) := by
      rw [run_append]
      exact (htwo.remove math).install math 1 (by simp)
    have hsame := hequal math [] es (hes.version.trans hasLsa_justStarted.version.symm)
    have hnone : some (1 : UInt32) = none :=
      hes.number.symm.trans ((congrFun (congrFun hsame .name) _).trans hasLsa_justStarted.number)
    exact absurd hnone (by simp)

end Nlsr

end LinkState
