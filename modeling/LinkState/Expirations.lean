import LinkState.AllKinds
import LinkState.Scheduling

/-!
# The expirations of stored LSAs

Every install and every refresh arms an expiration event for the LSA that it leaves. This module
says so once for the three kinds: `install` and `refresh` end in `arm`, and what they do before
that is aside from the LSAs (`Aside`).

* `lsaEvent c o seqNo` is the event of the LSA of a kind and an origin; `expiry` is the one that
  is scheduled for a number.
* A scheduled number is met by the stored one exactly if it is the same and below `2 ^ 31`,
  because it passes through an `int` (`toUInt64_eq_expirationSeqNo`).
-/

namespace LinkState

open SequencingManager

/-! ## Events of LSAs -/

/-- The expiration event of the LSA of a kind and an origin. -/
def lsaEvent (c : Counter) (o : Name) (seqNo : UInt64) : Action :=
  match c with
  | .name => .exprireOrRefreshNameLsa (NameLsa.key o) seqNo
  | .adj => .exprireOrRefreshAdjLsa (AdjLsa.key o) seqNo
  | .cor => .exprireOrRefreshCoordinateLsa (CoordinateLsa.key o) seqNo

/-- The event that is scheduled for a number. -/
def expiry (c : Counter) (o : Name) (lsSeqNo : UInt32) : Action :=
  lsaEvent c o (expirationSeqNo lsSeqNo)

/-- The event of no LSA. -/
def Action.Aside : Action → Prop
  | .buildAdjLsa => True
  | .calculate => True
  | .removeFibEntry _ => True
  | _ => False

/-- An event of this LSA, as they are scheduled. -/
def Expires (c : Counter) (o : Name) (action : Action) : Prop := ∃ n, action = expiry c o n

theorem lsaEvent_inj {c c' : Counter} {o o' : Name} {n n' : UInt64} :
    lsaEvent c o n = lsaEvent c' o' n' ↔ c = c' ∧ o = o' ∧ n = n' := by
  cases c <;> cases c' <;> simp [lsaEvent]

theorem Action.Aside.ne_lsaEvent {action : Action} (h : action.Aside) (c : Counter) (o : Name)
    (seqNo : UInt64) : action ≠ lsaEvent c o seqNo := by
  rintro rfl
  cases c <;> exact h

theorem aside_of_expiresFibEntry {action : Action} (h : Nlsr.ExpiresFibEntry action) :
    action.Aside := by
  obtain ⟨name, rfl⟩ := h
  trivial

/-- An `int` keeps the numbers below `2 ^ 31`. -/
theorem expirationSeqNo_of_lt {n : UInt32} (h : n.toNat < 2 ^ 31) :
    expirationSeqNo n = n.toUInt64 := by
  have hmsb : n.toBitVec.msb = false := by
    rw [BitVec.msb_eq_decide]
    simp
    omega
  exact UInt64.toBitVec_inj.1 (BitVec.signExtend_eq_setWidth_of_msb_false hmsb)

theorem le_toNat_signExtend {x : BitVec 32} (h : 2 ^ 31 ≤ x.toNat) :
    2 ^ 32 ≤ (x.signExtend 64).toNat := by
  rw [BitVec.toNat_signExtend]
  simp [BitVec.msb_eq_decide]
  split_ifs <;> omega

/-- The others come out with the upper half set. -/
theorem le_expirationSeqNo {n : UInt32} (h : 2 ^ 31 ≤ n.toNat) :
    2 ^ 32 ≤ (expirationSeqNo n).toNat := le_toNat_signExtend (x := n.toBitVec) h

/-- **A stored number is met by a scheduled one** if it is the same and an `int` keeps it. -/
theorem toUInt64_eq_expirationSeqNo {m n : UInt32} :
    m.toUInt64 = expirationSeqNo n ↔ m = n ∧ n.toNat < 2 ^ 31 := by
  constructor
  · intro h
    have hn : n.toNat < 2 ^ 31 := by
      by_contra hle
      have hlarge := le_expirationSeqNo (not_lt.1 hle)
      rw [← h, UInt32.toNat_toUInt64] at hlarge
      exact absurd m.toNat_lt (not_lt.2 hlarge)
    rw [expirationSeqNo_of_lt hn] at h
    refine ⟨UInt32.toNat_inj.1 ?_, hn⟩
    simpa using congrArg UInt64.toNat h
  · rintro ⟨rfl, hn⟩
    exact (expirationSeqNo_of_lt hn).symm

/-! ## LSAs of any kind -/

theorem AnyLsa.toLsa_origRouter (l : AnyLsa) : l.toLsa.origRouter = l.origRouter := by
  cases l <;> rfl

/-- The header of an LSA after an update. -/
theorem AnyLsa.toLsa_updated {l chk : AnyLsa} (h : l.counter = chk.counter)
    (horig : l.origRouter = chk.origRouter) (eid : Nat) :
    (chk.updated l eid).counter = l.counter ∧ (chk.updated l eid).origRouter = l.origRouter ∧
      (chk.updated l eid).lsSeqNo = l.lsSeqNo ∧
      (chk.updated l eid).toLsa.expirationTimePoint = l.toLsa.expirationTimePoint ∧
      (chk.updated l eid).toLsa.expiringEventId = some eid := by
  cases chk <;> cases l <;> first | exact ⟨rfl, horig.symm, rfl, rfl, rfl⟩ | simp [counter] at h

/-- The header of an LSA after a refresh. -/
theorem AnyLsa.toLsa_refreshed (l : AnyLsa) (t : TimePoint) (eid : Nat) :
    (l.refreshed t eid).counter = l.counter ∧ (l.refreshed t eid).origRouter = l.origRouter ∧
      (l.refreshed t eid).toLsa = l.toLsa.refreshed t eid := by
  cases l <;> exact ⟨rfl, rfl, rfl⟩

namespace Nlsr

open Scheduler

/-- Write a stored LSA back. -/
def put (s : Nlsr) : AnyLsa → Nlsr
  | .name l => s.putNameLsa l
  | .adj l => s.putAdjLsa l
  | .coordinate l => s.putCoordinateLsa l

/-- Schedule the expiration of an LSA. -/
def arm (s : Nlsr) (l : AnyLsa) : Nlsr × Nat :=
  s.scheduleEvent (s.timeToExpire l.toLsa + Lsdb.gracePeriod)
    (expiry l.counter l.origRouter l.lsSeqNo)

/-- The refresh of an own LSA. -/
def refresh (s : Nlsr) : AnyLsa → Nlsr
  | .name l => s.refreshNameLsa l
  | .adj l => s.refreshAdjLsa l
  | .coordinate l => s.refreshCoordinateLsa l

theorem lsaOf_put {s : Nlsr} {l l' : AnyLsa} (h : s.lsaOf l'.counter l'.origRouter = some l)
    (c : Counter) (o : Name) :
    (s.put l').lsaOf c o =
      if c = l'.counter ∧ o = l'.origRouter then some l' else s.lsaOf c o := by
  cases l' with
  | name l' =>
    obtain ⟨chk, hchk, -⟩ := Option.map_eq_some_iff.1 h
    have hfind : s.lsdb.nameLsdb.find? l'.getKey = some chk := hchk
    cases c with
    | name =>
      show ((s.lsdb.nameLsdb.replace l').find? (NameLsa.key o)).map _ = _
      rw [KeyedList.find?_replace]
      by_cases ho : o = l'.origRouter
      · subst ho
        simp [NameLsa.getKey, AnyLsa.counter, AnyLsa.origRouter] at hfind ⊢
        simp [hfind]
      · simp [NameLsa.getKey, AnyLsa.counter, AnyLsa.origRouter, ho, lsaOf, Lsdb.findNameLsa]
    | adj => simp [AnyLsa.counter, put, putNameLsa, setLsdb, lsaOf, Lsdb.findAdjLsa]
    | cor => simp [AnyLsa.counter, put, putNameLsa, setLsdb, lsaOf, Lsdb.findCoordinateLsa]
  | adj l' =>
    obtain ⟨chk, hchk, -⟩ := Option.map_eq_some_iff.1 h
    have hfind : s.lsdb.adjLsdb.find? l'.getKey = some chk := hchk
    cases c with
    | name => simp [AnyLsa.counter, put, putAdjLsa, setLsdb, lsaOf, Lsdb.findNameLsa]
    | adj =>
      show ((s.lsdb.adjLsdb.replace l').find? (AdjLsa.key o)).map _ = _
      rw [KeyedList.find?_replace]
      by_cases ho : o = l'.origRouter
      · subst ho
        simp [AdjLsa.getKey, AnyLsa.counter, AnyLsa.origRouter] at hfind ⊢
        simp [hfind]
      · simp [AdjLsa.getKey, AnyLsa.counter, AnyLsa.origRouter, ho, lsaOf, Lsdb.findAdjLsa]
    | cor => simp [AnyLsa.counter, put, putAdjLsa, setLsdb, lsaOf, Lsdb.findCoordinateLsa]
  | coordinate l' =>
    obtain ⟨chk, hchk, -⟩ := Option.map_eq_some_iff.1 h
    have hfind : s.lsdb.corLsdb.find? l'.getKey = some chk := hchk
    cases c with
    | name => simp [AnyLsa.counter, put, putCoordinateLsa, setLsdb, lsaOf, Lsdb.findNameLsa]
    | adj => simp [AnyLsa.counter, put, putCoordinateLsa, setLsdb, lsaOf, Lsdb.findAdjLsa]
    | cor =>
      show ((s.lsdb.corLsdb.replace l').find? (CoordinateLsa.key o)).map _ = _
      rw [KeyedList.find?_replace]
      by_cases ho : o = l'.origRouter
      · subst ho
        simp [CoordinateLsa.getKey, AnyLsa.counter, AnyLsa.origRouter] at hfind ⊢
        simp [hfind]
      · simp [CoordinateLsa.getKey, AnyLsa.counter, AnyLsa.origRouter, ho, lsaOf,
          Lsdb.findCoordinateLsa]

/-! ## Aside from the LSAs -/

/-- The clock, the configuration and what the database has of them are the same. -/
structure SameClock (s t : Nlsr) : Prop where
  now : t.now = s.now
  confParam : t.confParam = s.confParam
  lsaRefreshTime : t.lsdb.lsaRefreshTime = s.lsdb.lsaRefreshTime
  thisRouterPrefix : t.lsdb.thisRouterPrefix = s.lsdb.thisRouterPrefix

theorem SameClock.refl (s : Nlsr) : SameClock s s := ⟨rfl, rfl, rfl, rfl⟩

theorem SameClock.trans {s t u : Nlsr} (h : SameClock s t) (h' : SameClock t u) :
    SameClock s u :=
  ⟨h'.now.trans h.now, h'.confParam.trans h.confParam, h'.lsaRefreshTime.trans h.lsaRefreshTime,
    h'.thisRouterPrefix.trans h.thisRouterPrefix⟩

/-- What an operation does aside from the LSAs: no event of an LSA comes or goes. -/
structure Aside (s t : Nlsr) : Prop where
  sameClock : SameClock s t
  events : s.FibIds → Within Action.Aside s.scheduler t.scheduler ∧ t.FibIds

theorem Aside.refl (s : Nlsr) : Aside s s := ⟨SameClock.refl s, fun h => ⟨Within.refl _ _, h⟩⟩

theorem Aside.trans {s t u : Nlsr} (h : Aside s t) (h' : Aside t u) : Aside s u where
  sameClock := h.sameClock.trans h'.sameClock
  events hs := by
    obtain ⟨hst, ht⟩ := h.events hs
    obtain ⟨htu, hu⟩ := h'.events ht
    exact ⟨hst.trans htu, hu⟩

/-- The FIB and the scheduler are the same. -/
theorem aside_of_eq {s t : Nlsr} (h : SameClock s t) (htable : t.fib.table = s.fib.table)
    (hsch : t.scheduler = s.scheduler) : Aside s t :=
  ⟨h, fun hs => ⟨hsch ▸ Within.refl _ _, hs.congr htable hsch⟩⟩

theorem FibTurn.aside {s t : Nlsr} (h : FibTurn s t) (hclock : SameClock s t) : Aside s t where
  sameClock := hclock
  events hs := by
    obtain ⟨hwithin, ht⟩ := h hs
    exact ⟨hwithin.mono fun _ => aside_of_expiresFibEntry, ht⟩

theorem OnlyTables.sameClock {s t : Nlsr} (h : OnlyTables s t) : SameClock s t := by
  rw [OnlyTables] at h
  rw [h]
  exact ⟨rfl, rfl, rfl, rfl⟩

theorem OnlyTables.lsaOf {s t : Nlsr} (h : OnlyTables s t) : t.lsaOf = s.lsaOf :=
  lsaOf_congr (by rw [h.lsdb]) (by rw [h.lsdb]) (by rw [h.lsdb])

theorem aside_addEntries (s : Nlsr) (pairs : List (Name × Name)) :
    Aside s (s.addEntries pairs) :=
  (fibTurn_addEntries s pairs).aside (onlyTables_addEntries s pairs).sameClock

theorem aside_removeEntries (s : Nlsr) (pairs : List (Name × Name)) :
    Aside s (s.removeEntries pairs) :=
  (fibTurn_removeEntries s pairs).aside (onlyTables_removeEntries s pairs).sameClock

theorem aside_scheduleEvent {action : Action} (h : action.Aside) (s : Nlsr) (after : Duration) :
    Aside s (s.scheduleEvent after action).1 where
  sameClock := ⟨rfl, rfl, rfl, rfl⟩
  events hs := by
    have hwithin := within_scheduleEvent h s.scheduler (s.now + after)
    exact ⟨hwithin, hs.within rfl hwithin⟩

theorem aside_scheduleRoutingTableCalculation (s : Nlsr) :
    Aside s s.scheduleRoutingTableCalculation := by
  unfold scheduleRoutingTableCalculation
  split_ifs
  · have hcalculate : Action.calculate.Aside := trivial
    exact (aside_scheduleEvent hcalculate s _).trans (aside_of_eq ⟨rfl, rfl, rfl, rfl⟩ rfl rfl)
  · exact Aside.refl s

theorem aside_scheduleIfHyperbolic (s : Nlsr) : Aside s s.scheduleIfHyperbolic := by
  unfold scheduleIfHyperbolic
  split_ifs
  · exact aside_scheduleRoutingTableCalculation s
  · exact Aside.refl s

/-! ## Installs and refreshes -/

theorem aside_setLsdb_onLsdbChange (s : Nlsr) : Aside s (s.setLsdb s.lsdb.onLsdbChange) :=
  aside_of_eq ⟨rfl, rfl, rfl, rfl⟩ rfl rfl

theorem aside_addNameLsa (s : Nlsr) (l : NameLsa) : Aside s (s.setLsdb (s.lsdb.addNameLsa l)) := by
  unfold Lsdb.addNameLsa
  split_ifs <;> exact aside_of_eq ⟨rfl, rfl, rfl, rfl⟩ rfl rfl

theorem aside_addAdjLsa (s : Nlsr) (l : AdjLsa) : Aside s (s.setLsdb (s.lsdb.addAdjLsa l)) := by
  unfold Lsdb.addAdjLsa
  split_ifs <;> exact aside_of_eq ⟨rfl, rfl, rfl, rfl⟩ rfl rfl

theorem aside_addCoordinateLsa (s : Nlsr) (l : CoordinateLsa) :
    Aside s (s.setLsdb (s.lsdb.addCoordinateLsa l)) := by
  unfold Lsdb.addCoordinateLsa
  split_ifs <;> exact aside_of_eq ⟨rfl, rfl, rfl, rfl⟩ rfl rfl

/-- **An install ends in arming the LSA.** -/
inductive InstallForm (s : Nlsr) (l : AnyLsa) : Prop
  | first (u : Nlsr) (hnone : s.lsaOf l.counter l.origRouter = none) (haside : Aside s u)
      (h : s.install l = (u.arm l).1)
  | newer (chk : AnyLsa) (u : Nlsr) (hchk : s.lsaOf l.counter l.origRouter = some chk)
      (hlt : chk.lsSeqNo < l.lsSeqNo) (haside : Aside s u) (hsame : u.lsaOf = s.lsaOf)
      (h : s.install l = (((u.cancelEvent chk.toLsa.expiringEventId).arm l).1.put
        (chk.updated l ((u.cancelEvent chk.toLsa.expiringEventId).arm l).2)))
  | old (h : s.install l = s)

theorem installForm (s : Nlsr) (l : AnyLsa) : InstallForm s l := by
  cases l with
  | name l =>
    cases h : s.lsdb.findNameLsa l.getKey with
    | none =>
      refine .first _ (congrArg (Option.map AnyLsa.name) h) ?_ (installNameLsa_of_none h)
      exact (aside_addNameLsa s l).trans (aside_addEntries _ _)
    | some chk =>
      by_cases hlt : chk.lsSeqNo < l.lsSeqNo
      · refine .newer (.name chk) _ (congrArg (Option.map AnyLsa.name) h) hlt ?_ ?_
          (installNameLsa_of_newer h hlt)
        · exact ((aside_setLsdb_onLsdbChange s).trans (aside_addEntries _ _)).trans
            (aside_removeEntries _ _)
        · exact (onlyTables_removeEntries ..).lsaOf.trans (onlyTables_addEntries ..).lsaOf
      · exact .old (installNameLsa_of_not_newer h hlt)
  | adj l =>
    cases h : s.lsdb.findAdjLsa l.getKey with
    | none =>
      refine .first _ (congrArg (Option.map AnyLsa.adj) h) ?_ (installAdjLsa_of_none h)
      exact ((aside_addAdjLsa s l).trans (aside_addEntries _ _)).trans
        (aside_scheduleRoutingTableCalculation _)
    | some chk =>
      by_cases hlt : chk.lsSeqNo < l.lsSeqNo
      · refine .newer (.adj chk) _ (congrArg (Option.map AnyLsa.adj) h) hlt ?_ ?_
          (installAdjLsa_of_newer h hlt)
        · split_ifs
          · exact aside_setLsdb_onLsdbChange s
          · exact (aside_setLsdb_onLsdbChange s).trans (aside_scheduleRoutingTableCalculation _)
        · split_ifs
          · rfl
          · exact (quiet_scheduleRoutingTableCalculation _).lsaOf
      · exact .old (installAdjLsa_of_not_newer h hlt)
  | coordinate l =>
    cases h : s.lsdb.findCoordinateLsa l.getKey with
    | none =>
      refine .first _ (congrArg (Option.map AnyLsa.coordinate) h) ?_
        (installCoordinateLsa_of_none h)
      exact ((aside_addCoordinateLsa s l).trans (aside_addEntries _ _)).trans
        (aside_scheduleIfHyperbolic _)
    | some chk =>
      by_cases hlt : chk.lsSeqNo < l.lsSeqNo
      · refine .newer (.coordinate chk) _ (congrArg (Option.map AnyLsa.coordinate) h) hlt ?_ ?_
          (installCoordinateLsa_of_newer h hlt)
        · split_ifs
          · exact aside_setLsdb_onLsdbChange s
          · exact (aside_setLsdb_onLsdbChange s).trans (aside_scheduleIfHyperbolic _)
        · split_ifs
          · rfl
          · exact (quiet_scheduleIfHyperbolic _).lsaOf
      · exact .old (installCoordinateLsa_of_not_newer h hlt)

theorem timeToExpire_of_own {s : Nlsr} {l : Lsa} (h : l.origRouter = s.routerPrefix) :
    s.timeToExpire l = s.lsdb.lsaRefreshTime := if_neg (not_not.2 h)

/-- The database has changed, and this router has new numbers. -/
def renumber (s : Nlsr) (sm : SequencingManager) : Nlsr :=
  { s.setLsdb s.lsdb.onLsdbChange with sequencingManager := sm }

theorem aside_renumber (s : Nlsr) (sm : SequencingManager) : Aside s (s.renumber sm) :=
  aside_of_eq ⟨rfl, rfl, rfl, rfl⟩ rfl rfl

/-- **A refresh ends in arming the LSA, too.** -/
theorem refresh_form {s : Nlsr} {chk : AnyLsa} (hown : chk.origRouter = s.routerPrefix) :
    let l := chk.refreshed s.getLsaExpirationTimePoint s.scheduler.nextId
    ∃ sm, s.refresh chk = (((s.renumber sm).arm l).1.put l).publishRoutingUpdate := by
  intro l
  cases chk with
  | name chk =>
    refine ⟨s.sequencingManager.setNameLsaSeq (chk.lsSeqNo + 1).toUInt64, ?_⟩
    rw [arm, timeToExpire_of_own (s := s.renumber _) (l := l.toLsa) hown]
    rfl
  | adj chk =>
    refine ⟨s.sequencingManager.setAdjLsaSeq (chk.lsSeqNo + 1).toUInt64, ?_⟩
    rw [arm, timeToExpire_of_own (s := s.renumber _) (l := l.toLsa) hown]
    rfl
  | coordinate chk =>
    refine ⟨s.sequencingManager.setCorLsaSeq (chk.lsSeqNo + 1).toUInt64, ?_⟩
    rw [arm, timeToExpire_of_own (s := s.renumber _) (l := l.toLsa) hown]
    rfl

theorem aside_publishRoutingUpdate (s : Nlsr) : Aside s s.publishRoutingUpdate :=
  aside_of_eq ⟨rfl, rfl, rfl, rfl⟩ rfl rfl

/-! ## Removals and calculations -/

theorem aside_removeNameLsa (s : Nlsr) (key : Name) : Aside s (s.removeNameLsa key) := by
  cases h : s.lsdb.findNameLsa key with
  | none => rw [removeNameLsa_of_none h]; exact Aside.refl s
  | some l =>
    rw [removeNameLsa_of_some h]
    have hpairs := aside_removeEntries s (nameLsaPairs s.routerPrefix l)
    exact hpairs.trans (aside_of_eq ⟨rfl, rfl, hpairs.sameClock.lsaRefreshTime.symm,
      hpairs.sameClock.thisRouterPrefix.symm⟩ rfl rfl)

theorem aside_removeAdjLsa (s : Nlsr) (key : Name) : Aside s (s.removeAdjLsa key) := by
  cases h : s.lsdb.findAdjLsa key with
  | none => rw [removeAdjLsa_of_none h]; exact Aside.refl s
  | some l =>
    rw [removeAdjLsa_of_some h]
    have hpairs := aside_removeEntries s (originPairs s.routerPrefix l.origRouter)
    exact hpairs.trans (aside_of_eq ⟨rfl, rfl, hpairs.sameClock.lsaRefreshTime.symm,
      hpairs.sameClock.thisRouterPrefix.symm⟩ rfl rfl)

theorem aside_removeCoordinateLsa (s : Nlsr) (key : Name) :
    Aside s (s.removeCoordinateLsa key) := by
  cases h : s.lsdb.findCoordinateLsa key with
  | none => rw [removeCoordinateLsa_of_none h]; exact Aside.refl s
  | some l =>
    rw [removeCoordinateLsa_of_some h]
    have hpairs := aside_removeEntries s (originPairs s.routerPrefix l.origRouter)
    exact hpairs.trans (aside_of_eq ⟨rfl, rfl, hpairs.sameClock.lsaRefreshTime.symm,
      hpairs.sameClock.thisRouterPrefix.symm⟩ rfl rfl)

theorem aside_fibRemove (s : Nlsr) (name : Name) : Aside s (s.fibRemove name) := by
  refine (fibTurn_fibRemove s name).aside ?_
  have honly := onlyFib_fibRemove s name
  rw [OnlyFib] at honly
  rw [honly]
  exact ⟨rfl, rfl, rfl, rfl⟩

theorem fibTurn_useRoutingTable (s : Nlsr) (rt : RoutingTable) :
    FibTurn s (s.useRoutingTable rt) := by
  let u : Nlsr := { s with routingTable := rt }
  have hturn : FibTurn u u.updateWithNewRoute.fibWriteLog :=
    (fibTurn_updateWithNewRoute u).trans (fibTurn_fibWriteLog _)
  obtain ⟨-, -, -, hfib, hsch⟩ := useRoutingTable_spec s rt
  intro hs
  obtain ⟨hwithin, hu⟩ := hturn (hs.congr rfl rfl : u.FibIds)
  rw [hsch]
  exact ⟨hwithin, hu.congr (congrArg Fib.table hfib) hsch⟩

theorem aside_useRoutingTable (s : Nlsr) (rt : RoutingTable) : Aside s (s.useRoutingTable rt) := by
  refine (fibTurn_useRoutingTable s rt).aside ?_
  have honly := (useRoutingTable_spec s rt).1
  rw [OnlyRouting] at honly
  rw [honly]
  exact ⟨rfl, rfl, rfl, rfl⟩

theorem aside_calculate (math : MathLib) (s : Nlsr) : Aside s (s.calculate math) := by
  rcases calculate_cases math s with h | h | h
  · rw [calculate_of_canCalculate h]
    let u : Nlsr := { s with isRoutingTableCalculating := true }
    have hu : Aside s u := aside_of_eq ⟨rfl, rfl, rfl, rfl⟩ rfl rfl
    exact (hu.trans (aside_useRoutingTable u _)).trans (aside_of_eq ⟨rfl, rfl, rfl, rfl⟩ rfl rfl)
  · rw [h]
    exact aside_of_eq ⟨rfl, rfl, rfl, rfl⟩ rfl rfl
  · rw [h]
    exact aside_scheduleRoutingTableCalculation s

/-! ## Firing -/

/-- The removal of the LSA of a kind with a key. -/
def removeLsa (s : Nlsr) (c : Counter) (key : Name) : Nlsr :=
  match c with
  | .name => s.removeNameLsa key
  | .adj => s.removeAdjLsa key
  | .cor => s.removeCoordinateLsa key

/-- What follows the refresh or the removal of an LSA of a kind that expired. -/
def afterExpiry (s : Nlsr) : Counter → Nlsr
  | .name => s
  | .adj => s.scheduleRoutingTableCalculation
  | .cor => s.scheduleIfHyperbolic

theorem aside_afterExpiry (s : Nlsr) (c : Counter) : Aside s (s.afterExpiry c) := by
  cases c with
  | name => exact Aside.refl s
  | adj => exact aside_scheduleRoutingTableCalculation s
  | cor => exact aside_scheduleIfHyperbolic s

theorem lsaOf_afterExpiry (s : Nlsr) (c : Counter) : (s.afterExpiry c).lsaOf = s.lsaOf := by
  cases c with
  | name => rfl
  | adj => exact (quiet_scheduleRoutingTableCalculation s).lsaOf
  | cor => exact (quiet_scheduleIfHyperbolic s).lsaOf

theorem aside_removeLsa (s : Nlsr) (c : Counter) (key : Name) : Aside s (s.removeLsa c key) := by
  cases c with
  | name => exact aside_removeNameLsa s key
  | adj => exact aside_removeAdjLsa s key
  | cor => exact aside_removeCoordinateLsa s key

theorem lsaOf_removeLsa (s : Nlsr) (c : Counter) (key : Name) :
    LsaOfRemove s (s.removeLsa c key) c key := by
  cases c with
  | name => exact lsaOf_removeNameLsa s key
  | adj => exact lsaOf_removeAdjLsa s key
  | cor => exact lsaOf_removeCoordinateLsa s key

/-- **The event of an LSA** refreshes an own one and removes another, if its number is the stored
one; else nothing happens. -/
theorem runAction_lsaEvent (math : MathLib) (s : Nlsr) (c : Counter) (o : Name)
    (seqNo : UInt64) :
    s.runAction math (lsaEvent c o seqNo) =
      match s.lsaOf c o with
      | none => s
      | some chk =>
        if chk.lsSeqNo.toUInt64 = seqNo then
          if chk.origRouter = s.lsdb.thisRouterPrefix then (s.refresh chk).afterExpiry c
          else (s.removeLsa c (c.key o)).afterExpiry c
        else s := by
  cases c with
  | name =>
    show s.exprireOrRefreshNameLsa (NameLsa.key o) seqNo = _
    cases h : s.lsdb.findNameLsa (NameLsa.key o) with
    | none =>
      have hlsa : s.lsaOf .name o = none := congrArg (Option.map AnyLsa.name) h
      rw [hlsa, exprireOrRefreshNameLsa, h]
    | some chk =>
      have hlsa : s.lsaOf .name o = some (.name chk) := congrArg (Option.map AnyLsa.name) h
      rw [hlsa, exprireOrRefreshNameLsa, h]
      rfl
  | adj =>
    show s.exprireOrRefreshAdjLsa (AdjLsa.key o) seqNo = _
    cases h : s.lsdb.findAdjLsa (AdjLsa.key o) with
    | none =>
      have hlsa : s.lsaOf .adj o = none := congrArg (Option.map AnyLsa.adj) h
      rw [hlsa, exprireOrRefreshAdjLsa, h]
    | some chk =>
      have hlsa : s.lsaOf .adj o = some (.adj chk) := congrArg (Option.map AnyLsa.adj) h
      rw [hlsa, exprireOrRefreshAdjLsa, h]
      dsimp only
      have hseq' : (AnyLsa.adj chk).lsSeqNo = chk.lsSeqNo := rfl
      have horig' : (AnyLsa.adj chk).origRouter = chk.origRouter := rfl
      rw [hseq', horig']
      by_cases hseq : chk.lsSeqNo.toUInt64 = seqNo
      · rw [if_pos hseq, if_pos hseq]
        by_cases horig : chk.origRouter = s.lsdb.thisRouterPrefix
        · rw [if_pos horig, if_pos horig]
          rfl
        · rw [if_neg horig, if_neg horig]
          rfl
      · rw [if_neg hseq, if_neg hseq]
  | cor =>
    show s.exprireOrRefreshCoordinateLsa (CoordinateLsa.key o) seqNo = _
    cases h : s.lsdb.findCoordinateLsa (CoordinateLsa.key o) with
    | none =>
      have hlsa : s.lsaOf .cor o = none := congrArg (Option.map AnyLsa.coordinate) h
      rw [hlsa, exprireOrRefreshCoordinateLsa, h]
    | some chk =>
      have hlsa : s.lsaOf .cor o = some (.coordinate chk) :=
        congrArg (Option.map AnyLsa.coordinate) h
      rw [hlsa, exprireOrRefreshCoordinateLsa, h]
      dsimp only
      have hseq' : (AnyLsa.coordinate chk).lsSeqNo = chk.lsSeqNo := rfl
      have horig' : (AnyLsa.coordinate chk).origRouter = chk.origRouter := rfl
      rw [hseq', horig']
      by_cases hseq : chk.lsSeqNo.toUInt64 = seqNo
      · rw [if_pos hseq, if_pos hseq]
        by_cases horig : chk.origRouter = s.lsdb.thisRouterPrefix
        · rw [if_pos horig, if_pos horig]
          rfl
        · rw [if_neg horig, if_neg horig]
          rfl
      · rw [if_neg hseq, if_neg hseq]

end Nlsr

end LinkState
