import LinkState.Advertised
import LinkState.Closures

/-!
# The flags tell what is pending

Two flags and a count stand for events in the scheduler: one flag for a calculation that is
requested, one for a build of the Adjacency LSA, and the count for the requests that the next build
serves. An operation that asks for a calculation or a build puts an event in and sets the flag in
one step; the event takes itself out when it fires, and its action clears the flag or puts a new
event in.

* `FlagsTell` is the invariant: as many events are pending as the flag says.
* `Balanced` says of an operation that it changes a flag and the number of its events by the same.
  It holds of everything but the firing of the two events.
* `RequestsTell` is about the count. An `int` takes 2^31 requests or more for another number, so it
  is lost where a build runs with that many.
-/

namespace LinkState

open SequencingManager

namespace Scheduler

/-! ## Pending events -/

/-- The number of pending events with an action. -/
def count (sch : Scheduler) (action : Action) : Nat :=
  (sch.events.filter fun e => e.action = action).size

variable {P : Action → Prop} {sch sch' : Scheduler} {action : Action}

theorem Within.count (h : Within P sch sch') (hP : ¬ P action) :
    sch'.count action = sch.count action := by
  refine KeyedList.size_congr fun e => ?_
  simp only [KeyedList.mem_filter, decide_eq_true_eq]
  constructor
  · rintro ⟨he, rfl⟩
    exact ⟨(h.new e he).resolve_right fun hnew => hP hnew.2, rfl⟩
  · rintro ⟨he, rfl⟩
    exact ⟨(h.old e he).resolve_right hP, rfl⟩

theorem count_scheduleEvent_self (sch : Scheduler) (due : TimePoint) (action : Action) :
    (sch.scheduleEvent due action).1.count action = sch.count action + 1 := by
  have hnew : sch.events.find? sch.nextId = none :=
    KeyedList.find?_eq_none.2 fun e he => (sch.fresh e he).ne
  have hevents : (sch.scheduleEvent due action).1.events.toList =
      sch.events.toList ++ [⟨sch.nextId, due, action⟩] :=
    KeyedList.toList_insert_of_none hnew
  simp [Scheduler.count, KeyedList.size, KeyedList.filter, hevents]

/-- An event that fires is not pending any more. -/
theorem count_cancelEvent_self {e : ScheduledEvent} (he : e ∈ sch.events) :
    (sch.cancelEvent (some e.id)).count e.action + 1 = sch.count e.action := by
  have hmem : e ∈ sch.events.filter fun e' => e'.action = e.action :=
    KeyedList.mem_filter.2 ⟨he, by simp⟩
  rw [Scheduler.count, Scheduler.count, ← KeyedList.size_erase hmem]
  refine congrArg (· + 1) (KeyedList.size_congr fun e' => ?_)
  rw [KeyedList.mem_filter, mem_cancelEvent, KeyedList.mem_erase, KeyedList.mem_filter,
    and_right_comm]
  simp [eq_comm]

end Scheduler

namespace Nlsr

open Scheduler

/-- The number of pending events that run an action. -/
def pendingCount (s : Nlsr) (action : Action) : Nat := s.scheduler.count action

/-! ## What the flags say -/

/-- One event is pending if the flag is set, and none otherwise. -/
structure FlagsTell (s : Nlsr) : Prop where
  calculate : s.pendingCount .calculate = s.isRouteCalculationScheduled.toNat
  buildAdjLsa : s.pendingCount .buildAdjLsa = s.isBuildAdjLsaSheduled.toNat

/-- A pending build has something to do, and what is to do has a pending build. -/
structure RequestsTell (s : Nlsr) : Prop where
  pending : 0 < s.pendingCount .buildAdjLsa → 0 < s.adjBuildCount
  idle : s.pendingCount .buildAdjLsa = 0 → s.adjBuildCount = 0

/-- An operation changes the flags and the numbers of the events by the same. -/
structure Balance (s t : Nlsr) : Prop where
  isRoutingTableCalculating : t.isRoutingTableCalculating = s.isRoutingTableCalculating
  calculate : t.pendingCount .calculate + s.isRouteCalculationScheduled.toNat =
    s.pendingCount .calculate + t.isRouteCalculationScheduled.toNat
  buildAdjLsa : t.pendingCount .buildAdjLsa + s.isBuildAdjLsaSheduled.toNat =
    s.pendingCount .buildAdjLsa + t.isBuildAdjLsaSheduled.toNat
  within : Within (fun _ => True) s.scheduler t.scheduler
  fibIds : t.FibIds

/-- The operation is in balance, as long as FIB entries own the events they keep. -/
def Balanced (s t : Nlsr) : Prop := s.FibIds → Balance s t

section turns

variable {s t u : Nlsr} {since : Counter → Name → TimePoint}

theorem FlagsTell.of_balance (hs : s.FlagsTell) (h : Balance s t) : t.FlagsTell where
  calculate := by
    have := h.calculate
    have := hs.calculate
    omega
  buildAdjLsa := by
    have := h.buildAdjLsa
    have := hs.buildAdjLsa
    omega

theorem Balanced.trans (h : Balanced s t) (h' : Balanced t u) : Balanced s u := by
  intro hs
  have hst := h hs
  have htu := h' hst.fibIds
  refine ⟨htu.isRoutingTableCalculating.trans hst.isRoutingTableCalculating, ?_, ?_,
    hst.within.trans htu.within, htu.fibIds⟩
  · have := hst.calculate
    have := htu.calculate
    omega
  · have := hst.buildAdjLsa
    have := htu.buildAdjLsa
    omega

/-- The flags are the same, and the events of the two are left alone. -/
theorem balance_of_within {P : Action → Prop} (hwithin : Within P s.scheduler t.scheduler)
    (hP : ¬ P .calculate ∧ ¬ P .buildAdjLsa) (hids : t.FibIds)
    (hidle : t.isRoutingTableCalculating = s.isRoutingTableCalculating)
    (hcalculate : t.isRouteCalculationScheduled = s.isRouteCalculationScheduled)
    (hbuild : t.isBuildAdjLsaSheduled = s.isBuildAdjLsaSheduled) : Balance s t where
  isRoutingTableCalculating := hidle
  calculate := by rw [hcalculate, pendingCount, hwithin.count hP.1, pendingCount]
  buildAdjLsa := by rw [hbuild, pendingCount, hwithin.count hP.2, pendingCount]
  within := hwithin.mono fun _ _ => trivial
  fibIds := hids

theorem balanced_of_eq (htable : t.fib.table = s.fib.table) (hsch : t.scheduler = s.scheduler)
    (hidle : t.isRoutingTableCalculating = s.isRoutingTableCalculating)
    (hcalculate : t.isRouteCalculationScheduled = s.isRouteCalculationScheduled)
    (hbuild : t.isBuildAdjLsaSheduled = s.isBuildAdjLsaSheduled) : Balanced s t := by
  intro hs
  have hwithin : Within (fun _ => False) s.scheduler t.scheduler := hsch ▸ Within.refl _ _
  exact balance_of_within hwithin ⟨not_false, not_false⟩ (hs.congr htable hsch) hidle hcalculate
    hbuild

theorem Balanced.refl (s : Nlsr) : Balanced s s := balanced_of_eq rfl rfl rfl rfl rfl

theorem OnlySent.balanced (h : OnlySent s t) : Balanced s t := by
  rw [OnlySent] at h
  rw [h]
  exact balanced_of_eq rfl rfl rfl rfl rfl

/-- The FIB touches the expirations of its entries. -/
theorem OnlyFib.balanced (h : OnlyFib s t) (hturn : FibTurn s t) : Balanced s t := by
  intro hs
  obtain ⟨hwithin, hids⟩ := hturn hs
  rw [OnlyFib] at h
  refine balance_of_within hwithin ⟨?_, ?_⟩ hids ?_ ?_ ?_
  · rintro ⟨_, heq⟩
    cases heq
  · rintro ⟨_, heq⟩
    cases heq
  · rw [h]
  · rw [h]
  · rw [h]

theorem balanced_scheduleRoutingTableCalculation (s : Nlsr) :
    Balanced s s.scheduleRoutingTableCalculation := by
  intro hs
  unfold scheduleRoutingTableCalculation
  split_ifs with hflag
  · have hbuild : ¬ Action.calculate = .buildAdjLsa := nofun
    have hwithin := within_scheduleEvent (P := (· = .calculate)) rfl s.scheduler
      (s.now + seconds s.routingTable.routingCalcInterval.toNat)
    refine ⟨rfl, ?_, ?_, hwithin.mono fun _ _ => trivial, hs.within rfl hwithin⟩
    · have hfalse : s.isRouteCalculationScheduled = false := by simpa using hflag
      rw [hfalse]
      exact count_scheduleEvent_self _ _ _
    · exact congrArg (· + s.isBuildAdjLsaSheduled.toNat) (hwithin.count (Ne.symm hbuild))
  · exact Balanced.refl s hs

theorem balanced_scheduleAdjLsaBuild (s : Nlsr) : Balanced s s.scheduleAdjLsaBuild := by
  intro hs
  unfold scheduleAdjLsaBuild
  dsimp only
  split_ifs with hflag
  · have hcalculate : ¬ Action.calculate = .buildAdjLsa := nofun
    have hwithin := within_scheduleEvent (P := (· = .buildAdjLsa)) rfl s.scheduler
      (s.now + seconds s.lsdb.adjLsaBuildInterval.toNat)
    refine ⟨rfl, ?_, ?_, hwithin.mono fun _ _ => trivial, hs.within rfl hwithin⟩
    · exact congrArg (· + s.isRouteCalculationScheduled.toNat) (hwithin.count hcalculate)
    · rw [hflag]
      exact count_scheduleEvent_self _ _ _
  · exact balanced_of_eq (s := s) rfl rfl rfl rfl rfl hs

theorem not_expires_calculate_build (c : Counter) (o : Name) :
    ¬ Expires c o .calculate ∧ ¬ Expires c o .buildAdjLsa := by
  constructor
  · rintro ⟨_, heq⟩
    cases c <;> cases heq
  · rintro ⟨_, heq⟩
    cases c <;> cases heq

theorem balanced_arm (s : Nlsr) (l : AnyLsa) : Balanced s (s.arm l).1 := by
  intro hs
  have hwithin : Within (Expires l.counter l.origRouter) s.scheduler (s.arm l).1.scheduler :=
    within_scheduleEvent ⟨l.lsSeqNo, rfl⟩ _ _
  exact balance_of_within hwithin (not_expires_calculate_build _ _) (hs.within rfl hwithin)
    rfl rfl rfl

/-- An event of an LSA is cancelled by an id that was owned some time ago. -/
theorem Balanced.cancelOwned {c : Counter} {o : Name} {eid : Option Nat} (h : Balanced s t)
    (howns : s.scheduler.Owns eid (Expires c o)) : Balanced s (t.cancelEvent eid) := by
  intro hs
  have hwithin := within_cancelEvent (howns.within (h hs).within)
  refine h.trans (fun ht => ?_) hs
  exact balance_of_within hwithin (not_expires_calculate_build c o) (ht.within rfl hwithin)
    rfl rfl rfl

theorem lsdbClosed_balanced : LsdbClosed Balanced fun _ _ => True where
  refl := Balanced.refl
  trans := Balanced.trans
  setNamePrefixTable _ _ := balanced_of_eq rfl rfl rfl rfl rfl
  fibUpdate s name allHops :=
    (fibUpdate_spec s name allHops).1.balanced (fibTurn_fibUpdate s name allHops)
  fibRemove s name := (onlyFib_fibRemove s name).balanced (fibTurn_fibRemove s name)
  setLsdb _ _ _ _ := balanced_of_eq rfl rfl rfl rfl rfl
  setOwn _ _ _ _ _ := balanced_of_eq rfl rfl rfl rfl rfl
  scheduleRoutingTableCalculation := balanced_scheduleRoutingTableCalculation
  arm := balanced_arm
  cancelOwned _ hst howns := hst.cancelOwned howns

theorem helloClosed_balanced : HelloClosed Balanced where
  refl := Balanced.refl
  trans := Balanced.trans
  setAdjacencyList _ _ := balanced_of_eq rfl rfl rfl rfl rfl
  scheduleAdjLsaBuild := balanced_scheduleAdjLsaBuild
  onlySent := OnlySent.balanced

/-! ## Events that fire -/

theorem pendingCount_cancelEvent_ne {e : ScheduledEvent} (he : e ∈ s.scheduler.events)
    {action : Action} (h : e.action ≠ action) :
    (s.cancelEvent (some e.id)).pendingCount action = s.pendingCount action :=
  (within_cancelEvent (owns_fired he)).count h.symm

/-- An event that a flag stands for is the only one of its kind. -/
theorem pendingCount_cancelEvent_self {e : ScheduledEvent} (he : e ∈ s.scheduler.events)
    {action : Action} (haction : e.action = action) {flag : Bool}
    (h : s.pendingCount action = flag.toNat) :
    (s.cancelEvent (some e.id)).pendingCount action = 0 ∧ flag = true := by
  subst haction
  have hself : (s.cancelEvent (some e.id)).pendingCount e.action + 1 = s.pendingCount e.action :=
    count_cancelEvent_self he
  cases flag with
  | false => rw [h] at hself; exact absurd hself (Nat.succ_ne_zero _)
  | true => rw [h] at hself; exact ⟨Nat.succ.inj hself, rfl⟩

/-- An event of another kind that fires leaves the two alone. -/
theorem balanced_fired {e : ScheduledEvent} (he : e ∈ s.scheduler.events)
    (hcalculate : e.action ≠ .calculate) (hbuild : e.action ≠ .buildAdjLsa) :
    Balanced s (s.cancelEvent (some e.id)) := by
  intro hs
  have hwithin := within_cancelEvent (owns_fired he)
  exact balance_of_within hwithin ⟨hcalculate.symm, hbuild.symm⟩ (hs.within rfl hwithin) rfl rfl rfl

/-- A calculation clears its flag on each of its ways, and touches FIB entries only. -/
theorem calculate_flags (math : MathLib) (hs : s.FibIds)
    (hidle : s.isRoutingTableCalculating = false) :
    (s.calculate math).isRouteCalculationScheduled = false ∧
      (s.calculate math).isRoutingTableCalculating = false ∧
      (s.calculate math).isBuildAdjLsaSheduled = s.isBuildAdjLsaSheduled ∧
      Within ExpiresFibEntry s.scheduler (s.calculate math).scheduler := by
  by_cases hcan : s.CanCalculate
  · rw [calculate_of_canCalculate hcan]
    let u : Nlsr := { s with isRoutingTableCalculating := true }
    have hu : u.FibIds := hs
    have honly := (useRoutingTable_spec u (u.newRoutingTable math)).1
    refine ⟨rfl, rfl, ?_, (fibTurn_useRoutingTable u (u.newRoutingTable math) hu).1⟩
    exact honly.sameRequests.isBuildAdjLsaSheduled
  · have hdeclined : s.ownAdjLsaExists = true ∧ s.isBuildAdjLsaSheduled = true := by
      simpa [CanCalculate, hidle] using hcan
    rw [calculate_of_declined hidle hdeclined.1 hdeclined.2]
    exact ⟨rfl, rfl, rfl, Within.refl _ _⟩

/-- **A calculation** that was the only one pending. -/
theorem flagsTell_calculate (math : MathLib) (hs : s.FibIds)
    (hidle : s.isRoutingTableCalculating = false) (hcalculate : s.pendingCount .calculate = 0)
    (hbuild : s.pendingCount .buildAdjLsa = s.isBuildAdjLsaSheduled.toNat) :
    (s.calculate math).FlagsTell := by
  obtain ⟨hflag, -, hsame, hwithin⟩ := calculate_flags math hs hidle
  refine ⟨?_, ?_⟩
  · rw [hflag, pendingCount, hwithin.count (by rintro ⟨_, h⟩; cases h)]
    exact hcalculate
  · rw [hsame, pendingCount, hwithin.count (by rintro ⟨_, h⟩; cases h)]
    exact hbuild

/-- A build is put off: its flag is set again, with a new event. -/
theorem flagsTell_putOff (hcalculate : s.pendingCount .calculate =
    s.isRouteCalculationScheduled.toNat) (hbuild : s.pendingCount .buildAdjLsa = 0)
    (after : Duration) :
    ((({ s with isBuildAdjLsaSheduled := true } : Nlsr).scheduleEvent after
      .buildAdjLsa).1).FlagsTell := by
  have hne : ¬ Action.calculate = .buildAdjLsa := nofun
  refine ⟨?_, ?_⟩
  · exact ((within_scheduleEvent (P := (· = .buildAdjLsa)) rfl _ _).count hne).trans hcalculate
  · exact (count_scheduleEvent_self _ _ _).trans (congrArg (· + 1) hbuild)

/-- **A build** that was the only one pending is done, finds nothing to do, or is put off. -/
theorem flagsTell_buildAdjLsa (h : Timed Every since s)
    (hcalculate : s.pendingCount .calculate = s.isRouteCalculationScheduled.toNat)
    (hbuild : s.pendingCount .buildAdjLsa = 0) :
    s.buildAdjLsa.FlagsTell ∧
      s.buildAdjLsa.isRoutingTableCalculating = s.isRoutingTableCalculating := by
  let u : Nlsr := { s with isBuildAdjLsaSheduled := false }
  have htell : u.FlagsTell := ⟨hcalculate, hbuild⟩
  have hu : Timed Every since u := ⟨h.thisRouterPrefix, h.lsaRefreshTime, h.fibIds, h.scheduled,
    h.owned, h.armed⟩
  have hdone : ∀ t, Balanced u t → ∀ count,
      FlagsTell { t with adjBuildCount := count } ∧
        t.isRoutingTableCalculating = s.isRoutingTableCalculating := by
    intro t ht count
    have htell' := htell.of_balance (ht hu.fibIds)
    exact ⟨⟨htell'.calculate, htell'.buildAdjLsa⟩, (ht hu.fibIds).isRoutingTableCalculating⟩
  by_cases hbuildable : s.adjacencyList.isAdjLsaBuildable s.confParam.interestRetryNumber = true
  · by_cases hcount : narrowToInt s.adjBuildCount > 0
    · by_cases hactive : s.adjacencyList.getNumOfActiveNeighbor > 0
      · rw [buildAdjLsa_of_active hbuildable hcount hactive]
        exact hdone _ (lsdbClosed_balanced.buildAndInstallOwnAdjLsa hu trivial) _
      · rw [buildAdjLsa_of_no_active hbuildable hcount hactive]
        exact hdone _ ((lsdbClosed_balanced.removeLsa u .adj _).trans
          (balanced_scheduleRoutingTableCalculation _)) _
    · rw [buildAdjLsa_of_not_counted hbuildable hcount]
      exact ⟨htell, rfl⟩
  · rw [buildAdjLsa_of_not_buildable hbuildable]
    exact ⟨flagsTell_putOff hcalculate hbuild _, rfl⟩

/-! ## The invariant -/

/-- What holds between events. -/
structure FlagsInv (s : Nlsr) : Prop where
  tell : s.FlagsTell
  idle : s.isRoutingTableCalculating = false
  timed : ∃ since, Timed Every since s
  count_nonneg : 0 ≤ s.adjBuildCount
  counted : s.isBuildAdjLsaSheduled = true → 0 < s.adjBuildCount

/-- What is in balance keeps the flags. -/
theorem FlagsInv.of_balanced (h : s.FlagsInv) (hst : Balanced s t) :
    t.FlagsTell ∧ t.isRoutingTableCalculating = false := by
  obtain ⟨since, htimed⟩ := h.timed
  have hbalance := hst htimed.fibIds
  exact ⟨h.tell.of_balance hbalance, hbalance.isRoutingTableCalculating.trans h.idle⟩

/-- **An event that fires** keeps the flags. -/
theorem flagsTell_fire (math : MathLib) (h : s.FlagsInv) {f : ScheduledEvent}
    (hf : f ∈ s.scheduler.events) :
    (s.step math (.fire f.id)).FlagsTell ∧
      (s.step math (.fire f.id)).isRoutingTableCalculating = false := by
  obtain ⟨since, htimed⟩ := h.timed
  let u := s.cancelEvent (some f.id)
  have hids : u.FibIds := htimed.fibIds.within rfl (within_cancelEvent (owns_fired hf))
  rcases htimed.scheduled f hf with haside | ⟨c, o, n, haction⟩
  · cases haction : f.action with
    | calculate =>
      have hbuild : u.pendingCount .buildAdjLsa = s.pendingCount .buildAdjLsa :=
        pendingCount_cancelEvent_ne hf (by simp [haction])
      have hnone := (pendingCount_cancelEvent_self hf haction h.tell.calculate).1
      rw [step_fire hf, haction]
      exact ⟨flagsTell_calculate math hids h.idle hnone (hbuild.trans h.tell.buildAdjLsa),
        (calculate_flags math hids h.idle).2.1⟩
    | buildAdjLsa =>
      have hcalculate : u.pendingCount .calculate = s.pendingCount .calculate :=
        pendingCount_cancelEvent_ne hf (by simp [haction])
      have hnone := (pendingCount_cancelEvent_self hf haction h.tell.buildAdjLsa).1
      have hu : Timed Every since u := htimed.aside (aside_fired hf haside) fun _ _ => Or.inl rfl
      obtain ⟨htell, hidle⟩ := flagsTell_buildAdjLsa hu (hcalculate.trans h.tell.calculate) hnone
      rw [step_fire hf, haction]
      exact ⟨htell, hidle.trans h.idle⟩
    | removeFibEntry name =>
      rw [step_fire hf, haction]
      exact h.of_balanced ((balanced_fired hf (by simp [haction]) (by simp [haction])).trans
        (lsdbClosed_balanced.fibRemove u name))
    | exprireOrRefreshNameLsa _ _ => rw [haction] at haside; exact haside.elim
    | exprireOrRefreshAdjLsa _ _ => rw [haction] at haside; exact haside.elim
    | exprireOrRefreshCoordinateLsa _ _ => rw [haction] at haside; exact haside.elim
  · obtain ⟨hcalculate, hbuild⟩ := not_expires_calculate_build c o
    have hevent := lsdbClosed_balanced.lsaEvent (s := u) math htimed.thisRouterPrefix c o
      (expirationSeqNo n)
    rw [step_fire hf]
    refine h.of_balanced ((balanced_fired hf ?_ ?_).trans (haction ▸ hevent))
    · exact fun heq => hcalculate ⟨n, heq ▸ haction⟩
    · exact fun heq => hbuild ⟨n, heq ▸ haction⟩

/-- **A step keeps the flags**, whatever it is. -/
theorem flagsTell_step (math : MathLib) (h : s.FlagsInv) (e : Event) :
    (s.step math e).FlagsTell ∧ (s.step math e).isRoutingTableCalculating = false := by
  by_cases hfire : ∃ id, e = .fire id
  · obtain ⟨id, rfl⟩ := hfire
    cases hid : s.pendingAction id with
    | none =>
      have hstep : s.step math (.fire id) = s := by
        show s.fire math id = s
        rw [fire, hid]
      rw [hstep]
      exact ⟨h.tell, h.idle⟩
    | some action =>
      obtain ⟨f, hf, rfl, -⟩ := exists_pending hid
      exact flagsTell_fire math h hf
  · by_cases hclock : ∃ now, e = .clock now
    · obtain ⟨now, rfl⟩ := hclock
      exact h.of_balanced (balanced_of_eq rfl rfl rfl rfl rfl)
    · obtain ⟨since, htimed⟩ := h.timed
      refine h.of_balanced (lsdbClosed_balanced.step helloClosed_balanced math htimed ?_ ?_ ?_)
      · exact fun id heq => hfire ⟨id, heq⟩
      · exact fun now heq => hclock ⟨now, heq⟩
      · exact fun _ _ => trivial

/-! ## The count -/

/-- A build that can run takes off the count what an `int` keeps of it. -/
theorem adjBuildCount_buildAdjLsa
    (hbuildable : s.adjacencyList.isAdjLsaBuildable s.confParam.interestRetryNumber = true) :
    s.buildAdjLsa.isBuildAdjLsaSheduled = false ∧ s.buildAdjLsa.adjBuildCount =
      if narrowToInt s.adjBuildCount > 0 then s.adjBuildCount - narrowToInt s.adjBuildCount
      else s.adjBuildCount := by
  let u : Nlsr := { s with isBuildAdjLsaSheduled := false }
  split_ifs with hcount
  · by_cases hactive : s.adjacencyList.getNumOfActiveNeighbor > 0
    · let u' : Nlsr := ({ u with
        sequencingManager := u.sequencingManager.increaseAdjLsaSeq } : Nlsr).publishRoutingUpdate
      have hsame := (onlyLsdb_installAdjLsa u' u.ownAdjLsa).sameRequests
      rw [buildAdjLsa_of_active hbuildable hcount hactive]
      exact ⟨hsame.isBuildAdjLsaSheduled,
        congrArg (· - narrowToInt s.adjBuildCount) hsame.adjBuildCount⟩
    · have hsame := (onlyLsdb_removeAdjLsa u (AdjLsa.key s.routerPrefix)).sameRequests.trans
        (onlyLsdb_scheduleRoutingTableCalculation _).sameRequests
      rw [buildAdjLsa_of_no_active hbuildable hcount hactive]
      exact ⟨hsame.isBuildAdjLsaSheduled,
        congrArg (· - narrowToInt s.adjBuildCount) hsame.adjBuildCount⟩
  · rw [buildAdjLsa_of_not_counted hbuildable hcount]
    exact ⟨rfl, rfl⟩

/-- **Nothing is counted after a build** that saw the requests, and something is after one that did
not. -/
theorem served_buildAdjLsa (hpos : 0 < s.adjBuildCount)
    (hbuildable : s.adjacencyList.isAdjLsaBuildable s.confParam.interestRetryNumber = true) :
    0 ≤ s.buildAdjLsa.adjBuildCount ∧
      (s.buildAdjLsa.adjBuildCount = 0 ↔ s.adjBuildCount < 2 ^ 31) := by
  rw [(adjBuildCount_buildAdjLsa hbuildable).2]
  rcases lt_or_ge s.adjBuildCount (2 ^ 31) with hlt | hge
  · rw [narrowToInt_of_lt hpos.le hlt, if_pos hpos, sub_self]
    exact ⟨le_rfl, fun _ => hlt, fun _ => rfl⟩
  · have hless : narrowToInt s.adjBuildCount < s.adjBuildCount :=
      (narrowToInt_lt s.adjBuildCount).trans_le hge
    split_ifs
    · refine ⟨by omega, fun hzero => ?_, fun hlt => ?_⟩
      · omega
      · exact absurd hlt (not_lt.2 hge)
    · exact ⟨hpos.le, fun hzero => absurd hzero hpos.ne', fun hlt => absurd hlt (not_lt.2 hge)⟩

/-- A build that is put off counts nothing. -/
theorem putOff_buildAdjLsa
    (hbuildable : ¬ s.adjacencyList.isAdjLsaBuildable s.confParam.interestRetryNumber = true) :
    s.buildAdjLsa.isBuildAdjLsaSheduled = true ∧ s.buildAdjLsa.adjBuildCount = s.adjBuildCount := by
  rw [buildAdjLsa_of_not_buildable hbuildable]
  exact ⟨rfl, rfl⟩

theorem FlagsTell.pendingCount_pos (h : s.FlagsTell) :
    0 < s.pendingCount .buildAdjLsa ↔ s.isBuildAdjLsaSheduled = true := by
  rw [h.buildAdjLsa]
  cases s.isBuildAdjLsaSheduled <;> simp

theorem FlagsTell.pendingCount_eq_zero (h : s.FlagsTell) :
    s.pendingCount .buildAdjLsa = 0 ↔ s.isBuildAdjLsaSheduled = false := by
  rw [h.buildAdjLsa]
  cases s.isBuildAdjLsaSheduled <;> simp

/-- The count tells what is pending if nothing is counted without a build. -/
theorem FlagsInv.requestsTell_iff (h : s.FlagsInv) :
    s.RequestsTell ↔ (s.isBuildAdjLsaSheduled = false → s.adjBuildCount = 0) where
  mp hs hflag := hs.idle (h.tell.pendingCount_eq_zero.2 hflag)
  mpr hs := ⟨fun hpending => h.counted (h.tell.pendingCount_pos.1 hpending),
    fun hnone => hs (h.tell.pendingCount_eq_zero.1 hnone)⟩

/-- An event that fires no build requests one, or asks for nothing. -/
theorem requests_step (math : MathLib) {e : Event}
    (hbuild : ∀ id, e = .fire id → s.pendingAction id ≠ some .buildAdjLsa) :
    ((s.step math e).isBuildAdjLsaSheduled = s.isBuildAdjLsaSheduled ∧
        (s.step math e).adjBuildCount = s.adjBuildCount) ∨
      ((s.step math e).isBuildAdjLsaSheduled = true ∧
        (s.step math e).adjBuildCount = s.adjBuildCount + 1) := by
  rcases sameRequests_step math hbuild with hsame | hturn
  · exact Or.inl ⟨hsame.isBuildAdjLsaSheduled, hsame.adjBuildCount⟩
  · exact hturn.requests.imp_left And.right

/-- A build that fires has something to do. -/
theorem FlagsInv.counted_of_pending (h : s.FlagsInv) {id : Nat}
    (hid : s.pendingAction id = some .buildAdjLsa) : 0 < s.adjBuildCount := by
  obtain ⟨f, hf, -, haction⟩ := exists_pending hid
  exact h.counted (pendingCount_cancelEvent_self hf haction h.tell.buildAdjLsa).2

/-- **Every step keeps the invariant.** -/
theorem FlagsInv.step (math : MathLib) (h : s.FlagsInv) (e : Event) : (s.step math e).FlagsInv := by
  obtain ⟨htell, hidle⟩ := flagsTell_step math h e
  obtain ⟨since, htimed⟩ := h.timed
  have htimed' := keepsTimed_step math htimed e
  by_cases hbuild : ∃ id, e = .fire id ∧ s.pendingAction id = some .buildAdjLsa
  · obtain ⟨id, rfl, hid⟩ := hbuild
    have hpos := h.counted_of_pending hid
    rw [fire_buildAdjLsa math hid] at htell hidle htimed' ⊢
    let u := s.cancelEvent (some id)
    by_cases hbuildable : u.adjacencyList.isAdjLsaBuildable u.confParam.interestRetryNumber = true
    · have hflag := (adjBuildCount_buildAdjLsa hbuildable).1
      refine ⟨htell, hidle, ⟨_, htimed'⟩, (served_buildAdjLsa (s := u) hpos hbuildable).1, ?_⟩
      exact fun hset => absurd (hset.symm.trans hflag) nofun
    · have hcount := (putOff_buildAdjLsa hbuildable).2
      refine ⟨htell, hidle, ⟨_, htimed'⟩, ?_, fun _ => ?_⟩
      · rw [hcount]; exact h.count_nonneg
      · rw [hcount]; exact hpos
  · have hnot : ∀ id, e = .fire id → s.pendingAction id ≠ some .buildAdjLsa :=
      fun id he hid => hbuild ⟨id, he, hid⟩
    have hnonneg := h.count_nonneg
    rcases requests_step math hnot with ⟨hflag, hcount⟩ | ⟨hflag, hcount⟩
    · exact ⟨htell, hidle, ⟨_, htimed'⟩, hcount ▸ hnonneg, by rw [hflag, hcount]; exact h.counted⟩
    · exact ⟨htell, hidle, ⟨_, htimed'⟩, by omega, fun _ => by omega⟩

/-- **A step keeps the count true exactly if it runs no build that misses the requests.** -/
theorem FlagsInv.requestsTell_step (math : MathLib) (h : s.FlagsInv) (hs : s.RequestsTell)
    (e : Event) : (s.step math e).RequestsTell ↔ s.SeesRequests e := by
  rw [(h.step math e).requestsTell_iff]
  have hcounted := h.requestsTell_iff.1 hs
  by_cases hbuild : ∃ id, e = .fire id ∧ s.pendingAction id = some .buildAdjLsa
  · obtain ⟨id, rfl, hid⟩ := hbuild
    have hsees : s.SeesRequests (.fire id) ↔
        (s.adjacencyList.isAdjLsaBuildable s.confParam.interestRetryNumber = true →
          s.adjBuildCount < 2 ^ 31) := by
      refine ⟨fun hsees => hsees id rfl hid, fun hsees id' heq _ => ?_⟩
      exact hsees
    rw [hsees, fire_buildAdjLsa math hid]
    let u := s.cancelEvent (some id)
    by_cases hbuildable : u.adjacencyList.isAdjLsaBuildable u.confParam.interestRetryNumber = true
    · have hserved := (served_buildAdjLsa (s := u) (h.counted_of_pending hid) hbuildable).2
      rw [(adjBuildCount_buildAdjLsa hbuildable).1]
      exact ⟨fun hzero _ => hserved.1 (hzero rfl), fun hlt _ => hserved.2 (hlt hbuildable)⟩
    · rw [(putOff_buildAdjLsa hbuildable).1]
      exact ⟨fun _ hcan => absurd hcan hbuildable, fun _ hset => absurd hset nofun⟩
  · have hnot : ∀ id, e = .fire id → s.pendingAction id ≠ some .buildAdjLsa :=
      fun id he hid => hbuild ⟨id, he, hid⟩
    refine iff_of_true (fun hflag => ?_) fun id he hid _ => absurd hid (hnot id he)
    rcases requests_step math hnot with ⟨hsame, hcount⟩ | ⟨hset, -⟩
    · rw [hcount]
      exact hcounted (hsame.symm.trans hflag)
    · exact absurd (hset.symm.trans hflag) nofun

end turns

/-! ## Every run -/

theorem flagsInv_initializeNlsr (confParam : ConfParameter) (adjacencyList : AdjacencyList)
    (namePrefixList : NamePrefixList) (seqFile : Option UInt64) (now : TimePoint) :
    (start confParam adjacencyList namePrefixList seqFile now).initializeNlsr.FlagsInv ∧
      (start confParam adjacencyList namePrefixList seqFile now).initializeNlsr.RequestsTell := by
  have hinv : FlagsInv
      (start confParam adjacencyList namePrefixList seqFile now).initializeNlsr := by
    have htimed : Timed Every (fun _ _ => now)
        (initiated confParam adjacencyList namePrefixList seqFile now) :=
      timed_of_blank (fun c o => by cases c <;> rfl) rfl rfl rfl rfl _
    refine initializeNlsr_of_step (P := FlagsInv) ⟨0, id, id, id, id⟩ (fun _ h => h.step _ _)
      (fun _ h => h.step _ _) (fun s h => ?_) ⟨⟨rfl, rfl⟩, rfl, ⟨_, htimed⟩, le_rfl, nofun⟩
    obtain ⟨since, htimed⟩ := h.timed
    exact ⟨⟨h.tell.calculate, h.tell.buildAdjLsa⟩, h.idle,
      ⟨since, htimed.aside (aside_setAdjacencyList _ _) fun _ _ => Or.inl rfl⟩,
      h.count_nonneg, h.counted⟩
  have hsame := (sameRequests_initializeNlsr confParam adjacencyList namePrefixList seqFile now).1
  exact ⟨hinv, hinv.requestsTell_iff.2 fun _ => hsame.adjBuildCount⟩

theorem flagsInv_run (math : MathLib) (confParam : ConfParameter) (adjacencyList : AdjacencyList)
    (namePrefixList : NamePrefixList) (seqFile : Option UInt64) (now : TimePoint)
    (es : List Event) :
    (run (step math) (start confParam adjacencyList namePrefixList seqFile now).initializeNlsr
      es).FlagsInv :=
  run_induction (P := FlagsInv) (fun _ e h => h.step math e)
    (flagsInv_initializeNlsr confParam adjacencyList namePrefixList seqFile now).1 es

/-- **The scheduling flags tell the truth.** In every run each flag is set exactly if one of its
events is pending, and there is none otherwise; and the count is positive exactly if a build is
pending, as long as the builds that run see the requests. -/
theorem flags_tell_the_truth (math : MathLib) (confParam : ConfParameter)
    (adjacencyList : AdjacencyList) (namePrefixList : NamePrefixList) (seqFile : Option UInt64)
    (now : TimePoint) (es : List Event) :
    let s₀ := (start confParam adjacencyList namePrefixList seqFile now).initializeNlsr
    Along (step math) FlagsTell s₀ es ∧
      (Along (step math) RequestsTell s₀ es ↔ Meets (step math) SeesRequests s₀ es) := by
  intro s₀
  obtain ⟨hinv, htell⟩ :=
    flagsInv_initializeNlsr confParam adjacencyList namePrefixList seqFile now
  refine ⟨?_, ?_⟩
  · exact (along_of_step (P := FlagsInv) (fun _ e h => h.step math e) hinv es).imp
      fun _ h => h.tell
  · exact along_iff_meets (I := FlagsInv) (fun _ e h => h.step math e)
      (fun _ e h hs => h.requestsTell_step math hs e) hinv htell

/-- While one build waits `n` goes up and down so often that the build misses the requests: no build
is pending after it, and they are still counted. -/
theorem not_flags_tell_the_truth :
    ∃ es, let s := run (step ⟨0, id, id, id, id⟩) flappingStart es
      s.pendingCount .buildAdjLsa = 0 ∧ s.adjBuildCount = 2 ^ 31 + 1 ∧ ¬ s.RequestsTell := by
  obtain ⟨es, -, hlast⟩ := flapping_bothUp.overcounted ⟨0, id, id, id, id⟩
  have hmissed := hlast.missed ⟨0, id, id, id, id⟩ flapping_bothUp.confParam (by decide)
  refine ⟨bothUp 2 ++ es ++ [.fire (run (step ⟨0, id, id, id, id⟩) flappingStart
    (bothUp 2)).scheduler.nextId], ?_⟩
  have hinv := flagsInv_run ⟨0, id, id, id, id⟩ impatient silentNeighbors KeyedList.empty none 0
    (bothUp 2 ++ es ++ [.fire (run (step ⟨0, id, id, id, id⟩) flappingStart
      (bothUp 2)).scheduler.nextId])
  change FlagsInv (run (step ⟨0, id, id, id, id⟩) flappingStart _) at hinv
  rw [run_append, run_append, run_cons, run_nil, hmissed] at hinv ⊢
  have hnone := hinv.tell.pendingCount_eq_zero.2 rfl
  have hcount : _ = (2 : Int) ^ 31 + 1 := hlast.adjBuildCount.trans (by norm_num)
  refine ⟨hnone, hcount, fun htell => ?_⟩
  exact absurd (hcount.symm.trans (htell.idle hnone)) (by norm_num)

end Nlsr

end LinkState
