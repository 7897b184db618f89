import LinkState.Closures
import LinkState.FibLaw
import LinkState.Recalculation

/-!
# Deadlines

Three events lead to a calculation of the routing table: the calculation that was requested, the
scheduled build of the own Adjacency LSA and the refresh of that LSA. They are the *timers*. FIB
entries expire unless a calculation renews them in time, so this module says of every operation
which timers it leaves pending and what it does to the expiration of FIB entries.

* `Clocked` is what holds between events: no timer is overdue or too far away, and the pending
  expirations are those of the FIB entries.
* `Punctual keeps` says of an operation that it leaves the state clocked and the events of the
  kinds in `keeps` pending, and that no FIB entry ends up with an earlier expiration.
-/

namespace LinkState

open SequencingManager

/-- The configurations the daemon accepts without hyperbolic routing. -/
structure ConfParameter.Accepted (conf : ConfParameter) : Prop where
  hyperbolicState : conf.hyperbolicState = .off
  lsaRefreshTime : 240 ≤ conf.lsaRefreshTime.toNat ∧ conf.lsaRefreshTime.toNat ≤ 7200
  routingCalcInterval : conf.routingCalcInterval.toNat ≤ 30
  adjLsaBuildInterval : conf.adjLsaBuildInterval.toNat ≤ 10
  interestRetryNumber : 1 ≤ conf.interestRetryNumber.toNat ∧ conf.interestRetryNumber.toNat ≤ 15
  interestResendTime : 1 ≤ conf.interestResendTime.toNat ∧ conf.interestResendTime.toNat ≤ 15

theorem seconds_le_seconds {m n : Int} : seconds m ≤ seconds n ↔ m ≤ n :=
  Int.mul_le_mul_right (by decide)

theorem seconds_add (m n : Int) : seconds (m + n) = seconds m + seconds n := Int.add_mul ..

theorem seconds_nonneg {n : Int} (h : 0 ≤ n) : 0 ≤ seconds n := seconds_le_seconds.2 h

namespace Nlsr

open Scheduler

/-! ## Timers -/

/-- How long after a request a calculation is due. -/
def calculationDelay (s : Nlsr) : Duration := seconds s.confParam.routingCalcInterval.toNat

/-- How long after an install or a refresh an own LSA is refreshed. -/
def refreshDelay (s : Nlsr) : Duration :=
  seconds s.confParam.lsaRefreshTime.toNat + Lsdb.gracePeriod

/-- How long after an update a FIB entry expires. -/
def fibLifetime (s : Nlsr) : Duration := seconds s.fib.refreshTime

/-- How long a build is put off while a neighbour's status is open. -/
def putOffDelay (s : Nlsr) : Duration :=
  seconds (s.confParam.interestRetryNumber * s.confParam.interestResendTime).toNat

/-- What leads to a calculation. -/
inductive Timer (self : Name) : Action → Prop
  | calculate : Timer self .calculate
  | buildAdjLsa : Timer self .buildAdjLsa
  | refresh (seqNo : UInt64) : Timer self (lsaEvent .adj self seqNo)

/-- How far away a timer is at most. -/
def reach (s : Nlsr) : Action → Duration
  | .calculate => s.calculationDelay
  | _ => s.refreshDelay

/-- What holds between events. -/
structure Clocked (s : Nlsr) : Prop where
  accepted : s.confParam.Accepted
  lsaRefreshTime : s.lsdb.lsaRefreshTime = seconds s.confParam.lsaRefreshTime.toNat
  adjLsaBuildInterval : s.lsdb.adjLsaBuildInterval = s.confParam.adjLsaBuildInterval
  refreshTime : s.fib.refreshTime = 2 * s.confParam.lsaRefreshTime.toNat
  routingCalcInterval : s.routingTable.routingCalcInterval = s.confParam.routingCalcInterval
  fibIds : s.FibIds
  /-- An expiration is that of a FIB entry. -/
  fibEvents : ∀ e ∈ s.scheduler.events, ∀ name, e.action = .removeFibEntry name →
    ∃ entry ∈ s.fib.table, entry.expiringEventId = some e.id ∧ entry.expirationTimePoint = e.due
  onTime : ∀ e ∈ s.scheduler.events, Timer s.routerPrefix e.action →
    s.now ≤ e.due ∧ e.due ≤ s.now + s.reach e.action

/-- The settings and the clock are the same. -/
structure SameTimes (s t : Nlsr) : Prop where
  now : t.now = s.now
  confParam : t.confParam = s.confParam
  lsaRefreshTime : t.lsdb.lsaRefreshTime = s.lsdb.lsaRefreshTime
  adjLsaBuildInterval : t.lsdb.adjLsaBuildInterval = s.lsdb.adjLsaBuildInterval
  refreshTime : t.fib.refreshTime = s.fib.refreshTime
  routingCalcInterval : t.routingTable.routingCalcInterval = s.routingTable.routingCalcInterval
  idle : t.isRoutingTableCalculating = s.isRoutingTableCalculating

/-- A calculation is pending. -/
def CalculationPending (s : Nlsr) : Prop := ∃ e ∈ s.scheduler.events, e.action = .calculate

/-- What a punctual operation leaves. -/
structure Kept (keeps : Action → Prop) (s t : Nlsr) : Prop where
  sameTimes : SameTimes s t
  clocked : t.Clocked
  /-- Whatever comes has a new id. -/
  within : Within (fun _ => True) s.scheduler t.scheduler
  events : ∀ e ∈ s.scheduler.events, e.action = .calculate ∨ keeps e.action →
    e ∈ t.scheduler.events
  /-- A new request is pending. -/
  requested : t.isRouteCalculationScheduled = true →
    s.isRouteCalculationScheduled = true ∨ t.CalculationPending
  /-- A FIB entry is renewed or has its old expiration. -/
  entries : ∀ entry ∈ t.fib.table, entry.expirationTimePoint = s.now + s.fibLifetime ∨
    ∃ entry' ∈ s.fib.table, entry'.expirationTimePoint = entry.expirationTimePoint

/-- An operation on a clocked state. -/
def Punctual (keeps : Action → Prop) (s t : Nlsr) : Prop := s.Clocked → Kept keeps s t

section turns

variable {keeps : Action → Prop} {s t u : Nlsr}

theorem SameTimes.refl (s : Nlsr) : SameTimes s s := ⟨rfl, rfl, rfl, rfl, rfl, rfl, rfl⟩

theorem SameTimes.trans (h : SameTimes s t) (h' : SameTimes t u) : SameTimes s u :=
  ⟨h'.now.trans h.now, h'.confParam.trans h.confParam, h'.lsaRefreshTime.trans h.lsaRefreshTime,
    h'.adjLsaBuildInterval.trans h.adjLsaBuildInterval, h'.refreshTime.trans h.refreshTime,
    h'.routingCalcInterval.trans h.routingCalcInterval, h'.idle.trans h.idle⟩

theorem SameTimes.routerPrefix (h : SameTimes s t) : t.routerPrefix = s.routerPrefix :=
  congrArg ConfParameter.routerPrefix h.confParam

theorem SameTimes.calculationDelay (h : SameTimes s t) :
    t.calculationDelay = s.calculationDelay := by
  rw [Nlsr.calculationDelay, h.confParam, ← Nlsr.calculationDelay]

theorem SameTimes.refreshDelay (h : SameTimes s t) : t.refreshDelay = s.refreshDelay := by
  rw [Nlsr.refreshDelay, h.confParam, ← Nlsr.refreshDelay]

theorem SameTimes.fibLifetime (h : SameTimes s t) : t.fibLifetime = s.fibLifetime := by
  rw [Nlsr.fibLifetime, h.refreshTime, ← Nlsr.fibLifetime]

theorem SameTimes.reach (h : SameTimes s t) (action : Action) :
    t.reach action = s.reach action := by
  cases action <;> simp only [Nlsr.reach, h.calculationDelay, h.refreshDelay]

theorem Punctual.refl (keeps : Action → Prop) (s : Nlsr) : Punctual keeps s s := fun hs =>
  ⟨SameTimes.refl s, hs, Within.refl _ _, fun _ he _ => he, Or.inl,
    fun entry he => Or.inr ⟨entry, he, rfl⟩⟩

theorem Kept.calculationPending (h : Kept keeps s t) (hs : s.CalculationPending) :
    t.CalculationPending := by
  obtain ⟨e, he, haction⟩ := hs
  exact ⟨e, h.events e he (Or.inl haction), haction⟩

theorem Punctual.trans (h : Punctual keeps s t) (h' : Punctual keeps t u) :
    Punctual keeps s u := by
  intro hs
  have ht := h hs
  have hu := h' ht.clocked
  refine ⟨ht.sameTimes.trans hu.sameTimes, hu.clocked, ht.within.trans hu.within,
    fun e he hk => hu.events e (ht.events e he hk) hk, fun hflag => ?_, fun entry hentry => ?_⟩
  · rcases hu.requested hflag with hflag | hpending
    · exact (ht.requested hflag).imp_right hu.calculationPending
    · exact Or.inr hpending
  · rcases hu.entries entry hentry with hnew | ⟨entry', hentry', heq⟩
    · left
      rw [hnew, ht.sameTimes.now, ht.sameTimes.fibLifetime]
    · rcases ht.entries entry' hentry' with hnew | ⟨entry'', hentry'', heq'⟩
      · exact Or.inl (heq.symm.trans hnew)
      · exact Or.inr ⟨entry'', hentry'', heq'.trans heq⟩

theorem Clocked.congr (h : s.Clocked) (hnow : t.now = s.now) (hconf : t.confParam = s.confParam)
    (hlsdb : t.lsdb = s.lsdb) (hfib : t.fib = s.fib) (hsch : t.scheduler = s.scheduler)
    (hinterval : t.routingTable.routingCalcInterval = s.routingTable.routingCalcInterval) :
    t.Clocked where
  accepted := hconf ▸ h.accepted
  lsaRefreshTime := by rw [hlsdb, hconf, h.lsaRefreshTime]
  adjLsaBuildInterval := by rw [hlsdb, hconf, h.adjLsaBuildInterval]
  refreshTime := by rw [hfib, hconf, h.refreshTime]
  routingCalcInterval := by rw [hinterval, hconf, h.routingCalcInterval]
  fibIds := h.fibIds.congr (congrArg Fib.table hfib) hsch
  fibEvents := by
    rw [hfib, hsch]
    exact h.fibEvents
  onTime := by
    have hreach : t.reach = s.reach := by
      funext action
      cases action <;> simp only [reach, Nlsr.calculationDelay, Nlsr.refreshDelay, hconf]
    rw [hsch, hnow, hreach, routerPrefix, hconf]
    exact h.onTime

/-! ## Operations that leave the timers alone -/

/-- An action that is no timer and is not kept. -/
def Free (keeps : Action → Prop) (self : Name) (action : Action) : Prop :=
  ¬ Timer self action ∧ ¬ keeps action

/-- Only events that are no timers come and go; what happens to the FIB is said apart. -/
theorem kept_of_within {P : Action → Prop} (hs : s.Clocked)
    (hP : ∀ action, P action → Free keeps s.routerPrefix action) (htimes : SameTimes s t)
    (hflag : t.isRouteCalculationScheduled = s.isRouteCalculationScheduled)
    (hwithin : Within P s.scheduler t.scheduler) (hids : t.FibIds)
    (hevents : ∀ e ∈ t.scheduler.events, ∀ name, e.action = .removeFibEntry name →
      ∃ entry ∈ t.fib.table, entry.expiringEventId = some e.id ∧
        entry.expirationTimePoint = e.due)
    (hentries : ∀ entry ∈ t.fib.table, entry.expirationTimePoint = s.now + s.fibLifetime ∨
      ∃ entry' ∈ s.fib.table, entry'.expirationTimePoint = entry.expirationTimePoint) :
    Kept keeps s t where
  sameTimes := htimes
  clocked := {
    accepted := htimes.confParam ▸ hs.accepted
    lsaRefreshTime := by rw [htimes.lsaRefreshTime, htimes.confParam, hs.lsaRefreshTime]
    adjLsaBuildInterval := by
      rw [htimes.adjLsaBuildInterval, htimes.confParam, hs.adjLsaBuildInterval]
    refreshTime := by rw [htimes.refreshTime, htimes.confParam, hs.refreshTime]
    routingCalcInterval := by
      rw [htimes.routingCalcInterval, htimes.confParam, hs.routingCalcInterval]
    fibIds := hids
    fibEvents := hevents
    onTime := fun e he htimer => by
      rw [htimes.routerPrefix] at htimer
      rw [htimes.now, htimes.reach]
      rcases hwithin.new e he with he | ⟨-, hPe⟩
      · exact hs.onTime e he htimer
      · exact absurd htimer (hP _ hPe).1 }
  within := hwithin.mono fun _ _ => trivial
  events e he hk := by
    refine (hwithin.old e he).resolve_right fun hPe => ?_
    rcases hk with haction | hk
    · exact (hP _ hPe).1 (haction ▸ .calculate)
    · exact (hP _ hPe).2 hk
  requested h := Or.inl (hflag.symm.trans h)
  entries := hentries

/-- The FIB and the scheduler are the same. -/
theorem punctual_of_eq (keeps : Action → Prop) (htimes : SameTimes s t)
    (htable : t.fib.table = s.fib.table) (hsch : t.scheduler = s.scheduler)
    (hflag : t.isRouteCalculationScheduled = s.isRouteCalculationScheduled) :
    Punctual keeps s t := by
  intro hs
  refine kept_of_within (P := fun _ => False) hs (fun _ h => h.elim) htimes hflag
    (hsch ▸ Within.refl _ _) (hs.fibIds.congr htable hsch) ?_ ?_
  · rw [hsch, htable]
    exact hs.fibEvents
  · rw [htable]
    exact fun entry hentry => Or.inr ⟨entry, hentry, rfl⟩

theorem within_true_cancelEvent (sch : Scheduler) (eid : Option Nat) :
    Within (fun _ => True) sch (sch.cancelEvent eid) where
  nextId := le_rfl
  new _ he := Or.inl (mem_cancelEvent.1 he).1
  old _ _ := Or.inr trivial

theorem Clocked.cancelEvent (hs : s.Clocked) (eid : Option Nat) :
    (s.cancelEvent eid).Clocked :=
  { hs with
    fibIds := hs.fibIds.within rfl (within_true_cancelEvent _ eid)
    fibEvents := fun e he => hs.fibEvents e (mem_cancelEvent.1 he).1
    onTime := fun e he => hs.onTime e (mem_cancelEvent.1 he).1 }

theorem punctual_cancelEvent {P : Action → Prop} {eid : Option Nat}
    (howns : s.scheduler.Owns eid P)
    (hP : ∀ action, P action → action ≠ .calculate ∧ ¬ keeps action) :
    Punctual keeps s (s.cancelEvent eid) := fun hs =>
  { sameTimes := ⟨rfl, rfl, rfl, rfl, rfl, rfl, rfl⟩
    clocked := hs.cancelEvent eid
    within := within_true_cancelEvent _ eid
    events := fun e he hk => ((within_cancelEvent howns).old e he).resolve_right fun hPe =>
      hk.elim (hP _ hPe).1 (hP _ hPe).2
    requested := Or.inl
    entries := fun entry hentry => Or.inr ⟨entry, hentry, rfl⟩ }

/-- Scheduling an event that is no expiration of a FIB entry; a timer is not too far away. -/
theorem punctual_scheduleEvent (keeps : Action → Prop) {action : Action} {after : Duration}
    (hfib : ¬ ExpiresFibEntry action)
    (htimer : s.Clocked → Timer s.routerPrefix action → 0 ≤ after ∧ after ≤ s.reach action) :
    Punctual keeps s (s.scheduleEvent after action).1 := by
  intro hs
  have hwithin : Within (· = action) s.scheduler (s.scheduleEvent after action).1.scheduler :=
    within_scheduleEvent (P := (· = action)) rfl _ _
  have hold : ∀ e ∈ s.scheduler.events, e ∈ (s.scheduleEvent after action).1.scheduler.events :=
    fun e he => mem_scheduleEvent.2 (Or.inl he)
  refine {
    sameTimes := ⟨rfl, rfl, rfl, rfl, rfl, rfl, rfl⟩
    clocked := ⟨hs.accepted, hs.lsaRefreshTime, hs.adjLsaBuildInterval, hs.refreshTime,
      hs.routingCalcInterval, hs.fibIds.within rfl hwithin, fun e he name hname => ?_,
      fun e he ht => ?_⟩
    within := hwithin.mono fun _ _ => trivial
    events := fun e he _ => hold e he
    requested := Or.inl
    entries := fun entry hentry => Or.inr ⟨entry, hentry, rfl⟩ }
  · rcases mem_scheduleEvent.1 he with he | rfl
    · exact hs.fibEvents e he name hname
    · exact absurd ⟨name, hname⟩ hfib
  · rcases mem_scheduleEvent.1 he with he | rfl
    · exact hs.onTime e he ht
    · obtain ⟨hle, hreach⟩ := htimer hs ht
      exact ⟨le_add_of_nonneg_right hle, add_le_add_right hreach _⟩

/-! ## The tables -/

/-- The kinds that are kept do not include the expirations of FIB entries. -/
def SparesFib (keeps : Action → Prop) : Prop := ∀ action, ExpiresFibEntry action → ¬ keeps action

theorem not_timer_of_expiresFibEntry {self : Name} {action : Action}
    (h : ExpiresFibEntry action) : ¬ Timer self action := by
  obtain ⟨name, rfl⟩ := h
  exact nofun

theorem SparesFib.free (h : SparesFib keeps) (self : Name) :
    ∀ action, ExpiresFibEntry action → Free keeps self action :=
  fun action ha => ⟨not_timer_of_expiresFibEntry ha, h action ha⟩

/-- What becomes of the FIB entry of a name and of its expiration. -/
inductive EntryChange (s t : Nlsr) (name : Name) : Prop
  | same (hnone : s.fib.table.find? name = none) (htable : t.fib.table = s.fib.table)
      (hsch : t.scheduler = s.scheduler)
  | removed (entry : FibEntry) (hfind : s.fib.table.find? name = some entry)
      (htable : ∀ n, t.fib.table.find? n = if n = name then none else s.fib.table.find? n)
      (hsch : t.scheduler = s.scheduler.cancelEvent entry.expiringEventId)
  | renewed (entry : FibEntry) (hexp : entry.expirationTimePoint = s.now + s.fibLifetime)
      (heid : entry.expiringEventId = some s.scheduler.nextId)
      (htable : ∀ n, t.fib.table.find? n = if n = name then some entry else s.fib.table.find? n)
      (hevents : ∀ e ∈ t.scheduler.events,
        (e ∈ s.scheduler.events ∧ ∀ old, s.fib.table.find? name = some old →
          old.expiringEventId ≠ some e.id) ∨
        e = ⟨s.scheduler.nextId, s.now + s.fibLifetime, .removeFibEntry name⟩)

theorem entryChange_fibRemove (s : Nlsr) (name : Name) : EntryChange s (s.fibRemove name) name := by
  have htable := find?_fibRemove s name
  unfold fibRemove at htable ⊢
  cases h : s.fib.table.find? name with
  | none => exact .same h rfl rfl
  | some entry =>
    rw [h] at htable
    have hsent := onlySent_foldl (fun s (nh : NextHop) =>
      onlySent_unregisterIfUpdatable s entry.name nh.connectingFaceUri) entry.nexthopList.toList s
    dsimp only at htable ⊢
    generalize List.foldl _ s entry.nexthopList.toList = u at hsent htable ⊢
    refine .removed entry h htable ?_
    show u.scheduler.cancelEvent _ = _
    rw [hsent.scheduler]

theorem OnlySent.sameTimes (h : OnlySent s t) : SameTimes s t := by
  rw [OnlySent] at h
  rw [h]
  exact ⟨rfl, rfl, rfl, rfl, rfl, rfl, rfl⟩

theorem sameTimes_fibRemove (s : Nlsr) (name : Name) : SameTimes s (s.fibRemove name) := by
  unfold fibRemove
  cases s.fib.table.find? name with
  | none => exact SameTimes.refl s
  | some entry =>
    have hsent := onlySent_foldl (fun s (nh : NextHop) =>
      onlySent_unregisterIfUpdatable s entry.name nh.connectingFaceUri) entry.nexthopList.toList s
    exact hsent.sameTimes.trans ⟨rfl, rfl, rfl, rfl, rfl, rfl, rfl⟩

theorem sameTimes_fibUpdate (s : Nlsr) (name : Name) (allHops : NexthopList) :
    SameTimes s (s.fibUpdate name allHops) := by
  by_cases hsize : (s.hopsToInstall allHops).size = 0
  · rw [fibUpdate_of_size_eq_zero hsize]
    exact sameTimes_fibRemove s name
  · obtain ⟨t, entry, seqNo, table, hsent, -, heq, -⟩ := exists_fibUpdate_sent hsize name
    rw [heq]
    exact hsent.sameTimes.trans ⟨rfl, rfl, rfl, rfl, rfl, rfl, rfl⟩

/-- A refreshed entry takes the place of the one of its name, whose expiration is cancelled. -/
theorem EntryChange.of_refresh {v : Nlsr} {name : Name} {entry : FibEntry} (seqNo : Int)
    (hname : entry.name = name) (htimes : SameTimes s v)
    (hid : v.scheduler.nextId = s.scheduler.nextId)
    (hcancelled : ∀ e ∈ v.scheduler.events, e ∈ s.scheduler.events ∧
      ∀ old, s.fib.table.find? name = some old → old.expiringEventId ≠ some e.id)
    (hsch : t.scheduler = (v.refreshFibEntry entry seqNo).1.scheduler)
    (htable : ∀ n, t.fib.table.find? n =
      if n = name then some (v.refreshFibEntry entry seqNo).2 else s.fib.table.find? n) :
    EntryChange s t name := by
  have hlife : seconds v.fib.refreshTime = s.fibLifetime := by
    rw [htimes.refreshTime, ← fibLifetime]
  refine .renewed _ ?_ ?_ htable fun e he => ?_
  · show v.now + seconds v.fib.refreshTime = _
    rw [htimes.now, hlife]
  · show some v.scheduler.nextId = _
    rw [hid]
  · rw [hsch] at he
    rcases mem_scheduleEvent.1 he with he | rfl
    · exact Or.inl (hcancelled e he)
    · right
      rw [hid, htimes.now, hlife, hname]

theorem entryChange_fibUpdate (s : Nlsr) (name : Name) (allHops : NexthopList) :
    EntryChange s (s.fibUpdate name allHops) name := by
  by_cases hsize : (s.hopsToInstall allHops).size = 0
  · rw [fibUpdate_of_size_eq_zero hsize]
    exact entryChange_fibRemove s name
  · obtain ⟨t, entry, seqNo, table, hsent, hname, heq, htable⟩ := exists_fibUpdate_sent hsize name
    rw [heq]
    refine .of_refresh (v := t.cancelEvent (s.fibEntry name).expiringEventId) seqNo hname
      (hsent.sameTimes.trans ⟨rfl, rfl, rfl, rfl, rfl, rfl, rfl⟩)
      (congrArg Scheduler.nextId hsent.scheduler : t.scheduler.nextId = _)
      (fun e he => ?_) rfl htable
    obtain ⟨he, hne⟩ := mem_cancelEvent.1 he
    rw [hsent.scheduler] at he
    refine ⟨he, fun old hold => ?_⟩
    rw [fibEntry, hold] at hne
    exact hne

theorem OnlyFib.isRouteCalculationScheduled (h : OnlyFib s t) :
    t.isRouteCalculationScheduled = s.isRouteCalculationScheduled := by
  rw [OnlyFib] at h
  rw [h]

/-- **A change of one FIB entry is punctual.** -/
theorem EntryChange.punctual {name : Name} (hkeeps : SparesFib keeps) (h : EntryChange s t name)
    (honly : OnlyFib s t) (htimes : SameTimes s t) (hturn : FibTurn s t) : Punctual keeps s t := by
  intro hs
  obtain ⟨hwithin, hids⟩ := hturn hs.fibIds
  refine kept_of_within hs (hkeeps.free s.routerPrefix) htimes
    honly.isRouteCalculationScheduled hwithin hids (fun e he n hn => ?_) fun entry hentry => ?_
  · cases h with
    | same hnone htable hsch =>
      rw [hsch] at he
      rw [htable]
      exact hs.fibEvents e he n hn
    | removed old hfind htable hsch =>
      rw [hsch] at he
      obtain ⟨he, hne⟩ := mem_cancelEvent.1 he
      obtain ⟨entry, hentry, heid, hexp⟩ := hs.fibEvents e he n hn
      refine ⟨entry, KeyedList.mem_of_find? (k := entry.name) ?_, heid, hexp⟩
      rw [htable, if_neg, KeyedList.find?_of_mem hentry]
      rintro rfl
      obtain rfl := Option.some.inj ((KeyedList.find?_of_mem hentry).symm.trans hfind)
      exact hne heid
    | renewed new hexp heid htable hevents =>
      rcases hevents e he with ⟨he, hne⟩ | rfl
      · obtain ⟨entry, hentry, heid', hexp'⟩ := hs.fibEvents e he n hn
        refine ⟨entry, KeyedList.mem_of_find? (k := entry.name) ?_, heid', hexp'⟩
        rw [htable, if_neg, KeyedList.find?_of_mem hentry]
        rintro rfl
        exact hne entry (KeyedList.find?_of_mem hentry) heid'
      · exact ⟨new, KeyedList.mem_of_find? ((htable name).trans (if_pos rfl)), heid, hexp⟩
  · have hfind := KeyedList.find?_of_mem hentry
    cases h with
    | same hnone htable hsch =>
      rw [htable] at hentry
      exact Or.inr ⟨entry, hentry, rfl⟩
    | removed old hold htable hsch =>
      rw [htable] at hfind
      split_ifs at hfind
      exact Or.inr ⟨entry, KeyedList.mem_of_find? hfind, rfl⟩
    | renewed new hexp heid htable hevents =>
      rw [htable] at hfind
      split_ifs at hfind
      · obtain rfl := Option.some.inj hfind
        exact Or.inl hexp
      · exact Or.inr ⟨entry, KeyedList.mem_of_find? hfind, rfl⟩

theorem tablesClosed_punctual (hkeeps : SparesFib keeps) : TablesClosed (Punctual keeps) where
  refl := Punctual.refl keeps
  trans := Punctual.trans
  setNamePrefixTable _ _ :=
    punctual_of_eq keeps ⟨rfl, rfl, rfl, rfl, rfl, rfl, rfl⟩ rfl rfl rfl
  fibUpdate s name allHops := (entryChange_fibUpdate s name allHops).punctual hkeeps
    (fibUpdate_spec s name allHops).1 (sameTimes_fibUpdate s name allHops)
    (fibTurn_fibUpdate s name allHops)
  fibRemove s name := (entryChange_fibRemove s name).punctual hkeeps (onlyFib_fibRemove s name)
    (sameTimes_fibRemove s name) (fibTurn_fibRemove s name)

/-! ## Requests -/

theorem Clocked.calculationDelay_eq (hs : s.Clocked) :
    seconds s.routingTable.routingCalcInterval.toNat = s.calculationDelay := by
  rw [hs.routingCalcInterval, ← calculationDelay]

theorem calculationDelay_nonneg (s : Nlsr) : 0 ≤ s.calculationDelay :=
  seconds_nonneg (Int.natCast_nonneg _)

theorem refreshDelay_nonneg (s : Nlsr) : 0 ≤ s.refreshDelay := by
  rw [refreshDelay, Lsdb.gracePeriod, ← seconds_add]
  exact seconds_nonneg (by omega)

theorem punctual_scheduleRoutingTableCalculation (keeps : Action → Prop) (s : Nlsr) :
    Punctual keeps s s.scheduleRoutingTableCalculation := by
  intro hs
  unfold scheduleRoutingTableCalculation
  split_ifs
  · let u := (s.scheduleEvent (seconds s.routingTable.routingCalcInterval.toNat) .calculate).1
    have hu : Kept keeps s u := by
      refine punctual_scheduleEvent keeps (by rintro ⟨_, h⟩; cases h) (fun hs _ => ?_) hs
      rw [hs.calculationDelay_eq]
      exact ⟨s.calculationDelay_nonneg, le_rfl⟩
    exact ⟨hu.sameTimes.trans ⟨rfl, rfl, rfl, rfl, rfl, rfl, rfl⟩, { hu.clocked with },
      hu.within, hu.events, fun _ => Or.inr ⟨_, mem_scheduleEvent.2 (Or.inr rfl), rfl⟩,
      hu.entries⟩
  · exact Punctual.refl keeps s hs

/-- A pending calculation is due within its delay. -/
theorem Clocked.calculate_le (hs : s.Clocked) {e : ScheduledEvent} (he : e ∈ s.scheduler.events)
    (haction : e.action = .calculate) : e.due ≤ s.now + s.calculationDelay := by
  have htime := (hs.onTime e he (haction ▸ .calculate)).2
  rw [haction] at htime
  exact htime

/-- A build is put off and scheduled for less than a refresh. -/
theorem Clocked.delay_le_refreshDelay (hs : s.Clocked) {delay : Nat}
    (hdelay : delay ≤ 250) : 0 ≤ seconds delay ∧ seconds delay ≤ s.refreshDelay := by
  have hrefresh := hs.accepted.lsaRefreshTime.1
  refine ⟨seconds_nonneg (Int.natCast_nonneg _), ?_⟩
  rw [refreshDelay, Lsdb.gracePeriod, ← seconds_add, seconds_le_seconds]
  omega

theorem Clocked.putOffDelay_le (hs : s.Clocked) :
    0 ≤ s.putOffDelay ∧ s.putOffDelay ≤ s.refreshDelay := by
  refine hs.delay_le_refreshDelay ?_
  rw [UInt32.toNat_mul]
  calc _ ≤ s.confParam.interestRetryNumber.toNat * s.confParam.interestResendTime.toNat :=
        Nat.mod_le _ _
    _ ≤ 15 * 15 :=
        Nat.mul_le_mul hs.accepted.interestRetryNumber.2 hs.accepted.interestResendTime.2
    _ ≤ 250 := by decide

theorem punctual_scheduleAdjLsaBuild (keeps : Action → Prop) (s : Nlsr) :
    Punctual keeps s s.scheduleAdjLsaBuild := by
  let u : Nlsr := { s with adjBuildCount := s.adjBuildCount + 1 }
  have hu : Punctual keeps s u :=
    punctual_of_eq keeps ⟨rfl, rfl, rfl, rfl, rfl, rfl, rfl⟩ rfl rfl rfl
  unfold scheduleAdjLsaBuild
  dsimp only
  split_ifs
  · refine (hu.trans (punctual_scheduleEvent keeps (by rintro ⟨_, h⟩; cases h) fun hu _ => ?_)).trans
      (punctual_of_eq keeps ⟨rfl, rfl, rfl, rfl, rfl, rfl, rfl⟩ rfl rfl rfl)
    have hinterval := hu.accepted.adjLsaBuildInterval
    rw [← hu.adjLsaBuildInterval] at hinterval
    exact hu.delay_le_refreshDelay (hinterval.trans (by decide))
  · exact hu

theorem punctual_setAdjacencyList (keeps : Action → Prop) (s : Nlsr) (l : AdjacencyList) :
    Punctual keeps s (s.setAdjacencyList l) :=
  punctual_of_eq keeps ⟨rfl, rfl, rfl, rfl, rfl, rfl, rfl⟩ rfl rfl rfl

theorem OnlySent.isRouteCalculationScheduled (h : OnlySent s t) :
    t.isRouteCalculationScheduled = s.isRouteCalculationScheduled :=
  h.onlyFib.isRouteCalculationScheduled

theorem helloClosed_punctual (keeps : Action → Prop) : HelloClosed (Punctual keeps) where
  refl := Punctual.refl keeps
  trans := Punctual.trans
  setAdjacencyList := punctual_setAdjacencyList keeps
  scheduleAdjLsaBuild := punctual_scheduleAdjLsaBuild keeps
  onlySent h :=
    punctual_of_eq keeps h.sameTimes h.table h.scheduler h.isRouteCalculationScheduled

/-! ## LSAs -/

theorem punctual_setLsdb (keeps : Action → Prop) {db : Lsdb}
    (hrefresh : db.lsaRefreshTime = s.lsdb.lsaRefreshTime)
    (hbuild : db.adjLsaBuildInterval = s.lsdb.adjLsaBuildInterval) :
    Punctual keeps s (s.setLsdb db) :=
  punctual_of_eq keeps ⟨rfl, rfl, hrefresh, hbuild, rfl, rfl, rfl⟩ rfl rfl rfl

theorem eq_of_timer_expiry {self o : Name} {c : Counter} {n : UInt32}
    (h : Timer self (expiry c o n)) : c = .adj ∧ o = self := by
  generalize haction : expiry c o n = action at h
  cases h with
  | calculate => cases c <;> cases haction
  | buildAdjLsa => cases c <;> cases haction
  | refresh seqNo =>
    obtain ⟨hc, ho, -⟩ := lsaEvent_inj.1 haction
    exact ⟨hc, ho⟩

theorem not_expiresFibEntry_expiry (c : Counter) (o : Name) (n : UInt32) :
    ¬ ExpiresFibEntry (expiry c o n) := by
  rintro ⟨name, h⟩
  cases c <;> cases h

/-- Arming an LSA; an own one is refreshed after the refresh delay. -/
theorem punctual_arm (keeps : Action → Prop) (s : Nlsr) (l : AnyLsa) :
    Punctual keeps s (s.arm l).1 := by
  refine punctual_scheduleEvent keeps (not_expiresFibEntry_expiry _ _ _) fun hs htimer => ?_
  obtain ⟨hc, horig⟩ := eq_of_timer_expiry htimer
  have hreach : s.reach (expiry l.counter l.origRouter l.lsSeqNo) = s.refreshDelay := by
    rw [hc]
    rfl
  have hown : l.toLsa.origRouter = s.routerPrefix := l.toLsa_origRouter.trans horig
  rw [hreach, timeToExpire_of_own hown, hs.lsaRefreshTime, ← refreshDelay]
  exact ⟨s.refreshDelay_nonneg, le_rfl⟩

/-- The expiration of an LSA that is not kept is cancelled by the id that the LSA owns. -/
theorem Kept.cancelEvent {c : Counter} {o : Name} {eid : Option Nat} (h : Kept keeps s t)
    (howns : s.scheduler.Owns eid (Expires c o)) (hkeeps : ∀ n, ¬ keeps (expiry c o n)) :
    Punctual keeps t (t.cancelEvent eid) := by
  refine punctual_cancelEvent (howns.within h.within) ?_
  rintro _ ⟨n, rfl⟩
  refine ⟨fun heq => ?_, hkeeps n⟩
  cases c <;> cases heq

/-- **Operations on LSAs are punctual**, as far as the events they may cancel need not be kept. -/
theorem lsdbClosed_punctual (hspares : SparesFib keeps) :
    LsdbClosed (Punctual keeps) fun c o => ∀ n, ¬ keeps (expiry c o n) where
  toTablesClosed := tablesClosed_punctual hspares
  setLsdb _ _ hrefresh hbuild := punctual_setLsdb keeps hrefresh hbuild
  setOwn _ _ _ _ _ := punctual_of_eq keeps ⟨rfl, rfl, rfl, rfl, rfl, rfl, rfl⟩ rfl rfl rfl
  scheduleRoutingTableCalculation := punctual_scheduleRoutingTableCalculation keeps
  arm := punctual_arm keeps
  cancelOwned hkeeps hst howns hs := (hst.trans ((hst hs).cancelEvent howns hkeeps)) hs

end turns

end Nlsr

end LinkState
