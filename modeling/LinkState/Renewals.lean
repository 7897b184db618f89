import LinkState.Deadlines

/-!
# Routes are renewed in time

Only a calculation renews the FIB entries. One comes from a pending calculation, from a pending
build of the own Adjacency LSA or from the refresh of that LSA: such an event is a `Renewal`, and
it is in time if the calculation it leads to is due before any FIB entry expires (`InTime`).

An install, a firing or a request leaves a renewal in time, with three exceptions. A calculation is
declined while a build is scheduled, a build is put off while a neighbour's status is open, and a
build that finds the adjacents unchanged asks for nothing and postpones the refresh. `KeepsRenewal`
says that after these, too, a renewal is in time; `valid_routes_stay` says that then no FIB entry
with a route expires.
-/

namespace LinkState

open SequencingManager

namespace Nlsr

open Scheduler

/-! ## A calculation renews every FIB entry -/

/-- The FIB entry of a name has its expiration from now. -/
def EntryRenewed (s t : Nlsr) (name : Name) : Prop :=
  ∀ entry, t.fib.table.find? name = some entry →
    entry.expirationTimePoint = s.now + s.fibLifetime

section turns

variable {s t u : Nlsr}

theorem EntryChange.entryRenewed {name : Name} (h : EntryChange s t name) :
    EntryRenewed s t name := by
  intro entry hentry
  cases h with
  | same hnone htable hsch =>
    rw [htable, hnone] at hentry
    exact absurd hentry (Option.some_ne_none entry).symm
  | removed old hfind htable hsch =>
    rw [htable, if_pos rfl] at hentry
    exact absurd hentry (Option.some_ne_none entry).symm
  | renewed new hexp heid htable hevents =>
    rw [htable, if_pos rfl] at hentry
    obtain rfl := Option.some.inj hentry
    exact hexp

theorem entryRenewed_addEntry {name : Name} (h : s.FibFollows name) (dest : Name) :
    EntryRenewed s (s.addEntry name dest) name := by
  rw [FibFollows] at h
  unfold addEntry addEntryRte
  cases hfind : s.namePrefixTable.find? name with
  | none =>
    rw [hfind] at h
    dsimp only
    split_ifs
    · exact (entryChange_fibUpdate { s with namePrefixTable := _ } name _).entryRenewed
    · intro entry hentry
      exact absurd (h.symm.trans hentry) (Option.some_ne_none entry).symm
  | some it =>
    dsimp only
    split_ifs
    · exact (entryChange_fibUpdate { s with namePrefixTable := _ } name _).entryRenewed
    · exact (entryChange_fibRemove { s with namePrefixTable := _ } name).entryRenewed

theorem tablesClosed_sameTimes : TablesClosed SameTimes where
  refl := SameTimes.refl
  trans := SameTimes.trans
  setNamePrefixTable _ _ := ⟨rfl, rfl, rfl, rfl, rfl, rfl, rfl⟩
  fibUpdate := sameTimes_fibUpdate
  fibRemove := sameTimes_fibRemove

theorem EntryRenewed.addEntry {name : Name} (h : EntryRenewed s t name) (hst : SameTimes s t)
    (hfollows : ∀ n, t.FibFollows n) (n dest : Name) :
    EntryRenewed s (t.addEntry n dest) name := by
  intro entry hentry
  by_cases hn : name = n
  · subst hn
    rw [entryRenewed_addEntry (hfollows name) dest entry hentry, hst.now, hst.fibLifetime]
  · rw [show (t.addEntry n dest).fib.table.find? name = t.fib.table.find? name from
      (onlyName_addEntryRte ..).fib_ne name hn] at hentry
    exact h entry hentry

/-- The entries of the names in the list are renewed, and no entry is renewed in vain. -/
theorem entryRenewed_addEntries {name : Name} (hst : SameTimes s t)
    (hfollows : ∀ n, t.FibFollows n) (pairs : List (Name × Name))
    (h : EntryRenewed s t name ∨ ∃ dest, (name, dest) ∈ pairs) :
    EntryRenewed s (t.addEntries pairs) name := by
  induction pairs generalizing t with
  | nil => exact h.resolve_right fun ⟨_, hmem⟩ => List.not_mem_nil hmem
  | cons p pairs ih =>
    refine ih (hst.trans (tablesClosed_sameTimes.addEntry t p.1 p.2))
      (fibFollows_addEntry hfollows p.1 p.2) ?_
    rcases h with h | ⟨dest, hmem⟩
    · exact Or.inl (h.addEntry hst hfollows p.1 p.2)
    · rcases List.mem_cons.1 hmem with rfl | hmem
      · refine Or.inl fun entry hentry => ?_
        rw [entryRenewed_addEntry (hfollows name) dest entry hentry, hst.now, hst.fibLifetime]
      · exact Or.inr ⟨dest, hmem⟩

/-- **A new routing table renews every FIB entry.** -/
theorem entries_updateWithNewRoute (hfollows : ∀ n, s.FibFollows n)
    (horigins : s.EntriesHaveOrigins) :
    ∀ entry ∈ s.updateWithNewRoute.fib.table,
      entry.expirationTimePoint = s.now + s.fibLifetime := by
  intro entry hentry
  have hfind := KeyedList.find?_of_mem hentry
  have hfollows' := fibFollows_addEntries hfollows s.recordedPairs entry.name
  have horigins' := entriesHaveOrigins_addEntries horigins s.recordedPairs
  rw [← updateWithNewRoute_eq] at hfollows' horigins'
  -- The name has an origin, so it is among the pairs that are entered again
  have hcontains : s.updateWithNewRoute.namePrefixTable.contains entry.name := by
    rw [KeyedList.contains]
    rw [FibFollows] at hfollows'
    cases hnpt : s.updateWithNewRoute.namePrefixTable.find? entry.name with
    | none =>
      rw [hnpt] at hfollows'
      exact absurd (hfollows'.symm.trans hfind) (Option.some_ne_none entry).symm
    | some it => rfl
  obtain ⟨o, ho⟩ := horigins' entry.name hcontains
  rw [recorded_updateWithNewRoute] at ho
  rw [updateWithNewRoute_eq] at hfind
  exact entryRenewed_addEntries (SameTimes.refl s) hfollows s.recordedPairs
    (Or.inr ⟨o, mem_recordedPairs.2 ho⟩) entry hfind

theorem routingCalcInterval_newRoutingTable (math : MathLib) (s : Nlsr) :
    (s.newRoutingTable math).routingCalcInterval = s.routingTable.routingCalcInterval := by
  unfold newRoutingTable
  split_ifs
  · unfold calculateTables
    cases h : s.confParam.hyperbolicState <;>
      simp [h, calculateLsRoutingTable, calculateHypRoutingTable_eq,
        calculateHypDryRoutingTable_eq, clearRoutingTable, clearDryRoutingTable, setRTable,
        setDryTable]
  · rfl

theorem routingCalcInterval_routingTableWriteLog (s : Nlsr) :
    s.routingTableWriteLog.routingTable.routingCalcInterval =
      s.routingTable.routingCalcInterval := by
  unfold routingTableWriteLog
  dsimp only
  split_ifs <;> rfl

theorem routingCalcInterval_useRoutingTable (s : Nlsr) (rt : RoutingTable) :
    (s.useRoutingTable rt).routingTable.routingCalcInterval = rt.routingCalcInterval := by
  have hrt := (onlyTables_updateWithNewRoute { s with routingTable := rt }).routingTable
  exact (routingCalcInterval_routingTableWriteLog _).trans
    (congrArg RoutingTable.routingCalcInterval hrt)

/-- The log sorts hops only. -/
theorem clocked_fibWriteLog (hs : s.Clocked) : s.fibWriteLog.Clocked :=
  { hs with
    fibIds := (fibTurn_fibWriteLog s hs.fibIds).2
    fibEvents := fun e he name hname => by
      obtain ⟨entry, hentry, heid, hexp⟩ := hs.fibEvents e he name hname
      exact ⟨{ entry with nexthopList := entry.nexthopList.sortHops },
        List.mem_map.2 ⟨entry, hentry, rfl⟩, heid, hexp⟩ }

/-- **A calculation that runs** leaves every FIB entry with its expiration from now. -/
theorem clocked_calculate (math : MathLib) (hs : s.Clocked) (h : s.CanCalculate)
    (hfollows : ∀ n, s.FibFollows n) (horigins : s.EntriesHaveOrigins) :
    (s.calculate math).Clocked ∧ (s.calculate math).now = s.now ∧
      (s.calculate math).fibLifetime = s.fibLifetime ∧
      ∀ entry ∈ (s.calculate math).fib.table,
        entry.expirationTimePoint = s.now + s.fibLifetime := by
  let s' : Nlsr := { s with isRoutingTableCalculating := true }
  let rt := s'.newRoutingTable math
  let u : Nlsr := { s' with routingTable := rt }
  have hu : u.Clocked :=
    hs.congr rfl rfl rfl rfl rfl (routingCalcInterval_newRoutingTable math s')
  have hkept : Kept (fun _ => False) u u.updateWithNewRoute := by
    rw [updateWithNewRoute_eq]
    exact (tablesClosed_punctual fun _ _ => id).addEntries u _ hu
  have hentries : ∀ entry ∈ u.updateWithNewRoute.fib.table,
      entry.expirationTimePoint = s.now + s.fibLifetime :=
    entries_updateWithNewRoute (fun n => (hfollows n).congr rfl rfl rfl)
      (entriesHaveOrigins_congr rfl horigins)
  have hlsdb := (onlyTables_updateWithNewRoute u).lsdb
  have hrt := (onlyTables_updateWithNewRoute u).routingTable
  obtain ⟨honly, -, -, hfib, hsch⟩ := useRoutingTable_spec s' rt
  have hinterval := routingCalcInterval_useRoutingTable s' rt
  have hlife : (s'.useRoutingTable rt).fibLifetime = s.fibLifetime := by
    rw [fibLifetime, hfib]
    exact hkept.sameTimes.fibLifetime
  rw [calculate_of_canCalculate h]
  rw [OnlyRouting] at honly
  refine ⟨(clocked_fibWriteLog hkept.clocked).congr ?_ ?_ ?_ hfib hsch ?_, ?_, hlife, ?_⟩
  · show (s'.useRoutingTable rt).now = u.updateWithNewRoute.now
    rw [honly, hkept.sameTimes.now]
  · show (s'.useRoutingTable rt).confParam = u.updateWithNewRoute.confParam
    rw [honly, hkept.sameTimes.confParam]
  · show (s'.useRoutingTable rt).lsdb = u.updateWithNewRoute.lsdb
    rw [honly, hlsdb]
  · show (s'.useRoutingTable rt).routingTable.routingCalcInterval = _
    rw [hinterval]
    exact (congrArg RoutingTable.routingCalcInterval hrt).symm
  · show (s'.useRoutingTable rt).now = s.now
    rw [honly]
  · show ∀ entry ∈ (s'.useRoutingTable rt).fib.table, _
    rw [hfib]
    intro entry hentry
    obtain ⟨entry', hentry', rfl⟩ := List.mem_map.1 hentry
    exact hentries entry' hentry'

end turns

/-! ## Renewals in time -/

/-- An event with this action leads to a calculation: it is one, a build, or the refresh of the own
Adjacency LSA with its stored number. -/
def Renewal (s : Nlsr) (action : Action) : Prop :=
  action = .calculate ∨ action = .buildAdjLsa ∨
    (s.lsaOf .adj s.routerPrefix).map (fun l =>
      lsaEvent .adj s.routerPrefix l.lsSeqNo.toUInt64) = some action

/-- When the calculation that an event leads to is due at the latest. -/
def renewedBy (s : Nlsr) (e : ScheduledEvent) : TimePoint :=
  if e.action = .calculate then e.due else e.due + s.calculationDelay

/-- No FIB entry has expired at a time. -/
def Outlasts (s : Nlsr) (d : TimePoint) : Prop :=
  ∀ entry ∈ s.fib.table, d < entry.expirationTimePoint

/-- A renewal is pending that comes before any FIB entry expires. -/
def InTime (s : Nlsr) : Prop :=
  ∃ e ∈ s.scheduler.events, s.Renewal e.action ∧ s.Outlasts (s.renewedBy e)

/-- Without an own Adjacency LSA a calculation leaves no routes. -/
structure Bare (s : Nlsr) : Prop where
  lsa : s.lsaOf .adj s.routerPrefix = none
  rTable : s.routingTable.rTable = KeyedList.empty

/-- There are no routes, or they are renewed in time. -/
def Renewed (s : Nlsr) : Prop := s.Bare ∨ s.InTime

section renewals

variable {keeps : Action → Prop} {s t : Nlsr} {d : TimePoint}

theorem Renewal.timer {action : Action} (h : s.Renewal action) :
    Timer s.routerPrefix action := by
  rcases h with rfl | rfl | h
  · exact .calculate
  · exact .buildAdjLsa
  · obtain ⟨l, -, rfl⟩ := Option.map_eq_some_iff.1 h
    exact .refresh _

theorem Renewal.congr {action : Action} (h : s.Renewal action)
    (hrp : t.routerPrefix = s.routerPrefix)
    (hlsa : t.lsaOf .adj s.routerPrefix = s.lsaOf .adj s.routerPrefix) : t.Renewal action := by
  rw [Renewal, hrp, hlsa]
  exact h

theorem seconds_lt_seconds {m n : Int} : seconds m < seconds n ↔ m < n :=
  Int.mul_lt_mul_right (by decide)

/-- A FIB entry lives longer than it takes to refresh the own Adjacency LSA and to calculate. -/
theorem Clocked.lt_fibLifetime (hs : s.Clocked) :
    s.refreshDelay + s.calculationDelay < s.fibLifetime := by
  have hrefresh := hs.accepted.lsaRefreshTime.1
  have hcalc := hs.accepted.routingCalcInterval
  rw [refreshDelay, Lsdb.gracePeriod, calculationDelay, fibLifetime, hs.refreshTime,
    ← seconds_add, ← seconds_add, seconds_lt_seconds]
  omega

theorem Clocked.due_le (hs : s.Clocked) {e : ScheduledEvent} (he : e ∈ s.scheduler.events)
    (h : s.Renewal e.action) (haction : e.action ≠ .calculate) :
    e.due ≤ s.now + s.refreshDelay := by
  have hreach : s.reach e.action = s.refreshDelay := by
    generalize e.action = action at haction
    cases action with
    | calculate => exact absurd rfl haction
    | _ => rfl
  exact hreach ▸ (hs.onTime e he h.timer).2

/-- A renewal comes before an entry that is updated now expires. -/
theorem Clocked.renewedBy_lt (hs : s.Clocked) {e : ScheduledEvent} (he : e ∈ s.scheduler.events)
    (h : s.Renewal e.action) : s.renewedBy e < s.now + s.fibLifetime := by
  have hlife := hs.lt_fibLifetime
  have hdelay := s.refreshDelay_nonneg
  unfold renewedBy
  split_ifs with haction
  · have hdue := hs.calculate_le he haction
    linarith
  · have hdue := hs.due_le he h haction
    linarith

theorem Outlasts.mono {d' : TimePoint} (h : s.Outlasts d) (hle : d' ≤ d) : s.Outlasts d' :=
  fun entry hentry => hle.trans_lt (h entry hentry)

theorem Kept.outlasts (hk : Kept keeps s t) (h : s.Outlasts d)
    (hd : d < s.now + s.fibLifetime) : t.Outlasts d := by
  intro entry hentry
  rcases hk.entries entry hentry with hnew | ⟨old, hold, heq⟩
  · rwa [hnew]
  · rw [← heq]
    exact h old hold

/-- A renewal in time stays in time as long as it stays pending. -/
theorem InTime.kept (h : s.InTime) (hs : s.Clocked) (hk : Kept s.Renewal s t)
    (hlsa : t.lsaOf .adj s.routerPrefix = s.lsaOf .adj s.routerPrefix) : t.InTime := by
  obtain ⟨e, he, hr, hout⟩ := h
  have heq : t.renewedBy e = s.renewedBy e := by
    rw [renewedBy, hk.sameTimes.calculationDelay, ← renewedBy]
  refine ⟨e, hk.events e he (Or.inr hr), hr.congr hk.sameTimes.routerPrefix hlsa, ?_⟩
  rw [heq]
  exact hk.outlasts hout (hs.renewedBy_lt he hr)

theorem inTime_of_calculation {c : ScheduledEvent} (hc : c ∈ s.scheduler.events)
    (haction : c.action = .calculate) (hle : c.due ≤ d) (hout : s.Outlasts d) : s.InTime := by
  refine ⟨c, hc, Or.inl haction, hout.mono ?_⟩
  rwa [renewedBy, if_pos haction]

/-- Without routes the FIB is empty. -/
theorem Bare.not_mem (h : s.Bare) (hs : s.TablesAgree) (entry : FibEntry) :
    entry ∉ s.fib.table := by
  intro hentry
  obtain ⟨hops, -, hmem, hcontains, -⟩ := hs.fibFollowsTables entry.name
  have hfib : s.fib.table.contains entry.name := KeyedList.find?_isSome.2 ⟨entry, hentry, rfl⟩
  obtain ⟨-, hne⟩ := hcontains.1 hfib
  obtain ⟨nh, hnh⟩ := List.exists_mem_of_ne_nil hops hne
  obtain ⟨⟨o, -, hhop⟩, -⟩ := (hmem nh).1 hnh
  rw [h.rTable] at hhop
  exact KeyedList.not_mem_empty nh hhop

/-- There is a time that the FIB entries outlast: that of a pending calculation, or one at which
a calculation that is requested now has come. -/
theorem Renewed.exists_deadline (h : s.Renewed) (hs : s.Clocked) (hagree : s.TablesAgree) :
    ∃ d, s.Outlasts d ∧ d < s.now + s.fibLifetime ∧
      ((∃ e ∈ s.scheduler.events, e.action = .calculate ∧ e.due = d) ∨
        s.now + s.calculationDelay ≤ d) := by
  rcases h with hbare | ⟨e, he, hr, hout⟩
  · have hlife := hs.lt_fibLifetime
    have hdelay := s.refreshDelay_nonneg
    refine ⟨s.now + s.calculationDelay, fun entry hentry => ?_, by linarith, Or.inr le_rfl⟩
    exact absurd hentry (hbare.not_mem hagree entry)
  · refine ⟨s.renewedBy e, hout, hs.renewedBy_lt he hr, ?_⟩
    unfold renewedBy
    split_ifs with haction
    · exact Or.inl ⟨e, he, haction, rfl⟩
    · have hdue := (hs.onTime e he hr.timer).1
      exact Or.inr (by linarith)

end renewals

/-! ## The invariant -/

/-- A renewal is in time, and requests are pending. -/
structure Awaits (s : Nlsr) : Prop where
  clocked : s.Clocked
  idle : s.isRoutingTableCalculating = false
  requested : s.isRouteCalculationScheduled = true → s.CalculationPending
  renewed : s.Renewed

/-- Together with what is known of the events of LSAs and of the tables. -/
structure RenewalInv (since : Counter → Name → TimePoint) (s : Nlsr) : Prop extends Awaits s where
  timed : Timed Every since s
  agree : s.TablesAgree
  origins : s.EntriesHaveOrigins

section awaiting

variable {keeps : Action → Prop} {since : Counter → Name → TimePoint} {s t : Nlsr}

theorem Renewed.kept (h : s.Renewed) (hs : s.Clocked) (hk : Kept s.Renewal s t)
    (hlsa : t.lsaOf .adj s.routerPrefix = s.lsaOf .adj s.routerPrefix)
    (hrt : t.routingTable = s.routingTable) : t.Renewed := by
  rcases h with hbare | hintime
  · refine Or.inl ⟨?_, ?_⟩
    · rw [hk.sameTimes.routerPrefix, hlsa, hbare.lsa]
    · rw [hrt, hbare.rTable]
  · exact Or.inr (hintime.kept hs hk hlsa)

theorem Awaits.kept (h : s.Awaits) (hk : Kept s.Renewal s t)
    (hlsa : t.lsaOf .adj s.routerPrefix = s.lsaOf .adj s.routerPrefix)
    (hrt : t.routingTable = s.routingTable) : t.Awaits where
  clocked := hk.clocked
  idle := hk.sameTimes.idle.trans h.idle
  requested hflag := by
    rcases hk.requested hflag with hflag | hpending
    · exact hk.calculationPending (h.requested hflag)
    · exact hpending
  renewed := h.renewed.kept h.clocked hk hlsa hrt

/-! ### Firings -/

theorem mem_fired {f e : ScheduledEvent} (hf : f ∈ s.scheduler.events)
    (he : e ∈ s.scheduler.events) (hne : e ≠ f) :
    e ∈ (s.cancelEvent (some f.id)).scheduler.events :=
  mem_cancelEvent.2 ⟨he, fun hid =>
    hne (KeyedList.eq_of_key_eq he hf (Option.some.inj hid).symm)⟩

/-- When something else than a calculation fires a pending calculation stays pending. -/
theorem mem_fired_of_calculate {f e : ScheduledEvent} (hf : f ∈ s.scheduler.events)
    (haction : f.action ≠ .calculate) (he : e ∈ s.scheduler.events)
    (hcalculate : e.action = .calculate) :
    e ∈ (s.cancelEvent (some f.id)).scheduler.events :=
  mem_fired hf he fun heq => haction (heq ▸ hcalculate)

theorem Awaits.fired (h : s.Awaits) {f : ScheduledEvent} (hf : f ∈ s.scheduler.events)
    (haction : f.action ≠ .calculate) (hk : Kept keeps (s.cancelEvent (some f.id)) t)
    (hrenewed : t.Renewed) : t.Awaits where
  clocked := hk.clocked
  idle := hk.sameTimes.idle.trans h.idle
  requested hflag := by
    rcases hk.requested hflag with hflag | hpending
    · obtain ⟨c, hc, hcalculate⟩ := h.requested hflag
      exact hk.calculationPending ⟨c, mem_fired_of_calculate hf haction hc hcalculate, hcalculate⟩
    · exact hpending
  renewed := hrenewed

/-- **A firing that requests a calculation** leaves a renewal in time. -/
theorem RenewalInv.fired_of_requested (h : RenewalInv since s) {f : ScheduledEvent}
    (hf : f ∈ s.scheduler.events) (haction : f.action ≠ .calculate)
    (hk : Kept keeps (s.cancelEvent (some f.id)) t)
    (hflag : t.isRouteCalculationScheduled = true) : t.Awaits := by
  have hpending : t.CalculationPending := by
    rcases hk.requested hflag with hflag | hpending
    · obtain ⟨c, hc, hcalculate⟩ := h.requested hflag
      exact hk.calculationPending ⟨c, mem_fired_of_calculate hf haction hc hcalculate, hcalculate⟩
    · exact hpending
  refine h.toAwaits.fired hf haction hk (Or.inr ?_)
  obtain ⟨d, hout, hlt, hdue⟩ := h.renewed.exists_deadline h.clocked h.agree
  have hout' : t.Outlasts d := hk.outlasts hout hlt
  rcases hdue with ⟨c, hc, hcalculate, rfl⟩ | hle
  · exact inTime_of_calculation (hk.events c (mem_fired_of_calculate hf haction hc hcalculate)
      (Or.inl hcalculate)) hcalculate le_rfl hout'
  · obtain ⟨c, hc, hcalculate⟩ := hpending
    refine inTime_of_calculation hc hcalculate ?_ hout'
    have hdue := hk.clocked.calculate_le hc hcalculate
    rw [hk.sameTimes.now, hk.sameTimes.calculationDelay] at hdue
    exact hdue.trans hle

/-- What must be in time when an event fires that renews nothing. -/
structure KeepsRenewal (s : Nlsr) (id : Nat) : Prop where
  /-- A calculation is declined. -/
  declined : s.pendingAction id = some .calculate → s.ownAdjLsaExists = true →
    s.isBuildAdjLsaSheduled = true → (s.cancelEvent (some id)).Renewed
  /-- A build is put off. -/
  putOff : s.pendingAction id = some .buildAdjLsa →
    ¬ s.adjacencyList.isAdjLsaBuildable s.confParam.interestRetryNumber = true →
      (s.cancelEvent (some id)).Renewed ∨ s.Outlasts (s.now + s.putOffDelay + s.calculationDelay)
  /-- A build has nothing to do. -/
  notCounted : s.pendingAction id = some .buildAdjLsa →
    s.adjacencyList.isAdjLsaBuildable s.confParam.interestRetryNumber = true →
      ¬ narrowToInt s.adjBuildCount > 0 → (s.cancelEvent (some id)).Renewed
  /-- A build finds the adjacents unchanged. -/
  unchanged : s.pendingAction id = some .buildAdjLsa →
    s.adjacencyList.isAdjLsaBuildable s.confParam.interestRetryNumber = true →
      narrowToInt s.adjBuildCount > 0 → s.adjacencyList.getNumOfActiveNeighbor > 0 →
        ¬ s.NewContent s.ownAdjLsa →
          (∃ e ∈ s.scheduler.events, e.action = .calculate ∧ s.Outlasts e.due) ∨
            s.Outlasts (s.now + s.refreshDelay + s.calculationDelay)

/-- No number of the own Adjacency LSA is lost in an `int`. -/
structure SmallNumbers (s : Nlsr) : Prop where
  stored : ∀ l ∈ s.lsaOf .adj s.routerPrefix, l.lsSeqNo.toNat < 2 ^ 31
  next : s.ownAdjLsa.lsSeqNo.toNat < 2 ^ 31

theorem pendingAction_of_mem {f : ScheduledEvent} (hf : f ∈ s.scheduler.events) :
    s.pendingAction f.id = some f.action := by
  rw [pendingAction, KeyedList.find?_of_mem hf]
  rfl

theorem ownAdjLsaExists_eq (s : Nlsr) :
    s.ownAdjLsaExists = (s.lsaOf .adj s.routerPrefix).isSome :=
  (Option.isSome_map ..).symm

/-- A pending event of the own Adjacency LSA is a renewal, in time for entries that are not
updated later than now. -/
theorem Timed.inTime (ht : Timed Every since s) (hs : s.Clocked) {l : AnyLsa}
    (hl : s.lsaOf .adj s.routerPrefix = some l) (hlt : l.lsSeqNo.toNat < 2 ^ 31)
    (hout : s.Outlasts (s.now + s.refreshDelay + s.calculationDelay)) : s.InTime := by
  obtain ⟨e, he, haction, -⟩ := ht.armed .adj s.routerPrefix l trivial hl hlt
  have hr : s.Renewal e.action := by
    refine Or.inr (Or.inr ?_)
    rw [hl, haction, expiry, expirationSeqNo_of_lt hlt]
    rfl
  have hne : e.action ≠ .calculate := by
    rw [haction]
    exact Action.noConfusion
  refine ⟨e, he, hr, hout.mono ?_⟩
  rw [renewedBy, if_neg hne]
  have hdue := hs.due_le he hr hne
  linarith

/-- **A calculation fires**: it renews every FIB entry, unless it is declined. -/
theorem RenewalInv.calculate (math : MathLib) (h : RenewalInv since s) (hsmall : s.SmallNumbers)
    {f : ScheduledEvent} (hf : f ∈ s.scheduler.events) (haction : f.action = .calculate)
    (hkeeps : s.KeepsRenewal f.id) : (s.step math (.fire f.id)).Awaits := by
  have htimed := keepsTimed_step math h.timed (.fire f.id)
  rw [step_fire hf, haction] at htimed ⊢
  let s₁ := s.cancelEvent (some f.id)
  change KeepsTimed since s (s₁.calculate math) at htimed
  show (s₁.calculate math).Awaits
  have hs₁ : s₁.Clocked := h.clocked.cancelEvent _
  by_cases hdeclined : s.ownAdjLsaExists = true ∧ s.isBuildAdjLsaSheduled = true
  · have hrenewed := hkeeps.declined (haction ▸ pendingAction_of_mem hf) hdeclined.1 hdeclined.2
    rw [calculate_of_declined (s := s₁) h.idle hdeclined.1 hdeclined.2]
    refine ⟨{ hs₁ with }, rfl, ?_, hrenewed.imp (fun hb => ⟨hb.lsa, hb.rTable⟩) id⟩
    rintro ⟨⟩
  · have hcan : s₁.CanCalculate :=
      ⟨h.idle, fun hown => Bool.eq_false_iff.2 fun hbuild => hdeclined ⟨hown, hbuild⟩⟩
    have hfollows : ∀ n, s₁.FibFollows n := fun n => (h.agree.follows n).congr rfl rfl rfl
    obtain ⟨hclocked, hnow, hlife, hentries⟩ := clocked_calculate math hs₁ hcan hfollows
      (entriesHaveOrigins_congr rfl h.origins)
    have hlsa : (s₁.calculate math).lsaOf = s.lsaOf := lsaOf_calculate math s₁
    have hrp : (s₁.calculate math).routerPrefix = s.routerPrefix := by
      have honly := onlyRouting_calculate math s₁
      rw [OnlyRouting] at honly
      rw [honly]
      rfl
    have hflags : (s₁.calculate math).isRoutingTableCalculating = false ∧
        (s₁.calculate math).isRouteCalculationScheduled = false := by
      rw [calculate_of_canCalculate hcan]
      exact ⟨rfl, rfl⟩
    refine ⟨hclocked, hflags.1, fun hflag => ?_, ?_⟩
    · exact absurd (hflags.2.symm.trans hflag) Bool.false_ne_true
    cases hown : s.lsaOf .adj s.routerPrefix with
    | none =>
      have hnone : ¬ s₁.ownAdjLsaExists = true := by
        rw [ownAdjLsaExists_eq, show s₁.lsaOf .adj s₁.routerPrefix = none from hown]
        exact Bool.false_ne_true
      refine Or.inl ⟨by rw [hrp, hlsa, hown], ?_⟩
      rw [rTable_calculate hcan h.clocked.accepted.hyperbolicState, currentTable, if_neg hnone]
    | some l =>
      refine Or.inr (htimed.inTime hclocked (by rw [hrp, hlsa, hown]) (hsmall.stored l hown) ?_)
      intro entry hentry
      have hlt := hclocked.lt_fibLifetime
      rw [hentries entry hentry, ← hlife, show s₁.now = _ from hnow.symm]
      linarith

/-- A build that installs the own LSA, or removes it, keeps nothing but calculations. -/
theorem kept_buildAdjLsa (h : Timed Every since s) (hs : s.Clocked)
    (hbuildable : s.adjacencyList.isAdjLsaBuildable s.confParam.interestRetryNumber = true)
    (hcount : narrowToInt s.adjBuildCount > 0) : Kept (fun _ => False) s s.buildAdjLsa := by
  have hspares : SparesFib fun _ => False := fun _ _ => id
  have hclosed := lsdbClosed_punctual hspares
  have hset : ∀ (t : Nlsr) count, Punctual (fun _ => False) t { t with adjBuildCount := count } :=
    fun t _ => punctual_of_eq _ ⟨rfl, rfl, rfl, rfl, rfl, rfl, rfl⟩ rfl rfl rfl
  let u : Nlsr := { s with isBuildAdjLsaSheduled := false }
  have hsu : Punctual (fun _ => False) s u :=
    punctual_of_eq _ ⟨rfl, rfl, rfl, rfl, rfl, rfl, rfl⟩ rfl rfl rfl
  by_cases hactive : s.adjacencyList.getNumOfActiveNeighbor > 0
  · rw [buildAdjLsa_of_active hbuildable hcount hactive]
    have hu : Timed Every since u := ⟨h.thisRouterPrefix, h.lsaRefreshTime, h.fibIds, h.scheduled,
      h.owned, h.armed⟩
    exact ((hsu.trans (hclosed.buildAndInstallOwnAdjLsa hu fun _ => id)).trans (hset _ _)) hs
  · rw [buildAdjLsa_of_no_active hbuildable hcount hactive]
    exact (((hsu.trans (hclosed.removeLsa u .adj _)).trans
      (punctual_scheduleRoutingTableCalculation _ _)).trans (hset _ _)) hs

/-- A build with an ACTIVE neighbour leaves an own LSA with its new number or its old one. -/
theorem lsaOf_own_buildAdjLsa (hsmall : s.SmallNumbers)
    (hbuildable : s.adjacencyList.isAdjLsaBuildable s.confParam.interestRetryNumber = true)
    (hcount : narrowToInt s.adjBuildCount > 0)
    (hactive : s.adjacencyList.getNumOfActiveNeighbor > 0) :
    ∃ l, s.buildAdjLsa.lsaOf .adj s.routerPrefix = some l ∧ l.lsSeqNo.toNat < 2 ^ 31 := by
  let u : Nlsr := ({ s with
    isBuildAdjLsaSheduled := false
    sequencingManager := s.sequencingManager.increaseAdjLsaSeq } : Nlsr).publishRoutingUpdate
  have horig : s.routerPrefix = (AnyLsa.adj s.ownAdjLsa).origRouter := by
    rw [ownAdjLsa, AdjLsa.make_eq]
    rfl
  obtain ⟨eid, hinst⟩ := lsaOf_install u (.adj s.ownAdjLsa)
  have hl := hinst .adj s.routerPrefix
  rw [if_pos ⟨rfl, horig⟩] at hl
  rw [buildAdjLsa_of_active hbuildable hcount hactive]
  refine ⟨_, hl, ?_⟩
  have hstored := hsmall.stored
  rw [show u.lsaOf .adj s.routerPrefix = s.lsaOf .adj s.routerPrefix from rfl]
  cases hchk : s.lsaOf .adj s.routerPrefix with
  | none => exact hsmall.next
  | some chk =>
    show (if chk.lsSeqNo.toNat < (AnyLsa.adj s.ownAdjLsa).lsSeqNo.toNat then
      chk.updated (.adj s.ownAdjLsa) eid else chk).lsSeqNo.toNat < _
    split_ifs
    · have hcounter : (AnyLsa.adj s.ownAdjLsa).counter = chk.counter := (counter_of_lsaOf hchk).symm
      rw [AnyLsa.lsSeqNo_updated hcounter]
      exact hsmall.next
    · exact hstored chk hchk

/-- **A build fires.** -/
theorem RenewalInv.buildAdjLsa (math : MathLib) (h : RenewalInv since s) (hsmall : s.SmallNumbers)
    {f : ScheduledEvent} (hf : f ∈ s.scheduler.events) (haction : f.action = .buildAdjLsa)
    (hkeeps : s.KeepsRenewal f.id) : (s.step math (.fire f.id)).Awaits := by
  have htimed := keepsTimed_step math h.timed (.fire f.id)
  rw [step_fire hf, haction] at htimed ⊢
  let s₁ := s.cancelEvent (some f.id)
  change KeepsTimed since s s₁.buildAdjLsa at htimed
  show s₁.buildAdjLsa.Awaits
  have hs₁ : s₁.Clocked := h.clocked.cancelEvent _
  have hfire : s.pendingAction f.id = some .buildAdjLsa := haction ▸ pendingAction_of_mem hf
  have hne : f.action ≠ .calculate := by
    rw [haction]
    exact Action.noConfusion
  by_cases hbuildable : s.adjacencyList.isAdjLsaBuildable s.confParam.interestRetryNumber = true
  · by_cases hcount : narrowToInt s.adjBuildCount > 0
    · have ht₁ : Timed Every since s₁ :=
        h.timed.aside (aside_fired hf (haction ▸ trivial)) fun _ _ => Or.inl rfl
      have hk := kept_buildAdjLsa ht₁ hs₁ hbuildable hcount
      by_cases hnew : s.adjacencyList.getNumOfActiveNeighbor > 0 → s.NewContent s.ownAdjLsa
      · exact h.fired_of_requested hf hne hk
          (isRouteCalculationScheduled_buildAdjLsa (s := s₁) hbuildable hcount hnew)
      · obtain ⟨hactive, hunchanged⟩ := Classical.not_imp.1 hnew
        refine h.toAwaits.fired hf hne hk (Or.inr ?_)
        rcases hkeeps.unchanged hfire hbuildable hcount hactive hunchanged with
          ⟨c, hc, hcalculate, hout⟩ | hout
        · have hlt : c.due < s.now + s.fibLifetime := by
            have hdue := h.clocked.calculate_le hc hcalculate
            have hlife := h.clocked.lt_fibLifetime
            have hdelay := s.refreshDelay_nonneg
            linarith
          exact inTime_of_calculation (hk.events c (mem_fired_of_calculate hf hne hc hcalculate)
            (Or.inl hcalculate)) hcalculate le_rfl (hk.outlasts hout hlt)
        · obtain ⟨l, hl, hlt⟩ :=
            lsaOf_own_buildAdjLsa (s := s₁) ⟨hsmall.stored, hsmall.next⟩ hbuildable hcount hactive
          have hlife := h.clocked.lt_fibLifetime
          refine htimed.inTime hk.clocked (hk.sameTimes.routerPrefix ▸ hl) hlt ?_
          rw [hk.sameTimes.now, hk.sameTimes.refreshDelay, hk.sameTimes.calculationDelay]
          refine hk.outlasts hout ?_
          show s.now + s.refreshDelay + s.calculationDelay < s.now + s.fibLifetime
          linarith
    · rw [buildAdjLsa_of_not_counted (s := s₁) hbuildable hcount]
      have hk : Punctual s₁.Renewal s₁ { s₁ with isBuildAdjLsaSheduled := false } :=
        punctual_of_eq _ ⟨rfl, rfl, rfl, rfl, rfl, rfl, rfl⟩ rfl rfl rfl
      exact h.toAwaits.fired hf hne (hk hs₁)
        ((hkeeps.notCounted hfire hbuildable hcount).kept hs₁ (hk hs₁) rfl rfl)
  · rw [buildAdjLsa_of_not_buildable (s := s₁) hbuildable]
    let u : Nlsr := { s₁ with isBuildAdjLsaSheduled := true }
    have hu : Punctual s₁.Renewal s₁ u :=
      punctual_of_eq _ ⟨rfl, rfl, rfl, rfl, rfl, rfl, rfl⟩ rfl rfl rfl
    have hputOff : Punctual s₁.Renewal u (u.scheduleEvent s.putOffDelay .buildAdjLsa).1 :=
      punctual_scheduleEvent s₁.Renewal (by rintro ⟨_, h⟩; cases h) fun _ _ =>
        h.clocked.putOffDelay_le
    have hk := (hu.trans hputOff) hs₁
    refine h.toAwaits.fired hf hne hk ?_
    rcases hkeeps.putOff hfire hbuildable with hrenewed | hout
    · exact hrenewed.kept hs₁ hk rfl rfl
    · refine Or.inr ⟨_, mem_scheduleEvent.2 (Or.inr rfl), Or.inr (Or.inl rfl), ?_⟩
      exact hout

/-- **The refresh of the own Adjacency LSA fires.** -/
theorem RenewalInv.refresh (math : MathLib) (h : RenewalInv since s) {f : ScheduledEvent}
    (hf : f ∈ s.scheduler.events) {chk : AnyLsa} (hchk : s.lsaOf .adj s.routerPrefix = some chk)
    (haction : f.action = lsaEvent .adj s.routerPrefix chk.lsSeqNo.toUInt64) :
    (s.step math (.fire f.id)).Awaits := by
  have hne : f.action ≠ .calculate := by
    rw [haction]
    exact Action.noConfusion
  rw [step_fire hf, haction]
  let s₁ := s.cancelEvent (some f.id)
  have hspares : SparesFib fun _ => False := fun _ _ => id
  have hclosed := lsdbClosed_punctual hspares
  have hk := hclosed.lsaEvent (s := s₁) math h.timed.thisRouterPrefix .adj s.routerPrefix
    chk.lsSeqNo.toUInt64 (h.clocked.cancelEvent _)
  refine h.fired_of_requested hf hne hk ?_
  rw [runAction_lsaEvent, show s₁.lsaOf .adj s.routerPrefix = some chk from hchk]
  dsimp only
  rw [if_pos rfl]
  split_ifs <;> exact isRouteCalculationScheduled_schedule _

/-! ### Other events -/

/-- A refresh of an own Adjacency LSA, and a calculation, is the work of a renewal. -/
theorem renewal_of_actionOp (hs : s.lsdb.thisRouterPrefix = s.routerPrefix) {action : Action}
    (hop : s.actionOp action = .calculate ∨ ∃ key, s.actionOp action = .refreshAdjLsa key) :
    s.Renewal action := by
  have hspec := s.actionOp_spec action
  rcases hop with hop | ⟨key, hop⟩
  · rw [hop] at hspec
    cases hspec
    exact Or.inl rfl
  · rw [hop] at hspec
    cases hspec with
    | @refreshAdjLsa _ _ chk hfind hseq horig =>
      have hkey : AdjLsa.key s.routerPrefix = key := by
        rw [← KeyedList.key_of_find? hfind, AdjLsa.getKey, horig, hs]
      have hlsa : s.lsaOf .adj s.routerPrefix = some (.adj chk) := by
        rw [lsaOf, hkey, hfind]
        rfl
      refine Or.inr (Or.inr ?_)
      rw [hlsa, ← hkey, ← hseq]
      rfl

/-- The event fires no renewal and no expiration of a FIB entry, and the clock stands. -/
structure Ordinary (s : Nlsr) (e : Event) : Prop where
  fires : ∀ f ∈ s.scheduler.events, e = .fire f.id →
    ¬ s.Renewal f.action ∧ ¬ ExpiresFibEntry f.action
  clock : ∀ now, e ≠ .clock now

theorem Ordinary.not_renewal {e : Event} (h : s.Ordinary e) {id : Nat} (he : e = .fire id)
    {action : Action} (hid : s.pendingAction id = some action) :
    ¬ s.Renewal action ∧ ¬ ExpiresFibEntry action := by
  obtain ⟨f, hf, rfl, rfl⟩ := exists_pending hid
  exact h.fires f hf he

theorem Ordinary.opOf {e : Event} (h : s.Ordinary e)
    (hs : s.lsdb.thisRouterPrefix = s.routerPrefix) :
    s.opOf e ≠ .calculate ∧ ∀ key, s.opOf e ≠ .refreshAdjLsa key := by
  suffices hnot : ¬ (s.opOf e = .calculate ∨ ∃ key, s.opOf e = .refreshAdjLsa key) from
    ⟨fun hop => hnot (Or.inl hop), fun key hop => hnot (Or.inr ⟨key, hop⟩)⟩
  intro hop
  cases e with
  | fire id =>
    simp only [Nlsr.opOf, fireOp] at hop
    cases hid : s.pendingAction id with
    | none => simp [hid] at hop
    | some action =>
      rw [hid] at hop
      exact (h.not_renewal rfl hid).1 (renewal_of_actionOp hs hop)
  | advertise name =>
    simp only [Nlsr.opOf, advertiseOp] at hop
    split_ifs at hop <;> simp at hop
  | withdraw name =>
    simp only [Nlsr.opOf, withdrawOp] at hop
    split_ifs at hop <;> simp at hop
  | _ => simp [Nlsr.opOf] at hop

theorem sparesFib_renewal (s : Nlsr) : SparesFib s.Renewal :=
  fun _ hexpires hrenewal => not_timer_of_expiresFibEntry hexpires hrenewal.timer

theorem kept_ordinary (math : MathLib) (h : RenewalInv since s) {e : Event} (he : s.Ordinary e)
    (hleaves : s.LeavesOwnAdj (s.opOf e)) : Kept s.Renewal s (s.step math e) := by
  have hclosed := lsdbClosed_punctual (sparesFib_renewal s)
  by_cases hfire : ∃ id, e = .fire id
  · obtain ⟨id, rfl⟩ := hfire
    cases hid : s.pendingAction id with
    | none =>
      have hstep : s.step math (.fire id) = s := by
        show s.fire math id = s
        rw [fire, hid]
      rw [hstep]
      exact Punctual.refl _ s h.clocked
    | some action =>
      obtain ⟨f, hf, rfl, rfl⟩ := exists_pending hid
      obtain ⟨hnot, hexpires⟩ := he.fires f hf rfl
      have hcancel : Punctual s.Renewal s (s.cancelEvent (some f.id)) := by
        refine punctual_cancelEvent (owns_fired hf) ?_
        rintro _ rfl
        exact ⟨fun hcalculate => hnot (Or.inl hcalculate), hnot⟩
      rw [step_fire hf]
      rcases h.timed.scheduled f hf with haside | ⟨c, o, n, haction⟩
      · -- The other actions are renewals, and the expirations of FIB entries
        generalize f.action = action at hnot hexpires haside
        cases action with
        | buildAdjLsa => exact absurd (Or.inr (Or.inl rfl)) hnot
        | calculate => exact absurd (Or.inl rfl) hnot
        | removeFibEntry name => exact absurd ⟨name, rfl⟩ hexpires
        | exprireOrRefreshNameLsa _ _ => exact haside.elim
        | exprireOrRefreshAdjLsa _ _ => exact haside.elim
        | exprireOrRefreshCoordinateLsa _ _ => exact haside.elim
      · rw [haction]
        have hevent := hclosed.lsaEvent (s := s.cancelEvent (some f.id)) math
          h.timed.thisRouterPrefix c o (expirationSeqNo n)
        exact (hcancel.trans hevent) h.clocked
  · refine hclosed.step (helloClosed_punctual s.Renewal) math h.timed
      (fun id heq => hfire ⟨id, heq⟩) he.clock ?_ h.clocked
    intro l hop n hrenewal
    obtain ⟨hc, ho⟩ := eq_of_timer_expiry hrenewal.timer
    rw [hop] at hleaves
    exact hleaves hc ho

/-- **An event that fires no renewal** leaves the renewals pending. -/
theorem RenewalInv.ordinary (math : MathLib) (h : RenewalInv since s) {e : Event}
    (hown : s.KeepsOwnAdj e) (he : s.Ordinary e) : (s.step math e).Awaits := by
  have hs := h.timed.thisRouterPrefix
  have hleaves : s.LeavesOwnAdj (s.opOf e) := leavesOwnAdj_opOf hs hown fun id hid hbuild =>
    (he.not_renewal hid hbuild).1 (Or.inr (Or.inl rfl))
  obtain ⟨hcalculate, hrefresh⟩ := he.opOf hs
  have hexpires := opOf_ne_fibRemove (s := s) (e := e) fun ⟨id, name, hid, hname⟩ =>
    (he.not_renewal hid hname).2 ⟨name, rfl⟩
  obtain ⟨s₁, h₁, h₂⟩ := step_spec math s e
  have hleaves₁ : s₁.LeavesOwnAdj (s.opOf e) := by
    unfold LeavesOwnAdj at hleaves ⊢
    rwa [h₁.routerPrefix]
  refine h.toAwaits.kept (kept_ordinary math h he hleaves) ?_ ?_
  · rw [h₂.lsaOf, ← h₁.routerPrefix, lsaOf_own_apply math hleaves₁ hrefresh, h₁.lsaOf]
  · obtain ⟨_, _, hedits⟩ := exists_edits_apply math s₁ hcalculate hexpires
    rw [h₂.routingTable, hedits.routingTable, h₁.routingTable]

/-- Time passes, up to the next event. -/
theorem RenewalInv.clock (h : RenewalInv since s) {now : TimePoint} (hle : s.now ≤ now)
    (hdue : ∀ e ∈ s.scheduler.events, now ≤ e.due) : Awaits { s with now } where
  clocked := { h.clocked with
    onTime := fun e he htimer =>
      ⟨hdue e he, (h.clocked.onTime e he htimer).2.trans (add_le_add_left hle _)⟩ }
  idle := h.idle
  requested := h.requested
  renewed := h.renewed.imp (fun hbare => ⟨hbare.lsa, hbare.rTable⟩) id

/-- **No FIB entry is due to expire.** -/
theorem RenewalInv.lt_due (h : RenewalInv since s) {e : ScheduledEvent}
    (he : e ∈ s.scheduler.events) {name : Name} (haction : e.action = .removeFibEntry name) :
    s.now < e.due := by
  obtain ⟨entry, hentry, -, hexp⟩ := h.clocked.fibEvents e he name haction
  rw [← hexp]
  rcases h.renewed with hbare | ⟨r, hr, hrenewal, hout⟩
  · exact absurd hentry (hbare.not_mem h.agree entry)
  · refine lt_of_le_of_lt ?_ (hout entry hentry)
    have hdue := (h.clocked.onTime r hr hrenewal.timer).1
    have hdelay := s.calculationDelay_nonneg
    unfold renewedBy
    split_ifs
    · exact hdue
    · linarith

end awaiting

/-! ## Every timed run -/

/-- Events fire when they are due, and time passes up to the next due event only. -/
def OnTime (s : Nlsr) : Event → Prop
  | .fire id => ∀ e ∈ s.scheduler.events, e.id = id → e.due ≤ s.now
  | .clock now => s.now ≤ now ∧ ∀ e ∈ s.scheduler.events, now ≤ e.due
  | _ => True

/-- An event of a timed run. The own Adjacency LSA is not touched from outside. -/
def Timely (s : Nlsr) (e : Event) : Prop := s.OnTime e ∧ s.KeepsOwnAdj e

/-- A renewal is in time after the event. -/
def KeepsRenewals (s : Nlsr) : Event → Prop
  | .fire id => s.KeepsRenewal id
  | _ => True

/-- The entry of the name prefix table has a next hop. -/
def hasNextHop (s : Nlsr) (name : Name) : Bool :=
  match s.namePrefixTable.find? name with
  | some entry => entry.nexthopList.size ≠ 0
  | none => false

/-- No expiration of a FIB entry is due whose name has a next hop. -/
def RoutesStay (s : Nlsr) : Prop :=
  ∀ e ∈ s.scheduler.events, ∀ name, e.action = .removeFibEntry name →
    s.hasNextHop name = true → s.now < e.due

section runs

variable {since : Counter → Name → TimePoint} {s : Nlsr}

theorem entriesHaveOrigins_step (math : MathLib) (hs : s.EntriesHaveOrigins) {e : Event}
    (he : ¬ s.FibExpires e) : (s.step math e).EntriesHaveOrigins := by
  obtain ⟨s₁, h₁, h₂⟩ := step_spec math s e
  refine entriesHaveOrigins_congr h₂.namePrefixTable ?_
  have hs₁ : s₁.EntriesHaveOrigins := entriesHaveOrigins_congr h₁.namePrefixTable hs
  by_cases hcalculate : s.opOf e = .calculate
  · rw [hcalculate]
    rcases namePrefixTable_calculate math s₁ with heq | ⟨s', heq, hupdate⟩
    · exact entriesHaveOrigins_congr heq hs₁
    · refine entriesHaveOrigins_congr hupdate ?_
      rw [updateWithNewRoute_eq]
      exact entriesHaveOrigins_addEntries (entriesHaveOrigins_congr heq hs₁) _
  · obtain ⟨_, _, hedits⟩ := exists_edits_apply math s₁ hcalculate (opOf_ne_fibRemove he)
    exact hedits.entriesHaveOrigins hs₁

theorem RenewalInv.of_awaits (math : MathLib) (h : RenewalInv since s) {e : Event}
    (he : ¬ s.FibExpires e) (ht : (s.step math e).Awaits) :
    RenewalInv (sinceAfter since s (s.step math e)) (s.step math e) where
  toAwaits := ht
  timed := keepsTimed_step math h.timed e
  agree := tablesAgree_step math s e h.agree he
  origins := entriesHaveOrigins_step math h.origins he

/-- **A timely event keeps the invariant**, if a renewal is in time after it. -/
theorem renewalInv_step (math : MathLib) (h : RenewalInv since s) {e : Event} (he : s.Timely e)
    (hsmall : s.SmallNumbers) (hkeeps : s.KeepsRenewals e) :
    RenewalInv (sinceAfter since s (s.step math e)) (s.step math e) := by
  have hnot : ∀ f ∈ s.scheduler.events, e = .fire f.id → ¬ ExpiresFibEntry f.action := by
    rintro f hf rfl ⟨name, haction⟩
    exact absurd (he.1 f hf rfl) (not_le.2 (h.lt_due hf haction))
  have hexpires : ¬ s.FibExpires e := by
    rintro ⟨id, name, rfl, hname⟩
    obtain ⟨f, hf, rfl, haction⟩ := exists_pending hname
    exact hnot f hf rfl ⟨name, haction⟩
  refine h.of_awaits math hexpires ?_
  by_cases hrenewal : ∃ f ∈ s.scheduler.events, e = .fire f.id ∧ s.Renewal f.action
  · obtain ⟨f, hf, rfl, haction | haction | haction⟩ := hrenewal
    · exact h.calculate math hsmall hf haction hkeeps
    · exact h.buildAdjLsa math hsmall hf haction hkeeps
    · obtain ⟨chk, hchk, haction⟩ := Option.map_eq_some_iff.1 haction
      exact h.refresh math hf hchk haction.symm
  · by_cases hclock : ∃ now, e = .clock now
    · obtain ⟨now, rfl⟩ := hclock
      exact h.clock he.1.1 he.1.2
    · exact h.ordinary math he.2 ⟨fun f hf heq => ⟨fun hr => hrenewal ⟨f, hf, heq, hr⟩,
        hnot f hf heq⟩, fun now heq => hclock ⟨now, heq⟩⟩

/-- The FIB is told twice the refresh time. -/
theorem toInt_refreshTime {r : UInt32} (h : r.toNat ≤ 7200) :
    (2 * r).toInt32.toInt = 2 * r.toNat := by
  have htwo : (2 * r).toNat = 2 * r.toNat := by
    rw [UInt32.toNat_mul]
    exact Nat.mod_eq_of_lt (by simp; omega)
  show (2 * r).toBitVec.toInt = _
  rw [BitVec.toInt_eq_toNat_of_lt]
  · exact_mod_cast htwo
  · show 2 * (2 * r).toNat < _
    omega

theorem clocked_initiated {confParam : ConfParameter} (h : confParam.Accepted)
    (adjacencyList : AdjacencyList) (namePrefixList : NamePrefixList) (seqFile : Option UInt64)
    (now : TimePoint) :
    (initiated confParam adjacencyList namePrefixList seqFile now).Clocked where
  accepted := h
  lsaRefreshTime := rfl
  adjLsaBuildInterval := rfl
  refreshTime := toInt_refreshTime h.lsaRefreshTime.2
  routingCalcInterval := rfl
  fibIds entry hentry := absurd hentry (KeyedList.not_mem_empty entry)
  fibEvents e he := absurd he (KeyedList.not_mem_empty e)
  onTime e he := absurd he (KeyedList.not_mem_empty e)

theorem renewalInv_initiated {confParam : ConfParameter} (h : confParam.Accepted)
    (adjacencyList : AdjacencyList) (namePrefixList : NamePrefixList) (seqFile : Option UInt64)
    (now : TimePoint) :
    RenewalInv (fun _ _ => now)
      (initiated confParam adjacencyList namePrefixList seqFile now) where
  clocked := clocked_initiated h adjacencyList namePrefixList seqFile now
  idle := rfl
  requested := nofun
  renewed := Or.inl ⟨rfl, rfl⟩
  timed := timed_of_blank (fun c o => by cases c <;> rfl) rfl rfl rfl rfl _
  agree := tablesAgree_of_blank ⟨rfl, rfl, rfl, rfl, rfl, rfl⟩
  origins _ hname := absurd hname Bool.false_ne_true

theorem renewalInv_setAdjacencyList (h : RenewalInv since s) (l : AdjacencyList) :
    RenewalInv since (s.setAdjacencyList l) where
  toAwaits := h.toAwaits.kept (punctual_setAdjacencyList _ s l h.clocked) rfl rfl
  timed := h.timed.aside (aside_setAdjacencyList s l) fun _ _ => Or.inl rfl
  agree := (onlyHello_setAdjacencyList s l).quiet.sameTables.tablesAgree h.agree
  origins := h.origins

theorem renewalInv_initializeNlsr (math : MathLib) {confParam : ConfParameter}
    (h : confParam.Accepted) (adjacencyList : AdjacencyList) (namePrefixList : NamePrefixList)
    (seqFile : Option UInt64) (now : TimePoint) :
    ∃ since, RenewalInv since
      (start confParam adjacencyList namePrefixList seqFile now).initializeNlsr := by
  have hstep : ∀ s e, (∀ id, e ≠ .fire id) → (∀ now, e ≠ .clock now) → s.KeepsOwnAdj e →
      (∃ since, RenewalInv since s) → ∃ since, RenewalInv since (s.step math e) := by
    rintro s e hfire hclock hown ⟨since, hs⟩
    refine ⟨_, hs.of_awaits math (fun ⟨id, _, heq, _⟩ => hfire id heq) ?_⟩
    exact hs.ordinary math hown ⟨fun f _ heq => absurd heq (hfire f.id), hclock⟩
  refine initializeNlsr_of_step (P := fun s => ∃ since, RenewalInv since s) math
    (fun s => hstep s _ nofun nofun ⟨trivial, nofun⟩)
    (fun s => hstep s _ nofun nofun ⟨trivial, nofun⟩) ?_ ?_
  · rintro s ⟨since, hs⟩
    exact ⟨since, renewalInv_setAdjacencyList hs _⟩
  · exact ⟨_, renewalInv_initiated h adjacencyList namePrefixList seqFile now⟩

end runs

/-- **A valid route never times out of the FIB**, as long as a renewal is in time after every
calculation that is declined, every build that is put off and every build that changes nothing. -/
theorem valid_routes_stay (math : MathLib) {confParam : ConfParameter}
    (hconf : confParam.Accepted) (adjacencyList : AdjacencyList)
    (namePrefixList : NamePrefixList) (seqFile : Option UInt64) (now : TimePoint)
    (es : List Event)
    (hes : Meets (step math) (fun s e => s.Timely e ∧ s.SmallNumbers ∧ s.KeepsRenewals e)
      (start confParam adjacencyList namePrefixList seqFile now).initializeNlsr es) :
    Along (step math) RoutesStay
      (start confParam adjacencyList namePrefixList seqFile now).initializeNlsr es := by
  let P : Nlsr → Prop := fun s => ∃ since, RenewalInv since s
  have hstep : ∀ s e, P s → s.Timely e ∧ s.SmallNumbers ∧ s.KeepsRenewals e →
      P (s.step math e) := by
    rintro s e ⟨since, hs⟩ ⟨he, hsmall, hkeeps⟩
    exact ⟨_, renewalInv_step math hs he hsmall hkeeps⟩
  have hfirst : P (start confParam adjacencyList namePrefixList seqFile now).initializeNlsr :=
    renewalInv_initializeNlsr math hconf adjacencyList namePrefixList seqFile now
  refine (along_of_meets hstep hfirst hes).imp ?_
  rintro s ⟨since, hs⟩ e he name haction -
  exact hs.lt_due he haction

/-! ### Two runs -/

instance (s : Nlsr) (action : Action) : Decidable (s.Renewal action) :=
  inferInstanceAs (Decidable (_ ∨ _ ∨ _))

instance (s : Nlsr) (d : TimePoint) : Decidable (s.Outlasts d) :=
  inferInstanceAs (Decidable (∀ entry ∈ s.fib.table, d < entry.expirationTimePoint))

instance (s : Nlsr) : Decidable s.InTime :=
  inferInstanceAs (Decidable (∃ e ∈ s.scheduler.events,
    s.Renewal e.action ∧ s.Outlasts (s.renewedBy e)))

instance (s : Nlsr) : Decidable s.Bare :=
  decidable_of_iff (s.ownAdjLsaExists = false ∧ s.routingTable.rTable = KeyedList.empty) (by
    rw [ownAdjLsaExists_eq, Option.isSome_eq_false_iff, Option.isNone_iff_eq_none]
    exact ⟨fun h => ⟨h.1, h.2⟩, fun h => ⟨h.lsa, h.rTable⟩⟩)

instance (s : Nlsr) : Decidable s.Renewed := inferInstanceAs (Decidable (_ ∨ _))

set_option synthInstance.maxSize 1000 in
instance (s : Nlsr) (id : Nat) : Decidable (s.KeepsRenewal id) :=
  decidable_of_iff (_ ∧ _ ∧ _ ∧ _)
    ⟨fun h => ⟨h.1, h.2.1, h.2.2.1, h.2.2.2⟩,
      fun h => ⟨h.declined, h.putOff, h.notCounted, h.unchanged⟩⟩

instance (s : Nlsr) : ∀ e, Decidable (s.KeepsRenewals e)
  | .fire id => inferInstanceAs (Decidable (s.KeepsRenewal id))
  | .installNameLsa _ | .installAdjLsa _ | .installCoordinateLsa _ | .removeNameLsa _
  | .removeAdjLsa _ | .removeCoordinateLsa _ | .buildAndInstallOwnNameLsa
  | .buildAndInstallOwnCoordinateLsa | .publishRoutingUpdate | .scheduleAdjLsaBuild
  | .helloTimedOut _ | .helloValidated _ | .registrationSuccess _ _ | .registrationFailure _
  | .faceDestroyed _ | .advertise _ | .withdraw _ | .clock _ => inferInstanceAs (Decidable True)

instance (s : Nlsr) : Decidable s.SmallNumbers :=
  decidable_of_iff (_ ∧ _) ⟨fun h => ⟨h.1, h.2⟩, fun h => ⟨h.stored, h.next⟩⟩

instance (s : Nlsr) : ∀ e, Decidable (s.OnTime e)
  | .fire id => inferInstanceAs (Decidable (∀ e ∈ s.scheduler.events, e.id = id → e.due ≤ s.now))
  | .clock now =>
    inferInstanceAs (Decidable (s.now ≤ now ∧ ∀ e ∈ s.scheduler.events, now ≤ e.due))
  | .installNameLsa _ | .installAdjLsa _ | .installCoordinateLsa _ | .removeNameLsa _
  | .removeAdjLsa _ | .removeCoordinateLsa _ | .buildAndInstallOwnNameLsa
  | .buildAndInstallOwnCoordinateLsa | .publishRoutingUpdate | .scheduleAdjLsaBuild
  | .helloTimedOut _ | .helloValidated _ | .registrationSuccess _ _ | .registrationFailure _
  | .faceDestroyed _ | .advertise _ | .withdraw _ => inferInstanceAs (Decidable True)

instance (s : Nlsr) : ∀ e, Decidable (s.KeepsOwnAdj e)
  | .removeAdjLsa key => decidable_of_iff (key ≠ AdjLsa.key s.routerPrefix)
      ⟨fun h => ⟨trivial, fun heq => h (Event.removeAdjLsa.inj heq)⟩,
        fun h heq => h.2 (congrArg _ heq)⟩
  | .installNameLsa _ | .installAdjLsa _ | .installCoordinateLsa _ | .removeNameLsa _
  | .removeCoordinateLsa _ | .fire _ | .buildAndInstallOwnNameLsa
  | .buildAndInstallOwnCoordinateLsa | .publishRoutingUpdate | .scheduleAdjLsaBuild
  | .helloTimedOut _ | .helloValidated _ | .registrationSuccess _ _ | .registrationFailure _
  | .faceDestroyed _ | .advertise _ | .withdraw _ | .clock _ =>
    decidable_of_iff (s.ArrivesForeign _) ⟨fun h => ⟨h, nofun⟩, And.left⟩

instance (s : Nlsr) (e : Event) : Decidable (s.Timely e) := inferInstanceAs (Decidable (_ ∧ _))

/-- Router `/a` with the shortest refresh time. -/
def shortRefresh : ConfParameter :=
  { network := [⟨"a"⟩], lsaRefreshTime := 240, interestRetryNumber := 1 }

theorem accepted_shortRefresh : shortRefresh.Accepted where
  hyperbolicState := rfl
  lsaRefreshTime := by decide
  routingCalcInterval := by decide
  adjLsaBuildInterval := by decide
  interestRetryNumber := by decide
  interestResendTime := by decide

def silentNeighbor : AdjacencyList :=
  KeyedList.empty.insert { name := [⟨"b"⟩], connectingFaceUri := "udp4://b" }

/-- Neighbour `/b` answers and sends its Adjacency LSA; the route to it is in the FIB. -/
def comingUp : List Event :=
  [.helloValidated (helloReply "b"), .installAdjLsa (linkTo [⟨"b"⟩] [⟨"a"⟩]),
    .clock (seconds 5), .fire 2, .clock (seconds 15), .fire 3]

/-- The neighbour is lost and comes back before the build. -/
def blink (down : Int) : List Event :=
  [.clock (seconds down), .helloTimedOut (helloInterest "b"),
    .clock (seconds (down + 2)), .helloValidated (helloReply "b"),
    .clock (seconds (down + 5)), .fire 7]

/-- The neighbour blinks early: the refresh of the own LSA is postponed, and still renews the
route. -/
def blinksEarly : List Event :=
  comingUp ++ blink 100 ++ [.clock (seconds 250), .fire 0, .fire 1, .clock (seconds 255), .fire 5,
    .clock (seconds 355), .fire 8, .clock (seconds 370), .fire 12, .clock (seconds 500)]

theorem valid_routes_stay_blinksEarly :
    let s := run (step ⟨0, id, id, id, id⟩)
      (start shortRefresh silentNeighbor KeyedList.empty none 0).initializeNlsr blinksEarly
    s.now = seconds 500 ∧ s.RoutesStay ∧
      ∃ e ∈ s.scheduler.events, e.action = .removeFibEntry [⟨"b"⟩] ∧ e.due = seconds 850 := by
  refine ⟨by decide +kernel, ?_, by decide +kernel⟩
  exact (valid_routes_stay ⟨0, id, id, id, id⟩ accepted_shortRefresh silentNeighbor
    KeyedList.empty none 0 blinksEarly (by decide +kernel)).last

/-- The neighbour blinks shortly before the refresh of the own LSA is due. -/
def blinksLate : List Event :=
  comingUp ++ [.clock (seconds 246), .helloTimedOut (helloInterest "b"),
    .clock (seconds 248), .helloValidated (helloReply "b"), .clock (seconds 250), .fire 0, .fire 1,
    .clock (seconds 251), .fire 7, .clock (seconds 255), .fire 5, .clock (seconds 495)]

/-- The build at 251 s finds nothing changed and postpones the refresh to 501 s, and the valid
route times out at 495 s. -/
theorem not_valid_routes_stay :
    let s₀ := (start shortRefresh silentNeighbor KeyedList.empty none 0).initializeNlsr
    shortRefresh.Accepted ∧ Meets (step ⟨0, id, id, id, id⟩) Timely s₀ blinksLate ∧
      ¬ RoutesStay (run (step ⟨0, id, id, id, id⟩) s₀ blinksLate) := by
  intro s₀
  refine ⟨accepted_shortRefresh, by decide +kernel, fun h => ?_⟩
  have hdue : ∃ e ∈ (run (step ⟨0, id, id, id, id⟩) s₀ blinksLate).scheduler.events,
      e.action = .removeFibEntry [⟨"b"⟩] ∧ e.due = seconds 495 := by decide +kernel
  have hroute : (run (step ⟨0, id, id, id, id⟩) s₀ blinksLate).hasNextHop [⟨"b"⟩] = true := by
    decide +kernel
  obtain ⟨e, he, haction, hdue⟩ := hdue
  have hlt := h e he _ haction hroute
  rw [hdue] at hlt
  exact absurd hlt (by decide +kernel)

end Nlsr

end LinkState
