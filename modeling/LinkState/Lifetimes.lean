import LinkState.Expirations
import Mathlib.Data.UInt

/-!
# The lifetime of a stored LSA

An LSA gets its number by an install or a refresh. The event armed then is due after the refresh
time for an own LSA, and for another when the LSA expires; when it fires it refreshes the one and
removes the other. Events of earlier numbers find a newer one and do nothing.

* `Aged` is a router with a note, for each LSA, of the time at which it got its number.
* `Timed` is the invariant. What is in the way is that an id can be cancelled: an LSA owns the id
  it keeps, so an update cancels no event but its own.
* An event whose number is not below `2 ^ 31` is met by no stored number, its own included.
-/

namespace LinkState

open SequencingManager

namespace Nlsr

open Scheduler

/-! ## The invariant -/

/-- When the event of an LSA is due that got its number at a time. -/
def dueSince (s : Nlsr) (since : TimePoint) (l : AnyLsa) : TimePoint :=
  since + ((if l.origRouter ≠ s.routerPrefix then
    seconds (toSeconds (l.toLsa.expirationTimePoint - since))
    else seconds s.confParam.lsaRefreshTime.toNat) + Lsdb.gracePeriod)

/-- The event of a stored LSA is pending. -/
def Armed (s : Nlsr) (c : Counter) (o : Name) (since : TimePoint) (l : AnyLsa) : Prop :=
  ∃ e ∈ s.scheduler.events, e.action = expiry c o l.lsSeqNo ∧ e.due = s.dueSince since l

/-- The events of LSAs are as they are scheduled, each LSA owns the id it keeps, and the events of
the LSAs in `who` are pending. -/
structure Timed (who : Counter → Name → Prop) (since : Counter → Name → TimePoint) (s : Nlsr) :
    Prop where
  thisRouterPrefix : s.lsdb.thisRouterPrefix = s.routerPrefix
  lsaRefreshTime : s.lsdb.lsaRefreshTime = seconds s.confParam.lsaRefreshTime.toNat
  fibIds : s.FibIds
  scheduled : ∀ e ∈ s.scheduler.events, e.action.Aside ∨ ∃ c o, Expires c o e.action
  owned : ∀ c o l, s.lsaOf c o = some l → s.scheduler.Owns l.toLsa.expiringEventId (Expires c o)
  armed : ∀ c o l, who c o → s.lsaOf c o = some l → l.lsSeqNo.toNat < 2 ^ 31 →
    s.Armed c o (since c o) l

/-- All LSAs but one. -/
def But (c : Counter) (o : Name) : Counter → Name → Prop := fun c' o' => ¬ (c' = c ∧ o' = o)

/-- Every LSA. -/
def Every : Counter → Name → Prop := fun _ _ => True

theorem SameClock.routerPrefix {s t : Nlsr} (h : SameClock s t) :
    t.routerPrefix = s.routerPrefix := congrArg ConfParameter.routerPrefix h.confParam

theorem SameClock.dueSince {s t : Nlsr} (h : SameClock s t) (since : TimePoint) (l : AnyLsa) :
    t.dueSince since l = s.dueSince since l := by
  rw [Nlsr.dueSince, Nlsr.dueSince, h.routerPrefix, h.confParam]

section turns

variable {who who' : Counter → Name → Prop} {since since' : Counter → Name → TimePoint}
  {s t u : Nlsr}

/-- Only the times of the LSAs in question count. -/
theorem Timed.congr (h : Timed who since s)
    (hsince : ∀ c o l, who c o → s.lsaOf c o = some l → since' c o = since c o) :
    Timed who since' s where
  thisRouterPrefix := h.thisRouterPrefix
  lsaRefreshTime := h.lsaRefreshTime
  fibIds := h.fibIds
  scheduled := h.scheduled
  owned := h.owned
  armed c o l hwho hl hlt := by
    rw [hsince c o l hwho hl]
    exact h.armed c o l hwho hl hlt

/-- An operation that touches the events of one LSA at most keeps the others. -/
theorem Timed.within {P : Action → Prop} (h : Timed who since s) (hclock : SameClock s t)
    (hfib : t.FibIds) (hwithin : Within P s.scheduler t.scheduler)
    (hP : ∀ action, P action → action.Aside ∨ ∃ c o, Expires c o action)
    (hlsa : ∀ c o l, t.lsaOf c o = some l →
      s.lsaOf c o = some l ∨ t.scheduler.Owns l.toLsa.expiringEventId (Expires c o))
    (hwho : ∀ c o l, who' c o → t.lsaOf c o = some l → l.lsSeqNo.toNat < 2 ^ 31 →
      who c o ∧ s.lsaOf c o = some l ∧ ∀ action, P action → action ≠ expiry c o l.lsSeqNo) :
    Timed who' since t where
  thisRouterPrefix := by rw [hclock.thisRouterPrefix, hclock.routerPrefix, h.thisRouterPrefix]
  lsaRefreshTime := by rw [hclock.lsaRefreshTime, hclock.confParam, h.lsaRefreshTime]
  fibIds := hfib
  scheduled e he := by
    rcases hwithin.new e he with he | ⟨-, he⟩
    · exact h.scheduled e he
    · exact hP _ he
  owned c o l hl := by
    rcases hlsa c o l hl with hl | howns
    · exact (h.owned c o l hl).within hwithin
    · exact howns
  armed c o l hc hl hlt := by
    obtain ⟨hwho, hold, hne⟩ := hwho c o l hc hl hlt
    obtain ⟨e, he, haction, hdue⟩ := h.armed c o l hwho hold hlt
    refine ⟨e, (hwithin.old e he).resolve_right fun hPe => hne _ hPe haction, haction, ?_⟩
    rw [hdue, hclock.dueSince]

/-- What an operation does aside from the LSAs keeps them. -/
theorem Timed.aside (h : Timed who since s) (haside : Aside s t)
    (hlsa : ∀ c o, t.lsaOf c o = s.lsaOf c o ∨ t.lsaOf c o = none) : Timed who since t := by
  have hsome : ∀ c o l, t.lsaOf c o = some l → s.lsaOf c o = some l := by
    intro c o l hl
    rcases hlsa c o with heq | hnone
    · rwa [heq] at hl
    · rw [hnone] at hl
      exact absurd hl (Option.some_ne_none l).symm
  obtain ⟨hwithin, hfib⟩ := haside.events h.fibIds
  exact h.within haside.sameClock hfib hwithin (fun _ => Or.inl)
    (fun c o l hl => Or.inl (hsome c o l hl))
    (fun c o l hwho hl _ => ⟨hwho, hsome c o l hl, fun _ ha => ha.ne_lsaEvent c o _⟩)

/-- Cancelling an event of an LSA keeps the others. -/
theorem Timed.cancelEvent {c : Counter} {o : Name} {eid : Option Nat} (h : Timed Every since s)
    (howns : s.scheduler.Owns eid (Expires c o)) :
    Timed (But c o) since (s.cancelEvent eid) := by
  have hwithin := within_cancelEvent howns
  refine h.within ⟨rfl, rfl, rfl, rfl⟩ (h.fibIds.within rfl hwithin) hwithin
    (fun _ ha => Or.inr ⟨c, o, ha⟩) (fun _ _ _ => Or.inl) ?_
  intro c' o' l hne hl _
  refine ⟨trivial, hl, ?_⟩
  rintro _ ⟨n, rfl⟩ heq
  obtain ⟨hc, ho, -⟩ := lsaEvent_inj.1 heq
  exact hne ⟨hc.symm, ho.symm⟩

/-- An LSA that is not stored has no event to wait for. -/
theorem Timed.every_of_none {c : Counter} {o : Name} (h : Timed (But c o) since s)
    (hnone : s.lsaOf c o = none) : Timed Every since s where
  thisRouterPrefix := h.thisRouterPrefix
  lsaRefreshTime := h.lsaRefreshTime
  fibIds := h.fibIds
  scheduled := h.scheduled
  owned := h.owned
  armed c' o' l _ hl hlt := by
    refine h.armed c' o' l ?_ hl hlt
    rintro ⟨rfl, rfl⟩
    rw [hnone] at hl
    exact absurd hl (Option.some_ne_none l).symm

/-- The times after an LSA got a new number. -/
def stamp (since : Counter → Name → TimePoint) (c : Counter) (o : Name) (now : TimePoint) :
    Counter → Name → TimePoint :=
  fun c' o' => if c' = c ∧ o' = o then now else since c' o'

/-- **Arming an LSA** that is then stored with the id of its event, or without one. -/
theorem Timed.arm {l l' : AnyLsa} (h : Timed (But l.counter l.origRouter) since s)
    (hclock : SameClock s t) (htable : t.fib.table = s.fib.table)
    (hsch : t.scheduler = (s.arm l).1.scheduler)
    (hlsa : ∀ c o, t.lsaOf c o =
      if c = l.counter ∧ o = l.origRouter then some l' else s.lsaOf c o)
    (horig : l'.origRouter = l.origRouter) (hseq : l'.lsSeqNo = l.lsSeqNo)
    (hexp : l'.toLsa.expirationTimePoint = l.toLsa.expirationTimePoint)
    (heid : l'.toLsa.expiringEventId = none ∨ l'.toLsa.expiringEventId = some (s.arm l).2) :
    Timed Every (stamp since l.counter l.origRouter t.now) t := by
  have hwithin : Within (Expires l.counter l.origRouter) s.scheduler t.scheduler := by
    rw [hsch]
    exact within_scheduleEvent ⟨l.lsSeqNo, rfl⟩ _ _
  have howns : t.scheduler.Owns l'.toLsa.expiringEventId (Expires l.counter l.origRouter) := by
    rcases heid with heid | heid
    · rw [heid]
      exact owns_none _ _
    · rw [heid, hsch]
      exact owns_scheduleEvent ⟨l.lsSeqNo, rfl⟩ _ _
  have hnew : t.Armed l.counter l.origRouter t.now l' := by
    refine ⟨⟨s.scheduler.nextId, s.now + (s.timeToExpire l.toLsa + Lsdb.gracePeriod),
      expiry l.counter l.origRouter l.lsSeqNo⟩, ?_, by rw [hseq], ?_⟩
    · rw [hsch]
      exact mem_scheduleEvent.2 (Or.inr rfl)
    · show s.now + (s.timeToExpire l.toLsa + Lsdb.gracePeriod) = t.dueSince t.now l'
      rw [dueSince, timeToExpire, hclock.now, hclock.routerPrefix, hclock.confParam, horig, hexp,
        AnyLsa.toLsa_origRouter, h.lsaRefreshTime]
  have hothers : Timed (But l.counter l.origRouter) since t := by
    refine h.within hclock (h.fibIds.within htable hwithin) hwithin
      (fun _ ha => Or.inr ⟨_, _, ha⟩) (fun c o l₁ hl₁ => ?_) (fun c o l₁ hne hl₁ _ => ?_)
    · rw [hlsa] at hl₁
      split_ifs at hl₁ with hco
      · obtain ⟨rfl, rfl⟩ := hco
        obtain rfl := Option.some.inj hl₁
        exact Or.inr howns
      · exact Or.inl hl₁
    · rw [hlsa, if_neg hne] at hl₁
      refine ⟨hne, hl₁, ?_⟩
      rintro _ ⟨n, rfl⟩ heq
      obtain ⟨hc, ho, -⟩ := lsaEvent_inj.1 heq
      exact hne ⟨hc.symm, ho.symm⟩
  refine ⟨hothers.thisRouterPrefix, hothers.lsaRefreshTime, hothers.fibIds, hothers.scheduled,
    hothers.owned, fun c o l₁ _ hl₁ hlt => ?_⟩
  by_cases hco : c = l.counter ∧ o = l.origRouter
  · rw [hlsa, if_pos hco] at hl₁
    obtain rfl := Option.some.inj hl₁
    obtain ⟨rfl, rfl⟩ := hco
    rw [stamp, if_pos ⟨rfl, rfl⟩]
    exact hnew
  · rw [stamp, if_neg hco]
    exact hothers.armed c o l₁ hco hl₁ hlt

end turns

/-! ## Turns -/

/-- An LSA that has the same number as before has it since the same time. -/
def sinceAfter (since : Counter → Name → TimePoint) (s t : Nlsr) : Counter → Name → TimePoint :=
  fun c o =>
    if (t.lsaOf c o).map AnyLsa.lsSeqNo = (s.lsaOf c o).map AnyLsa.lsSeqNo then since c o
    else t.now

/-- From one state to the next the events keep up with the LSAs. -/
def KeepsTimed (since : Counter → Name → TimePoint) (s t : Nlsr) : Prop :=
  Timed Every (sinceAfter since s t) t

section turns

variable {since : Counter → Name → TimePoint} {s t u : Nlsr}

theorem KeepsTimed.before (hsame : t.lsaOf = s.lsaOf) (h : KeepsTimed since t u) :
    KeepsTimed since s u := by
  have hsince : sinceAfter since s u = sinceAfter since t u := by
    funext c o
    simp only [sinceAfter, hsame]
  rw [KeepsTimed, hsince]
  exact h

theorem KeepsTimed.after (h : KeepsTimed since s t) (haside : Aside t u)
    (hsame : u.lsaOf = t.lsaOf) : KeepsTimed since s u := by
  have hu := Timed.aside h haside fun c o => Or.inl (by rw [hsame])
  refine hu.congr fun c o l _ _ => ?_
  rw [sinceAfter, sinceAfter, hsame, haside.sameClock.now]

theorem Timed.keepsTimed (h : Timed Every since s)
    (hlsa : ∀ c o, s.lsaOf c o = t.lsaOf c o ∨ s.lsaOf c o = none) : KeepsTimed since t s := by
  refine h.congr fun c o l _ hl => ?_
  rcases hlsa c o with heq | hnone
  · rw [sinceAfter, heq, if_pos rfl]
  · rw [hnone] at hl
    exact absurd hl (Option.some_ne_none l).symm

theorem keepsTimed_of_aside (h : Timed Every since s) (haside : Aside s t)
    (hlsa : ∀ c o, t.lsaOf c o = s.lsaOf c o ∨ t.lsaOf c o = none) : KeepsTimed since s t :=
  (h.aside haside hlsa).keepsTimed hlsa

theorem keepsTimed_of_stamp {l' : AnyLsa} {c : Counter} {o : Name}
    (h : Timed Every (stamp since c o t.now) t)
    (hlsa : ∀ c' o', t.lsaOf c' o' = if c' = c ∧ o' = o then some l' else s.lsaOf c' o')
    (hne : (s.lsaOf c o).map AnyLsa.lsSeqNo ≠ some l'.lsSeqNo) : KeepsTimed since s t := by
  refine h.congr fun c' o' l _ hl => ?_
  by_cases hco : c' = c ∧ o' = o
  · obtain ⟨rfl, rfl⟩ := hco
    simp only [sinceAfter, stamp, hlsa, and_self, if_true]
    exact if_neg fun heq => hne heq.symm
  · simp only [sinceAfter, stamp, hlsa, if_neg hco, if_true]

theorem put_frame (s : Nlsr) (l : AnyLsa) :
    SameClock s (s.put l) ∧ (s.put l).fib.table = s.fib.table ∧
      (s.put l).scheduler = s.scheduler := by
  cases l <;> exact ⟨⟨rfl, rfl, rfl, rfl⟩, rfl, rfl⟩

/-- The LSA is stored, its event is armed, and it is written back with the id of the event. -/
theorem KeepsTimed.of_arm_put {l l' chk : AnyLsa}
    (h : Timed (But l.counter l.origRouter) since s)
    (hchk : s.lsaOf l.counter l.origRouter = some chk) (hne : chk.lsSeqNo ≠ l.lsSeqNo)
    (hcounter : l'.counter = l.counter) (horig : l'.origRouter = l.origRouter)
    (hseq : l'.lsSeqNo = l.lsSeqNo)
    (hexp : l'.toLsa.expirationTimePoint = l.toLsa.expirationTimePoint)
    (heid : l'.toLsa.expiringEventId = some (s.arm l).2) :
    KeepsTimed since s ((s.arm l).1.put l') := by
  obtain ⟨hclock, htable, hsch⟩ := put_frame (s.arm l).1 l'
  have hput : ∀ c o, ((s.arm l).1.put l').lsaOf c o =
      if c = l.counter ∧ o = l.origRouter then some l' else s.lsaOf c o := by
    have hstored : (s.arm l).1.lsaOf l'.counter l'.origRouter = some chk := by
      rw [hcounter, horig]
      exact hchk
    intro c o
    rw [lsaOf_put hstored, hcounter, horig]
    rfl
  refine keepsTimed_of_stamp (h.arm ?_ htable hsch hput horig hseq hexp (Or.inr heid)) hput ?_
  · have harm : SameClock s (s.arm l).1 := ⟨rfl, rfl, rfl, rfl⟩
    exact harm.trans hclock
  · rw [hchk, hseq]
    exact fun heq => hne (Option.some.inj heq)

theorem keepsTimed_install (h : Timed Every since s) {l : AnyLsa}
    (heid : l.toLsa.expiringEventId = none) : KeepsTimed since s (s.install l) := by
  obtain ⟨eid, hinstall⟩ := lsaOf_install s l
  rcases installForm s l with ⟨u, hnone, haside, hform⟩ | ⟨chk, u, hchk, hlt, haside, hsame, hform⟩
    | hform
  · rw [hform] at hinstall ⊢
    have hlsa : ∀ c o, u.lsaOf c o =
        if c = l.counter ∧ o = l.origRouter then some l else s.lsaOf c o := by
      intro c o
      refine (hinstall c o).trans ?_
      split_ifs with hco
      · rw [hco.1, hco.2, hnone]
        rfl
      · rfl
    obtain ⟨hwithin, hfib⟩ := haside.events h.fibIds
    have hu : Timed (But l.counter l.origRouter) since u := by
      refine h.within haside.sameClock hfib hwithin (fun _ => Or.inl) (fun c o l₁ hl₁ => ?_)
        fun c o l₁ hne hl₁ _ => ?_
      · rw [hlsa] at hl₁
        split_ifs at hl₁ with hco
        · obtain rfl := Option.some.inj hl₁
          exact Or.inr (heid ▸ owns_none _ _)
        · exact Or.inl hl₁
      · rw [hlsa, if_neg hne] at hl₁
        exact ⟨trivial, hl₁, fun _ ha => ha.ne_lsaEvent c o _⟩
    have harm := hu.arm (t := (u.arm l).1) ⟨rfl, rfl, rfl, rfl⟩ rfl rfl
      (fun c o => by rw [show (u.arm l).1.lsaOf c o = u.lsaOf c o from rfl, hlsa]; split_ifs <;> rfl)
      rfl rfl rfl (Or.inl heid)
    refine keepsTimed_of_stamp harm (fun c o => hlsa c o) ?_
    rw [hnone]
    exact (Option.some_ne_none _).symm
  · rw [hform]
    obtain ⟨hcounter, horig, hseq, hexp, heid'⟩ := AnyLsa.toLsa_updated
      (counter_of_lsaOf hchk).symm (origRouter_of_lsaOf hchk).symm
      ((u.cancelEvent chk.toLsa.expiringEventId).arm l).2
    have hu := h.aside haside fun c o => Or.inl (by rw [hsame])
    have hstored : u.lsaOf l.counter l.origRouter = some chk := by rw [hsame, hchk]
    refine KeepsTimed.before (t := u.cancelEvent chk.toLsa.expiringEventId) hsame ?_
    exact KeepsTimed.of_arm_put (hu.cancelEvent (hu.owned _ _ _ hstored)) hstored
      (fun heq => absurd hlt (heq ▸ UInt32.lt_irrefl _)) hcounter horig hseq hexp heid'
  · rw [hform]
    exact h.keepsTimed fun _ _ => Or.inl rfl

theorem keepsTimed_refresh {c : Counter} {o : Name} {chk : AnyLsa}
    (h : Timed (But c o) since s) (hchk : s.lsaOf c o = some chk)
    (hown : chk.origRouter = s.routerPrefix) : KeepsTimed since s (s.refresh chk) := by
  obtain ⟨sm, hform⟩ := refresh_form hown
  let l := chk.refreshed s.getLsaExpirationTimePoint s.scheduler.nextId
  obtain ⟨hcounter, horig, hheader⟩ :=
    AnyLsa.toLsa_refreshed chk s.getLsaExpirationTimePoint s.scheduler.nextId
  obtain rfl : c = l.counter := (counter_of_lsaOf hchk).symm.trans hcounter.symm
  obtain rfl : o = l.origRouter := (origRouter_of_lsaOf hchk).symm.trans horig.symm
  let u := s.renumber sm
  have hu : Timed (But l.counter l.origRouter) since u :=
    h.aside (aside_renumber s sm) fun _ _ => Or.inl rfl
  have hne : chk.lsSeqNo ≠ l.lsSeqNo := by
    rw [AnyLsa.lsSeqNo_refreshed]
    exact fun heq => absurd (congrArg UInt32.toBitVec heq) (by simp)
  have hput : KeepsTimed since u ((u.arm l).1.put l) :=
    KeepsTimed.of_arm_put hu hchk hne rfl rfl rfl rfl (by rw [hheader]; rfl)
  rw [hform]
  exact (hput.after (aside_publishRoutingUpdate _) rfl).before rfl

theorem LsaOfRemove.same_or_none {c : Counter} {key : Name} (h : LsaOfRemove s t c key)
    (c' : Counter) (o : Name) : t.lsaOf c' o = s.lsaOf c' o ∨ t.lsaOf c' o = none := by
  rw [h c' o]
  split_ifs
  · exact Or.inr rfl
  · exact Or.inl rfl

/-! ## Events that fire -/

theorem aside_setAdjacencyList (s : Nlsr) (l : AdjacencyList) : Aside s (s.setAdjacencyList l) :=
  aside_of_eq ⟨rfl, rfl, rfl, rfl⟩ rfl rfl

theorem aside_scheduleAdjLsaBuild (s : Nlsr) : Aside s s.scheduleAdjLsaBuild := by
  let u : Nlsr := { s with adjBuildCount := s.adjBuildCount + 1 }
  have hu : Aside s u := aside_of_eq ⟨rfl, rfl, rfl, rfl⟩ rfl rfl
  unfold scheduleAdjLsaBuild
  dsimp only
  split_ifs
  · have hbuild : Action.buildAdjLsa.Aside := trivial
    exact (hu.trans (aside_scheduleEvent hbuild u _)).trans
      (aside_of_eq ⟨rfl, rfl, rfl, rfl⟩ rfl rfl)
  · exact hu

theorem OnlySent.aside {s t : Nlsr} (h : OnlySent s t) : Aside s t := by
  refine h.fibTurn.aside ?_
  rw [OnlySent] at h
  rw [h]
  exact ⟨rfl, rfl, rfl, rfl⟩

theorem helloClosed_aside : HelloClosed Aside where
  refl := Aside.refl
  trans := Aside.trans
  setAdjacencyList := aside_setAdjacencyList
  scheduleAdjLsaBuild := aside_scheduleAdjLsaBuild
  onlySent := OnlySent.aside

theorem keepsTimed_of_quiet (h : Timed Every since s) (haside : Aside s t)
    (hsame : t.lsaOf = s.lsaOf) : KeepsTimed since s t :=
  keepsTimed_of_aside h haside fun c o => Or.inl (by rw [hsame])

/-- An own LSA is built and installed between other things. -/
theorem keepsTimed_build {v : Nlsr} {l : AnyLsa} (h : Timed Every since s) (hst : Aside s t)
    (hsame : t.lsaOf = s.lsaOf) (heid : l.toLsa.expiringEventId = none)
    (huv : Aside (t.install l) v) (hsame' : v.lsaOf = (t.install l).lsaOf) :
    KeepsTimed since s v := by
  have ht := h.aside hst fun c o => Or.inl (by rw [hsame])
  exact ((keepsTimed_install ht heid).after huv hsame').before hsame

theorem keepsTimed_buildAdjLsa (h : Timed Every since s) : KeepsTimed since s s.buildAdjLsa := by
  let u : Nlsr := { s with isBuildAdjLsaSheduled := false }
  have hu : Aside s u := aside_of_eq ⟨rfl, rfl, rfl, rfl⟩ rfl rfl
  unfold buildAdjLsa
  dsimp only
  split_ifs
  · let u' : Nlsr := ({ u with
      sequencingManager := u.sequencingManager.increaseAdjLsaSeq } : Nlsr).publishRoutingUpdate
    refine keepsTimed_build (t := u') (l := .adj u.ownAdjLsa) h
      (aside_of_eq ⟨rfl, rfl, rfl, rfl⟩ rfl rfl) rfl ?_
      (aside_of_eq ⟨rfl, rfl, rfl, rfl⟩ rfl rfl) rfl
    rw [ownAdjLsa, AdjLsa.make_eq]
    rfl
  · have hremove := aside_removeAdjLsa u (AdjLsa.key s.routerPrefix)
    have hcalc := aside_scheduleRoutingTableCalculation (u.removeAdjLsa (AdjLsa.key s.routerPrefix))
    refine keepsTimed_of_aside h (((hu.trans hremove).trans hcalc).trans
      (aside_of_eq ⟨rfl, rfl, rfl, rfl⟩ rfl rfl)) fun c o => ?_
    have hlsa := (lsaOf_removeAdjLsa u (AdjLsa.key s.routerPrefix)).same_or_none c o
    rwa [← (quiet_scheduleRoutingTableCalculation _).lsaOf] at hlsa
  · exact keepsTimed_of_quiet h hu rfl
  · let u' : Nlsr := { u with isBuildAdjLsaSheduled := true }
    have hu' : Aside s u' := aside_of_eq ⟨rfl, rfl, rfl, rfl⟩ rfl rfl
    have hbuild : Action.buildAdjLsa.Aside := trivial
    exact keepsTimed_of_quiet h (hu'.trans (aside_scheduleEvent hbuild u' _)) rfl

/-- The event of an LSA, once it has left the scheduler. -/
theorem keepsTimed_lsaEvent (math : MathLib) (h : Timed Every since s) {e : ScheduledEvent}
    (he : e ∈ s.scheduler.events) {c : Counter} {o : Name} {n : UInt32}
    (haction : e.action = expiry c o n) :
    KeepsTimed since s ((s.cancelEvent (some e.id)).runAction math e.action) := by
  let u := s.cancelEvent (some e.id)
  have howns : s.scheduler.Owns (some e.id) fun action => action = expiry c o n := by
    intro id hid
    obtain rfl := Option.some.inj hid
    refine ⟨s.scheduler.fresh e he, fun e' he' hid' => ?_⟩
    rw [KeyedList.eq_of_key_eq he' he hid']
    exact haction
  have hwithin := within_cancelEvent howns
  have hbut : Timed (But c o) since u :=
    h.cancelEvent (howns.mono fun action h => ⟨n, h⟩)
  rw [haction, expiry, runAction_lsaEvent]
  cases hchk : u.lsaOf c o with
  | none => exact (hbut.every_of_none hchk).keepsTimed fun _ _ => Or.inl rfl
  | some chk =>
    dsimp only
    split_ifs with hseq horig
    · have hown : chk.origRouter = u.routerPrefix := horig.trans hbut.thisRouterPrefix
      exact ((keepsTimed_refresh hbut hchk hown).after (aside_afterExpiry _ c)
        (lsaOf_afterExpiry _ c)).before rfl
    · have hremove := lsaOf_removeLsa u c (c.key o)
      have hnone : (u.removeLsa c (c.key o)).lsaOf c o = none := by
        rw [hremove c o, if_pos ⟨rfl, rfl⟩]
      have hgone := (hbut.aside (aside_removeLsa u c _) hremove.same_or_none).every_of_none hnone
      exact (hgone.keepsTimed (t := s) hremove.same_or_none).after (aside_afterExpiry _ c)
        (lsaOf_afterExpiry _ c)
    · -- The event is not the one of the stored number
      refine Timed.keepsTimed (s := u) ?_ fun _ _ => Or.inl rfl
      refine h.within ⟨rfl, rfl, rfl, rfl⟩ hbut.fibIds hwithin
        (fun _ ha => Or.inr ⟨c, o, n, ha⟩) (fun _ _ _ => Or.inl) ?_
      intro c' o' l _ hl hlt
      refine ⟨trivial, hl, ?_⟩
      rintro _ rfl heq
      obtain ⟨rfl, rfl, hnumber⟩ := lsaEvent_inj.1 heq
      obtain rfl := Option.some.inj (hl.symm.trans hchk)
      exact hseq ((expirationSeqNo_of_lt hlt).symm.trans hnumber.symm)

/-- An event that fires is the only one with its id. -/
theorem owns_fired {e : ScheduledEvent} (he : e ∈ s.scheduler.events) :
    s.scheduler.Owns (some e.id) (· = e.action) := by
  intro id hid
  obtain rfl := Option.some.inj hid
  exact ⟨s.scheduler.fresh e he, fun e' he' hid' => by rw [KeyedList.eq_of_key_eq he' he hid']⟩

theorem aside_fired {e : ScheduledEvent} (he : e ∈ s.scheduler.events)
    (haside : e.action.Aside) : Aside s (s.cancelEvent (some e.id)) := by
  refine ⟨⟨rfl, rfl, rfl, rfl⟩, fun hs => ?_⟩
  have hwithin := within_cancelEvent ((owns_fired he).mono fun action heq => heq ▸ haside)
  exact ⟨hwithin, hs.within rfl hwithin⟩

theorem keepsTimed_fire (math : MathLib) (h : Timed Every since s) (id : Nat) :
    KeepsTimed since s (s.fire math id) := by
  unfold fire
  cases hid : s.scheduler.events.find? id with
  | none =>
    rw [pendingAction, hid]
    exact h.keepsTimed fun _ _ => Or.inl rfl
  | some e =>
    have he := KeyedList.mem_of_find? hid
    obtain rfl : e.id = id := KeyedList.key_of_find? hid
    rw [pendingAction, hid]
    show KeepsTimed since s ((s.cancelEvent (some e.id)).runAction math e.action)
    rcases h.scheduled e he with haside | ⟨c, o, n, haction⟩
    · let u := s.cancelEvent (some e.id)
      have htimed : Timed Every since u := h.aside (aside_fired he haside) fun _ _ => Or.inl rfl
      refine KeepsTimed.before (t := u) rfl ?_
      cases haction : e.action with
      | exprireOrRefreshNameLsa lsaKey seqNo => rw [haction] at haside; exact haside.elim
      | exprireOrRefreshAdjLsa lsaKey seqNo => rw [haction] at haside; exact haside.elim
      | exprireOrRefreshCoordinateLsa lsaKey seqNo => rw [haction] at haside; exact haside.elim
      | buildAdjLsa => exact keepsTimed_buildAdjLsa htimed
      | calculate =>
        exact keepsTimed_of_quiet htimed (aside_calculate math u) (lsaOf_calculate math u)
      | removeFibEntry name =>
        exact keepsTimed_of_quiet htimed (aside_fibRemove u name) (lsaOf_fibRemove u name)
    · exact keepsTimed_lsaEvent math h he haction

theorem keepsTimed_buildAndInstallOwnNameLsa (h : Timed Every since s) (haside : Aside s t)
    (hsame : t.lsaOf = s.lsaOf) : KeepsTimed since s t.buildAndInstallOwnNameLsa := by
  let t' : Nlsr := { t with sequencingManager := t.sequencingManager.increaseNameLsaSeq }
  refine keepsTimed_build (t := t') (l := .name t.ownNameLsa) h
    (haside.trans (aside_of_eq ⟨rfl, rfl, rfl, rfl⟩ rfl rfl)) hsame ?_ (Aside.refl _) rfl
  rw [ownNameLsa, NameLsa.make_eq]
  rfl

theorem keepsTimed_buildAndInstallOwnCoordinateLsa (h : Timed Every since s) :
    KeepsTimed since s s.buildAndInstallOwnCoordinateLsa := by
  let t : Nlsr := { s with sequencingManager := s.sequencingManager.increaseCorLsaSeq }
  exact keepsTimed_build (t := t) (l := .coordinate s.ownCoordinateLsa) h
    (aside_of_eq ⟨rfl, rfl, rfl, rfl⟩ rfl rfl) rfl rfl (Aside.refl _) rfl

/-- The names are changed, and the Name LSA is built and announced. -/
theorem keepsTimed_rebuildNames (h : Timed Every since s) (names : NamePrefixList) :
    let s₀ : Nlsr := { s with namePrefixList := names }
    KeepsTimed since s s₀.buildAndInstallOwnNameLsa.publishRoutingUpdate := by
  intro s₀
  have hbuild := keepsTimed_buildAndInstallOwnNameLsa (t := s₀) h
    (aside_of_eq ⟨rfl, rfl, rfl, rfl⟩ rfl rfl) rfl
  exact hbuild.after (aside_publishRoutingUpdate _) rfl

/-- **Every turn of the event loop keeps the events of the LSAs.** -/
theorem keepsTimed_step (math : MathLib) (h : Timed Every since s) (e : Event) :
    KeepsTimed since s (s.step math e) := by
  cases e with
  | installNameLsa nlsa => exact keepsTimed_install h (l := .name _) rfl
  | installAdjLsa alsa => exact keepsTimed_install h (l := .adj _) rfl
  | installCoordinateLsa clsa => exact keepsTimed_install h (l := .coordinate _) rfl
  | removeNameLsa key =>
    exact keepsTimed_of_aside h (aside_removeNameLsa s key)
      (lsaOf_removeNameLsa s key).same_or_none
  | removeAdjLsa key =>
    exact keepsTimed_of_aside h (aside_removeAdjLsa s key) (lsaOf_removeAdjLsa s key).same_or_none
  | removeCoordinateLsa key =>
    exact keepsTimed_of_aside h (aside_removeCoordinateLsa s key)
      (lsaOf_removeCoordinateLsa s key).same_or_none
  | fire id => exact keepsTimed_fire math h id
  | buildAndInstallOwnNameLsa =>
    exact keepsTimed_buildAndInstallOwnNameLsa h (Aside.refl s) rfl
  | buildAndInstallOwnCoordinateLsa => exact keepsTimed_buildAndInstallOwnCoordinateLsa h
  | publishRoutingUpdate =>
    exact keepsTimed_of_quiet h (aside_publishRoutingUpdate s) rfl
  | scheduleAdjLsaBuild =>
    exact keepsTimed_of_quiet h (aside_scheduleAdjLsaBuild s)
      (onlyHello_scheduleAdjLsaBuild s).quiet.lsaOf
  | helloTimedOut interestName =>
    exact keepsTimed_of_quiet h (helloClosed_aside.processInterestTimedOut s interestName)
      (onlyHello_processInterestTimedOut s interestName).quiet.lsaOf
  | helloValidated dataName =>
    exact keepsTimed_of_quiet h (helloClosed_aside.onHelloValidated s dataName)
      (onlyHello_onHelloValidated s dataName).quiet.lsaOf
  | registrationSuccess neighbor faceId =>
    exact keepsTimed_of_quiet h (helloClosed_aside.onRegistrationSuccess s neighbor faceId)
      (onlyHello_onRegistrationSuccess s neighbor faceId).quiet.lsaOf
  | registrationFailure neighbor =>
    exact keepsTimed_of_quiet h (helloClosed_aside.onRegistrationFailure s neighbor)
      (onlyHello_onRegistrationFailure s neighbor).quiet.lsaOf
  | faceDestroyed faceId =>
    exact keepsTimed_of_quiet h (helloClosed_aside.onFaceDestroyed s faceId)
      (onlyHello_onFaceDestroyed s faceId).quiet.lsaOf
  | advertise name =>
    show KeepsTimed since s (s.advertise name)
    unfold advertise
    split_ifs
    · exact h.keepsTimed fun _ _ => Or.inl rfl
    · exact keepsTimed_rebuildNames h _
  | withdraw name =>
    show KeepsTimed since s (s.withdraw name)
    unfold withdraw
    split_ifs
    · exact keepsTimed_rebuildNames h _
    · exact h.keepsTimed fun _ _ => Or.inl rfl
  | clock now =>
    let t : Nlsr := { s with now }
    have ht : Timed Every since t := ⟨h.thisRouterPrefix, h.lsaRefreshTime, h.fibIds,
      h.scheduled, h.owned, h.armed⟩
    exact ht.keepsTimed fun _ _ => Or.inl rfl

end turns

theorem timed_of_blank {s : Nlsr} (hlsa : ∀ c o, s.lsaOf c o = none)
    (hfib : s.fib.table = KeyedList.empty) (hsch : s.scheduler.events = KeyedList.empty)
    (hpfx : s.lsdb.thisRouterPrefix = s.routerPrefix)
    (hrefresh : s.lsdb.lsaRefreshTime = seconds s.confParam.lsaRefreshTime.toNat)
    (since : Counter → Name → TimePoint) : Timed Every since s where
  thisRouterPrefix := hpfx
  lsaRefreshTime := hrefresh
  fibIds entry hentry := by
    rw [hfib] at hentry
    exact absurd hentry (KeyedList.not_mem_empty _)
  scheduled e he := by
    rw [hsch] at he
    exact absurd he (KeyedList.not_mem_empty _)
  owned c o l hl := by
    rw [hlsa] at hl
    exact absurd hl (Option.some_ne_none l).symm
  armed c o l _ hl := by
    rw [hlsa] at hl
    exact absurd hl (Option.some_ne_none l).symm

theorem OnlyLsdb.now {s t : Nlsr} (h : OnlyLsdb s t) : t.now = s.now := by
  rw [OnlyLsdb] at h
  rw [h]

/-- What is built at the start has its number since then. -/
theorem KeepsTimed.since_now {s t : Nlsr} {now : TimePoint} (h : KeepsTimed (fun _ _ => now) s t)
    (hnow : t.now = now) : Timed Every (fun _ _ => now) t := by
  refine h.congr fun c o l _ _ => ?_
  rw [sinceAfter, hnow]
  split_ifs <;> rfl

theorem timed_initializeNlsr (confParam : ConfParameter) (adjacencyList : AdjacencyList)
    (namePrefixList : NamePrefixList) (seqFile : Option UInt64) (now : TimePoint) :
    Timed Every (fun _ _ => now)
      (start confParam adjacencyList namePrefixList seqFile now).initializeNlsr := by
  let s₀ := initiated confParam adjacencyList namePrefixList seqFile now
  let s₁ := s₀.buildAndInstallOwnNameLsa
  let s₂ := s₁.buildAndInstallOwnCoordinateLsa
  have hnow₁ : s₁.now = now := (onlyLsdb_installNameLsa { s₀ with
    sequencingManager := s₀.sequencingManager.increaseNameLsaSeq } s₀.ownNameLsa).now
  have hnow₂ : s₂.now = s₁.now := (onlyLsdb_installCoordinateLsa { s₁ with
    sequencingManager := s₁.sequencingManager.increaseCorLsaSeq } s₁.ownCoordinateLsa).now
  have h₀ : Timed Every (fun _ _ => now) s₀ :=
    timed_of_blank (fun c o => by cases c <;> rfl) rfl rfl rfl rfl _
  have h₁ := (keepsTimed_buildAndInstallOwnNameLsa h₀ (Aside.refl s₀) rfl).since_now hnow₁
  have h₂ := (keepsTimed_buildAndInstallOwnCoordinateLsa h₁).since_now (hnow₂.trans hnow₁)
  exact initializeNlsr_of_built
    (fun _ h => h.aside (aside_setAdjacencyList _ _) fun _ _ => Or.inl rfl) h₂

/-! ## Every run -/

/-- A router, and for each LSA the time at which it got its number. -/
structure Aged where
  router : Nlsr
  since : Counter → Name → TimePoint

def Aged.step (math : MathLib) (a : Aged) (e : Event) : Aged where
  router := a.router.step math e
  since := sinceAfter a.since a.router (a.router.step math e)

/-- The router after `initialize`, with the numbers it has given out then. -/
def Aged.first (confParam : ConfParameter) (adjacencyList : AdjacencyList)
    (namePrefixList : NamePrefixList) (seqFile : Option UInt64) (now : TimePoint) : Aged where
  router := (start confParam adjacencyList namePrefixList seqFile now).initializeNlsr
  since := fun _ _ => now

theorem lsaOf_refresh {s : Nlsr} {c : Counter} {o : Name} {chk : AnyLsa}
    (hchk : s.lsaOf c o = some chk) (hown : chk.origRouter = s.routerPrefix) :
    (s.refresh chk).lsaOf c o =
      some (chk.refreshed s.getLsaExpirationTimePoint s.scheduler.nextId) := by
  obtain ⟨sm, hform⟩ := refresh_form hown
  obtain ⟨hcounter, horig, -⟩ :=
    AnyLsa.toLsa_refreshed chk s.getLsaExpirationTimePoint s.scheduler.nextId
  obtain rfl := counter_of_lsaOf hchk
  obtain rfl := origRouter_of_lsaOf hchk
  rw [hform]
  refine (lsaOf_put (l := chk) ?_ _ _).trans (if_pos ⟨hcounter.symm, horig.symm⟩)
  rw [hcounter, horig]
  exact hchk

theorem exists_pending {s : Nlsr} {id : Nat} {action : Action}
    (h : s.pendingAction id = some action) :
    ∃ f ∈ s.scheduler.events, f.id = id ∧ f.action = action := by
  obtain ⟨f, hf, haction⟩ := Option.map_eq_some_iff.1 h
  exact ⟨f, KeyedList.mem_of_find? hf, KeyedList.key_of_find? hf, haction⟩

theorem step_fire {math : MathLib} {s : Nlsr} {e : ScheduledEvent}
    (he : e ∈ s.scheduler.events) :
    s.step math (.fire e.id) = (s.cancelEvent (some e.id)).runAction math e.action := by
  show s.fire math e.id = _
  rw [fire, pendingAction, KeyedList.find?_of_mem he]
  rfl

/-- How long a stored LSA lives that got its number at a time. -/
structure Lifetime (math : MathLib) (s : Nlsr) (c : Counter) (o : Name) (since : TimePoint)
    (l : AnyLsa) : Prop where
  /-- An event with its key and its number is pending. -/
  pending : (∃ e ∈ s.scheduler.events, e.action = lsaEvent c o l.lsSeqNo.toUInt64) ↔
    l.lsSeqNo.toNat < 2 ^ 31
  /-- The one that came with the number is due in time. -/
  due : l.lsSeqNo.toNat < 2 ^ 31 → ∃ e ∈ s.scheduler.events,
    e.action = lsaEvent c o l.lsSeqNo.toUInt64 ∧ e.due = s.dueSince since l
  /-- When it fires an own LSA is refreshed, and another removed. -/
  fires : ∀ e ∈ s.scheduler.events, e.action = lsaEvent c o l.lsSeqNo.toUInt64 →
    (s.step math (.fire e.id)).lsaOf c o = if l.origRouter = s.routerPrefix then
      some (l.refreshed s.getLsaExpirationTimePoint s.scheduler.nextId) else none

/-- Every stored LSA lives as long as it should, and events of other numbers change nothing. -/
structure Lifetimes (math : MathLib) (a : Aged) : Prop where
  lifetime : ∀ c o l, a.router.lsaOf c o = some l → Lifetime math a.router c o (a.since c o) l
  stale : ∀ e ∈ a.router.scheduler.events, ∀ c o seqNo, e.action = lsaEvent c o seqNo →
    (∀ l, a.router.lsaOf c o = some l → l.lsSeqNo.toUInt64 ≠ seqNo) →
    a.router.step math (.fire e.id) = a.router.cancelEvent (some e.id)

theorem Timed.lifetime (math : MathLib) {s : Nlsr} {since : Counter → Name → TimePoint}
    (h : Timed Every since s) {c : Counter} {o : Name} {l : AnyLsa}
    (hl : s.lsaOf c o = some l) : Lifetime math s c o (since c o) l where
  pending := by
    constructor
    · rintro ⟨e, he, haction⟩
      rcases h.scheduled e he with haside | ⟨c', o', n, hexpiry⟩
      · exact absurd haction (haside.ne_lsaEvent c o _)
      · obtain ⟨-, -, hnumber⟩ := lsaEvent_inj.1 (haction.symm.trans hexpiry)
        obtain ⟨rfl, hlt⟩ := toUInt64_eq_expirationSeqNo.1 hnumber
        exact hlt
    · intro hlt
      obtain ⟨e, he, haction, -⟩ := h.armed c o l trivial hl hlt
      rw [expiry, expirationSeqNo_of_lt hlt] at haction
      exact ⟨e, he, haction⟩
  due hlt := by
    obtain ⟨e, he, haction, hdue⟩ := h.armed c o l trivial hl hlt
    rw [expiry, expirationSeqNo_of_lt hlt] at haction
    exact ⟨e, he, haction, hdue⟩
  fires e he haction := by
    let u := s.cancelEvent (some e.id)
    have hu : u.lsaOf c o = some l := hl
    rw [step_fire he, haction, runAction_lsaEvent, hu]
    dsimp only
    rw [if_pos rfl, show u.lsdb.thisRouterPrefix = s.routerPrefix from h.thisRouterPrefix]
    split_ifs with horig
    · rw [lsaOf_afterExpiry, lsaOf_refresh hu horig]
      rfl
    · rw [lsaOf_afterExpiry, lsaOf_removeLsa u c (c.key o) c o, if_pos ⟨rfl, rfl⟩]

theorem runAction_stale (math : MathLib) {s : Nlsr} {c : Counter} {o : Name} {seqNo : UInt64}
    (h : ∀ l, s.lsaOf c o = some l → l.lsSeqNo.toUInt64 ≠ seqNo) :
    s.runAction math (lsaEvent c o seqNo) = s := by
  rw [runAction_lsaEvent]
  cases hl : s.lsaOf c o with
  | none => rfl
  | some l => exact if_neg (h l hl)

/-- **No immortal LSA and no early death.** In every state of every run, for every stored LSA: an
event of its key and its number is pending exactly if the number is below `2 ^ 31`; then the one
that came with the number is due when the LSA is to be refreshed or removed, which it does when
it fires. Events of other numbers do nothing. -/
theorem lsa_lifetimes (math : MathLib) (confParam : ConfParameter) (adjacencyList : AdjacencyList)
    (namePrefixList : NamePrefixList) (seqFile : Option UInt64) (now : TimePoint)
    (es : List Event) :
    Along (Aged.step math) (Lifetimes math)
      (Aged.first confParam adjacencyList namePrefixList seqFile now) es := by
  let P : Aged → Prop := fun a => Timed Every a.since a.router
  have hstep : ∀ a e, P a → P (a.step math e) := fun a e ha => keepsTimed_step math ha e
  have hfirst : P (Aged.first confParam adjacencyList namePrefixList seqFile now) :=
    timed_initializeNlsr confParam adjacencyList namePrefixList seqFile now
  refine (along_of_step hstep hfirst es).imp fun a ha => ⟨fun c o l hl => ha.lifetime math hl, ?_⟩
  intro e he c o seqNo haction hstale
  rw [step_fire he, haction]
  exact runAction_stale math hstale

/-- A Name LSA of router `/b` with the first number that an `int` does not keep. -/
def lateNumber : NameLsa where
  origRouter := [⟨"b"⟩]
  lsSeqNo := 2 ^ 31
  expirationTimePoint := seconds 60

/-- Its event is the only one, and it will not be met. -/
theorem not_lsa_lifetimes :
    let s := run (step ⟨0, id, id, id, id⟩)
      (start { network := [⟨"a"⟩] } KeyedList.empty KeyedList.empty none 0).initializeNlsr
      [.installNameLsa lateNumber]
    (s.lsaOf .name [⟨"b"⟩]).map AnyLsa.lsSeqNo = some (2 ^ 31) ∧
      ¬ ∃ e ∈ s.scheduler.events,
        e.action = lsaEvent .name [⟨"b"⟩] (2 ^ 31 : UInt32).toUInt64 := by
  refine ⟨by decide +kernel, ?_⟩
  have hnone : ∀ e ∈ (run (step ⟨0, id, id, id, id⟩)
      (start { network := [⟨"a"⟩] } KeyedList.empty KeyedList.empty none 0).initializeNlsr
      [.installNameLsa lateNumber]).scheduler.events.toList,
      e.action ≠ lsaEvent .name [⟨"b"⟩] (2 ^ 31 : UInt32).toUInt64 := by decide +kernel
  rintro ⟨e, he, haction⟩
  exact hnone e he haction

end Nlsr

end LinkState
