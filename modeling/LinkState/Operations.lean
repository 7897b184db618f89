import LinkState.Router
import LinkState.TableEdits

/-!
# The operations behind the steps

Whatever happens to a router, at most one operation touches its tables: an install, a removal
or a refresh of one LSA, a calculation, the expiration of one FIB entry. `opOf` reads off which
one, and `step_spec` says that the rest of the step is `Quiet`: it leaves the database, the
name prefix table, the entries of the FIB and the routing table alone.

So an invariant of the tables holds along every run if quiet changes and the operations keep it.
-/

namespace LinkState

/-- An operation on the tables. -/
inductive Op
  | none
  | install (l : AnyLsa)
  | removeNameLsa (key : Name)
  | removeAdjLsa (key : Name)
  | removeCoordinateLsa (key : Name)
  | refreshNameLsa (key : Name)
  | refreshAdjLsa (key : Name)
  | refreshCoordinateLsa (key : Name)
  | calculate
  | fibRemove (name : Name)

namespace Nlsr

def apply (math : MathLib) (s : Nlsr) : Op → Nlsr
  | .none => s
  | .install l => s.install l
  | .removeNameLsa key => s.removeNameLsa key
  | .removeAdjLsa key => s.removeAdjLsa key
  | .removeCoordinateLsa key => s.removeCoordinateLsa key
  | .refreshNameLsa key =>
    match s.lsdb.findNameLsa key with
    | none => s
    | some chk => s.refreshNameLsa chk
  | .refreshAdjLsa key =>
    match s.lsdb.findAdjLsa key with
    | none => s
    | some chk => s.refreshAdjLsa chk
  | .refreshCoordinateLsa key =>
    match s.lsdb.findCoordinateLsa key with
    | none => s
    | some chk => s.refreshCoordinateLsa chk
  | .calculate => s.calculate math
  | .fibRemove name => s.fibRemove name

/-- An operation that is no calculation and no expiration edits the recorded pairs. -/
theorem exists_edits_apply (math : MathLib) (s : Nlsr) {op : Op} (hcalculate : op ≠ .calculate)
    (hexpires : ∀ name, op ≠ .fibRemove name) :
    ∃ added removed, Edits s (s.apply math op) added removed := by
  cases op with
  | none => exact ⟨[], [], (SameTables.refl s).edits⟩
  | install l => exact exists_edits_install s l
  | removeNameLsa key => exact exists_edits_removeNameLsa s key
  | removeAdjLsa key => exact exists_edits_removeAdjLsa s key
  | removeCoordinateLsa key => exact exists_edits_removeCoordinateLsa s key
  | refreshNameLsa key =>
    dsimp only [apply]
    split
    · exact ⟨[], [], (SameTables.refl s).edits⟩
    · exact ⟨[], [], edits_refreshNameLsa s _⟩
  | refreshAdjLsa key =>
    dsimp only [apply]
    split
    · exact ⟨[], [], (SameTables.refl s).edits⟩
    · exact ⟨[], [], edits_refreshAdjLsa s _⟩
  | refreshCoordinateLsa key =>
    dsimp only [apply]
    split
    · exact ⟨[], [], (SameTables.refl s).edits⟩
    · exact ⟨[], [], edits_refreshCoordinateLsa s _⟩
  | calculate => exact absurd rfl hcalculate
  | fibRemove name => exact absurd rfl (hexpires name)

/-! ## Which operation -/

/-- The Name LSA `buildAndInstallOwnNameLsa` builds. -/
def ownNameLsa (s : Nlsr) : NameLsa :=
  NameLsa.make s.routerPrefix NameLsa.typeString (s.sequencingManager.nameLsaSeq + 1).toUInt32
    s.getLsaExpirationTimePoint s.namePrefixList

def ownCoordinateLsa (s : Nlsr) : CoordinateLsa :=
  CoordinateLsa.make s.routerPrefix CoordinateLsa.typeString
    (s.sequencingManager.corLsaSeq + 1).toUInt32 s.getLsaExpirationTimePoint
    s.confParam.corR s.confParam.corTheta

def ownAdjLsa (s : Nlsr) : AdjLsa :=
  AdjLsa.make s.routerPrefix AdjLsa.typeString (s.sequencingManager.adjLsaSeq + 1).toUInt32
    s.getLsaExpirationTimePoint s.adjacencyList

/-- The event of a stored LSA refreshes an own one and removes another, if its number is the
stored one. -/
def nameLsaEventOp (s : Nlsr) (lsaKey : Name) (seqNo : UInt64) : Op :=
  match s.lsdb.findNameLsa lsaKey with
  | none => .none
  | some chk =>
    if chk.lsSeqNo.toUInt64 = seqNo then
      if chk.origRouter = s.lsdb.thisRouterPrefix then .refreshNameLsa lsaKey
      else .removeNameLsa lsaKey
    else .none

def adjLsaEventOp (s : Nlsr) (lsaKey : Name) (seqNo : UInt64) : Op :=
  match s.lsdb.findAdjLsa lsaKey with
  | none => .none
  | some chk =>
    if chk.lsSeqNo.toUInt64 = seqNo then
      if chk.origRouter = s.lsdb.thisRouterPrefix then .refreshAdjLsa lsaKey
      else .removeAdjLsa lsaKey
    else .none

def coordinateLsaEventOp (s : Nlsr) (lsaKey : Name) (seqNo : UInt64) : Op :=
  match s.lsdb.findCoordinateLsa lsaKey with
  | none => .none
  | some chk =>
    if chk.lsSeqNo.toUInt64 = seqNo then
      if chk.origRouter = s.lsdb.thisRouterPrefix then .refreshCoordinateLsa lsaKey
      else .removeCoordinateLsa lsaKey
    else .none

def buildAdjLsaOp (s : Nlsr) : Op :=
  if s.adjacencyList.isAdjLsaBuildable s.confParam.interestRetryNumber ∧
      narrowToInt s.adjBuildCount > 0 then
    if s.adjacencyList.getNumOfActiveNeighbor > 0 then .install (.adj s.ownAdjLsa)
    else .removeAdjLsa (AdjLsa.key s.routerPrefix)
  else .none

def actionOp (s : Nlsr) : Action → Op
  | .exprireOrRefreshNameLsa lsaKey seqNo => s.nameLsaEventOp lsaKey seqNo
  | .exprireOrRefreshAdjLsa lsaKey seqNo => s.adjLsaEventOp lsaKey seqNo
  | .exprireOrRefreshCoordinateLsa lsaKey seqNo => s.coordinateLsaEventOp lsaKey seqNo
  | .buildAdjLsa => s.buildAdjLsaOp
  | .calculate => .calculate
  | .removeFibEntry name => .fibRemove name

/-- What an action can do: nothing, or the refresh or the removal of a stored LSA, or the install or
the removal of the own Adjacency LSA, or one of the other two operations. -/
inductive ActionOp (s : Nlsr) : Action → Op → Prop
  | none (action : Action) : ActionOp s action .none
  | refreshNameLsa {key : Name} {seqNo : UInt64} {chk : NameLsa}
      (hfind : s.lsdb.findNameLsa key = some chk) (hseq : chk.lsSeqNo.toUInt64 = seqNo)
      (horig : chk.origRouter = s.lsdb.thisRouterPrefix) :
      ActionOp s (.exprireOrRefreshNameLsa key seqNo) (.refreshNameLsa key)
  | removeNameLsa {key : Name} {seqNo : UInt64} {chk : NameLsa}
      (hfind : s.lsdb.findNameLsa key = some chk) (hseq : chk.lsSeqNo.toUInt64 = seqNo)
      (horig : chk.origRouter ≠ s.lsdb.thisRouterPrefix) :
      ActionOp s (.exprireOrRefreshNameLsa key seqNo) (.removeNameLsa key)
  | refreshAdjLsa {key : Name} {seqNo : UInt64} {chk : AdjLsa}
      (hfind : s.lsdb.findAdjLsa key = some chk) (hseq : chk.lsSeqNo.toUInt64 = seqNo)
      (horig : chk.origRouter = s.lsdb.thisRouterPrefix) :
      ActionOp s (.exprireOrRefreshAdjLsa key seqNo) (.refreshAdjLsa key)
  | removeAdjLsa {key : Name} {seqNo : UInt64} {chk : AdjLsa}
      (hfind : s.lsdb.findAdjLsa key = some chk) (hseq : chk.lsSeqNo.toUInt64 = seqNo)
      (horig : chk.origRouter ≠ s.lsdb.thisRouterPrefix) :
      ActionOp s (.exprireOrRefreshAdjLsa key seqNo) (.removeAdjLsa key)
  | refreshCoordinateLsa {key : Name} {seqNo : UInt64} {chk : CoordinateLsa}
      (hfind : s.lsdb.findCoordinateLsa key = some chk) (hseq : chk.lsSeqNo.toUInt64 = seqNo)
      (horig : chk.origRouter = s.lsdb.thisRouterPrefix) :
      ActionOp s (.exprireOrRefreshCoordinateLsa key seqNo) (.refreshCoordinateLsa key)
  | removeCoordinateLsa {key : Name} {seqNo : UInt64} {chk : CoordinateLsa}
      (hfind : s.lsdb.findCoordinateLsa key = some chk) (hseq : chk.lsSeqNo.toUInt64 = seqNo)
      (horig : chk.origRouter ≠ s.lsdb.thisRouterPrefix) :
      ActionOp s (.exprireOrRefreshCoordinateLsa key seqNo) (.removeCoordinateLsa key)
  | installOwn : ActionOp s .buildAdjLsa (.install (.adj s.ownAdjLsa))
  | removeOwn : ActionOp s .buildAdjLsa (.removeAdjLsa (AdjLsa.key s.routerPrefix))
  | calculate : ActionOp s .calculate .calculate
  | fibRemove (name : Name) : ActionOp s (.removeFibEntry name) (.fibRemove name)

theorem actionOp_spec (s : Nlsr) (action : Action) : s.ActionOp action (s.actionOp action) := by
  cases action with
  | exprireOrRefreshNameLsa lsaKey seqNo =>
    simp only [actionOp, nameLsaEventOp]
    cases hfind : s.lsdb.findNameLsa lsaKey with
    | none => exact .none _
    | some chk =>
      dsimp only
      split_ifs with hseq horig
      · exact .refreshNameLsa hfind hseq horig
      · exact .removeNameLsa hfind hseq horig
      · exact .none _
  | exprireOrRefreshAdjLsa lsaKey seqNo =>
    simp only [actionOp, adjLsaEventOp]
    cases hfind : s.lsdb.findAdjLsa lsaKey with
    | none => exact .none _
    | some chk =>
      dsimp only
      split_ifs with hseq horig
      · exact .refreshAdjLsa hfind hseq horig
      · exact .removeAdjLsa hfind hseq horig
      · exact .none _
  | exprireOrRefreshCoordinateLsa lsaKey seqNo =>
    simp only [actionOp, coordinateLsaEventOp]
    cases hfind : s.lsdb.findCoordinateLsa lsaKey with
    | none => exact .none _
    | some chk =>
      dsimp only
      split_ifs with hseq horig
      · exact .refreshCoordinateLsa hfind hseq horig
      · exact .removeCoordinateLsa hfind hseq horig
      · exact .none _
  | buildAdjLsa =>
    simp only [actionOp, buildAdjLsaOp]
    split_ifs
    · exact .installOwn
    · exact .removeOwn
    · exact .none _
  | calculate => exact .calculate
  | removeFibEntry name => exact .fibRemove name

def fireOp (s : Nlsr) (id : Nat) : Op :=
  match s.pendingAction id with
  | some action => s.actionOp action
  | none => .none

def advertiseOp (s : Nlsr) (name : Name) : Op :=
  if s.namePrefixList.contains name then .none
  else
    let s := { s with namePrefixList := s.namePrefixList.insert name }
    .install (.name s.ownNameLsa)

def withdrawOp (s : Nlsr) (name : Name) : Op :=
  if s.namePrefixList.contains name then
    let s := { s with namePrefixList := s.namePrefixList.remove name }
    .install (.name s.ownNameLsa)
  else .none

/-- The operation of a step. -/
def opOf (s : Nlsr) : Event → Op
  | .installNameLsa nlsa => .install (.name { nlsa with expiringEventId := none })
  | .installAdjLsa alsa => .install (.adj { alsa with expiringEventId := none })
  | .installCoordinateLsa clsa => .install (.coordinate { clsa with expiringEventId := none })
  | .removeNameLsa key => .removeNameLsa key
  | .removeAdjLsa key => .removeAdjLsa key
  | .removeCoordinateLsa key => .removeCoordinateLsa key
  | .fire id => s.fireOp id
  | .buildAndInstallOwnNameLsa => .install (.name s.ownNameLsa)
  | .buildAndInstallOwnCoordinateLsa => .install (.coordinate s.ownCoordinateLsa)
  | .advertise name => s.advertiseOp name
  | .withdraw name => s.withdrawOp name
  | _ => .none

/-! ## The rest is quiet -/

/-- The tables, the configuration and this router's prefix are the same. -/
structure Quiet (s t : Nlsr) : Prop where
  confParam : t.confParam = s.confParam
  thisRouterPrefix : t.lsdb.thisRouterPrefix = s.lsdb.thisRouterPrefix
  nameLsdb : t.lsdb.nameLsdb = s.lsdb.nameLsdb
  adjLsdb : t.lsdb.adjLsdb = s.lsdb.adjLsdb
  corLsdb : t.lsdb.corLsdb = s.lsdb.corLsdb
  namePrefixTable : t.namePrefixTable = s.namePrefixTable
  fibTable : t.fib.table = s.fib.table
  routingTable : t.routingTable = s.routingTable

theorem Quiet.refl (s : Nlsr) : Quiet s s := ⟨rfl, rfl, rfl, rfl, rfl, rfl, rfl, rfl⟩

theorem Quiet.symm {s t : Nlsr} (h : Quiet s t) : Quiet t s where
  confParam := h.confParam.symm
  thisRouterPrefix := h.thisRouterPrefix.symm
  nameLsdb := h.nameLsdb.symm
  adjLsdb := h.adjLsdb.symm
  corLsdb := h.corLsdb.symm
  namePrefixTable := h.namePrefixTable.symm
  fibTable := h.fibTable.symm
  routingTable := h.routingTable.symm

theorem Quiet.trans {s t u : Nlsr} (h₁ : Quiet s t) (h₂ : Quiet t u) : Quiet s u where
  confParam := h₂.confParam.trans h₁.confParam
  thisRouterPrefix := h₂.thisRouterPrefix.trans h₁.thisRouterPrefix
  nameLsdb := h₂.nameLsdb.trans h₁.nameLsdb
  adjLsdb := h₂.adjLsdb.trans h₁.adjLsdb
  corLsdb := h₂.corLsdb.trans h₁.corLsdb
  namePrefixTable := h₂.namePrefixTable.trans h₁.namePrefixTable
  fibTable := h₂.fibTable.trans h₁.fibTable
  routingTable := h₂.routingTable.trans h₁.routingTable

theorem Quiet.routerPrefix {s t : Nlsr} (h : Quiet s t) : t.routerPrefix = s.routerPrefix :=
  congrArg ConfParameter.routerPrefix h.confParam

theorem Quiet.sameTables {s t : Nlsr} (h : Quiet s t) : SameTables s t :=
  ⟨h.confParam, h.namePrefixTable, h.fibTable, h.routingTable⟩

theorem OnlyHello.quiet {s t : Nlsr} (h : OnlyHello s t) : Quiet s t := by
  rw [OnlyHello] at h
  rw [h]
  exact ⟨rfl, rfl, rfl, rfl, rfl, rfl, rfl, rfl⟩

theorem quiet_scheduleRoutingTableCalculation (s : Nlsr) :
    Quiet s s.scheduleRoutingTableCalculation := by
  unfold scheduleRoutingTableCalculation
  split_ifs <;> exact ⟨rfl, rfl, rfl, rfl, rfl, rfl, rfl, rfl⟩

theorem quiet_scheduleIfHyperbolic (s : Nlsr) : Quiet s s.scheduleIfHyperbolic := by
  unfold scheduleIfHyperbolic
  split_ifs
  · exact quiet_scheduleRoutingTableCalculation s
  · exact Quiet.refl s

/-! ## Every step -/

/-- A state is reached from another by an operation between quiet changes. -/
def Does (math : MathLib) (s t : Nlsr) (op : Op) : Prop :=
  ∃ s₁, Quiet s s₁ ∧ Quiet (s₁.apply math op) t

theorem does_none {math : MathLib} {s t : Nlsr} (h : Quiet s t) : Does math s t .none :=
  ⟨s, Quiet.refl s, h⟩

theorem does_exprireOrRefreshNameLsa (math : MathLib) (s : Nlsr) (lsaKey : Name)
    (seqNo : UInt64) :
    Does math s (s.exprireOrRefreshNameLsa lsaKey seqNo) (s.nameLsaEventOp lsaKey seqNo) := by
  refine ⟨s, Quiet.refl s, ?_⟩
  unfold exprireOrRefreshNameLsa nameLsaEventOp
  cases h : s.lsdb.findNameLsa lsaKey with
  | none => exact Quiet.refl s
  | some chk =>
    dsimp only
    split_ifs
    · dsimp only [apply]
      rw [h]
      exact Quiet.refl _
    · exact Quiet.refl _
    · exact Quiet.refl s

theorem does_exprireOrRefreshAdjLsa (math : MathLib) (s : Nlsr) (lsaKey : Name)
    (seqNo : UInt64) :
    Does math s (s.exprireOrRefreshAdjLsa lsaKey seqNo) (s.adjLsaEventOp lsaKey seqNo) := by
  refine ⟨s, Quiet.refl s, ?_⟩
  unfold exprireOrRefreshAdjLsa adjLsaEventOp
  cases h : s.lsdb.findAdjLsa lsaKey with
  | none => exact Quiet.refl s
  | some chk =>
    dsimp only
    split_ifs
    · dsimp only [apply]
      rw [h]
      exact quiet_scheduleRoutingTableCalculation _
    · exact quiet_scheduleRoutingTableCalculation _
    · exact Quiet.refl s

theorem does_exprireOrRefreshCoordinateLsa (math : MathLib) (s : Nlsr) (lsaKey : Name)
    (seqNo : UInt64) :
    Does math s (s.exprireOrRefreshCoordinateLsa lsaKey seqNo)
      (s.coordinateLsaEventOp lsaKey seqNo) := by
  refine ⟨s, Quiet.refl s, ?_⟩
  unfold exprireOrRefreshCoordinateLsa coordinateLsaEventOp
  cases h : s.lsdb.findCoordinateLsa lsaKey with
  | none => exact Quiet.refl s
  | some chk =>
    dsimp only
    split_ifs
    · dsimp only [apply]
      rw [h]
      exact quiet_scheduleIfHyperbolic _
    · exact quiet_scheduleIfHyperbolic _
    · exact Quiet.refl s

theorem does_buildAdjLsa (math : MathLib) (s : Nlsr) :
    Does math s s.buildAdjLsa s.buildAdjLsaOp := by
  unfold buildAdjLsa buildAdjLsaOp
  dsimp only
  by_cases hbuildable : s.adjacencyList.isAdjLsaBuildable s.confParam.interestRetryNumber = true
  · rw [if_pos hbuildable]
    by_cases hcount : narrowToInt s.adjBuildCount > 0
    · have hboth := And.intro hbuildable hcount
      rw [if_pos hcount, if_pos hboth]
      by_cases hactive : s.adjacencyList.getNumOfActiveNeighbor > 0
      · -- The own LSA is built from a state that has announced its number
        rw [if_pos hactive, if_pos hactive]
        let s₁ : Nlsr := ({ s with
          isBuildAdjLsaSheduled := false
          sequencingManager := s.sequencingManager.increaseAdjLsaSeq } : Nlsr).publishRoutingUpdate
        exact ⟨s₁, ⟨rfl, rfl, rfl, rfl, rfl, rfl, rfl, rfl⟩,
          ⟨rfl, rfl, rfl, rfl, rfl, rfl, rfl, rfl⟩⟩
      · rw [if_neg hactive, if_neg hactive]
        refine ⟨{ s with isBuildAdjLsaSheduled := false },
          ⟨rfl, rfl, rfl, rfl, rfl, rfl, rfl, rfl⟩, ?_⟩
        exact (quiet_scheduleRoutingTableCalculation _).trans
          ⟨rfl, rfl, rfl, rfl, rfl, rfl, rfl, rfl⟩
    · have hnot := fun (h : s.adjacencyList.isAdjLsaBuildable s.confParam.interestRetryNumber ∧
        narrowToInt s.adjBuildCount > 0) => hcount h.2
      rw [if_neg hcount, if_neg hnot]
      exact does_none ⟨rfl, rfl, rfl, rfl, rfl, rfl, rfl, rfl⟩
  · have hnot := fun (h : s.adjacencyList.isAdjLsaBuildable s.confParam.interestRetryNumber ∧
      narrowToInt s.adjBuildCount > 0) => hbuildable h.1
    rw [if_neg hbuildable, if_neg hnot]
    exact does_none ⟨rfl, rfl, rfl, rfl, rfl, rfl, rfl, rfl⟩

/-- The action of an event, run in the state without the event. -/
theorem does_runAction (math : MathLib) (s : Nlsr) (eid : Option Nat) (action : Action) :
    Does math s ((s.cancelEvent eid).runAction math action) (s.actionOp action) := by
  have hcancel : Quiet s (s.cancelEvent eid) := ⟨rfl, rfl, rfl, rfl, rfl, rfl, rfl, rfl⟩
  have hdoes : Does math (s.cancelEvent eid) ((s.cancelEvent eid).runAction math action)
      ((s.cancelEvent eid).actionOp action) := by
    cases action with
    | exprireOrRefreshNameLsa lsaKey seqNo => exact does_exprireOrRefreshNameLsa ..
    | exprireOrRefreshAdjLsa lsaKey seqNo => exact does_exprireOrRefreshAdjLsa ..
    | exprireOrRefreshCoordinateLsa lsaKey seqNo => exact does_exprireOrRefreshCoordinateLsa ..
    | buildAdjLsa => exact does_buildAdjLsa ..
    | calculate => exact ⟨_, Quiet.refl _, Quiet.refl _⟩
    | removeFibEntry name => exact ⟨_, Quiet.refl _, Quiet.refl _⟩
  have hop : (s.cancelEvent eid).actionOp action = s.actionOp action := by
    cases action <;> rfl
  obtain ⟨s₁, h₁, h₂⟩ := hdoes
  exact ⟨s₁, hcancel.trans h₁, hop ▸ h₂⟩

theorem does_fire (math : MathLib) (s : Nlsr) (id : Nat) :
    Does math s (s.fire math id) (s.fireOp id) := by
  unfold fire fireOp
  cases s.pendingAction id with
  | none => exact does_none (Quiet.refl s)
  | some action => exact does_runAction math s (some id) action

theorem does_buildAndInstallOwnNameLsa (math : MathLib) {s s₀ : Nlsr} (h : Quiet s s₀) :
    Does math s s₀.buildAndInstallOwnNameLsa (.install (.name s₀.ownNameLsa)) :=
  ⟨{ s₀ with sequencingManager := s₀.sequencingManager.increaseNameLsaSeq },
    h.trans ⟨rfl, rfl, rfl, rfl, rfl, rfl, rfl, rfl⟩, Quiet.refl _⟩

theorem quiet_publishRoutingUpdate (s : Nlsr) : Quiet s s.publishRoutingUpdate :=
  ⟨rfl, rfl, rfl, rfl, rfl, rfl, rfl, rfl⟩

theorem does_advertise (math : MathLib) (s : Nlsr) (name : Name) :
    Does math s (s.advertise name) (s.advertiseOp name) := by
  unfold advertise advertiseOp
  split_ifs
  · exact does_none (Quiet.refl s)
  · let s₀ : Nlsr := { s with namePrefixList := s.namePrefixList.insert name }
    have hquiet : Quiet s s₀ := ⟨rfl, rfl, rfl, rfl, rfl, rfl, rfl, rfl⟩
    obtain ⟨s₁, h₁, h₂⟩ := does_buildAndInstallOwnNameLsa math hquiet
    exact ⟨s₁, h₁, h₂.trans (quiet_publishRoutingUpdate _)⟩

theorem does_withdraw (math : MathLib) (s : Nlsr) (name : Name) :
    Does math s (s.withdraw name) (s.withdrawOp name) := by
  unfold withdraw withdrawOp
  split_ifs
  · let s₀ : Nlsr := { s with namePrefixList := s.namePrefixList.remove name }
    have hquiet : Quiet s s₀ := ⟨rfl, rfl, rfl, rfl, rfl, rfl, rfl, rfl⟩
    obtain ⟨s₁, h₁, h₂⟩ := does_buildAndInstallOwnNameLsa math hquiet
    exact ⟨s₁, h₁, h₂.trans (quiet_publishRoutingUpdate _)⟩
  · exact does_none (Quiet.refl s)

/-- **A step is its operation between quiet changes.** -/
theorem step_spec (math : MathLib) (s : Nlsr) (e : Event) :
    Does math s (s.step math e) (s.opOf e) := by
  cases e with
  | installNameLsa nlsa => exact ⟨s, Quiet.refl s, Quiet.refl _⟩
  | installAdjLsa alsa => exact ⟨s, Quiet.refl s, Quiet.refl _⟩
  | installCoordinateLsa clsa => exact ⟨s, Quiet.refl s, Quiet.refl _⟩
  | removeNameLsa key => exact ⟨s, Quiet.refl s, Quiet.refl _⟩
  | removeAdjLsa key => exact ⟨s, Quiet.refl s, Quiet.refl _⟩
  | removeCoordinateLsa key => exact ⟨s, Quiet.refl s, Quiet.refl _⟩
  | fire id => exact does_fire math s id
  | buildAndInstallOwnNameLsa => exact does_buildAndInstallOwnNameLsa math (Quiet.refl s)
  | buildAndInstallOwnCoordinateLsa =>
    exact ⟨{ s with sequencingManager := s.sequencingManager.increaseCorLsaSeq },
      ⟨rfl, rfl, rfl, rfl, rfl, rfl, rfl, rfl⟩, Quiet.refl _⟩
  | publishRoutingUpdate => exact does_none (quiet_publishRoutingUpdate s)
  | scheduleAdjLsaBuild => exact does_none (onlyHello_scheduleAdjLsaBuild s).quiet
  | helloTimedOut interestName =>
    exact does_none (onlyHello_processInterestTimedOut s interestName).quiet
  | helloValidated dataName => exact does_none (onlyHello_onHelloValidated s dataName).quiet
  | registrationSuccess neighbor faceId =>
    exact does_none (onlyHello_onRegistrationSuccess s neighbor faceId).quiet
  | registrationFailure neighbor =>
    exact does_none (onlyHello_onRegistrationFailure s neighbor).quiet
  | faceDestroyed faceId => exact does_none (onlyHello_onFaceDestroyed s faceId).quiet
  | advertise name => exact does_advertise math s name
  | withdraw name => exact does_withdraw math s name
  | clock now => exact does_none ⟨rfl, rfl, rfl, rfl, rfl, rfl, rfl, rfl⟩

/-! ## The start -/

/-- The state of a router after its start and a list of events. -/
def after (math : MathLib) (confParam : ConfParameter) (adjacencyList : AdjacencyList)
    (namePrefixList : NamePrefixList) (seqFile : Option UInt64) (now : TimePoint)
    (es : List Event) : Nlsr :=
  run (step math) (start confParam adjacencyList namePrefixList seqFile now).initializeNlsr es

/-- The state in which `initialize` begins to build LSAs. -/
def initiated (confParam : ConfParameter) (adjacencyList : AdjacencyList)
    (namePrefixList : NamePrefixList) (seqFile : Option UInt64) (now : TimePoint) : Nlsr :=
  { (start confParam adjacencyList namePrefixList seqFile now).configure with
    sequencingManager := SequencingManager.initiateSeqNoFromFile seqFile }

theorem name_free (a : Adjacent) : ({ a with linkCost := 0 } : Adjacent).name = a.name := rfl

/-- The neighbours as hyperbolic routing wants them: they cost nothing. -/
def freeLinks (l : AdjacencyList) : AdjacencyList :=
  l.mapValues (fun a => { a with linkCost := 0 }) name_free

/-- What holds after the two builds of `initialize`, and does not mind the free links, holds after
it. -/
theorem initializeNlsr_of_built {P : Nlsr → Prop}
    (hset : ∀ s, P s → P (s.setAdjacencyList (freeLinks s.adjacencyList)))
    {confParam : ConfParameter} {adjacencyList : AdjacencyList} {namePrefixList : NamePrefixList}
    {seqFile : Option UInt64} {now : TimePoint}
    (h : P (initiated confParam adjacencyList namePrefixList seqFile
      now).buildAndInstallOwnNameLsa.buildAndInstallOwnCoordinateLsa) :
    P (start confParam adjacencyList namePrefixList seqFile now).initializeNlsr := by
  unfold initializeNlsr
  dsimp only
  split_ifs
  · exact hset _ h
  · exact h

/-- **What the two builds of `initialize` keep holds after it.** -/
theorem initializeNlsr_of_step {P : Nlsr → Prop} (math : MathLib)
    (hname : ∀ s, P s → P (s.step math .buildAndInstallOwnNameLsa))
    (hcor : ∀ s, P s → P (s.step math .buildAndInstallOwnCoordinateLsa))
    (hset : ∀ s, P s → P (s.setAdjacencyList (freeLinks s.adjacencyList)))
    {confParam : ConfParameter} {adjacencyList : AdjacencyList} {namePrefixList : NamePrefixList}
    {seqFile : Option UInt64} {now : TimePoint}
    (h : P (initiated confParam adjacencyList namePrefixList seqFile now)) :
    P (start confParam adjacencyList namePrefixList seqFile now).initializeNlsr :=
  initializeNlsr_of_built hset (hcor _ (hname _ h))

/-- All tables are empty. -/
structure Blank (s : Nlsr) : Prop where
  nameLsdb : s.lsdb.nameLsdb = KeyedList.empty
  adjLsdb : s.lsdb.adjLsdb = KeyedList.empty
  corLsdb : s.lsdb.corLsdb = KeyedList.empty
  namePrefixTable : s.namePrefixTable = KeyedList.empty
  fibTable : s.fib.table = KeyedList.empty
  rTable : s.routingTable.rTable = KeyedList.empty

/-- **What holds of empty tables and is kept by quiet changes and own installs holds at the
start.** -/
theorem initializeNlsr_induction {P : Nlsr → Prop} (hblank : ∀ s, Blank s → P s)
    (hquiet : ∀ s t, Quiet s t → P s → P t)
    (hinstall : ∀ s l, l.origRouter = s.routerPrefix → P s → P (s.install l))
    (confParam : ConfParameter) (adjacencyList : AdjacencyList)
    (namePrefixList : NamePrefixList) (seqFile : Option UInt64) (now : TimePoint) :
    P (start confParam adjacencyList namePrefixList seqFile now).initializeNlsr := by
  have h₁ : P (initiated confParam adjacencyList namePrefixList seqFile now) :=
    hblank _ ⟨rfl, rfl, rfl, rfl, rfl, rfl⟩
  have hname : ∀ u : Nlsr, P u → P u.buildAndInstallOwnNameLsa := fun u hu => by
    let u' : Nlsr := { u with sequencingManager := u.sequencingManager.increaseNameLsaSeq }
    have hu' : P u' := hquiet u u' ⟨rfl, rfl, rfl, rfl, rfl, rfl, rfl, rfl⟩ hu
    refine hinstall u' (.name u.ownNameLsa) ?_ hu'
    show (NameLsa.make ..).origRouter = _
    rw [NameLsa.make_eq]
    rfl
  have hcor : ∀ u : Nlsr, P u → P u.buildAndInstallOwnCoordinateLsa := fun u hu => by
    let u' : Nlsr := { u with sequencingManager := u.sequencingManager.increaseCorLsaSeq }
    have hu' : P u' := hquiet u u' ⟨rfl, rfl, rfl, rfl, rfl, rfl, rfl, rfl⟩ hu
    exact hinstall u' (.coordinate u.ownCoordinateLsa) rfl hu'
  exact initializeNlsr_of_built (P := P)
    (fun s => hquiet s _ (onlyHello_setAdjacencyList ..).quiet) (hcor _ (hname _ h₁))

end Nlsr

end LinkState
