import LinkState.Lsa
import LinkState.NextHop
import LinkState.SequencingManager

/-!
# The state of a router

All tables of the daemon in one record. The components of the source reach each other through
references to the one `Nlsr` object, so each member function becomes a function from `Nlsr`
to `Nlsr`.

The scheduler is the list of pending events. An event is named by its id, which is never used
again: every pending id is below the next one. Cancelling an id that has fired or was never
given does nothing.
-/

namespace LinkState

/-- A span of time, in nanoseconds. -/
abbrev Duration := Int

def seconds (n : Int) : Duration := n * 1000000000

/-- `duration_cast<seconds>`: whole seconds, rounded towards zero. -/
def toSeconds (d : Duration) : Int := d.tdiv 1000000000

/-! ## Configuration -/

inductive HyperbolicState
  | off
  | on
  | dryRun
  deriving DecidableEq

/-- The numbers of the enumeration, which the source compares by `>=`. -/
def HyperbolicState.toNat : HyperbolicState → Nat
  | .off => 0
  | .on => 1
  | .dryRun => 2

structure ConfParameter where
  network : Name := []
  siteName : Name := []
  routerName : Name := []
  lsaRefreshTime : UInt32 := 1800
  adjLsaBuildInterval : UInt32 := 5
  routingCalcInterval : UInt32 := 15
  routerDeadInterval : UInt32 := 3600
  interestRetryNumber : UInt32 := 3
  interestResendTime : UInt32 := 3
  hyperbolicState : HyperbolicState := .off
  corR : Double := 0
  corTheta : Double := 0
  maxFacesPerPrefix : UInt32 := 0

namespace ConfParameter

/-- The prefix `buildRouterPrefix` makes. -/
def routerPrefix (conf : ConfParameter) : Name := conf.network ++ conf.siteName ++ conf.routerName

/-- The prefix `setNetwork` makes. -/
def lsaPrefix (conf : ConfParameter) : Name :=
  conf.network ++ [Component.mk "NLSR", Component.mk "LSA"]

end ConfParameter

/-! ## The scheduler -/

/-- What a scheduled event runs. -/
inductive Action
  | exprireOrRefreshNameLsa (lsaKey : Name) (seqNo : UInt64)
  | exprireOrRefreshAdjLsa (lsaKey : Name) (seqNo : UInt64)
  | exprireOrRefreshCoordinateLsa (lsaKey : Name) (seqNo : UInt64)
  | buildAdjLsa
  | calculate
  | removeFibEntry (name : Name)
  deriving DecidableEq

structure ScheduledEvent where
  id : Nat
  due : TimePoint
  action : Action
  deriving DecidableEq

theorem ScheduledEvent.fresh_empty :
    ∀ e ∈ (KeyedList.empty : KeyedList ScheduledEvent.id), e.id < 0 := by simp

/-- The pending events, and the id the next one gets. -/
structure Scheduler where
  events : KeyedList ScheduledEvent.id := KeyedList.empty
  nextId : Nat := 0
  fresh : ∀ e ∈ events, e.id < nextId := by exact ScheduledEvent.fresh_empty

namespace Scheduler

/-- Put an event in; its id is the number returned. -/
def scheduleEvent (sch : Scheduler) (due : TimePoint) (action : Action) : Scheduler × Nat :=
  ({ events := sch.events.insert ⟨sch.nextId, due, action⟩
     nextId := sch.nextId + 1
     fresh := fun e he => by
       rcases KeyedList.mem_insert.1 he with he | ⟨rfl, -⟩
       · exact Nat.lt_succ_of_lt (sch.fresh e he)
       · exact Nat.lt_succ_self _ }, sch.nextId)

def cancelEvent (sch : Scheduler) (eid : Option Nat) : Scheduler :=
  { sch with
    events := sch.events.filter fun e => eid ≠ some e.id
    fresh := fun e he => sch.fresh e (KeyedList.mem_filter.1 he).1 }

theorem mem_scheduleEvent {sch : Scheduler} {due : TimePoint} {action : Action}
    {e : ScheduledEvent} :
    e ∈ (sch.scheduleEvent due action).1.events ↔
      e ∈ sch.events ∨ e = ⟨sch.nextId, due, action⟩ := by
  have hnew : sch.events.find? sch.nextId = none :=
    KeyedList.find?_eq_none.2 fun e he => (sch.fresh e he).ne
  simp [scheduleEvent, KeyedList.mem_insert, hnew]

theorem mem_cancelEvent {sch : Scheduler} {eid : Option Nat} {e : ScheduledEvent} :
    e ∈ (sch.cancelEvent eid).events ↔ e ∈ sch.events ∧ eid ≠ some e.id := by
  simp [cancelEvent]

end Scheduler

/-! ## Tables -/

structure NamePrefixTableEntry where
  namePrefix : Name
  rteList : RouteTable := KeyedList.empty
  nexthopList : NexthopList := KeyedList.empty
  deriving DecidableEq

structure FibEntry where
  name : Name
  expirationTimePoint : TimePoint := 0
  expiringEventId : Option Nat := none
  seqNo : Int := 0
  nexthopList : NexthopList := KeyedList.empty
  deriving DecidableEq

structure FaceMapEntry where
  faceUri : String
  faceId : UInt32
  deriving DecidableEq

/-- A command to the forwarder's RIB manager. The answer to a registration is handled with the
face URI and the number of failures so far. -/
inductive RibCommand
  | register (name : Name) (faceId : UInt64) (cost : Nat) (expirationPeriod : Duration)
      (faceUri : String) (times : UInt8)
  | unregister (name : Name) (faceId : UInt32)
  deriving DecidableEq

structure Fib where
  table : KeyedList FibEntry.name := KeyedList.empty
  refreshTime : Int := 0
  faceMap : KeyedList FaceMapEntry.faceUri := KeyedList.empty
  /-- The commands sent and not yet taken by the forwarder, the first one first. -/
  commands : List RibCommand := []
  deriving DecidableEq

structure RoutingTable where
  rTable : RouteTable := KeyedList.empty
  dryTable : RouteTable := KeyedList.empty
  routingCalcInterval : UInt32 := 15
  deriving DecidableEq

structure Lsdb where
  nameLsdb : KeyedList NameLsa.getKey := KeyedList.empty
  adjLsdb : KeyedList AdjLsa.getKey := KeyedList.empty
  corLsdb : KeyedList CoordinateLsa.getKey := KeyedList.empty
  lsaRefreshTime : Duration := 0
  /-- Kept as a URI and read back as a name where it is compared. -/
  thisRouterPrefix : Name := []
  adjLsaBuildInterval : UInt32 := 5
  seqNo : UInt64 := 0
  deriving DecidableEq

/-! ## The router -/

structure Nlsr where
  /-- The clock. -/
  now : TimePoint := 0
  scheduler : Scheduler := {}
  confParam : ConfParameter
  adjacencyList : AdjacencyList := KeyedList.empty
  namePrefixList : NamePrefixList := KeyedList.empty
  sequencingManager : SequencingManager := SequencingManager.init
  lsdb : Lsdb := {}
  /-- `m_adjBuildCount`. It is taken never to leave its 64 bits. -/
  adjBuildCount : Int := 0
  isBuildAdjLsaSheduled : Bool := false
  isRouteCalculationScheduled : Bool := false
  isRoutingTableCalculating : Bool := false
  routingTable : RoutingTable := {}
  fib : Fib := {}
  namePrefixTable : KeyedList NamePrefixTableEntry.namePrefix := KeyedList.empty
  /-- The sequence file: absent, or the number in it. -/
  seqFile : Option UInt64 := none
  /-- The combined numbers announced to the other routers, the first one first. -/
  published : List UInt64 := []

namespace Nlsr

/-- Schedule an action after a delay; the id of the event is returned. -/
def scheduleEvent (s : Nlsr) (after : Duration) (action : Action) : Nlsr × Nat :=
  let (scheduler, id) := s.scheduler.scheduleEvent (s.now + after) action
  ({ s with scheduler }, id)

def cancelEvent (s : Nlsr) (eid : Option Nat) : Nlsr :=
  { s with scheduler := s.scheduler.cancelEvent eid }

def routerPrefix (s : Nlsr) : Name := s.confParam.routerPrefix

end Nlsr

end LinkState
