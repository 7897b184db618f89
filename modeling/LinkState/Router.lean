import LinkState.HelloProtocol
import LinkState.Library.Run

/-!
# The router as a transition system

`Nlsr.step` is one turn of the event loop: an LSA arrives and is installed, a scheduled event
fires, a neighbour answers or does not, a prefix command is carried out, time passes. Events
fire in any order; whether their time has come is not asked, so every schedule of the real
event loop is among the runs.

`initializeNlsr` is the start of the daemon.
-/

namespace LinkState

/-- What can happen to a router. -/
inductive Event
  | installNameLsa (nlsa : NameLsa)
  | installAdjLsa (alsa : AdjLsa)
  | installCoordinateLsa (clsa : CoordinateLsa)
  | removeNameLsa (key : Name)
  | removeAdjLsa (key : Name)
  | removeCoordinateLsa (key : Name)
  /-- The scheduled event with this id fires. -/
  | fire (id : Nat)
  | buildAndInstallOwnNameLsa
  | buildAndInstallOwnCoordinateLsa
  | publishRoutingUpdate
  | scheduleAdjLsaBuild
  | helloTimedOut (interestName : Name)
  | helloValidated (dataName : Name)
  | registrationSuccess (neighbor : Name) (faceId : UInt64)
  | registrationFailure (neighbor : Name)
  | faceDestroyed (faceId : UInt64)
  | advertise (name : Name)
  | withdraw (name : Name)
  /-- The clock shows a new time. -/
  | clock (now : TimePoint)

namespace Nlsr

/-- Run the action of a scheduled event. -/
def runAction (math : MathLib) (s : Nlsr) : Action → Nlsr
  | .exprireOrRefreshNameLsa lsaKey seqNo => s.exprireOrRefreshNameLsa lsaKey seqNo
  | .exprireOrRefreshAdjLsa lsaKey seqNo => s.exprireOrRefreshAdjLsa lsaKey seqNo
  | .exprireOrRefreshCoordinateLsa lsaKey seqNo => s.exprireOrRefreshCoordinateLsa lsaKey seqNo
  | .buildAdjLsa => s.buildAdjLsa
  | .calculate => s.calculate math
  | .removeFibEntry name => s.fibRemove name

/-- The action of the pending event with an id. -/
def pendingAction (s : Nlsr) (id : Nat) : Option Action :=
  (s.scheduler.events.find? id).map ScheduledEvent.action

/-- An event leaves the scheduler when it fires. -/
def fire (math : MathLib) (s : Nlsr) (id : Nat) : Nlsr :=
  match s.pendingAction id with
  | some action => (s.cancelEvent (some id)).runAction math action
  | none => s

/-- `PrefixUpdateProcessor::advertise`: build and announce only if the name is new. -/
def advertise (s : Nlsr) (name : Name) : Nlsr :=
  if s.namePrefixList.contains name then s
  else
    let s := { s with namePrefixList := s.namePrefixList.insert name }
    s.buildAndInstallOwnNameLsa.publishRoutingUpdate

/-- `PrefixUpdateProcessor::withdraw`: build and announce only if the name was there. -/
def withdraw (s : Nlsr) (name : Name) : Nlsr :=
  if s.namePrefixList.contains name then
    let s := { s with namePrefixList := s.namePrefixList.remove name }
    s.buildAndInstallOwnNameLsa.publishRoutingUpdate
  else s

/-- **One turn of the event loop.** -/
def step (math : MathLib) (s : Nlsr) : Event → Nlsr
  -- An LSA that arrives has no expiration event yet
  | .installNameLsa nlsa => s.installNameLsa { nlsa with expiringEventId := none }
  | .installAdjLsa alsa => s.installAdjLsa { alsa with expiringEventId := none }
  | .installCoordinateLsa clsa => s.installCoordinateLsa { clsa with expiringEventId := none }
  | .removeNameLsa key => s.removeNameLsa key
  | .removeAdjLsa key => s.removeAdjLsa key
  | .removeCoordinateLsa key => s.removeCoordinateLsa key
  | .fire id => s.fire math id
  | .buildAndInstallOwnNameLsa => s.buildAndInstallOwnNameLsa
  | .buildAndInstallOwnCoordinateLsa => s.buildAndInstallOwnCoordinateLsa
  | .publishRoutingUpdate => s.publishRoutingUpdate
  | .scheduleAdjLsaBuild => s.scheduleAdjLsaBuild
  | .helloTimedOut interestName => s.processInterestTimedOut interestName
  | .helloValidated dataName => s.onHelloValidated dataName
  | .registrationSuccess neighbor faceId => s.onRegistrationSuccess neighbor faceId
  | .registrationFailure neighbor => s.onRegistrationFailure neighbor
  | .faceDestroyed faceId => s.onFaceDestroyed faceId
  | .advertise name => s.advertise name
  | .withdraw name => s.withdraw name
  | .clock now => { s with now }

/-- What a configured daemon is before `initialize`: nothing learnt, nothing scheduled. -/
def start (confParam : ConfParameter) (adjacencyList : AdjacencyList)
    (namePrefixList : NamePrefixList) (seqFile : Option UInt64) (now : TimePoint) : Nlsr :=
  { confParam, adjacencyList, namePrefixList, seqFile, now }

/-- The settings `initialize` hands to the components. -/
def configure (s : Nlsr) : Nlsr :=
  { s with
    lsdb := { s.lsdb with
      lsaRefreshTime := seconds s.confParam.lsaRefreshTime.toNat
      thisRouterPrefix := s.routerPrefix
      adjLsaBuildInterval := s.confParam.adjLsaBuildInterval }
    fib := { s.fib with refreshTime := (2 * s.confParam.lsaRefreshTime).toInt32.toInt }
    routingTable := { s.routingTable with
      routingCalcInterval := s.confParam.routingCalcInterval } }

/-- `Nlsr::initialize`. -/
def initializeNlsr (s : Nlsr) : Nlsr :=
  let s := s.configure
  let s := { s with sequencingManager := SequencingManager.initiateSeqNoFromFile s.seqFile }
  let s := s.buildAndInstallOwnNameLsa.buildAndInstallOwnCoordinateLsa
  -- Direct neighbours cost 0 in hyperbolic routing
  if s.confParam.hyperbolicState = .on then
    s.setAdjacencyList (s.adjacencyList.mapValues (fun a => { a with linkCost := 0 }) fun _ => rfl)
  else s

end Nlsr

end LinkState
