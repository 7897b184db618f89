import LinkState.Lsdb

/-!
# The Hello protocol

A neighbour is probed with Interests named `<neighbor>/NLSR/INFO/<router>`. A reply makes it
ACTIVE, a number of timeouts makes it INACTIVE, and so does the loss of its face; a face that
cannot be made counts as a timeout. Each change of status requests an Adjacency LSA build.

Only the effect on this router is here. The Interests it sends are not.
-/

namespace LinkState

namespace HelloProtocol

/-- `INFO_COMPONENT`. -/
def infoComponent : Component := ⟨"INFO"⟩

/-- `DEFAULT_BROADCAST_PREFIX`. -/
def defaultBroadcastPrefix : Name := [⟨"ndn"⟩, ⟨"broadcast"⟩]

/-- `name.getPrefix(-n)`: all but the last `n` components. -/
def dropLast (name : Name) (n : Nat) : Name := name.take (name.length - n)

/-- `milliseconds::max()`. -/
def maxTimeout : Duration := (2 ^ 63 - 1) * 1000000

end HelloProtocol

namespace Nlsr

open HelloProtocol

def setAdjacencyList (s : Nlsr) (adjacencyList : AdjacencyList) : Nlsr := { s with adjacencyList }

def processInterestTimedOut (s : Nlsr) (interestName : Name) : Nlsr :=
  if fromEnd interestName 2 ≠ some infoComponent then s
  else
    let neighbor := dropLast interestName 3
    let s := s.setAdjacencyList (s.adjacencyList.incrementTimedOutInterestCount neighbor)
    let status := s.adjacencyList.getStatusOfNeighbor neighbor
    let infoIntTimedOutCount := s.adjacencyList.getTimedOutInterestCount neighbor
    if infoIntTimedOutCount < s.confParam.interestRetryNumber then s
    else if status = .active ∧ infoIntTimedOutCount = s.confParam.interestRetryNumber then
      (s.setAdjacencyList
        (s.adjacencyList.setStatusOfNeighbor neighbor .inactive)).scheduleAdjLsaBuild
    else s

/-- `HelloProtocol::onContentValidated`. -/
def onHelloValidated (s : Nlsr) (dataName : Name) : Nlsr :=
  if fromEnd dataName 3 = some infoComponent then
    let neighbor := dropLast dataName 4
    let oldStatus := s.adjacencyList.getStatusOfNeighbor neighbor
    let s := s.setAdjacencyList
      ((s.adjacencyList.setStatusOfNeighbor neighbor .active).setTimedOutInterestCount neighbor 0)
    let newStatus := s.adjacencyList.getStatusOfNeighbor neighbor
    if oldStatus ≠ newStatus then s.scheduleAdjLsaBuild else s
  else s

def onRegistrationSuccess (s : Nlsr) (neighbor : Name) (faceId : UInt64) : Nlsr :=
  match s.adjacencyList.find? neighbor with
  | none => s
  | some adjacent =>
    let s := s.setAdjacencyList (s.adjacencyList.replace { adjacent with faceId })
    let faceUri := adjacent.connectingFaceUri
    let linkCost := adjacent.getLinkCost
    let chronosyncPrefix := s.confParam.network ++ [⟨"NLSR"⟩, ⟨"sync"⟩]
    let broadcastKeyPrefix := defaultBroadcastPrefix ++ [⟨"KEYS"⟩]
    let s := s.registerPrefix chronosyncPrefix faceUri linkCost maxTimeout 0
    let s := s.registerPrefix s.confParam.lsaPrefix faceUri linkCost maxTimeout 0
    s.registerPrefix broadcastKeyPrefix faceUri linkCost maxTimeout 0

def onRegistrationFailure (s : Nlsr) (name : Name) : Nlsr :=
  match s.adjacencyList.find? name with
  | none => s
  | some adjacent =>
    let infoIntTimedOutCount := adjacent.interestTimedOutNo + 1
    let adjacent := { adjacent with interestTimedOutNo := infoIntTimedOutCount }
    if infoIntTimedOutCount = s.confParam.interestRetryNumber then
      let adjacent :=
        if adjacent.status = .active then { adjacent with status := .inactive } else adjacent
      (s.setAdjacencyList (s.adjacencyList.replace adjacent)).scheduleAdjLsaBuild
    else s.setAdjacencyList (s.adjacencyList.replace adjacent)

/-- `Nlsr::onFaceEventNotification` for a destroyed face. -/
def onFaceDestroyed (s : Nlsr) (faceId : UInt64) : Nlsr :=
  match s.adjacencyList.findAdjacentByFaceId faceId with
  | none => s
  | some adjacent =>
    let adjacent := { adjacent with faceId := 0 }
    if adjacent.status = .active then
      let adjacent := { adjacent with
        status := .inactive, interestTimedOutNo := s.confParam.interestRetryNumber }
      (s.setAdjacencyList (s.adjacencyList.replace adjacent)).scheduleAdjLsaBuild
    else s.setAdjacencyList (s.adjacencyList.replace adjacent)

/-! ## What the neighbours change -/

/-- A relation that holds across everything the protocol does: it changes the adjacency list,
requests a build and sends commands. -/
structure HelloClosed (R : Nlsr → Nlsr → Prop) : Prop where
  refl (s : Nlsr) : R s s
  trans {s t u : Nlsr} : R s t → R t u → R s u
  setAdjacencyList (s : Nlsr) (l : AdjacencyList) : R s (s.setAdjacencyList l)
  scheduleAdjLsaBuild (s : Nlsr) : R s s.scheduleAdjLsaBuild
  onlySent {s t : Nlsr} : OnlySent s t → R s t

namespace HelloClosed

variable {R : Nlsr → Nlsr → Prop}

theorem request (h : HelloClosed R) (s : Nlsr) (l : AdjacencyList) :
    R s (s.setAdjacencyList l).scheduleAdjLsaBuild :=
  h.trans (h.setAdjacencyList s l) (h.scheduleAdjLsaBuild _)

theorem processInterestTimedOut (h : HelloClosed R) (s : Nlsr) (interestName : Name) :
    R s (s.processInterestTimedOut interestName) := by
  unfold Nlsr.processInterestTimedOut
  dsimp only
  split_ifs
  · exact h.refl s
  · exact h.setAdjacencyList ..
  · exact h.trans (h.setAdjacencyList ..) (h.request ..)
  · exact h.setAdjacencyList ..

theorem onHelloValidated (h : HelloClosed R) (s : Nlsr) (dataName : Name) :
    R s (s.onHelloValidated dataName) := by
  unfold Nlsr.onHelloValidated
  dsimp only
  split_ifs
  · exact h.request ..
  · exact h.setAdjacencyList ..
  · exact h.refl s

theorem onRegistrationSuccess (h : HelloClosed R) (s : Nlsr) (neighbor : Name)
    (faceId : UInt64) : R s (s.onRegistrationSuccess neighbor faceId) := by
  unfold Nlsr.onRegistrationSuccess
  split
  · exact h.refl s
  · exact h.trans (h.setAdjacencyList ..) (h.onlySent (((onlySent_registerPrefix ..).trans
      (onlySent_registerPrefix ..)).trans (onlySent_registerPrefix ..)))

theorem onRegistrationFailure (h : HelloClosed R) (s : Nlsr) (name : Name) :
    R s (s.onRegistrationFailure name) := by
  unfold Nlsr.onRegistrationFailure
  split
  · exact h.refl s
  · dsimp only
    split_ifs
    · exact h.request ..
    · exact h.request ..
    · exact h.setAdjacencyList ..

theorem onFaceDestroyed (h : HelloClosed R) (s : Nlsr) (faceId : UInt64) :
    R s (s.onFaceDestroyed faceId) := by
  unfold Nlsr.onFaceDestroyed
  split
  · exact h.refl s
  · dsimp only
    split_ifs
    · exact h.request ..
    · exact h.setAdjacencyList ..

end HelloClosed

/-- Nothing but the adjacency list, the request for a build, the scheduler and the commands sent
has changed. -/
def OnlyHello (s t : Nlsr) : Prop :=
  t = { s with
    adjacencyList := t.adjacencyList
    adjBuildCount := t.adjBuildCount
    isBuildAdjLsaSheduled := t.isBuildAdjLsaSheduled
    scheduler := t.scheduler
    fib := { s.fib with commands := t.fib.commands } }

theorem OnlyHello.refl (s : Nlsr) : OnlyHello s s := rfl

theorem OnlyHello.trans {s t u : Nlsr} (h₁ : OnlyHello s t) (h₂ : OnlyHello t u) :
    OnlyHello s u := by
  rw [OnlyHello] at h₁ h₂ ⊢
  rw [h₂, h₁]

theorem OnlySent.onlyHello {s t : Nlsr} (h : OnlySent s t) : OnlyHello s t := by
  rw [OnlySent] at h
  rw [OnlyHello, h]

theorem onlyHello_setAdjacencyList (s : Nlsr) (l : AdjacencyList) :
    OnlyHello s (s.setAdjacencyList l) := rfl

theorem onlyHello_scheduleAdjLsaBuild (s : Nlsr) : OnlyHello s s.scheduleAdjLsaBuild := by
  unfold scheduleAdjLsaBuild
  dsimp only
  split_ifs <;> rfl

theorem helloClosed_onlyHello : HelloClosed OnlyHello where
  refl := OnlyHello.refl
  trans := OnlyHello.trans
  setAdjacencyList := onlyHello_setAdjacencyList
  scheduleAdjLsaBuild := onlyHello_scheduleAdjLsaBuild
  onlySent := OnlySent.onlyHello

theorem onlyHello_processInterestTimedOut (s : Nlsr) (interestName : Name) :
    OnlyHello s (s.processInterestTimedOut interestName) :=
  helloClosed_onlyHello.processInterestTimedOut s interestName

theorem onlyHello_onHelloValidated (s : Nlsr) (dataName : Name) :
    OnlyHello s (s.onHelloValidated dataName) :=
  helloClosed_onlyHello.onHelloValidated s dataName

theorem onlyHello_onRegistrationSuccess (s : Nlsr) (neighbor : Name) (faceId : UInt64) :
    OnlyHello s (s.onRegistrationSuccess neighbor faceId) :=
  helloClosed_onlyHello.onRegistrationSuccess s neighbor faceId

theorem onlyHello_onRegistrationFailure (s : Nlsr) (name : Name) :
    OnlyHello s (s.onRegistrationFailure name) :=
  helloClosed_onlyHello.onRegistrationFailure s name

theorem onlyHello_onFaceDestroyed (s : Nlsr) (faceId : UInt64) :
    OnlyHello s (s.onFaceDestroyed faceId) :=
  helloClosed_onlyHello.onFaceDestroyed s faceId

end Nlsr

end LinkState
