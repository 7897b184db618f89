import LinkState.Library.EventQueue
import LinkState.Sync.DiffLog
import LinkState.Sync.Message

/-!
# The sync protocol

A party (`SyncLogic`) has a state and the log of its changes. It keeps a sync Interest with the
digest of its state outstanding, and it answers the Interests of others:

* an Interest with its own digest is kept pending, until there is something new;
* one with a digest from the log is answered with what was changed since;
* one with the digest zero is answered with the whole state;
* one with any other digest is kept pending as unknown. If nothing else helps within a random
  delay, the party asks for the whole state of whoever has that digest.

Data is merged into the state, and what it changed is recorded and reported to the application.

Names are given by what follows the sync prefix (`SyncName`). Delays are left out: a pending
event may run at any time. Interests and Data that are sent and what the application is told
are the outputs of a step.
-/

namespace LinkState.Sync

/-- The prefix of the leaf that counts the removals of this party. -/
def forwarderPrefix : String := "/d0n0t18ak/t0ps8cr8t"

/-- What the application has not got yet. -/
structure MissingDataInfo where
  namePrefix : String
  low : SeqNo
  high : SeqNo
  deriving DecidableEq

/-- What a party sends and what it tells the application. -/
inductive Output
  | interest (name : SyncName)
  | data (name : SyncName) (content : Bytes)
  | onUpdate (v : List MissingDataInfo)
  | onUpdateBranch (interestName : String)
  | onRemove (namePrefix : String)
  deriving DecidableEq

/-! ## Pending Interests -/

/-- `Sync::Interest`; times are in nanoseconds. -/
structure PendingInterest where
  digest : Digest
  name : SyncName
  time : Int
  unknown : Bool
  deriving DecidableEq

abbrev SyncInterestTable := KeyedList PendingInterest.name

namespace SyncInterestTable

/-- Returned is whether there was an Interest with the name, which is replaced. -/
def insert (table : SyncInterestTable) (digest : Digest) (name : SyncName) (unknownState : Bool)
    (now : Int) : SyncInterestTable × Bool :=
  (KeyedList.insert (table.erase name) ⟨digest, name, now, unknownState⟩, table.contains name)

def entryLifetime : Int := 4 * 10 ^ 9

/-- The Interests are gone through from the oldest on, as long as they are too old. -/
def expireInterests (table : SyncInterestTable) (now : Int) : SyncInterestTable :=
  table.filter fun i => ¬ i.time ≤ now - entryLifetime

theorem mem_insert {table : SyncInterestTable} {digest : Digest} {name : SyncName}
    {unknown : Bool} {now : Int} {i : PendingInterest} :
    i ∈ (insert table digest name unknown now).1 ↔
      i ∈ table ∧ i.name ≠ name ∨ i = ⟨digest, name, now, unknown⟩ := by
  have hnone : (table.erase name).find? name = none := KeyedList.find?_erase_self table name
  simp only [insert, KeyedList.mem_insert, KeyedList.mem_erase, hnone, and_true]

end SyncInterestTable

/-! ## The party -/

/-- What a scheduled event runs. -/
inductive SyncAction
  | sendSyncInterest
  | processSyncInterest (name : SyncName) (digest : Digest)
  | sendSyncRecoveryInterests (digest : Digest)
  deriving DecidableEq

structure SyncLogic (H : HashFunction) where
  state : FullState H
  log : DiffLog
  /-- `none` before the first sync Interest. -/
  outstandingInterestName : Option SyncName
  syncInterestTable : SyncInterestTable
  /-- Is the application told of every prefix by itself? -/
  perBranch : Bool
  scheduler : EventQueue SyncAction
  delayedInterestProcessingId : Option Nat
  reexpressingInterestId : Option Nat
  reexpressingRecoveryInterestId : Option Nat
  /-- In milliseconds. -/
  recoveryRetransmissionInterval : UInt32

variable {H : HashFunction}

namespace SyncLogic

/-- `m_defaultRecoveryRetransmitInterval`. -/
def defaultRecoveryRetransmitInterval : UInt32 := 200

/-- The constructors. The first sync Interest is scheduled at once. -/
def init (H : HashFunction) (perBranch : Bool) : SyncLogic H where
  state := FullState.init H
  log := DiffLog.empty
  outstandingInterestName := none
  syncInterestTable := KeyedList.empty
  perBranch := perBranch
  scheduler := (EventQueue.empty.scheduleEvent .sendSyncInterest).1
  delayedInterestProcessingId := none
  reexpressingInterestId := some 0
  reexpressingRecoveryInterestId := none
  recoveryRetransmissionInterval := defaultRecoveryRetransmitInterval

/-- Schedule a sync Interest and cancel the one that was scheduled. -/
def reexpressInterest (s : SyncLogic H) : SyncLogic H :=
  let (scheduler, eventId) := s.scheduler.scheduleEvent .sendSyncInterest
  { s with
    scheduler := scheduler.cancelEvent s.reexpressingInterestId
    reexpressingInterestId := some eventId }

def sendSyncInterest (s : SyncLogic H) : SyncLogic H × List Output :=
  let (digest, state) := s.state.getDigest
  let name := normalName digest
  (reexpressInterest { s with state := state, outstandingInterestName := some name },
    [.interest name])

/-- The interval doubles, and from 100 seconds on nothing is scheduled. -/
def sendSyncRecoveryInterests (s : SyncLogic H) (digest : Digest) : SyncLogic H × List Output :=
  let interval := s.recoveryRetransmissionInterval <<< 1
  let cancelled := s.scheduler.cancelEvent s.reexpressingRecoveryInterestId
  let s := { s with recoveryRetransmissionInterval := interval, scheduler := cancelled }
  if interval < 100 * 1000 then
    let (scheduler, eventId) := cancelled.scheduleEvent (.sendSyncRecoveryInterests digest)
    ({ s with scheduler := scheduler, reexpressingRecoveryInterestId := some eventId },
      [.interest (recoveryName digest)])
  else (s, [.interest (recoveryName digest)])

variable (pb : Protobuf)

/-- A party that answers its own Interest expresses a new one. -/
def sendSyncData (s : SyncLogic H) (name : SyncName) (msg : SyncStateMsg) :
    SyncLogic H × List Output :=
  let out := [Output.data name (pb.serialize msg)]
  if s.outstandingInterestName = some name then (s.reexpressInterest, out) else (s, out)

/-! ### Interests -/

/-- Keep an Interest with an unknown digest, and look at it again later. -/
def delayInterest (s : SyncLogic H) (name : SyncName) (digest : Digest) (now : Int) :
    SyncLogic H :=
  let (table, existed) := SyncInterestTable.insert s.syncInterestTable digest name true now
  let cancelled :=
    if existed then s.scheduler.cancelEvent s.delayedInterestProcessingId else s.scheduler
  let (scheduler, eventId) := cancelled.scheduleEvent (.processSyncInterest name digest)
  { s with
    syncInterestTable := table
    scheduler := scheduler
    delayedInterestProcessingId := some eventId }

def processSyncInterest (s : SyncLogic H) (name : SyncName) (digest : Digest)
    (timedProcessing : Bool) (now : Int) : SyncLogic H × List Output :=
  let (rootDigest, state) := s.state.getDigest
  let s := { s with state := state }
  if digest.isZero ∧ ¬ rootDigest.isZero then s.sendSyncData pb name s.state.encode
  else if rootDigest = digest then
    ({ s with
      syncInterestTable :=
        (SyncInterestTable.insert s.syncInterestTable digest name false now).1 }, [])
  -- The search in the log hashes the digest, and the caller drops the Interest where this throws
  else if ¬ digest.hasHash then (s, [])
  else
    match s.log.find? digest with
    | some i => s.sendSyncData pb name (s.log.diff i).encode
    | none =>
      if timedProcessing then
        sendSyncRecoveryInterests
          { s with recoveryRetransmissionInterval := defaultRecoveryRetransmitInterval } digest
      else (s.delayInterest name digest now, [])

def processSyncRecoveryInterest (s : SyncLogic H) (name : SyncName) (digest : Digest) :
    SyncLogic H × List Output :=
  if ¬ digest.hasHash then (s, [])
  else
    match s.log.find? digest with
    | none => (s, [])
    | some _ => s.sendSyncData pb name s.state.encode

def onSyncInterest (s : SyncLogic H) (name : SyncName) (now : Int) : SyncLogic H × List Output :=
  match convertNameToDigestAndType name with
  | none => (s, [])
  | some (digest, type) =>
    if type = "normal" then s.processSyncInterest pb name digest false now
    else if type = "recovery" then s.processSyncRecoveryInterest pb name digest
    else (s, [])

/-! ### Changes of the state -/

/-- `SyncLogic::insertToDiffLog`. -/
def insertToDiffLog (s : SyncLogic H) (diffLog : DiffState) : SyncLogic H :=
  let (digest, state) := s.state.getDigest
  { s with state := state, log := s.log.insert digest diffLog }

/-- Answer one after the other. -/
def answerAll (s : SyncLogic H) (full diffLog : DiffState) :
    List PendingInterest → SyncLogic H × List Output
  | [] => (s, [])
  | i :: rest =>
    let (s, out) := s.sendSyncData pb i.name (if i.unknown then full else diffLog).encode
    let (s, outs) := s.answerAll full diffLog rest
    (s, out ++ outs)

/-- Take every Interest out of the table and answer it: a known digest with the difference, an
unknown one with the whole state. -/
def satisfyPendingSyncInterests (s : SyncLogic H) (diffLog : DiffState) :
    SyncLogic H × List Output :=
  answerAll pb { s with syncInterestTable := KeyedList.empty } s.state.asDiff diffLog
    s.syncInterestTable.toList

def addLocalNames (s : SyncLogic H) (namePrefix : String) (session seq : UInt64) :
    SyncLogic H × List Output :=
  let seqN : SeqNo := ⟨session, seq⟩
  let diff := DiffState.init.update namePrefix seqN
  let s := { s with state := (s.state.update namePrefix seqN).1 }
  (s.insertToDiffLog diff).satisfyPendingSyncInterests pb diff

/-- The number of the forwarder after one more removal. -/
def forwarderSeq (state : FullState H) : SeqNo :=
  match state.leaves.find? forwarderPrefix with
  | none => ⟨0, 0⟩
  | some item => SeqNo.increment (some item.seq)

def remove (s : SyncLogic H) (namePrefix : String) : SyncLogic H × List Output :=
  let state := (s.state.remove namePrefix).1
  let seqNo := forwarderSeq state
  let diff := (DiffState.init.remove namePrefix).update forwarderPrefix seqNo
  let s := { s with state := (state.update forwarderPrefix seqNo).1 }
  (s.insertToDiffLog diff).satisfyPendingSyncInterests pb diff

/-! ### Data -/

/-- What has become of a difference so far: the state, what has changed, what the application
has to be told in the end, and what it was told already. -/
structure Received (H : HashFunction) where
  state : FullState H
  diffLog : DiffState
  missing : List MissingDataInfo
  told : List Output

/-- `<prefix>/<session>/<seq>` -/
def branchName (mdi : MissingDataInfo) : String :=
  s!"{mdi.namePrefix}/{mdi.high.session.toNat}/{mdi.high.seq.toNat}"

/-- The application is told of an update, but not of one of the forwarder. -/
def Received.report (r : Received H) (perBranch : Bool) (mdi : MissingDataInfo) : Received H :=
  if mdi.namePrefix = forwarderPrefix then r
  else if perBranch then { r with told := r.told ++ [.onUpdateBranch (branchName mdi)] }
  else { r with missing := r.missing ++ [mdi] }

/-- The first number that is missing, given the number before the update. -/
def firstMissing (oldSeq : Option SeqNo) (seq : SeqNo) : SeqNo :=
  match oldSeq with
  | none => ⟨seq.session, 0⟩
  | some old => SeqNo.increment (some old)

/-- The body of the loop over the leaves. -/
def Received.process (perBranch : Bool) (r : Received H) (leaf : DiffLeaf) : Received H :=
  match leaf.operation with
  | .update seq =>
    let (state, inserted, updated, oldSeq) := r.state.update leaf.info seq
    let r := { r with state := state }
    if inserted || updated then
      Received.report { r with diffLog := r.diffLog.update leaf.info seq } perBranch
        ⟨leaf.info, firstMissing oldSeq seq, seq⟩
    else r
  | .remove =>
    let (state, removed) := r.state.remove leaf.info
    let r := { r with state := state }
    if removed then
      { r with
        diffLog := r.diffLog.remove leaf.info
        told := if perBranch then r.told else r.told ++ [.onRemove leaf.info] }
    else r

/-- The loop over the leaves. -/
def receive (s : SyncLogic H) (diff : DiffState) : Received H :=
  diff.leaves.toList.foldl (Received.process s.perBranch) ⟨s.state, DiffState.init, [], []⟩

/-- Merge a difference, record what it changes and tell the application. -/
def applyDiff (s : SyncLogic H) (diff : DiffState) : SyncLogic H × List Output :=
  let r := s.receive diff
  (insertToDiffLog { s with state := r.state } r.diffLog,
    r.told ++ if r.missing = [] then [] else [.onUpdate r.missing])

/-- An Interest that somebody answered is no longer pending. -/
def removeInterest (s : SyncLogic H) (name : SyncName) : SyncLogic H :=
  { s with syncInterestTable := s.syncInterestTable.erase name }

def processSyncData (s : SyncLogic H) (name : SyncName) (wireData : Bytes) :
    SyncLogic H × List Output :=
  let t := s.removeInterest name
  let ownInterestSatisfied := s.outstandingInterestName = some name
  match pb.parse wireData with
  | none => (if ownInterestSatisfied then t.reexpressInterest else t, [])
  | some msg =>
    let (u, out) := t.applyDiff (decode msg)
    let changed := (t.receive (decode msg)).diffLog.leaves.toList ≠ []
    (if changed ∨ ownInterestSatisfied then u.reexpressInterest else u, out)

def cancelRecovery (s : SyncLogic H) : SyncLogic H :=
  { s with scheduler := s.scheduler.cancelEvent s.reexpressingRecoveryInterestId }

def onSyncDataValidated (s : SyncLogic H) (name : SyncName) (content : Bytes) :
    SyncLogic H × List Output :=
  match convertNameToDigestAndType name with
  | none => (s, [])
  | some (_, type) =>
    if type = "normal" then s.processSyncData pb name content
    else s.cancelRecovery.processSyncData pb name content

/-! ### Steps -/

/-- What can happen to a party. -/
inductive Event
  | syncInterest (name : SyncName) (now : Int)
  | syncData (name : SyncName) (content : Bytes)
  | addLocalNames (namePrefix : String) (session seq : UInt64)
  | remove (namePrefix : String)
  /-- A scheduled event is due. -/
  | due (id : Nat) (now : Int)
  | expireInterests (now : Int)
  deriving DecidableEq

/-- An event that runs is no longer pending. -/
def takeEvent (s : SyncLogic H) (id : Nat) : SyncLogic H :=
  { s with scheduler := s.scheduler.cancelEvent (some id) }

def runAction (s : SyncLogic H) (action : SyncAction) (now : Int) : SyncLogic H × List Output :=
  match action with
  | .sendSyncInterest => s.sendSyncInterest
  | .processSyncInterest name digest => s.processSyncInterest pb name digest true now
  | .sendSyncRecoveryInterests digest => s.sendSyncRecoveryInterests digest

/-- One step of a party, with its outputs. -/
def turn (s : SyncLogic H) : Event → SyncLogic H × List Output
  | .syncInterest name now => s.onSyncInterest pb name now
  | .syncData name content => s.onSyncDataValidated pb name content
  | .addLocalNames namePrefix session seq => s.addLocalNames pb namePrefix session seq
  | .remove namePrefix => s.remove pb namePrefix
  | .due id now =>
    match s.scheduler.find? id with
    | none => (s, [])
    | some action => (s.takeEvent id).runAction pb action now
  | .expireInterests now =>
    ({ s with syncInterestTable := SyncInterestTable.expireInterests s.syncInterestTable now }, [])

def step (s : SyncLogic H) (e : Event) : SyncLogic H := (s.turn pb e).1

end SyncLogic

end LinkState.Sync
