import LinkState.RoutingTable

/-!
# The link state database

Installing, removing, refreshing and expiring LSAs of the three kinds, and building this
router's own. An install never replaces a stored LSA: names are patched by two set differences,
adjacents are copied only if a comparison finds a difference, coordinates only if they are
farther apart than the tolerance.

Every install schedules an event that carries the key and the sequence number. When it fires
and the number is still the stored one, an own LSA is refreshed and a foreign one removed. The
event id is stored only by updates and refreshes; the event of a first install is left to find
a newer number.
-/

namespace LinkState

/-- The number an expiration event carries: it passes through an `int`. -/
def expirationSeqNo (lsSeqNo : UInt32) : UInt64 := lsSeqNo.toInt32.toInt64.toUInt64

namespace Lsdb

/-- `Lsdb::GRACE_PERIOD`. -/
def gracePeriod : Duration := seconds 10

def findNameLsa (db : Lsdb) (key : Name) : Option NameLsa := db.nameLsdb.find? key

def findAdjLsa (db : Lsdb) (key : Name) : Option AdjLsa := db.adjLsdb.find? key

def findCoordinateLsa (db : Lsdb) (key : Name) : Option CoordinateLsa := db.corLsdb.find? key

/-- Is a sequence number newer than the stored one? -/
def isNewerThan (stored : Option UInt32) (seqNo : UInt64) : Bool :=
  match stored with
  | some lsSeqNo => lsSeqNo.toUInt64 < seqNo
  | none => true

def isNameLsaNew (db : Lsdb) (key : Name) (seqNo : UInt64) : Bool :=
  isNewerThan ((db.findNameLsa key).map fun l => l.lsSeqNo) seqNo

def isAdjLsaNew (db : Lsdb) (key : Name) (seqNo : UInt64) : Bool :=
  isNewerThan ((db.findAdjLsa key).map fun l => l.lsSeqNo) seqNo

def isCoordinateLsaNew (db : Lsdb) (key : Name) (seqNo : UInt64) : Bool :=
  isNewerThan ((db.findCoordinateLsa key).map fun l => l.lsSeqNo) seqNo

/-- `onLsdbChange()`. -/
def onLsdbChange (db : Lsdb) : Lsdb := { db with seqNo := db.seqNo + 1 }

/-- `addNameLsa`: append the LSA unless its key is there. -/
def addNameLsa (db : Lsdb) (nlsa : NameLsa) : Lsdb :=
  if db.nameLsdb.contains nlsa.getKey then db
  else { db with nameLsdb := db.nameLsdb.insert nlsa }.onLsdbChange

def addAdjLsa (db : Lsdb) (alsa : AdjLsa) : Lsdb :=
  if db.adjLsdb.contains alsa.getKey then db
  else { db with adjLsdb := db.adjLsdb.insert alsa }.onLsdbChange

def addCoordinateLsa (db : Lsdb) (clsa : CoordinateLsa) : Lsdb :=
  if db.corLsdb.contains clsa.getKey then db
  else { db with corLsdb := db.corLsdb.insert clsa }.onLsdbChange

end Lsdb

namespace Nlsr

def setLsdb (s : Nlsr) (lsdb : Lsdb) : Nlsr := { s with lsdb }

/-- Write a stored LSA back after it was changed in place. -/
def putNameLsa (s : Nlsr) (l : NameLsa) : Nlsr :=
  s.setLsdb { s.lsdb with nameLsdb := s.lsdb.nameLsdb.replace l }

def putAdjLsa (s : Nlsr) (l : AdjLsa) : Nlsr :=
  s.setLsdb { s.lsdb with adjLsdb := s.lsdb.adjLsdb.replace l }

def putCoordinateLsa (s : Nlsr) (l : CoordinateLsa) : Nlsr :=
  s.setLsdb { s.lsdb with corLsdb := s.lsdb.corLsdb.replace l }

/-- The seconds an LSA has left: the refresh time for an own one. -/
def timeToExpire (s : Nlsr) (l : Lsa) : Duration :=
  if l.origRouter ≠ s.routerPrefix then seconds (toSeconds (l.expirationTimePoint - s.now))
  else s.lsdb.lsaRefreshTime

def getLsaExpirationTimePoint (s : Nlsr) : TimePoint :=
  s.now + seconds s.confParam.routerDeadInterval.toNat

/-- `SequencingManager::writeSeqNoToFile`. -/
def writeSeqNoToFile (s : Nlsr) : Nlsr :=
  { s with seqFile := some s.sequencingManager.combinedSeqNo }

/-- `SyncLogicHandler::publishSyncUpdate`. -/
def publishSyncUpdate (s : Nlsr) (seqNo : UInt64) : Nlsr :=
  { s with published := s.published ++ [seqNo] }

/-- `SyncLogicHandler::publishRoutingUpdate`: write the sequence file, then announce. -/
def publishRoutingUpdate (s : Nlsr) : Nlsr :=
  let s := s.writeSeqNoToFile
  s.publishSyncUpdate s.sequencingManager.combinedSeqNo

/-! ## Name LSAs -/

def scheduleNameLsaExpiration (s : Nlsr) (key : Name) (seqNo : UInt32) (expTime : Duration) :
    Nlsr × Nat :=
  s.scheduleEvent (expTime + Lsdb.gracePeriod)
    (.exprireOrRefreshNameLsa key (expirationSeqNo seqNo))

/-- Enter a list of names for a foreign origin, this router's prefix left out. -/
def addNptNames (s : Nlsr) (origRouter : Name) (names : List Name) : Nlsr :=
  names.foldl (fun s name =>
    if origRouter ≠ s.routerPrefix then
      if name ≠ s.routerPrefix then s.addEntry name origRouter else s
    else s) s

def removeNptNames (s : Nlsr) (origRouter : Name) (names : List Name) : Nlsr :=
  names.foldl (fun s name =>
    if origRouter ≠ s.routerPrefix then
      if name ≠ s.routerPrefix then s.removeEntry name origRouter else s
    else s) s

def installNameLsa (s : Nlsr) (nlsa : NameLsa) : Nlsr :=
  match s.lsdb.findNameLsa nlsa.getKey with
  | none =>
    let s := s.setLsdb (s.lsdb.addNameLsa nlsa)
    let s :=
      if nlsa.origRouter ≠ s.routerPrefix then
        (s.addEntry nlsa.origRouter nlsa.origRouter).addNptNames nlsa.origRouter nlsa.npl.toList
      else s
    (s.scheduleNameLsaExpiration nlsa.getKey nlsa.lsSeqNo (s.timeToExpire nlsa.toLsa)).1
  | some chkNameLsa =>
    if chkNameLsa.lsSeqNo < nlsa.lsSeqNo then
      let s := s.setLsdb s.lsdb.onLsdbChange
      let newNames := nlsa.npl.sortNames.toList
      let oldNpl := chkNameLsa.npl.sortNames
      -- What only the new list has is added, then what only the stored list has is removed
      let nameToAdd := setDifference newNames oldNpl.toList
      let s := s.addNptNames nlsa.origRouter nameToAdd
      let npl := (nameToAdd.foldl KeyedList.insert oldNpl : NamePrefixList).sortNames
      let nameToRemove := setDifference npl.toList newNames
      let s := s.removeNptNames nlsa.origRouter nameToRemove
      let npl := nameToRemove.foldl NamePrefixList.remove npl
      let s := s.cancelEvent chkNameLsa.expiringEventId
      let (s, eid) :=
        s.scheduleNameLsaExpiration nlsa.getKey nlsa.lsSeqNo (s.timeToExpire nlsa.toLsa)
      s.putNameLsa { chkNameLsa with
        lsSeqNo := nlsa.lsSeqNo
        expirationTimePoint := nlsa.expirationTimePoint
        npl
        expiringEventId := some eid }
    else s

def removeNameLsa (s : Nlsr) (key : Name) : Nlsr :=
  match s.lsdb.findNameLsa key with
  | none => s
  | some l =>
    let s :=
      if l.origRouter ≠ s.routerPrefix then
        (s.removeEntry l.origRouter l.origRouter).removeNptNames l.origRouter l.npl.toList
      else s
    s.setLsdb { s.lsdb with nameLsdb := s.lsdb.nameLsdb.erase key }.onLsdbChange

def exprireOrRefreshNameLsa (s : Nlsr) (lsaKey : Name) (seqNo : UInt64) : Nlsr :=
  match s.lsdb.findNameLsa lsaKey with
  | none => s
  | some chkNameLsa =>
    if chkNameLsa.lsSeqNo.toUInt64 = seqNo then
      if chkNameLsa.origRouter = s.lsdb.thisRouterPrefix then
        let s := s.setLsdb s.lsdb.onLsdbChange
        let lsSeqNo := chkNameLsa.lsSeqNo + 1
        let s := { s with
          sequencingManager := s.sequencingManager.setNameLsaSeq lsSeqNo.toUInt64 }
        let (s, eid) :=
          s.scheduleNameLsaExpiration chkNameLsa.getKey lsSeqNo s.lsdb.lsaRefreshTime
        let s := s.putNameLsa { chkNameLsa with
          lsSeqNo
          expirationTimePoint := s.getLsaExpirationTimePoint
          expiringEventId := some eid }
        s.publishRoutingUpdate
      else s.removeNameLsa lsaKey
    else s

def buildAndInstallOwnNameLsa (s : Nlsr) : Nlsr :=
  let nameLsa := NameLsa.make s.routerPrefix NameLsa.typeString
    (s.sequencingManager.nameLsaSeq + 1).toUInt32 s.getLsaExpirationTimePoint s.namePrefixList
  let s := { s with sequencingManager := s.sequencingManager.increaseNameLsaSeq }
  s.installNameLsa nameLsa

/-! ## Coordinate LSAs -/

def scheduleCoordinateLsaExpiration (s : Nlsr) (key : Name) (seqNo : UInt32)
    (expTime : Duration) : Nlsr × Nat :=
  s.scheduleEvent (expTime + Lsdb.gracePeriod)
    (.exprireOrRefreshCoordinateLsa key (expirationSeqNo seqNo))

/-- Request a calculation if hyperbolic routing is not off. -/
def scheduleIfHyperbolic (s : Nlsr) : Nlsr :=
  if s.confParam.hyperbolicState.toNat ≥ HyperbolicState.on.toNat then
    s.scheduleRoutingTableCalculation
  else s

def installCoordinateLsa (s : Nlsr) (clsa : CoordinateLsa) : Nlsr :=
  match s.lsdb.findCoordinateLsa clsa.getKey with
  | none =>
    let s := s.setLsdb (s.lsdb.addCoordinateLsa clsa)
    let s :=
      if clsa.origRouter ≠ s.routerPrefix then s.addEntry clsa.origRouter clsa.origRouter else s
    let s := s.scheduleIfHyperbolic
    (s.scheduleCoordinateLsaExpiration clsa.getKey clsa.lsSeqNo (s.timeToExpire clsa.toLsa)).1
  | some chkCorLsa =>
    if chkCorLsa.lsSeqNo < clsa.lsSeqNo then
      let s := s.setLsdb s.lsdb.onLsdbChange
      let chk := { chkCorLsa with
        lsSeqNo := clsa.lsSeqNo, expirationTimePoint := clsa.expirationTimePoint }
      let equal := chk.isEqualContent clsa
      let chk := if equal then chk else { chk with corRad := clsa.corRad, corTheta := clsa.corTheta }
      let s := if equal then s else s.scheduleIfHyperbolic
      let s := s.cancelEvent chk.expiringEventId
      let (s, eid) :=
        s.scheduleCoordinateLsaExpiration clsa.getKey clsa.lsSeqNo (s.timeToExpire clsa.toLsa)
      s.putCoordinateLsa { chk with expiringEventId := some eid }
    else s

def removeCoordinateLsa (s : Nlsr) (key : Name) : Nlsr :=
  match s.lsdb.findCoordinateLsa key with
  | none => s
  | some l =>
    let s := if l.origRouter ≠ s.routerPrefix then s.removeEntry l.origRouter l.origRouter else s
    s.setLsdb { s.lsdb with corLsdb := s.lsdb.corLsdb.erase key }.onLsdbChange

def exprireOrRefreshCoordinateLsa (s : Nlsr) (lsaKey : Name) (seqNo : UInt64) : Nlsr :=
  match s.lsdb.findCoordinateLsa lsaKey with
  | none => s
  | some chkCorLsa =>
    if chkCorLsa.lsSeqNo.toUInt64 = seqNo then
      let s :=
        if chkCorLsa.origRouter = s.lsdb.thisRouterPrefix then
          let s := s.setLsdb s.lsdb.onLsdbChange
          let lsSeqNo := chkCorLsa.lsSeqNo + 1
          let s := { s with
            sequencingManager := s.sequencingManager.setCorLsaSeq lsSeqNo.toUInt64 }
          let (s, eid) :=
            s.scheduleCoordinateLsaExpiration chkCorLsa.getKey lsSeqNo s.lsdb.lsaRefreshTime
          let s := s.putCoordinateLsa { chkCorLsa with
            lsSeqNo
            expirationTimePoint := s.getLsaExpirationTimePoint
            expiringEventId := some eid }
          s.publishRoutingUpdate
        else s.removeCoordinateLsa lsaKey
      s.scheduleIfHyperbolic
    else s

def buildAndInstallOwnCoordinateLsa (s : Nlsr) : Nlsr :=
  let corLsa := CoordinateLsa.make s.routerPrefix CoordinateLsa.typeString
    (s.sequencingManager.corLsaSeq + 1).toUInt32 s.getLsaExpirationTimePoint
    s.confParam.corR s.confParam.corTheta
  let s := { s with sequencingManager := s.sequencingManager.increaseCorLsaSeq }
  s.installCoordinateLsa corLsa

/-! ## Adjacency LSAs -/

def scheduleAdjLsaExpiration (s : Nlsr) (key : Name) (seqNo : UInt32) (expTime : Duration) :
    Nlsr × Nat :=
  s.scheduleEvent (expTime + Lsdb.gracePeriod)
    (.exprireOrRefreshAdjLsa key (expirationSeqNo seqNo))

/-- `AdjLsa::addNptEntries`. -/
def addNptEntries (s : Nlsr) (alsa : AdjLsa) : Nlsr :=
  if alsa.origRouter ≠ s.routerPrefix then s.addEntry alsa.origRouter alsa.origRouter else s

/-- `AdjLsa::removeNptEntries`. -/
def removeNptEntries (s : Nlsr) (alsa : AdjLsa) : Nlsr :=
  if alsa.origRouter ≠ s.routerPrefix then s.removeEntry alsa.origRouter alsa.origRouter else s

def installAdjLsa (s : Nlsr) (alsa : AdjLsa) : Nlsr :=
  match s.lsdb.findAdjLsa alsa.getKey with
  | none =>
    let s := s.setLsdb (s.lsdb.addAdjLsa alsa)
    let s := (s.addNptEntries alsa).scheduleRoutingTableCalculation
    (s.scheduleAdjLsaExpiration alsa.getKey alsa.lsSeqNo (s.timeToExpire alsa.toLsa)).1
  | some chkAdjLsa =>
    if chkAdjLsa.lsSeqNo < alsa.lsSeqNo then
      let s := s.setLsdb s.lsdb.onLsdbChange
      let chk := { chkAdjLsa with
        lsSeqNo := alsa.lsSeqNo, expirationTimePoint := alsa.expirationTimePoint }
      -- The comparison leaves both lists sorted when they have one size
      let (equal, chk, alsa) := chk.isEqualContent alsa
      let chk := if equal then chk else
        { chk with adl := AdjacencyList.addAdjacents KeyedList.empty alsa.adl }
      let s := if equal then s else s.scheduleRoutingTableCalculation
      let s := s.cancelEvent chk.expiringEventId
      let (s, eid) :=
        s.scheduleAdjLsaExpiration alsa.getKey alsa.lsSeqNo (s.timeToExpire alsa.toLsa)
      s.putAdjLsa { chk with expiringEventId := some eid }
    else s

def removeAdjLsa (s : Nlsr) (key : Name) : Nlsr :=
  match s.lsdb.findAdjLsa key with
  | none => s
  | some l =>
    let s := s.removeNptEntries l
    s.setLsdb { s.lsdb with adjLsdb := s.lsdb.adjLsdb.erase key }.onLsdbChange

def exprireOrRefreshAdjLsa (s : Nlsr) (lsaKey : Name) (seqNo : UInt64) : Nlsr :=
  match s.lsdb.findAdjLsa lsaKey with
  | none => s
  | some chkAdjLsa =>
    if chkAdjLsa.lsSeqNo.toUInt64 = seqNo then
      let s :=
        if chkAdjLsa.origRouter = s.lsdb.thisRouterPrefix then
          let s := s.setLsdb s.lsdb.onLsdbChange
          let lsSeqNo := chkAdjLsa.lsSeqNo + 1
          let s := { s with
            sequencingManager := s.sequencingManager.setAdjLsaSeq lsSeqNo.toUInt64 }
          let (s, eid) :=
            s.scheduleAdjLsaExpiration chkAdjLsa.getKey lsSeqNo s.lsdb.lsaRefreshTime
          let s := s.putAdjLsa { chkAdjLsa with
            lsSeqNo
            expirationTimePoint := s.getLsaExpirationTimePoint
            expiringEventId := some eid }
          s.publishRoutingUpdate
        else s.removeAdjLsa lsaKey
      s.scheduleRoutingTableCalculation
    else s

def buildAndInstallOwnAdjLsa (s : Nlsr) : Nlsr :=
  let adjLsa := AdjLsa.make s.routerPrefix AdjLsa.typeString
    (s.sequencingManager.adjLsaSeq + 1).toUInt32 s.getLsaExpirationTimePoint s.adjacencyList
  let s := { s with sequencingManager := s.sequencingManager.increaseAdjLsaSeq }
  s.publishRoutingUpdate.installAdjLsa adjLsa

/-- Count a request; schedule a build unless one is scheduled. -/
def scheduleAdjLsaBuild (s : Nlsr) : Nlsr :=
  let s := { s with adjBuildCount := s.adjBuildCount + 1 }
  if s.isBuildAdjLsaSheduled = false then
    let (s, _) := s.scheduleEvent (seconds s.lsdb.adjLsaBuildInterval.toNat) .buildAdjLsa
    { s with isBuildAdjLsaSheduled := true }
  else s

/-- What is left of a 64-bit count in an `int`. -/
def narrowToInt (n : Int) : Int := n.bmod (2 ^ 32)

theorem narrowToInt_lt (n : Int) : narrowToInt n < 2 ^ 31 := Int.bmod_lt (by norm_num)

theorem narrowToInt_of_lt {n : Int} (hnonneg : 0 ≤ n) (hlt : n < 2 ^ 31) : narrowToInt n = n := by
  refine Int.bmod_eq_of_le ?_ hlt
  norm_num
  omega

/-- `Lsdb::buildAdjLsa`: build if every neighbour is ACTIVE or dead, else try again later. -/
def buildAdjLsa (s : Nlsr) : Nlsr :=
  let s := { s with isBuildAdjLsaSheduled := false }
  if s.adjacencyList.isAdjLsaBuildable s.confParam.interestRetryNumber then
    let adjBuildCount := narrowToInt s.adjBuildCount
    if adjBuildCount > 0 then
      let s :=
        if s.adjacencyList.getNumOfActiveNeighbor > 0 then s.buildAndInstallOwnAdjLsa
        else (s.removeAdjLsa (AdjLsa.key s.routerPrefix)).scheduleRoutingTableCalculation
      { s with adjBuildCount := s.adjBuildCount - adjBuildCount }
    else s
  else
    let s := { s with isBuildAdjLsaSheduled := true }
    let schedulingTime := s.confParam.interestRetryNumber * s.confParam.interestResendTime
    (s.scheduleEvent (seconds schedulingTime.toNat) .buildAdjLsa).1

end Nlsr

/-! ## LSAs of any kind -/

/-- An LSA of any kind. -/
inductive AnyLsa
  | name (l : NameLsa)
  | adj (l : AdjLsa)
  | coordinate (l : CoordinateLsa)

def AnyLsa.origRouter : AnyLsa → Name
  | .name l => l.origRouter
  | .adj l => l.origRouter
  | .coordinate l => l.origRouter

namespace Nlsr

def install (s : Nlsr) : AnyLsa → Nlsr
  | .name l => s.installNameLsa l
  | .adj l => s.installAdjLsa l
  | .coordinate l => s.installCoordinateLsa l

end Nlsr

end LinkState
