import LinkState.Lifetimes

/-!
# What operations are made of

What an install, a refresh, a removal or an expiration of an LSA does is made of a few things: the
database and this router's own numbers change, name prefix table and FIB are edited, a calculation
is requested, the expiration of an LSA is armed, and an old one is cancelled by the id that the
stored LSA owns. A relation between states that holds of each of these, and is transitive, holds of
the whole.

* `TablesClosed` is such a relation on the operations of the name prefix table.
* `LsdbClosed` is one on the operations of the database; `free` says of which LSAs it allows an
  event to be cancelled.

With `HelloClosed` the two give every event but the firing of a scheduled one and the clock
(`LsdbClosed.step`).
-/

namespace LinkState

open SequencingManager

namespace Nlsr

open Scheduler

/-! ## The tables -/

/-- A relation that holds of the FIB operations holds of those on the name prefix table. -/
structure TablesClosed (R : Nlsr → Nlsr → Prop) : Prop where
  refl (s : Nlsr) : R s s
  trans {s t u : Nlsr} : R s t → R t u → R s u
  setNamePrefixTable (s : Nlsr) (namePrefixTable : KeyedList NamePrefixTableEntry.namePrefix) :
    R s { s with namePrefixTable }
  fibUpdate (s : Nlsr) (name : Name) (allHops : NexthopList) : R s (s.fibUpdate name allHops)
  fibRemove (s : Nlsr) (name : Name) : R s (s.fibRemove name)

namespace TablesClosed

variable {R : Nlsr → Nlsr → Prop}

theorem addEntry (h : TablesClosed R) (s : Nlsr) (name dest : Name) :
    R s (s.addEntry name dest) := by
  unfold Nlsr.addEntry addEntryRte
  cases s.namePrefixTable.find? name with
  | none =>
    dsimp only
    split_ifs
    · exact h.trans (h.setNamePrefixTable s _) (h.fibUpdate _ _ _)
    · exact h.setNamePrefixTable s _
  | some it =>
    dsimp only
    split_ifs
    · exact h.trans (h.setNamePrefixTable s _) (h.fibUpdate _ _ _)
    · exact h.trans (h.setNamePrefixTable s _) (h.fibRemove _ _)

theorem removeEntry (h : TablesClosed R) (s : Nlsr) (name dest : Name) :
    R s (s.removeEntry name dest) := by
  unfold Nlsr.removeEntry removeEntryRte
  cases s.namePrefixTable.find? name with
  | none => exact h.refl s
  | some it =>
    dsimp only
    split_ifs
    · exact h.trans (h.setNamePrefixTable s _) (h.fibRemove _ _)
    · exact h.trans (h.setNamePrefixTable s _) (h.fibUpdate _ _ _)

theorem addEntries (h : TablesClosed R) (s : Nlsr) (pairs : List (Name × Name)) :
    R s (s.addEntries pairs) := by
  induction pairs generalizing s with
  | nil => exact h.refl s
  | cons p pairs ih => exact h.trans (h.addEntry s p.1 p.2) (ih _)

theorem removeEntries (h : TablesClosed R) (s : Nlsr) (pairs : List (Name × Name)) :
    R s (s.removeEntries pairs) := by
  induction pairs generalizing s with
  | nil => exact h.refl s
  | cons p pairs ih => exact h.trans (h.removeEntry s p.1 p.2) (ih _)

end TablesClosed

/-! ## The database -/

/-- A relation that holds across what the operations on LSAs are made of. An event is cancelled
after other things were done, by an id that was owned before them. -/
structure LsdbClosed (R : Nlsr → Nlsr → Prop) (free : Counter → Name → Prop) : Prop
    extends TablesClosed R where
  setLsdb (s : Nlsr) (db : Lsdb) : db.lsaRefreshTime = s.lsdb.lsaRefreshTime →
    db.adjLsaBuildInterval = s.lsdb.adjLsaBuildInterval → R s (s.setLsdb db)
  setOwn (s : Nlsr) (sequencingManager : SequencingManager) (namePrefixList : NamePrefixList)
    (seqFile : Option UInt64) (published : List UInt64) :
    R s { s with sequencingManager, namePrefixList, seqFile, published }
  scheduleRoutingTableCalculation (s : Nlsr) : R s s.scheduleRoutingTableCalculation
  arm (s : Nlsr) (l : AnyLsa) : R s (s.arm l).1
  cancelOwned {s t : Nlsr} {c : Counter} {o : Name} {eid : Option Nat} : free c o → R s t →
    s.scheduler.Owns eid (Expires c o) → R s (t.cancelEvent eid)

namespace LsdbClosed

variable {R : Nlsr → Nlsr → Prop} {free : Counter → Name → Prop} {s t : Nlsr}
  {since : Counter → Name → TimePoint}

theorem put (h : LsdbClosed R free) (s : Nlsr) (l : AnyLsa) : R s (s.put l) := by
  cases l <;> exact h.setLsdb _ _ rfl rfl

theorem onLsdbChange (h : LsdbClosed R free) (s : Nlsr) : R s (s.setLsdb s.lsdb.onLsdbChange) :=
  h.setLsdb _ _ rfl rfl

theorem publishRoutingUpdate (h : LsdbClosed R free) (s : Nlsr) : R s s.publishRoutingUpdate :=
  h.setOwn s s.sequencingManager s.namePrefixList _ _

theorem scheduleIfHyperbolic (h : LsdbClosed R free) (s : Nlsr) : R s s.scheduleIfHyperbolic := by
  unfold Nlsr.scheduleIfHyperbolic
  split_ifs
  · exact h.scheduleRoutingTableCalculation s
  · exact h.refl s

theorem addNameLsa (h : LsdbClosed R free) (s : Nlsr) (l : NameLsa) :
    R s (s.setLsdb (s.lsdb.addNameLsa l)) := by
  unfold Lsdb.addNameLsa
  split_ifs <;> exact h.setLsdb _ _ rfl rfl

theorem addAdjLsa (h : LsdbClosed R free) (s : Nlsr) (l : AdjLsa) :
    R s (s.setLsdb (s.lsdb.addAdjLsa l)) := by
  unfold Lsdb.addAdjLsa
  split_ifs <;> exact h.setLsdb _ _ rfl rfl

theorem addCoordinateLsa (h : LsdbClosed R free) (s : Nlsr) (l : CoordinateLsa) :
    R s (s.setLsdb (s.lsdb.addCoordinateLsa l)) := by
  unfold Lsdb.addCoordinateLsa
  split_ifs <;> exact h.setLsdb _ _ rfl rfl

/-- An update ends in cancelling the old expiration, arming the LSA and writing it back. -/
theorem rearm (h : LsdbClosed R free) (hst : R s t) (hs : Timed Every since s) (chk l l' : AnyLsa)
    (hchk : s.lsaOf l.counter l.origRouter = some chk) (hfree : free l.counter l.origRouter) :
    R s (((t.cancelEvent chk.toLsa.expiringEventId).arm l).1.put l') :=
  h.trans (h.trans (h.cancelOwned hfree hst (hs.owned _ _ _ hchk)) (h.arm _ l)) (h.put _ l')

/-- **An install**, if the events of its LSA may be cancelled. -/
theorem install (h : LsdbClosed R free) (hs : Timed Every since s) {l : AnyLsa}
    (hfree : free l.counter l.origRouter) : R s (s.install l) := by
  cases l with
  | name l =>
    cases hfind : s.lsdb.findNameLsa l.getKey with
    | none =>
      rw [Nlsr.install, installNameLsa_of_none hfind]
      exact h.trans (h.trans (h.addNameLsa s l) (h.addEntries _ _)) (h.arm _ (.name l))
    | some chk =>
      by_cases hlt : chk.lsSeqNo < l.lsSeqNo
      · rw [Nlsr.install, installNameLsa_of_newer hfind hlt]
        have hnames : ∀ added removed,
            R s (((s.setLsdb s.lsdb.onLsdbChange).addEntries added).removeEntries removed) :=
          fun added removed => h.trans (h.trans (h.onLsdbChange s) (h.addEntries _ added))
            (h.removeEntries _ removed)
        exact h.rearm (hnames _ _) hs (.name chk) (.name l) (.name _)
          (congrArg (Option.map AnyLsa.name) hfind) hfree
      · rw [Nlsr.install, installNameLsa_of_not_newer hfind hlt]
        exact h.refl s
  | adj l =>
    cases hfind : s.lsdb.findAdjLsa l.getKey with
    | none =>
      rw [Nlsr.install, installAdjLsa_of_none hfind]
      exact h.trans (h.trans (h.trans (h.addAdjLsa s l) (h.addEntries _ _))
        (h.scheduleRoutingTableCalculation _)) (h.arm _ (.adj l))
    | some chk =>
      by_cases hlt : chk.lsSeqNo < l.lsSeqNo
      · rw [Nlsr.install, installAdjLsa_of_newer hfind hlt]
        have hasked : R s (if (chk.adl.eqSorting l.adl).1 then s.setLsdb s.lsdb.onLsdbChange
            else (s.setLsdb s.lsdb.onLsdbChange).scheduleRoutingTableCalculation) := by
          split_ifs
          · exact h.onLsdbChange s
          · exact h.trans (h.onLsdbChange s) (h.scheduleRoutingTableCalculation _)
        exact h.rearm hasked hs (.adj chk) (.adj l) (.adj _)
          (congrArg (Option.map AnyLsa.adj) hfind) hfree
      · rw [Nlsr.install, installAdjLsa_of_not_newer hfind hlt]
        exact h.refl s
  | coordinate l =>
    cases hfind : s.lsdb.findCoordinateLsa l.getKey with
    | none =>
      rw [Nlsr.install, installCoordinateLsa_of_none hfind]
      exact h.trans (h.trans (h.trans (h.addCoordinateLsa s l) (h.addEntries _ _))
        (h.scheduleIfHyperbolic _)) (h.arm _ (.coordinate l))
    | some chk =>
      by_cases hlt : chk.lsSeqNo < l.lsSeqNo
      · rw [Nlsr.install, installCoordinateLsa_of_newer hfind hlt]
        have hasked : R s (if chk.isEqualContent l then s.setLsdb s.lsdb.onLsdbChange
            else (s.setLsdb s.lsdb.onLsdbChange).scheduleIfHyperbolic) := by
          split_ifs
          · exact h.onLsdbChange s
          · exact h.trans (h.onLsdbChange s) (h.scheduleIfHyperbolic _)
        exact h.rearm hasked hs (.coordinate chk) (.coordinate l) (.coordinate _)
          (congrArg (Option.map AnyLsa.coordinate) hfind) hfree
      · rw [Nlsr.install, installCoordinateLsa_of_not_newer hfind hlt]
        exact h.refl s

theorem refresh (h : LsdbClosed R free) {chk : AnyLsa} (hown : chk.origRouter = s.routerPrefix) :
    R s (s.refresh chk) := by
  obtain ⟨sm, hform⟩ := refresh_form hown
  have hcount : R s (s.renumber sm) := h.trans (h.onLsdbChange s)
    (h.setOwn _ sm s.namePrefixList s.seqFile s.published)
  rw [hform]
  exact h.trans (h.trans (h.trans hcount (h.arm _ _)) (h.put _ _)) (h.publishRoutingUpdate _)

theorem removePairs (h : LsdbClosed R free) (s : Nlsr) (pairs : List (Name × Name)) {db : Lsdb}
    (hrefresh : db.lsaRefreshTime = s.lsdb.lsaRefreshTime)
    (hbuild : db.adjLsaBuildInterval = s.lsdb.adjLsaBuildInterval) :
    R s ((s.removeEntries pairs).setLsdb db) := by
  have hlsdb := (onlyTables_removeEntries s pairs).lsdb
  refine h.trans (h.removeEntries s pairs) (h.setLsdb _ _ ?_ ?_)
  · rw [hrefresh, hlsdb]
  · rw [hbuild, hlsdb]

theorem removeLsa (h : LsdbClosed R free) (s : Nlsr) (c : Counter) (key : Name) :
    R s (s.removeLsa c key) := by
  cases c with
  | name =>
    cases hfind : s.lsdb.findNameLsa key with
    | none => rw [Nlsr.removeLsa, removeNameLsa_of_none hfind]; exact h.refl s
    | some l =>
      rw [Nlsr.removeLsa, removeNameLsa_of_some hfind]
      exact h.removePairs s _ rfl rfl
  | adj =>
    cases hfind : s.lsdb.findAdjLsa key with
    | none => rw [Nlsr.removeLsa, removeAdjLsa_of_none hfind]; exact h.refl s
    | some l =>
      rw [Nlsr.removeLsa, removeAdjLsa_of_some hfind]
      exact h.removePairs s _ rfl rfl
  | cor =>
    cases hfind : s.lsdb.findCoordinateLsa key with
    | none => rw [Nlsr.removeLsa, removeCoordinateLsa_of_none hfind]; exact h.refl s
    | some l =>
      rw [Nlsr.removeLsa, removeCoordinateLsa_of_some hfind]
      exact h.removePairs s _ rfl rfl

theorem afterExpiry (h : LsdbClosed R free) (s : Nlsr) (c : Counter) : R s (s.afterExpiry c) := by
  cases c with
  | name => exact h.refl s
  | adj => exact h.scheduleRoutingTableCalculation s
  | cor => exact h.scheduleIfHyperbolic s

/-- The event of an LSA, once it has left the scheduler. -/
theorem lsaEvent (h : LsdbClosed R free) (math : MathLib)
    (hs : s.lsdb.thisRouterPrefix = s.routerPrefix) (c : Counter) (o : Name) (seqNo : UInt64) :
    R s (s.runAction math (lsaEvent c o seqNo)) := by
  rw [runAction_lsaEvent]
  cases s.lsaOf c o with
  | none => exact h.refl s
  | some chk =>
    dsimp only
    split_ifs with hseq hown
    · exact h.trans (h.refresh (hown.trans hs)) (h.afterExpiry _ c)
    · exact h.trans (h.removeLsa s c _) (h.afterExpiry _ c)
    · exact h.refl s

/-- A build of an own LSA counts, and installs what it has built. -/
theorem build (h : LsdbClosed R free) (hs : Timed Every since s) (sm : SequencingManager)
    {l : AnyLsa} (hfree : free l.counter l.origRouter) :
    R s (({ s with sequencingManager := sm } : Nlsr).install l) := by
  let t : Nlsr := { s with sequencingManager := sm }
  have ht : Timed Every since t := ⟨hs.thisRouterPrefix, hs.lsaRefreshTime, hs.fibIds,
    hs.scheduled, hs.owned, hs.armed⟩
  exact h.trans (h.setOwn s sm s.namePrefixList s.seqFile s.published) (h.install ht hfree)

/-- The build of the own Adjacency LSA announces its number before it installs it. -/
theorem buildAndInstallOwnAdjLsa (h : LsdbClosed R free) (hs : Timed Every since s)
    (hfree : free .adj s.ownAdjLsa.origRouter) : R s s.buildAndInstallOwnAdjLsa := by
  let t : Nlsr := ({ s with
    sequencingManager := s.sequencingManager.increaseAdjLsaSeq } : Nlsr).publishRoutingUpdate
  have ht : Timed Every since t := ⟨hs.thisRouterPrefix, hs.lsaRefreshTime, hs.fibIds,
    hs.scheduled, hs.owned, hs.armed⟩
  exact h.trans (h.setOwn s _ s.namePrefixList _ _) (h.install ht (l := .adj s.ownAdjLsa) hfree)

/-- The names are changed, and the Name LSA is built and announced. -/
theorem rebuildNames (h : LsdbClosed R free) (hs : Timed Every since s) (names : NamePrefixList) :
    let s₀ : Nlsr := { s with namePrefixList := names }
    free .name s₀.ownNameLsa.origRouter →
      R s s₀.buildAndInstallOwnNameLsa.publishRoutingUpdate := by
  intro s₀ hfree
  have hnames : R s s₀ := h.setOwn s s.sequencingManager names s.seqFile s.published
  have h₀ : Timed Every since s₀ := ⟨hs.thisRouterPrefix, hs.lsaRefreshTime, hs.fibIds,
    hs.scheduled, hs.owned, hs.armed⟩
  exact h.trans (h.trans hnames (h.build h₀ _ (l := .name s₀.ownNameLsa) hfree))
    (h.publishRoutingUpdate _)

/-- **Every event** but the firing of a scheduled one and the clock, if the events of the LSA it
installs may be cancelled. -/
theorem step (h : LsdbClosed R free) (hhello : HelloClosed R) (math : MathLib)
    (hs : Timed Every since s) {e : Event} (hfire : ∀ id, e ≠ .fire id)
    (hclock : ∀ now, e ≠ .clock now)
    (hfree : ∀ l, s.opOf e = .install l → free l.counter l.origRouter) : R s (s.step math e) := by
  cases e with
  | installNameLsa nlsa => exact h.install hs (l := .name _) (hfree _ rfl)
  | installAdjLsa alsa => exact h.install hs (l := .adj _) (hfree _ rfl)
  | installCoordinateLsa clsa => exact h.install hs (l := .coordinate _) (hfree _ rfl)
  | removeNameLsa key => exact h.removeLsa s .name key
  | removeAdjLsa key => exact h.removeLsa s .adj key
  | removeCoordinateLsa key => exact h.removeLsa s .cor key
  | fire id => exact absurd rfl (hfire id)
  | buildAndInstallOwnNameLsa => exact h.build hs _ (l := .name s.ownNameLsa) (hfree _ rfl)
  | buildAndInstallOwnCoordinateLsa =>
    exact h.build hs _ (l := .coordinate s.ownCoordinateLsa) (hfree _ rfl)
  | publishRoutingUpdate => exact h.publishRoutingUpdate s
  | scheduleAdjLsaBuild => exact hhello.scheduleAdjLsaBuild s
  | helloTimedOut interestName => exact hhello.processInterestTimedOut s interestName
  | helloValidated dataName => exact hhello.onHelloValidated s dataName
  | registrationSuccess neighbor faceId => exact hhello.onRegistrationSuccess s neighbor faceId
  | registrationFailure neighbor => exact hhello.onRegistrationFailure s neighbor
  | faceDestroyed faceId => exact hhello.onFaceDestroyed s faceId
  | advertise name =>
    have hop : s.opOf (.advertise name) = s.advertiseOp name := rfl
    rw [hop, advertiseOp] at hfree
    show R s (s.advertise name)
    unfold advertise
    split_ifs at hfree ⊢
    · exact h.refl s
    · exact h.rebuildNames hs _ (hfree _ rfl)
  | withdraw name =>
    have hop : s.opOf (.withdraw name) = s.withdrawOp name := rfl
    rw [hop, withdrawOp] at hfree
    show R s (s.withdraw name)
    unfold withdraw
    split_ifs at hfree ⊢
    · exact h.rebuildNames hs _ (hfree _ rfl)
    · exact h.refl s
  | clock now => exact absurd rfl (hclock now)

end LsdbClosed

end Nlsr

end LinkState
