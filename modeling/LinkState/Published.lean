import LinkState.Restart

/-!
# What a router has published

The announcements of a router are only added to (`adds_step`), in every state and at every event,
whether its numbers are in order or not.
-/

namespace LinkState

namespace Nlsr

/-- Nothing that was published is taken back. -/
def Adds (s t : Nlsr) : Prop := s.published <+: t.published

theorem Adds.refl (s : Nlsr) : Adds s s := List.prefix_rfl

theorem Adds.trans {s t u : Nlsr} (h : Adds s t) (h' : Adds t u) : Adds s u := List.IsPrefix.trans h h'

theorem Silent.adds {s t : Nlsr} (h : Silent s t) : Adds s t :=
  ⟨[], by rw [List.append_nil, h.published]⟩

theorem SameNumbers.adds {s t : Nlsr} (h : SameNumbers s t) : Adds s t := h.silent.adds

theorem OnlyLsdb.adds {s t : Nlsr} (h : OnlyLsdb s t) : Adds s t := h.silent.adds

theorem adds_publishRoutingUpdate (s : Nlsr) : Adds s s.publishRoutingUpdate :=
  List.prefix_append _ _

theorem adds_buildAndInstallOwnNameLsa (s : Nlsr) : Adds s s.buildAndInstallOwnNameLsa := by
  let s' : Nlsr := { s with sequencingManager := s.sequencingManager.increaseNameLsaSeq }
  exact (onlyLsdb_installNameLsa s' s.ownNameLsa).adds

theorem adds_buildAndInstallOwnAdjLsa (s : Nlsr) : Adds s s.buildAndInstallOwnAdjLsa := by
  let s' : Nlsr := { s with sequencingManager := s.sequencingManager.increaseAdjLsaSeq }
  exact (adds_publishRoutingUpdate s').trans
    (onlyLsdb_installAdjLsa s'.publishRoutingUpdate s.ownAdjLsa).adds

theorem adds_fire (math : MathLib) (s : Nlsr) (id : Nat) : Adds s (s.fire math id) := by
  unfold fire
  cases s.pendingAction id with
  | none => exact Adds.refl s
  | some action =>
    show Adds (s.cancelEvent (some id)) _
    generalize s.cancelEvent (some id) = s
    cases action with
    | exprireOrRefreshNameLsa lsaKey seqNo =>
      show Adds s (s.exprireOrRefreshNameLsa lsaKey seqNo)
      unfold exprireOrRefreshNameLsa
      cases s.lsdb.findNameLsa lsaKey with
      | none => exact Adds.refl s
      | some chk =>
        dsimp only
        split_ifs
        · exact ⟨[_], rfl⟩
        · exact (onlyLsdb_removeNameLsa s lsaKey).adds
        · exact Adds.refl s
    | exprireOrRefreshAdjLsa lsaKey seqNo =>
      show Adds s (s.exprireOrRefreshAdjLsa lsaKey seqNo)
      unfold exprireOrRefreshAdjLsa
      cases s.lsdb.findAdjLsa lsaKey with
      | none => exact Adds.refl s
      | some chk =>
        dsimp only
        split_ifs
        · exact Adds.trans (t := s.refreshAdjLsa chk) ⟨[_], rfl⟩
            (sameNumbers_scheduleRoutingTableCalculation _).adds
        · exact (onlyLsdb_removeAdjLsa s lsaKey).adds.trans
            (sameNumbers_scheduleRoutingTableCalculation _).adds
        · exact Adds.refl s
    | exprireOrRefreshCoordinateLsa lsaKey seqNo =>
      show Adds s (s.exprireOrRefreshCoordinateLsa lsaKey seqNo)
      unfold exprireOrRefreshCoordinateLsa
      cases s.lsdb.findCoordinateLsa lsaKey with
      | none => exact Adds.refl s
      | some chk =>
        dsimp only
        split_ifs
        · exact Adds.trans (t := s.refreshCoordinateLsa chk) ⟨[_], rfl⟩
            (sameNumbers_scheduleIfHyperbolic _).adds
        · exact (onlyLsdb_removeCoordinateLsa s lsaKey).adds.trans
            (sameNumbers_scheduleIfHyperbolic _).adds
        · exact Adds.refl s
    | buildAdjLsa =>
      let s₁ : Nlsr := { s with isBuildAdjLsaSheduled := false }
      show Adds s s.buildAdjLsa
      unfold buildAdjLsa
      dsimp only
      split_ifs
      · exact adds_buildAndInstallOwnAdjLsa s₁
      · exact (onlyLsdb_removeAdjLsa s₁ (AdjLsa.key s.routerPrefix)).adds.trans
          (sameNumbers_scheduleRoutingTableCalculation _).adds
      · exact Adds.refl s
      · exact Adds.refl s
    | calculate => exact (onlyRouting_calculate math s).sameNumbers.adds
    | removeFibEntry name => exact (onlyFib_fibRemove s name).sameNumbers.adds

/-- **What was published stays published.** -/
theorem adds_step (math : MathLib) (s : Nlsr) (e : Event) : Adds s (s.step math e) := by
  cases e with
  | installNameLsa nlsa => exact (onlyLsdb_installNameLsa s _).adds
  | installAdjLsa alsa => exact (onlyLsdb_installAdjLsa s _).adds
  | installCoordinateLsa clsa => exact (onlyLsdb_installCoordinateLsa s _).adds
  | removeNameLsa key => exact (onlyLsdb_removeNameLsa s key).adds
  | removeAdjLsa key => exact (onlyLsdb_removeAdjLsa s key).adds
  | removeCoordinateLsa key => exact (onlyLsdb_removeCoordinateLsa s key).adds
  | fire id => exact adds_fire math s id
  | buildAndInstallOwnNameLsa => exact adds_buildAndInstallOwnNameLsa s
  | buildAndInstallOwnCoordinateLsa =>
    let s' : Nlsr := { s with sequencingManager := s.sequencingManager.increaseCorLsaSeq }
    exact (onlyLsdb_installCoordinateLsa s' s.ownCoordinateLsa).adds
  | publishRoutingUpdate => exact adds_publishRoutingUpdate s
  | scheduleAdjLsaBuild => exact (onlyHello_scheduleAdjLsaBuild s).sameNumbers.adds
  | helloTimedOut interestName =>
    exact (onlyHello_processInterestTimedOut s interestName).sameNumbers.adds
  | helloValidated dataName => exact (onlyHello_onHelloValidated s dataName).sameNumbers.adds
  | registrationSuccess neighbor faceId =>
    exact (onlyHello_onRegistrationSuccess s neighbor faceId).sameNumbers.adds
  | registrationFailure neighbor =>
    exact (onlyHello_onRegistrationFailure s neighbor).sameNumbers.adds
  | faceDestroyed faceId => exact (onlyHello_onFaceDestroyed s faceId).sameNumbers.adds
  | advertise name =>
    show Adds s (s.advertise name)
    unfold advertise
    split_ifs
    · exact Adds.refl s
    · let s₀ : Nlsr := { s with namePrefixList := s.namePrefixList.insert name }
      exact (adds_buildAndInstallOwnNameLsa s₀).trans (adds_publishRoutingUpdate _)
  | withdraw name =>
    show Adds s (s.withdraw name)
    unfold withdraw
    split_ifs
    · let s₀ : Nlsr := { s with namePrefixList := s.namePrefixList.remove name }
      exact (adds_buildAndInstallOwnNameLsa s₀).trans (adds_publishRoutingUpdate _)
    · exact Adds.refl s
  | clock now => exact Adds.refl s

/-- A router that has just started has published nothing. -/
theorem published_initializeNlsr (confParam : ConfParameter) (adjacencyList : AdjacencyList)
    (namePrefixList : NamePrefixList) (seqFile : Option UInt64) (now : TimePoint) :
    (start confParam adjacencyList namePrefixList seqFile now).initializeNlsr.published = [] := by
  let s₀ := initiated confParam adjacencyList namePrefixList seqFile now
  let s' : Nlsr := { s₀ with sequencingManager := s₀.sequencingManager.increaseNameLsaSeq }
  let s₁ := s₀.buildAndInstallOwnNameLsa
  let s₁' : Nlsr := { s₁ with sequencingManager := s₁.sequencingManager.increaseCorLsaSeq }
  have hname : s₁.published = s₀.published := (onlyLsdb_installNameLsa s' s₀.ownNameLsa).silent.2
  have hcor : s₁.buildAndInstallOwnCoordinateLsa.published = s₁.published :=
    (onlyLsdb_installCoordinateLsa s₁' s₁.ownCoordinateLsa).silent.2
  exact initializeNlsr_of_built (P := fun s => s.published = []) (fun s h => h)
    (hcor.trans hname)

end Nlsr

end LinkState
