import LinkState.Convergence
import LinkState.Operations

/-!
# What the Hello protocol does to the neighbours

A neighbour is configured with a name, a face URI and a link cost, which nothing changes. What
changes is its status, its count of timeouts and its face id; and whenever a status changes, a
build of the Adjacency LSA is requested. `HelloTurn` says this of every event of the protocol.
-/

namespace LinkState

namespace AdjacencyList

/-- Modifying a neighbour in a way that a function does not see. -/
theorem agree_modify {β : Type*} {g : Adjacent → β} {l : AdjacencyList} {neighbor : Name}
    {f : Adjacent → Adjacent} (hname : ∀ a, (f a).name = a.name)
    (h : ∀ a, l.find? neighbor = some a → g (f a) = g a) :
    KeyedList.Agree g l (l.modify neighbor f) := by
  unfold modify
  cases hfind : l.find? neighbor with
  | none => exact KeyedList.Agree.refl g l
  | some a =>
    refine KeyedList.agree_replace (a := a) ?_ (h a hfind)
    rw [hname, KeyedList.key_of_find? hfind]
    exact hfind

theorem agree_incrementTimedOutInterestCount {β : Type*} {g : Adjacent → β}
    (hg : ∀ (a : Adjacent) count, g { a with interestTimedOutNo := count } = g a)
    (l : AdjacencyList) (neighbor : Name) :
    KeyedList.Agree g l (l.incrementTimedOutInterestCount neighbor) :=
  agree_modify (fun _ => rfl) fun a _ => hg a _

theorem agree_setTimedOutInterestCount {β : Type*} {g : Adjacent → β}
    (hg : ∀ (a : Adjacent) count, g { a with interestTimedOutNo := count } = g a)
    (l : AdjacencyList) (neighbor : Name) (count : UInt32) :
    KeyedList.Agree g l (l.setTimedOutInterestCount neighbor count) :=
  agree_modify (fun _ => rfl) fun a _ => hg a _

theorem agree_setStatusOfNeighbor (l : AdjacencyList) (neighbor : Name) (status : Status) :
    KeyedList.Agree Adjacent.triple l (l.setStatusOfNeighbor neighbor status) :=
  agree_modify (fun _ => rfl) fun _ _ => rfl

theorem find?_modify {l : AdjacencyList} {neighbor : Name} {f : Adjacent → Adjacent}
    (hname : ∀ a, (f a).name = a.name) :
    (l.modify neighbor f).find? neighbor = (l.find? neighbor).map f := by
  unfold modify
  cases hfind : l.find? neighbor with
  | none => exact hfind
  | some a =>
    have hkey : (f a).name = neighbor := (hname a).trans (KeyedList.key_of_find? hfind)
    rw [← hkey]
    rw [← hkey] at hfind
    exact KeyedList.find?_replace_self hfind

theorem find?_setStatusOfNeighbor (l : AdjacencyList) (neighbor : Name) (status : Status) :
    (l.setStatusOfNeighbor neighbor status).find? neighbor =
      (l.find? neighbor).map fun a => { a with status } :=
  find?_modify fun _ => rfl

theorem find?_setTimedOutInterestCount (l : AdjacencyList) (neighbor : Name) (count : UInt32) :
    (l.setTimedOutInterestCount neighbor count).find? neighbor =
      (l.find? neighbor).map fun a => { a with interestTimedOutNo := count } :=
  find?_modify fun _ => rfl

end AdjacencyList

namespace Nlsr

/-- An event of the Hello protocol keeps the links of the neighbours, and requests a build if it
changes a status. -/
structure HelloTurn (s t : Nlsr) : Prop where
  onlyHello : OnlyHello s t
  links : s.adjacencyList.Agree Adjacent.triple t.adjacencyList
  requests : (s.adjacencyList.Agree Adjacent.status t.adjacencyList ∧
      t.isBuildAdjLsaSheduled = s.isBuildAdjLsaSheduled ∧ t.adjBuildCount = s.adjBuildCount) ∨
    (t.isBuildAdjLsaSheduled = true ∧ t.adjBuildCount = s.adjBuildCount + 1)

theorem helloTurn_refl (s : Nlsr) : HelloTurn s s :=
  ⟨OnlyHello.refl s, KeyedList.Agree.refl _ _, Or.inl ⟨KeyedList.Agree.refl _ _, rfl, rfl⟩⟩

theorem helloTurn_setAdjacencyList {s : Nlsr} {l : AdjacencyList}
    (hlinks : s.adjacencyList.Agree Adjacent.triple l)
    (hstatus : s.adjacencyList.Agree Adjacent.status l) : HelloTurn s (s.setAdjacencyList l) :=
  ⟨onlyHello_setAdjacencyList s l, hlinks, Or.inl ⟨hstatus, rfl, rfl⟩⟩

theorem scheduleAdjLsaBuild_requests (s : Nlsr) :
    s.scheduleAdjLsaBuild.adjacencyList = s.adjacencyList ∧
      s.scheduleAdjLsaBuild.isBuildAdjLsaSheduled = true ∧
      s.scheduleAdjLsaBuild.adjBuildCount = s.adjBuildCount + 1 := by
  unfold scheduleAdjLsaBuild
  dsimp only
  split_ifs with h
  · exact ⟨rfl, rfl, rfl⟩
  · exact ⟨rfl, by simpa using h, rfl⟩

/-- A new list, then a request. -/
theorem helloTurn_request {s : Nlsr} {l : AdjacencyList}
    (hlinks : s.adjacencyList.Agree Adjacent.triple l) :
    HelloTurn s (s.setAdjacencyList l).scheduleAdjLsaBuild := by
  obtain ⟨hlist, hscheduled, hcount⟩ := scheduleAdjLsaBuild_requests (s.setAdjacencyList l)
  exact ⟨(onlyHello_setAdjacencyList s l).trans (onlyHello_scheduleAdjLsaBuild _),
    hlist ▸ hlinks, Or.inr ⟨hscheduled, hcount⟩⟩

theorem helloTurn_scheduleAdjLsaBuild (s : Nlsr) : HelloTurn s s.scheduleAdjLsaBuild :=
  helloTurn_request (KeyedList.Agree.refl _ s.adjacencyList)

theorem helloTurn_processInterestTimedOut (s : Nlsr) (interestName : Name) :
    HelloTurn s (s.processInterestTimedOut interestName) := by
  unfold processInterestTimedOut
  dsimp only
  split_ifs
  · exact helloTurn_refl s
  · exact helloTurn_setAdjacencyList
      (AdjacencyList.agree_incrementTimedOutInterestCount (fun _ _ => rfl) _ _)
      (AdjacencyList.agree_incrementTimedOutInterestCount (fun _ _ => rfl) _ _)
  · exact helloTurn_request (s := s) (KeyedList.Agree.trans
      (AdjacencyList.agree_incrementTimedOutInterestCount (fun _ _ => rfl) _ _)
      (AdjacencyList.agree_setStatusOfNeighbor _ _ _))
  · exact helloTurn_setAdjacencyList
      (AdjacencyList.agree_incrementTimedOutInterestCount (fun _ _ => rfl) _ _)
      (AdjacencyList.agree_incrementTimedOutInterestCount (fun _ _ => rfl) _ _)

theorem helloTurn_onHelloValidated (s : Nlsr) (dataName : Name) :
    HelloTurn s (s.onHelloValidated dataName) := by
  unfold onHelloValidated
  dsimp only
  let neighbor := HelloProtocol.dropLast dataName 4
  let l := (s.adjacencyList.setStatusOfNeighbor neighbor .active).setTimedOutInterestCount
    neighbor 0
  have hlinks : s.adjacencyList.Agree Adjacent.triple l :=
    (AdjacencyList.agree_setStatusOfNeighbor _ _ _).trans
      (AdjacencyList.agree_setTimedOutInterestCount (fun _ _ => rfl) _ _ _)
  split_ifs with hinfo hne
  · exact helloTurn_request hlinks
  · -- The neighbour, if it is one, was ACTIVE before
    have hstatus : s.adjacencyList.Agree Adjacent.status
        (s.adjacencyList.setStatusOfNeighbor neighbor .active) := by
      refine AdjacencyList.agree_modify (fun _ => rfl) fun a ha => ?_
      have hold : s.adjacencyList.getStatusOfNeighbor neighbor = a.status := by
        rw [AdjacencyList.getStatusOfNeighbor, ha]
      have hnew : l.getStatusOfNeighbor neighbor = .active := by
        show AdjacencyList.getStatusOfNeighbor
          ((s.adjacencyList.setStatusOfNeighbor neighbor .active).setTimedOutInterestCount
            neighbor 0) neighbor = _
        rw [AdjacencyList.getStatusOfNeighbor, AdjacencyList.find?_setTimedOutInterestCount,
          AdjacencyList.find?_setStatusOfNeighbor, ha]
        rfl
      show Status.active = a.status
      rw [← hold, ← hnew]
      exact (not_not.1 hne).symm
    exact helloTurn_setAdjacencyList hlinks (hstatus.trans
      (AdjacencyList.agree_setTimedOutInterestCount (fun _ _ => rfl) _ _ _))
  · exact helloTurn_refl s

theorem agree_replace_of_find? {β : Type*} {g : Adjacent → β} {l : AdjacencyList} {n : Name}
    {a b : Adjacent} (h : l.find? n = some a) (hname : b.name = a.name) (hg : g b = g a) :
    l.Agree g (l.replace b) := by
  refine KeyedList.agree_replace (a := a) ?_ hg
  rw [hname, KeyedList.key_of_find? h]
  exact h

theorem HelloTurn.onlySent {s t u : Nlsr} (h : HelloTurn s t) (hsent : OnlySent t u) :
    HelloTurn s u := by
  have honly := h.onlyHello.trans hsent.onlyHello
  rw [OnlySent] at hsent
  rw [hsent] at honly ⊢
  exact ⟨honly, h.links, h.requests⟩

theorem helloTurn_onRegistrationSuccess (s : Nlsr) (neighbor : Name) (faceId : UInt64) :
    HelloTurn s (s.onRegistrationSuccess neighbor faceId) := by
  unfold onRegistrationSuccess
  cases h : s.adjacencyList.find? neighbor with
  | none => exact helloTurn_refl s
  | some adjacent =>
    have hface : HelloTurn s (s.setAdjacencyList
        (s.adjacencyList.replace { adjacent with faceId := faceId })) :=
      helloTurn_setAdjacencyList (agree_replace_of_find? h rfl rfl)
        (agree_replace_of_find? h rfl rfl)
    exact hface.onlySent (((onlySent_registerPrefix ..).trans (onlySent_registerPrefix ..)).trans
      (onlySent_registerPrefix ..))

theorem helloTurn_onRegistrationFailure (s : Nlsr) (name : Name) :
    HelloTurn s (s.onRegistrationFailure name) := by
  unfold onRegistrationFailure
  cases h : s.adjacencyList.find? name with
  | none => exact helloTurn_refl s
  | some adjacent =>
    dsimp only
    split_ifs
    · exact helloTurn_request (agree_replace_of_find? h rfl rfl)
    · exact helloTurn_request (agree_replace_of_find? h rfl rfl)
    · exact helloTurn_setAdjacencyList (agree_replace_of_find? h rfl rfl)
        (agree_replace_of_find? h rfl rfl)

theorem helloTurn_onFaceDestroyed (s : Nlsr) (faceId : UInt64) :
    HelloTurn s (s.onFaceDestroyed faceId) := by
  unfold onFaceDestroyed
  cases h : s.adjacencyList.findAdjacentByFaceId faceId with
  | none => exact helloTurn_refl s
  | some adjacent =>
    have hfind : s.adjacencyList.find? adjacent.name = some adjacent :=
      KeyedList.find?_of_mem (List.mem_of_find?_eq_some h)
    dsimp only
    split_ifs
    · exact helloTurn_request (agree_replace_of_find? hfind rfl rfl)
    · exact helloTurn_setAdjacencyList (agree_replace_of_find? hfind rfl rfl)
        (agree_replace_of_find? hfind rfl rfl)

/-! ## What leaves the neighbours alone -/

/-- The neighbours and the names to advertise are the same. -/
structure SameLists (s t : Nlsr) : Prop where
  adjacencyList : t.adjacencyList = s.adjacencyList
  namePrefixList : t.namePrefixList = s.namePrefixList

theorem SameLists.refl (s : Nlsr) : SameLists s s := ⟨rfl, rfl⟩

theorem SameLists.trans {s t u : Nlsr} (h : SameLists s t) (h' : SameLists t u) : SameLists s u :=
  ⟨h'.adjacencyList.trans h.adjacencyList, h'.namePrefixList.trans h.namePrefixList⟩

theorem OnlyLsdb.sameLists {s t : Nlsr} (h : OnlyLsdb s t) : SameLists s t := by
  rw [OnlyLsdb] at h
  rw [h]
  exact ⟨rfl, rfl⟩

theorem OnlyRouting.sameLists {s t : Nlsr} (h : OnlyRouting s t) : SameLists s t := by
  rw [OnlyRouting] at h
  rw [h]
  exact ⟨rfl, rfl⟩

theorem OnlyFib.sameLists {s t : Nlsr} (h : OnlyFib s t) : SameLists s t := by
  rw [OnlyFib] at h
  rw [h]
  exact ⟨rfl, rfl⟩

theorem sameLists_buildAndInstallOwnNameLsa (s : Nlsr) :
    SameLists s s.buildAndInstallOwnNameLsa := by
  let s' : Nlsr := { s with sequencingManager := s.sequencingManager.increaseNameLsaSeq }
  exact SameLists.trans (t := s') ⟨rfl, rfl⟩ (onlyLsdb_installNameLsa s' s.ownNameLsa).sameLists

theorem sameLists_buildAndInstallOwnCoordinateLsa (s : Nlsr) :
    SameLists s s.buildAndInstallOwnCoordinateLsa := by
  let s' : Nlsr := { s with sequencingManager := s.sequencingManager.increaseCorLsaSeq }
  exact SameLists.trans (t := s') ⟨rfl, rfl⟩
    (onlyLsdb_installCoordinateLsa s' s.ownCoordinateLsa).sameLists

theorem sameLists_buildAdjLsa (s : Nlsr) : SameLists s s.buildAdjLsa := by
  let s₁ : Nlsr := { s with isBuildAdjLsaSheduled := false }
  let s' : Nlsr := ({ s₁ with
    sequencingManager := s₁.sequencingManager.increaseAdjLsaSeq } : Nlsr).publishRoutingUpdate
  have hinstall : SameLists s s₁.buildAndInstallOwnAdjLsa :=
    SameLists.trans (t := s') ⟨rfl, rfl⟩ (onlyLsdb_installAdjLsa s' s₁.ownAdjLsa).sameLists
  have hremove : SameLists s
      (s₁.removeAdjLsa (AdjLsa.key s.routerPrefix)).scheduleRoutingTableCalculation :=
    SameLists.trans (t := s₁) ⟨rfl, rfl⟩ ((onlyLsdb_removeAdjLsa s₁ _).sameLists.trans
      (onlyLsdb_scheduleRoutingTableCalculation _).sameLists)
  unfold buildAdjLsa
  dsimp only
  split_ifs
  · exact ⟨hinstall.adjacencyList, hinstall.namePrefixList⟩
  · exact ⟨hremove.adjacencyList, hremove.namePrefixList⟩
  · exact ⟨rfl, rfl⟩
  · exact ⟨rfl, rfl⟩

theorem sameLists_runAction (math : MathLib) (s : Nlsr) (action : Action) :
    SameLists s (s.runAction math action) := by
  cases action with
  | exprireOrRefreshNameLsa lsaKey seqNo =>
    show SameLists s (s.exprireOrRefreshNameLsa lsaKey seqNo)
    unfold exprireOrRefreshNameLsa
    cases s.lsdb.findNameLsa lsaKey with
    | none => exact .refl s
    | some chk =>
      dsimp only
      split_ifs
      · exact ⟨rfl, rfl⟩
      · exact (onlyLsdb_removeNameLsa s lsaKey).sameLists
      · exact .refl s
  | exprireOrRefreshAdjLsa lsaKey seqNo =>
    show SameLists s (s.exprireOrRefreshAdjLsa lsaKey seqNo)
    unfold exprireOrRefreshAdjLsa
    cases s.lsdb.findAdjLsa lsaKey with
    | none => exact .refl s
    | some chk =>
      have hcalc := fun s' => (onlyLsdb_scheduleRoutingTableCalculation s').sameLists
      dsimp only
      split_ifs
      · exact SameLists.trans (t := s.refreshAdjLsa chk) ⟨rfl, rfl⟩ (hcalc _)
      · exact (onlyLsdb_removeAdjLsa s lsaKey).sameLists.trans (hcalc _)
      · exact .refl s
  | exprireOrRefreshCoordinateLsa lsaKey seqNo =>
    show SameLists s (s.exprireOrRefreshCoordinateLsa lsaKey seqNo)
    unfold exprireOrRefreshCoordinateLsa
    cases s.lsdb.findCoordinateLsa lsaKey with
    | none => exact .refl s
    | some chk =>
      have hcalc := fun s' => (onlyLsdb_scheduleIfHyperbolic s').sameLists
      dsimp only
      split_ifs
      · exact SameLists.trans (t := s.refreshCoordinateLsa chk) ⟨rfl, rfl⟩ (hcalc _)
      · exact (onlyLsdb_removeCoordinateLsa s lsaKey).sameLists.trans (hcalc _)
      · exact .refl s
  | buildAdjLsa => exact sameLists_buildAdjLsa s
  | calculate => exact (onlyRouting_calculate math s).sameLists
  | removeFibEntry name => exact (onlyFib_fibRemove s name).sameLists

theorem sameLists_fire (math : MathLib) (s : Nlsr) (id : Nat) : SameLists s (s.fire math id) := by
  unfold fire
  cases s.pendingAction id with
  | none => exact .refl s
  | some action =>
    exact SameLists.trans (t := s.cancelEvent (some id)) ⟨rfl, rfl⟩
      (sameLists_runAction math (s.cancelEvent (some id)) action)

end Nlsr

end LinkState
