import LinkState.Neighbours
import LinkState.Restart

/-!
# The advertised adjacency

When no build of the Adjacency LSA is pending, this router's own Adjacency LSA lists exactly the
neighbours that are ACTIVE, and there is none if no neighbour is. A request for a build stays
counted until a build runs; so the invariant is about the count: where nothing is counted, what
is stored is what the statuses say.

A build is lost if its LSA is not newer than the stored one. That takes a counter past 32 bits,
since stored own numbers are counters. It is also lost if it does not see the requests, because an
`int` takes their count for a negative number.
-/

namespace LinkState

open SequencingManager

namespace Nlsr

/-! ## The own adjacents -/

/-- The adjacents of this router's stored Adjacency LSA. -/
def ownAdl (s : Nlsr) : Option AdjacencyList :=
  (s.lsdb.findAdjLsa (AdjLsa.key s.routerPrefix)).map AdjLsa.adl

/-- What requests of a build go by. -/
structure SameRequests (s t : Nlsr) : Prop where
  adjacencyList : t.adjacencyList = s.adjacencyList
  isBuildAdjLsaSheduled : t.isBuildAdjLsaSheduled = s.isBuildAdjLsaSheduled
  adjBuildCount : t.adjBuildCount = s.adjBuildCount

theorem SameRequests.refl (s : Nlsr) : SameRequests s s := ⟨rfl, rfl, rfl⟩

theorem SameRequests.trans {s t u : Nlsr} (h : SameRequests s t) (h' : SameRequests t u) :
    SameRequests s u :=
  ⟨h'.adjacencyList.trans h.adjacencyList,
    h'.isBuildAdjLsaSheduled.trans h.isBuildAdjLsaSheduled,
    h'.adjBuildCount.trans h.adjBuildCount⟩

theorem OnlyLsdb.sameRequests {s t : Nlsr} (h : OnlyLsdb s t) : SameRequests s t := by
  rw [OnlyLsdb] at h
  rw [h]
  exact ⟨rfl, rfl, rfl⟩

theorem OnlyLsdb.confParam {s t : Nlsr} (h : OnlyLsdb s t) : t.confParam = s.confParam := by
  rw [OnlyLsdb] at h
  rw [h]

theorem OnlyRouting.sameRequests {s t : Nlsr} (h : OnlyRouting s t) : SameRequests s t := by
  rw [OnlyRouting] at h
  rw [h]
  exact ⟨rfl, rfl, rfl⟩

theorem OnlyFib.sameRequests {s t : Nlsr} (h : OnlyFib s t) : SameRequests s t := by
  rw [OnlyFib] at h
  rw [h]
  exact ⟨rfl, rfl, rfl⟩

theorem ownAdl_of_lsaOf {s t : Nlsr} (hrp : t.routerPrefix = s.routerPrefix)
    (h : t.lsaOf .adj s.routerPrefix = s.lsaOf .adj s.routerPrefix) : t.ownAdl = s.ownAdl := by
  have hinj : Function.Injective AnyLsa.adj := fun _ _ h => AnyLsa.adj.inj h
  have hfind : t.lsdb.findAdjLsa (AdjLsa.key s.routerPrefix) =
      s.lsdb.findAdjLsa (AdjLsa.key s.routerPrefix) := Option.map_injective hinj h
  rw [ownAdl, ownAdl, hrp, hfind]

/-- An operation that neither installs nor removes the own Adjacency LSA. -/
def LeavesOwnAdj (s : Nlsr) : Op → Prop
  | .install l => l.counter = .adj → l.origRouter ≠ s.routerPrefix
  | .removeAdjLsa key => key ≠ AdjLsa.key s.routerPrefix
  | _ => True

/-- Only a refresh changes the header then. -/
theorem lsaOf_own_apply (math : MathLib) {s : Nlsr} {op : Op} (h : s.LeavesOwnAdj op)
    (hrefresh : ∀ key, op ≠ .refreshAdjLsa key) :
    (s.apply math op).lsaOf .adj s.routerPrefix = s.lsaOf .adj s.routerPrefix := by
  cases op with
  | none => rfl
  | install l =>
    obtain ⟨eid, hinst⟩ := lsaOf_install s l
    rw [apply, hinst .adj s.routerPrefix, if_neg fun hl => h hl.1.symm hl.2.symm]
  | removeNameLsa key => exact (lsaOf_removeNameLsa s key _ _).trans (if_neg (by simp))
  | removeAdjLsa key =>
    exact (lsaOf_removeAdjLsa s key _ _).trans (if_neg fun hkey => h hkey.2.symm)
  | removeCoordinateLsa key =>
    exact (lsaOf_removeCoordinateLsa s key _ _).trans (if_neg (by simp))
  | refreshNameLsa key =>
    simp only [apply]
    cases s.lsdb.findNameLsa key with
    | none => rfl
    | some chk => rfl
  | refreshAdjLsa key => exact absurd rfl (hrefresh key)
  | refreshCoordinateLsa key =>
    simp only [apply]
    cases s.lsdb.findCoordinateLsa key with
    | none => rfl
    | some chk => rfl
  | calculate => rw [apply, lsaOf_calculate]
  | fibRemove name => rw [apply, lsaOf_fibRemove]

theorem ownAdl_apply (math : MathLib) {s : Nlsr} {op : Op} (h : s.LeavesOwnAdj op) :
    (s.apply math op).ownAdl = s.ownAdl := by
  by_cases hrefresh : ∃ key, op = .refreshAdjLsa key
  · obtain ⟨key, rfl⟩ := hrefresh
    simp only [apply]
    cases hfind : s.lsdb.findAdjLsa key with
    | none => rfl
    | some chk =>
      -- A refresh changes the header only
      have hchk : s.lsdb.adjLsdb.find? chk.getKey = some chk := by
        rw [KeyedList.key_of_find? hfind]
        exact hfind
      let l' : AdjLsa :=
        { chk with toLsa := chk.toLsa.refreshed s.getLsaExpirationTimePoint s.scheduler.nextId }
      have hagree : s.lsdb.adjLsdb.Agree AdjLsa.adl (s.lsdb.adjLsdb.replace l') :=
        KeyedList.agree_replace (a := chk) hchk rfl
      exact hagree (AdjLsa.key s.routerPrefix)
  · exact ownAdl_of_lsaOf (congrArg ConfParameter.routerPrefix (confParam_apply math s op))
      (lsaOf_own_apply math h fun key hop => hrefresh ⟨key, hop⟩)

theorem Quiet.ownAdl {s t : Nlsr} (h : Quiet s t) : t.ownAdl = s.ownAdl :=
  ownAdl_of_lsaOf h.routerPrefix (by rw [h.lsaOf])

theorem OnlyHello.ownAdl {s t : Nlsr} (h : OnlyHello s t) : t.ownAdl = s.ownAdl := h.quiet.ownAdl

/-! ## Events that ask for nothing -/

/-- No LSA arrives in the name of this router, and its Adjacency LSA is removed by nothing but a
build. -/
def KeepsOwnAdj (s : Nlsr) (e : Event) : Prop :=
  s.ArrivesForeign e ∧ e ≠ .removeAdjLsa (AdjLsa.key s.routerPrefix)

theorem sameRequests_exprireOrRefreshNameLsa (s : Nlsr) (lsaKey : Name) (seqNo : UInt64) :
    SameRequests s (s.exprireOrRefreshNameLsa lsaKey seqNo) := by
  unfold exprireOrRefreshNameLsa
  cases s.lsdb.findNameLsa lsaKey with
  | none => exact SameRequests.refl s
  | some chk =>
    dsimp only
    split_ifs
    · exact ⟨rfl, rfl, rfl⟩
    · exact (onlyLsdb_removeNameLsa s lsaKey).sameRequests
    · exact SameRequests.refl s

theorem sameRequests_exprireOrRefreshAdjLsa (s : Nlsr) (lsaKey : Name) (seqNo : UInt64) :
    SameRequests s (s.exprireOrRefreshAdjLsa lsaKey seqNo) := by
  unfold exprireOrRefreshAdjLsa
  cases s.lsdb.findAdjLsa lsaKey with
  | none => exact SameRequests.refl s
  | some chk =>
    dsimp only
    split_ifs
    · have hrefresh : SameRequests s (s.refreshAdjLsa chk) := ⟨rfl, rfl, rfl⟩
      exact hrefresh.trans (onlyLsdb_scheduleRoutingTableCalculation _).sameRequests
    · exact (onlyLsdb_removeAdjLsa s lsaKey).sameRequests.trans
        (onlyLsdb_scheduleRoutingTableCalculation _).sameRequests
    · exact SameRequests.refl s

theorem sameRequests_exprireOrRefreshCoordinateLsa (s : Nlsr) (lsaKey : Name) (seqNo : UInt64) :
    SameRequests s (s.exprireOrRefreshCoordinateLsa lsaKey seqNo) := by
  unfold exprireOrRefreshCoordinateLsa
  cases s.lsdb.findCoordinateLsa lsaKey with
  | none => exact SameRequests.refl s
  | some chk =>
    dsimp only
    split_ifs
    · have hrefresh : SameRequests s (s.refreshCoordinateLsa chk) := ⟨rfl, rfl, rfl⟩
      exact hrefresh.trans (onlyLsdb_scheduleIfHyperbolic _).sameRequests
    · exact (onlyLsdb_removeCoordinateLsa s lsaKey).sameRequests.trans
        (onlyLsdb_scheduleIfHyperbolic _).sameRequests
    · exact SameRequests.refl s

theorem sameRequests_runAction (math : MathLib) (s : Nlsr) {action : Action}
    (h : action ≠ .buildAdjLsa) : SameRequests s (s.runAction math action) := by
  cases action with
  | exprireOrRefreshNameLsa lsaKey seqNo => exact sameRequests_exprireOrRefreshNameLsa ..
  | exprireOrRefreshAdjLsa lsaKey seqNo => exact sameRequests_exprireOrRefreshAdjLsa ..
  | exprireOrRefreshCoordinateLsa lsaKey seqNo =>
    exact sameRequests_exprireOrRefreshCoordinateLsa ..
  | buildAdjLsa => exact absurd rfl h
  | calculate => exact (onlyRouting_calculate math s).sameRequests
  | removeFibEntry name => exact (onlyFib_fibRemove s name).sameRequests

theorem sameRequests_buildAndInstallOwnNameLsa (s : Nlsr) :
    SameRequests s s.buildAndInstallOwnNameLsa := by
  let s' : Nlsr := { s with sequencingManager := s.sequencingManager.increaseNameLsaSeq }
  have hcount : SameRequests s s' := ⟨rfl, rfl, rfl⟩
  exact hcount.trans (onlyLsdb_installNameLsa s' s.ownNameLsa).sameRequests

theorem sameRequests_buildAndInstallOwnCoordinateLsa (s : Nlsr) :
    SameRequests s s.buildAndInstallOwnCoordinateLsa := by
  let s' : Nlsr := { s with sequencingManager := s.sequencingManager.increaseCorLsaSeq }
  have hcount : SameRequests s s' := ⟨rfl, rfl, rfl⟩
  exact hcount.trans (onlyLsdb_installCoordinateLsa s' s.ownCoordinateLsa).sameRequests

theorem sameRequests_publishRoutingUpdate (s : Nlsr) : SameRequests s s.publishRoutingUpdate :=
  ⟨rfl, rfl, rfl⟩

/-- The names advertised are changed, and the Name LSA is built and announced. -/
theorem sameRequests_rebuildNames (s : Nlsr) (names : NamePrefixList) :
    let s₀ : Nlsr := { s with namePrefixList := names }
    SameRequests s s₀.buildAndInstallOwnNameLsa.publishRoutingUpdate := by
  intro s₀
  have hnames : SameRequests s s₀ := ⟨rfl, rfl, rfl⟩
  exact (hnames.trans (sameRequests_buildAndInstallOwnNameLsa s₀)).trans
    (sameRequests_publishRoutingUpdate _)

theorem leavesOwnAdj_actionOp {s : Nlsr} (hs : s.lsdb.thisRouterPrefix = s.routerPrefix)
    {action : Action} (h : action ≠ .buildAdjLsa) : s.LeavesOwnAdj (s.actionOp action) := by
  have hspec := s.actionOp_spec action
  generalize s.actionOp action = op at hspec ⊢
  cases hspec with
  | @removeAdjLsa lsaKey _ chk hfind hseq horig =>
    -- The LSA that expires is of another router
    intro hkey
    have hchk : chk.getKey = lsaKey := KeyedList.key_of_find? hfind
    exact horig ((AdjLsa.key_inj.1 (hchk.trans hkey)).trans hs.symm)
  | installOwn => exact absurd rfl h
  | removeOwn => exact absurd rfl h
  | _ => trivial

theorem ownAdl_step (math : MathLib) {s : Nlsr} {e : Event} (h : s.LeavesOwnAdj (s.opOf e)) :
    (s.step math e).ownAdl = s.ownAdl := by
  obtain ⟨s₁, h₁, h₂⟩ := step_spec math s e
  have h' : s₁.LeavesOwnAdj (s.opOf e) := by
    unfold LeavesOwnAdj at h ⊢
    rwa [h₁.routerPrefix]
  rw [h₂.ownAdl, ownAdl_apply math h', h₁.ownAdl]

/-- Only a build touches the own Adjacency LSA, if it is kept from outside. -/
theorem leavesOwnAdj_opOf {s : Nlsr} (hs : s.lsdb.thisRouterPrefix = s.routerPrefix) {e : Event}
    (he : s.KeepsOwnAdj e)
    (hbuild : ∀ id, e = .fire id → s.pendingAction id ≠ some .buildAdjLsa) :
    s.LeavesOwnAdj (s.opOf e) := by
  cases e with
  | installNameLsa nlsa => rintro ⟨⟩
  | installAdjLsa alsa => exact fun _ => he.1
  | installCoordinateLsa clsa => rintro ⟨⟩
  | removeAdjLsa key => exact fun hkey => he.2 (congrArg _ hkey)
  | fire id =>
    simp only [opOf, fireOp]
    cases hid : s.pendingAction id with
    | none => trivial
    | some action =>
      exact leavesOwnAdj_actionOp hs fun haction => hbuild id rfl (haction ▸ hid)
  | buildAndInstallOwnNameLsa => rintro ⟨⟩
  | buildAndInstallOwnCoordinateLsa => rintro ⟨⟩
  | advertise name =>
    simp only [opOf, advertiseOp]
    split_ifs
    · trivial
    · rintro ⟨⟩
  | withdraw name =>
    simp only [opOf, withdrawOp]
    split_ifs
    · rintro ⟨⟩
    · trivial
  | _ => trivial

/-- An event that is no turn of the Hello protocol and no build asks for nothing. -/
theorem sameRequests_step (math : MathLib) {s : Nlsr} {e : Event}
    (hbuild : ∀ id, e = .fire id → s.pendingAction id ≠ some .buildAdjLsa) :
    SameRequests s (s.step math e) ∨ HelloTurn s (s.step math e) := by
  cases e with
  | installNameLsa nlsa => exact Or.inl (onlyLsdb_installNameLsa s _).sameRequests
  | installAdjLsa alsa => exact Or.inl (onlyLsdb_installAdjLsa s _).sameRequests
  | installCoordinateLsa clsa => exact Or.inl (onlyLsdb_installCoordinateLsa s _).sameRequests
  | removeNameLsa key => exact Or.inl (onlyLsdb_removeNameLsa s key).sameRequests
  | removeAdjLsa key => exact Or.inl (onlyLsdb_removeAdjLsa s key).sameRequests
  | removeCoordinateLsa key => exact Or.inl (onlyLsdb_removeCoordinateLsa s key).sameRequests
  | fire id =>
    refine Or.inl ?_
    show SameRequests s (s.fire math id)
    cases hid : s.pendingAction id with
    | none =>
      simp only [fire, hid]
      exact SameRequests.refl s
    | some action =>
      have hcancel : SameRequests s (s.cancelEvent (some id)) := ⟨rfl, rfl, rfl⟩
      simp only [fire, hid]
      exact hcancel.trans (sameRequests_runAction math _ fun haction =>
        hbuild id rfl (haction ▸ hid))
  | buildAndInstallOwnNameLsa => exact Or.inl (sameRequests_buildAndInstallOwnNameLsa s)
  | buildAndInstallOwnCoordinateLsa =>
    exact Or.inl (sameRequests_buildAndInstallOwnCoordinateLsa s)
  | publishRoutingUpdate => exact Or.inl (sameRequests_publishRoutingUpdate s)
  | scheduleAdjLsaBuild => exact Or.inr (helloTurn_scheduleAdjLsaBuild s)
  | helloTimedOut interestName => exact Or.inr (helloTurn_processInterestTimedOut s interestName)
  | helloValidated dataName => exact Or.inr (helloTurn_onHelloValidated s dataName)
  | registrationSuccess neighbor faceId =>
    exact Or.inr (helloTurn_onRegistrationSuccess s neighbor faceId)
  | registrationFailure neighbor => exact Or.inr (helloTurn_onRegistrationFailure s neighbor)
  | faceDestroyed faceId => exact Or.inr (helloTurn_onFaceDestroyed s faceId)
  | advertise name =>
    refine Or.inl ?_
    show SameRequests s (s.advertise name)
    unfold advertise
    split_ifs
    · exact SameRequests.refl s
    · exact sameRequests_rebuildNames s _
  | withdraw name =>
    refine Or.inl ?_
    show SameRequests s (s.withdraw name)
    unfold withdraw
    split_ifs
    · exact sameRequests_rebuildNames s _
    · exact SameRequests.refl s
  | clock now => exact Or.inl ⟨rfl, rfl, rfl⟩

/-- **What an event is to the own Adjacency LSA**: nothing, a turn of the Hello protocol, or a
build. -/
theorem advertising_cases (math : MathLib) {s : Nlsr}
    (hs : s.lsdb.thisRouterPrefix = s.routerPrefix) {e : Event} (he : s.KeepsOwnAdj e) :
    (SameRequests s (s.step math e) ∧ (s.step math e).ownAdl = s.ownAdl) ∨
      HelloTurn s (s.step math e) ∨ ∃ id, e = .fire id ∧ s.pendingAction id = some .buildAdjLsa := by
  by_cases hbuild : ∃ id, e = .fire id ∧ s.pendingAction id = some .buildAdjLsa
  · exact Or.inr (Or.inr hbuild)
  · have hnot : ∀ id, e = .fire id → s.pendingAction id ≠ some .buildAdjLsa :=
      fun id he hid => hbuild ⟨id, he, hid⟩
    have hown := ownAdl_step math (leavesOwnAdj_opOf hs he hnot)
    rcases sameRequests_step math hnot with hsame | hturn
    · exact Or.inl ⟨hsame, hown⟩
    · exact Or.inr (Or.inl hturn)

/-! ## Builds -/

/-- A build leaves its own adjacents, or what its install makes of the stored LSA. -/
theorem ownAdl_build (s : Nlsr) : s.buildAndInstallOwnAdjLsa.ownAdl =
    some (match s.lsdb.findAdjLsa (AdjLsa.key s.routerPrefix) with
      | none => s.ownAdjLsa.adl
      | some chk =>
        if chk.lsSeqNo.toNat < s.ownAdjLsa.lsSeqNo.toNat then updatedAdl chk.adl s.ownAdjLsa.adl
        else chk.adl) := by
  let s' : Nlsr := ({ s with
    sequencingManager := s.sequencingManager.increaseAdjLsaSeq } : Nlsr).publishRoutingUpdate
  have hrp : s.buildAndInstallOwnAdjLsa.routerPrefix = s.routerPrefix :=
    (onlyLsdb_installAdjLsa s' s.ownAdjLsa).routerPrefix
  have hkey : AdjLsa.key s.routerPrefix = s.ownAdjLsa.getKey := by
    rw [ownAdjLsa, AdjLsa.make_eq]
    rfl
  obtain ⟨-, eid, hinst⟩ := lsdb_installAdjLsa s' s.ownAdjLsa
  have hfind := hinst (AdjLsa.key s.routerPrefix)
  rw [if_pos hkey] at hfind
  have hdb : s'.lsdb.adjLsdb.find? (AdjLsa.key s.routerPrefix) =
      s.lsdb.findAdjLsa (AdjLsa.key s.routerPrefix) := rfl
  rw [ownAdl, hrp, show s.buildAndInstallOwnAdjLsa.lsdb.findAdjLsa _ = _ from hfind, hdb]
  cases s.lsdb.findAdjLsa (AdjLsa.key s.routerPrefix) with
  | none => rfl
  | some chk =>
    dsimp only
    split_ifs <;> rfl

/-- A build leaves the adjacents it was made of, as far as they are written down. -/
theorem ownAdl_buildAndInstallOwnAdjLsa {s : Nlsr} (hs : s.Numbered) (hroom : s.HasRoom .adj) :
    s.buildAndInstallOwnAdjLsa.ownAdl =
      some (s.ownAdl.elim s.ownAdjLsa.adl fun adl => updatedAdl adl s.ownAdjLsa.adl) := by
  rw [ownAdl_build, ownAdl]
  cases hchk : s.lsdb.findAdjLsa (AdjLsa.key s.routerPrefix) with
  | none => rfl
  | some chk =>
    -- The stored number is the counter, so the next one is newer
    have hstored : chk.lsSeqNo.toNat = (s.sequencingManager.counter .adj).toNat :=
      hs.own .adj _ (by simp [ownSeqNo, show s.lsdb.adjLsdb.find? _ = some chk from hchk])
    have hnext : s.ownAdjLsa.lsSeqNo.toNat = (s.sequencingManager.counter .adj).toNat + 1 := by
      rw [ownAdjLsa, AdjLsa.make_eq]
      exact hroom.toNat_toUInt32
    have hlt : chk.lsSeqNo.toNat < s.ownAdjLsa.lsSeqNo.toNat := by omega
    simp [hlt]

theorem buildAdjLsa_of_active {s : Nlsr}
    (hbuildable : s.adjacencyList.isAdjLsaBuildable s.confParam.interestRetryNumber = true)
    (hcount : narrowToInt s.adjBuildCount > 0)
    (hactive : s.adjacencyList.getNumOfActiveNeighbor > 0) :
    s.buildAdjLsa =
      let t := ({ s with isBuildAdjLsaSheduled := false } : Nlsr).buildAndInstallOwnAdjLsa
      { t with adjBuildCount := t.adjBuildCount - narrowToInt s.adjBuildCount } := by
  unfold buildAdjLsa
  dsimp only
  rw [if_pos hbuildable, if_pos hcount, if_pos hactive]

theorem buildAdjLsa_of_no_active {s : Nlsr}
    (hbuildable : s.adjacencyList.isAdjLsaBuildable s.confParam.interestRetryNumber = true)
    (hcount : narrowToInt s.adjBuildCount > 0)
    (hactive : ¬ s.adjacencyList.getNumOfActiveNeighbor > 0) :
    s.buildAdjLsa =
      let t := (({ s with isBuildAdjLsaSheduled := false } : Nlsr).removeAdjLsa
        (AdjLsa.key s.routerPrefix)).scheduleRoutingTableCalculation
      { t with adjBuildCount := t.adjBuildCount - narrowToInt s.adjBuildCount } := by
  unfold buildAdjLsa
  dsimp only
  rw [if_pos hbuildable, if_pos hcount, if_neg hactive]
  rfl

theorem buildAdjLsa_of_not_counted {s : Nlsr}
    (hbuildable : s.adjacencyList.isAdjLsaBuildable s.confParam.interestRetryNumber = true)
    (hcount : ¬ narrowToInt s.adjBuildCount > 0) :
    s.buildAdjLsa = { s with isBuildAdjLsaSheduled := false } := by
  unfold buildAdjLsa
  dsimp only
  rw [if_pos hbuildable, if_neg hcount]

/-- A build that cannot run yet is put off. -/
theorem buildAdjLsa_of_not_buildable {s : Nlsr}
    (hbuildable : ¬ s.adjacencyList.isAdjLsaBuildable s.confParam.interestRetryNumber = true) :
    s.buildAdjLsa = (({ s with isBuildAdjLsaSheduled := true } : Nlsr).scheduleEvent
      (seconds (s.confParam.interestRetryNumber * s.confParam.interestResendTime).toNat)
      .buildAdjLsa).1 := by
  unfold buildAdjLsa
  dsimp only
  rw [if_neg hbuildable]

theorem getNumOfActiveNeighbor_pos {l : AdjacencyList} :
    l.getNumOfActiveNeighbor > 0 ↔ ∃ a ∈ l, a.status = .active := by
  unfold AdjacencyList.getNumOfActiveNeighbor
  rw [gt_iff_lt, List.length_pos_iff_exists_mem]
  exact exists_congr fun a => by simp [KeyedList.mem_def]

/-- **The own Adjacency LSA says what the statuses say.** -/
structure Advertises (s : Nlsr) : Prop where
  active : (∃ a ∈ s.adjacencyList, a.status = .active) →
    ∃ adl, s.ownAdl = some adl ∧ ∀ p, (∃ a ∈ adl, a.triple = p) ↔
      ∃ a ∈ s.adjacencyList, a.status = .active ∧ a.triple = p
  none : (¬ ∃ a ∈ s.adjacencyList, a.status = .active) → s.ownAdl = none

theorem Advertises.congr {s t : Nlsr} (hown : t.ownAdl = s.ownAdl)
    (hlinks : s.adjacencyList.Agree Adjacent.triple t.adjacencyList)
    (hstatus : s.adjacencyList.Agree Adjacent.status t.adjacencyList) (h : s.Advertises) :
    t.Advertises := by
  have hactive : (∃ a ∈ t.adjacencyList, a.status = .active) ↔
      ∃ a ∈ s.adjacencyList, a.status = .active := hstatus.exists_iff fun st => st = .active
  refine ⟨fun h' => ?_, fun h' => ?_⟩
  · obtain ⟨adl, hadl, hp⟩ := h.active (hactive.1 h')
    refine ⟨adl, hown.trans hadl, fun p => (hp p).trans ?_⟩
    exact ((hstatus.prod hlinks).exists_iff fun q => q.1 = .active ∧ q.2 = p).symm
  · rw [hown]
    exact h.none fun ha => h' (hactive.2 ha)

/-- What the requests and builds keep. -/
structure AdvertisingInv (links : AdjacencyList) (s : Nlsr) : Prop where
  numbered : s.Numbered
  /-- Nothing changes the links of a neighbour. -/
  links : links.Agree Adjacent.triple s.adjacencyList
  count_nonneg : 0 ≤ s.adjBuildCount
  count_of_not_scheduled : s.isBuildAdjLsaSheduled = false → s.adjBuildCount = 0
  advertises : s.adjBuildCount = 0 → s.Advertises
  /-- What is advertised was a neighbour's link. -/
  own : ∀ adl, s.ownAdl = some adl → ∀ a ∈ adl, ∃ b ∈ s.adjacencyList, b.triple = a.triple

/-- The statuses, the count and the own adjacents are the same. -/
theorem AdvertisingInv.of_same {links : AdjacencyList} {s t : Nlsr} (h : s.AdvertisingInv links)
    (ht : t.Numbered) (hlist : t.adjacencyList = s.adjacencyList)
    (hcount : t.adjBuildCount = s.adjBuildCount)
    (hflag : t.isBuildAdjLsaSheduled = false → s.adjBuildCount = 0)
    (hown : t.ownAdl = s.ownAdl) : t.AdvertisingInv links where
  numbered := ht
  links := by rw [hlist]; exact h.links
  count_nonneg := by rw [hcount]; exact h.count_nonneg
  count_of_not_scheduled := by rw [hcount]; exact hflag
  advertises := by
    rw [hcount]
    intro hzero
    refine (h.advertises hzero).congr hown ?_ ?_
    · rw [hlist]; exact KeyedList.Agree.refl _ _
    · rw [hlist]; exact KeyedList.Agree.refl _ _
  own := by rw [hown, hlist]; exact h.own

theorem AdvertisingInv.of_sameRequests {links : AdjacencyList} {s t : Nlsr}
    (h : s.AdvertisingInv links) (ht : t.Numbered) (hsame : SameRequests s t)
    (hown : t.ownAdl = s.ownAdl) : t.AdvertisingInv links :=
  h.of_same ht hsame.adjacencyList hsame.adjBuildCount
    (hsame.isBuildAdjLsaSheduled ▸ h.count_of_not_scheduled) hown

theorem AdvertisingInv.of_helloTurn {links : AdjacencyList} {s t : Nlsr}
    (h : s.AdvertisingInv links) (ht : t.Numbered) (hturn : HelloTurn s t) :
    t.AdvertisingInv links := by
  have hown : t.ownAdl = s.ownAdl := hturn.onlyHello.ownAdl
  have hkeep : ∀ adl, t.ownAdl = some adl → ∀ a ∈ adl,
      ∃ b ∈ t.adjacencyList, b.triple = a.triple := by
    intro adl hadl a ha
    obtain ⟨b, hb, hba⟩ := h.own adl (hown ▸ hadl) a ha
    obtain ⟨b', hb', -, hbb⟩ := hturn.links.exists_mem hb
    exact ⟨b', hb', hbb.trans hba⟩
  have hlinks := h.links.trans hturn.links
  rcases hturn.requests with ⟨hstatus, hflag, hcount⟩ | ⟨hflag, hcount⟩
  · refine ⟨ht, hlinks, hcount ▸ h.count_nonneg, ?_, fun hzero => ?_, hkeep⟩
    · rw [hflag, hcount]
      exact h.count_of_not_scheduled
    · exact (h.advertises (hcount ▸ hzero)).congr hown hturn.links hstatus
  · -- A request is counted
    have hpos := h.count_nonneg
    refine ⟨ht, hlinks, by omega, fun hfalse => ?_, fun hzero => by omega, hkeep⟩
    rw [hflag] at hfalse
    exact absurd hfalse (by decide)

/-- After a build that ran nothing is counted. -/
theorem AdvertisingInv.of_built {links : AdjacencyList} {s t : Nlsr} (h : s.AdvertisingInv links)
    (ht : t.Numbered) (hlist : t.adjacencyList = s.adjacencyList) (hcount : t.adjBuildCount = 0)
    (hadv : t.Advertises) : t.AdvertisingInv links where
  numbered := ht
  links := by rw [hlist]; exact h.links
  count_nonneg := hcount.ge
  count_of_not_scheduled := fun _ => hcount
  advertises := fun _ => hadv
  own := by
    intro adl hadl a ha
    by_cases hactive : ∃ b ∈ t.adjacencyList, b.status = .active
    · obtain ⟨adl', hadl', hp⟩ := hadv.active hactive
      obtain rfl : adl' = adl := Option.some.inj (hadl'.symm.trans hadl)
      obtain ⟨b, hb, -, hba⟩ := (hp a.triple).1 ⟨a, ha, rfl⟩
      exact ⟨b, hb, hba⟩
    · rw [hadv.none hactive] at hadl
      exact absurd hadl (Option.some_ne_none _).symm

/-- A build with an ACTIVE neighbour writes down the ACTIVE neighbours. -/
theorem advertises_buildAndInstallOwnAdjLsa {s t : Nlsr} (hs : s.Numbered)
    (hroom : s.HasRoom .adj)
    (hown : ∀ adl, s.ownAdl = some adl → ∀ a ∈ adl, ∃ b ∈ s.adjacencyList, b.triple = a.triple)
    (hactive : ∃ a ∈ s.adjacencyList, a.status = .active)
    (hlist : t.adjacencyList = s.adjacencyList)
    (ht : t.ownAdl = s.buildAndInstallOwnAdjLsa.ownAdl) : t.Advertises := by
  let new := s.adjacencyList.filter fun a => a.status = .active
  have hnew : s.ownAdjLsa.adl = new := by rw [ownAdjLsa, AdjLsa.make_eq]
  rw [ownAdl_buildAndInstallOwnAdjLsa hs hroom, hnew] at ht
  have hmem : ∀ p, (∃ a ∈ new, a.triple = p) ↔
      ∃ a ∈ s.adjacencyList, a.status = .active ∧ a.triple = p := by
    intro p
    refine exists_congr fun a => ?_
    rw [KeyedList.mem_filter, decide_eq_true_eq, and_assoc]
  refine ⟨fun _ => ⟨_, ht, fun p => ?_⟩, fun h => absurd (hlist ▸ hactive) h⟩
  rw [hlist, ← hmem p]
  cases hold : s.ownAdl with
  | none => exact Iff.rfl
  | some old =>
    -- Both lists have the costs that are configured
    refine triples_updatedAdl (fun a ha b hb hname _ => ?_) p
    obtain ⟨c, hc, hca⟩ := hown old hold a ha
    have hb' : b ∈ s.adjacencyList := (KeyedList.mem_filter.1 hb).1
    have hcname : c.name = a.name := congrArg Prod.fst hca
    obtain rfl := KeyedList.eq_of_key_eq hc hb' (hcname.trans hname)
    exact (congrArg (fun p => p.2.2) hca).symm

/-- **A build that runs** numbers the LSA and leaves nothing requested. -/
structure Built (s t : Nlsr) : Prop where
  adjacencyList : t.adjacencyList = s.adjacencyList
  confParam : t.confParam = s.confParam
  isBuildAdjLsaSheduled : t.isBuildAdjLsaSheduled = false
  adjBuildCount : t.adjBuildCount = 0
  sequencingManager : t.sequencingManager = s.sequencingManager.increaseAdjLsaSeq
  ownAdl : t.ownAdl =
    ({ s with isBuildAdjLsaSheduled := false } : Nlsr).buildAndInstallOwnAdjLsa.ownAdl

theorem built_buildAdjLsa {s : Nlsr}
    (hbuildable : s.adjacencyList.isAdjLsaBuildable s.confParam.interestRetryNumber = true)
    (hcount : narrowToInt s.adjBuildCount > 0)
    (hseen : narrowToInt s.adjBuildCount = s.adjBuildCount)
    (hactive : s.adjacencyList.getNumOfActiveNeighbor > 0) : Built s s.buildAdjLsa := by
  let u : Nlsr := { s with isBuildAdjLsaSheduled := false }
  let u' : Nlsr := ({ u with
    sequencingManager := u.sequencingManager.increaseAdjLsaSeq } : Nlsr).publishRoutingUpdate
  have hframe := onlyLsdb_installAdjLsa u' u.ownAdjLsa
  have hsame : SameRequests u u.buildAndInstallOwnAdjLsa :=
    ⟨hframe.sameRequests.adjacencyList, hframe.sameRequests.isBuildAdjLsaSheduled,
      hframe.sameRequests.adjBuildCount⟩
  have hconf : u.buildAndInstallOwnAdjLsa.confParam = s.confParam := hframe.confParam
  have hsm : u.buildAndInstallOwnAdjLsa.sequencingManager =
      s.sequencingManager.increaseAdjLsaSeq := hframe.sequencingManager
  rw [buildAdjLsa_of_active hbuildable hcount hactive]
  refine ⟨?_, ?_, ?_, ?_, ?_, ?_⟩
  · exact hsame.adjacencyList
  · exact hconf
  · exact hsame.isBuildAdjLsaSheduled
  · exact sub_eq_zero.2 (hsame.adjBuildCount.trans hseen.symm)
  · exact hsm
  · rfl

/-- **A build keeps the invariant**: it runs and nothing is counted any more, or it is put off. -/
theorem AdvertisingInv.buildAdjLsa {links : AdjacencyList} {s : Nlsr} (h : s.AdvertisingInv links)
    (ht : s.buildAdjLsa.Numbered)
    (hseen : s.adjacencyList.isAdjLsaBuildable s.confParam.interestRetryNumber = true →
      s.adjBuildCount < 2 ^ 31)
    (hroom : s.HasRoom .adj ∨
      s.buildAdjLsa.sequencingManager.counter .adj = s.sequencingManager.counter .adj) :
    s.buildAdjLsa.AdvertisingInv links := by
  let u : Nlsr := { s with isBuildAdjLsaSheduled := false }
  by_cases hbuildable : s.adjacencyList.isAdjLsaBuildable s.confParam.interestRetryNumber = true
  · have hint := narrowToInt_of_lt h.count_nonneg (hseen hbuildable)
    by_cases hcount : narrowToInt s.adjBuildCount > 0
    · by_cases hactive : s.adjacencyList.getNumOfActiveNeighbor > 0
      · have hbuilt := built_buildAdjLsa hbuildable hcount hint hactive
        have hroom' : s.HasRoom .adj := hroom.resolve_right fun hcounter => by
          rw [hbuilt.sequencingManager] at hcounter
          exact counter_add_one_ne (s.sequencingManager.counter .adj) hcounter
        refine h.of_built ht hbuilt.adjacencyList hbuilt.adjBuildCount ?_
        exact advertises_buildAndInstallOwnAdjLsa (s := u)
          ⟨h.numbered.thisRouterPrefix, h.numbered.own⟩ hroom' h.own
          (getNumOfActiveNeighbor_pos.1 hactive) hbuilt.adjacencyList hbuilt.ownAdl
      · have heq := buildAdjLsa_of_no_active hbuildable hcount hactive
        have hsame : SameRequests u
            (u.removeAdjLsa (AdjLsa.key s.routerPrefix)).scheduleRoutingTableCalculation :=
          (onlyLsdb_removeAdjLsa u _).sameRequests.trans
            (onlyLsdb_scheduleRoutingTableCalculation _).sameRequests
        have hlist : s.buildAdjLsa.adjacencyList = s.adjacencyList := by
          rw [heq]
          exact hsame.adjacencyList
        have hzero : s.buildAdjLsa.adjBuildCount = 0 := by
          rw [heq]
          exact sub_eq_zero.2 (hsame.adjBuildCount.trans hint.symm)
        have hgone : s.buildAdjLsa.ownAdl = none := by
          rw [heq]
          show ownAdl (u.removeAdjLsa _).scheduleRoutingTableCalculation = _
          have hlsa := (lsaOf_removeAdjLsa u (AdjLsa.key s.routerPrefix)) .adj s.routerPrefix
          rw [if_pos ⟨rfl, rfl⟩] at hlsa
          have hrp : (u.removeAdjLsa (AdjLsa.key s.routerPrefix)).routerPrefix = s.routerPrefix :=
            (onlyLsdb_removeAdjLsa u _).routerPrefix
          rw [(quiet_scheduleRoutingTableCalculation _).ownAdl, ownAdl, hrp,
            Option.map_eq_none_iff.1 hlsa]
          rfl
        refine h.of_built ht hlist hzero ⟨fun ha => ?_, fun _ => hgone⟩
        rw [hlist] at ha
        exact absurd (getNumOfActiveNeighbor_pos.2 ha) hactive
    · -- Nothing was counted
      have heq : s.buildAdjLsa = u := buildAdjLsa_of_not_counted hbuildable hcount
      rw [hint] at hcount
      have hzero : s.adjBuildCount = 0 := le_antisymm (not_lt.1 hcount) h.count_nonneg
      rw [heq] at ht ⊢
      exact h.of_same ht rfl rfl (fun _ => hzero) rfl
  · -- The build is put off
    rw [buildAdjLsa_of_not_buildable hbuildable] at ht ⊢
    exact h.of_same ht rfl rfl nofun rfl

/-! ## Every run -/

theorem fire_buildAdjLsa (math : MathLib) {s : Nlsr} {id : Nat}
    (h : s.pendingAction id = some .buildAdjLsa) :
    s.step math (.fire id) = (s.cancelEvent (some id)).buildAdjLsa := by
  show s.fire math id = _
  rw [fire, h]
  rfl

/-- A build that runs when the event fires sees the requests: an `int` keeps their number. -/
def SeesRequests (s : Nlsr) (e : Event) : Prop :=
  ∀ id, e = .fire id → s.pendingAction id = some .buildAdjLsa →
    s.adjacencyList.isAdjLsaBuildable s.confParam.interestRetryNumber = true →
      s.adjBuildCount < 2 ^ 31

theorem seesRequests_of_lt {s : Nlsr} (h : s.adjBuildCount < 2 ^ 31) (e : Event) :
    s.SeesRequests e := fun _ _ _ _ => h

theorem advertisingInv_step (math : MathLib) {links : AdjacencyList} {s : Nlsr}
    (h : s.AdvertisingInv links) {e : Event} (he : s.KeepsOwnAdj e)
    (hroom : KeepsRoom s (s.step math e)) (hseen : s.SeesRequests e) :
    (s.step math e).AdvertisingInv links := by
  have ht : (s.step math e).Numbered :=
    (turn_step math h.numbered e he.1).numbered h.numbered hroom
  rcases advertising_cases math h.numbered.thisRouterPrefix he with
    ⟨hsame, hown⟩ | hturn | ⟨id, rfl, hid⟩
  · exact h.of_sameRequests ht hsame hown
  · exact h.of_helloTurn ht hturn
  · have heq := fire_buildAdjLsa math hid
    have hcancel : (s.cancelEvent (some id)).AdvertisingInv links :=
      h.of_sameRequests ⟨h.numbered.thisRouterPrefix, h.numbered.own⟩ ⟨rfl, rfl, rfl⟩ rfl
    rw [heq] at ht hroom ⊢
    exact hcancel.buildAdjLsa ht (hseen id rfl hid) (hroom .adj)

/-- The neighbours as `initialize` leaves them: where hyperbolic routing is on they cost 0. -/
def configuredNeighbors (confParam : ConfParameter) (adjacencyList : AdjacencyList) :
    AdjacencyList :=
  if confParam.hyperbolicState = .on then
    adjacencyList.mapValues (fun a => { a with linkCost := 0 }) name_free
  else adjacencyList

theorem sameRequests_initializeNlsr (confParam : ConfParameter) (adjacencyList : AdjacencyList)
    (namePrefixList : NamePrefixList) (seqFile : Option UInt64) (now : TimePoint) :
    let s := start confParam adjacencyList namePrefixList seqFile now
    SameRequests (s.setAdjacencyList (configuredNeighbors confParam adjacencyList))
      s.initializeNlsr ∧ s.initializeNlsr.ownAdl = none := by
  intro s
  let s₀ : Nlsr := { s.configure with
    sequencingManager := SequencingManager.initiateSeqNoFromFile seqFile }
  let s₁ := s₀.buildAndInstallOwnNameLsa
  let s₂ := s₁.buildAndInstallOwnCoordinateLsa
  have hsame : SameRequests s s₂ :=
    SameRequests.trans (t := s₁)
      (SameRequests.trans (t := s₀) ⟨rfl, rfl, rfl⟩ (sameRequests_buildAndInstallOwnNameLsa s₀))
      (sameRequests_buildAndInstallOwnCoordinateLsa s₁)
  have hown : s₂.ownAdl = none := by
    have h₁ : s₁.ownAdl = s₀.ownAdl :=
      ownAdl_step ⟨0, id, id, id, id⟩ (e := .buildAndInstallOwnNameLsa) nofun
    have h₂ : s₂.ownAdl = s₁.ownAdl :=
      ownAdl_step ⟨0, id, id, id, id⟩ (e := .buildAndInstallOwnCoordinateLsa) nofun
    rw [h₂, h₁]
    rfl
  have hconf : s₂.confParam = confParam := by
    rw [show s₂ = s₁.step ⟨0, id, id, id, id⟩ .buildAndInstallOwnCoordinateLsa from rfl,
      confParam_step,
      show s₁ = s₀.step ⟨0, id, id, id, id⟩ .buildAndInstallOwnNameLsa from rfl, confParam_step]
    rfl
  have hinit : s.initializeNlsr = if s₂.confParam.hyperbolicState = .on then s₂.setAdjacencyList
      (s₂.adjacencyList.mapValues (fun a => { a with linkCost := 0 }) fun _ => rfl) else s₂ := rfl
  rw [hinit, hconf]
  unfold configuredNeighbors
  split_ifs
  · refine ⟨⟨?_, hsame.isBuildAdjLsaSheduled, hsame.adjBuildCount⟩, hown⟩
    exact congrArg (fun l : AdjacencyList => l.mapValues (fun a => { a with linkCost := 0 })
      fun _ => rfl) hsame.adjacencyList
  · exact ⟨hsame, hown⟩

theorem advertisingInv_initializeNlsr (confParam : ConfParameter) {adjacencyList : AdjacencyList}
    (namePrefixList : NamePrefixList) (seqFile : Option UInt64) (now : TimePoint)
    (hinactive : ∀ a ∈ adjacencyList, a.status ≠ .active) :
    (start confParam adjacencyList namePrefixList seqFile now).initializeNlsr.AdvertisingInv
      (configuredNeighbors confParam adjacencyList) := by
  obtain ⟨hsame, hown⟩ :=
    sameRequests_initializeNlsr confParam adjacencyList namePrefixList seqFile now
  have hlist := hsame.adjacencyList
  have hzero := hsame.adjBuildCount
  have hnone : ¬ ∃ a ∈ configuredNeighbors confParam adjacencyList, a.status = .active := by
    unfold configuredNeighbors
    split_ifs
    · rintro ⟨b, hb, hactive⟩
      obtain ⟨a, ha, rfl⟩ := KeyedList.mem_mapValues.1 hb
      exact hinactive a ha hactive
    · rintro ⟨a, ha, hactive⟩
      exact hinactive a ha hactive
  refine ⟨numbered_initializeNlsr .., ?_, hzero.ge, fun _ => hzero, fun _ => ⟨fun ha => ?_,
    fun _ => hown⟩, fun adl hadl => ?_⟩
  · rw [hlist]
    exact KeyedList.Agree.refl _ _
  · rw [hlist] at ha
    exact absurd ha hnone
  · rw [hown] at hadl
    exact absurd hadl (Option.some_ne_none _).symm

/-- An event of the runs below: the own Adjacency LSA is not touched from outside, no counter
leaves the 32 bits, and a build sees the requests. -/
structure KeepsAdvertising (math : MathLib) (s : Nlsr) (e : Event) : Prop where
  ownAdj : s.KeepsOwnAdj e
  room : KeepsRoom s (s.step math e)
  requests : s.SeesRequests e

theorem advertisingInv_run (math : MathLib) (confParam : ConfParameter)
    {adjacencyList : AdjacencyList} (namePrefixList : NamePrefixList) (seqFile : Option UInt64)
    (now : TimePoint) (hinactive : ∀ a ∈ adjacencyList, a.status ≠ .active) {es : List Event}
    (h : Meets (step math) (KeepsAdvertising math)
      (start confParam adjacencyList namePrefixList seqFile now).initializeNlsr es) :
    Along (step math) (AdvertisingInv (configuredNeighbors confParam adjacencyList))
      (start confParam adjacencyList namePrefixList seqFile now).initializeNlsr es :=
  along_of_meets (fun _ _ hs he => advertisingInv_step math hs he.ownAdj he.room he.requests)
    (advertisingInv_initializeNlsr confParam namePrefixList seqFile now hinactive) h

/-- **The advertised adjacency matches the neighbour states.** In every state without a pending
build this router's Adjacency LSA lists exactly the ACTIVE neighbours with their face URIs and
link costs, which are the configured ones, and there is none if no neighbour is ACTIVE. -/
theorem advertised_adjacency_matches (math : MathLib) (confParam : ConfParameter)
    (adjacencyList : AdjacencyList) (namePrefixList : NamePrefixList) (seqFile : Option UInt64)
    (now : TimePoint) (hinactive : ∀ a ∈ adjacencyList, a.status ≠ .active) (es : List Event)
    (h : Meets (step math) (KeepsAdvertising math)
      (start confParam adjacencyList namePrefixList seqFile now).initializeNlsr es) :
    Along (step math) (fun s =>
        (configuredNeighbors confParam adjacencyList).Agree Adjacent.triple s.adjacencyList ∧
          (s.isBuildAdjLsaSheduled = false → s.Advertises))
      (start confParam adjacencyList namePrefixList seqFile now).initializeNlsr es := by
  refine (advertisingInv_run math confParam namePrefixList seqFile now hinactive h).imp ?_
  intro s hs
  exact ⟨hs.links, fun hflag => hs.advertises (hs.count_of_not_scheduled hflag)⟩

/-- A neighbour with this name and face URI. -/
def flappingNeighbor (name uri : String) (status : Status) (interestTimedOutNo : UInt32) :
    Adjacent :=
  { name := [⟨name⟩], connectingFaceUri := uri, status, interestTimedOutNo }

/-- One neighbour that stays ACTIVE, and one with this status. -/
def flapping (status : Status) (interestTimedOutNo : UInt32) : AdjacencyList :=
  ⟨[flappingNeighbor "m" "um" .active 0, flappingNeighbor "n" "un" status interestTimedOutNo],
    by simp [flappingNeighbor]⟩

/-- Before the first Hello. -/
def silentNeighbors : AdjacencyList :=
  ⟨[flappingNeighbor "m" "um" .inactive 0, flappingNeighbor "n" "un" .inactive 0], by decide⟩

/-- Router `/a`, which takes a neighbour for dead after one timeout. -/
def impatient : ConfParameter := { network := [⟨"a"⟩], interestRetryNumber := 1 }

/-- The Hello Interest to a neighbour. -/
def helloInterest (name : String) : Name := [⟨name⟩, ⟨"NLSR"⟩, ⟨"INFO"⟩, ⟨"a"⟩]

/-- Its answer, with a version. -/
def helloReply (name : String) : Name := helloInterest name ++ [⟨"v"⟩]

/-- Both neighbours answer, and the first build is done. -/
def bothUp (id : Nat) : List Event :=
  [.helloValidated (helloReply "m"), .helloValidated (helloReply "n"), .fire id]

/-- Router `/a` as it starts. -/
def flappingStart : Nlsr :=
  (start impatient silentNeighbors KeyedList.empty none 0).initializeNlsr

theorem meets_bothUp : Meets (step ⟨0, id, id, id, id⟩) (KeepsAdvertising ⟨0, id, id, id, id⟩)
    flappingStart (bothUp 2) := by
  refine ⟨⟨⟨trivial, nofun⟩, keepsRoom_of_fits ?_ _, nofun⟩,
    ⟨⟨trivial, nofun⟩, keepsRoom_of_fits ?_ _, nofun⟩,
    ⟨⟨trivial, nofun⟩, keepsRoom_of_fits ?_ _, seesRequests_of_lt ?_ _⟩, trivial⟩
  · decide +kernel
  · decide +kernel
  · decide +kernel
  · decide +kernel

theorem silentNeighbors_inactive : ∀ a ∈ silentNeighbors, a.status ≠ .active := by
  simp [silentNeighbors, KeyedList.mem_def, flappingNeighbor]

theorem advertised_adjacency_matches_bothUp :
    let s := run (step ⟨0, id, id, id, id⟩) flappingStart (bothUp 2)
    s.isBuildAdjLsaSheduled = false ∧ s.Advertises ∧
      s.ownAdl = some (flapping .active 0) := by
  refine ⟨by decide +kernel, ?_, by decide +kernel⟩
  have h := advertised_adjacency_matches ⟨0, id, id, id, id⟩ impatient silentNeighbors
    KeyedList.empty none 0 silentNeighbors_inactive (bothUp 2) meets_bothUp
  exact h.last.2 (by decide +kernel)

/-! ## A number that wraps -/

theorem scheduleAdjLsaBuild_of_not_scheduled {s : Nlsr} (h : s.isBuildAdjLsaSheduled = false) :
    s.scheduleAdjLsaBuild.pendingAction s.scheduler.nextId = some .buildAdjLsa := by
  have hnew : s.scheduler.events.find? s.scheduler.nextId = none :=
    KeyedList.find?_eq_none.2 fun e he => (s.scheduler.fresh e he).ne
  unfold scheduleAdjLsaBuild
  dsimp only
  rw [if_pos h]
  show ((s.scheduler.events.insert _).find? s.scheduler.nextId).map ScheduledEvent.action = _
  rw [KeyedList.find?_insert, if_pos ⟨rfl, hnew⟩]
  rfl

theorem scheduleAdjLsaBuild_of_scheduled {s : Nlsr} (h : s.isBuildAdjLsaSheduled = true) :
    s.scheduleAdjLsaBuild = { s with adjBuildCount := s.adjBuildCount + 1 } := by
  unfold scheduleAdjLsaBuild
  dsimp only
  rw [if_neg (by simp [h])]

/-- After the last number comes 0, which is not newer: what is stored stays. -/
theorem ownAdl_build_of_last {s : Nlsr}
    (hlast : (s.sequencingManager.counter .adj).toNat = 2 ^ 32 - 1) {adl : AdjacencyList}
    (h : s.ownAdl = some adl) : s.buildAndInstallOwnAdjLsa.ownAdl = some adl := by
  have hzero : s.ownAdjLsa.lsSeqNo.toNat = 0 := by
    rw [ownAdjLsa, AdjLsa.make_eq]
    show (s.sequencingManager.counter .adj + 1).toUInt32.toNat = 0
    rw [UInt64.toNat_toUInt32, UInt64.toNat_add, hlast]
    rfl
  obtain ⟨chk, hchk, rfl⟩ := Option.map_eq_some_iff.1 h
  rw [ownAdl_build, hchk]
  simp [hzero]

/-- Both neighbours are ACTIVE, the LSA is built, and its number is `k`. -/
structure Flapping (k : Nat) (s : Nlsr) : Prop where
  inv : s.AdvertisingInv silentNeighbors
  confParam : s.confParam = impatient
  adjacencyList : s.adjacencyList = flapping .active 0
  isBuildAdjLsaSheduled : s.isBuildAdjLsaSheduled = false
  counter : (s.sequencingManager.counter .adj).toNat = k

/-- The timeout of `n` requests a build. -/
theorem step_helloTimedOut_n (math : MathLib) {s : Nlsr} (hconf : s.confParam = impatient)
    (hlist : s.adjacencyList = flapping .active 0) :
    s.step math (.helloTimedOut (helloInterest "n")) =
      (s.setAdjacencyList (flapping .inactive 1)).scheduleAdjLsaBuild := by
  have hincr : (flapping .active 0).incrementTimedOutInterestCount [⟨"n"⟩] =
      flapping .active 1 := by decide
  have hset : (flapping .active 1).setStatusOfNeighbor [⟨"n"⟩] .inactive =
      flapping .inactive 1 := by decide
  have hname : HelloProtocol.dropLast (helloInterest "n") 3 = [⟨"n"⟩] := by decide
  have hcount : (flapping .active 1).getTimedOutInterestCount [⟨"n"⟩] = 1 := by decide
  have hstatus : (flapping .active 1).getStatusOfNeighbor [⟨"n"⟩] = .active := by decide
  have hretry : s.confParam.interestRetryNumber = 1 := by rw [hconf]; rfl
  show s.processInterestTimedOut (helloInterest "n") = _
  unfold processInterestTimedOut
  dsimp only
  rw [if_neg (by decide)]
  simp only [setAdjacencyList, hname, hlist, hincr, hcount, hstatus, hretry, hset]
  rfl

theorem step_helloValidated_n (math : MathLib) {s : Nlsr}
    (hlist : s.adjacencyList = flapping .inactive 1) :
    s.step math (.helloValidated (helloReply "n")) =
      (s.setAdjacencyList (flapping .active 0)).scheduleAdjLsaBuild := by
  have hname : HelloProtocol.dropLast (helloReply "n") 4 = [⟨"n"⟩] := by decide
  have hset : ((flapping .inactive 1).setStatusOfNeighbor [⟨"n"⟩]
      .active).setTimedOutInterestCount [⟨"n"⟩] 0 = flapping .active 0 := by decide
  have hold : (flapping .inactive 1).getStatusOfNeighbor [⟨"n"⟩] = .inactive := by decide
  have hnew : (flapping .active 0).getStatusOfNeighbor [⟨"n"⟩] = .active := by decide
  show s.onHelloValidated (helloReply "n") = _
  unfold onHelloValidated
  dsimp only
  rw [if_pos (by decide)]
  simp only [setAdjacencyList, hname, hlist, hset, hold, hnew]
  rfl

theorem OnlyHello.sequencingManager {s t : Nlsr} (h : OnlyHello s t) :
    t.sequencingManager = s.sequencingManager := by
  rw [OnlyHello] at h
  rw [h]

theorem OnlyHello.confParam {s t : Nlsr} (h : OnlyHello s t) : t.confParam = s.confParam := by
  rw [OnlyHello] at h
  rw [h]

theorem counter_increaseAdjLsaSeq (sm : SequencingManager) (c : Counter) :
    sm.increaseAdjLsaSeq.counter c = if c = .adj then sm.counter .adj + 1 else sm.counter c := by
  cases c <;> rfl

/-- Events of the Hello protocol have left these neighbours and counted `n` requests, and a build
with this id is due. -/
structure Requested (l : AdjacencyList) (id n : Nat) (s t : Nlsr) : Prop where
  onlyHello : OnlyHello s t
  adjacencyList : t.adjacencyList = l
  isBuildAdjLsaSheduled : t.isBuildAdjLsaSheduled = true
  adjBuildCount : t.adjBuildCount = n
  pendingAction : t.pendingAction id = some .buildAdjLsa

/-- An `int` keeps the number of the requests. -/
theorem Requested.narrowToInt {l : AdjacencyList} {id n : Nat} {s t : Nlsr}
    (h : Requested l id n s t) (hlt : n < 2 ^ 31) : narrowToInt t.adjBuildCount = n := by
  rw [h.adjBuildCount]
  exact narrowToInt_of_lt (Int.natCast_nonneg n) (by exact_mod_cast hlt)

theorem Flapping.down (math : MathLib) {k : Nat} {s : Nlsr} (h : Flapping k s) :
    Requested (flapping .inactive 1) s.scheduler.nextId 1 s
      (s.step math (.helloTimedOut (helloInterest "n"))) := by
  rw [step_helloTimedOut_n math h.confParam h.adjacencyList]
  let u := s.setAdjacencyList (flapping .inactive 1)
  obtain ⟨hlist, hflag, hcount⟩ := scheduleAdjLsaBuild_requests u
  refine ⟨(onlyHello_setAdjacencyList s _).trans (onlyHello_scheduleAdjLsaBuild u), hlist, hflag,
    ?_, scheduleAdjLsaBuild_of_not_scheduled (s := u) h.isBuildAdjLsaSheduled⟩
  have hzero : u.adjBuildCount = 0 := h.inv.count_of_not_scheduled h.isBuildAdjLsaSheduled
  rw [hcount, hzero]
  rfl

/-- A change of status is counted and schedules nothing more. -/
theorem Requested.again {s t : Nlsr} {l : AdjacencyList} {id n : Nat} (h : Requested l id n s t)
    (l' : AdjacencyList) :
    Requested l' id (n + 1) s (t.setAdjacencyList l').scheduleAdjLsaBuild := by
  let u := t.setAdjacencyList l'
  obtain ⟨hlist, hflag, hcount⟩ := scheduleAdjLsaBuild_requests u
  refine ⟨h.onlyHello.trans ((onlyHello_setAdjacencyList t _).trans
    (onlyHello_scheduleAdjLsaBuild u)), hlist, hflag, ?_, ?_⟩
  · rw [hcount, show u.adjBuildCount = n from h.adjBuildCount, Nat.cast_add_one]
  · rw [scheduleAdjLsaBuild_of_scheduled (s := u) h.isBuildAdjLsaSheduled]
    exact h.pendingAction

theorem Requested.up (math : MathLib) {s t : Nlsr} {id n : Nat}
    (h : Requested (flapping .inactive 1) id n s t) :
    Requested (flapping .active 0) id (n + 1) s
      (t.step math (.helloValidated (helloReply "n"))) := by
  rw [step_helloValidated_n math h.adjacencyList]
  exact h.again _

theorem Requested.built (math : MathLib) {s t : Nlsr} {l : AdjacencyList} {id n : Nat}
    (h : Requested l id n s t) (hpos : 0 < n) (hlt : n < 2 ^ 31) (hconf : s.confParam = impatient)
    (hbuildable : l.isAdjLsaBuildable 1 = true) (hactive : l.getNumOfActiveNeighbor > 0) :
    Built (t.cancelEvent (some id)) (t.step math (.fire id)) := by
  have hint := h.narrowToInt hlt
  rw [fire_buildAdjLsa math h.pendingAction]
  refine built_buildAdjLsa ?_ ?_ (hint.trans h.adjBuildCount.symm) ?_
  · show t.adjacencyList.isAdjLsaBuildable t.confParam.interestRetryNumber = true
    rw [h.adjacencyList, h.onlyHello.confParam, hconf]
    exact hbuildable
  · show LinkState.Nlsr.narrowToInt t.adjBuildCount > 0
    rw [hint]
    exact_mod_cast hpos
  · show t.adjacencyList.getNumOfActiveNeighbor > 0
    rw [h.adjacencyList]
    exact hactive

/-- Down, up, and a build. -/
def flap (id : Nat) : List Event :=
  [.helloTimedOut (helloInterest "n"), .helloValidated (helloReply "n"), .fire id]

/-- The own LSA is not touched from outside, and builds see the requests; a counter may wrap. -/
def MayWrap (s : Nlsr) (e : Event) : Prop := s.KeepsOwnAdj e ∧ s.SeesRequests e

theorem Flapping.meets_flap (math : MathLib) {k : Nat} {s : Nlsr} (h : Flapping k s) :
    Meets (step math) MayWrap s (flap s.scheduler.nextId) := by
  have h₂ := (h.down math).up math
  refine ⟨⟨⟨trivial, nofun⟩, nofun⟩, ⟨⟨trivial, nofun⟩, nofun⟩, ⟨⟨trivial, nofun⟩,
    seesRequests_of_lt ?_ _⟩, trivial⟩
  rw [h₂.adjBuildCount]
  norm_num

/-- A flap counts on. -/
theorem Flapping.flap (math : MathLib) {k : Nat} {s : Nlsr} (h : Flapping k s)
    (hk : k + 1 < 2 ^ 32) : Flapping (k + 1) (run (step math) s (flap s.scheduler.nextId)) := by
  have h₁ := h.down math
  have h₂ := h₁.up math
  have hbuilt := h₂.built math (by norm_num) (by norm_num) h.confParam (by decide) (by decide)
  have hsm := h₂.onlyHello.sequencingManager
  obtain ⟨⟨hok₁, hsees₁⟩, ⟨hok₂, hsees₂⟩, ⟨hok₃, hsees₃⟩, -⟩ := h.meets_flap math
  have hinv₁ := advertisingInv_step math h.inv hok₁
    (fun c => Or.inr (by rw [h₁.onlyHello.sequencingManager])) hsees₁
  have hinv₂ := advertisingInv_step math hinv₁ hok₂
    (fun c => Or.inr (by rw [hsm, h₁.onlyHello.sequencingManager])) hsees₂
  have hseq := hbuilt.sequencingManager.trans
    (congrArg SequencingManager.increaseAdjLsaSeq h₂.onlyHello.sequencingManager)
  have hinv₃ := advertisingInv_step math hinv₂ hok₃ (fun c => by
    rw [HasRoom, hseq, counter_increaseAdjLsaSeq, hsm]
    cases c with
    | name => exact Or.inr rfl
    | adj => exact Or.inl (by rw [h.counter]; exact hk)
    | cor => exact Or.inr rfl) hsees₃
  rw [Nlsr.flap, run_cons, run_cons, run_cons, run_nil]
  generalize s.step math (.helloTimedOut (helloInterest "n")) = s₁ at *
  generalize s₁.step math (.helloValidated (helloReply "n")) = s₂ at *
  generalize s₂.step math (.fire s.scheduler.nextId) = s₃ at *
  refine ⟨hinv₃, ?_, hbuilt.adjacencyList.trans h₂.adjacencyList,
    hbuilt.isBuildAdjLsaSheduled, ?_⟩
  · exact hbuilt.confParam.trans (h₂.onlyHello.confParam.trans h.confParam)
  · refine (congrArg (fun sm => (sm.counter .adj).toNat) hseq).trans ?_
    rw [counter_increaseAdjLsaSeq, if_pos rfl, ← h.counter]
    exact BitField.toNat_add_one (by rw [h.counter]; omega)

theorem Flapping.flaps (math : MathLib) {k : Nat} {s : Nlsr} (h : Flapping k s) (n : Nat)
    (hk : k + n < 2 ^ 32) :
    ∃ es, Meets (step math) MayWrap s es ∧ Flapping (k + n) (run (step math) s es) := by
  induction n with
  | zero => exact ⟨[], trivial, h⟩
  | succ n ih =>
    obtain ⟨es, hes, hn⟩ := ih (by omega)
    refine ⟨es ++ Nlsr.flap (run (step math) s es).scheduler.nextId,
      meets_append.2 ⟨hes, hn.meets_flap math⟩, ?_⟩
    rw [run_append]
    exact hn.flap math (by omega)

theorem flapping_bothUp : Flapping 1 (run (step ⟨0, id, id, id, id⟩) flappingStart (bothUp 2)) where
  inv := (advertisingInv_run ⟨0, id, id, id, id⟩ impatient KeyedList.empty none 0
    silentNeighbors_inactive meets_bothUp).last
  confParam := by simp only [bothUp, run_cons, run_nil, confParam_step]; rfl
  adjacencyList := by decide +kernel
  isBuildAdjLsaSheduled := by decide +kernel
  counter := by decide +kernel

/-- Where the LSA goes on listing both neighbours after `n` went down, it is not what the statuses
say. -/
theorem Flapping.not_advertises {k : Nat} {s t : Nlsr} (h : Flapping k s)
    (hlist : t.adjacencyList = flapping .inactive 1) (hown : t.ownAdl = s.ownAdl) :
    ¬ t.Advertises := by
  intro hadv
  have hup := h.inv.advertises (h.inv.count_of_not_scheduled h.isBuildAdjLsaSheduled)
  have hn : flappingNeighbor "n" "un" .active 0 ∈ s.adjacencyList := by
    rw [h.adjacencyList]
    exact List.mem_cons_of_mem _ List.mem_cons_self
  obtain ⟨adl, hadl, hboth⟩ := hup.active ⟨_, hn, rfl⟩
  have hm : flappingNeighbor "m" "um" .active 0 ∈ flapping .inactive 1 := List.mem_cons_self
  obtain ⟨adl', hadl', hone⟩ := hadv.active ⟨_, hlist ▸ hm, rfl⟩
  obtain rfl := Option.some.inj (hadl'.symm.trans (hown.trans hadl))
  obtain ⟨a, ha, hactive, htriple⟩ := (hone _).1 ((hboth _).2 ⟨_, hn, rfl, rfl⟩)
  have ha' : a ∈ flapping .inactive 1 := hlist ▸ ha
  have hlost : ∀ a ∈ (flapping .inactive 1).toList, a.status = .active →
      a.triple ≠ (flappingNeighbor "n" "un" .active 0).triple := by decide
  exact hlost a ha' hactive htriple

theorem Flapping.exists_ownAdl {k : Nat} {s : Nlsr} (h : Flapping k s) :
    ∃ adl, s.ownAdl = some adl := by
  have hup := h.inv.advertises (h.inv.count_of_not_scheduled h.isBuildAdjLsaSheduled)
  have hm : flappingNeighbor "m" "um" .active 0 ∈ s.adjacencyList := by
    rw [h.adjacencyList]
    exact List.mem_cons_self
  obtain ⟨adl, hadl, -⟩ := hup.active ⟨_, hm, rfl⟩
  exact ⟨adl, hadl⟩

/-- Down, and a build. -/
def loss (id : Nat) : List Event := [.helloTimedOut (helloInterest "n"), .fire id]

theorem Flapping.meets_loss (math : MathLib) {k : Nat} {s : Nlsr} (h : Flapping k s) :
    Meets (step math) MayWrap s (loss s.scheduler.nextId) := by
  refine ⟨⟨⟨trivial, nofun⟩, nofun⟩, ⟨⟨trivial, nofun⟩, seesRequests_of_lt ?_ _⟩, trivial⟩
  rw [(h.down math).adjBuildCount]
  norm_num

/-- After the last number `n` goes down: a build runs and its LSA is dropped. -/
theorem Flapping.lost (math : MathLib) {s : Nlsr} (h : Flapping (2 ^ 32 - 1) s) :
    let t := run (step math) s (loss s.scheduler.nextId)
    t.isBuildAdjLsaSheduled = false ∧ ¬ t.Advertises := by
  have h₁ := h.down math
  have hbuilt := h₁.built math (by norm_num) (by norm_num) h.confParam (by decide) (by decide)
  obtain ⟨adl, hadl⟩ := h.exists_ownAdl
  -- The new LSA is not newer
  have hown : (run (step math) s (loss s.scheduler.nextId)).ownAdl = some adl := by
    refine hbuilt.ownAdl.trans (ownAdl_build_of_last ?_ (h₁.onlyHello.ownAdl.trans hadl))
    rw [← h.counter]
    exact congrArg (fun sm => (sm.counter .adj).toNat) h₁.onlyHello.sequencingManager
  exact ⟨hbuilt.isBuildAdjLsaSheduled,
    h.not_advertises (hbuilt.adjacencyList.trans h₁.adjacencyList) (hown.trans hadl.symm)⟩

/-! ## A count that an `int` does not keep -/

/-- The own LSA is not touched from outside, and no counter wraps; a build may miss the requests. -/
def MayMiss (math : MathLib) (s : Nlsr) (e : Event) : Prop :=
  s.KeepsOwnAdj e ∧ KeepsRoom s (s.step math e)

theorem Requested.goesDown (math : MathLib) {s t : Nlsr} {id n : Nat}
    (h : Requested (flapping .active 0) id n s t) (hconf : s.confParam = impatient) :
    Requested (flapping .inactive 1) id (n + 1) s
      (t.step math (.helloTimedOut (helloInterest "n"))) := by
  rw [step_helloTimedOut_n math (h.onlyHello.confParam.trans hconf) h.adjacencyList]
  exact h.again _

theorem keepsRoom_of_sequencingManager {s t : Nlsr}
    (h : t.sequencingManager = s.sequencingManager) : KeepsRoom s t :=
  fun _ => Or.inr (by rw [h])

/-- While the build waits `n` comes up and goes down again, any number of times. -/
theorem Requested.swings (math : MathLib) {s t : Nlsr} {id n : Nat}
    (h : Requested (flapping .inactive 1) id n s t) (hconf : s.confParam = impatient) (k : Nat) :
    ∃ es, Meets (step math) (MayMiss math) t es ∧
      Requested (flapping .inactive 1) id (n + 2 * k) s (run (step math) t es) := by
  induction k with
  | zero => exact ⟨[], trivial, h⟩
  | succ k ih =>
    obtain ⟨es, hes, hk⟩ := ih
    have hup := hk.up math
    have hdown := hup.goesDown math hconf
    have hswing : Meets (step math) (MayMiss math) (run (step math) t es)
        [.helloValidated (helloReply "n"), .helloTimedOut (helloInterest "n")] := by
      refine ⟨⟨⟨trivial, nofun⟩, ?_⟩, ⟨⟨trivial, nofun⟩, ?_⟩, trivial⟩
      · exact keepsRoom_of_sequencingManager
          (hup.onlyHello.sequencingManager.trans hk.onlyHello.sequencingManager.symm)
      · exact keepsRoom_of_sequencingManager
          (hdown.onlyHello.sequencingManager.trans hup.onlyHello.sequencingManager.symm)
    refine ⟨_, meets_append.2 ⟨hes, hswing⟩, ?_⟩
    rw [run_append]
    exact hdown

/-- **A build that does not see the requests** does nothing and is not put off. -/
theorem Requested.missed (math : MathLib) {s t : Nlsr} {l : AdjacencyList} {id : Nat}
    (h : Requested l id (2 ^ 31 + 1) s t) (hconf : s.confParam = impatient)
    (hbuildable : l.isAdjLsaBuildable 1 = true) :
    t.step math (.fire id) = { t.cancelEvent (some id) with isBuildAdjLsaSheduled := false } := by
  rw [fire_buildAdjLsa math h.pendingAction]
  refine buildAdjLsa_of_not_counted ?_ ?_
  · show t.adjacencyList.isAdjLsaBuildable t.confParam.interestRetryNumber = true
    rw [h.adjacencyList, h.onlyHello.confParam, hconf]
    exact hbuildable
  · show ¬ LinkState.Nlsr.narrowToInt t.adjBuildCount > 0
    rw [h.adjBuildCount]
    decide

/-- `n` goes down, and so often up and down again that the build misses it. -/
theorem Flapping.overcounted (math : MathLib) {k : Nat} {s : Nlsr} (h : Flapping k s) :
    ∃ es, Meets (step math) (MayMiss math) s es ∧
      Requested (flapping .inactive 1) s.scheduler.nextId (2 ^ 31 + 1) s
        (run (step math) s es) := by
  have hdown := h.down math
  obtain ⟨es, hes, hlast⟩ := hdown.swings math h.confParam (2 ^ 30)
  refine ⟨.helloTimedOut (helloInterest "n") :: es, ⟨⟨⟨trivial, nofun⟩, ?_⟩, hes⟩, hlast⟩
  exact keepsRoom_of_sequencingManager hdown.onlyHello.sequencingManager

/-- Flaps until the number wraps, and a loss. -/
theorem Flapping.wraps (math : MathLib) {s : Nlsr} (h : Flapping 1 s) :
    ∃ es, Meets (step math) MayWrap s es ∧
      let t := run (step math) s es
      t.isBuildAdjLsaSheduled = false ∧ ¬ t.Advertises := by
  obtain ⟨es, hes, hlast⟩ := h.flaps math (2 ^ 32 - 2) (by norm_num)
  refine ⟨es ++ loss (run (step math) s es).scheduler.nextId,
    meets_append.2 ⟨hes, hlast.meets_loss math⟩, ?_⟩
  rw [run_append]
  exact hlast.lost math

/-- Requests that the build misses. -/
theorem Flapping.misses (math : MathLib) {k : Nat} {s : Nlsr} (h : Flapping k s) :
    ∃ es, Meets (step math) (MayMiss math) s es ∧
      let t := run (step math) s es
      t.isBuildAdjLsaSheduled = false ∧ ¬ t.Advertises := by
  obtain ⟨es, hes, hlast⟩ := h.overcounted math
  have hmissed := hlast.missed math h.confParam (by decide)
  have hroom : KeepsRoom (run (step math) s es)
      ((run (step math) s es).step math (.fire s.scheduler.nextId)) :=
    keepsRoom_of_sequencingManager (by rw [hmissed]; rfl)
  have hfire : Meets (step math) (MayMiss math) (run (step math) s es)
      [.fire s.scheduler.nextId] := ⟨⟨⟨trivial, nofun⟩, hroom⟩, trivial⟩
  refine ⟨_, meets_append.2 ⟨hes, hfire⟩, ?_⟩
  rw [run_append, run_cons, run_nil, hmissed]
  exact ⟨rfl, h.not_advertises hlast.adjacencyList hlast.onlyHello.ownAdl⟩

/-- With hyperbolic routing on a neighbour that is configured with a cost of 10 is advertised
with none; after a number has wrapped a neighbour that is down is still advertised, and so it is
after a build that missed the requests. -/
theorem not_advertised_adjacency_matches :
    let v := run (step ⟨0, id, id, id, id⟩) (start { impatient with hyperbolicState := .on }
      silentNeighbors KeyedList.empty none 0).initializeNlsr (bothUp 3)
    (v.isBuildAdjLsaSheduled = false ∧ (silentNeighbors.getAdjacent [⟨"n"⟩]).linkCost = 10 ∧
        v.ownAdl.map (fun adl => (adl.getAdjacent [⟨"n"⟩]).linkCost) = some 0) ∧
      (∃ es, Meets (step ⟨0, id, id, id, id⟩) MayWrap flappingStart es ∧
        let s := run (step ⟨0, id, id, id, id⟩) flappingStart es
        s.isBuildAdjLsaSheduled = false ∧ ¬ s.Advertises) ∧
      ∃ es, Meets (step ⟨0, id, id, id, id⟩) (MayMiss ⟨0, id, id, id, id⟩) flappingStart es ∧
        let s := run (step ⟨0, id, id, id, id⟩) flappingStart es
        s.isBuildAdjLsaSheduled = false ∧ ¬ s.Advertises := by
  intro v
  refine ⟨⟨by decide +kernel, by decide, by decide +kernel⟩, ?_, ?_⟩
  · obtain ⟨es, hes, hlast⟩ := flapping_bothUp.wraps ⟨0, id, id, id, id⟩
    refine ⟨bothUp 2 ++ es, meets_append.2 ⟨?_, hes⟩, ?_⟩
    · exact meets_bothUp.imp fun _ _ h => ⟨h.ownAdj, h.requests⟩
    · rw [run_append]
      exact hlast
  · obtain ⟨es, hes, hlast⟩ := flapping_bothUp.misses ⟨0, id, id, id, id⟩
    refine ⟨bothUp 2 ++ es, meets_append.2 ⟨?_, hes⟩, ?_⟩
    · exact meets_bothUp.imp fun _ _ h => ⟨h.ownAdj, h.room⟩
    · rw [run_append]
      exact hlast

end Nlsr

end LinkState
