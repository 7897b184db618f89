import LinkState.LiveLinks
import LinkState.TableInputs

/-!
# Requests for a calculation

The routing table follows the Adjacency LSDB through requests: a change schedules a calculation,
and the calculation clears the request. It clears it also when it declines, because a build of the
own LSA is scheduled; it counts on the build to ask again. A build that changes nothing does not
ask, and then the change is never calculated (`not_no_lost_recalculation`).

`no_lost_recalculation`: where no declined calculation meets such a build, the routing table is
the one of the Adjacency LSDB whenever no calculation and no build is pending. With one face per
prefix, one more thing can come in between: a comparison that finds nothing changed sorts the
stored adjacents, and their order decides between paths of one cost.
-/

namespace LinkState

namespace Nlsr

/-- The routing table is the one a calculation would store now. -/
def TableCurrent (s : Nlsr) : Prop :=
  ∀ dest, s.routingTable.rTable.find? dest = s.currentTable.find? dest

/-- The routing table is current when no calculation and no build is pending; without the own
Adjacency LSA it is then empty. -/
structure CurrentWhenIdle (s : Nlsr) : Prop where
  current : s.isRouteCalculationScheduled = false → s.isBuildAdjLsaSheduled = false →
    s.TableCurrent
  empty : s.isRouteCalculationScheduled = false → s.isBuildAdjLsaSheduled = false →
    s.ownAdjLsaExists = false → ∀ dest, s.routingTable.rTable.find? dest = none

/-! ## Steps that keep the requests -/

/-- A calculation would store the same. -/
def SameTable (s t : Nlsr) : Prop := ∀ dest, t.currentTable.find? dest = s.currentTable.find? dest

/-- The routing table and the requests stay, and what changes the next table requests a
calculation. -/
structure Steady (s t : Nlsr) : Prop where
  confParam : t.confParam = s.confParam
  idle : t.isRoutingTableCalculating = s.isRoutingTableCalculating
  rTable : t.routingTable.rTable = s.routingTable.rTable
  calculation : s.isRouteCalculationScheduled = true → t.isRouteCalculationScheduled = true
  build : s.isBuildAdjLsaSheduled = true → t.isBuildAdjLsaSheduled = true
  table : t.isRouteCalculationScheduled = true ∨ SameTable s t

theorem Steady.refl (s : Nlsr) : Steady s s := ⟨rfl, rfl, rfl, id, id, Or.inr fun _ => rfl⟩

theorem Steady.trans {s t u : Nlsr} (h : Steady s t) (h' : Steady t u) : Steady s u where
  confParam := h'.confParam.trans h.confParam
  idle := h'.idle.trans h.idle
  rTable := h'.rTable.trans h.rTable
  calculation hs := h'.calculation (h.calculation hs)
  build hs := h'.build (h.build hs)
  table := by
    rcases h'.table with hu | htu
    · exact Or.inl hu
    · rcases h.table with ht | hst
      · exact Or.inl (h'.calculation ht)
      · exact Or.inr fun dest => (htu dest).trans (hst dest)

theorem SameInputs.sameTable {s t : Nlsr} (h : SameInputs s t) : SameTable s t := by
  intro dest
  rw [h.currentTable]

/-- What only the database, its tables and the scheduler notice. -/
theorem OnlyLsdb.steady {s t : Nlsr} (h : OnlyLsdb s t)
    (hcalc : s.isRouteCalculationScheduled = true → t.isRouteCalculationScheduled = true)
    (htable : t.isRouteCalculationScheduled = true ∨ SameTable s t) : Steady s t := by
  rw [OnlyLsdb] at h
  refine ⟨?_, ?_, ?_, hcalc, fun hs => ?_, htable⟩
  · rw [h]
  · rw [h]
  · rw [h]
  · rw [h]
    exact hs

theorem OnlyLsdb.sameFaces {s t : Nlsr} (h : OnlyLsdb s t) : SameFaces s t := by
  rw [OnlyLsdb] at h
  rw [h]
  exact fun _ => rfl

/-- The Adjacency LSDB stays, and so does the request. -/
theorem OnlyLsdb.steady_of_adjLsdb {s t : Nlsr} (h : OnlyLsdb s t)
    (hcalc : s.isRouteCalculationScheduled = true → t.isRouteCalculationScheduled = true)
    (hdb : t.lsdb.adjLsdb = s.lsdb.adjLsdb) : Steady s t :=
  h.steady hcalc (Or.inr (SameInputs.sameTable ⟨h.confParam, h.sameFaces, by rw [hdb]⟩))

theorem OnlyTables.isRouteCalculationScheduled {s t : Nlsr} (h : OnlyTables s t) :
    t.isRouteCalculationScheduled = s.isRouteCalculationScheduled := by
  rw [OnlyTables] at h
  rw [h]

/-! ### Requests -/

@[simp] theorem isRouteCalculationScheduled_schedule (s : Nlsr) :
    s.scheduleRoutingTableCalculation.isRouteCalculationScheduled = true := by
  unfold scheduleRoutingTableCalculation
  split_ifs with h
  · rfl
  · simpa using h

theorem steady_scheduleRoutingTableCalculation (s : Nlsr) :
    Steady s s.scheduleRoutingTableCalculation :=
  (onlyLsdb_scheduleRoutingTableCalculation s).steady
    (fun _ => isRouteCalculationScheduled_schedule s)
    (Or.inl (isRouteCalculationScheduled_schedule s))

theorem steady_scheduleIfHyperbolic (s : Nlsr) : Steady s s.scheduleIfHyperbolic := by
  unfold scheduleIfHyperbolic
  split_ifs
  · exact steady_scheduleRoutingTableCalculation s
  · exact Steady.refl s

/-! ### Name LSAs and Coordinate LSAs -/

theorem steady_installNameLsa (s : Nlsr) (nlsa : NameLsa) : Steady s (s.installNameLsa nlsa) := by
  refine (onlyLsdb_installNameLsa s nlsa).steady_of_adjLsdb (fun hs => ?_) ?_
  · cases h : s.lsdb.findNameLsa nlsa.getKey with
    | none =>
      rw [installNameLsa_of_none h]
      exact (onlyTables_addEntries ..).isRouteCalculationScheduled.trans hs
    | some chk =>
      by_cases hlt : chk.lsSeqNo < nlsa.lsSeqNo
      · rw [installNameLsa_of_newer h hlt]
        exact (onlyTables_removeEntries ..).isRouteCalculationScheduled.trans
          ((onlyTables_addEntries ..).isRouteCalculationScheduled.trans hs)
      · rw [installNameLsa_of_not_newer h hlt]
        exact hs
  · rw [(lsdb_installNameLsa s nlsa).1]

theorem steady_installCoordinateLsa (s : Nlsr) (clsa : CoordinateLsa) :
    Steady s (s.installCoordinateLsa clsa) := by
  refine (onlyLsdb_installCoordinateLsa s clsa).steady_of_adjLsdb (fun hs => ?_) ?_
  · cases h : s.lsdb.findCoordinateLsa clsa.getKey with
    | none =>
      rw [installCoordinateLsa_of_none h]
      exact (steady_scheduleIfHyperbolic _).calculation
        ((onlyTables_addEntries ..).isRouteCalculationScheduled.trans hs)
    | some chk =>
      by_cases hlt : chk.lsSeqNo < clsa.lsSeqNo
      · rw [installCoordinateLsa_of_newer h hlt]
        dsimp only
        split_ifs
        · exact hs
        · exact (steady_scheduleIfHyperbolic (s.setLsdb s.lsdb.onLsdbChange)).calculation hs
      · rw [installCoordinateLsa_of_not_newer h hlt]
        exact hs
  · rw [(lsdb_installCoordinateLsa s clsa).1]

theorem steady_removeNameLsa (s : Nlsr) (key : Name) : Steady s (s.removeNameLsa key) := by
  refine (onlyLsdb_removeNameLsa s key).steady_of_adjLsdb (fun hs => ?_) ?_
  · cases h : s.lsdb.findNameLsa key with
    | none =>
      rw [removeNameLsa_of_none h]
      exact hs
    | some l =>
      rw [removeNameLsa_of_some h]
      exact (onlyTables_removeEntries ..).isRouteCalculationScheduled.trans hs
  · cases h : s.lsdb.findNameLsa key with
    | none => rw [removeNameLsa_of_none h]
    | some l =>
      rw [removeNameLsa_of_some h]
      rfl

theorem steady_removeCoordinateLsa (s : Nlsr) (key : Name) :
    Steady s (s.removeCoordinateLsa key) := by
  refine (onlyLsdb_removeCoordinateLsa s key).steady_of_adjLsdb (fun hs => ?_) ?_
  · cases h : s.lsdb.findCoordinateLsa key with
    | none =>
      rw [removeCoordinateLsa_of_none h]
      exact hs
    | some l =>
      rw [removeCoordinateLsa_of_some h]
      exact (onlyTables_removeEntries ..).isRouteCalculationScheduled.trans hs
  · cases h : s.lsdb.findCoordinateLsa key with
    | none => rw [removeCoordinateLsa_of_none h]
    | some l =>
      rw [removeCoordinateLsa_of_some h]
      rfl

/-- What changes neither the configuration nor what the calculation reads. -/
theorem steady_of_same {s t : Nlsr} (hconf : t.confParam = s.confParam)
    (hidle : t.isRoutingTableCalculating = s.isRoutingTableCalculating)
    (htable : t.routingTable.rTable = s.routingTable.rTable)
    (hcalc : t.isRouteCalculationScheduled = s.isRouteCalculationScheduled)
    (hbuild : t.isBuildAdjLsaSheduled = s.isBuildAdjLsaSheduled)
    (hfaces : SameFaces s t) (hdb : t.lsdb.adjLsdb = s.lsdb.adjLsdb) : Steady s t :=
  ⟨hconf, hidle, htable, fun hs => hcalc.trans hs, fun hs => hbuild.trans hs,
    Or.inr (SameInputs.sameTable ⟨hconf, hfaces, by rw [hdb]⟩)⟩

theorem steady_refreshNameLsa (s : Nlsr) (chk : NameLsa) : Steady s (s.refreshNameLsa chk) :=
  steady_of_same rfl rfl rfl rfl rfl (fun _ => rfl) rfl

theorem steady_refreshCoordinateLsa (s : Nlsr) (chk : CoordinateLsa) :
    Steady s (s.refreshCoordinateLsa chk) :=
  steady_of_same rfl rfl rfl rfl rfl (fun _ => rfl) rfl

theorem steady_exprireOrRefreshNameLsa (s : Nlsr) (lsaKey : Name) (seqNo : UInt64) :
    Steady s (s.exprireOrRefreshNameLsa lsaKey seqNo) := by
  unfold exprireOrRefreshNameLsa
  cases s.lsdb.findNameLsa lsaKey with
  | none => exact Steady.refl s
  | some chk =>
    dsimp only
    split_ifs
    · exact steady_refreshNameLsa s chk
    · exact steady_removeNameLsa s lsaKey
    · exact Steady.refl s

theorem steady_exprireOrRefreshCoordinateLsa (s : Nlsr) (lsaKey : Name) (seqNo : UInt64) :
    Steady s (s.exprireOrRefreshCoordinateLsa lsaKey seqNo) := by
  unfold exprireOrRefreshCoordinateLsa
  cases s.lsdb.findCoordinateLsa lsaKey with
  | none => exact Steady.refl s
  | some chk =>
    dsimp only
    split_ifs
    · exact (steady_refreshCoordinateLsa s chk).trans (steady_scheduleIfHyperbolic _)
    · exact (steady_removeCoordinateLsa s lsaKey).trans (steady_scheduleIfHyperbolic _)
    · exact Steady.refl s

/-! ### Adjacency LSAs -/

/-- Where a calculation is requested anyway, the change of the Adjacency LSDB does not matter. -/
theorem OnlyLsdb.steady_of_scheduled {s t : Nlsr} (h : OnlyLsdb s t)
    (ht : t.isRouteCalculationScheduled = true) : Steady s t :=
  h.steady (fun _ => ht) (Or.inl ht)

theorem steady_exprireOrRefreshAdjLsa (s : Nlsr) (lsaKey : Name) (seqNo : UInt64) :
    Steady s (s.exprireOrRefreshAdjLsa lsaKey seqNo) := by
  unfold exprireOrRefreshAdjLsa
  cases h : s.lsdb.findAdjLsa lsaKey with
  | none => exact Steady.refl s
  | some chk =>
    dsimp only
    split_ifs
    · have hsame : SameInputs s (s.refreshAdjLsa chk) := by
        have hself : s.lsdb.adjLsdb.find? chk.getKey = some chk := by
          rw [KeyedList.key_of_find? h]
          exact h
        exact sameInputs_of_replace rfl (fun _ => rfl) rfl hself rfl
      have hsteady : Steady s (s.refreshAdjLsa chk) :=
        ⟨rfl, rfl, rfl, id, id, Or.inr hsame.sameTable⟩
      exact hsteady.trans (steady_scheduleRoutingTableCalculation _)
    · exact ((onlyLsdb_removeAdjLsa s lsaKey).trans
        (onlyLsdb_scheduleRoutingTableCalculation _)).steady_of_scheduled
          (isRouteCalculationScheduled_schedule _)
    · exact Steady.refl s

/-- If a comparison finds the stored adjacents of its origin unchanged, it leaves them in their
order. -/
def KeepsOrder (s : Nlsr) (alsa : AdjLsa) : Prop :=
  ∀ chk, s.lsdb.findAdjLsa alsa.getKey = some chk → chk.lsSeqNo < alsa.lsSeqNo →
    (chk.adl.eqSorting alsa.adl).1 = true → chk.adl.sortByName = chk.adl

/-- The adjacents are new, or differ from the stored ones of their origin. -/
def NewContent (s : Nlsr) (alsa : AdjLsa) : Prop :=
  ∀ chk, s.lsdb.findAdjLsa alsa.getKey = some chk →
    chk.lsSeqNo < alsa.lsSeqNo ∧ (chk.adl.eqSorting alsa.adl).1 = false

instance (s : Nlsr) (alsa : AdjLsa) : Decidable (s.KeepsOrder alsa) :=
  match h : s.lsdb.findAdjLsa alsa.getKey with
  | none => .isTrue fun chk hchk => by simp [h] at hchk
  | some chk =>
    decidable_of_iff (chk.lsSeqNo < alsa.lsSeqNo → (chk.adl.eqSorting alsa.adl).1 = true →
      chk.adl.sortByName = chk.adl)
      ⟨fun hall chk' hchk' => Option.some.inj (h.symm.trans hchk') ▸ hall, fun hall => hall chk h⟩

instance (s : Nlsr) (alsa : AdjLsa) : Decidable (s.NewContent alsa) :=
  match h : s.lsdb.findAdjLsa alsa.getKey with
  | none => .isTrue fun chk hchk => by simp [h] at hchk
  | some chk =>
    decidable_of_iff (chk.lsSeqNo < alsa.lsSeqNo ∧ (chk.adl.eqSorting alsa.adl).1 = false)
      ⟨fun hall chk' hchk' => Option.some.inj (h.symm.trans hchk') ▸ hall, fun hall => hall chk h⟩

/-- **An install of an Adjacency LSA** changes the table, and then requests a calculation; or a
comparison finds nothing changed. -/
theorem steady_installAdjLsa {s : Nlsr} {alsa : AdjLsa}
    (h : s.confParam.maxFacesPerPrefix = 1 → s.isRouteCalculationScheduled = false →
      s.KeepsOrder alsa) : Steady s (s.installAdjLsa alsa) := by
  have honly := onlyLsdb_installAdjLsa s alsa
  cases hfind : s.lsdb.findAdjLsa alsa.getKey with
  | none =>
    refine honly.steady_of_scheduled ?_
    rw [installAdjLsa_of_none hfind]
    exact isRouteCalculationScheduled_schedule _
  | some chk =>
    by_cases hlt : chk.lsSeqNo < alsa.lsSeqNo
    · by_cases hequal : (chk.adl.eqSorting alsa.adl).1 = true
      · let s₂ := (s.setLsdb s.lsdb.onLsdbChange).cancelEvent chk.expiringEventId
        let r := s₂.scheduleAdjLsaExpiration alsa.getKey alsa.lsSeqNo (s₂.timeToExpire alsa.toLsa)
        let l := updatedAdjLsa chk alsa r.2
        have hinstall : s.installAdjLsa alsa = r.1.putAdjLsa l := by
          rw [installAdjLsa_of_newer hfind hlt]
          dsimp only
          rw [if_pos hequal]
        have hadl : l.adl = (chk.adl.eqSorting alsa.adl).2.1 := if_pos hequal
        have hdb : (s.installAdjLsa alsa).lsdb.adjLsdb = s.lsdb.adjLsdb.replace l := by
          rw [hinstall]
          rfl
        have hkey : s.lsdb.adjLsdb.find? l.getKey = some chk := by
          have hchk : chk.getKey = alsa.getKey := KeyedList.key_of_find? hfind
          rw [show l.getKey = alsa.getKey from hchk]
          exact hfind
        have hcalc : (s.installAdjLsa alsa).isRouteCalculationScheduled =
            s.isRouteCalculationScheduled := by
          rw [hinstall]
          rfl
        refine honly.steady (fun hs => hcalc.trans hs) ?_
        by_cases hasked : s.isRouteCalculationScheduled = true
        · exact Or.inl (hcalc.trans hasked)
        · refine Or.inr ?_
          by_cases hmulti : s.confParam.maxFacesPerPrefix = 1
          · -- The order is kept, so the same is read
            have hsorted := h hmulti (Bool.eq_false_iff.2 hasked) chk hfind hlt hequal
            refine (sameInputs_of_replace honly.confParam honly.sameFaces hdb hkey ?_).sameTable
            rw [hadl]
            unfold AdjacencyList.eqSorting
            split_ifs
            · rfl
            · exact hsorted
          · refine (sameLinks_of_replace honly.confParam honly.sameFaces hdb hkey fun a =>
              ?_).find?_currentTable hmulti
            rw [hadl]
            exact (mem_eqSorting chk.adl alsa.adl).1 a
      · refine honly.steady_of_scheduled ?_
        rw [installAdjLsa_of_newer hfind hlt]
        dsimp only
        rw [if_neg hequal]
        exact isRouteCalculationScheduled_schedule _
    · rw [installAdjLsa_of_not_newer hfind hlt]
      exact Steady.refl s

/-- New adjacents request a calculation. -/
theorem isRouteCalculationScheduled_installAdjLsa {s : Nlsr} {alsa : AdjLsa}
    (h : s.NewContent alsa) : (s.installAdjLsa alsa).isRouteCalculationScheduled = true := by
  cases hfind : s.lsdb.findAdjLsa alsa.getKey with
  | none =>
    rw [installAdjLsa_of_none hfind]
    exact isRouteCalculationScheduled_schedule _
  | some chk =>
    obtain ⟨hlt, hdiffers⟩ := h chk hfind
    rw [installAdjLsa_of_newer hfind hlt]
    dsimp only
    rw [if_neg (by simp [hdiffers])]
    exact isRouteCalculationScheduled_schedule _

/-! ### Other events -/

theorem HelloTurn.steady {s t : Nlsr} (h : HelloTurn s t) : Steady s t := by
  have honly := h.onlyHello
  rw [OnlyHello] at honly
  have hconf : t.confParam = s.confParam := by rw [honly]
  refine ⟨hconf, ?_, ?_, fun hs => ?_, fun hs => ?_, Or.inr ?_⟩
  · rw [honly]
  · rw [honly]
  · rw [honly]
    exact hs
  · rcases h.requests with ⟨-, hbuild, -⟩ | ⟨hbuild, -⟩
    · exact hbuild.trans hs
    · exact hbuild
  · exact SameInputs.sameTable ⟨hconf, sameFaces_of_agree h.links, by rw [honly]⟩

theorem steady_fibRemove (s : Nlsr) (name : Name) : Steady s (s.fibRemove name) := by
  have honly := onlyFib_fibRemove s name
  rw [OnlyFib] at honly
  rw [honly]
  exact steady_of_same rfl rfl rfl rfl rfl (fun _ => rfl) rfl

theorem steady_buildAndInstallOwnNameLsa (s : Nlsr) : Steady s s.buildAndInstallOwnNameLsa := by
  let s' : Nlsr := { s with sequencingManager := s.sequencingManager.increaseNameLsaSeq }
  have hcount : Steady s s' := steady_of_same rfl rfl rfl rfl rfl (fun _ => rfl) rfl
  exact hcount.trans (steady_installNameLsa s' s.ownNameLsa)

theorem steady_buildAndInstallOwnCoordinateLsa (s : Nlsr) :
    Steady s s.buildAndInstallOwnCoordinateLsa := by
  let s' : Nlsr := { s with sequencingManager := s.sequencingManager.increaseCorLsaSeq }
  have hcount : Steady s s' := steady_of_same rfl rfl rfl rfl rfl (fun _ => rfl) rfl
  exact hcount.trans (steady_installCoordinateLsa s' s.ownCoordinateLsa)

theorem steady_publishRoutingUpdate (s : Nlsr) : Steady s s.publishRoutingUpdate :=
  steady_of_same rfl rfl rfl rfl rfl (fun _ => rfl) rfl

theorem steady_rebuildNames (s : Nlsr) (names : NamePrefixList) :
    let s₀ : Nlsr := { s with namePrefixList := names }
    Steady s s₀.buildAndInstallOwnNameLsa.publishRoutingUpdate := by
  intro s₀
  have hnames : Steady s s₀ := steady_of_same rfl rfl rfl rfl rfl (fun _ => rfl) rfl
  exact (hnames.trans (steady_buildAndInstallOwnNameLsa s₀)).trans (steady_publishRoutingUpdate _)

/-! ## Builds and calculations -/

/-- A build that runs for a neighbour installs the own LSA from a state that has announced its
number. -/
theorem steady_buildAndInstallOwnAdjLsa {s : Nlsr}
    (h : s.confParam.maxFacesPerPrefix = 1 → s.isRouteCalculationScheduled = false →
      s.KeepsOrder s.ownAdjLsa) : Steady s s.buildAndInstallOwnAdjLsa := by
  let s' : Nlsr := ({ s with
    sequencingManager := s.sequencingManager.increaseAdjLsaSeq } : Nlsr).publishRoutingUpdate
  have hannounced : Steady s s' := steady_of_same rfl rfl rfl rfl rfl (fun _ => rfl) rfl
  have horder : s'.confParam.maxFacesPerPrefix = 1 → s'.isRouteCalculationScheduled = false →
      s'.KeepsOrder s.ownAdjLsa := h
  exact hannounced.trans (steady_installAdjLsa horder)

theorem steady_of_adjBuildCount {s t : Nlsr} (h : Steady s t) (count : Int) :
    Steady s { t with adjBuildCount := count } :=
  h.trans (steady_of_same rfl rfl rfl rfl rfl (fun _ => rfl) rfl)

/-- **A build**, but for its own request, is steady. -/
theorem steady_buildAdjLsa {s : Nlsr}
    (h : s.confParam.maxFacesPerPrefix = 1 → s.isRouteCalculationScheduled = false →
      s.buildAdjLsaOp = .install (.adj s.ownAdjLsa) → s.KeepsOrder s.ownAdjLsa) :
    Steady { s with isBuildAdjLsaSheduled := false } s.buildAdjLsa := by
  let u : Nlsr := { s with isBuildAdjLsaSheduled := false }
  by_cases hbuildable : s.adjacencyList.isAdjLsaBuildable s.confParam.interestRetryNumber = true
  · by_cases hcount : narrowToInt s.adjBuildCount > 0
    · by_cases hactive : s.adjacencyList.getNumOfActiveNeighbor > 0
      · rw [buildAdjLsa_of_active hbuildable hcount hactive]
        have hop : s.buildAdjLsaOp = .install (.adj s.ownAdjLsa) := by
          rw [buildAdjLsaOp, if_pos ⟨hbuildable, hcount⟩, if_pos hactive]
        have horder : u.confParam.maxFacesPerPrefix = 1 →
            u.isRouteCalculationScheduled = false → u.KeepsOrder u.ownAdjLsa :=
          fun hsingle hasked => h hsingle hasked hop
        exact steady_of_adjBuildCount (steady_buildAndInstallOwnAdjLsa horder) _
      · rw [buildAdjLsa_of_no_active hbuildable hcount hactive]
        have hrequested := ((onlyLsdb_removeAdjLsa u (AdjLsa.key s.routerPrefix)).trans
          (onlyLsdb_scheduleRoutingTableCalculation _)).steady_of_scheduled
            (isRouteCalculationScheduled_schedule _)
        exact steady_of_adjBuildCount hrequested _
    · rw [buildAdjLsa_of_not_counted hbuildable hcount]
      exact Steady.refl u
  · rw [buildAdjLsa_of_not_buildable hbuildable]
    exact ⟨rfl, rfl, rfl, id, fun _ => rfl, Or.inr fun _ => rfl⟩

/-- A build that cannot run yet is scheduled again. -/
theorem isBuildAdjLsaSheduled_buildAdjLsa {s : Nlsr}
    (h : ¬ s.adjacencyList.isAdjLsaBuildable s.confParam.interestRetryNumber = true) :
    s.buildAdjLsa.isBuildAdjLsaSheduled = true := by
  rw [buildAdjLsa_of_not_buildable h]
  rfl

/-- A build that changes the own LSA requests a calculation. -/
theorem isRouteCalculationScheduled_buildAdjLsa {s : Nlsr}
    (hbuildable : s.adjacencyList.isAdjLsaBuildable s.confParam.interestRetryNumber = true)
    (hcount : narrowToInt s.adjBuildCount > 0)
    (hnew : s.adjacencyList.getNumOfActiveNeighbor > 0 → s.NewContent s.ownAdjLsa) :
    s.buildAdjLsa.isRouteCalculationScheduled = true := by
  let u : Nlsr := { s with isBuildAdjLsaSheduled := false }
  by_cases hactive : s.adjacencyList.getNumOfActiveNeighbor > 0
  · rw [buildAdjLsa_of_active hbuildable hcount hactive]
    let u' : Nlsr := ({ u with
      sequencingManager := u.sequencingManager.increaseAdjLsaSeq } : Nlsr).publishRoutingUpdate
    have hnew' : u'.NewContent s.ownAdjLsa := hnew hactive
    exact isRouteCalculationScheduled_installAdjLsa hnew'
  · rw [buildAdjLsa_of_no_active hbuildable hcount hactive]
    exact isRouteCalculationScheduled_schedule _

/-- A calculation that runs leaves the current table. -/
theorem tableCurrent_calculate {math : MathLib} {s : Nlsr} (h : s.CanCalculate)
    (hoff : s.confParam.hyperbolicState = .off) : (s.calculate math).TableCurrent := by
  have honly := onlyRouting_calculate math s
  rw [OnlyRouting] at honly
  have hsame : SameInputs s (s.calculate math) := by
    rw [honly]
    exact ⟨rfl, fun _ => rfl, rfl⟩
  intro dest
  rw [rTable_calculate h hoff, hsame.currentTable]

end Nlsr

/-! ## Every run -/

/-- A router and whether its last calculation was declined. -/
structure Asked where
  router : Nlsr
  declined : Bool := false

namespace Asked

open Nlsr

/-- A calculation is declined while a build of the own LSA, which is there, is scheduled. -/
def declinedAfter (r : Asked) : Event → Bool
  | .fire id =>
    if r.router.pendingAction id = some .calculate then
      r.router.ownAdjLsaExists && r.router.isBuildAdjLsaSheduled
    else r.declined
  | _ => r.declined

def step (math : MathLib) (r : Asked) (e : Event) : Asked :=
  { router := r.router.step math e, declined := r.declinedAfter e }

/-- A declined calculation waits for the build that is scheduled. -/
def Waits (r : Asked) : Prop :=
  r.router.isRouteCalculationScheduled = false ∧ r.declined = true ∧
    r.router.isBuildAdjLsaSheduled = true

/-- No request is lost at an event. -/
structure Keeps (r : Asked) (e : Event) : Prop where
  /-- The build that a declined calculation waits for changes the own LSA or is put off. -/
  build : r.Waits → ∀ id, e = .fire id → r.router.pendingAction id = some .buildAdjLsa →
    r.router.adjacencyList.isAdjLsaBuildable r.router.confParam.interestRetryNumber = true →
      narrowToInt r.router.adjBuildCount > 0 ∧
        (r.router.adjacencyList.getNumOfActiveNeighbor > 0 →
          r.router.NewContent r.router.ownAdjLsa)
  /-- With one face per prefix, no comparison reorders stored adjacents when nothing is asked. -/
  order : r.router.confParam.maxFacesPerPrefix = 1 →
    r.router.isRouteCalculationScheduled = false → ¬ r.Waits →
      ∀ l, r.router.opOf e = .install (.adj l) → r.router.KeepsOrder l
  /-- A stored Adjacency LSA is removed by builds and expirations, which ask, or when it is asked. -/
  removal : ∀ key, e = .removeAdjLsa key → r.router.isRouteCalculationScheduled = true ∨ r.Waits ∨
    r.router.lsdb.findAdjLsa key = none

/-- The table is current, or somebody will ask. -/
structure Followed (r : Asked) : Prop where
  idle : r.router.isRoutingTableCalculating = false
  off : r.router.confParam.hyperbolicState = .off
  followed : r.router.isRouteCalculationScheduled = true ∨ r.Waits ∨ r.router.TableCurrent

theorem Followed.of_steady {r : Asked} (h : r.Followed) {t : Nlsr} (ht : Steady r.router t) :
    Followed { r with router := t } := by
  refine ⟨ht.idle.trans h.idle, ?_, ?_⟩
  · rw [ht.confParam]
    exact h.off
  · by_cases hasked : t.isRouteCalculationScheduled = true
    · exact Or.inl hasked
    · rcases h.followed with hs | ⟨-, hdeclined, hbuild⟩ | hcurrent
      · exact absurd (ht.calculation hs) hasked
      · exact Or.inr (Or.inl ⟨Bool.eq_false_iff.2 hasked, hdeclined, ht.build hbuild⟩)
      · refine Or.inr (Or.inr fun dest => ?_)
        rw [ht.rTable, (ht.table.resolve_left hasked) dest]
        exact hcurrent dest

/-- While a declined calculation waits, changes of the database do not matter. -/
theorem Followed.of_waits {r : Asked} (h : r.Followed) (hwaits : r.Waits) {t : Nlsr}
    (ht : OnlyLsdb r.router t) : Followed { r with router := t } := by
  obtain ⟨-, hdeclined, hbuild⟩ := hwaits
  have hbuild' : t.isBuildAdjLsaSheduled = true :=
    ht.sameRequests.isBuildAdjLsaSheduled.trans hbuild
  have hconf := ht.confParam
  rw [OnlyLsdb] at ht
  refine ⟨?_, ?_, ?_⟩
  · show t.isRoutingTableCalculating = false
    rw [ht]
    exact h.idle
  · rw [hconf]
    exact h.off
  · by_cases hasked : t.isRouteCalculationScheduled = true
    · exact Or.inl hasked
    · exact Or.inr (Or.inl ⟨Bool.eq_false_iff.2 hasked, hdeclined, hbuild'⟩)

theorem steady_cancelEvent (s : Nlsr) (eid : Option Nat) : Steady s (s.cancelEvent eid) :=
  steady_of_same rfl rfl rfl rfl rfl (fun _ => rfl) rfl

/-- **A calculation** leaves the current table, or it waits for the build. -/
theorem followed_calculate {math : MathLib} {r : Asked} (h : r.Followed) {id : Nat}
    (hid : r.router.pendingAction id = some .calculate) :
    (r.step math (.fire id)).Followed := by
  let u := r.router.cancelEvent (some id)
  have hstep : (r.step math (.fire id)).router = u.calculate math := by
    show r.router.fire math id = _
    rw [fire, hid]
    rfl
  have hdeclined : (r.step math (.fire id)).declined =
      (r.router.ownAdjLsaExists && r.router.isBuildAdjLsaSheduled) := if_pos hid
  have hidle : u.isRoutingTableCalculating = false := h.idle
  have honly := onlyRouting_calculate math u
  have hoff : (u.calculate math).confParam.hyperbolicState = .off := by
    rw [OnlyRouting] at honly
    rw [honly]
    exact h.off
  cases hboth : u.ownAdjLsaExists && u.isBuildAdjLsaSheduled with
  | true =>
    obtain ⟨hown, hbuild⟩ := Bool.and_eq_true_iff.1 hboth
    rw [calculate_of_declined hidle hown hbuild] at hstep
    refine ⟨by rw [hstep], by rw [hstep]; exact h.off, Or.inr (Or.inl ⟨?_, ?_, ?_⟩)⟩
    · rw [hstep]
    · rw [hdeclined]
      exact hboth
    · rw [hstep]
      exact hbuild
  | false =>
    have hcan : u.CanCalculate := by
      refine ⟨hidle, fun hown => ?_⟩
      rw [hown, Bool.true_and] at hboth
      exact hboth
    refine ⟨?_, ?_, Or.inr (Or.inr ?_)⟩
    · rw [hstep, calculate_of_canCalculate hcan]
    · rw [hstep]
      exact hoff
    · rw [hstep]
      exact tableCurrent_calculate hcan h.off

/-- **A build** changes the own LSA and asks, or is put off, or does not matter to the table. -/
theorem followed_buildAdjLsa {math : MathLib} {r : Asked} (h : r.Followed) {id : Nat}
    (hid : r.router.pendingAction id = some .buildAdjLsa) (he : r.Keeps (.fire id)) :
    (r.step math (.fire id)).Followed := by
  let u := r.router.cancelEvent (some id)
  have hstep : (r.step math (.fire id)).router = u.buildAdjLsa := fire_buildAdjLsa math hid
  have hdeclined : (r.step math (.fire id)).declined = r.declined :=
    if_neg (by rw [hid]; exact nofun)
  have heq : r.step math (.fire id) = { router := u.buildAdjLsa, declined := r.declined } := by
    rw [← hstep, ← hdeclined]
  have hop : r.router.opOf (.fire id) = u.buildAdjLsaOp := by
    show r.router.fireOp id = _
    rw [fireOp, hid]
    rfl
  rw [heq]
  by_cases hwaits : r.Waits
  · have hnew := he.build hwaits id rfl hid
    have horder : u.buildAdjLsaOp = .install (.adj u.ownAdjLsa) → u.KeepsOrder u.ownAdjLsa := by
      intro hinstall chk hchk hlt hequal
      rw [buildAdjLsaOp] at hinstall
      split_ifs at hinstall with hboth hactive
      obtain ⟨-, hcontent⟩ := hnew hboth.1
      exact absurd ((hcontent hactive chk hchk).2.symm.trans hequal) Bool.false_ne_true
    have hsteady := steady_buildAdjLsa (s := u) fun _ _ => horder
    have hidle : u.buildAdjLsa.isRoutingTableCalculating = false := hsteady.idle.trans h.idle
    have hoff : u.buildAdjLsa.confParam.hyperbolicState = .off := by
      rw [hsteady.confParam]
      exact h.off
    refine ⟨hidle, hoff, ?_⟩
    by_cases hasked : u.buildAdjLsa.isRouteCalculationScheduled = true
    · exact Or.inl hasked
    · by_cases hbuildable :
        u.adjacencyList.isAdjLsaBuildable u.confParam.interestRetryNumber = true
      · obtain ⟨hcount, hcontent⟩ := hnew hbuildable
        exact absurd (isRouteCalculationScheduled_buildAdjLsa (s := u) hbuildable hcount hcontent)
          hasked
      · exact Or.inr (Or.inl ⟨Bool.eq_false_iff.2 hasked, hwaits.2.1,
          isBuildAdjLsaSheduled_buildAdjLsa hbuildable⟩)
  · -- Nothing waits for the flag that the build takes away
    let v : Nlsr := { u with isBuildAdjLsaSheduled := false }
    have hv : Followed { r with router := v } := by
      refine ⟨h.idle, h.off, ?_⟩
      rcases h.followed with hs | hs | hs
      · exact Or.inl hs
      · exact absurd hs hwaits
      · exact Or.inr (Or.inr hs)
    refine hv.of_steady (steady_buildAdjLsa (s := u) fun hsingle hasked hinstall => ?_)
    exact he.order hsingle hasked hwaits u.ownAdjLsa (hop.trans hinstall)

/-- A pending calculation is not lost when an Adjacency LSA is removed. -/
theorem steady_removeAdjLsa_of_scheduled {s : Nlsr} (h : s.isRouteCalculationScheduled = true)
    (key : Name) : Steady s (s.removeAdjLsa key) := by
  refine (onlyLsdb_removeAdjLsa s key).steady_of_scheduled ?_
  cases hfind : s.lsdb.findAdjLsa key with
  | none =>
    rw [removeAdjLsa_of_none hfind]
    exact h
  | some l =>
    rw [removeAdjLsa_of_some hfind]
    exact (onlyTables_removeEntries ..).isRouteCalculationScheduled.trans h

/-- Events other than a calculation and a build are steady. -/
theorem steady_fire (math : MathLib) {s : Nlsr} {id : Nat}
    (hcalculate : s.pendingAction id ≠ some .calculate)
    (hbuild : s.pendingAction id ≠ some .buildAdjLsa) : Steady s (s.fire math id) := by
  unfold fire
  cases hid : s.pendingAction id with
  | none => exact Steady.refl s
  | some action =>
    rw [hid] at hcalculate hbuild
    refine (steady_cancelEvent s (some id)).trans ?_
    cases action with
    | exprireOrRefreshNameLsa lsaKey seqNo => exact steady_exprireOrRefreshNameLsa ..
    | exprireOrRefreshAdjLsa lsaKey seqNo => exact steady_exprireOrRefreshAdjLsa ..
    | exprireOrRefreshCoordinateLsa lsaKey seqNo => exact steady_exprireOrRefreshCoordinateLsa ..
    | buildAdjLsa => exact absurd rfl hbuild
    | calculate => exact absurd rfl hcalculate
    | removeFibEntry name => exact steady_fibRemove ..

theorem followed_step (math : MathLib) {r : Asked} (h : r.Followed) {e : Event}
    (he : r.Keeps e) : (r.step math e).Followed := by
  cases e with
  | installNameLsa nlsa => exact h.of_steady (steady_installNameLsa _ _)
  | installAdjLsa alsa =>
    by_cases hwaits : r.Waits
    · exact h.of_waits hwaits (onlyLsdb_installAdjLsa _ _)
    · exact h.of_steady (steady_installAdjLsa fun hsingle hasked =>
        he.order hsingle hasked hwaits _ rfl)
  | installCoordinateLsa clsa => exact h.of_steady (steady_installCoordinateLsa _ _)
  | removeNameLsa key => exact h.of_steady (steady_removeNameLsa _ _)
  | removeAdjLsa key =>
    rcases he.removal key rfl with hasked | hwaits | hnone
    · exact h.of_steady (steady_removeAdjLsa_of_scheduled hasked key)
    · exact h.of_waits hwaits (onlyLsdb_removeAdjLsa _ key)
    · have hsame : Steady r.router (r.router.removeAdjLsa key) := by
        rw [removeAdjLsa_of_none hnone]
        exact Steady.refl _
      exact h.of_steady hsame
  | removeCoordinateLsa key => exact h.of_steady (steady_removeCoordinateLsa _ _)
  | fire id =>
    by_cases hcalculate : r.router.pendingAction id = some .calculate
    · exact followed_calculate h hcalculate
    by_cases hbuild : r.router.pendingAction id = some .buildAdjLsa
    · exact followed_buildAdjLsa h hbuild he
    have hdeclined : r.declinedAfter (.fire id) = r.declined := if_neg hcalculate
    have hfollowed := h.of_steady (steady_fire math hcalculate hbuild)
    rw [← hdeclined] at hfollowed
    exact hfollowed
  | buildAndInstallOwnNameLsa => exact h.of_steady (steady_buildAndInstallOwnNameLsa _)
  | buildAndInstallOwnCoordinateLsa => exact h.of_steady (steady_buildAndInstallOwnCoordinateLsa _)
  | publishRoutingUpdate => exact h.of_steady (steady_publishRoutingUpdate _)
  | scheduleAdjLsaBuild => exact h.of_steady (helloTurn_scheduleAdjLsaBuild _).steady
  | helloTimedOut interestName =>
    exact h.of_steady (helloTurn_processInterestTimedOut _ interestName).steady
  | helloValidated dataName => exact h.of_steady (helloTurn_onHelloValidated _ dataName).steady
  | registrationSuccess neighbor faceId =>
    exact h.of_steady (helloTurn_onRegistrationSuccess _ neighbor faceId).steady
  | registrationFailure neighbor =>
    exact h.of_steady (helloTurn_onRegistrationFailure _ neighbor).steady
  | faceDestroyed faceId => exact h.of_steady (helloTurn_onFaceDestroyed _ faceId).steady
  | advertise name =>
    refine h.of_steady (t := r.router.advertise name) ?_
    unfold advertise
    split_ifs
    · exact Steady.refl _
    · exact steady_rebuildNames _ _
  | withdraw name =>
    refine h.of_steady (t := r.router.withdraw name) ?_
    unfold withdraw
    split_ifs
    · exact steady_rebuildNames _ _
    · exact Steady.refl _
  | clock now => exact h.of_steady (steady_of_same rfl rfl rfl rfl rfl (fun _ => rfl) rfl)

theorem Followed.currentWhenIdle {r : Asked} (h : r.Followed) : CurrentWhenIdle r.router := by
  have hcurrent : r.router.isRouteCalculationScheduled = false →
      r.router.isBuildAdjLsaSheduled = false → r.router.TableCurrent := by
    intro hcalculation hbuild
    rcases h.followed with hasked | hwaits | hcurrent
    · exact absurd (hasked.symm.trans hcalculation) Bool.noConfusion
    · exact absurd (hwaits.2.2.symm.trans hbuild) Bool.noConfusion
    · exact hcurrent
  refine ⟨hcurrent, fun hcalculation hbuild hown dest => ?_⟩
  rw [hcurrent hcalculation hbuild dest, currentTable, if_neg (by rw [hown]; exact Bool.noConfusion)]
  rfl

/-- The start of a router. -/
def first (confParam : ConfParameter) (adjacencyList : AdjacencyList)
    (namePrefixList : NamePrefixList) (seqFile : Option UInt64) (now : TimePoint) : Asked where
  router := (start confParam adjacencyList namePrefixList seqFile now).initializeNlsr

theorem sameFaces_freeLinks (s : Nlsr) :
    SameFaces s (s.setAdjacencyList (freeLinks s.adjacencyList)) := by
  intro n
  show ((freeLinks s.adjacencyList).getAdjacent n).connectingFaceUri = _
  rw [AdjacencyList.getAdjacent, freeLinks, KeyedList.find?_mapValues, AdjacencyList.getAdjacent]
  cases s.adjacencyList.find? n <;> rfl

theorem followed_first (math : MathLib) {confParam : ConfParameter}
    (hoff : confParam.hyperbolicState = .off) (adjacencyList : AdjacencyList)
    (namePrefixList : NamePrefixList) (seqFile : Option UInt64) (now : TimePoint) :
    (first confParam adjacencyList namePrefixList seqFile now).Followed := by
  refine initializeNlsr_of_step (P := fun s => Followed { router := s }) math ?_ ?_ ?_ ?_
  · exact fun s hs => hs.of_steady (steady_buildAndInstallOwnNameLsa s)
  · exact fun s hs => hs.of_steady (steady_buildAndInstallOwnCoordinateLsa s)
  · exact fun s hs => hs.of_steady
      (steady_of_same rfl rfl rfl rfl rfl (sameFaces_freeLinks s) rfl)
  · exact ⟨rfl, hoff, Or.inr (Or.inr fun _ => rfl)⟩

end Asked

open Nlsr

/-- **No recalculation is lost** in a run in which no declined calculation meets a build that
changes nothing: when neither a calculation nor a build is pending, the routing table is the one
of the Adjacency LSDB. -/
theorem no_lost_recalculation (math : MathLib) (confParam : ConfParameter)
    (adjacencyList : AdjacencyList) (namePrefixList : NamePrefixList) (seqFile : Option UInt64)
    (now : TimePoint) (hoff : confParam.hyperbolicState = .off) (es : List Event)
    (hes : Meets (Asked.step math) Asked.Keeps
      (Asked.first confParam adjacencyList namePrefixList seqFile now) es) :
    Along (Asked.step math) (fun r => CurrentWhenIdle r.router)
      (Asked.first confParam adjacencyList namePrefixList seqFile now) es := by
  have hfirst := Asked.followed_first math hoff adjacencyList namePrefixList seqFile now
  have hstep : ∀ r e, Asked.Followed r → r.Keeps e → (r.step math e).Followed :=
    fun r e hr he => Asked.followed_step math hr he
  exact (along_of_meets hstep hfirst hes).imp fun r hr => hr.currentWhenIdle

/-- The LSA of `n`, which expires after an hour. -/
def lsaOfNeighbor : AdjLsa := { lsaOfN with expirationTimePoint := seconds 3600 }

/-- Both neighbours have answered and the routing table is calculated when the LSA of `n`
arrives. -/
def requesting : List Event :=
  [.clock (seconds 5), .helloValidated (helloReply "m"), .helloValidated (helloReply "n"),
    .clock (seconds 10), .fire 2, .clock (seconds 25), .fire 3,
    .clock (seconds 100), .installAdjLsa lsaOfNeighbor]

/-- Neighbour `n` is lost and the calculation is declined for a build, which leaves `n` out. -/
def asking : List Event :=
  requesting ++ [.clock (seconds 112), .helloTimedOut (helloInterest "n"),
    .clock (seconds 115), .fire 5, .clock (seconds 117), .fire 7, .clock (seconds 132), .fire 8]

/-- Neighbour `n` is lost and comes back, and the calculation is declined for a build, which
changes nothing. -/
def losing : List Event :=
  requesting ++ [.clock (seconds 112), .helloTimedOut (helloInterest "n"),
    .clock (seconds 114), .helloValidated (helloReply "n"), .clock (seconds 115), .fire 5,
    .clock (seconds 117), .fire 7]

namespace Asked

instance (r : Asked) : Decidable r.Waits := inferInstanceAs (Decidable (_ ∧ _ ∧ _))

/-- Without a declined calculation, and with several faces per prefix, an event that removes no
Adjacency LSA loses no request. -/
theorem keeps_of_not_waits {r : Asked} {e : Event} (hremoval : ∀ key, e ≠ .removeAdjLsa key)
    (h : r.router.confParam.maxFacesPerPrefix ≠ 1 ∧ ¬ r.Waits) : r.Keeps e where
  build hwaits := absurd hwaits h.2
  order hsingle := absurd hsingle h.1
  removal key hkey := absurd hkey (hremoval key)

theorem meets_of_not_waits {math : MathLib} {r : Asked} {es : List Event}
    (hremoval : ∀ e ∈ es, ∀ key, e ≠ .removeAdjLsa key)
    (h : Meets (step math) (fun r _ => r.router.confParam.maxFacesPerPrefix ≠ 1 ∧ ¬ r.Waits) r es) :
    Meets (step math) Keeps r es := by
  induction es generalizing r with
  | nil => trivial
  | cons e es ih =>
    exact ⟨keeps_of_not_waits (hremoval e List.mem_cons_self) h.1,
      ih (fun e he => hremoval e (List.mem_cons_of_mem _ he)) h.2⟩

end Asked

theorem meets_asking : Meets (Asked.step ⟨0, id, id, id, id⟩) Asked.Keeps
    (Asked.first impatient silentNeighbors KeyedList.empty none 0) asking := by
  let r₀ := Asked.first impatient silentNeighbors KeyedList.empty none 0
  -- One event is met while a declined calculation waits: the time of the build, and the build
  let before : List Event := requesting ++ [.clock (seconds 112), .helloTimedOut (helloInterest "n"),
    .clock (seconds 115), .fire 5]
  let r := run (Asked.step ⟨0, id, id, id, id⟩) r₀ (before ++ [.clock (seconds 117)])
  have hclock : (run (Asked.step ⟨0, id, id, id, id⟩) r₀ before).Keeps (.clock (seconds 117)) :=
    ⟨fun _ _ => nofun, fun hsingle => absurd hsingle (by decide +kernel), nofun⟩
  have hbuild : r.Keeps (.fire 7) := by
    refine ⟨fun _ id hid _ _ => ?_, fun hsingle => absurd hsingle (by decide +kernel), nofun⟩
    obtain rfl := Event.fire.inj hid
    exact ⟨by decide +kernel, fun _ => by decide +kernel⟩
  have hbefore : Meets (Asked.step ⟨0, id, id, id, id⟩) Asked.Keeps r₀ before :=
    Asked.meets_of_not_waits (by simp [before, requesting]) (by decide +kernel)
  have hafter : Meets (Asked.step ⟨0, id, id, id, id⟩) Asked.Keeps
      (r.step ⟨0, id, id, id, id⟩ (.fire 7)) [.clock (seconds 132), .fire 8] :=
    Asked.meets_of_not_waits (by simp) (by decide +kernel)
  have hall : Meets (Asked.step ⟨0, id, id, id, id⟩) Asked.Keeps r₀
      (before ++ [.clock (seconds 117)] ++ (.fire 7 :: [.clock (seconds 132), .fire 8])) :=
    meets_append.2 ⟨meets_append.2 ⟨hbefore, hclock, trivial⟩, hbuild, hafter⟩
  exact hall

/-- The declined calculation is asked for again, and `n` is gone from the table. -/
theorem no_lost_recalculation_asking :
    (run (Asked.step ⟨0, id, id, id, id⟩)
      (Asked.first impatient silentNeighbors KeyedList.empty none 0) asking).router.TableCurrent :=
  (no_lost_recalculation ⟨0, id, id, id, id⟩ impatient silentNeighbors KeyedList.empty none 0 rfl
    asking meets_asking).last.current (by decide +kernel) (by decide +kernel)

/-- A declined calculation meets a build that advertises what is stored; nothing is pending then,
and there is no route to `n`. -/
theorem not_no_lost_recalculation :
    let s := run (step ⟨0, id, id, id, id⟩) flappingStart losing
    s.isRouteCalculationScheduled = false ∧ s.isBuildAdjLsaSheduled = false ∧
      (∀ e ∈ s.scheduler.events.toList, e.action ≠ .calculate ∧ e.action ≠ .buildAdjLsa) ∧
      ¬ s.CurrentWhenIdle := by
  intro s
  have hcalculation : s.isRouteCalculationScheduled = false := by decide +kernel
  have hbuild : s.isBuildAdjLsaSheduled = false := by decide +kernel
  refine ⟨hcalculation, hbuild, by decide +kernel, fun h => ?_⟩
  have hcurrent := h.current hcalculation hbuild [⟨"n"⟩]
  exact absurd hcurrent (by decide +kernel)

end LinkState
