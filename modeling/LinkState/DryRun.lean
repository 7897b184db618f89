import LinkState.RoutingTable

/-!
# Dry runs of hyperbolic routing

A dry run computes the hyperbolic routes beside the link-state routes, for the log only.
`liveView` forgets what only a dry run may touch: the kind of hyperbolic routing and the dry
table. Every operation on the way from the calculation to the forwarder commutes with it, so two
routers with one view issue the same commands and keep the same tables.

`dryRun_leaves_forwarding`: a calculation with the dry run and one without end in the same view.
-/

namespace LinkState

namespace Nlsr

/-- The state without the kind of hyperbolic routing and without the dry table. -/
def liveView (s : Nlsr) : Nlsr :=
  { s with
    confParam := { s.confParam with hyperbolicState := .off }
    routingTable := { s.routingTable with dryTable := KeyedList.empty } }

def setHyperbolicState (s : Nlsr) (hyperbolicState : HyperbolicState) : Nlsr :=
  { s with confParam := { s.confParam with hyperbolicState } }

theorem foldl_liveView {α : Type*} {f : Nlsr → α → Nlsr}
    (hf : ∀ (s : Nlsr) a, f s.liveView a = (f s a).liveView) (l : List α) (s : Nlsr) :
    l.foldl f s.liveView = (l.foldl f s).liveView :=
  List.foldl_hom liveView hf

/-! ## The FIB -/

theorem registerPrefix_liveView (s : Nlsr) (namePrefix : Name) (faceUri : String) (faceCost : Nat)
    (timeout : Duration) (times : UInt8) :
    s.liveView.registerPrefix namePrefix faceUri faceCost timeout times =
      (s.registerPrefix namePrefix faceUri faceCost timeout times).liveView := by
  unfold registerPrefix
  dsimp only
  rw [apply_ite liveView]
  rfl

theorem unregisterPrefix_liveView (s : Nlsr) (namePrefix : Name) (faceUri : String) :
    s.liveView.unregisterPrefix namePrefix faceUri =
      (s.unregisterPrefix namePrefix faceUri).liveView := by
  unfold unregisterPrefix
  dsimp only
  rw [apply_ite liveView]
  rfl

theorem unregisterIfUpdatable_liveView (s : Nlsr) (name : Name) (faceUri : String) :
    s.liveView.unregisterIfUpdatable name faceUri =
      (s.unregisterIfUpdatable name faceUri).liveView := by
  unfold unregisterIfUpdatable
  rw [unregisterPrefix_liveView, apply_ite liveView]
  rfl

theorem fibRemove_liveView (s : Nlsr) (name : Name) :
    s.liveView.fibRemove name = (s.fibRemove name).liveView := by
  have htable : s.liveView.fib.table = s.fib.table := rfl
  unfold fibRemove
  rw [htable]
  cases s.fib.table.find? name with
  | none => rfl
  | some entry =>
    dsimp only
    rw [foldl_liveView fun s nh => unregisterIfUpdatable_liveView ..]
    rfl

theorem addNextHops_liveView (s : Nlsr) (entry : FibEntry) (hops : NexthopList) :
    s.liveView.addNextHopsToFibEntryAndNfd entry hops =
      ((s.addNextHopsToFibEntryAndNfd entry hops).1.liveView,
        (s.addNextHopsToFibEntryAndNfd entry hops).2) := by
  refine Prod.ext (foldl_liveView (fun s nh => ?_) hops.toList s) rfl
  rw [registerPrefix_liveView, apply_ite liveView]
  rfl

theorem removeOldNextHops_liveView (s : Nlsr) (entry : FibEntry) (installed : NexthopList) :
    s.liveView.removeOldNextHopsFromFibEntryAndNfd entry installed =
      ((s.removeOldNextHopsFromFibEntryAndNfd entry installed).1.liveView,
        (s.removeOldNextHopsFromFibEntryAndNfd entry installed).2) := by
  unfold removeOldNextHopsFromFibEntryAndNfd
  let view (p : Nlsr × FibEntry) : Nlsr × FibEntry := (p.1.liveView, p.2)
  refine @List.foldl_hom _ _ _ view _ _ _ (s, entry) ?_
  intro p nh
  dsimp only
  rw [unregisterIfUpdatable_liveView]
  split_ifs <;> rfl

theorem fibUpdate_liveView (s : Nlsr) (name : Name) (allHops : NexthopList) :
    s.liveView.fibUpdate name allHops = (s.fibUpdate name allHops).liveView := by
  have hhops : s.liveView.hopsToInstall allHops = s.hopsToInstall allHops := rfl
  have htable : s.liveView.fib.table = s.fib.table := rfl
  unfold fibUpdate
  rw [hhops, htable]
  cases s.fib.table.find? name with
  | none =>
    dsimp only
    split_ifs
    · rfl
    · rw [addNextHops_liveView]
      generalize s.addNextHopsToFibEntryAndNfd _ _ = added
      rfl
  | some entry =>
    dsimp only
    split_ifs
    · exact fibRemove_liveView s name
    · rw [addNextHops_liveView]
      generalize s.addNextHopsToFibEntryAndNfd _ _ = added
      rw [removeOldNextHops_liveView]
      generalize added.1.removeOldNextHopsFromFibEntryAndNfd _ _ = kept
      rfl

theorem fibWriteLog_liveView (s : Nlsr) : s.liveView.fibWriteLog = s.fibWriteLog.liveView := rfl

/-! ## The name prefix table -/

theorem addEntryRte_liveView (s : Nlsr) (name : Name) (rte : RoutingTableEntry) :
    s.liveView.addEntryRte name rte = (s.addEntryRte name rte).liveView := by
  have htable : s.liveView.namePrefixTable = s.namePrefixTable := rfl
  unfold addEntryRte
  rw [htable]
  cases s.namePrefixTable.find? name with
  | none =>
    dsimp only
    rw [apply_ite liveView, ← fibUpdate_liveView]
    rfl
  | some it =>
    dsimp only
    rw [apply_ite liveView, ← fibUpdate_liveView, ← fibRemove_liveView]
    rfl

theorem addEntry_liveView (s : Nlsr) (name destRouter : Name) :
    s.liveView.addEntry name destRouter = (s.addEntry name destRouter).liveView :=
  addEntryRte_liveView s name (s.routingTableEntryOf destRouter)

theorem updateWithNewRoute_liveView (s : Nlsr) :
    s.liveView.updateWithNewRoute = s.updateWithNewRoute.liveView :=
  foldl_liveView (fun s prefixEntry =>
    foldl_liveView (fun _ _ => addEntry_liveView ..) prefixEntry.rteList.toList s)
    s.namePrefixTable.toList s

/-! ## The calculation -/

theorem routingTableWriteLog_liveView (s : Nlsr) :
    s.liveView.routingTableWriteLog = s.routingTableWriteLog.liveView := by
  have hoff : s.liveView.routingTableWriteLog =
      s.liveView.setRTable s.routingTable.rTable.sortAllHops := rfl
  rw [hoff]
  unfold routingTableWriteLog
  dsimp only
  split_ifs <;> rfl

/-- No live hyperbolic routing. -/
def LinkStateRouted (s : Nlsr) : Prop :=
  s.confParam.hyperbolicState = .off ∨ s.confParam.hyperbolicState = .dryRun

theorem calculateTables_of_off {math : MathLib} {s : Nlsr}
    (h : s.confParam.hyperbolicState = .off) :
    s.calculateTables math = s.calculateLsRoutingTable := by
  simp [calculateTables, calculateLsRoutingTable, setRTable, h]

theorem calculateTables_of_dryRun {math : MathLib} {s : Nlsr}
    (h : s.confParam.hyperbolicState = .dryRun) :
    s.calculateTables math = s.calculateLsRoutingTable.calculateHypDryRoutingTable math := by
  simp [calculateTables, calculateLsRoutingTable, setRTable, h]

/-- The dry run fills the dry table and nothing else: the live table is the one of a router with
hyperbolic routing off. -/
theorem calculateTables_liveView (math : MathLib) {s : Nlsr} (h : s.LinkStateRouted) :
    s.liveView.calculateTables math = (s.calculateTables math).liveView := by
  have hls : s.liveView.calculateLsRoutingTable = s.calculateLsRoutingTable.liveView := rfl
  rw [calculateTables_of_off (s := s.liveView) rfl, hls]
  rcases h with h | h
  · rw [calculateTables_of_off h]
  · rw [calculateTables_of_dryRun h, calculateHypDryRoutingTable_eq]
    rfl

theorem newRoutingTable_liveView (math : MathLib) {s : Nlsr} (h : s.LinkStateRouted) :
    s.liveView.newRoutingTable math =
      { s.newRoutingTable math with dryTable := KeyedList.empty } := by
  let cleared := s.clearRoutingTable.clearDryRoutingTable
  have hcleared : s.liveView.clearRoutingTable.clearDryRoutingTable = cleared.liveView := rfl
  have htables := calculateTables_liveView math (s := cleared) h
  have hown : s.liveView.ownAdjLsaExists = s.ownAdjLsaExists := rfl
  unfold newRoutingTable
  rw [hcleared, htables, hown]
  split_ifs <;> rfl

theorem useRoutingTable_liveView (s : Nlsr) (rt : RoutingTable) :
    s.liveView.useRoutingTable { rt with dryTable := KeyedList.empty } =
      (s.useRoutingTable rt).liveView := by
  let used : Nlsr := { s with routingTable := rt }
  have hused : ({ s.liveView with routingTable := { rt with dryTable := KeyedList.empty } } :
      Nlsr) = used.liveView := rfl
  unfold useRoutingTable
  rw [hused, updateWithNewRoute_liveView, routingTableWriteLog_liveView, fibWriteLog_liveView]

theorem calculate_liveView (math : MathLib) {s : Nlsr} (h : s.LinkStateRouted) :
    s.liveView.calculate math = (s.calculate math).liveView := by
  cases hidle : s.isRoutingTableCalculating with
  | true =>
    rw [calculate_of_busy hidle, calculate_of_busy (s := s.liveView) hidle]
    unfold scheduleRoutingTableCalculation
    rw [apply_ite liveView]
    rfl
  | false =>
    by_cases hdeclined : s.ownAdjLsaExists = true ∧ s.isBuildAdjLsaSheduled = true
    · rw [calculate_of_declined hidle hdeclined.1 hdeclined.2,
        calculate_of_declined (s := s.liveView) hidle hdeclined.1 hdeclined.2]
      rfl
    · have hcan : s.CanCalculate :=
        ⟨hidle, fun hown => Bool.eq_false_iff.2 fun hbuild => hdeclined ⟨hown, hbuild⟩⟩
      let busy : Nlsr := { s with isRoutingTableCalculating := true }
      have hbusy : ({ s.liveView with isRoutingTableCalculating := true } : Nlsr) =
          busy.liveView := rfl
      have hnew := newRoutingTable_liveView math (s := busy) h
      rw [calculate_of_canCalculate hcan, calculate_of_canCalculate (s := s.liveView) hcan]
      dsimp only
      rw [hbusy, hnew, useRoutingTable_liveView]
      rfl

/-! ## Noninterference -/

theorem liveView_setHyperbolicState (s : Nlsr) (st : HyperbolicState) :
    (s.setHyperbolicState st).liveView = s.liveView := rfl

/-- **A dry run does not touch forwarding.** From one state, a calculation with the dry run and
one with hyperbolic routing off end with the same routing table, name prefix table and FIB, have
sent the same commands, and differ in nothing but the dry table. -/
theorem dryRun_leaves_forwarding (math : MathLib) (s : Nlsr) :
    let dry := (s.setHyperbolicState .dryRun).calculate math
    let off := (s.setHyperbolicState .off).calculate math
    dry.routingTable.rTable = off.routingTable.rTable ∧
      dry.namePrefixTable = off.namePrefixTable ∧
      dry.fib.table = off.fib.table ∧
      dry.fib.commands = off.fib.commands ∧
      dry.liveView = off.liveView := by
  intro dry off
  have hview : dry.liveView = off.liveView := by
    rw [← calculate_liveView math (s := s.setHyperbolicState .dryRun) (Or.inr rfl),
      ← calculate_liveView math (s := s.setHyperbolicState .off) (Or.inl rfl),
      liveView_setHyperbolicState, liveView_setHyperbolicState]
  refine ⟨?_, ?_, ?_, ?_, hview⟩
  · show dry.liveView.routingTable.rTable = off.liveView.routingTable.rTable
    rw [hview]
  · show dry.liveView.namePrefixTable = off.liveView.namePrefixTable
    rw [hview]
  · show dry.liveView.fib.table = off.liveView.fib.table
    rw [hview]
  · show dry.liveView.fib.commands = off.liveView.fib.commands
    rw [hview]

end Nlsr

end LinkState
