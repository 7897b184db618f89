import LinkState.CalculatorMatrix
import LinkState.DijkstraRun

/-!
# The arrays of a Dijkstra run

The queue of a run holds routers, so what is read there is an index into the other arrays; and a
parent is -12345 or a router, so following parents stays in the array. With this every function of a
run does in its arrays what the function of the same name does on numbers.

* `HoldsQueue`, `HoldsPaths` and `HoldsState` say what the arrays hold.
* A queue is walked once and the parents lead to the source, so the turns of both loops are enough.
-/

namespace LinkState

open RoutingTableCalculator LinkStateRoutingTableCalculator

/-- The queue is `q`, and its entries are routers. -/
structure HoldsQueue (Q : Cells Int) (n : Nat) (q : Nat → Nat) : Prop where
  holds : Q.Holds n (fun _ => True) fun i => (q i : Int)
  lt : ∀ i, i < n → q i < n

/-- The number that stands for a router or for none. -/
def numberOrNone : Option Nat → Int
  | some v => v
  | none => -12345

theorem numberOrNone_some_ne (v : Nat) : numberOrNone (some v) ≠ -12345 := by
  have hnonneg := Int.natCast_nonneg v
  rw [numberOrNone]
  omega

/-- The distances and the parents are those of `t`. -/
structure HoldsPaths (distance : Cells Nat) (parent : Cells Int) (n : Nat) (t : DijkstraState) :
    Prop where
  distance : distance.Holds n (fun _ => True) t.distance
  parent : parent.Holds n (fun _ => True) fun v => numberOrNone (t.parent v)
  parent_lt : ∀ v, v < n → ∀ p, t.parent v = some p → p < n

structure HoldsState (s : DijkstraMemory) (n : Nat) (t : DijkstraState) : Prop
    extends HoldsPaths s.distance s.parent n t where
  queue : HoldsQueue s.queue n t.queue
  head : s.head = t.head

namespace CalculatorMemory

variable {n : Nat} {m : AdjMatrix} {b : Cells (Cells Nat)} {c : CalculatorMemory}

/-! ## The queue -/

theorem runs_swap {Q : Cells Int} {q : Nat → Nat} (h : HoldsQueue Q n q) {i j : Nat} (hi : i < n)
    (hj : j < n) : Runs (do
      let tempU ← Q.read j
      let Q ← Q.write j (← Q.read i)
      Q.write i tempU) (HoldsQueue · n (swapQueue q i j)) := by
  refine (h.holds.read hj trivial).bind_eq ?_
  refine (h.holds.read hi trivial).bind_eq ?_
  refine (h.holds.write hj _).bind fun Q₁ hQ₁ => (hQ₁.write hi _).imp fun Q₂ hQ₂ => ⟨?_, ?_⟩
  · refine hQ₂.congr fun k _ _ => ⟨Or.inr (Or.inr trivial), ?_⟩
    simp only [Function.update_apply, swapQueue]
    split_ifs <;> rfl
  · intro k hk
    rw [swapQueue]
    split_ifs
    · exact h.lt j hj
    · exact h.lt i hi
    · exact h.lt k hk

theorem runs_sortStep {Q : Cells Int} {q : Nat → Nat} (h : HoldsQueue Q n q) {dist : Cells Nat}
    {d : Nat → Nat} (hdist : dist.Holds n (fun _ => True) d) {i j : Nat} (hi : i < n)
    (hj : j < n) : Runs (sortStep dist i j Q)
      (HoldsQueue · n (if d (q j) < d (q i) then swapQueue q i j else q)) := by
  unfold sortStep
  refine (h.holds.read hj trivial).bind_eq ?_
  refine (hdist.read (h.lt j hj) trivial).bind_eq ?_
  refine (h.holds.read hi trivial).bind_eq ?_
  refine (hdist.read (h.lt i hi) trivial).bind_eq ?_
  by_cases hlt : d (q j) < d (q i)
  · rw [if_pos hlt, if_pos hlt]
    exact runs_swap h hi hj
  · rw [if_neg hlt, if_neg hlt]
    exact Runs.ok h

theorem runs_sortQueueByDistance {Q : Cells Int} {q : Nat → Nat} (h : HoldsQueue Q n q)
    {dist : Cells Nat} {d : Nat → Nat} (hdist : dist.Holds n (fun _ => True) d) (start : Nat) :
    Runs (sortQueueByDistance Q dist start n)
      (HoldsQueue · n (LinkStateRoutingTableCalculator.sortQueueByDistance q d start n)) := by
  refine runs_loopM_sim (R := fun Q q => HoldsQueue Q n q) (fun i Q q _ hi hQ => ?_) h
  refine runs_loopM_sim (R := fun Q q => HoldsQueue Q n q) (fun j Q q _ hj hQ => ?_) hQ
  exact runs_sortStep hQ hdist hi hj

theorem runs_isNotExplored {Q : Cells Int} {q : Nat → Nat} (h : HoldsQueue Q n q) (v start : Nat) :
    Runs (isNotExplored Q v start n)
      (· = LinkStateRoutingTableCalculator.isNotExplored q v start n) := by
  unfold isNotExplored LinkStateRoutingTableCalculator.isNotExplored
  refine runs_anyM fun i hi => ?_
  rw [List.mem_range'_1] at hi
  refine (h.holds.read (by omega) trivial).bind_eq ?_
  exact Runs.ok (by simp)

/-! ## The run -/

/-- A path over `u` is taken. -/
theorem runs_relaxed {s : DijkstraMemory} {t : DijkstraState} (h : HoldsState s n t)
    {u v d : Nat} (hu : u < n) (hv : v < n) : Runs (do
      let distance ← s.distance.write v d
      let parent ← s.parent.write v u
      return { s with distance, parent })
      (HoldsState · n { t with
        distance := fun x => if x = v then d else t.distance x
        parent := fun x => if x = v then some u else t.parent x }) := by
  refine (h.distance.write hv d).bind fun distance hd => ?_
  refine (h.parent.write hv u).bind fun parent hp => Runs.ok ⟨⟨?_, ?_, ?_⟩, h.queue, h.head⟩
  · refine hd.congr fun x _ _ => ⟨Or.inr trivial, ?_⟩
    rw [Function.update_apply]
  · refine hp.congr fun x _ _ => ⟨Or.inr trivial, ?_⟩
    rw [Function.update_apply]
    dsimp only
    split_ifs <;> rfl
  · intro x hx p hxp
    dsimp only at hxp
    split_ifs at hxp
    · rw [← Option.some.inj hxp]
      exact hu
    · exact h.parent_lt x hx p hxp

theorem runs_relax (hm : HoldsMatrix b n m) {s : DijkstraMemory} {t : DijkstraState}
    (h : HoldsState s n t) {u v : Nat} (hu : u < n) (hv : v < n) :
    Runs (relax n b u v s) (HoldsState · n (LinkStateRoutingTableCalculator.relax n m u v t)) := by
  unfold relax LinkStateRoutingTableCalculator.relax
  have hedge := hm.readAt hu hv
  have hfrom := h.distance.read hu trivial
  have hto := h.distance.read hv trivial
  refine hedge.bind_eq ?_
  by_cases hpos : m u v > 0
  · rw [if_pos hpos]
    refine (runs_isNotExplored h.queue v (s.head + 1)).bind_eq ?_
    by_cases hopen : LinkStateRoutingTableCalculator.isNotExplored t.queue v (s.head + 1) n = true
    · rw [if_pos hopen]
      refine hfrom.bind_eq ?_
      refine hedge.bind_eq ?_
      refine hto.bind_eq ?_
      by_cases hlt : t.distance u + m u v < t.distance v
      · rw [if_pos hlt, if_pos ⟨hpos, h.head ▸ hopen, hlt⟩]
        refine hfrom.bind_eq ?_
        refine hedge.bind_eq ?_
        exact runs_relaxed h hu hv
      · rw [if_neg hlt, if_neg fun hc => hlt hc.2.2]
        exact Runs.ok h
    · rw [if_neg hopen, if_neg fun hc => hopen (h.head ▸ hc.2.1)]
      exact Runs.ok h
  · rw [if_neg hpos, if_neg fun hc => hpos hc.1]
    exact Runs.ok h

/-- The inner loop leaves the head alone. -/
theorem head_relax (n : Nat) (m : AdjMatrix) (u v : Nat) (t : DijkstraState) :
    (LinkStateRoutingTableCalculator.relax n m u v t).head = t.head := by
  unfold LinkStateRoutingTableCalculator.relax
  split_ifs <;> rfl

theorem head_explore (n : Nat) (m : AdjMatrix) (t : DijkstraState) :
    (LinkStateRoutingTableCalculator.explore n m t).head = t.head + 1 := by
  have hloop : (loop 0 n (fun v t' => LinkStateRoutingTableCalculator.relax n m
      (t.queue t.head) v t') t).head = t.head :=
    loop_preserves (P := fun t' : DijkstraState => t'.head = t.head) rfl
      fun v t' _ _ ht' => (head_relax n m _ v t').trans ht'
  exact congrArg (· + 1) hloop

theorem runs_explore (hm : HoldsMatrix b n m) {s : DijkstraMemory} {t : DijkstraState}
    (h : HoldsState s n t) (hhead : t.head < n) :
    Runs (explore n b (t.queue t.head) s)
      (HoldsState · n (LinkStateRoutingTableCalculator.explore n m t)) := by
  unfold explore LinkStateRoutingTableCalculator.explore
  refine (runs_loopM_sim (R := fun s t => HoldsState s n t)
    (f := fun v t' => LinkStateRoutingTableCalculator.relax n m (t.queue t.head) v t')
    (fun v s t' _ hv hs => ?_) h).bind fun s' hs' => ?_
  · exact runs_relax hm hs (h.queue.lt _ hhead) hv
  · rw [hs'.head]
    refine (runs_sortQueueByDistance hs'.queue hs'.distance _).bind fun queue hqueue => ?_
    exact Runs.ok ⟨⟨hs'.distance, hs'.parent, hs'.parent_lt⟩, hqueue, rfl⟩

/-- Every turn moves the head on. -/
theorem runs_dijkstraLoop (hm : HoldsMatrix b n m) {turns : Nat} {s : DijkstraMemory}
    {t : DijkstraState} (h : HoldsState s n t) (hturns : n ≤ t.head + turns) :
    Runs (dijkstraLoop n b (turns + 1) s)
      (HoldsState · n (LinkStateRoutingTableCalculator.dijkstraLoop n m turns t)) := by
  induction turns generalizing s t with
  | zero =>
    rw [dijkstraLoop, if_neg (by rw [h.head]; omega)]
    exact Runs.ok h
  | succ turns ih =>
    rw [dijkstraLoop, LinkStateRoutingTableCalculator.dijkstraLoop, h.head]
    by_cases hhead : t.head < n
    · rw [if_pos hhead]
      refine (h.queue.holds.read hhead trivial).bind_eq ?_
      refine (h.distance.read (h.queue.lt _ hhead) trivial).bind_eq ?_
      by_cases hinf : t.distance (t.queue t.head) = infDistance
      · rw [if_pos hinf, if_neg fun hc => hc.2 hinf]
        exact Runs.ok h
      · rw [if_neg hinf, if_pos ⟨hhead, hinf⟩]
        refine (runs_explore hm h hhead).bind fun s' hs' => ih hs' ?_
        rw [head_explore]
        omega
    · rw [if_neg hhead, if_neg fun hc => hhead hc.1]
      exact Runs.ok h

/-- The arrays a run starts with: nothing is reached yet. -/
theorem runs_initiate (hparent : c.parent.size = c.nRouters)
    (hdistance : c.distance.size = c.nRouters) :
    Runs c.initiate (HoldsState · c.nRouters ⟨id, 0, fun _ => infDistance, fun _ => none⟩) := by
  unfold initiate
  refine (runs_loopM (P := fun i s =>
    s.parent.Holds c.nRouters (· < i) (fun _ => emptyParent) ∧
    s.distance.Holds c.nRouters (· < i) (fun _ => infDistance) ∧
    s.queue.Holds c.nRouters (· < i) (fun k => (k : Int)) ∧ s.head = 0)
    (Nat.zero_le _) ?_ ?_).imp fun s hs => ?_
  · exact ⟨Cells.holds_zero hparent _, Cells.holds_zero hdistance _,
      Cells.holds_zero (Cells.size_alloc _) _, rfl⟩
  · rintro i s - hi ⟨hp, hd, hq, hhead⟩
    refine (hp.write_next hi).bind fun parent hparent => ?_
    refine (hd.write_next hi).bind fun distance hdistance => ?_
    exact (hq.write_next hi).bind fun queue hqueue =>
      Runs.ok ⟨hparent, hdistance, hqueue, hhead⟩
  · obtain ⟨hp, hd, hq, hhead⟩ := hs
    refine ⟨⟨?_, ?_, fun _ _ _ h => ?_⟩, ⟨?_, fun _ hi => hi⟩, hhead⟩
    · exact hd.congr fun k hk _ => ⟨hk, rfl⟩
    · exact hp.congr fun k hk _ => ⟨hk, rfl⟩
    · exact absurd h (Option.some_ne_none _).symm
    · exact hq.congr fun k hk _ => ⟨hk, rfl⟩

/-- **A run of Dijkstra in memory.** -/
theorem runs_doDijkstraPathCalculation (hm : HoldsMatrix c.adjMatrix c.nRouters m)
    (hparent : c.parent.size = c.nRouters) (hdistance : c.distance.size = c.nRouters)
    {source : Nat} (hsource : source < c.nRouters) :
    Runs (c.doDijkstraPathCalculation source) fun c' => ∃ distance parent,
      c' = { c with distance, parent } ∧ HoldsPaths distance parent c.nRouters
        (LinkStateRoutingTableCalculator.doDijkstraPathCalculation c.nRouters m source) := by
  unfold doDijkstraPathCalculation
  have hfound : (source : Int) ≠ noMappingNum := by rw [noMappingNum]; omega
  refine (runs_initiate hparent hdistance).bind ?_
  rintro ⟨Q, head, distance, parent⟩ hs
  obtain rfl : head = 0 := hs.head
  rw [if_pos hfound]
  refine (hs.distance.write hsource 0).bind fun distance hd => ?_
  have hinit : distance.Holds c.nRouters (fun _ => True)
      (dijkstraInit c.nRouters source).distance :=
    hd.congr fun v _ _ => ⟨Or.inr trivial, Function.update_apply _ _ _ _⟩
  refine (runs_sortQueueByDistance hs.queue hinit 0).bind fun queue hqueue => ?_
  have hstate : HoldsState ⟨queue, 0, distance, parent⟩ c.nRouters
      (dijkstraInit c.nRouters source) :=
    ⟨⟨hinit, hs.parent, hs.parent_lt⟩, hqueue, rfl⟩
  refine (runs_dijkstraLoop hm hstate (Nat.le_add_left _ _)).bind fun s' hs' => ?_
  exact Runs.ok ⟨s'.distance, s'.parent, rfl, hs'.toHoldsPaths⟩

/-! ## The next hops -/

section Paths

variable {distance : Cells Nat} {parent : Cells Int} {t : DijkstraState}

/-- One turn more than there are parents on the way. -/
theorem runs_followParents (h : HoldsPaths distance parent n t) {turns dest : Nat}
    (hdest : dest < n) {nextHop : Option Nat}
    (hend : t.parent (LinkStateRoutingTableCalculator.followParents t.parent turns dest
      nextHop).1 = none) :
    Runs (followParents parent (turns + 1) dest (numberOrNone nextHop))
      (· = let r := LinkStateRoutingTableCalculator.followParents t.parent turns dest nextHop
        ((r.1 : Int), numberOrNone r.2)) := by
  induction turns generalizing dest nextHop with
  | zero =>
    rw [followParents]
    refine (h.parent.read hdest trivial).bind_eq ?_
    have hnone : t.parent dest = none := hend
    rw [hnone, if_neg fun hne => hne rfl]
    exact Runs.ok rfl
  | succ turns ih =>
    rw [followParents]
    rw [LinkStateRoutingTableCalculator.followParents] at hend ⊢
    refine (h.parent.read hdest trivial).bind_eq ?_
    cases hp : t.parent dest with
    | none =>
      rw [if_neg fun hne => hne rfl]
      exact Runs.ok rfl
    | some p =>
      rw [hp] at hend
      have hsome : numberOrNone (some p) ≠ emptyParent := numberOrNone_some_ne p
      rw [if_pos hsome]
      exact ih (h.parent_lt dest hdest p hp) hend

theorem runs_getLsNextHop (h : HoldsPaths c.distance c.parent c.nRouters t)
    (hends : ∀ dest nextHop, t.parent (LinkStateRoutingTableCalculator.followParents t.parent
      c.nRouters dest nextHop).1 = none) {dest : Nat} (hdest : dest < c.nRouters) (source : Nat) :
    Runs (c.getLsNextHop dest source) (· = numberOrNone
      (LinkStateRoutingTableCalculator.getLsNextHop c.nRouters t.parent dest source)) := by
  unfold getLsNextHop LinkStateRoutingTableCalculator.getLsNextHop
  refine (runs_followParents h hdest (hends dest none)).bind_eq ?_
  dsimp only
  by_cases hne : (LinkStateRoutingTableCalculator.followParents t.parent c.nRouters dest
      none).1 ≠ source
  · rw [if_pos hne, if_pos (by exact_mod_cast hne)]
    exact Runs.ok rfl
  · rw [if_neg hne, if_neg (by exact_mod_cast hne)]
    exact Runs.ok rfl

theorem runs_addAllLsNextHopsToRoutingTable (h : HoldsPaths c.distance c.parent c.nRouters t)
    (hends : ∀ dest nextHop, t.parent (LinkStateRoutingTableCalculator.followParents t.parent
      c.nRouters dest nextHop).1 = none) (adjacencyList : AdjacencyList) (pMap : Map)
    (source : Nat) (rt : RouteTable) :
    Runs (c.addAllLsNextHopsToRoutingTable adjacencyList pMap source rt)
      (· = LinkStateRoutingTableCalculator.addAllLsNextHopsToRoutingTable adjacencyList pMap
        c.nRouters source t rt) := by
  refine runs_loopM_sim (R := (· = ·)) ?_ rfl
  rintro i rt _ - hi rfl
  by_cases hne : i ≠ source
  · rw [if_pos hne, if_pos (by exact_mod_cast hne)]
    refine (runs_getLsNextHop h hends hi source).bind_eq ?_
    cases LinkStateRoutingTableCalculator.getLsNextHop c.nRouters t.parent i source with
    | none =>
      rw [if_neg fun hne => hne rfl]
      exact Runs.ok rfl
    | some nextHopRouter =>
      have hsome : numberOrNone (some nextHopRouter) ≠ noNextHop :=
        numberOrNone_some_ne nextHopRouter
      rw [if_pos hsome]
      refine (h.distance.read hi trivial).bind_eq ?_
      rw [numberOrNone, Map.routerName_natCast, Map.routerName_natCast]
      exact Runs.ok rfl
  · rw [if_neg hne, if_neg (by exact_mod_cast hne)]
    exact Runs.ok rfl

end Paths

/-- The matrix is `m`, and the arrays of a run have a cell for each of `n` routers. -/
structure Ready (c : CalculatorMemory) (n : Nat) (m : AdjMatrix) : Prop where
  nRouters : c.nRouters = n
  matrix : HoldsMatrix c.adjMatrix n m
  parent : c.parent.size = n
  distance : c.distance.size = n

/-- **The paths of one run, in the routing table.** The calculator is ready for the next. -/
theorem runs_addPaths (h : c.Ready n m) {source : Nat} (hsource : source < n) (pMap : Map)
    (pnlsr : Nlsr) (rt : RouteTable) : Runs (c.addPaths pMap pnlsr source rt) fun r =>
      (∃ distance parent, r.1 = { c with distance, parent }) ∧ r.1.Ready n m ∧
        r.2 = LinkStateRoutingTableCalculator.addAllLsNextHopsToRoutingTable pnlsr.adjacencyList
          pMap n source
          (LinkStateRoutingTableCalculator.doDijkstraPathCalculation n m source) rt := by
  obtain ⟨rfl, hm, hparent, hdistance⟩ := h
  refine (runs_doDijkstraPathCalculation hm hparent hdistance hsource).bind ?_
  rintro _ ⟨distance, parent, rfl, hpaths⟩
  obtain ⟨hrefines, -⟩ := refines_doDijkstraPathCalculation (m := m) hsource
  refine (runs_addAllLsNextHopsToRoutingTable (c := { c with distance, parent }) hpaths
    hrefines.ends pnlsr.adjacencyList pMap source rt).bind_eq ?_
  exact Runs.ok ⟨⟨distance, parent, rfl⟩, ⟨rfl, hm, hpaths.parent.size, hpaths.distance.size⟩, rfl⟩

end CalculatorMemory

end LinkState
