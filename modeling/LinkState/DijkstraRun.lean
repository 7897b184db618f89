import LinkState.Calculator
import LinkState.Library.ShortestPath
import Mathlib.Data.Set.Function
import Mathlib.Logic.Equiv.Set

/-!
# The Dijkstra run of the calculator

`doDijkstraPathCalculation` keeps its queue as a permutation of the routers: the explored ones
before `head`, the others from there on, the nearest of them at `head`. Read this way every
turn of its loop is a step of Dijkstra's algorithm, so the arrays it ends with satisfy the
invariant of the algorithm and nothing is left to explore (`refines_doDijkstraPathCalculation`).

1. **The distances are the distances** (`distance_spec`), up to `infDistance`.
2. **Following the parents leads back to the source** (`getLsNextHop_spec`).
3. Together: the run solves the paths of every matrix (`solvesPaths_doDijkstraPathCalculation`).
-/

namespace LinkState

namespace LinkStateRoutingTableCalculator

open RoutingTableCalculator

variable {n source : Nat} {m : AdjMatrix}

/-- The matrix read as a graph on the routers `0, …, n - 1`. -/
def within (n : Nat) (m : AdjMatrix) : Nat → Nat → Nat :=
  fun i j => if i < n ∧ j < n then m i j else 0

/-- The matrix as a graph without self-loops. -/
def loopless (n : Nat) (m : AdjMatrix) : Nat → Nat → Nat :=
  fun i j => if i = j then 0 else within n m i j

/-- The arrays read as a state of Dijkstra's algorithm. -/
def abstract (s : DijkstraState) : Dijkstra.State Nat where
  explored v := ∃ i, i < s.head ∧ s.queue i = v
  distance := s.distance
  parent := s.parent

/-- A queue of `n` routers, each once. -/
def IsQueue (n : Nat) (Q : Nat → Nat) : Prop := Set.BijOn Q (Set.Iio n) (Set.Iio n)

/-! ## The exchange sort -/

theorem isQueue_swapQueue {Q : Nat → Nat} (hQ : IsQueue n Q) {i j : Nat} (hi : i < n)
    (hj : j < n) : IsQueue n (swapQueue Q i j) := by
  have heq : swapQueue Q i j = Q ∘ Equiv.swap i j := by
    funext k
    simp only [swapQueue, Function.comp_apply, Equiv.swap_apply_def]
    split_ifs <;> rfl
  rw [heq]
  exact hQ.comp (Equiv.swap_bijOn_self (by simp [hi, hj]))

/-- Two queues that agree before `i` have the same routers from `i` on. -/
theorem exists_index_of_agree {Q Q' : Nat → Nat} (hQ : IsQueue n Q) (hQ' : IsQueue n Q')
    {i k : Nat} (hpre : ∀ k < i, Q' k = Q k) (hik : i ≤ k) (hk : k < n) :
    ∃ k', i ≤ k' ∧ k' < n ∧ Q k' = Q' k := by
  obtain ⟨k', hk', heq⟩ := hQ.surjOn (hQ'.mapsTo hk)
  refine ⟨k', ?_, hk', heq⟩
  by_contra hlt
  have hlt : k' < i := not_le.1 hlt
  rw [← hpre k' hlt] at heq
  have := hQ'.injOn (show k' ∈ Set.Iio n from hk') hk heq
  omega

/-- One pass of the sort brings the nearest router of the rest to position `i`. -/
theorem sortPass_spec (dist : Nat → Nat) {Q : Nat → Nat} (hQ : IsQueue n Q) {i : Nat}
    (hi : i < n) :
    let Q' := loop (i + 1) n (fun j Q =>
      if dist (Q j) < dist (Q i) then swapQueue Q i j else Q) Q
    IsQueue n Q' ∧ (∀ k < i, Q' k = Q k) ∧ ∀ k, i ≤ k → k < n → dist (Q' i) ≤ dist (Q' k) := by
  refine loop_induction (P := fun j Q' => IsQueue n Q' ∧ (∀ k < i, Q' k = Q k) ∧
    ∀ k, i ≤ k → k < j → dist (Q' i) ≤ dist (Q' k)) hi ⟨hQ, fun _ _ => rfl, ?_⟩ ?_
  · intro k hik hk
    obtain rfl : k = i := by omega
    exact le_rfl
  · rintro j Q' hij hj ⟨hQ', hpre, hmin⟩
    by_cases hlt : dist (Q' j) < dist (Q' i)
    · rw [if_pos hlt]
      refine ⟨isQueue_swapQueue hQ' hi hj, fun k hk => ?_, fun k hik hk => ?_⟩
      · rw [swapQueue, if_neg (by omega), if_neg (by omega), hpre k hk]
      · have hi' : swapQueue Q' i j i = Q' j := if_pos rfl
        rw [hi']
        by_cases hki : k = i
        · rw [hki, hi']
        · by_cases hkj : k = j
          · rw [swapQueue, if_neg hki, if_pos hkj]
            exact hlt.le
          · rw [swapQueue, if_neg hki, if_neg hkj]
            exact hlt.le.trans (hmin k hik (by omega))
    · rw [if_neg hlt]
      refine ⟨hQ', hpre, fun k hik hk => ?_⟩
      by_cases hkj : k = j
      · rw [hkj]; exact not_lt.1 hlt
      · exact hmin k hik (by omega)

/-- **The sort** permutes the queue from `start` on and brings the nearest router there. -/
theorem sortQueueByDistance_spec (dist : Nat → Nat) {Q : Nat → Nat} (hQ : IsQueue n Q)
    {start : Nat} (hstart : start ≤ n) :
    IsQueue n (sortQueueByDistance Q dist start n) ∧
      (∀ k < start, sortQueueByDistance Q dist start n k = Q k) ∧
      ∀ k, start ≤ k → k < n → dist (sortQueueByDistance Q dist start n start) ≤
        dist (sortQueueByDistance Q dist start n k) := by
  have h := loop_induction (P := fun i Q' => IsQueue n Q' ∧ (∀ k < start, Q' k = Q k) ∧
    (start < i → ∀ k, start ≤ k → k < n → dist (Q' start) ≤ dist (Q' k))) hstart
    (f := fun i Q => loop (i + 1) n (fun j Q =>
      if dist (Q j) < dist (Q i) then swapQueue Q i j else Q) Q)
    (b := Q) ⟨hQ, fun _ _ => rfl, fun h => absurd h (Nat.lt_irrefl _)⟩ ?_
  · obtain ⟨h₁, h₂, h₃⟩ := h
    refine ⟨h₁, h₂, fun k hk hkn => h₃ (by omega) k hk hkn⟩
  · rintro i Q' hi hin ⟨hQ', hpre, hmin⟩
    obtain ⟨hq, hp, hm⟩ := sortPass_spec dist hQ' hin
    refine ⟨hq, fun k hk => (hp k (by omega)).trans (hpre k hk), fun _ k hk hkn => ?_⟩
    by_cases hs : start = i
    · subst hs; exact hm k hk hkn
    · -- The pass leaves `start` alone and only permutes what comes after `i`.
      rw [hp start (by omega)]
      by_cases hki : k < i
      · rw [hp k hki]; exact hmin (by omega) k hk hkn
      · obtain ⟨k', hik', hk', heq⟩ := exists_index_of_agree hQ' hq hp (not_lt.1 hki) hkn
        rw [← heq]
        exact hmin (by omega) k' (by omega) hk'

/-! ## One turn of the loop -/

theorem isNotExplored_iff {Q : Nat → Nat} {v start : Nat} :
    isNotExplored Q v start n = true ↔ ∃ i, start ≤ i ∧ i < n ∧ Q i = v := by
  simp only [isNotExplored, List.any_eq_true, List.mem_range'_1, decide_eq_true_eq]
  constructor
  · rintro ⟨i, hi, rfl⟩; exact ⟨i, by omega, by omega, rfl⟩
  · rintro ⟨i, hi, hin, rfl⟩; exact ⟨i, by omega, rfl⟩

/-- The routers a turn has not explored are those after the head. -/
theorem isNotExplored_iff_not_explored {s : DijkstraState} (hQ : IsQueue n s.queue)
    (hhead : s.head < n) {v : Nat} (hv : v < n) :
    isNotExplored s.queue v (s.head + 1) n = true ↔
      ¬ (abstract s).explored v ∧ v ≠ s.queue s.head := by
  rw [isNotExplored_iff]
  constructor
  · rintro ⟨i, hi, hin, rfl⟩
    refine ⟨?_, fun heq => ?_⟩
    · rintro ⟨j, hj, heq⟩
      have := hQ.injOn (show j ∈ Set.Iio n from hj.trans hhead) (show i ∈ Set.Iio n from hin) heq
      omega
    · have := hQ.injOn (show i ∈ Set.Iio n from hin) (show s.head ∈ Set.Iio n from hhead) heq
      omega
  · rintro ⟨hexp, hne⟩
    obtain ⟨i, hin, rfl⟩ := hQ.surjOn (show v ∈ Set.Iio n from hv)
    have hi : ¬ i < s.head := fun h => hexp ⟨i, h, rfl⟩
    have hi' : i ≠ s.head := fun h => hne (by rw [h])
    exact ⟨i, by omega, hin, rfl⟩

/-- Does the path over `u` improve router `v`? The test of the inner loop. -/
def Offered (n : Nat) (m : AdjMatrix) (u : Nat) (s : DijkstraState) (v : Nat) : Prop :=
  m u v > 0 ∧ isNotExplored s.queue v (s.head + 1) n = true ∧ s.distance u + m u v < s.distance v

/-- The inner loop changes exactly the routers it improves. -/
theorem relaxLoop_spec (s : DijkstraState) {u : Nat} (hu : ¬ isNotExplored s.queue u
    (s.head + 1) n = true) :
    let s' := loop 0 n (fun v s => relax n m u v s) s
    s'.queue = s.queue ∧ s'.head = s.head ∧
      (∀ v, v < n → Offered n m u s v →
        s'.distance v = s.distance u + m u v ∧ s'.parent v = some u) ∧
      ∀ v, ¬ (v < n ∧ Offered n m u s v) →
        s'.distance v = s.distance v ∧ s'.parent v = s.parent v := by
  refine loop_induction (P := fun i (s' : DijkstraState) => s'.queue = s.queue ∧ s'.head = s.head ∧
    (∀ v, v < i → Offered n m u s v →
      s'.distance v = s.distance u + m u v ∧ s'.parent v = some u) ∧
    ∀ v, ¬ (v < i ∧ Offered n m u s v) →
      s'.distance v = s.distance v ∧ s'.parent v = s.parent v) (Nat.zero_le n)
    ⟨rfl, rfl, fun v hv => absurd hv (Nat.not_lt_zero v), fun _ _ => ⟨rfl, rfl⟩⟩ ?_
  rintro i s' - hi ⟨hq, hh, himp, hkept⟩
  -- Router `i` has not been touched yet, and `u` never is.
  have hdi : s'.distance i = s.distance i := (hkept i fun h => Nat.lt_irrefl i h.1).1
  have hdu : s'.distance u = s.distance u := (hkept u fun h => hu h.2.2.1).1
  have htest : (m u i > 0 ∧ isNotExplored s'.queue i (s'.head + 1) n = true ∧
      s'.distance u + m u i < s'.distance i) ↔ Offered n m u s i := by
    rw [hq, hh, hdi, hdu]; rfl
  unfold relax
  by_cases ho : Offered n m u s i
  · rw [if_pos (htest.2 ho)]
    refine ⟨hq, hh, fun v hv hov => ?_, fun v hv => ?_⟩
    · by_cases hvi : v = i
      · subst hvi; simp [hdu]
      · simpa [hvi] using himp v (by omega) hov
    · have hvi : v ≠ i := by rintro rfl; exact hv ⟨by omega, ho⟩
      simpa [hvi] using hkept v fun h => hv ⟨by omega, h.2⟩
  · rw [if_neg fun h => ho (htest.1 h)]
    refine ⟨hq, hh, fun v hv hov => ?_, fun v hv => ?_⟩
    · have hvi : v ≠ i := by rintro rfl; exact ho hov
      exact himp v (by omega) hov
    · exact hkept v fun h => hv ⟨by omega, h.2⟩

/-- The arrays hold a state of Dijkstra's algorithm, its nearest unexplored router at the
head of the queue. -/
structure Refines (n source : Nat) (m : AdjMatrix) (s : DijkstraState) : Prop where
  queue : IsQueue n s.queue
  head_le : s.head ≤ n
  nearest : ∀ i, s.head ≤ i → i < n → s.distance (s.queue s.head) ≤ s.distance (s.queue i)
  outside : ∀ v, n ≤ v → s.distance v = infDistance
  inv : Dijkstra.Inv (within n m) infDistance source (abstract s)

theorem head_not_offered {s : DijkstraState} (h : Refines n source m s) (hhead : s.head < n) :
    ¬ isNotExplored s.queue (s.queue s.head) (s.head + 1) n = true := by
  rw [isNotExplored_iff_not_explored h.queue hhead (h.queue.mapsTo hhead)]
  exact fun hc => hc.2 rfl

theorem head_explore {s : DijkstraState} (h : Refines n source m s) (hhead : s.head < n) :
    (explore n m s).head = s.head + 1 :=
  congrArg (· + 1) (relaxLoop_spec (m := m) s (head_not_offered h hhead)).2.1

/-- **A turn of the loop is a step of Dijkstra's algorithm.** -/
theorem refines_explore {s : DijkstraState} (h : Refines n source m s) (hhead : s.head < n)
    (hreach : s.distance (s.queue s.head) ≠ infDistance) :
    Refines n source m (explore n m s) := by
  have hun : s.queue s.head < n := h.queue.mapsTo hhead
  obtain ⟨hq, hh, himp, hkept⟩ := relaxLoop_spec (m := m) s (head_not_offered h hhead)
  obtain ⟨hsort, hpre, hmin⟩ := sortQueueByDistance_spec (explore n m s).distance h.queue
    (Nat.succ_le_of_lt hhead)
  have hnext := head_explore h hhead
  have hqueue : (explore n m s).queue =
      sortQueueByDistance s.queue (explore n m s).distance (s.head + 1) n := by
    have hdef : (explore n m s).queue = sortQueueByDistance
        (loop 0 n (fun v t => relax n m (s.queue s.head) v t) s).queue
        (explore n m s).distance (explore n m s).head n := rfl
    rw [hdef, hq, hnext]
  have hexplored : ∀ v, (abstract (explore n m s)).explored v ↔
      (abstract s).explored v ∨ v = s.queue s.head := by
    intro v
    show (∃ i, i < (explore n m s).head ∧ (explore n m s).queue i = v) ↔ _
    rw [hqueue, hnext]
    constructor
    · rintro ⟨i, hi, rfl⟩
      rw [hpre i hi]
      rcases Nat.lt_succ_iff_lt_or_eq.1 hi with hlt | rfl
      · exact Or.inl ⟨i, hlt, rfl⟩
      · exact Or.inr rfl
    · rintro (⟨i, hi, rfl⟩ | rfl)
      · exact ⟨i, by omega, hpre i (by omega)⟩
      · exact ⟨s.head, by omega, hpre s.head (by omega)⟩
  have hoff : ∀ v, Dijkstra.Improves (within n m) (abstract s) (s.queue s.head) v ↔
      v < n ∧ Offered n m (s.queue s.head) s v := by
    intro v
    unfold Dijkstra.Improves Offered within
    by_cases hv : v < n
    · rw [isNotExplored_iff_not_explored h.queue hhead hv, if_pos ⟨hun, hv⟩]
      show _ ∧ _ ∧ _ ∧ s.distance _ + _ < s.distance v ↔ _
      tauto
    · rw [if_neg fun hc => hv hc.2]
      exact iff_of_false (fun hc => Nat.lt_irrefl 0 hc.1) fun hc => hv hc.1
  have hstep : Dijkstra.Explores (within n m) infDistance (s.queue s.head) (abstract s)
      (abstract (explore n m s)) := by
    refine ⟨?_, ?_, ?_, hexplored, ?_, ?_⟩
    · rintro ⟨i, hi, heq⟩
      have := h.queue.injOn (show i ∈ Set.Iio n from hi.trans hhead)
        (show s.head ∈ Set.Iio n from hhead) heq
      omega
    · intro v hv
      rcases Nat.lt_or_ge v n with hvn | hvn
      · obtain ⟨i, hin, rfl⟩ := h.queue.surjOn (show v ∈ Set.Iio n from hvn)
        exact h.nearest i (not_lt.1 fun hi => hv ⟨i, hi, rfl⟩) hin
      · show _ ≤ s.distance v
        rw [h.outside v hvn]
        exact h.inv.le_inf _
    · exact lt_of_le_of_ne (h.inv.le_inf _) hreach
    · intro v hi
      obtain ⟨hv, ho⟩ := (hoff v).1 hi
      obtain ⟨hd, hp⟩ := himp v hv ho
      refine ⟨?_, hp⟩
      show _ = s.distance _ + within n m _ v
      rw [within, if_pos ⟨hun, hv⟩]
      exact hd
    · exact fun v hi => hkept v fun hc => hi ((hoff v).2 hc)
  refine ⟨?_, by rw [hnext]; exact hhead, ?_, ?_, h.inv.explore hstep⟩
  · rw [hqueue]; exact hsort
  · rw [hqueue, hnext]; exact hmin
  · intro v hv
    rw [← h.outside v hv]
    exact (hkept v fun hc => absurd hc.1 (not_lt.2 hv)).1

/-! ## The whole run -/

theorem refines_dijkstraInit (hsource : source < n) :
    Refines n source m (dijkstraInit n source) := by
  have hid : IsQueue n id := Set.bijOn_id _
  obtain ⟨hsort, -, hmin⟩ := sortQueueByDistance_spec (dijkstraInit n source).distance hid
    (Nat.zero_le n)
  have hd : ∀ v, (dijkstraInit n source).distance v = if v = source then 0 else infDistance :=
    fun v => rfl
  have hexp : ∀ v, ¬ (abstract (dijkstraInit n source)).explored v := by
    rintro v ⟨i, hi, -⟩
    exact absurd hi (Nat.not_lt_zero i)
  refine ⟨hsort, Nat.zero_le n, hmin, fun v hv => ?_, ?_⟩
  · rw [hd, if_neg (by omega)]
  · refine ⟨?_, rfl, fun v => ?_, fun _ _ => rfl, fun v hv hlt => ?_, ?_, ?_⟩
    · show (dijkstraInit n source).distance source = 0
      rw [hd, if_pos rfl]
    · show (dijkstraInit n source).distance v ≤ _
      rw [hd]
      split_ifs
      · exact Nat.zero_le _
      · exact le_rfl
    · have hlt : (dijkstraInit n source).distance v < infDistance := hlt
      rw [hd, if_neg hv] at hlt
      exact absurd hlt (Nat.lt_irrefl _)
    · exact fun u v hu => absurd hu (hexp u)
    · exact fun u v hu => absurd hu (hexp u)

/-- The loop ends with nothing left to explore. -/
theorem refines_dijkstraLoop {turns : Nat} {s : DijkstraState} (h : Refines n source m s)
    (hturns : n ≤ s.head + turns) :
    Refines n source m (dijkstraLoop n m turns s) ∧
      Dijkstra.Done infDistance (abstract (dijkstraLoop n m turns s)) := by
  induction turns generalizing s with
  | zero =>
    refine ⟨h, fun v hv => ?_⟩
    refine h.outside v (not_lt.1 fun hvn => hv ?_)
    obtain ⟨i, hin, rfl⟩ := h.queue.surjOn (show v ∈ Set.Iio n from hvn)
    exact ⟨i, lt_of_lt_of_le hin hturns, rfl⟩
  | succ turns ih =>
    rw [dijkstraLoop]
    by_cases hc : s.head < n ∧ s.distance (s.queue s.head) ≠ infDistance
    · rw [if_pos hc]
      have hnext : (explore n m s).head = s.head + 1 := head_explore h hc.1
      exact ih (refines_explore h hc.1 hc.2) (by omega)
    · rw [if_neg hc]
      refine ⟨h, fun v hv => ?_⟩
      rcases Nat.lt_or_ge v n with hvn | hvn
      · obtain ⟨i, hin, rfl⟩ := h.queue.surjOn (show v ∈ Set.Iio n from hvn)
        have hi : s.head ≤ i := not_lt.1 fun hi => hv ⟨i, hi, rfl⟩
        -- The head is at infinity, and no unexplored router is nearer.
        have hinf : s.distance (s.queue s.head) = infDistance := by
          by_contra hne
          exact hc ⟨lt_of_le_of_lt hi hin, hne⟩
        have hle := h.nearest i hi hin
        rw [hinf] at hle
        exact le_antisymm (h.inv.le_inf _) hle
      · exact h.outside v hvn

theorem refines_doDijkstraPathCalculation (hsource : source < n) :
    Refines n source m (doDijkstraPathCalculation n m source) ∧
      Dijkstra.Done infDistance (abstract (doDijkstraPathCalculation n m source)) :=
  refines_dijkstraLoop (refines_dijkstraInit hsource) (by simp [dijkstraInit])

/-- **The distances are the distances.** -/
theorem distance_spec (hsource : source < n) {v d : Nat} (hd : d < infDistance) :
    (doDijkstraPathCalculation n m source).distance v = d ↔ IsDist (within n m) source v d := by
  obtain ⟨h, hdone⟩ := refines_doDijkstraPathCalculation (m := m) hsource
  constructor
  · rintro rfl
    exact h.inv.isDist hdone hd
  · intro hdist
    rcases (h.inv.le_inf v).lt_or_eq with hlt | heq
    · exact IsLeast.unique (h.inv.isDist hdone hlt) hdist
    · exact absurd (h.inv.not_walk hdone heq hdist.1) (not_le.2 hd)

/-! ## Following the parents -/

/-- `x` comes first after the source on a path of weight `d` to `v`. -/
structure FirstHop (n : Nat) (m : AdjMatrix) (source v d x : Nat) : Prop where
  ne_source : x ≠ source
  edge : 0 < within n m source x
  path : ∃ k, Walk (without (loopless n m) source) x v k ∧ d = within n m source x + k

/-- A path from a router other than the source goes on over an edge. -/
theorem FirstHop.step {p v d x : Nat} (h : FirstHop n m source p d x) (hp : p ≠ source)
    (hv : v ≠ source) (hpv : p ≠ v) (hw : 0 < within n m p v) :
    FirstHop n m source v (d + within n m p v) x := by
  obtain ⟨k, hk, hd⟩ := h.path
  have hedge : without (loopless n m) source p v = within n m p v := by
    rw [without, if_neg (by tauto), loopless, if_neg hpv]
  refine ⟨h.ne_source, h.edge, k + within n m p v, ?_, by omega⟩
  rw [← hedge]
  exact Walk.step hk (by rw [hedge]; exact hw)

/-- The parent of a reached router is a router, and nearer. -/
theorem rank_parent_lt {s : DijkstraState} {p v : Nat} (hw : 0 < within n m p v)
    (hd : s.distance v = s.distance p + within n m p v) :
    Dijkstra.rank (Finset.range n) s.distance p < Dijkstra.rank (Finset.range n) s.distance v := by
  have hp : p < n := by
    by_contra hc
    rw [within, if_neg fun h => hc h.1] at hw
    exact absurd hw (Nat.lt_irrefl 0)
  exact Dijkstra.rank_lt (Finset.mem_range.2 hp) (by omega)

theorem followParents_spec {s : DijkstraState} (h : Refines n source m s) {steps dest : Nat}
    (hdest : s.distance dest < infDistance)
    (hsteps : Dijkstra.rank (Finset.range n) s.distance dest ≤ steps) (nextHop : Option Nat) :
    ∃ hop, followParents s.parent steps dest nextHop = (source, hop) ∧
      (dest = source → hop = nextHop) ∧
      (dest ≠ source → ∃ x, hop = some x ∧
        FirstHop n m source dest (s.distance dest) x) := by
  induction steps generalizing dest nextHop with
  | zero =>
    have hds : dest = source := by
      by_contra hne
      obtain ⟨p, -, -, hw, hd⟩ := h.inv.tree dest hne hdest
      have := rank_parent_lt hw hd
      omega
    exact ⟨nextHop, by rw [hds]; rfl, fun _ => rfl, fun hne => absurd hds hne⟩
  | succ steps ih =>
    by_cases hds : dest = source
    · have hnone : s.parent dest = none := by rw [hds]; exact h.inv.source_parent
      exact ⟨nextHop, by rw [followParents, hnone, hds], fun _ => rfl, fun hne => absurd hds hne⟩
    · obtain ⟨p, hp, -, hw, hd⟩ := h.inv.tree dest hds hdest
      have hp : s.parent dest = some p := hp
      have hd : s.distance dest = s.distance p + within n m p dest := hd
      have hrank := rank_parent_lt hw hd
      obtain ⟨hop, heq, hsame, hother⟩ :=
        ih (show s.distance p < infDistance by omega) (by omega) (some dest)
      refine ⟨hop, ?_, fun hc => absurd hc hds, fun _ => ?_⟩
      · rw [followParents, hp]; exact heq
      · by_cases hps : p = source
        · have hzero : s.distance p = 0 := by rw [hps]; exact h.inv.source
          refine ⟨dest, hsame hps, hds, hps ▸ hw, 0, Walk.refl, ?_⟩
          rw [hd, hzero, hps]
          omega
        · obtain ⟨x, hx, hfirst⟩ := hother hps
          refine ⟨x, hx, ?_⟩
          rw [hd]
          exact hfirst.step hps hds (by rintro rfl; omega) hw

/-- **The next hop of a reached router comes first on a shortest path; a router out of reach has
none.** -/
theorem getLsNextHop_spec (hsource : source < n) {v : Nat} (hv : v ≠ source) :
    (∃ x, getLsNextHop n (doDijkstraPathCalculation n m source).parent v source = some x ∧
        FirstHop n m source v ((doDijkstraPathCalculation n m source).distance v) x ∧
        (doDijkstraPathCalculation n m source).distance v < infDistance) ∨
      (getLsNextHop n (doDijkstraPathCalculation n m source).parent v source = none ∧
        (doDijkstraPathCalculation n m source).distance v = infDistance) := by
  obtain ⟨h, -⟩ := refines_doDijkstraPathCalculation (m := m) hsource
  have hsteps : Dijkstra.rank (Finset.range n)
      (doDijkstraPathCalculation n m source).distance v ≤ n := by
    simpa using Dijkstra.rank_le (Finset.range n) _ v
  rcases (h.inv.le_inf v).lt_or_eq with hlt | heq
  · obtain ⟨hop, hfollow, -, hne⟩ := followParents_spec h hlt hsteps none
    obtain ⟨x, rfl, hx⟩ := hne hv
    refine Or.inl ⟨x, ?_, hx, hlt⟩
    simp [getLsNextHop, hfollow]
  · have hnone : (doDijkstraPathCalculation n m source).parent v = none := h.inv.orphan v heq
    refine Or.inr ⟨?_, heq⟩
    cases n with
    | zero => exact absurd hsource (Nat.not_lt_zero _)
    | succ n => simp [getLsNextHop, followParents, hnone, hv]

/-! ## Every matrix -/

/-- What the arrays are for: the distances up to `infDistance`, parents without a cycle, and for
each router the first hop of a shortest path. -/
structure SolvesPaths (n source : Nat) (m : AdjMatrix) (s : DijkstraState) : Prop where
  distance : ∀ v d, d < infDistance → (s.distance v = d ↔ IsDist (within n m) source v d)
  out_of_reach : ∀ v, (∀ d, IsDist (within n m) source v d → infDistance ≤ d) →
    s.distance v = infDistance
  acyclic : WellFounded fun p v => s.parent v = some p
  /-- The walk along the parents comes to its end. -/
  ends : ∀ dest nextHop, s.parent (followParents s.parent n dest nextHop).1 = none
  no_next_hop : ∀ dest, getLsNextHop n s.parent dest source = none ↔
    dest = source ∨ s.distance dest = infDistance
  next_hop : ∀ dest x, getLsNextHop n s.parent dest source = some x →
    0 < within n m source x ∧
      ∃ k, Walk (within n m) x dest k ∧ s.distance dest = within n m source x + k

/-- A router with a parent is farther than it. -/
theorem Refines.distance_parent_lt {s : DijkstraState} (h : Refines n source m s) {p v : Nat}
    (hp : s.parent v = some p) : s.distance p < s.distance v := by
  have hv : v ≠ source := by
    rintro rfl
    exact absurd (hp.symm.trans h.inv.source_parent) (Option.some_ne_none p)
  have hlt : s.distance v < infDistance := by
    refine lt_of_le_of_ne (h.inv.le_inf v) fun heq => ?_
    exact absurd (hp.symm.trans (h.inv.orphan v heq)) (Option.some_ne_none p)
  obtain ⟨q, hq, -, hw, hd⟩ := h.inv.tree v hv hlt
  obtain rfl := Option.some.inj (hp.symm.trans hq)
  have hd : s.distance v = s.distance p + within n m p v := hd
  omega

theorem Refines.acyclic {s : DijkstraState} (h : Refines n source m s) :
    WellFounded fun p v => s.parent v = some p :=
  Subrelation.wf (fun hp => h.distance_parent_lt hp) (measure s.distance).wf

theorem Refines.ends {s : DijkstraState} (h : Refines n source m s) (dest : Nat)
    (nextHop : Option Nat) : s.parent (followParents s.parent n dest nextHop).1 = none := by
  have hsteps : Dijkstra.rank (Finset.range n) s.distance dest ≤ n := by
    simpa using Dijkstra.rank_le (Finset.range n) s.distance dest
  rcases (h.inv.le_inf dest).lt_or_eq with hlt | heq
  · obtain ⟨hop, hfollow, -⟩ := followParents_spec h hlt hsteps nextHop
    rw [hfollow]
    exact h.inv.source_parent
  · have hnone : s.parent dest = none := h.inv.orphan dest heq
    have hstay : followParents s.parent n dest nextHop = (dest, nextHop) := by
      cases n with
      | zero => rfl
      | succ n => rw [followParents, hnone]
    rw [hstay]
    exact hnone

/-- A router is not its own next hop. -/
theorem Refines.getLsNextHop_source {s : DijkstraState} (h : Refines n source m s) :
    getLsNextHop n s.parent source source = none := by
  have hstay : followParents s.parent n source none = (source, none) := by
    cases n with
    | zero => rfl
    | succ n =>
      have hnone : s.parent source = none := h.inv.source_parent
      rw [followParents, hnone]
  simp [getLsNextHop, hstay]

/-- The first hop of a shortest path, self-loops and the source allowed on the rest. -/
theorem FirstHop.exists_walk {v d x : Nat} (h : FirstHop n m source v d x) :
    ∃ k, Walk (within n m) x v k ∧ d = within n m source x + k := by
  obtain ⟨k, hk, hd⟩ := h.path
  refine ⟨k, hk.map id fun a b hab => ?_, hd⟩
  unfold without loopless at hab ⊢
  split_ifs at hab ⊢ with hsource hloop
  · exact absurd hab (Nat.lt_irrefl 0)
  · exact absurd hab (Nat.lt_irrefl 0)
  · rfl

/-- **The run solves the paths of every matrix.** -/
theorem solvesPaths_doDijkstraPathCalculation (n : Nat) (m : AdjMatrix) (source : Nat)
    (hsource : source < n) :
    SolvesPaths n source m (doDijkstraPathCalculation n m source) := by
  obtain ⟨h, hdone⟩ := refines_doDijkstraPathCalculation (m := m) hsource
  refine ⟨fun v d hd => distance_spec hsource hd, fun v hv => ?_, h.acyclic, h.ends,
    fun dest => ?_, fun dest x hx => ?_⟩
  · rcases (h.inv.le_inf v).lt_or_eq with hlt | heq
    · exact absurd (hv _ (h.inv.isDist hdone hlt)) (not_le.2 hlt)
    · exact heq
  · by_cases hdest : dest = source
    · subst hdest
      exact iff_of_true h.getLsNextHop_source (Or.inl rfl)
    · rcases getLsNextHop_spec (m := m) hsource hdest with ⟨x, hx, -, hlt⟩ | ⟨hnone, hinf⟩
      · refine iff_of_false ?_ (not_or.2 ⟨hdest, hlt.ne⟩)
        rw [hx]
        exact Option.some_ne_none x
      · exact iff_of_true hnone (Or.inr hinf)
  · by_cases hdest : dest = source
    · subst hdest
      exact absurd (hx.symm.trans h.getLsNextHop_source) (Option.some_ne_none x)
    · rcases getLsNextHop_spec (m := m) hsource hdest with ⟨y, hy, hfirst, -⟩ | ⟨hnone, -⟩
      · obtain rfl := Option.some.inj (hx.symm.trans hy)
        exact ⟨hfirst.edge, hfirst.exists_walk⟩
      · exact absurd (hx.symm.trans hnone) (Option.some_ne_none x)

/-- Three routers in a line, with a cheaper way back. -/
theorem solvesPaths_line :
    let m : AdjMatrix := fun i j => if i = 0 ∧ j = 1 then 5 else if i = 1 ∧ j = 2 then 7 else
      if j = 0 then 1 else 0
    SolvesPaths 3 0 m (doDijkstraPathCalculation 3 m 0) :=
  solvesPaths_doDijkstraPathCalculation 3 _ 0 (by decide)

end LinkStateRoutingTableCalculator

end LinkState
