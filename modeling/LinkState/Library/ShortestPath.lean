import Mathlib.Order.Bounds.Basic
import Mathlib.Data.Finset.Card

/-!
# Shortest paths and Dijkstra's algorithm

Graphs with natural weights, 0 for no edge. `Walk w a b k` is a walk from `a` to `b` of total
weight `k`, and `IsDist w a b k` says that `k` is the least such weight.

`Dijkstra.Inv` is the invariant of Dijkstra's algorithm with a finite infinity: distances are
kept only below `inf`. `Inv.explore` is the step of the algorithm, `Inv.isDist` and
`Inv.not_walk` its result, `Inv.rank_lt` what bounds a walk along the parents.

`Walk.leave` and `Walk.resume` relate walks from the source to walks without it that begin at
the end of an edge of the source; `isDist_restart` is the case in which there is one such edge.

`exists_follow`: next hops that come nearer and nearer lead to an end.
-/

namespace LinkState

variable {V : Type*}

/-- A walk along edges of positive weight, with its total weight. -/
inductive Walk (w : V → V → Nat) (a : V) : V → Nat → Prop
  | refl : Walk w a a 0
  | step {b c : V} {k : Nat} (h : Walk w a b k) (hw : 0 < w b c) : Walk w a c (k + w b c)

/-- The distance from `a` to `b` is `k`. -/
def IsDist (w : V → V → Nat) (a b : V) (k : Nat) : Prop := IsLeast {k | Walk w a b k} k

/-- The graph without a vertex. -/
def without (w : V → V → Nat) (s : V) [DecidableEq V] : V → V → Nat :=
  fun a b => if a = s ∨ b = s then 0 else w a b

namespace Walk

variable {w w' : V → V → Nat} {a b c : V} {k : Nat}

theorem cons {k' : Nat} (hw : 0 < w a b) (h : Walk w b c k') : Walk w a c (w a b + k') := by
  induction h with
  | refl => simpa using Walk.step Walk.refl hw
  | step _ hw' ih => rw [← Nat.add_assoc]; exact Walk.step ih hw'

/-- Walks go over to a graph that has the same edges under another name. -/
theorem map {W : Type*} {g : W → W → Nat} (f : V → W)
    (hf : ∀ a b, 0 < w a b → g (f a) (f b) = w a b) (h : Walk w a b k) :
    Walk g (f a) (f b) k := by
  induction h with
  | refl => exact Walk.refl
  | step _ hw ih =>
    rw [← hf _ _ hw]
    exact Walk.step ih (by rw [hf _ _ hw]; exact hw)

/-- A walk ends where it began or where an edge ends. -/
theorem eq_or_exists_edge (h : Walk w a b k) : b = a ∨ ∃ c, 0 < w c b := by
  cases h with
  | refl => exact Or.inl rfl
  | step _ hw => exact Or.inr ⟨_, hw⟩

/-- A vertex whose only edge is a self-loop reaches nothing else. -/
theorem eq_of_no_edge (hrow : ∀ b, b ≠ a → w a b = 0) (h : Walk w a b k) : b = a := by
  induction h with
  | refl => rfl
  | @step b c k _ hw ih =>
    by_contra hne
    rw [ih, hrow c hne] at hw
    exact absurd hw (Nat.lt_irrefl 0)

/-- **The last time a walk leaves its source.** A walk from `s` that ends elsewhere can be
shortened to an edge of `s` and a walk from there in `g` without `s`, where `g` is `w` with
whatever self-loops. -/
theorem leave [DecidableEq V] {g : V → V → Nat} {s : V}
    (hrest : ∀ a b, a ≠ s → a ≠ b → w a b = g a b) {v : V} (h : Walk w s v k) (hv : v ≠ s) :
    ∃ l k', l ≠ s ∧ 0 < w s l ∧ Walk (without g s) l v k' ∧ w s l + k' ≤ k := by
  induction h with
  | refl => exact absurd rfl hv
  | @step b v k h hw ih =>
    by_cases hb : b = s
    · rw [hb] at hw ⊢
      exact ⟨v, 0, hv, hw, Walk.refl, by omega⟩
    · obtain ⟨l, k', hl, hsl, hk', hle⟩ := ih hb
      by_cases hbv : b = v
      · subst hbv
        exact ⟨l, k', hl, hsl, hk', by omega⟩
      · have hedge : without g s b v = w b v := by
          rw [without, if_neg (by tauto), hrest b v hb hbv]
        refine ⟨l, k' + w b v, hl, hsl, ?_, by omega⟩
        rw [← hedge]
        exact Walk.step hk' (by rw [hedge]; exact hw)

/-- **Walks of a graph in which the source has one edge.** In `w` the only edge of `s` goes to
`l`, and elsewhere `w` is `g`, self-loops aside. A walk from `s` that ends elsewhere passes over
`l` and can be continued from there in `g` without `s`. -/
theorem restart [DecidableEq V] {g : V → V → Nat} {s l : V} (hrow : ∀ b, b ≠ l → w s b = 0)
    (hrest : ∀ a b, a ≠ s → a ≠ b → w a b = g a b) {v : V} (h : Walk w s v k) (hv : v ≠ s) :
    ∃ k', Walk (without g s) l v k' ∧ w s l + k' ≤ k := by
  obtain ⟨l', k', -, hl', hk', hle⟩ := leave hrest h hv
  obtain rfl : l' = l := by
    by_contra hne
    rw [hrow l' hne] at hl'
    exact absurd hl' (Nat.lt_irrefl 0)
  exact ⟨k', hk', hle⟩

/-- A walk without the source continues an edge of the source. -/
theorem resume [DecidableEq V] {g : V → V → Nat} {s l : V} (hl : 0 < w s l)
    (hrest : ∀ a b, a ≠ s → a ≠ b → w a b = g a b) (hloop : ∀ a, g a a = 0) {v : V}
    (h : Walk (without g s) l v k) : Walk w s v (w s l + k) := by
  refine cons hl (map id (fun a b hab => ?_) h)
  have hs : ¬ (a = s ∨ b = s) := by
    intro hc
    rw [without, if_pos hc] at hab
    exact absurd hab (Nat.lt_irrefl 0)
  rw [without, if_neg hs] at hab ⊢
  refine hrest a b (fun hc => hs (Or.inl hc)) ?_
  rintro rfl
  rw [hloop a] at hab
  exact absurd hab (Nat.lt_irrefl 0)

end Walk

/-- **The distance over the one edge of the source** is the weight of that edge plus the
distance without the source. -/
theorem isDist_restart [DecidableEq V] {w g : V → V → Nat} {s l v : V} {k : Nat}
    (hl : 0 < w s l) (hrow : ∀ b, b ≠ l → w s b = 0)
    (hrest : ∀ a b, a ≠ s → a ≠ b → w a b = g a b) (hloop : ∀ a, g a a = 0) (hv : v ≠ s) :
    IsDist w s v k ↔ ∃ d, IsDist (without g s) l v d ∧ k = w s l + d := by
  constructor
  · rintro ⟨hk, hmin⟩
    obtain ⟨d, hd, hle⟩ := Walk.restart hrow hrest hk hv
    have hkd : k = w s l + d := le_antisymm (hmin (Walk.resume hl hrest hloop hd)) hle
    refine ⟨d, ⟨hd, fun d' hd' => ?_⟩, hkd⟩
    have := hmin (Walk.resume hl hrest hloop hd')
    omega
  · rintro ⟨d, ⟨hd, hmin⟩, rfl⟩
    refine ⟨Walk.resume hl hrest hloop hd, fun k hk => ?_⟩
    obtain ⟨d', hd', hle⟩ := Walk.restart hrow hrest hk hv
    have := hmin hd'
    omega

/-! ## Dijkstra's algorithm -/

namespace Dijkstra

/-- What the algorithm has found so far. -/
structure State (V : Type*) where
  explored : V → Prop
  distance : V → Nat
  parent : V → Option V

/-- The invariant. -/
structure Inv (w : V → V → Nat) (inf : Nat) (s : V) (st : State V) : Prop where
  source : st.distance s = 0
  source_parent : st.parent s = none
  le_inf : ∀ v, st.distance v ≤ inf
  orphan : ∀ v, st.distance v = inf → st.parent v = none
  tree : ∀ v, v ≠ s → st.distance v < inf → ∃ p, st.parent v = some p ∧ st.explored p ∧
    0 < w p v ∧ st.distance v = st.distance p + w p v
  order : ∀ u v, st.explored u → ¬ st.explored v → st.distance u ≤ st.distance v
  relaxed : ∀ u v, st.explored u → 0 < w u v → st.distance u + w u v < inf →
    st.distance v ≤ st.distance u + w u v

/-- Does exploring `u` improve the distance of `v`? -/
def Improves (w : V → V → Nat) (st : State V) (u v : V) : Prop :=
  0 < w u v ∧ ¬ st.explored v ∧ v ≠ u ∧ st.distance u + w u v < st.distance v

/-- One step: the nearest unexplored vertex `u` offers its paths to the unexplored vertices. -/
structure Explores (w : V → V → Nat) (inf : Nat) (u : V) (st st' : State V) : Prop where
  fresh : ¬ st.explored u
  nearest : ∀ v, ¬ st.explored v → st.distance u ≤ st.distance v
  reached : st.distance u < inf
  explored : ∀ v, st'.explored v ↔ st.explored v ∨ v = u
  improved : ∀ v, Improves w st u v →
    st'.distance v = st.distance u + w u v ∧ st'.parent v = some u
  kept : ∀ v, ¬ Improves w st u v →
    st'.distance v = st.distance v ∧ st'.parent v = st.parent v

section Inv

variable {w : V → V → Nat} {inf : Nat} {s u : V} {st st' : State V}

theorem Explores.distance_le (h : Explores w inf u st st') (v : V) :
    st'.distance v ≤ st.distance v := by
  by_cases hi : Improves w st u v
  · rw [(h.improved v hi).1]; exact hi.2.2.2.le
  · rw [(h.kept v hi).1]

/-- An explored vertex keeps its distance and its parent. -/
theorem Explores.settled (h : Explores w inf u st st') {v : V} (hv : st'.explored v) :
    st'.distance v = st.distance v ∧ st'.parent v = st.parent v := by
  refine h.kept v fun hi => ?_
  rcases (h.explored v).1 hv with hv | hv
  · exact hi.2.1 hv
  · exact hi.2.2.1 hv

/-- **A step of the algorithm keeps the invariant.** -/
theorem Inv.explore (hinv : Inv w inf s st) (h : Explores w inf u st st') :
    Inv w inf s st' := by
  have hdu : st'.distance u = st.distance u :=
    (h.settled ((h.explored u).2 (Or.inr rfl))).1
  have hs : ¬ Improves w st u s := by
    rintro ⟨-, -, -, hlt⟩
    rw [hinv.source] at hlt
    exact absurd hlt (Nat.not_lt_zero _)
  refine ⟨?_, ?_, ?_, ?_, ?_, ?_, ?_⟩
  · rw [(h.kept s hs).1, hinv.source]
  · rw [(h.kept s hs).2, hinv.source_parent]
  · exact fun v => (h.distance_le v).trans (hinv.le_inf v)
  · intro v hv
    have hi : ¬ Improves w st u v := by
      intro hi
      have := (h.improved v hi).1
      have := hi.2.2.2
      have := hinv.le_inf v
      omega
    rw [(h.kept v hi).1] at hv
    rw [(h.kept v hi).2, hinv.orphan v hv]
  · intro v hvs hlt
    by_cases hi : Improves w st u v
    · obtain ⟨hd, hp⟩ := h.improved v hi
      exact ⟨u, hp, (h.explored u).2 (Or.inr rfl), hi.1, by rw [hd, hdu]⟩
    · obtain ⟨hd, hp⟩ := h.kept v hi
      rw [hd] at hlt
      obtain ⟨p, hpv, hep, hw, heq⟩ := hinv.tree v hvs hlt
      have hep' : st'.explored p := (h.explored p).2 (Or.inl hep)
      exact ⟨p, by rw [hp, hpv], hep', hw, by rw [hd, heq, (h.settled hep').1]⟩
  · intro a v ha hv
    have hv' : ¬ st.explored v := fun hc => hv ((h.explored v).2 (Or.inl hc))
    rw [(h.settled ha).1]
    -- An explored vertex is no farther than `u`, and `u` no farther than what it improves.
    have hau : st.distance a ≤ st.distance u := by
      rcases (h.explored a).1 ha with ha | rfl
      · exact hinv.order a u ha h.fresh
      · exact le_rfl
    by_cases hi : Improves w st u v
    · rw [(h.improved v hi).1]; omega
    · rw [(h.kept v hi).1]; exact hau.trans (h.nearest v hv')
  · intro a v ha hw hlt
    rw [(h.settled ha).1] at hlt ⊢
    rcases (h.explored a).1 ha with ha | rfl
    · exact (h.distance_le v).trans (hinv.relaxed a v ha hw hlt)
    · by_cases hi : Improves w st a v
      · rw [(h.improved v hi).1]
      · rw [(h.kept v hi).1]
        by_cases hv : st.explored v
        · exact (hinv.order v a hv h.fresh).trans (Nat.le_add_right _ _)
        · by_cases hva : v = a
          · subst hva; exact Nat.le_add_right _ _
          · by_contra hgt
            exact hi ⟨hw, hv, hva, not_le.1 hgt⟩

/-- Distances below infinity are weights of walks. -/
theorem Inv.walk (hinv : Inv w inf s st) {v : V} (hv : st.distance v < inf) :
    Walk w s v (st.distance v) := by
  induction hd : st.distance v using Nat.strong_induction_on generalizing v with
  | _ d ih =>
    by_cases hvs : v = s
    · subst hvs
      rw [hinv.source] at hd
      rw [← hd]
      exact Walk.refl
    · obtain ⟨p, -, -, hw, heq⟩ := hinv.tree v hvs hv
      rw [← hd, heq]
      exact Walk.step (ih _ (by omega) (by omega) rfl) hw

/-- Nothing is left to explore: what is unexplored is out of reach. -/
def Done (inf : Nat) (st : State V) : Prop := ∀ v, ¬ st.explored v → st.distance v = inf

theorem Inv.distance_le (hinv : Inv w inf s st) (hdone : Done inf st) {v : V} {k : Nat}
    (h : Walk w s v k) (hk : k < inf) : st.distance v ≤ k := by
  induction h with
  | refl => exact hinv.source.le
  | @step b c k h hw ih =>
    have hb := ih (by omega)
    have hexp : st.explored b := by
      by_contra hne
      have := hdone b hne
      omega
    have := hinv.relaxed b c hexp hw (by omega)
    omega

/-- **At the end a distance below infinity is the distance.** -/
theorem Inv.isDist (hinv : Inv w inf s st) (hdone : Done inf st) {v : V}
    (hv : st.distance v < inf) : IsDist w s v (st.distance v) := by
  refine ⟨hinv.walk hv, fun k hk => ?_⟩
  rcases lt_or_ge k inf with hlt | hge
  · exact hinv.distance_le hdone hk hlt
  · exact hv.le.trans hge

/-- **A vertex at infinity has no walk below it.** -/
theorem Inv.not_walk (hinv : Inv w inf s st) (hdone : Done inf st) {v : V}
    (hv : st.distance v = inf) {k : Nat} (h : Walk w s v k) : inf ≤ k := by
  by_contra hlt
  have := hinv.distance_le hdone h (not_le.1 hlt)
  omega

/-! ### Ranks -/

/-- The number of vertices nearer than `v`. -/
def rank (vertices : Finset V) (distance : V → Nat) (v : V) : Nat :=
  (vertices.filter fun x => distance x < distance v).card

/-- A nearer vertex has a smaller rank, so a chain of parents has no more steps than vertices. -/
theorem rank_lt {vertices : Finset V} {distance : V → Nat} {p v : V} (hp : p ∈ vertices)
    (h : distance p < distance v) :
    rank vertices distance p < rank vertices distance v := by
  refine Finset.card_lt_card ⟨fun x hx => ?_, fun hsub => ?_⟩
  · rw [Finset.mem_filter] at hx ⊢
    exact ⟨hx.1, hx.2.trans h⟩
  · have := Finset.mem_filter.1 (hsub (Finset.mem_filter.2 ⟨hp, h⟩))
    exact absurd this.2 (Nat.lt_irrefl _)

/-- A vertex is not nearer than itself. -/
theorem rank_lt_card {vertices : Finset V} {v : V} (hv : v ∈ vertices) (distance : V → Nat) :
    rank vertices distance v < vertices.card := by
  refine Finset.card_lt_card (Finset.filter_ssubset.2 ⟨v, hv, ?_⟩)
  exact Nat.lt_irrefl _

theorem rank_le (vertices : Finset V) (distance : V → Nat) (v : V) :
    rank vertices distance v ≤ vertices.card :=
  Finset.card_filter_le _ _

end Inv

end Dijkstra

/-! ## Forwarding -/

/-- Follow next hops for a number of steps. -/
def follow (next : V → Option V) : Nat → V → Option V
  | 0, v => some v
  | n + 1, v => (next v).bind (follow next n)

/-- **Next hops that come nearer lead to an end** in no more steps than there are vertices. -/
theorem exists_follow {next : V → Option V} {vertices : Finset V} {d : V → Nat}
    {P Stop : V → Prop}
    (h : ∀ v ∈ vertices, P v → ∃ x, next v = some x ∧
      (Stop x ∨ x ∈ vertices ∧ P x ∧ d x < d v))
    {v : V} (hv : v ∈ vertices) (hP : P v) :
    ∃ n x, n ≤ vertices.card ∧ follow next n v = some x ∧ Stop x := by
  have hrank : ∀ (r : Nat) (v : V), v ∈ vertices → P v → Dijkstra.rank vertices d v = r →
      ∃ n x, n ≤ r + 1 ∧ follow next n v = some x ∧ Stop x := by
    intro r
    induction r using Nat.strong_induction_on with
    | _ r ih =>
      intro v hv hP hr
      obtain ⟨x, hx, hstop | ⟨hxv, hPx, hlt⟩⟩ := h v hv hP
      · exact ⟨1, x, by omega, by simp [follow, hx], hstop⟩
      · have hlt' := Dijkstra.rank_lt hxv hlt
        obtain ⟨n, y, hn, hy, hstop⟩ := ih _ (hr ▸ hlt') x hxv hPx rfl
        refine ⟨n + 1, y, by omega, ?_, hstop⟩
        rw [follow, hx]
        exact hy
  obtain ⟨n, x, hn, hx⟩ := hrank _ v hv hP rfl
  have := Dijkstra.rank_lt_card hv d
  exact ⟨n, x, by omega, hx⟩

end LinkState
