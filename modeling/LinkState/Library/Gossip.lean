import Mathlib.Order.Bounds.Basic

/-!
# Gossip

Parties hold values of a join-semilattice. In a push one party learns the value of another; the
value of the other, or of both, may grow as well, but nobody comes to know more than what there
was altogether.

`isLUB_of_pushes`: when everybody has pushed to one party, and then that party to everybody, all
hold the join of what there was at the start.
-/

namespace LinkState

variable {ι α : Type*} [SemilatticeSup α]

/-- Nobody's value shrinks or goes beyond what there is altogether. -/
structure Spread (v v' : ι → α) : Prop where
  le : v ≤ v'
  bounded : ∀ b, (∀ k, v k ≤ b) → ∀ k, v' k ≤ b

/-- A push from `p.1` to `p.2`. -/
structure Push (p : ι × ι) (v v' : ι → α) : Prop extends Spread v v' where
  learned : v p.1 ≤ v' p.2

/-- Pushes one after the other. -/
inductive Pushes : List (ι × ι) → (ι → α) → (ι → α) → Prop
  | nil (v : ι → α) : Pushes [] v v
  | cons {p : ι × ι} {ps : List (ι × ι)} {v v' v'' : ι → α} :
      Push p v v' → Pushes ps v' v'' → Pushes (p :: ps) v v''

theorem Spread.refl (v : ι → α) : Spread v v := ⟨le_rfl, fun _ h => h⟩

theorem Spread.trans {v v' v'' : ι → α} (h : Spread v v') (h' : Spread v' v'') : Spread v v'' where
  le := h.le.trans h'.le
  bounded b hb := h'.bounded b (h.bounded b hb)

theorem Pushes.spread {ps : List (ι × ι)} {v v' : ι → α} (h : Pushes ps v v') : Spread v v' := by
  induction h with
  | nil v => exact Spread.refl v
  | cons hpush _ ih => exact hpush.toSpread.trans ih

theorem pushes_append {ps qs : List (ι × ι)} {v v'' : ι → α} (h : Pushes (ps ++ qs) v v'') :
    ∃ v', Pushes ps v v' ∧ Pushes qs v' v'' := by
  induction ps generalizing v with
  | nil => exact ⟨v, Pushes.nil v, h⟩
  | cons p ps ih =>
    cases h with
    | cons hpush hrest =>
      obtain ⟨v', hps, hqs⟩ := ih hrest
      exact ⟨v', Pushes.cons hpush hps, hqs⟩

/-- What is pushed arrives, and stays. -/
theorem Pushes.learned {ps : List (ι × ι)} {v v' : ι → α} (h : Pushes ps v v') {p : ι × ι}
    (hp : p ∈ ps) : v p.1 ≤ v' p.2 := by
  induction h with
  | nil v => simp at hp
  | cons hpush hrest ih =>
    rcases List.mem_cons.1 hp with rfl | hp
    · exact hpush.learned.trans (hrest.spread.le _)
    · exact (hpush.le _).trans (ih hp)

/-- **After everybody pushed to one party and that party to everybody, all hold the join.** -/
theorem isLUB_of_pushes {is : List ι} (hall : ∀ i, i ∈ is) {hub : ι} {v v' : ι → α}
    (h : Pushes (is.map (·, hub) ++ is.map (hub, ·)) v v') (i : ι) :
    IsLUB (Set.range v) (v' i) := by
  obtain ⟨u, hcollect, hspread⟩ := pushes_append h
  constructor
  · rintro _ ⟨k, rfl⟩
    have hin := hcollect.learned (List.mem_map_of_mem (hall k) : (k, hub) ∈ is.map (·, hub))
    have hout := hspread.learned (List.mem_map_of_mem (hall i) : (hub, i) ∈ is.map (hub, ·))
    exact hin.trans hout
  · intro b hb
    exact h.spread.bounded b (fun k => hb ⟨k, rfl⟩) i

end LinkState
