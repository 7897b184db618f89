import Mathlib.Order.WithBot
import Mathlib.Order.BoundedOrder.Lattice

/-!
# Changes to partial maps

A partial map is a function `κ → WithBot ν`, with `⊥` where it has nothing. A `Delta κ ν` says
of each key whether it is left alone, dropped or set to a value.

There are two ways to carry a delta out. `patch` does what it says. `merge` is cautious: it
never replaces a value by a smaller one. Deltas add up with `overlay`, in which the later one
wins, and patching with the sum is patching with one after the other (`patch_accumulate`).

Merging does not go along with `overlay` in general: a key that is dropped and then set to a
smaller value is not set by a merge of the sum. `merge_accumulate`: it does in a `Rising`
history, in which no key is ever set to a smaller value than before.
-/

namespace LinkState

/-- What happens to a key. -/
inductive Change (ν : Type*)
  | drop
  | set (value : ν)
  deriving DecidableEq

/-- What happens to each key; `none` for nothing. -/
abbrev Delta (κ ν : Type*) := κ → Option (Change ν)

namespace Delta

variable {κ ν : Type*}

/-- The delta that changes nothing. -/
def none : Delta κ ν := fun _ => Option.none

/-- What a key is changed to. -/
def value : Change ν → WithBot ν
  | .drop => ⊥
  | .set v => v

/-- Carry a delta out. -/
def patch (d : Delta κ ν) (m : κ → WithBot ν) : κ → WithBot ν :=
  fun k => (d k).elim (m k) value

/-- Both deltas, the second over the first. -/
def overlay (d d' : Delta κ ν) : Delta κ ν := fun k => (d' k).or (d k)

/-- The sum of a list of deltas. -/
def accumulate (ds : List (Delta κ ν)) : Delta κ ν := ds.foldl overlay none

/-- Carry a list of deltas out. -/
def replay (m : κ → WithBot ν) (ds : List (Delta κ ν)) : κ → WithBot ν :=
  ds.foldl (fun m d => patch d m) m

@[simp] theorem replay_nil (m : κ → WithBot ν) : replay m [] = m := rfl

theorem replay_append (m : κ → WithBot ν) (ds es : List (Delta κ ν)) :
    replay m (ds ++ es) = replay (replay m ds) es :=
  List.foldl_append

@[simp] theorem patch_none (m : κ → WithBot ν) : patch none m = m := rfl

theorem patch_overlay (d d' : Delta κ ν) (m : κ → WithBot ν) :
    patch (overlay d d') m = patch d' (patch d m) := by
  funext k
  unfold patch overlay
  cases d' k <;> rfl

theorem patch_foldl_overlay (d : Delta κ ν) (ds : List (Delta κ ν)) (m : κ → WithBot ν) :
    patch (ds.foldl overlay d) m = replay (patch d m) ds := by
  induction ds generalizing d with
  | nil => rfl
  | cons e ds ih => rw [List.foldl_cons, ih, patch_overlay]; rfl

/-- **Patching with the sum is patching with one after the other.** -/
theorem patch_accumulate (ds : List (Delta κ ν)) (m : κ → WithBot ν) :
    patch (accumulate ds) m = replay m ds :=
  patch_foldl_overlay none ds m

/-- What the sum does to a key, one of the deltas does. -/
theorem exists_mem_of_accumulate {ds : List (Delta κ ν)} {k : κ} {c : Change ν}
    (h : accumulate ds k = some c) : ∃ d ∈ ds, d k = some c := by
  have hfold : ∀ (ds : List (Delta κ ν)) (d : Delta κ ν), ds.foldl overlay d k = some c →
      d k = some c ∨ ∃ e ∈ ds, e k = some c := by
    intro ds
    induction ds with
    | nil => exact fun d h => Or.inl h
    | cons e ds ih =>
      intro d h
      rcases ih (overlay d e) h with h | ⟨e', he', h⟩
      · cases hek : e k with
        | none => simp only [overlay, hek, Option.none_or] at h; exact Or.inl h
        | some c' =>
          simp only [overlay, hek, Option.some_or] at h
          exact Or.inr ⟨e, List.mem_cons_self, hek.trans h⟩
      · exact Or.inr ⟨e', List.mem_cons_of_mem _ he', h⟩
  exact (hfold ds none h).resolve_left (Option.some_ne_none c).symm

/-- A value at the end was there at the start or was set on the way. -/
theorem exists_mem_of_replay {m : κ → WithBot ν} {ds : List (Delta κ ν)} {k : κ} {v : ν}
    (h : replay m ds k = v) : m k = v ∨ ∃ d ∈ ds, d k = some (.set v) := by
  rw [← patch_accumulate] at h
  cases hd : accumulate ds k with
  | none => rw [patch, hd] at h; exact Or.inl h
  | some c =>
    rw [patch, hd] at h
    cases c with
    | drop => exact absurd h WithBot.bot_ne_coe
    | set w =>
      obtain rfl : w = v := WithBot.coe_injective h
      exact Or.inr (exists_mem_of_accumulate hd)

section order

variable [LinearOrder ν]

/-- Carry a delta out, but replace no value by a smaller one. -/
def merge (d : Delta κ ν) (m : κ → WithBot ν) : κ → WithBot ν :=
  fun k => (d k).elim (m k) fun
    | .drop => ⊥
    | .set v => m k ⊔ v

@[simp] theorem merge_none (m : κ → WithBot ν) : merge none m = m := rfl

/-- No key is set to a smaller value than a list of deltas sets it to. -/
def NotBelow (ds : List (Delta κ ν)) (d : Delta κ ν) : Prop :=
  ∀ e ∈ ds, ∀ k v w, e k = some (.set v) → d k = some (.set w) → v ≤ w

/-- No key is ever set to a smaller value than before. -/
def Rising (ds : List (Delta κ ν)) : Prop :=
  ds.Pairwise fun d e => ∀ k v w, d k = some (.set v) → e k = some (.set w) → v ≤ w

theorem rising_append_singleton {ds : List (Delta κ ν)} {d : Delta κ ν} :
    Rising (ds ++ [d]) ↔ Rising ds ∧ NotBelow ds d := by
  unfold Rising NotBelow
  simp [List.pairwise_append]

/-- A merge is a patch where no value is above what it would be set to. -/
theorem merge_eq_patch {d : Delta κ ν} {m : κ → WithBot ν}
    (h : ∀ k w, d k = some (.set w) → m k ≤ w) : merge d m = patch d m := by
  funext k
  unfold merge patch
  cases hd : d k with
  | none => rfl
  | some c =>
    cases c with
    | drop => rfl
    | set w => exact sup_of_le_right (h k w hd)

/-- A delta sets nothing to a smaller value than there is, and drops nothing. -/
structure Advances (d : Delta κ ν) (m : κ → WithBot ν) : Prop where
  le_of_set : ∀ k w, d k = some (.set w) → m k ≤ w
  ne_drop : ∀ k, d k ≠ some .drop

/-- **Who stands at some point of a rising history gets to its end by merging the sum of what
came after.** -/
theorem merge_accumulate {ds es : List (Delta κ ν)} (h : Rising (ds ++ es)) :
    merge (accumulate es) (replay ⊥ ds) = replay ⊥ (ds ++ es) := by
  rw [replay_append, ← patch_accumulate es]
  refine merge_eq_patch fun k w hw => ?_
  cases hm : replay (⊥ : κ → WithBot ν) ds k with
  | bot => exact bot_le
  | coe v =>
    obtain ⟨e, he, hew⟩ := exists_mem_of_accumulate hw
    obtain hbot | ⟨d, hd, hdv⟩ := exists_mem_of_replay hm
    · exact absurd hbot WithBot.bot_ne_coe
    · exact WithBot.coe_le_coe.2 ((List.pairwise_append.1 h).2.2 d hd e he k v w hdv hew)

/-- The part of a delta that a merge carries out. -/
def effective (d : Delta κ ν) (m : κ → WithBot ν) : Delta κ ν :=
  fun k => (d k).bind fun
    | .drop => if m k = ⊥ then Option.none else some .drop
    | .set v => if m k < v then some (.set v) else Option.none

section at_key

variable {d : Delta κ ν} {k : κ} {v : ν} (m : κ → WithBot ν)

theorem merge_of_none (h : d k = Option.none) : merge d m k = m k := by
  rw [merge, h]; rfl

theorem merge_of_drop (h : d k = some .drop) : merge d m k = ⊥ := by
  rw [merge, h]; rfl

theorem merge_of_set (h : d k = some (.set v)) : merge d m k = m k ⊔ v := by
  rw [merge, h]; rfl

theorem effective_of_none (h : d k = Option.none) : effective d m k = Option.none := by
  rw [effective, h]; rfl

theorem effective_of_drop (h : d k = some .drop) :
    effective d m k = if m k = ⊥ then Option.none else some .drop := by
  rw [effective, h]; rfl

theorem effective_of_set (h : d k = some (.set v)) :
    effective d m k = if m k < v then some (.set v) else Option.none := by
  rw [effective, h]; rfl

end at_key

theorem effective_eq_some {d : Delta κ ν} {m : κ → WithBot ν} {k : κ} {c : Change ν}
    (h : effective d m k = some c) :
    d k = some c ∧ (c = .drop ∧ m k ≠ ⊥ ∨ ∃ v, c = .set v ∧ m k < v) := by
  unfold effective at h
  obtain ⟨c', hc', h⟩ := Option.bind_eq_some_iff.1 h
  cases c' with
  | drop =>
    dsimp only at h
    split_ifs at h with hbot
    obtain rfl := Option.some.inj h
    exact ⟨hc', Or.inl ⟨rfl, hbot⟩⟩
  | set v =>
    dsimp only at h
    split_ifs at h with hlt
    obtain rfl := Option.some.inj h
    exact ⟨hc', Or.inr ⟨v, rfl, hlt⟩⟩

/-- **A merge is a patch with the part that is carried out.** -/
theorem patch_effective (d : Delta κ ν) (m : κ → WithBot ν) :
    patch (effective d m) m = merge d m := by
  funext k
  unfold patch
  cases hd : d k with
  | none => rw [effective_of_none m hd, merge_of_none m hd]; rfl
  | some c =>
    cases c with
    | drop =>
      rw [effective_of_drop m hd, merge_of_drop m hd]
      split_ifs with h
      · exact h
      · rfl
    | set v =>
      rw [effective_of_set m hd, merge_of_set m hd]
      split_ifs with h
      · exact (sup_of_le_right h.le).symm
      · exact (sup_of_le_left (not_lt.1 h)).symm

/-- A delta is carried out from `m` to `m'`, except perhaps where it sets a smaller value. -/
structure CarriedOut (d : Delta κ ν) (m m' : κ → WithBot ν) : Prop where
  eq_patch : ∀ k, (∀ w, d k = some (.set w) → m k ≤ w) → m' k = patch d m k
  eq_or : ∀ k (v : ν), m' k = v → m k = v ∨ d k = some (.set v)

theorem CarriedOut.eq_of_advances {d : Delta κ ν} {m m' : κ → WithBot ν} (h : CarriedOut d m m')
    (hd : Advances d m) : m' = patch d m := by
  funext k
  exact h.eq_patch k (hd.le_of_set k)

/-- **In a rising history the map is what the history says.** -/
theorem CarriedOut.eq_replay {ds : List (Delta κ ν)} {d : Delta κ ν} {m' : κ → WithBot ν}
    (h : CarriedOut d (replay ⊥ ds) m') (hd : NotBelow ds d) : m' = replay ⊥ (ds ++ [d]) := by
  rw [replay_append]
  funext k
  refine h.eq_patch k fun w hw => ?_
  cases hm : replay (⊥ : κ → WithBot ν) ds k with
  | bot => exact bot_le
  | coe v =>
    obtain hbot | ⟨e, he, hev⟩ := exists_mem_of_replay hm
    · exact absurd hbot WithBot.bot_ne_coe
    · exact WithBot.coe_le_coe.2 (hd e he k v w hev hw)

/-- What a merge carries out of a delta without drops advances. -/
theorem advances_effective {d : Delta κ ν} (h : ∀ k, d k ≠ some .drop) (m : κ → WithBot ν) :
    Advances (effective d m) m where
  le_of_set k w hw := by
    obtain ⟨-, ⟨hdrop, -⟩ | ⟨v, hv, hlt⟩⟩ := effective_eq_some hw
    · cases hdrop
    · cases hv
      exact hlt.le
  ne_drop k hk := h k (effective_eq_some hk).1

/-- Without drops a merge is a join. -/
theorem merge_eq_sup {d : Delta κ ν} (h : ∀ k, d k ≠ some .drop) (m : κ → WithBot ν) :
    merge d m = m ⊔ patch d ⊥ := by
  funext k
  have hk := h k
  show (d k).elim _ _ = m k ⊔ (d k).elim _ _
  cases hd : d k with
  | none => exact (sup_bot_eq (m k)).symm
  | some c =>
    cases c with
    | drop => exact absurd hd hk
    | set v => rfl

end order

end Delta

end LinkState
