import Mathlib.Logic.Function.Basic

/-!
# Writes under way

Writes to a memory are sent one after the other and carried out later. `settle m ws` is what the
memory `m` holds when all of them have been.

* `settle_eq`: a value that no write of a key brings was there before, and no write of the key is
  under way.
* `settle_eraseIdx`: carrying out a write before its turn makes no new `v`, unless the write
  overtakes one of `v` to its key.
-/

namespace LinkState

/-- A write of a value to a key. -/
structure Write (κ β : Type*) where
  key : κ
  value : β

variable {κ β : Type*} [DecidableEq κ]

def Write.apply (w : Write κ β) (m : κ → β) : κ → β := Function.update m w.key w.value

@[simp] theorem Write.apply_key (w : Write κ β) (m : κ → β) : w.apply m w.key = w.value :=
  Function.update_self ..

theorem Write.apply_of_ne {w : Write κ β} {k : κ} (h : w.key ≠ k) (m : κ → β) :
    w.apply m k = m k :=
  Function.update_of_ne h.symm ..

/-- The memory after all writes. -/
def settle (m : κ → β) : List (Write κ β) → κ → β
  | [] => m
  | w :: ws => settle (w.apply m) ws

@[simp] theorem settle_nil (m : κ → β) : settle m [] = m := rfl
@[simp] theorem settle_cons (m : κ → β) (w : Write κ β) (ws : List (Write κ β)) :
    settle m (w :: ws) = settle (w.apply m) ws := rfl

theorem settle_append (m : κ → β) (ws ws' : List (Write κ β)) :
    settle m (ws ++ ws') = settle (settle m ws) ws' := by
  induction ws generalizing m with
  | nil => rfl
  | cons w ws ih => exact ih _

/-- A value that no write of the key brings was there before. -/
theorem settle_eq {m : κ → β} {ws : List (Write κ β)} {k : κ} {v : β}
    (hne : ∀ w ∈ ws, w.key = k → w.value ≠ v) (h : settle m ws k = v) :
    m k = v ∧ ∀ w ∈ ws, w.key ≠ k := by
  induction ws generalizing m with
  | nil => exact ⟨h, by simp⟩
  | cons w ws ih =>
    rw [settle_cons] at h
    obtain ⟨hm, hws⟩ := ih (fun w' hw' => hne w' (List.mem_cons_of_mem _ hw')) h
    have hkey : w.key ≠ k := by
      intro hk
      refine hne w List.mem_cons_self hk ?_
      rwa [← hk, Write.apply_key] at hm
    rw [Write.apply_of_ne hkey] at hm
    exact ⟨hm, List.forall_mem_cons.2 ⟨hkey, hws⟩⟩

/-- A memory that has a value where another one has it still has it after the same writes. -/
theorem settle_mono {m m' : κ → β} {k : κ} {v : β} (hm : m k = v → m' k = v)
    {ws : List (Write κ β)} (h : settle m ws k = v) : settle m' ws k = v := by
  induction ws generalizing m m' with
  | nil => exact hm h
  | cons w ws ih =>
    refine ih (fun hw => ?_) h
    by_cases hk : w.key = k
    · subst hk
      rwa [Write.apply_key] at hw ⊢
    · rw [Write.apply_of_ne hk] at hw ⊢
      exact hm hw

/-- The `i`-th write overtakes no write of `v` to its key, unless it writes `v` itself. -/
def InTurn (v : β) (ws : List (Write κ β)) (i : Nat) : Prop :=
  ∀ w ∈ ws[i]?, ∀ w' ∈ ws.take i, w'.key = w.key → w'.value = v → w.value = v

/-- A write that is in turn can be carried out at once: where there is a `v` in the end, there
would be one too if all writes were carried out in order. -/
theorem settle_eraseIdx {m : κ → β} {ws : List (Write κ β)} {i : Nat} {w : Write κ β} {k : κ}
    {v : β} (hi : ws[i]? = some w) (hturn : InTurn v ws i)
    (h : settle (w.apply m) (ws.eraseIdx i) k = v) : settle m ws k = v := by
  induction ws generalizing m i with
  | nil => simp at hi
  | cons w' ws ih =>
    cases i with
    | zero =>
      obtain rfl : w' = w := by simpa using hi
      exact h
    | succ i =>
      have hi' : ws[i]? = some w := by simpa using hi
      have hhead : w'.key = w.key → w'.value = v → w.value = v := hturn w hi w' (by simp)
      have htail : InTurn v ws i := by
        intro u hu u' hu'
        exact hturn u (by simpa using hu) u' (List.mem_cons_of_mem _ hu')
      rw [List.eraseIdx_cons_succ, settle_cons] at h
      refine ih hi' htail (settle_mono (fun hm => ?_) h)
      -- The two writes at the front the other way round
      by_cases hk : w.key = k
      · subst hk
        rw [Write.apply_key]
        by_cases hk' : w'.key = w.key
        · rw [← hk', Write.apply_key] at hm
          exact hhead hk' hm
        · rwa [Write.apply_of_ne hk', Write.apply_key] at hm
      · rw [Write.apply_of_ne hk]
        by_cases hk' : w'.key = k
        · subst hk'
          rwa [Write.apply_key] at hm ⊢
        · rw [Write.apply_of_ne hk'] at hm ⊢
          rwa [Write.apply_of_ne hk] at hm

end LinkState
