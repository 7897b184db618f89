import LinkState.Library.Run
import Mathlib.Dynamics.PeriodicPts.Defs

/-!
# Counting changes

A system has a version, which some of its steps move on by `next`. `Counted` says that a step does
so exactly if it changes the mark of the state, and that a step which does not leaves the whole
content alone. Then the version after a run is the version before, moved on once for each change
(`version_run`); and as long as `next` has not come round, two moments of a run with one version
have one content (`content_run_of_version_eq`).
-/

namespace LinkState

variable {σ ε ν μ κ : Type*}

/-- The version counts the change from one state to another. -/
def Counted (version : σ → ν) (next : ν → ν) (mark : σ → μ) (content : σ → κ) (s t : σ) : Prop :=
  (mark t ≠ mark s ∧ version t = next (version s)) ∨
    (mark t = mark s ∧ content t = content s ∧ version t = version s)

open Classical in
/-- How many steps of a run change the mark. -/
noncomputable def changes (step : σ → ε → σ) (mark : σ → μ) (s : σ) : List ε → Nat
  | [] => 0
  | e :: es => (if mark (step s e) ≠ mark s then 1 else 0) + changes step mark (step s e) es

variable {step : σ → ε → σ} {version : σ → ν} {next : ν → ν} {mark : σ → μ} {content : σ → κ}

/-- **The version is the number of changes.** -/
theorem version_run (hstep : ∀ s e, Counted version next mark content s (step s e)) (s : σ)
    (es : List ε) : version (run step s es) = next^[changes step mark s es] (version s) := by
  induction es generalizing s with
  | nil => rfl
  | cons e es ih =>
    rw [run_cons, ih, changes]
    obtain ⟨hmark, hversion⟩ | ⟨hmark, -, hversion⟩ := hstep s e
    · rw [if_pos hmark, hversion, Nat.add_comm, Function.iterate_succ_apply]
    · rw [if_neg (not_not.2 hmark), hversion, Nat.zero_add]

/-- Without a change the content stays. -/
theorem content_run_of_changes_eq_zero
    (hstep : ∀ s e, Counted version next mark content s (step s e)) {s : σ} {es : List ε}
    (h : changes step mark s es = 0) : content (run step s es) = content s := by
  induction es generalizing s with
  | nil => rfl
  | cons e es ih =>
    rw [changes, Nat.add_eq_zero_iff] at h
    obtain ⟨hmark, -⟩ | ⟨-, hcontent, -⟩ := hstep s e
    · simp [hmark] at h
    · rw [run_cons, ih h.2, hcontent]

/-- **Equal versions, equal contents**, as long as the versions have not come round. -/
theorem content_run_of_version_eq
    (hstep : ∀ s e, Counted version next mark content s (step s e)) {s : σ} {es : List ε}
    (hfew : changes step mark s es < Function.minimalPeriod next (version s))
    (h : version (run step s es) = version s) : content (run step s es) = content s := by
  refine content_run_of_changes_eq_zero hstep ?_
  rw [version_run hstep] at h
  exact Function.IsPeriodicPt.eq_zero_of_lt_minimalPeriod h hfew

end LinkState
