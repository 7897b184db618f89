import Mathlib.Data.List.Basic

/-!
# Runs of a transition function

A system is a function `step : σ → ε → σ` from a state and an event to the next state. A run
is a list of events; `run step s es` is the state it ends in.

* `Along step P s es`: `P` holds of the first state and of the state after every event.
* `Meets step ok s es`: every event is met in a state in which `ok` allows it.

`run_induction` packages the induction over a run once: what a step keeps, a run keeps.
`along_iff_meets` is for a property that an event can break: when, in the states where the
property and an invariant hold, a step keeps the property exactly if `ok` allows it, a run
keeps the property throughout exactly if `ok` allows every event.
-/

namespace LinkState

variable {σ ε : Type*} (step : σ → ε → σ)

/-- The state after a list of events. -/
def run (s : σ) (es : List ε) : σ := es.foldl step s

@[simp] theorem run_nil (s : σ) : run step s [] = s := rfl
@[simp] theorem run_cons (s : σ) (e : ε) (es : List ε) :
    run step s (e :: es) = run step (step s e) es := rfl

theorem run_append (s : σ) (es es' : List ε) :
    run step s (es ++ es') = run step (run step s es) es' :=
  List.foldl_append

/-- `P` holds of every state of the run, the first and the last included. -/
def Along (P : σ → Prop) (s : σ) : List ε → Prop
  | [] => P s
  | e :: es => P s ∧ Along P (step s e) es

/-- Every event of the run is allowed in the state it is met in. -/
def Meets (ok : σ → ε → Prop) (s : σ) : List ε → Prop
  | [] => True
  | e :: es => ok s e ∧ Meets ok (step s e) es

instance Along.decidable (P : σ → Prop) [DecidablePred P] :
    ∀ (s : σ) (es : List ε), Decidable (Along step P s es)
  | s, [] => inferInstanceAs (Decidable (P s))
  | s, e :: es =>
    have := Along.decidable P (step s e) es
    inferInstanceAs (Decidable (P s ∧ Along step P (step s e) es))

instance Meets.decidable (ok : σ → ε → Prop) [∀ s e, Decidable (ok s e)] :
    ∀ (s : σ) (es : List ε), Decidable (Meets step ok s es)
  | _, [] => inferInstanceAs (Decidable True)
  | s, e :: es =>
    have := Meets.decidable ok (step s e) es
    inferInstanceAs (Decidable (ok s e ∧ Meets step ok (step s e) es))

variable {step}

theorem Along.first {P : σ → Prop} {s : σ} {es : List ε} (h : Along step P s es) : P s := by
  cases es with
  | nil => exact h
  | cons e es => exact h.1

theorem Along.last {P : σ → Prop} {s : σ} {es : List ε} (h : Along step P s es) :
    P (run step s es) := by
  induction es generalizing s with
  | nil => exact h
  | cons e es ih => exact ih h.2

theorem Along.imp {P Q : σ → Prop} (hPQ : ∀ s, P s → Q s) {s : σ} {es : List ε}
    (h : Along step P s es) : Along step Q s es := by
  induction es generalizing s with
  | nil => exact hPQ s h
  | cons e es ih => exact ⟨hPQ s h.1, ih h.2⟩

theorem along_append {P : σ → Prop} {s : σ} {es es' : List ε} :
    Along step P s (es ++ es') ↔ Along step P s es ∧ Along step P (run step s es) es' := by
  induction es generalizing s with
  | nil =>
    constructor
    · intro h
      exact ⟨h.first, h⟩
    · intro h
      exact h.2
  | cons e es ih => simp [Along, ih, and_assoc]

/-- What is allowed in any state is allowed in the state it meets. -/
theorem meets_of_forall {ok : σ → ε → Prop} {es : List ε} (h : ∀ s, ∀ e ∈ es, ok s e) (s : σ) :
    Meets step ok s es := by
  induction es generalizing s with
  | nil => trivial
  | cons e es ih =>
    exact ⟨h s e List.mem_cons_self, ih (fun s e he => h s e (List.mem_cons_of_mem _ he)) _⟩

theorem Meets.imp {ok ok' : σ → ε → Prop} (h : ∀ s e, ok s e → ok' s e) {s : σ} {es : List ε}
    (hes : Meets step ok s es) : Meets step ok' s es := by
  induction es generalizing s with
  | nil => trivial
  | cons e es ih => exact ⟨h s e hes.1, ih hes.2⟩

theorem meets_append {ok : σ → ε → Prop} {s : σ} {es es' : List ε} :
    Meets step ok s (es ++ es') ↔ Meets step ok s es ∧ Meets step ok (run step s es) es' := by
  induction es generalizing s with
  | nil => simp [Meets]
  | cons e es ih => simp [Meets, ih, and_assoc]

/-- What every allowed step keeps holds along every run of allowed steps. -/
theorem along_of_meets {P : σ → Prop} {ok : σ → ε → Prop}
    (hstep : ∀ s e, P s → ok s e → P (step s e)) {s : σ} {es : List ε} (hs : P s)
    (hok : Meets step ok s es) : Along step P s es := by
  induction es generalizing s with
  | nil => exact hs
  | cons e es ih => exact ⟨hs, ih (hstep s e hs hok.1) hok.2⟩

/-- What every step keeps holds along every run. -/
theorem along_of_step {P : σ → Prop} (hstep : ∀ s e, P s → P (step s e)) {s : σ} (hs : P s)
    (es : List ε) : Along step P s es := by
  induction es generalizing s with
  | nil => exact hs
  | cons e es ih => exact ⟨hs, ih (hstep s e hs)⟩

/-- What every step keeps, every run keeps. -/
theorem run_induction {P : σ → Prop} (hstep : ∀ s e, P s → P (step s e)) {s : σ} (hs : P s)
    (es : List ε) : P (run step s es) := by
  induction es generalizing s with
  | nil => exact hs
  | cons e es ih => exact ih (hstep s e hs)

/-- **A run keeps a property throughout exactly if every event is allowed**, when a single step
keeps it exactly if its event is allowed. -/
theorem along_iff_meets {I P : σ → Prop} {ok : σ → ε → Prop}
    (hI : ∀ s e, I s → I (step s e))
    (hiff : ∀ s e, I s → P s → (P (step s e) ↔ ok s e)) {s : σ} {es : List ε}
    (hIs : I s) (hPs : P s) : Along step P s es ↔ Meets step ok s es := by
  induction es generalizing s with
  | nil => exact ⟨fun _ => trivial, fun _ => hPs⟩
  | cons e es ih =>
    constructor
    · rintro ⟨-, h⟩
      have hP : P (step s e) := h.first
      exact ⟨(hiff s e hIs hPs).1 hP, (ih (hI s e hIs) hP).1 h⟩
    · rintro ⟨he, h⟩
      have hP : P (step s e) := (hiff s e hIs hPs).2 he
      exact ⟨hPs, (ih (hI s e hIs) hP).2 h⟩

end LinkState
