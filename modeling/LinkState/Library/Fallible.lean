import LinkState.Library.Loop
import Mathlib.Tactic.Common

/-!
# Computations and loops that may fail

`bind_eq_ok` takes a computation that succeeded apart into its steps. `foldlM_ok_induction` is the
invariant rule of a loop that stops at the first failure: the invariant speaks of the entries done
so far, and a loop that runs to its end has done them all.

`Runs x P` says that a computation does succeed, with a result in `P`. `Runs.bind` puts steps
together, and `runs_loopM_sim` is the rule of a loop that does step by step what a loop that cannot
fail does.
-/

namespace LinkState

variable {α β σ ε : Type}

@[simp] theorem ok_bind (a : α) (f : α → Except ε β) : (Except.ok a >>= f) = f a := rfl

@[simp] theorem error_bind (e : ε) (f : α → Except ε β) :
    ((Except.error e : Except ε α) >>= f) = .error e := rfl

theorem bind_eq_ok {x : Except ε α} {f : α → Except ε β} {b : β} :
    x >>= f = .ok b ↔ ∃ a, x = .ok a ∧ f a = .ok b := by
  cases x with
  | error e => exact ⟨nofun, nofun⟩
  | ok a => exact ⟨fun h => ⟨a, rfl, h⟩, fun ⟨_, ha, h⟩ => by cases ha; exact h⟩

theorem pure_eq_ok {a b : α} : (pure a : Except ε α) = .ok b ↔ a = b :=
  ⟨Except.ok.inj, congrArg Except.ok⟩

/-- Go on if a condition holds. -/
def require (p : Prop) [Decidable p] (e : ε) : Except ε Unit := if p then .ok () else .error e

theorem require_eq_ok {p : Prop} [Decidable p] {e : ε} {u : Unit} :
    require p e = .ok u ↔ p := by
  by_cases hp : p
  · simp [require, hp]
  · simp [require, hp]

/-- A value, or the failure of its absence. -/
def orError (x : Option α) (e : ε) : Except ε α :=
  match x with
  | some a => .ok a
  | none => .error e

theorem orError_eq_ok {x : Option α} {e : ε} {a : α} : orError x e = .ok a ↔ x = some a := by
  cases x with
  | none => exact ⟨nofun, nofun⟩
  | some b => simp [orError]

/-- A loop over richer states that runs, state by state, as one over plainer states does. -/
theorem map_foldlM {τ : Type} {v : σ → τ} {f : σ → α → Except ε σ} {g : τ → α → Except ε τ}
    (h : ∀ s a, v <$> f s a = g (v s) a) (l : List α) (s : σ) :
    v <$> l.foldlM f s = l.foldlM g (v s) := by
  induction l generalizing s with
  | nil => rfl
  | cons a l ih =>
    rw [List.foldlM_cons, List.foldlM_cons, map_bind, ← h, bind_map_left]
    exact bind_congr fun s' => ih s'

/-- The loop from some point on. -/
theorem foldlM_ok_induction_from {P : List α → σ → Prop} {f : σ → α → Except ε σ}
    (hstep : ∀ done a s s', P done s → f s a = .ok s' → P (done ++ [a]) s')
    (l : List α) {done : List α} {s s' : σ} (hs : P done s) (h : l.foldlM f s = .ok s') :
    P (done ++ l) s' := by
  induction l generalizing done s with
  | nil =>
    rw [List.foldlM_nil, pure_eq_ok] at h
    rw [List.append_nil, ← h]
    exact hs
  | cons a l ih =>
    rw [List.foldlM_cons, bind_eq_ok] at h
    obtain ⟨s₁, hfirst, hrest⟩ := h
    rw [List.append_cons]
    exact ih (hstep done a s s₁ hs hfirst) hrest

/-- **A loop that may fail.** -/
theorem foldlM_ok_induction {P : List α → σ → Prop} {f : σ → α → Except ε σ}
    (hstep : ∀ done a s s', P done s → f s a = .ok s' → P (done ++ [a]) s')
    (l : List α) {s s' : σ} (hs : P [] s) (h : l.foldlM f s = .ok s') : P l s' :=
  foldlM_ok_induction_from hstep l hs h

/-! ## Computations that do not fail -/

/-- The computation succeeds, with a result in `P`. -/
def Runs (x : Except ε α) (P : α → Prop) : Prop := ∃ a, x = .ok a ∧ P a

theorem Runs.ok {P : α → Prop} {a : α} (h : P a) : Runs (.ok a : Except ε α) P := ⟨a, rfl, h⟩

theorem Runs.bind {x : Except ε α} {f : α → Except ε β} {P : α → Prop} {Q : β → Prop}
    (h : Runs x P) (hf : ∀ a, P a → Runs (f a) Q) : Runs (x >>= f) Q := by
  obtain ⟨a, rfl, ha⟩ := h
  exact hf a ha

/-- A step whose result is known. -/
theorem Runs.bind_eq {x : Except ε α} {f : α → Except ε β} {a : α} {Q : β → Prop}
    (h : Runs x (· = a)) (hf : Runs (f a) Q) : Runs (x >>= f) Q :=
  h.bind fun _ heq => heq ▸ hf

theorem Runs.imp {x : Except ε α} {P Q : α → Prop} (h : Runs x P) (hPQ : ∀ a, P a → Q a) :
    Runs x Q := by
  obtain ⟨a, ha, hP⟩ := h
  exact ⟨a, ha, hPQ a hP⟩

/-- A loop over a list that may fail, beside one that cannot. -/
theorem runs_foldlM_sim {τ : Type*} {R : σ → τ → Prop} {f : σ → α → Except ε σ} {g : τ → α → τ}
    {l : List α} (hstep : ∀ s t a, a ∈ l → R s t → Runs (f s a) (R · (g t a))) {s : σ} {t : τ}
    (h : R s t) : Runs (l.foldlM f s) (R · (l.foldl g t)) := by
  induction l generalizing s t with
  | nil => exact Runs.ok h
  | cons a l ih =>
    rw [List.foldlM_cons, List.foldl_cons]
    refine (hstep s t a List.mem_cons_self h).bind fun s' hs' => ?_
    exact ih (fun s t b hb => hstep s t b (List.mem_cons_of_mem a hb)) hs'

/-- A search whose tests do not fail. -/
theorem runs_anyM {f : α → Except ε Bool} {g : α → Bool} {l : List α}
    (h : ∀ a ∈ l, Runs (f a) (· = g a)) : Runs (l.anyM f) (· = l.any g) := by
  induction l with
  | nil => exact Runs.ok rfl
  | cons a l ih =>
    obtain ⟨b, hb, rfl⟩ := h a List.mem_cons_self
    rw [List.anyM, hb, ok_bind, List.any_cons]
    cases g a with
    | true => exact Runs.ok rfl
    | false => exact ih fun b hb => h b (List.mem_cons_of_mem a hb)

/-- `for (i = lo; i < hi; i++)` with a body that may fail. -/
def loopM (lo hi : Nat) (body : Nat → σ → Except ε σ) (s : σ) : Except ε σ :=
  (List.range' lo (hi - lo)).foldlM (fun s i => body i s) s

theorem loopM_of_le {lo hi : Nat} (h : hi ≤ lo) (body : Nat → σ → Except ε σ) (s : σ) :
    loopM lo hi body s = .ok s := by
  rw [loopM, Nat.sub_eq_zero_of_le h]
  rfl

theorem loopM_succ {lo hi : Nat} (h : lo < hi) (body : Nat → σ → Except ε σ) (s : σ) :
    loopM lo hi body s = body lo s >>= loopM (lo + 1) hi body := by
  have hk : hi - lo = (hi - (lo + 1)) + 1 := by omega
  rw [loopM, hk, List.range'_succ, List.foldlM_cons]
  rfl

/-- **The invariant rule** of a loop that does not fail. -/
theorem runs_loopM {lo hi : Nat} {body : Nat → σ → Except ε σ} {s : σ} {P : Nat → σ → Prop}
    (hle : lo ≤ hi) (hs : P lo s)
    (hstep : ∀ i s, lo ≤ i → i < hi → P i s → Runs (body i s) (P (i + 1))) :
    Runs (loopM lo hi body s) (P hi) := by
  obtain ⟨d, hd⟩ := Nat.exists_eq_add_of_le hle
  induction d generalizing lo s with
  | zero =>
    obtain rfl : hi = lo := hd
    rw [loopM_of_le le_rfl]
    exact Runs.ok hs
  | succ d ih =>
    rw [loopM_succ (by omega)]
    refine (hstep lo s le_rfl (by omega) hs).bind fun s' hs' => ?_
    exact ih (by omega) hs' (fun i s hi => hstep i s (by omega)) (by omega)

/-- A loop over the indices of a list, beside one over its entries. -/
theorem runs_loopM_foldl {τ : Type*} {R : σ → τ → Prop} {body : Nat → σ → Except ε σ}
    {g : τ → α → τ} {l : List α}
    (hstep : ∀ (i : Nat) (hi : i < l.length) s t, R s t → Runs (body i s) (R · (g t l[i])))
    {s : σ} {t : τ} (h : R s t) : Runs (loopM 0 l.length body s) (R · (l.foldl g t)) := by
  have hall : l.foldl g t = (l.take l.length).foldl g t := by rw [List.take_length]
  rw [hall]
  refine runs_loopM (P := fun i s => R s ((l.take i).foldl g t)) (Nat.zero_le _) h ?_
  intro i s _ hi hs
  rw [List.take_succ_eq_append_getElem hi, List.foldl_append]
  exact hstep i hi s _ hs

/-- **A loop that may fail, beside one that cannot.** -/
theorem runs_loopM_sim {τ : Type*} {lo hi : Nat} {R : σ → τ → Prop}
    {body : Nat → σ → Except ε σ} {f : Nat → τ → τ}
    (hstep : ∀ i s t, lo ≤ i → i < hi → R s t → Runs (body i s) (R · (f i t))) {s : σ} {t : τ}
    (h : R s t) : Runs (loopM lo hi body s) (R · (loop lo hi f t)) := by
  refine runs_foldlM_sim (fun s t i hi hst => hstep i s t ?_ ?_ hst) h
  · rw [List.mem_range'_1] at hi
    omega
  · rw [List.mem_range'_1] at hi
    omega

end LinkState
