import LinkState.Library.BitField
import LinkState.Library.Run
import LinkState.SequencingManager

/-!
# Sequence numbers on their way to another router

A router announces its combined number and a receiver splits it again. Packing does not mask,
so the trip is exact only while every counter stays inside its field: 24 bits for the Name
counter, 20 bits for the Adjacency and the Coordinate counter.

1. **A state makes the trip exactly if its counters fit** (`trips_iff_fits`).
2. **A run keeps every number exactly if no counter reaches its field width**
   (`survives_iff_fitsFor`): the counter at the start plus the increments of its type stay
   below the width. The start is zero, or ten past each saved field.
3. A saved Adjacency field ten below its width already starts one past it
   (`not_survives_saved`).
-/

namespace LinkState

namespace SequencingManager

/-! ## The runs -/

/-- The three counters. -/
inductive Counter
  | name
  | adj
  | cor
  deriving DecidableEq

/-- The bits of a counter's field. -/
def Counter.width : Counter → Nat
  | .name => 24
  | .adj => 20
  | .cor => 20

def counter (sm : SequencingManager) : Counter → UInt64
  | .name => sm.nameLsaSeq
  | .adj => sm.adjLsaSeq
  | .cor => sm.corLsaSeq

/-- What moves a counter: an increment, or a refresh that sets it to its value plus one. -/
inductive SeqStep
  | increase (c : Counter)
  | refresh (c : Counter)
  deriving DecidableEq

def SeqStep.of : SeqStep → Counter
  | .increase c => c
  | .refresh c => c

@[simp] theorem SeqStep.of_increase (c : Counter) : (SeqStep.increase c).of = c := rfl
@[simp] theorem SeqStep.of_refresh (c : Counter) : (SeqStep.refresh c).of = c := rfl

def seqStep (sm : SequencingManager) : SeqStep → SequencingManager
  | .increase .name => sm.increaseNameLsaSeq
  | .increase .adj => sm.increaseAdjLsaSeq
  | .increase .cor => sm.increaseCorLsaSeq
  | .refresh .name => sm.setNameLsaSeq (sm.nameLsaSeq + 1)
  | .refresh .adj => sm.setAdjLsaSeq (sm.adjLsaSeq + 1)
  | .refresh .cor => sm.setCorLsaSeq (sm.corLsaSeq + 1)

/-- The receiver's three numbers are the sender's. -/
def Trips (sm : SequencingManager) : Prop :=
  ∀ c, (ofCombined sm.combinedSeqNo).counter c = sm.counter c

/-- An event increases the combined number. -/
def Ascends (sm : SequencingManager) (e : SeqStep) : Prop :=
  sm.combinedSeqNo < (seqStep sm e).combinedSeqNo

/-- Every state of the run makes the trip and every event increases the combined number. -/
def Survives (sm : SequencingManager) (es : List SeqStep) : Prop :=
  Along seqStep Trips sm es ∧ Meets seqStep Ascends sm es

/-! ## The condition -/

/-- Every counter is inside its field. -/
def Fits (sm : SequencingManager) : Prop := ∀ c, (sm.counter c).toNat < 2 ^ c.width

instance (sm : SequencingManager) : Decidable (Fits sm) :=
  decidable_of_iff (∀ c ∈ [Counter.name, .adj, .cor], (sm.counter c).toNat < 2 ^ c.width)
    ⟨fun h c => h c (by cases c <;> decide), fun h c _ => h c⟩

/-- There is room in its field for the counter that an event moves. -/
def Room (sm : SequencingManager) (e : SeqStep) : Prop :=
  (sm.counter e.of).toNat + 1 < 2 ^ e.of.width

/-- The field of a counter in a saved number. -/
def savedField (saved : UInt64) : Counter → Nat
  | .name => saved.toNat / 2 ^ 40 % 2 ^ 24
  | .adj => saved.toNat % 2 ^ 20
  | .cor => saved.toNat / 2 ^ 20 % 2 ^ 20

/-- Where a counter starts: ten past its saved field, or zero. -/
def startOf (file : Option UInt64) (c : Counter) : Nat :=
  match file with
  | some saved => savedField saved c + 10
  | none => 0

/-- How many events of the run move a counter. -/
def moves (es : List SeqStep) (c : Counter) : Nat := es.countP fun e => e.of = c

/-- No counter reaches its field width during the run. -/
def FitsFor (file : Option UInt64) (es : List SeqStep) : Prop :=
  ∀ c, startOf file c + moves es c < 2 ^ c.width

/-! ## Packing and splitting -/

/-- The combined number is the one the counters give. -/
def Packed (sm : SequencingManager) : Prop :=
  sm.combinedSeqNo = sm.combineSequenceNo.combinedSeqNo

theorem packed_seqStep (sm : SequencingManager) (e : SeqStep) : Packed (seqStep sm e) := by
  cases e with
  | increase c => cases c <;> rfl
  | refresh c => cases c <;> rfl

theorem counter_seqStep (sm : SequencingManager) (e : SeqStep) (c : Counter) :
    (seqStep sm e).counter c = if e.of = c then sm.counter c + 1 else sm.counter c := by
  cases e with
  | increase c' => cases c' <;> cases c <;> rfl
  | refresh c' => cases c' <;> cases c <;> rfl

/-- Splitting takes each field out of the number. -/
theorem toNat_counter_splitSequenceNo (x : UInt64) (c : Counter) :
    ((splitSequenceNo x).counter c).toNat = savedField x c := by
  cases c with
  | name =>
    show ((x >>> 40) &&& 0xFFFFFF).toNat = _
    rw [UInt64.toNat_and, UInt64.toNat_shiftRight]
    exact BitField.shiftRight_land_mask x.toNat 40 24
  | adj =>
    show (x &&& 0xFFFFF).toNat = _
    rw [UInt64.toNat_and]
    exact Nat.and_two_pow_sub_one_eq_mod x.toNat 20
  | cor =>
    show ((x >>> 20) &&& 0xFFFFF).toNat = _
    rw [UInt64.toNat_and, UInt64.toNat_shiftRight]
    exact BitField.shiftRight_land_mask x.toNat 20 20

theorem savedField_lt (x : UInt64) (c : Counter) : savedField x c < 2 ^ c.width := by
  cases c <;> exact Nat.mod_lt _ (by decide)

/-- Counters inside their fields are packed side by side. -/
theorem toNat_combineSequenceNo {sm : SequencingManager} (h : Fits sm) :
    sm.combineSequenceNo.combinedSeqNo.toNat =
      sm.adjLsaSeq.toNat + 2 ^ 20 * (sm.corLsaSeq.toNat + 2 ^ 20 * sm.nameLsaSeq.toNat) := by
  have hn : sm.nameLsaSeq.toNat < 2 ^ 24 := h .name
  have ha : sm.adjLsaSeq.toNat < 2 ^ 20 := h .adj
  have hc : sm.corLsaSeq.toNat < 2 ^ 20 := h .cor
  have hcor : (sm.corLsaSeq <<< 20).toNat = sm.corLsaSeq.toNat <<< 20 := by
    refine BitField.toNat_shiftLeft (by decide) ?_
    show 2 ^ 20 * _ < _
    omega
  have hname : (sm.nameLsaSeq <<< 40).toNat = sm.nameLsaSeq.toNat <<< 40 := by
    refine BitField.toNat_shiftLeft (by decide) ?_
    show 2 ^ 40 * _ < _
    omega
  show ((0 : UInt64) ||| sm.adjLsaSeq ||| (sm.corLsaSeq <<< 20) |||
    (sm.nameLsaSeq <<< 40)).toNat = _
  rw [UInt64.toNat_or, UInt64.toNat_or, UInt64.toNat_or, hcor, hname, UInt64.toNat_zero,
    Nat.zero_or, BitField.lor_shiftLeft _ ha, BitField.lor_shiftLeft]
  · omega
  · omega

/-- **A state makes the trip exactly if its counters fit.** -/
theorem trips_iff_fits {sm : SequencingManager} (hp : Packed sm) : Trips sm ↔ Fits sm := by
  constructor
  · -- What the receiver reads is masked, so it is inside the field.
    intro h c
    rw [← h c, ofCombined, toNat_counter_splitSequenceNo]
    exact savedField_lt _ c
  · intro h c
    apply UInt64.toNat_inj.1
    have hn : sm.nameLsaSeq.toNat < 2 ^ 24 := h .name
    have ha : sm.adjLsaSeq.toNat < 2 ^ 20 := h .adj
    have hc : sm.corLsaSeq.toNat < 2 ^ 20 := h .cor
    rw [ofCombined, toNat_counter_splitSequenceNo, hp]
    have hcomb := toNat_combineSequenceNo h
    cases c with
    | name => simp only [savedField, counter]; omega
    | adj => simp only [savedField, counter]; omega
    | cor => simp only [savedField, counter]; omega

/-! ## One event -/

theorem toNat_counter_add_one {sm : SequencingManager} (h : Fits sm) (c : Counter) :
    (sm.counter c + 1).toNat = (sm.counter c).toNat + 1 := by
  refine BitField.toNat_add_one ?_
  have hw : 2 ^ c.width ≤ 2 ^ 24 := by cases c <;> decide
  have := h c
  omega

/-- An event keeps the counters in their fields exactly if there is room for it. -/
theorem fits_seqStep_iff {sm : SequencingManager} (h : Fits sm) (e : SeqStep) :
    Fits (seqStep sm e) ↔ Room sm e := by
  constructor
  · intro hs
    have he := hs e.of
    rw [counter_seqStep, if_pos rfl, toNat_counter_add_one h] at he
    exact he
  · intro hr c
    rw [counter_seqStep]
    by_cases hc : e.of = c
    · rw [if_pos hc, toNat_counter_add_one h, ← hc]
      exact hr
    · rw [if_neg hc]
      exact h c

/-- An event with room increases the combined number. -/
theorem ascends_of_room {sm : SequencingManager} (hp : Packed sm) (h : Fits sm) {e : SeqStep}
    (hr : Room sm e) : Ascends sm e := by
  have h' : Fits (seqStep sm e) := (fits_seqStep_iff h e).2 hr
  have hval := toNat_combineSequenceNo h
  have hval' := toNat_combineSequenceNo h'
  rw [← hp] at hval
  rw [← packed_seqStep sm e] at hval'
  rw [Ascends, UInt64.lt_iff_toNat_lt, hval, hval']
  have hmove : ∀ c, ((seqStep sm e).counter c).toNat =
      (sm.counter c).toNat + if e.of = c then 1 else 0 := by
    intro c
    rw [counter_seqStep]
    by_cases hc : e.of = c
    · rw [if_pos hc, if_pos hc, toNat_counter_add_one h]
    · rw [if_neg hc, if_neg hc, Nat.add_zero]
  have hn := hmove .name
  have ha := hmove .adj
  have hc := hmove .cor
  simp only [counter] at hn ha hc
  rw [hn, ha, hc]
  cases e.of <;> simp only [reduceCtorEq, if_true, if_false] <;> omega

/-! ## A run -/

/-- Events in a run of which all have room: the counters at the start plus the moves. -/
theorem meets_room_iff {sm : SequencingManager} (h : Fits sm) (es : List SeqStep) :
    Meets seqStep Room sm es ↔
      ∀ c, (sm.counter c).toNat + moves es c < 2 ^ c.width := by
  induction es generalizing sm with
  | nil => exact ⟨fun _ c => h c, fun _ => trivial⟩
  | cons e es ih =>
    have hmoves : ∀ c, moves (e :: es) c = moves es c + if e.of = c then 1 else 0 := by
      intro c
      simp [moves, List.countP_cons]
    constructor
    · rintro ⟨hr, hes⟩ c
      have hc := (ih ((fits_seqStep_iff h e).2 hr)).1 hes c
      rw [counter_seqStep] at hc
      rw [hmoves]
      by_cases hec : e.of = c
      · rw [if_pos hec, toNat_counter_add_one h] at hc
        rw [if_pos hec]
        omega
      · rw [if_neg hec] at hc
        rw [if_neg hec]
        exact hc
    · intro hall
      have hr : Room sm e := by
        have he := hall e.of
        rw [hmoves, if_pos rfl] at he
        unfold Room
        omega
      refine ⟨hr, (ih ((fits_seqStep_iff h e).2 hr)).2 fun c => ?_⟩
      have hc := hall c
      rw [hmoves] at hc
      rw [counter_seqStep]
      by_cases hec : e.of = c
      · rw [if_pos hec, toNat_counter_add_one h]
        rw [if_pos hec] at hc
        omega
      · rw [if_neg hec]
        rw [if_neg hec] at hc
        exact hc

/-- From a state whose counters fit, a run survives exactly if every event has room. -/
theorem survives_iff_room {sm : SequencingManager} (hp : Packed sm) (h : Fits sm)
    (es : List SeqStep) : Survives sm es ↔ Meets seqStep Room sm es := by
  have htrips : Trips sm := (trips_iff_fits hp).2 h
  have hiff : Along seqStep Trips sm es ↔ Meets seqStep Room sm es :=
    along_iff_meets (I := Packed) (fun s e _ => packed_seqStep s e)
      (fun s e hps hts => (trips_iff_fits (packed_seqStep s e)).trans
        (fits_seqStep_iff ((trips_iff_fits hps).1 hts) e)) hp htrips
  refine ⟨fun hs => hiff.1 hs.1, fun hm => ⟨hiff.2 hm, ?_⟩⟩
  clear hiff htrips
  induction es generalizing sm with
  | nil => trivial
  | cons e es ih =>
    exact ⟨ascends_of_room hp h hm.1,
      ih (packed_seqStep sm e) ((fits_seqStep_iff h e).2 hm.1) hm.2⟩

theorem packed_initiateSeqNoFromFile (file : Option UInt64) :
    Packed (initiateSeqNoFromFile file) := by
  cases file <;> rfl

theorem toNat_counter_initiateSeqNoFromFile (file : Option UInt64) (c : Counter) :
    ((initiateSeqNoFromFile file).counter c).toNat = startOf file c := by
  cases file with
  | none => cases c <;> rfl
  | some saved =>
    have hs : (initiateSeqNoFromFile (some saved)).counter c =
        (splitSequenceNo saved).counter c + 10 := by cases c <;> rfl
    have hlt := savedField_lt saved c
    have hw : 2 ^ c.width ≤ 2 ^ 24 := by cases c <;> decide
    rw [hs, UInt64.toNat_add, toNat_counter_splitSequenceNo, Nat.mod_eq_of_lt]
    · rfl
    · show savedField saved c + 10 < _
      omega

/-- **A run keeps every number exactly if no counter reaches its field width.** -/
theorem survives_iff_fitsFor (file : Option UInt64) (es : List SeqStep) :
    Survives (initiateSeqNoFromFile file) es ↔ FitsFor file es := by
  have hp := packed_initiateSeqNoFromFile file
  have hstart : Fits (initiateSeqNoFromFile file) ↔
      ∀ c, startOf file c < 2 ^ c.width := by
    simp only [Fits, toNat_counter_initiateSeqNoFromFile]
  constructor
  · intro hs
    have hfits : Fits (initiateSeqNoFromFile file) := (trips_iff_fits hp).1 hs.1.first
    have hroom := (survives_iff_room hp hfits es).1 hs
    intro c
    have hc := (meets_room_iff hfits es).1 hroom c
    rwa [toNat_counter_initiateSeqNoFromFile] at hc
  · intro hf
    have hfits : Fits (initiateSeqNoFromFile file) :=
      hstart.2 fun c => lt_of_le_of_lt (Nat.le_add_right _ _) (hf c)
    refine (survives_iff_room hp hfits es).2 ((meets_room_iff hfits es).2 fun c => ?_)
    rw [toNat_counter_initiateSeqNoFromFile]
    exact hf c

/-- The Adjacency field saved as `0xFFFF6` starts at `2 ^ 20`: the receiver reads Adjacency
number 0. -/
theorem not_survives_saved :
    ¬ ∀ (file : Option UInt64) (es : List SeqStep), Survives (initiateSeqNoFromFile file) es := by
  intro h
  have hadj := (h (some 0xFFFF6) []).1 .adj
  exact absurd hadj (by decide)

end SequencingManager

end LinkState
