import LinkState.Library.Run

/-!
# Objects that keep their encoding

An object keeps the encoding of its fields once it is made and returns it again until the next
change. A mutator changes the fields and either drops the kept encoding (`set`) or forgets to
(`keep`); decoding takes the fields from the encoding and keeps that.

* `Fresh encode x`: encoding `x` gives what a new object with the same fields gives.
* `Made good encode w`: `w` is the encoding of some good fields.
* `Reads good encode decode`: what is made of good fields is decoded, to good fields of the same
  encoding.

`along_fresh_iff`: if a mutator keeps an object fresh exactly when it is allowed, a run of calls
keeps it fresh throughout exactly when every mutator of the run is allowed. `made_of_run`: along a
run nothing is returned that was not made of good fields.
-/

namespace LinkState

/-- The fields of an object and the encoding it keeps. -/
structure Cached (F B : Type*) where
  fields : F
  wire : Option B := none

namespace Cached

variable {F B E Op : Type*}

/-- A change that drops the kept encoding. -/
def set (x : Cached F B) (f : F → F) : Cached F B := { fields := f x.fields }

/-- A change that leaves the kept encoding. -/
def keep (x : Cached F B) (f : F → F) : Cached F B := { x with fields := f x.fields }

/-- The encoding that is kept, or else a new one, which is then kept. -/
def wireEncode (encode : F → Option B) (x : Cached F B) : Option B × Cached F B :=
  match x.wire with
  | some wire => (some wire, x)
  | none => (encode x.fields, { x with wire := encode x.fields })

/-- An object made from an encoding keeps it. -/
def wireDecode (decode : B → Except E F) (wire : B) : Except E (Cached F B) :=
  (decode wire).map fun fields => { fields, wire := some wire }

/-- Encoding gives the encoding of the current fields. -/
def Fresh (encode : F → Option B) (x : Cached F B) : Prop :=
  (x.wireEncode encode).1 = encode x.fields

def Made (good : F → Prop) (encode : F → Option B) (wire : B) : Prop :=
  ∃ fields, good fields ∧ encode fields = some wire

def Reads (good : F → Prop) (encode : F → Option B) (decode : B → Except E F) : Prop :=
  ∀ wire, Made good encode wire →
    ∃ fields, decode wire = .ok fields ∧ good fields ∧ encode fields = some wire

/-- A call of a mutator, of the encoder, or of the decoder on something that was made. -/
inductive Call (Op : Type*) {B : Type*} (made : B → Prop) where
  | mutate (op : Op)
  | wireEncode
  | wireDecode (wire : B) (h : made wire)

/-- The object after a call. -/
def step (encode : F → Option B) (decode : B → Except E F)
    (mutate : Cached F B → Op → Cached F B) {made : B → Prop} (x : Cached F B) :
    Call Op made → Cached F B
  | .mutate op => mutate x op
  | .wireEncode => (x.wireEncode encode).2
  | .wireDecode wire _ =>
    match wireDecode decode wire with
    | .ok y => y
    -- `Reads`: not on what was made
    | .error _ => x

/-- The mutators are allowed when `allowed` says so, the other calls always. -/
def Allows (allowed : Cached F B → Op → Prop) {made : B → Prop} (x : Cached F B) :
    Call Op made → Prop
  | .mutate op => allowed x op
  | _ => True

theorem wireDecode_bind {F B E G : Type} (decode : B → Except E F) (wire : B)
    (f : Cached F B → Except E G) :
    (wireDecode decode wire >>= f) =
      decode wire >>= fun fields => f { fields, wire := some wire } := by
  unfold wireDecode
  cases decode wire <;> rfl

/-- A decoder reads what the encoder writes if, on the values of the fields, it is a decoder that
brings back the value that was encoded. -/
theorem reads_of_value {F V B E : Type} {value : F → V} {good : V → Prop}
    {encode : V → Option B} {decode : B → Except E F} {decodeValue : B → Except E V}
    (hvalue : ∀ wire, value <$> decode wire = decodeValue wire)
    (htrip : ∀ v wire, good v → encode v = some wire → decodeValue wire = .ok v) :
    Reads (fun fields => good (value fields)) (fun fields => encode (value fields)) decode := by
  intro wire hmade
  obtain ⟨old, hgood, hencode⟩ := hmade
  dsimp only at hgood hencode
  have hdecode := hvalue wire
  rw [htrip (value old) wire hgood hencode] at hdecode
  cases hfields : decode wire with
  | error e =>
    rw [hfields] at hdecode
    cases hdecode
  | ok fields =>
    rw [hfields] at hdecode
    have hsame : value fields = value old := Except.ok.inj hdecode
    rw [← hsame] at hgood hencode
    exact ⟨fields, rfl, hgood, hencode⟩

/-! ## Freshness -/

variable {encode : F → Option B} {decode : B → Except E F}
  {mutate : Cached F B → Op → Cached F B} {good : F → Prop}

/-- An object is fresh if what it keeps is the encoding of its fields. -/
theorem fresh_iff {x : Cached F B} :
    Fresh encode x ↔ x.wire = none ∨ x.wire = encode x.fields := by
  unfold Fresh wireEncode
  cases x.wire with
  | none => simp
  | some wire => simp

theorem fresh_new (fields : F) : Fresh encode { fields } :=
  fresh_iff.mpr (.inl rfl)

theorem fresh_set (x : Cached F B) (f : F → F) : Fresh encode (x.set f) :=
  fresh_new (f x.fields)

/-- A change that leaves the kept encoding keeps the object fresh if there is none, or the change
does not show in it. -/
theorem fresh_keep_iff {x : Cached F B} (f : F → F) (h : Fresh encode x) :
    Fresh encode (x.keep f) ↔ x.wire = none ∨ encode x.fields = encode (f x.fields) := by
  have hkeep : Fresh encode (x.keep f) ↔ x.wire = none ∨ x.wire = encode (f x.fields) := fresh_iff
  rw [hkeep]
  rcases fresh_iff.mp h with hnone | hwire
  · exact ⟨fun _ => .inl hnone, fun _ => .inl hnone⟩
  · rw [hwire]

theorem fresh_wireEncode {x : Cached F B} (h : Fresh encode x) :
    Fresh encode (x.wireEncode encode).2 := by
  unfold wireEncode
  cases hwire : x.wire with
  | some wire => exact h
  | none => exact fresh_iff.mpr (.inr rfl)

/-- What is decoded is kept with the fields it was decoded to. -/
theorem step_wireDecode (mutate : Cached F B → Op → Cached F B)
    (hreads : Reads good encode decode) (x : Cached F B) {wire : B} (h : Made good encode wire) :
    ∃ fields, good fields ∧ encode fields = some wire ∧
      step encode decode mutate x (.wireDecode wire h) = { fields, wire := some wire } := by
  obtain ⟨fields, hdecode, hgood, hencode⟩ := hreads wire h
  refine ⟨fields, hgood, hencode, ?_⟩
  simp only [step, wireDecode, hdecode, Except.map]

/-- A call other than a mutator keeps an object fresh. -/
theorem fresh_step_iff {allowed : Cached F B → Op → Prop} (hreads : Reads good encode decode)
    (hmutate : ∀ x op, Fresh encode x → (Fresh encode (mutate x op) ↔ allowed x op))
    (x : Cached F B) (call : Call Op (Made good encode)) (h : Fresh encode x) :
    Fresh encode (step encode decode mutate x call) ↔ Allows allowed x call := by
  cases call with
  | mutate op => exact hmutate x op h
  | wireEncode => exact iff_of_true (fresh_wireEncode h) trivial
  | wireDecode wire hwire =>
    obtain ⟨fields, -, hencode, hstep⟩ := step_wireDecode mutate hreads x hwire
    rw [hstep]
    exact iff_of_true (fresh_iff.mpr (.inr hencode.symm)) trivial

/-- **A run of calls keeps an object fresh exactly if every mutator of it is allowed.** -/
theorem along_fresh_iff {allowed : Cached F B → Op → Prop} (hreads : Reads good encode decode)
    (hmutate : ∀ x op, Fresh encode x → (Fresh encode (mutate x op) ↔ allowed x op))
    {x : Cached F B} (h : Fresh encode x) (calls : List (Call Op (Made good encode))) :
    Along (step encode decode mutate) (Fresh encode) x calls ↔
      Meets (step encode decode mutate) (Allows allowed) x calls :=
  along_iff_meets (I := fun _ => True) (fun _ _ _ => trivial)
    (fun x call _ => fresh_step_iff hreads hmutate x call) trivial h

/-- Mutators that all drop the kept encoding keep an object fresh. -/
theorem along_fresh (hreads : Reads good encode decode)
    (hmutate : ∀ x op, Fresh encode (mutate x op)) {x : Cached F B} (h : Fresh encode x)
    (calls : List (Call Op (Made good encode))) :
    Along (step encode decode mutate) (Fresh encode) x calls := by
  have hiff : ∀ x op, Fresh encode x → (Fresh encode (mutate x op) ↔ True) :=
    fun x op _ => iff_true_intro (hmutate x op)
  refine along_of_step (fun x call hx => ?_) h calls
  refine (fresh_step_iff hreads hiff x call hx).mpr ?_
  cases call <;> trivial

/-! ## What is returned -/

/-- The fields are good, and what is kept was made of good fields. -/
structure Sound (good : F → Prop) (encode : F → Option B) (x : Cached F B) : Prop where
  fields : good x.fields
  wire : ∀ wire, x.wire = some wire → Made good encode wire

theorem Sound.made {x : Cached F B} (h : Sound good encode x) {wire : B}
    (hwire : (x.wireEncode encode).1 = some wire) : Made good encode wire := by
  unfold wireEncode at hwire
  cases hkept : x.wire with
  | none =>
    rw [hkept] at hwire
    exact ⟨x.fields, h.fields, hwire⟩
  | some kept =>
    rw [hkept] at hwire
    exact h.wire wire (hkept.trans hwire)

theorem Sound.wireEncode {x : Cached F B} (h : Sound good encode x) :
    Sound good encode (x.wireEncode encode).2 := by
  unfold Cached.wireEncode
  cases hwire : x.wire with
  | some wire => exact h
  | none => exact ⟨h.fields, fun wire hwire => ⟨x.fields, h.fields, hwire⟩⟩

/-- Mutators that keep the fields good and keep no wire of their own keep an object sound. -/
theorem sound_step (hreads : Reads good encode decode)
    (hgood : ∀ x op, good x.fields → good (mutate x op).fields)
    (hwire : ∀ x op, (mutate x op).wire = none ∨ (mutate x op).wire = x.wire) (x : Cached F B)
    (call : Call Op (Made good encode)) (h : Sound good encode x) :
    Sound good encode (step encode decode mutate x call) := by
  cases call with
  | mutate op =>
    refine ⟨hgood x op h.fields, fun wire hkept => ?_⟩
    have hkept : (mutate x op).wire = some wire := hkept
    rcases hwire x op with hnone | hsame
    · simp [hnone] at hkept
    · exact h.wire wire (hsame.symm.trans hkept)
  | wireEncode => exact h.wireEncode
  | wireDecode wire hmade =>
    obtain ⟨fields, hfields, -, hstep⟩ := step_wireDecode mutate hreads x hmade
    rw [hstep]
    refine ⟨hfields, fun kept hkept => ?_⟩
    obtain rfl : wire = kept := Option.some.inj hkept
    exact hmade

/-- **What an object returns along a run was made of good fields**: the decoder may be called
on it. -/
theorem made_of_run (hreads : Reads good encode decode)
    (hgood : ∀ x op, good x.fields → good (mutate x op).fields)
    (hwire : ∀ x op, (mutate x op).wire = none ∨ (mutate x op).wire = x.wire) {fields : F}
    (hfields : good fields) (calls : List (Call Op (Made good encode))) {wire : B}
    (h : ((run (step encode decode mutate) { fields } calls).wireEncode encode).1 = some wire) :
    Made good encode wire := by
  have hnew : Sound good encode { fields } := ⟨hfields, fun wire hkept => by simp at hkept⟩
  exact (run_induction (sound_step hreads hgood hwire) hnew calls).made h

end Cached

end LinkState
