import LinkState.PlainText

/-!
# Reading content that anyone may have written

The text of a received LSA may be anything. `checked` is the library whose token iterator stands
on its assertion: behind the last token nothing can be read. A text is read safely if the reader
then ends with an LSA or by returning false.

The count in the header says how many tokens the body has, and nothing compares the two. Some
tokens are read inside a `try` block, where a malformed one is refused; the origin and the names of
a Name LSA are read outside.

`readsSafely_iff`: when each of the three readers is safe. A token that is not there is fatal
unless a malformed guarded token stands before it.
-/

namespace LinkState

/-- Behind the last token the iterator cannot be read. -/
def TextLib.checked (lib : TextLib) : TextLib := { lib with pastEnd := fun _ => none }

/-- No exception and no failed assertion leaves the function. -/
def Safe {α : Type} (x : Except ParseFailure α) : Prop := x ≠ .error .escaped

/-- The token at a position is there and is read. -/
def Reads {α : Type} (read : Text → Option α) (toks : List Text) (i : Nat) : Prop :=
  ∃ a, toks[i]?.bind read = some a

/-- The token at a position is there, and reading it throws. -/
def Malformed {α : Type} (read : Text → Option α) (toks : List Text) (i : Nat) : Prop :=
  ∃ t, toks[i]? = some t ∧ read t = none

/-- The header is refused: the origin is empty, or the number or the time point is malformed. -/
def HeaderRefused (lib : TextLib) (toks : List Text) : Prop :=
  toks[0]?.bind lib.fromUri = some [] ∨ Malformed lib.toUInt32 toks 2 ∨
    Malformed lib.fromIsoString toks 3

namespace NameLsa

/-- The reader is safe, and what it accepts has an origin and all tokens it announces. -/
def ReadsSafely (lib : TextLib) (content : Text) : Prop :=
  Safe (initializeFromContent lib.checked content) ∧
    ∀ l, initializeFromContent lib.checked content = .ok l → l.origRouter ≠ [] ∧
      ∃ numName, (tokens '|' content)[4]?.bind lib.toUInt32 = some numName ∧
        5 + numName.toNat ≤ (tokens '|' content).length

/-- The origin is there and well formed, and either a guarded token of the header is refused or
all names announced are there and well formed. -/
def Supplied (lib : TextLib) (toks : List Text) : Prop :=
  Reads lib.fromUri toks 0 ∧
    (HeaderRefused lib toks ∨ Malformed lib.toUInt32 toks 4 ∨
      ∃ numName, toks[4]?.bind lib.toUInt32 = some numName ∧
        ∀ i < numName.toNat, Reads lib.fromUri toks (5 + i))

end NameLsa

namespace AdjLsa

def ReadsSafely (lib : TextLib) (content : Text) : Prop :=
  Safe (initializeFromContent lib.checked content) ∧
    ∀ l, initializeFromContent lib.checked content = .ok l → l.origRouter ≠ [] ∧
      ∃ numLink, (tokens '|' content)[4]?.bind lib.toUInt32 = some numLink ∧
        5 + 3 * numLink.toNat ≤ (tokens '|' content).length

/-- The origin is there and well formed, and either a guarded token is refused or all tokens
announced are there. -/
def Supplied (lib : TextLib) (toks : List Text) : Prop :=
  Reads lib.fromUri toks 0 ∧
    (HeaderRefused lib toks ∨ Malformed lib.toUInt32 toks 4 ∨
      ∃ numLink, toks[4]?.bind lib.toUInt32 = some numLink ∧
        (5 + 3 * numLink.toNat ≤ toks.length ∨ ∃ i < numLink.toNat,
          Malformed lib.fromUri toks (5 + 3 * i) ∨ Malformed lib.toDouble toks (5 + 3 * i + 2)))

end AdjLsa

namespace CoordinateLsa

def ReadsSafely (lib : TextLib) (content : Text) : Prop :=
  Safe (initializeFromContent lib.checked content) ∧
    ∀ l, initializeFromContent lib.checked content = .ok l → l.origRouter ≠ [] ∧
      6 ≤ (tokens '|' content).length

/-- The origin is there and well formed, and either a guarded token is refused or all six tokens
are there. -/
def Supplied (lib : TextLib) (toks : List Text) : Prop :=
  Reads lib.fromUri toks 0 ∧
    (HeaderRefused lib toks ∨ Malformed lib.toDouble toks 4 ∨ Malformed lib.toDouble toks 5 ∨
      6 ≤ toks.length)

end CoordinateLsa

/-! ## Safe steps -/

section Steps

variable {lib : TextLib} {toks : List Text} {α β : Type}

theorem safe_ok (a : α) : Safe (.ok a : Except ParseFailure α) := fun h => nomatch h

theorem safe_rejected : Safe (.error .rejected : Except ParseFailure α) := fun h => nomatch h

theorem not_safe_escaped : ¬ Safe (.error .escaped : Except ParseFailure α) := fun h => h rfl

/-- A step is safe, and so is what follows it. -/
theorem safe_bind {x : Except ParseFailure α} {k : α → Except ParseFailure β} :
    Safe (x >>= k) ↔ Safe x ∧ ∀ a, x = .ok a → Safe (k a) := by
  cases x with
  | ok a =>
    rw [ok_bind]
    refine ⟨fun h => ⟨safe_ok a, fun b hb => ?_⟩, fun h => h.2 a rfl⟩
    cases hb
    exact h
  | error e =>
    rw [error_bind]
    cases e with
    | rejected => exact iff_of_true safe_rejected ⟨safe_rejected, fun _ h => nomatch h⟩
    | escaped => exact iff_of_false not_safe_escaped fun h => not_safe_escaped h.1

/-- Outside a `try` block a value has to be there. -/
theorem safe_outsideTry_bind {x : Option α} {k : α → Except ParseFailure β} :
    Safe (TextLib.outsideTry x >>= k) ↔ ∃ a, x = some a ∧ Safe (k a) := by
  cases x with
  | none => exact iff_of_false not_safe_escaped fun ⟨a, ha, _⟩ => nomatch ha
  | some a => simp

/-- Inside a `try` block it need not. -/
theorem safe_inTry_bind {x : Option α} {k : α → Except ParseFailure β} :
    Safe (TextLib.inTry x >>= k) ↔ ∀ a, x = some a → Safe (k a) := by
  cases x with
  | none => simpa using safe_rejected
  | some a => simp

theorem token_checked (i : Nat) : lib.checked.token toks i = TextLib.outsideTry toks[i]? := by
  unfold TextLib.token
  cases toks[i]? <;> rfl

theorem exists_getElem? {i : Nat} (h : i < toks.length) : ∃ t, toks[i]? = some t :=
  ⟨_, List.getElem?_eq_getElem h⟩

theorem lt_of_getElem? {i : Nat} {t : Text} (h : toks[i]? = some t) : i < toks.length :=
  (List.getElem?_eq_some_iff.1 h).1

/-- A guarded token that is there is refused, or read and followed by a safe step. -/
theorem safe_guarded {read : Text → Option α} {i : Nat} {k : α → Except ParseFailure β} :
    Safe (lib.checked.token toks i >>= fun t => TextLib.inTry (read t) >>= k) ↔
      Malformed read toks i ∨ ∃ a, toks[i]?.bind read = some a ∧ Safe (k a) := by
  rw [token_checked, safe_outsideTry_bind]
  simp only [safe_inTry_bind]
  constructor
  · rintro ⟨t, ht, hk⟩
    cases hread : read t with
    | none => exact Or.inl ⟨t, ht, hread⟩
    | some a => exact Or.inr ⟨a, by rw [ht]; exact hread, hk a hread⟩
  · rintro (⟨t, ht, hread⟩ | ⟨a, ha, hk⟩)
    · refine ⟨t, ht, fun a ha => ?_⟩
      rw [hread] at ha
      exact nomatch ha
    · obtain ⟨t, ht, hread⟩ := Option.bind_eq_some_iff.1 ha
      refine ⟨t, ht, fun b hb => ?_⟩
      rw [hread] at hb
      exact Option.some.inj hb ▸ hk

/-- A token that nothing guards is there, is read and is followed by a safe step. -/
theorem safe_unguarded {read : Text → Option α} {i : Nat} {k : α → Except ParseFailure β} :
    Safe (lib.checked.token toks i >>= fun t => TextLib.outsideTry (read t) >>= k) ↔
      ∃ a, toks[i]?.bind read = some a ∧ Safe (k a) := by
  rw [token_checked, safe_outsideTry_bind]
  simp only [safe_outsideTry_bind, Option.bind_eq_some_iff]
  constructor
  · rintro ⟨t, ht, a, ha, hk⟩
    exact ⟨a, ⟨t, ht, ha⟩, hk⟩
  · rintro ⟨a, ⟨t, ht, ha⟩, hk⟩
    exact ⟨t, ht, a, ha, hk⟩

theorem safe_token {i : Nat} {k : Text → Except ParseFailure β} :
    Safe (lib.checked.token toks i >>= k) ↔ ∃ t, toks[i]? = some t ∧ Safe (k t) := by
  rw [token_checked, safe_outsideTry_bind]

theorem malformed_or_reads {read : Text → Option α} {i : Nat} (h : i < toks.length) :
    Malformed read toks i ∨ Reads read toks i := by
  obtain ⟨t, ht⟩ := exists_getElem? h
  cases hread : read t with
  | none => exact Or.inl ⟨t, ht, hread⟩
  | some a => exact Or.inr ⟨a, by rw [ht]; exact hread⟩

theorem Malformed.lt {read : Text → Option α} {i : Nat} (h : Malformed read toks i) :
    i < toks.length := by
  obtain ⟨t, ht, -⟩ := h
  exact lt_of_getElem? ht

theorem Reads.lt {read : Text → Option α} {i : Nat} (h : Reads read toks i) :
    i < toks.length := by
  obtain ⟨a, ha⟩ := h
  obtain ⟨t, ht, -⟩ := Option.bind_eq_some_iff.1 ha
  exact lt_of_getElem? ht

theorem not_malformed_of_bind {read : Text → Option α} {i : Nat} {a : α}
    (h : toks[i]?.bind read = some a) : ¬ Malformed read toks i := by
  rintro ⟨t, ht, hread⟩
  rw [ht, Option.bind_some, hread] at h
  exact nomatch h

/-! ## Values that are read -/

theorem guarded_eq_ok {read : Text → Option α} {i : Nat} {k : α → Except ParseFailure β} {b : β} :
    (lib.checked.token toks i >>= fun t => TextLib.inTry (read t) >>= k) = .ok b ↔
      ∃ a, toks[i]?.bind read = some a ∧ k a = .ok b := by
  rw [token_checked]
  cases toks[i]? with
  | none => simp [TextLib.outsideTry]
  | some t => cases hread : read t <;> simp [hread]

theorem unguarded_eq_ok {read : Text → Option α} {i : Nat} {k : α → Except ParseFailure β}
    {b : β} :
    (lib.checked.token toks i >>= fun t => TextLib.outsideTry (read t) >>= k) = .ok b ↔
      ∃ a, toks[i]?.bind read = some a ∧ k a = .ok b := by
  rw [token_checked]
  cases toks[i]? with
  | none => simp [TextLib.outsideTry]
  | some t => cases hread : read t <;> simp [hread, TextLib.outsideTry]

theorem token_eq_ok {i : Nat} {k : Text → Except ParseFailure β} {b : β} :
    (lib.checked.token toks i >>= k) = .ok b ↔ ∃ t, toks[i]? = some t ∧ k t = .ok b := by
  rw [token_checked]
  cases toks[i]? with
  | none => simp [TextLib.outsideTry]
  | some t => simp

/-! ## The header -/

/-- What is read behind the origin. -/
def readRest (lib : TextLib) (toks : List Text) (origRouter : Name) : Except ParseFailure Lsa := do
  let lsType := String.ofList (← lib.token toks 1)
  let lsSeqNo ← TextLib.inTry (lib.toUInt32 (← lib.token toks 2))
  let expirationTimePoint ← TextLib.inTry (lib.fromIsoString (← lib.token toks 3))
  return { origRouter, lsType, lsSeqNo, expirationTimePoint }

theorem readHeader_eq (lib : TextLib) (toks : List Text) :
    lib.readHeader toks =
      (lib.token toks 0 >>= fun t => TextLib.outsideTry (lib.fromUri t) >>= fun origRouter =>
        if origRouter = [] then .error .rejected else readRest lib toks origRouter) := by
  unfold TextLib.readHeader
  refine congrArg _ (funext fun t => congrArg _ (funext fun origRouter => ?_))
  by_cases h : origRouter = []
  · subst h
    rfl
  · have hpos : origRouter.length > 0 := List.length_pos_of_ne_nil h
    rw [if_neg (not_not.2 hpos), if_neg h]
    rfl

theorem readRest_eq_ok {origRouter : Name} {header : Lsa}
    (h : readRest lib.checked toks origRouter = .ok header) :
    header.origRouter = origRouter ∧ toks[2]?.bind lib.toUInt32 = some header.lsSeqNo ∧
      toks[3]?.bind lib.fromIsoString = some header.expirationTimePoint := by
  obtain ⟨t, -, h⟩ := token_eq_ok.1 h
  obtain ⟨lsSeqNo, hseq, h⟩ := guarded_eq_ok.1 h
  obtain ⟨expirationTimePoint, htime, h⟩ := guarded_eq_ok.1 h
  cases h
  exact ⟨rfl, hseq, htime⟩

/-- The header is read without a failure: the tokens are there and the origin is not empty. -/
theorem readHeader_eq_ok {header : Lsa} (h : lib.checked.readHeader toks = .ok header) :
    header.origRouter ≠ [] ∧ 4 ≤ toks.length ∧ Reads lib.fromUri toks 0 ∧
      ¬ HeaderRefused lib toks := by
  rw [readHeader_eq] at h
  obtain ⟨origRouter, horigin, h⟩ := unguarded_eq_ok.1 h
  by_cases hnil : origRouter = []
  · rw [if_pos hnil] at h
    exact nomatch h
  · rw [if_neg hnil] at h
    obtain ⟨rfl, hseq, htime⟩ := readRest_eq_ok h
    refine ⟨hnil, Reads.lt ⟨_, htime⟩, ⟨_, horigin⟩, ?_⟩
    rintro (hempty | hmalformed | hmalformed)
    · exact hnil (Option.some.inj (horigin.symm.trans hempty))
    · exact not_malformed_of_bind hseq hmalformed
    · exact not_malformed_of_bind htime hmalformed

theorem safe_readRest {origRouter : Name} :
    Safe (readRest lib.checked toks origRouter) ↔
      Malformed lib.toUInt32 toks 2 ∨ Malformed lib.fromIsoString toks 3 ∨ 4 ≤ toks.length := by
  unfold readRest
  rw [safe_token]
  simp only [safe_guarded]
  constructor
  · rintro ⟨t, -, hseq | ⟨n, hseq, htime | ⟨time, htime, -⟩⟩⟩
    · exact Or.inl hseq
    · exact Or.inr (Or.inl htime)
    · exact Or.inr (Or.inr (Reads.lt ⟨time, htime⟩))
  · intro h
    have hlt : 2 < toks.length := by
      rcases h with h | h | h
      · exact h.lt
      · exact Nat.lt_of_succ_lt h.lt
      · omega
    obtain ⟨t, ht⟩ := exists_getElem? (by omega : 1 < toks.length)
    refine ⟨t, ht, (malformed_or_reads hlt).imp_right fun ⟨n, hn⟩ => ⟨n, hn, ?_⟩⟩
    rcases h with h | h | h
    · exact absurd h (not_malformed_of_bind hn)
    · exact Or.inl h
    · exact (malformed_or_reads h).imp_right fun ⟨time, htime⟩ => ⟨time, htime, safe_ok _⟩

/-- **When the header is read safely.** -/
theorem safe_readHeader :
    Safe (lib.checked.readHeader toks) ↔
      Reads lib.fromUri toks 0 ∧ (HeaderRefused lib toks ∨ 4 ≤ toks.length) := by
  rw [readHeader_eq, safe_unguarded]
  constructor
  · rintro ⟨origRouter, horigin, h⟩
    refine ⟨⟨_, horigin⟩, ?_⟩
    by_cases hnil : origRouter = []
    · exact Or.inl (Or.inl (hnil ▸ horigin))
    · rw [if_neg hnil, safe_readRest] at h
      rcases h with h | h | h
      · exact Or.inl (Or.inr (Or.inl h))
      · exact Or.inl (Or.inr (Or.inr h))
      · exact Or.inr h
  · rintro ⟨⟨origRouter, horigin⟩, h⟩
    refine ⟨origRouter, horigin, ?_⟩
    by_cases hnil : origRouter = []
    · rw [if_pos hnil]
      exact safe_rejected
    · rw [if_neg hnil, safe_readRest]
      rcases h with (h | h | h) | h
      · exact absurd (Option.some.inj (horigin.symm.trans h)) hnil
      · exact Or.inl h
      · exact Or.inr (Or.inl h)
      · exact Or.inr (Or.inr h)

theorem exists_readHeader (horigin : Reads lib.fromUri toks 0) (hlength : 4 ≤ toks.length)
    (h : ¬ HeaderRefused lib toks) : ∃ header, lib.checked.readHeader toks = .ok header := by
  obtain ⟨origRouter, horigin⟩ := horigin
  obtain ⟨t, ht⟩ := exists_getElem? (by omega : 1 < toks.length)
  obtain ⟨lsSeqNo, hseq⟩ := (malformed_or_reads (by omega : 2 < toks.length)).resolve_left
    fun hm => h (Or.inr (Or.inl hm))
  obtain ⟨time, htime⟩ := (malformed_or_reads (by omega : 3 < toks.length)).resolve_left
    fun hm => h (Or.inr (Or.inr hm))
  have hnil : origRouter ≠ [] := fun hnil => h (Or.inl (hnil ▸ horigin))
  let header : Lsa :=
    { origRouter, lsType := String.ofList t, lsSeqNo, expirationTimePoint := time }
  have hrest : readRest lib.checked toks origRouter = .ok header :=
    token_eq_ok.2 ⟨t, ht, guarded_eq_ok.2 ⟨lsSeqNo, hseq, guarded_eq_ok.2 ⟨time, htime, rfl⟩⟩⟩
  rw [readHeader_eq]
  exact ⟨header, unguarded_eq_ok.2 ⟨origRouter, horigin, (if_neg hnil).trans hrest⟩⟩

/-- **A reader is safe** if its header is refused or what follows the header is safe. -/
theorem safe_readHeader_bind {k : Lsa → Except ParseFailure β} {P : Prop}
    (hk : ∀ header, Safe (k header) ↔ P) (hP : P → 4 ≤ toks.length) :
    Safe (lib.checked.readHeader toks >>= k) ↔
      Reads lib.fromUri toks 0 ∧ (HeaderRefused lib toks ∨ P) := by
  rw [safe_bind, safe_readHeader]
  constructor
  · rintro ⟨⟨horigin, hheader⟩, hrest⟩
    refine ⟨horigin, or_iff_not_imp_left.2 fun hrefused => ?_⟩
    obtain ⟨header, hok⟩ :=
      exists_readHeader horigin (hheader.resolve_left hrefused) hrefused
    exact (hk header).1 (hrest header hok)
  · rintro ⟨horigin, hrefused | h⟩
    · refine ⟨⟨horigin, Or.inl hrefused⟩, fun header hok => ?_⟩
      exact absurd hrefused (readHeader_eq_ok hok).2.2.2
    · exact ⟨⟨horigin, Or.inr (hP h)⟩, fun header _ => (hk header).2 h⟩

/-! ## The bodies -/

theorem safe_readNames (n i : Nat) (l : NameLsa) :
    Safe (lib.checked.readNames toks n i l) ↔ ∀ j < n, Reads lib.fromUri toks (i + j) := by
  induction n generalizing i l with
  | zero => exact iff_of_true (safe_ok l) fun j hj => absurd hj (Nat.not_lt_zero j)
  | succ n ih =>
    unfold TextLib.readNames
    show Safe (lib.checked.token toks i >>= fun t => TextLib.outsideTry (lib.fromUri t) >>= _) ↔ _
    rw [safe_unguarded]
    simp only [ih]
    constructor
    · rintro ⟨name, hname, h⟩ j hj
      cases j with
      | zero => exact ⟨name, hname⟩
      | succ j =>
        rw [Nat.add_succ, ← Nat.succ_add]
        exact h j (Nat.lt_of_succ_lt_succ hj)
    · intro h
      obtain ⟨name, hname⟩ := h 0 (Nat.succ_pos n)
      refine ⟨name, hname, fun j hj => ?_⟩
      have := h (j + 1) (Nat.succ_lt_succ hj)
      rwa [Nat.add_succ, ← Nat.succ_add] at this

theorem readNames_eq_ok {n i : Nat} {l l' : NameLsa} (hi : i ≤ toks.length)
    (h : lib.checked.readNames toks n i l = .ok l') :
    l'.origRouter = l.origRouter ∧ i + n ≤ toks.length := by
  induction n generalizing i l with
  | zero =>
    cases h
    exact ⟨rfl, hi⟩
  | succ n ih =>
    unfold TextLib.readNames at h
    obtain ⟨name, hname, h⟩ := unguarded_eq_ok.1 h
    obtain ⟨horigin, hlength⟩ := ih (Reads.lt ⟨name, hname⟩) h
    exact ⟨horigin, by omega⟩

theorem safe_readAdjacents {n i : Nat} (l : AdjLsa) (hi : i ≤ toks.length) :
    Safe (lib.checked.readAdjacents toks n i l) ↔
      i + 3 * n ≤ toks.length ∨ ∃ j < n, Malformed lib.fromUri toks (i + 3 * j) ∨
        Malformed lib.toDouble toks (i + 3 * j + 2) := by
  induction n generalizing i l with
  | zero => exact iff_of_true (safe_ok l) (Or.inl hi)
  | succ n ih =>
    unfold TextLib.readAdjacents
    show Safe (lib.checked.token toks i >>= fun t => TextLib.inTry (lib.fromUri t) >>= _) ↔ _
    rw [safe_guarded]
    simp only [safe_token (i := i + 1), safe_guarded]
    have hrest (a : Adjacent) (hcost : i + 3 ≤ toks.length) := ih (l.addAdjacent a) hcost
    constructor
    · rintro (hname | ⟨name, -, t, -, hcost | ⟨cost, hcost, h⟩⟩)
      · exact Or.inr ⟨0, Nat.succ_pos n, Or.inl hname⟩
      · exact Or.inr ⟨0, Nat.succ_pos n, Or.inr hcost⟩
      · rcases (hrest _ (Reads.lt ⟨cost, hcost⟩)).1 h with h | ⟨j, hj, h⟩
        · exact Or.inl (by omega)
        · refine Or.inr ⟨j + 1, Nat.succ_lt_succ hj, ?_⟩
          rwa [show i + 3 * (j + 1) = i + 3 + 3 * j by omega]
    · intro h
      have hlt : i < toks.length := by
        rcases h with h | ⟨j, -, h | h⟩
        · omega
        · exact (Nat.le_add_right i _).trans_lt h.lt
        · exact ((Nat.le_add_right i _).trans (Nat.le_add_right _ 2)).trans_lt h.lt
      refine (malformed_or_reads hlt).imp_right fun hreads => ?_
      obtain ⟨name, hname⟩ := hreads
      refine ⟨name, hname, ?_⟩
      have hname' := not_malformed_of_bind hname
      have hlt₂ : i + 2 < toks.length := by
        rcases h with h | ⟨j, -, h⟩
        · omega
        · cases j with
          | zero => exact (h.resolve_left hname').lt
          | succ j =>
            rcases h with h | h
            · have := h.lt
              omega
            · have := h.lt
              omega
      obtain ⟨t, ht⟩ := exists_getElem? (by omega : i + 1 < toks.length)
      refine ⟨t, ht, (malformed_or_reads hlt₂).imp_right fun hreads => ?_⟩
      obtain ⟨cost, hcost⟩ := hreads
      refine ⟨cost, hcost, (hrest _ hlt₂).2 ?_⟩
      rcases h with h | ⟨j, hj, h⟩
      · exact Or.inl (by omega)
      · cases j with
        | zero => exact absurd (h.resolve_left hname') (not_malformed_of_bind hcost)
        | succ j =>
          refine Or.inr ⟨j, Nat.lt_of_succ_lt_succ hj, ?_⟩
          rwa [show i + 3 + 3 * j = i + 3 * (j + 1) by omega]

theorem readAdjacents_eq_ok {n i : Nat} {l l' : AdjLsa} (hi : i ≤ toks.length)
    (h : lib.checked.readAdjacents toks n i l = .ok l') :
    l'.origRouter = l.origRouter ∧ i + 3 * n ≤ toks.length := by
  induction n generalizing i l with
  | zero =>
    cases h
    exact ⟨rfl, hi⟩
  | succ n ih =>
    unfold TextLib.readAdjacents at h
    obtain ⟨name, -, h⟩ := guarded_eq_ok.1 h
    obtain ⟨face, -, h⟩ := token_eq_ok.1 h
    obtain ⟨cost, hcost, h⟩ := guarded_eq_ok.1 h
    obtain ⟨horigin, hlength⟩ := ih (Reads.lt ⟨cost, hcost⟩) h
    exact ⟨horigin, by omega⟩

end Steps

/-! ## The three readers -/

theorem NameLsa.safe_initializeFromContent (lib : TextLib) (content : Text) :
    Safe (initializeFromContent lib.checked content) ↔ Supplied lib (tokens '|' content) := by
  refine safe_readHeader_bind (fun header => ?_) ?_
  · show Safe (lib.checked.token _ 4 >>= fun t => TextLib.inTry (lib.toUInt32 t) >>= _) ↔ _
    rw [safe_guarded]
    simp only [safe_readNames]
  · rintro (h | ⟨numName, hcount, -⟩)
    · exact h.lt.le
    · exact (Reads.lt ⟨_, hcount⟩).le

theorem NameLsa.readsSafely_iff_supplied (lib : TextLib) (content : Text) :
    ReadsSafely lib content ↔ Supplied lib (tokens '|' content) := by
  rw [← safe_initializeFromContent]
  refine and_iff_left fun l hok => ?_
  obtain ⟨header, hheader, hok⟩ := bind_eq_ok.1 hok
  obtain ⟨numName, hcount, hok⟩ := guarded_eq_ok.1 hok
  obtain ⟨horigin, hlength⟩ := readNames_eq_ok (Reads.lt ⟨_, hcount⟩) hok
  exact ⟨horigin ▸ (readHeader_eq_ok hheader).1, numName, hcount, hlength⟩

theorem AdjLsa.safe_initializeFromContent (lib : TextLib) (content : Text) :
    Safe (initializeFromContent lib.checked content) ↔ Supplied lib (tokens '|' content) := by
  refine safe_readHeader_bind (fun header => ?_) ?_
  · show Safe (lib.checked.token _ 4 >>= fun t => TextLib.inTry (lib.toUInt32 t) >>= _) ↔ _
    rw [safe_guarded]
    refine or_congr_right (exists_congr fun numLink => and_congr_right fun hcount => ?_)
    exact safe_readAdjacents _ (Reads.lt ⟨_, hcount⟩)
  · rintro (h | ⟨numLink, hcount, -⟩)
    · exact h.lt.le
    · exact (Reads.lt ⟨_, hcount⟩).le

theorem AdjLsa.readsSafely_iff_supplied (lib : TextLib) (content : Text) :
    ReadsSafely lib content ↔ Supplied lib (tokens '|' content) := by
  rw [← safe_initializeFromContent]
  refine and_iff_left fun l hok => ?_
  obtain ⟨header, hheader, hok⟩ := bind_eq_ok.1 hok
  obtain ⟨numLink, hcount, hok⟩ := guarded_eq_ok.1 hok
  obtain ⟨horigin, hlength⟩ := readAdjacents_eq_ok (Reads.lt ⟨_, hcount⟩) hok
  exact ⟨horigin ▸ (readHeader_eq_ok hheader).1, numLink, hcount, hlength⟩

theorem CoordinateLsa.safe_initializeFromContent (lib : TextLib) (content : Text) :
    Safe (initializeFromContent lib.checked content) ↔ Supplied lib (tokens '|' content) := by
  refine safe_readHeader_bind (fun header => ?_) ?_
  · show Safe (lib.checked.token _ 4 >>= fun t => TextLib.inTry (lib.toDouble t) >>=
      fun corRad => lib.checked.token _ 5 >>= fun t => TextLib.inTry (lib.toDouble t) >>= _) ↔ _
    rw [safe_guarded]
    simp only [safe_guarded]
    constructor
    · rintro (h | ⟨corRad, -, h | ⟨corTheta, htheta, -⟩⟩)
      · exact Or.inl h
      · exact Or.inr (Or.inl h)
      · exact Or.inr (Or.inr (Reads.lt ⟨_, htheta⟩))
    · intro h
      have hlt : 4 < (tokens '|' content).length := by
        rcases h with h | h | h
        · exact h.lt
        · exact Nat.lt_of_succ_lt h.lt
        · omega
      refine (malformed_or_reads hlt).imp_right fun ⟨corRad, hrad⟩ => ⟨corRad, hrad, ?_⟩
      rcases h with h | h | h
      · exact absurd h (not_malformed_of_bind hrad)
      · exact Or.inl h
      · exact (malformed_or_reads h).imp_right fun ⟨theta, htheta⟩ => ⟨theta, htheta, safe_ok _⟩
  · rintro (h | h | h)
    · exact h.lt.le
    · exact (Nat.lt_of_succ_lt h.lt).le
    · omega

theorem CoordinateLsa.readsSafely_iff_supplied (lib : TextLib) (content : Text) :
    ReadsSafely lib content ↔ Supplied lib (tokens '|' content) := by
  rw [← safe_initializeFromContent]
  refine and_iff_left fun l hok => ?_
  obtain ⟨header, hheader, hok⟩ := bind_eq_ok.1 hok
  obtain ⟨corRad, -, hok⟩ := guarded_eq_ok.1 hok
  obtain ⟨corTheta, htheta, hok⟩ := guarded_eq_ok.1 hok
  cases hok
  exact ⟨(readHeader_eq_ok hheader).1, Reads.lt ⟨_, htheta⟩⟩

/-- **When received content is read safely**, for each of the three readers. -/
theorem readsSafely_iff (lib : TextLib) (content : Text) :
    (NameLsa.ReadsSafely lib content ↔ NameLsa.Supplied lib (tokens '|' content)) ∧
      (AdjLsa.ReadsSafely lib content ↔ AdjLsa.Supplied lib (tokens '|' content)) ∧
      (CoordinateLsa.ReadsSafely lib content ↔
        CoordinateLsa.Supplied lib (tokens '|' content)) :=
  ⟨NameLsa.readsSafely_iff_supplied lib content, AdjLsa.readsSafely_iff_supplied lib content,
    CoordinateLsa.readsSafely_iff_supplied lib content⟩

/-- An empty content is fatal to all three readers, and so is a Name LSA that announces one name
and has none. -/
theorem not_readsSafely :
    (¬ NameLsa.ReadsSafely plainText [] ∧ ¬ AdjLsa.ReadsSafely plainText [] ∧
        ¬ CoordinateLsa.ReadsSafely plainText []) ∧
      ¬ NameLsa.ReadsSafely plainText "/a|name|1|19700101T000001|1|".toList := by
  refine ⟨⟨fun h => h.1 rfl, fun h => h.1 rfl, fun h => h.1 rfl⟩, fun h => h.1 ?_⟩
  decide +kernel

end LinkState
