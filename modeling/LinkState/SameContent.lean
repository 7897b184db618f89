import LinkState.Reading

/-!
# One content, one LSA

The text of an LSA is made of fields, and each says one thing. So two LSAs with one text say the
same (`saysSame_of_getData`), and so do all that were read from it or patched with it
(`saysSame_of_saysWritten`).
-/

namespace LinkState

open SequencingManager

/-! ## The fields of an LSA -/

namespace AnyLsa

/-- The fields in the order in which they are written. -/
def fields (lib : TextLib) : AnyLsa → List Text
  | .name l => headerFields lib l.toLsa NameLsa.typeString ++
      lib.printNat l.npl.size :: l.npl.toList.map lib.toUri
  | .adj l => headerFields lib l.toLsa AdjLsa.typeString ++
      lib.printNat l.adl.size :: l.adl.toList.flatMap (Adjacent.fields lib)
  | .coordinate l => headerFields lib l.toLsa CoordinateLsa.typeString ++
      [lib.printDouble l.corRad, lib.printDouble l.corTheta]

theorem getData_eq (lib : TextLib) (l : AnyLsa) :
    l.getData lib = terminated '|' (l.fields lib) := by
  cases l with
  | name l => exact NameLsa.getData_eq lib l
  | adj l => exact AdjLsa.getData_eq lib l
  | coordinate l => exact CoordinateLsa.getData_eq lib l

theorem isField_of_mem_fields {lib : TextLib} (h : lib.RoundTrips) {conf : ConfParameter}
    {l : AnyLsa} (hl : l.Plain conf) : ∀ t ∈ l.fields lib, TextLib.IsField t := by
  intro t ht
  cases l with
  | name l =>
    rcases List.mem_append.1 ht with ht | ht
    · exact isField_of_mem_headerFields h ⟨by decide, by decide⟩ ht
    rcases List.mem_cons.1 ht with rfl | ht
    · exact h.isField_printNat _
    · obtain ⟨n, -, rfl⟩ := List.mem_map.1 ht
      exact h.isField_toUri n
  | adj l =>
    rcases List.mem_append.1 ht with ht | ht
    · exact isField_of_mem_headerFields h ⟨by decide, by decide⟩ ht
    rcases List.mem_cons.1 ht with rfl | ht
    · exact h.isField_printNat _
    obtain ⟨a, ha, ht⟩ := List.mem_flatMap.1 ht
    simp only [Adjacent.fields, List.mem_cons, List.not_mem_nil, or_false] at ht
    rcases ht with rfl | rfl | rfl
    · exact h.isField_toUri _
    · exact hl a ha
    · exact h.isField_printNat _
  | coordinate l =>
    rcases List.mem_append.1 ht with ht | ht
    · exact isField_of_mem_headerFields h ⟨by decide, by decide⟩ ht
    · simp only [List.mem_cons, List.not_mem_nil, or_false] at ht
      rcases ht with rfl | rfl <;> exact h.isField_printDouble _

/-- Two LSAs say the same: of one origin, with one number, the same names, neighbours or
coordinates. -/
def SaysSame (l l' : AnyLsa) : Prop :=
  l.origRouter = l'.origRouter ∧ l.lsSeqNo = l'.lsSeqNo ∧
    match l, l' with
    | .name l, .name l' => ∀ n, n ∈ l.npl ↔ n ∈ l'.npl
    | .adj l, .adj l' => ∀ p, (∃ a ∈ l.adl, a.written = p) ↔ ∃ a ∈ l'.adl, a.written = p
    | .coordinate l, .coordinate l' => l.corRad = l'.corRad ∧ l.corTheta = l'.corTheta
    | _, _ => False

end AnyLsa

/-! ## What the fields say -/

namespace TextLib.RoundTrips

variable {lib : TextLib} (h : lib.RoundTrips)

include h

theorem toUri_injective : Function.Injective lib.toUri := by
  intro n n' heq
  have hread := congrArg lib.fromUri heq
  rw [h.fromUri_toUri, h.fromUri_toUri] at hread
  exact Option.some.inj hread

theorem printNat_injective : Function.Injective lib.printNat := by
  intro n n' heq
  have hread := congrArg lib.toDouble heq
  rw [h.toDouble_printNat, h.toDouble_printNat] at hread
  exact Nat.cast_injective (Option.some.inj hread)

theorem printDouble_injective : Function.Injective lib.printDouble := by
  intro x y heq
  have hread := congrArg lib.toDouble heq
  rw [h.toDouble_printDouble, h.toDouble_printDouble] at hread
  exact Option.some.inj hread

/-- The fields of neighbours say what is written of each. -/
theorem written_of_fields {as bs : List Adjacent}
    (heq : as.flatMap (Adjacent.fields lib) = bs.flatMap (Adjacent.fields lib)) :
    as.map Adjacent.written = bs.map Adjacent.written := by
  induction as generalizing bs with
  | nil =>
    cases bs with
    | nil => rfl
    | cons b bs => simp [Adjacent.fields] at heq
  | cons a as ih =>
    cases bs with
    | nil => simp [Adjacent.fields] at heq
    | cons b bs =>
      simp only [List.flatMap_cons, Adjacent.fields, List.cons_append, List.nil_append,
        List.cons.injEq] at heq
      obtain ⟨hname, huri, hcost, hrest⟩ := heq
      have hone : a.written = b.written := by
        simp only [Adjacent.written, Prod.mk.injEq]
        exact ⟨h.toUri_injective hname, String.ext huri, h.printNat_injective hcost⟩
      rw [List.map_cons, List.map_cons, hone, ih hrest]

/-- The header says the origin, the kind and the number. -/
theorem header_inj {l l' : Lsa} {typeString typeString' : String} {rest rest' : List Text}
    (heq : headerFields lib l typeString ++ rest = headerFields lib l' typeString' ++ rest') :
    l.origRouter = l'.origRouter ∧ typeString = typeString' ∧ l.lsSeqNo = l'.lsSeqNo ∧
      lib.toIsoString l.expirationTimePoint = lib.toIsoString l'.expirationTimePoint ∧
      rest = rest' := by
  simp only [headerFields, List.cons_append, List.nil_append, List.cons.injEq] at heq
  obtain ⟨horigin, htype, hseq, htime, hrest⟩ := heq
  exact ⟨h.toUri_injective horigin, String.ext htype,
    UInt32.toNat.inj (h.printNat_injective hseq), htime, hrest⟩

end TextLib.RoundTrips

/-! ## One content -/

namespace AnyLsa

variable {lib : TextLib} {conf : ConfParameter}

/-- **LSAs with one text say the same.** -/
theorem saysSame_of_getData (h : lib.RoundTrips) {l l' : AnyLsa} (hl : l.Plain conf)
    (hl' : l'.Plain conf) (heq : l.getData lib = l'.getData lib) :
    l.SaysSame l' ∧ lib.toIsoString l.toLsa.expirationTimePoint =
      lib.toIsoString l'.toLsa.expirationTimePoint := by
  rw [getData_eq, getData_eq] at heq
  have hfields := terminated_inj (isField_of_mem_fields h hl) (isField_of_mem_fields h hl') heq
  have hna : NameLsa.typeString ≠ AdjLsa.typeString := by decide
  have hnc : NameLsa.typeString ≠ CoordinateLsa.typeString := by decide
  have hac : AdjLsa.typeString ≠ CoordinateLsa.typeString := by decide
  cases l with
  | name l =>
    cases l' with
    | name l' =>
      obtain ⟨horigin, -, hseq, htime, hrest⟩ := h.header_inj hfields
      have hnames := (List.map_injective_iff.2 h.toUri_injective) (List.cons.inj hrest).2
      refine ⟨⟨horigin, hseq, fun n => ?_⟩, htime⟩
      show n ∈ l.npl.toList ↔ n ∈ l'.npl.toList
      rw [hnames]
    | adj l' => exact absurd (h.header_inj hfields).2.1 hna
    | coordinate l' => exact absurd (h.header_inj hfields).2.1 hnc
  | adj l =>
    cases l' with
    | name l' => exact absurd (h.header_inj hfields).2.1.symm hna
    | adj l' =>
      obtain ⟨horigin, -, hseq, htime, hrest⟩ := h.header_inj hfields
      have hwritten := h.written_of_fields (List.cons.inj hrest).2
      refine ⟨⟨horigin, hseq, fun p => ?_⟩, htime⟩
      have hp : p ∈ l.adl.toList.map Adjacent.written ↔ p ∈ l'.adl.toList.map Adjacent.written := by
        rw [hwritten]
      rw [List.mem_map, List.mem_map] at hp
      exact hp
    | coordinate l' => exact absurd (h.header_inj hfields).2.1 hac
  | coordinate l =>
    cases l' with
    | name l' => exact absurd (h.header_inj hfields).2.1.symm hnc
    | adj l' => exact absurd (h.header_inj hfields).2.1.symm hac
    | coordinate l' =>
      obtain ⟨horigin, -, hseq, htime, hrest⟩ := h.header_inj hfields
      obtain ⟨hrad, htheta⟩ := List.cons.inj hrest
      exact ⟨⟨horigin, hseq, h.printDouble_injective hrad,
        h.printDouble_injective (List.cons.inj htheta).1⟩, htime⟩

/-- **All that was read from one text says the same**, and expires at the same time. -/
theorem saysSame_of_saysWritten (h : lib.RoundTrips) {l₁ l₂ l₁' l₂' : AnyLsa}
    (hl₁ : l₁.Plain conf) (hl₂ : l₂.Plain conf) (heq : l₁.getData lib = l₂.getData lib)
    (h₁ : l₁.SaysWritten lib l₁') (h₂ : l₂.SaysWritten lib l₂')
    (horigin : l₁'.origRouter = l₂'.origRouter) :
    l₁'.SaysSame l₂' ∧ l₁'.toLsa.expirationTimePoint = l₂'.toLsa.expirationTimePoint := by
  obtain ⟨⟨-, hseq, hsame⟩, htime⟩ := saysSame_of_getData h hl₁ hl₂ heq
  obtain ⟨hseq₁, htime₁, hsays₁⟩ := h₁
  obtain ⟨hseq₂, htime₂, hsays₂⟩ := h₂
  refine ⟨⟨horigin, hseq₁.trans (hseq.trans hseq₂.symm), ?_⟩, ?_⟩
  · cases l₁ with
    | name l₁ =>
      cases l₂ with
      | name l₂ =>
        cases l₁' with
        | name l₁' =>
          cases l₂' with
          | name l₂' => exact fun n => (hsays₁ n).trans ((hsame n).trans (hsays₂ n).symm)
          | _ => exact hsays₂
        | _ => exact hsays₁.elim
      | _ => exact hsame.elim
    | adj l₁ =>
      cases l₂ with
      | adj l₂ =>
        cases l₁' with
        | adj l₁' =>
          cases l₂' with
          | adj l₂' => exact fun p => (hsays₁ p).trans ((hsame p).trans (hsays₂ p).symm)
          | _ => exact hsays₂
        | _ => exact hsays₁.elim
      | _ => exact hsame.elim
    | coordinate l₁ =>
      cases l₂ with
      | coordinate l₂ =>
        cases l₁' with
        | coordinate l₁' =>
          cases l₂' with
          | coordinate l₂' =>
            exact ⟨hsays₁.1.trans (hsame.1.trans hsays₂.1.symm),
              hsays₁.2.trans (hsame.2.trans hsays₂.2.symm)⟩
          | _ => exact hsays₂
        | _ => exact hsays₁.elim
      | _ => exact hsame.elim
  · rw [htime] at htime₁
    exact Option.some.inj (htime₁.symm.trans htime₂)

end AnyLsa

end LinkState
