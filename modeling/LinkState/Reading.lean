import LinkState.ContentTrip
import LinkState.Convergence
import LinkState.Exchange

/-!
# What a receiver reads

A router that gets the text of an LSA stores what it reads, or patches what it has stored with
it. In both cases the stored LSA then says what is written: `saysWritten_asRead`,
`saysWritten_updated`.

The coordinates of a stored LSA are kept where the new ones are near; they are right because an
origin has one pair of coordinates. The costs are compared in the same way; they are right because
what is written of a cost is a whole number.
-/

namespace LinkState

open SequencingManager

/-! ## What is written and stays -/

/-- What of an LSA can be written down and stays: its face URIs are fields, its coordinates are
those of the configuration. -/
def AnyLsa.Plain (conf : ConfParameter) : AnyLsa → Prop
  | .name _ => True
  | .adj l => l.adl.UrisAreFields
  | .coordinate l => l.corRad = conf.corR ∧ l.corTheta = conf.corTheta

theorem AnyLsa.Plain.updated {conf : ConfParameter} {chk l : AnyLsa} (hchk : chk.Plain conf)
    (hl : l.Plain conf) (hkind : l.counter = chk.counter) (eid : Nat) :
    (chk.updated l eid).Plain conf := by
  cases chk with
  | name chk => cases l <;> trivial
  | adj chk =>
    cases l with
    | adj l =>
      intro a ha
      have hmem := Nlsr.mem_eqSorting chk.adl l.adl
      have ha' : a ∈ Nlsr.updatedAdl chk.adl l.adl := ha
      unfold Nlsr.updatedAdl at ha'
      split_ifs at ha'
      · exact hchk a ((hmem.1 a).1 ha')
      · exact hl a ((hmem.2 a).1 ha')
    | name l => cases hkind
    | coordinate l => cases hkind
  | coordinate chk =>
    cases l with
    | coordinate l =>
      obtain ⟨hrad, htheta⟩ := hchk
      obtain ⟨hrad', htheta'⟩ := hl
      show (if chk.isEqualContent l then chk.corRad else l.corRad) = _ ∧
        (if chk.isEqualContent l then chk.corTheta else l.corTheta) = _
      split_ifs
      · exact ⟨hrad, htheta⟩
      · exact ⟨hrad', htheta'⟩
    | name l => cases hkind
    | adj l => cases hkind

theorem AnyLsa.Plain.refreshed {conf : ConfParameter} {l : AnyLsa} (h : l.Plain conf)
    (t : TimePoint) (eid : Nat) : (l.refreshed t eid).Plain conf := by
  cases l <;> exact h

/-! ## What is read -/

/-- A stored LSA says what is written in the text of another one. -/
def AnyLsa.SaysWritten (lib : TextLib) (l l' : AnyLsa) : Prop :=
  l'.lsSeqNo = l.lsSeqNo ∧
    lib.fromIsoString (lib.toIsoString l.toLsa.expirationTimePoint) =
      some l'.toLsa.expirationTimePoint ∧
    match l, l' with
    | .name l, .name l' => ∀ n, n ∈ l'.npl ↔ n ∈ l.npl
    | .adj l, .adj l' => ∀ p, (∃ a ∈ l'.adl, a.written = p) ↔ ∃ a ∈ l.adl, a.written = p
    | .coordinate l, .coordinate l' => l'.corRad = l.corRad ∧ l'.corTheta = l.corTheta
    | _, _ => False

/-- What is read of an LSA and stays: its costs are whole, its coordinates are those of the
configuration of its origin. -/
def AnyLsa.Rounded (conf : ConfParameter) : AnyLsa → Prop
  | .name _ => True
  | .adj l => Nlsr.WholeCosts l.adl
  | .coordinate l => l.corRad = conf.corR ∧ l.corTheta = conf.corTheta

/-- An LSA as the reader makes it. -/
def AnyLsa.asRead (l : AnyLsa) (expirationTimePoint : TimePoint) : AnyLsa :=
  match l with
  | .name l => .name (l.asRead expirationTimePoint)
  | .adj l => .adj (l.asRead expirationTimePoint)
  | .coordinate l => .coordinate (l.asRead expirationTimePoint)

/-- What is read of a written text is the LSA as the reader makes it. -/
theorem AnyLsa.eq_asRead {lib : TextLib} (h : lib.RoundTrips) {conf : ConfParameter}
    {l l' : AnyLsa} (hl : l.Plain conf) {rest : Text}
    (hread : AnyLsa.initializeFromContent lib (l.getData lib ++ rest) l.counter = .ok l') :
    ∃ t, lib.fromIsoString (lib.toIsoString l.toLsa.expirationTimePoint) = some t ∧
      l' = l.asRead t := by
  have hmap : ∀ {α : Type} (f : α → AnyLsa) (make : TimePoint → α) (P : Prop) [Decidable P],
      Except.map f (if P then TextLib.inTry
        ((lib.fromIsoString (lib.toIsoString l.toLsa.expirationTimePoint)).map make)
        else .error .rejected) = Except.ok l' →
      ∃ t, lib.fromIsoString (lib.toIsoString l.toLsa.expirationTimePoint) = some t ∧
        l' = f (make t) := by
    intro α f make P _ hmake
    split_ifs at hmake
    · cases htime : lib.fromIsoString (lib.toIsoString l.toLsa.expirationTimePoint) with
      | none =>
        rw [htime] at hmake
        cases hmake
      | some t =>
        rw [htime] at hmake
        cases hmake
        exact ⟨t, rfl, rfl⟩
    · cases hmake
  cases l with
  | name l =>
    have hname := NameLsa.initializeFromContent_getData h l rest
    refine hmap AnyLsa.name l.asRead (l.origRouter ≠ [] ∧ l.npl.size < 2 ^ 32) (Eq.trans ?_ hread)
    exact congrArg (Except.map AnyLsa.name) hname.symm
  | adj l =>
    have hadj := AdjLsa.initializeFromContent_getData h hl rest
    refine hmap AnyLsa.adj l.asRead (l.origRouter ≠ [] ∧ l.adl.size < 2 ^ 32) (Eq.trans ?_ hread)
    exact congrArg (Except.map AnyLsa.adj) hadj.symm
  | coordinate l =>
    have hcoordinate := CoordinateLsa.initializeFromContent_getData h l rest
    refine hmap AnyLsa.coordinate l.asRead (l.origRouter ≠ []) (Eq.trans ?_ hread)
    exact congrArg (Except.map AnyLsa.coordinate) hcoordinate.symm

theorem wholeCosts_asRead (l : AdjLsa) (t : TimePoint) : Nlsr.WholeCosts (l.asRead t).adl := by
  intro a ha
  have ha' : a ∈ l.adl.mapValues Adjacent.asRead fun _ => rfl := ha
  obtain ⟨b, -, rfl⟩ := KeyedList.mem_mapValues.1 ha'
  exact ⟨b.getLinkCost, by simp [Adjacent.asRead]⟩

/-- Lists with the same triples are written in the same way. -/
theorem written_of_triples {l l' : AdjacencyList}
    (h : ∀ p, (∃ a ∈ l, a.triple = p) ↔ ∃ a ∈ l', a.triple = p) (p : Name × String × Nat) :
    (∃ a ∈ l, a.written = p) ↔ ∃ a ∈ l', a.written = p := by
  have hwritten : ∀ a b : Adjacent, a.triple = b.triple → a.written = b.written := by
    intro a b hab
    simp only [Adjacent.triple, Prod.mk.injEq] at hab
    simp only [Adjacent.written, Adjacent.getLinkCost, hab]
  constructor
  · rintro ⟨a, ha, rfl⟩
    obtain ⟨b, hb, hba⟩ := (h a.triple).1 ⟨a, ha, rfl⟩
    exact ⟨b, hb, hwritten b a hba⟩
  · rintro ⟨a, ha, rfl⟩
    obtain ⟨b, hb, hba⟩ := (h a.triple).2 ⟨a, ha, rfl⟩
    exact ⟨b, hb, hwritten b a hba⟩

theorem written_asRead (l : AdjLsa) (t : TimePoint) (p : Name × String × Nat) :
    (∃ a ∈ (l.asRead t).adl, a.written = p) ↔ ∃ a ∈ l.adl, a.written = p := by
  constructor
  · rintro ⟨a, ha, rfl⟩
    have ha' : a ∈ l.adl.mapValues Adjacent.asRead fun _ => rfl := ha
    obtain ⟨b, hb, rfl⟩ := KeyedList.mem_mapValues.1 ha'
    exact ⟨b, hb, b.written_asRead.symm⟩
  · rintro ⟨a, ha, rfl⟩
    have hread : a.asRead ∈ l.adl.mapValues Adjacent.asRead fun _ => rfl :=
      KeyedList.mem_mapValues.2 ⟨a, ha, rfl⟩
    exact ⟨a.asRead, hread, a.written_asRead⟩

/-- The first version that is stored. -/
theorem AnyLsa.saysWritten_asRead {lib : TextLib} {conf : ConfParameter} {l : AnyLsa}
    {t : TimePoint} (hl : l.Plain conf)
    (ht : lib.fromIsoString (lib.toIsoString l.toLsa.expirationTimePoint) = some t) :
    (l.asRead t).Rounded conf ∧ SaysWritten lib l (l.asRead t) := by
  cases l with
  | name l => exact ⟨trivial, rfl, ht, fun _ => Iff.rfl⟩
  | adj l => exact ⟨wholeCosts_asRead l t, rfl, ht, written_asRead l t⟩
  | coordinate l => exact ⟨hl, rfl, ht, rfl, rfl⟩

/-- **A stored version that is patched with another one.** -/
theorem AnyLsa.saysWritten_updated {lib : TextLib} {conf : ConfParameter} {chk l : AnyLsa}
    {t : TimePoint} (hchk : chk.Rounded conf) (hl : l.Plain conf)
    (hkind : l.counter = chk.counter) (horig : chk.origRouter = l.origRouter)
    (ht : lib.fromIsoString (lib.toIsoString l.toLsa.expirationTimePoint) = some t) (eid : Nat) :
    (chk.updated (l.asRead t) eid).Rounded conf ∧
      SaysWritten lib l (chk.updated (l.asRead t) eid) := by
  cases l with
  | name l =>
    cases chk with
    | name chk => exact ⟨trivial, rfl, ht, (Nlsr.same_updatedNameLsa horig eid).2⟩
    | adj chk => cases hkind
    | coordinate chk => cases hkind
  | adj l =>
    cases chk with
    | adj chk =>
      have hwhole := wholeCosts_asRead l t
      have hsame := Nlsr.same_updatedAdjLsa (l := l.asRead t) horig hchk hwhole eid
      refine ⟨Nlsr.wholeCosts_of_same hsame hwhole, rfl, ht, fun p => ?_⟩
      exact (written_of_triples hsame.2 p).trans (written_asRead l t p)
    | name chk => cases hkind
    | coordinate chk => cases hkind
  | coordinate l =>
    cases chk with
    | coordinate chk =>
      have hrad : chk.corRad = l.corRad := hchk.1.trans hl.1.symm
      have htheta : chk.corTheta = l.corTheta := hchk.2.trans hl.2.symm
      obtain ⟨-, hrad', htheta'⟩ := Nlsr.same_updatedCoordinateLsa (l := l.asRead t) horig
        (Or.inl hrad) (Or.inl htheta) eid
      exact ⟨⟨hrad'.trans hl.1, htheta'.trans hl.2⟩, rfl, ht, hrad', htheta'⟩
    | name chk => cases hkind
    | adj chk => cases hkind

/-! ## The origin that is read -/

namespace TextLib

variable {lib : TextLib}

theorem ok_of_bind {α β : Type} {x : Except ParseFailure α} {f : α → Except ParseFailure β} {b : β}
    (h : (x >>= f) = .ok b) : ∃ a, x = .ok a ∧ f a = .ok b := by
  cases x with
  | error e => cases h
  | ok a => exact ⟨a, rfl, h⟩

theorem origRouter_readHeader {toks : List Text} {header : Lsa}
    (h : lib.readHeader toks = .ok header) :
    ∃ t, lib.token toks 0 = .ok t ∧ lib.fromUri t = some header.origRouter := by
  obtain ⟨t, ht, h⟩ := ok_of_bind h
  obtain ⟨origRouter, horig, h⟩ := ok_of_bind h
  refine ⟨t, ht, ?_⟩
  have hread : header.origRouter = origRouter := by
    split_ifs at h
    · obtain ⟨_, -, h⟩ := ok_of_bind h
      obtain ⟨_, -, h⟩ := ok_of_bind h
      obtain ⟨_, -, h⟩ := ok_of_bind h
      obtain ⟨_, -, h⟩ := ok_of_bind h
      obtain ⟨_, -, h⟩ := ok_of_bind h
      cases h
      rfl
    · cases h
  cases hfrom : lib.fromUri t with
  | none => simp [hfrom, outsideTry] at horig
  | some o =>
    rw [hfrom] at horig
    cases horig
    rw [hread]

theorem origRouter_readNames {toks : List Text} {n i : Nat} {l l' : NameLsa}
    (h : lib.readNames toks n i l = .ok l') : l'.origRouter = l.origRouter := by
  induction n generalizing i l with
  | zero =>
    cases h
    rfl
  | succ n ih =>
    obtain ⟨_, -, h⟩ := ok_of_bind h
    obtain ⟨name, -, h⟩ := ok_of_bind h
    exact (ih h).trans rfl

theorem origRouter_readAdjacents {toks : List Text} {n i : Nat} {l l' : AdjLsa}
    (h : lib.readAdjacents toks n i l = .ok l') : l'.origRouter = l.origRouter := by
  induction n generalizing i l with
  | zero =>
    cases h
    rfl
  | succ n ih =>
    obtain ⟨_, -, h⟩ := ok_of_bind h
    obtain ⟨_, -, h⟩ := ok_of_bind h
    obtain ⟨_, -, h⟩ := ok_of_bind h
    obtain ⟨_, -, h⟩ := ok_of_bind h
    obtain ⟨_, -, h⟩ := ok_of_bind h
    exact (ih h).trans rfl

end TextLib

/-- A text that starts with the name of an origin is an LSA of this origin. -/
theorem AnyLsa.origRouter_of_read {lib : TextLib} (h : lib.RoundTrips) {o : Name} {text : Text}
    {c : Counter} {l' : AnyLsa}
    (hread : AnyLsa.initializeFromContent lib (lib.toUri o ++ '|' :: text) c = .ok l') :
    l'.origRouter = o := by
  have hheader : ∀ header, lib.readHeader (tokens '|' (lib.toUri o ++ '|' :: text)) = .ok header →
      header.origRouter = o := by
    intro header hheader
    obtain ⟨t, ht, hfrom⟩ := TextLib.origRouter_readHeader hheader
    rw [tokens_append_sep (h.isField_toUri o)] at ht
    obtain rfl : lib.toUri o = t := Except.ok.inj ht
    rw [h.fromUri_toUri] at hfrom
    exact (Option.some.inj hfrom).symm
  cases c with
  | name =>
    cases hname : NameLsa.initializeFromContent lib (lib.toUri o ++ '|' :: text) with
    | error e =>
      rw [AnyLsa.initializeFromContent, hname] at hread
      cases hread
    | ok l =>
      rw [AnyLsa.initializeFromContent, hname] at hread
      cases hread
      obtain ⟨header, hh, hrest⟩ := TextLib.ok_of_bind hname
      obtain ⟨_, -, hrest⟩ := TextLib.ok_of_bind hrest
      obtain ⟨_, -, hrest⟩ := TextLib.ok_of_bind hrest
      exact (TextLib.origRouter_readNames hrest).trans (hheader header hh)
  | adj =>
    cases hadj : AdjLsa.initializeFromContent lib (lib.toUri o ++ '|' :: text) with
    | error e =>
      rw [AnyLsa.initializeFromContent, hadj] at hread
      cases hread
    | ok l =>
      rw [AnyLsa.initializeFromContent, hadj] at hread
      cases hread
      obtain ⟨header, hh, hrest⟩ := TextLib.ok_of_bind hadj
      obtain ⟨_, -, hrest⟩ := TextLib.ok_of_bind hrest
      obtain ⟨_, -, hrest⟩ := TextLib.ok_of_bind hrest
      exact (TextLib.origRouter_readAdjacents hrest).trans (hheader header hh)
  | cor =>
    cases hcor : CoordinateLsa.initializeFromContent lib (lib.toUri o ++ '|' :: text) with
    | error e =>
      rw [AnyLsa.initializeFromContent, hcor] at hread
      cases hread
    | ok l =>
      rw [AnyLsa.initializeFromContent, hcor] at hread
      cases hread
      obtain ⟨header, hh, hrest⟩ := TextLib.ok_of_bind hcor
      obtain ⟨_, -, hrest⟩ := TextLib.ok_of_bind hrest
      obtain ⟨_, -, hrest⟩ := TextLib.ok_of_bind hrest
      obtain ⟨_, -, hrest⟩ := TextLib.ok_of_bind hrest
      obtain ⟨_, -, hrest⟩ := TextLib.ok_of_bind hrest
      cases hrest
      exact hheader header hh

theorem AnyLsa.exists_getData_eq (lib : TextLib) (l : AnyLsa) :
    ∃ text, l.getData lib = lib.toUri l.origRouter ++ '|' :: text := by
  cases l with
  | name l => exact ⟨_, (NameLsa.getData_eq lib l).trans (by simp [terminated, headerFields]; rfl)⟩
  | adj l => exact ⟨_, (AdjLsa.getData_eq lib l).trans (by simp [terminated, headerFields]; rfl)⟩
  | coordinate l =>
    exact ⟨_, (CoordinateLsa.getData_eq lib l).trans (by simp [terminated, headerFields]; rfl)⟩

end LinkState
