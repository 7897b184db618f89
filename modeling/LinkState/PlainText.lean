import LinkState.Content
import Mathlib.Data.Rat.Lemmas

/-!
# Texts that can be evaluated

`plainText` is a `TextLib` to compute with, and `roundTrips_plainText` shows that what is assumed
of the libraries can be had at once.

It writes what they write for names (percent escapes are made for `%`, `/` and `|` only), whole
numbers, whole doubles, and whole seconds of the first day of 1970. Other doubles are written
as fractions and other time points as numbers, which is enough to read them back.
-/

namespace LinkState

namespace PlainText

/-! ## Names -/

def escapeChar (c : Char) : Text :=
  if c = '%' then ['%', '2', '5'] else if c = '/' then ['%', '2', 'F']
  else if c = '|' then ['%', '7', 'C'] else [c]

def unescapeChars : Text → Text
  | '%' :: '2' :: '5' :: t => '%' :: unescapeChars t
  | '%' :: '2' :: 'F' :: t => '/' :: unescapeChars t
  | '%' :: '7' :: 'C' :: t => '|' :: unescapeChars t
  | c :: t => c :: unescapeChars t
  | [] => []

/-- A component of dots only, or an empty one, gets three dots more. -/
def escape (c : Component) : Text :=
  if c.value.toList.all fun ch => ch = '.' then "...".toList ++ c.value.toList
  else c.value.toList.flatMap escapeChar

def unescape (t : Text) : Component :=
  ⟨String.ofList (if t.all fun ch => ch = '.' then t.drop 3 else unescapeChars t)⟩

def toUri (n : Name) : Text := if n = [] then ['/'] else n.flatMap fun c => '/' :: escape c

def fromUri (t : Text) : Name := if t = ['/'] then [] else (t.splitOn '/').tail.map unescape

theorem unescapeChars_cons {c : Char} (h : c ≠ '%') (t : Text) :
    unescapeChars (c :: t) = c :: unescapeChars t := by
  rw [unescapeChars.eq_4]
  all_goals exact fun _ hc => absurd hc h

theorem unescapeChars_append (v t : Text) :
    unescapeChars (v.flatMap escapeChar ++ t) = v ++ unescapeChars t := by
  induction v with
  | nil => rfl
  | cons c v ih =>
    rw [List.flatMap_cons, List.append_assoc]
    by_cases h₁ : c = '%'
    · subst h₁; simp [escapeChar, unescapeChars, ih]
    · by_cases h₂ : c = '/'
      · subst h₂; simp [escapeChar, unescapeChars, ih]
      · by_cases h₃ : c = '|'
        · subst h₃; simp [escapeChar, unescapeChars, ih]
        · have hc : escapeChar c = [c] := by simp [escapeChar, h₁, h₂, h₃]
          rw [hc, List.singleton_append, unescapeChars_cons h₁, ih, List.cons_append]

/-- The separators do not occur in an escaped component. -/
theorem not_mem_escape {ch : Char} (h : ch = '/' ∨ ch = '|') (c : Component) :
    ch ∉ escape c := by
  have hchar : ∀ d, ch ∉ escapeChar d := by
    intro d hd
    unfold escapeChar at hd
    split_ifs at hd with h₁ h₂ h₃
    · rcases h with rfl | rfl <;> simp at hd
    · rcases h with rfl | rfl <;> simp at hd
    · rcases h with rfl | rfl <;> simp at hd
    · rw [List.mem_singleton] at hd
      rcases h with rfl | rfl
      · exact h₂ hd.symm
      · exact h₃ hd.symm
  unfold escape
  split_ifs with hdots
  · intro hmem
    have hdot : ch = '.' := by
      rcases List.mem_append.1 hmem with hmem | hmem
      · simpa using hmem
      · simpa using List.all_eq_true.1 hdots ch hmem
    rcases h with rfl | rfl <;> exact absurd hdot (by decide)
  · intro hmem
    obtain ⟨d, -, hd⟩ := List.mem_flatMap.1 hmem
    exact hchar d hd

theorem unescape_escape (c : Component) : unescape (escape c) = c := by
  have hvalue : (if (escape c).all (fun ch => ch = '.') then (escape c).drop 3
      else unescapeChars (escape c)) = c.value.toList := by
    unfold escape
    split_ifs with hdots hall hall
    · rfl
    · exact absurd (by simpa using hdots) (by simpa using hall)
    · -- A character that is no dot is escaped to a text with such a character
      refine absurd ?_ hdots
      rw [List.all_eq_true] at hall ⊢
      intro ch hch
      have hescape : ∀ e ∈ escapeChar ch, e = '.' := fun e he => by
        simpa using hall e (List.mem_flatMap.2 ⟨ch, hch, he⟩)
      unfold escapeChar at hescape
      split_ifs at hescape
      · exact absurd (hescape '%' List.mem_cons_self) (by decide)
      · exact absurd (hescape '%' List.mem_cons_self) (by decide)
      · exact absurd (hescape '%' List.mem_cons_self) (by decide)
      · simpa using hescape
    · have h := unescapeChars_append c.value.toList []
      rwa [List.append_nil, show unescapeChars [] = [] from rfl, List.append_nil] at h
  rw [unescape, hvalue, String.ofList_toList]

theorem splitOn_toUri (n : Name) {t : Text} (ht : '/' ∉ t) :
    (t ++ n.flatMap fun c => '/' :: escape c).splitOn '/' = t :: n.map escape := by
  induction n generalizing t with
  | nil => simpa using List.splitOn_eq_singleton ht
  | cons c n ih =>
    rw [List.flatMap_cons, List.cons_append, List.splitOn_append_cons_self_of_not_mem ht,
      ih (not_mem_escape (Or.inl rfl) c)]
    rfl

theorem escape_ne_nil (c : Component) : escape c ≠ [] := by
  intro h
  have hback := unescape_escape c
  rw [h] at hback
  have hempty : c = ⟨""⟩ := hback.symm.trans (by decide)
  rw [hempty] at h
  exact absurd h (by decide)

theorem toUri_ne_slash {c : Component} {n : Name} : toUri (c :: n) ≠ ['/'] := by
  intro h
  have htail : escape c ++ n.flatMap (fun c => '/' :: escape c) = [] := by
    simpa [toUri] using h
  exact escape_ne_nil c (List.append_eq_nil_iff.1 htail).1

theorem fromUri_toUri (n : Name) : fromUri (toUri n) = n := by
  cases n with
  | nil => rfl
  | cons c n =>
    have hsplit := splitOn_toUri (c :: n) (t := []) List.not_mem_nil
    rw [List.nil_append] at hsplit
    rw [fromUri, if_neg toUri_ne_slash, toUri, if_neg (List.cons_ne_nil c n), hsplit]
    rw [List.tail_cons, List.map_map]
    exact (List.map_congr_left fun c _ => unescape_escape c).trans (List.map_id _)

theorem isField_toUri (n : Name) : TextLib.IsField (toUri n) := by
  cases n with
  | nil => exact ⟨by decide, by decide⟩
  | cons c n =>
    refine ⟨by simp [toUri], fun hmem => ?_⟩
    rw [toUri, if_neg (List.cons_ne_nil c n)] at hmem
    obtain ⟨d, -, hd⟩ := List.mem_flatMap.1 hmem
    rcases List.mem_cons.1 hd with hd | hd
    · exact absurd hd (by decide)
    · exact not_mem_escape (Or.inr rfl) d hd

/-! ## Numbers -/

def printNat (n : Nat) : Text := Nat.toDigits 10 n

def toNat (t : Text) : Nat := Nat.ofDigitChars 10 t 0

/-- `none` for a text that is no number. -/
def toNat? (t : Text) : Option Nat := if t ≠ [] ∧ t.all Char.isDigit then some (toNat t) else none

/-- `none` also for a number that needs more than 32 bits. -/
def toUInt32 (t : Text) : Option UInt32 :=
  (toNat? t).bind fun n => if n < 2 ^ 32 then some (UInt32.ofNat n) else none

/-- A fraction with a denominator other than 1 has its numerator and denominator. -/
def printDouble (x : Double) : Text :=
  (if x.num < 0 then ['-'] else []) ++ printNat x.num.natAbs ++
    if x.den = 1 then [] else '/' :: printNat x.den

/-- Digits, with or without a point. -/
def toDecimal (t : Text) : Option Double :=
  match t.splitOn '.' with
  | [whole] => (toNat? whole).map fun n : Nat => (n : Double)
  | [whole, part] => (toNat? (whole ++ part)).map fun n : Nat => mkRat n (10 ^ part.length)
  | _ => none

def toFraction (t : Text) : Option Double :=
  match t.splitOn '/' with
  | [num] => toDecimal num
  | [num, den] => do
    let n ← toNat? num
    let d ← toNat? den
    if d = 0 then none else some (mkRat n d)
  | _ => none

def toDouble : Text → Option Double
  | '-' :: t => (toFraction t).map fun x => -x
  | t => toFraction t

theorem toNat_printNat (n : Nat) : toNat (printNat n) = n := Nat.ofDigitChars_ten_toDigits

theorem isDigit_of_mem_printNat {n : Nat} {c : Char} (h : c ∈ printNat n) : c.isDigit :=
  Nat.isDigit_of_mem_toDigits (by decide) (by decide) h

theorem not_mem_printNat {c : Char} (h : c.isDigit = false) (n : Nat) : c ∉ printNat n :=
  fun hc => by simp [isDigit_of_mem_printNat hc] at h

theorem printNat_ne_nil (n : Nat) : printNat n ≠ [] := Nat.toDigits_ne_nil

theorem toNat?_printNat (n : Nat) : toNat? (printNat n) = some n := by
  have hdigits : (printNat n).all Char.isDigit :=
    List.all_eq_true.2 fun c hc => isDigit_of_mem_printNat hc
  rw [toNat?, if_pos ⟨printNat_ne_nil n, hdigits⟩, toNat_printNat]

theorem toUInt32_printNat (n : Nat) :
    toUInt32 (printNat n) = if n < 2 ^ 32 then some (UInt32.ofNat n) else none := by
  rw [toUInt32, toNat?_printNat, Option.bind_some]

theorem toDouble_of_ne_minus {t : Text} (h : ∀ u, t ≠ '-' :: u) : toDouble t = toFraction t := by
  unfold toDouble
  split
  · rename_i u
    exact absurd rfl (h u)
  · rfl

theorem printNat_ne_minus (n : Nat) (t u : Text) : printNat n ++ t ≠ '-' :: u := by
  intro h
  obtain ⟨c, v, hcv⟩ := List.exists_cons_of_ne_nil (printNat_ne_nil n)
  rw [hcv] at h
  have hc : c = '-' := (List.cons.inj h).1
  have hmem : '-' ∈ printNat n := by rw [hcv, hc]; exact List.mem_cons_self
  exact not_mem_printNat (by decide) n hmem

theorem toFraction_printNat (n : Nat) : toFraction (printNat n) = some (n : Double) := by
  rw [toFraction, List.splitOn_eq_singleton (not_mem_printNat (by decide) n)]
  dsimp only
  rw [toDecimal, List.splitOn_eq_singleton (not_mem_printNat (by decide) n)]
  dsimp only
  rw [toNat?_printNat, Option.map_some]

theorem toDouble_printNat (n : Nat) : toDouble (printNat n) = some (n : Double) := by
  rw [toDouble_of_ne_minus, toFraction_printNat]
  intro u h
  exact printNat_ne_minus n [] u (by rwa [List.append_nil])

theorem toFraction_append (num : Nat) {den : Nat} (hden : den ≠ 0) :
    toFraction (printNat num ++ '/' :: printNat den) = some (mkRat num den) := by
  rw [toFraction, List.splitOn_append_cons_self_of_not_mem (not_mem_printNat (by decide) num),
    List.splitOn_eq_singleton (not_mem_printNat (by decide) den)]
  simp [toNat?_printNat, hden]

/-- The text of a double without its sign is the text of its absolute value. -/
theorem toFraction_printDouble (x : Double) :
    toFraction (printNat x.num.natAbs ++ if x.den = 1 then [] else '/' :: printNat x.den) =
      some (mkRat x.num.natAbs x.den) := by
  split_ifs with hden
  · rw [List.append_nil, toFraction_printNat, hden, Rat.mkRat_one]
    rfl
  · exact toFraction_append x.num.natAbs x.den_nz

theorem toDouble_printDouble (x : Double) : toDouble (printDouble x) = some x := by
  have hbody := toFraction_printDouble x
  unfold printDouble
  by_cases hneg : x.num < 0
  · have habs : (x.num.natAbs : Int) = -x.num := by omega
    rw [if_pos hneg, List.append_assoc, List.singleton_append, toDouble, hbody, habs]
    show some (-mkRat (-x.num) x.den) = some x
    rw [Rat.neg_mkRat, neg_neg, Rat.mkRat_self]
  · have habs : (x.num.natAbs : Int) = x.num := by omega
    rw [if_neg hneg, List.nil_append, toDouble_of_ne_minus fun u => printNat_ne_minus _ _ u, hbody,
      habs, Rat.mkRat_self]

theorem isField_printNat (n : Nat) : TextLib.IsField (printNat n) :=
  ⟨printNat_ne_nil n, not_mem_printNat (by decide) n⟩

theorem isField_printDouble (x : Double) : TextLib.IsField (printDouble x) := by
  refine ⟨fun h => ?_, fun hmem => ?_⟩
  · simp [printDouble, printNat_ne_nil] at h
  · simp only [printDouble, List.mem_append] at hmem
    rcases hmem with (hmem | hmem) | hmem
    · split_ifs at hmem <;> simp at hmem
    · exact not_mem_printNat (by decide) _ hmem
    · split_ifs at hmem
      · exact absurd hmem List.not_mem_nil
      · rcases List.mem_cons.1 hmem with hmem | hmem
        · exact absurd hmem (by decide)
        · exact not_mem_printNat (by decide) _ hmem

/-! ## Time points -/

/-- The date of the first day. -/
def firstDay : Text := ['1', '9', '7', '0', '0', '1', '0', '1', 'T']

/-- A second of the day as `hhmmss`. -/
def clock (k : Nat) : Text :=
  [(k / 36000).digitChar, (k / 3600 % 10).digitChar, (k / 600 % 6).digitChar,
    (k / 60 % 10).digitChar, (k / 10 % 6).digitChar, (k % 10).digitChar]

def ofClock (t : Text) : Nat :=
  3600 * toNat (t.take 2) + 60 * toNat ((t.drop 2).take 2) + toNat (t.drop 4)

/-- Whole seconds of the first day as a date; other time points as `t` and a number. -/
def toIsoString (t : Int) : Text :=
  if 0 ≤ t ∧ t < 86400 * 1000000000 ∧ 1000000000 ∣ t then
    firstDay ++ clock (t / 1000000000).toNat
  else 't' :: (if t < 0 then '-' :: printNat t.natAbs else printNat t.natAbs)

def fromIsoString : Text → Option Int
  | 't' :: '-' :: t => (toNat? t).map fun n : Nat => -(n : Int)
  | 't' :: t => (toNat? t).map fun n : Nat => (n : Int)
  | t =>
    if t.take 9 = firstDay ∧ t.length = 15 ∧ (t.drop 9).all Char.isDigit then
      some (ofClock (t.drop 9) * 1000000000 : Int)
    else none

theorem toNat_two {a b : Nat} (ha : a < 10) (hb : b < 10) :
    toNat [a.digitChar, b.digitChar] = 10 * a + b := by
  simp [toNat, Nat.ofDigitChars_cons_digitChar_of_lt_ten, ha, hb]

theorem ofClock_clock {k : Nat} (h : k < 86400) : ofClock (clock k) = k := by
  have h₁ : k / 36000 < 10 := by omega
  have h₂ : k / 3600 % 10 < 10 := by omega
  have h₃ : k / 600 % 6 < 10 := by omega
  have h₄ : k / 60 % 10 < 10 := by omega
  have h₅ : k / 10 % 6 < 10 := by omega
  have h₆ : k % 10 < 10 := by omega
  show 3600 * toNat [_, _] + 60 * toNat [_, _] + toNat [_, _] = k
  rw [toNat_two h₁ h₂, toNat_two h₃ h₄, toNat_two h₅ h₆]
  omega

theorem all_isDigit_clock {k : Nat} (h : k < 86400) : (clock k).all Char.isDigit = true := by
  have hdigit : ∀ n < 10, (Nat.digitChar n).isDigit = true := by decide
  have h₁ : k / 36000 < 10 := by omega
  simp only [clock, List.all_cons, List.all_nil, hdigit _ h₁,
    hdigit (k / 3600 % 10) (by omega), hdigit (k / 600 % 6) (by omega),
    hdigit (k / 60 % 10) (by omega), hdigit (k / 10 % 6) (by omega), hdigit (k % 10) (by omega),
    Bool.and_self]

theorem fromIsoString_toIsoString (t : Int) : fromIsoString (toIsoString t) = some t := by
  unfold toIsoString
  split_ifs with hday hneg
  · obtain ⟨hpos, hlt, k, rfl⟩ := hday
    have hdiv : 1000000000 * k / 1000000000 = k := by omega
    rw [hdiv]
    have hread : fromIsoString (firstDay ++ clock k.toNat) =
        some ((ofClock (clock k.toNat) : Int) * 1000000000) :=
      if_pos ⟨rfl, rfl, all_isDigit_clock (by omega)⟩
    rw [hread, ofClock_clock (by omega)]
    congr 1
    omega
  · show (toNat? (printNat t.natAbs)).map (fun n : Nat => -(n : Int)) = some t
    rw [toNat?_printNat, Option.map_some]
    congr 1
    omega
  · have hne : ∀ u, printNat t.natAbs ≠ '-' :: u := fun u h =>
      printNat_ne_minus t.natAbs [] u (by rwa [List.append_nil])
    have hread : fromIsoString ('t' :: printNat t.natAbs) =
        (toNat? (printNat t.natAbs)).map fun n : Nat => (n : Int) := by
      unfold fromIsoString
      split
      · rename_i heq
        exact absurd (List.cons.inj heq).2 (hne _)
      · rename_i heq
        rw [(List.cons.inj heq).2]
      · rename_i h
        exact absurd rfl (h _)
    rw [hread, toNat?_printNat, Option.map_some]
    congr 1
    omega

theorem isField_toIsoString (t : Int) : TextLib.IsField (toIsoString t) := by
  have hdigit : ∀ n < 10, Nat.digitChar n ≠ '|' := by decide
  unfold toIsoString
  split_ifs with hday hneg
  · refine ⟨by simp [firstDay], fun hmem => ?_⟩
    rcases List.mem_append.1 hmem with hmem | hmem
    · exact absurd hmem (by decide)
    · simp only [clock, List.mem_cons, List.not_mem_nil, or_false] at hmem
      have hlt : (t / 1000000000).toNat < 86400 := by omega
      rcases hmem with hmem | hmem | hmem | hmem | hmem | hmem <;>
        exact hdigit _ (by omega) hmem.symm
  · refine ⟨List.cons_ne_nil _ _, fun hmem => ?_⟩
    rcases List.mem_cons.1 hmem with hmem | hmem
    · exact absurd hmem (by decide)
    · rcases List.mem_cons.1 hmem with hmem | hmem
      · exact absurd hmem (by decide)
      · exact not_mem_printNat (by decide) _ hmem
  · refine ⟨List.cons_ne_nil _ _, fun hmem => ?_⟩
    rcases List.mem_cons.1 hmem with hmem | hmem
    · exact absurd hmem (by decide)
    · exact not_mem_printNat (by decide) _ hmem

end PlainText

/-- A text library to compute with. -/
def plainText : TextLib where
  toUri := PlainText.toUri
  fromUri t := some (PlainText.fromUri t)
  printNat := PlainText.printNat
  toUInt32 := PlainText.toUInt32
  printDouble := PlainText.printDouble
  toDouble := PlainText.toDouble
  toIsoString := PlainText.toIsoString
  fromIsoString := PlainText.fromIsoString
  pastEnd _ := none

theorem roundTrips_plainText : plainText.RoundTrips where
  fromUri_toUri n := congrArg some (PlainText.fromUri_toUri n)
  isField_toUri := PlainText.isField_toUri
  toUInt32_printNat := PlainText.toUInt32_printNat
  toDouble_printNat := PlainText.toDouble_printNat
  isField_printNat := PlainText.isField_printNat
  toDouble_printDouble := PlainText.toDouble_printDouble
  isField_printDouble := PlainText.isField_printDouble
  fromIsoString_toIsoString t _ := PlainText.fromIsoString_toIsoString t
  isField_toIsoString := PlainText.isField_toIsoString

example : plainText.toUri [⟨"net"⟩, ⟨"a/b"⟩, ⟨""⟩] = "/net/a%2Fb/...".toList := by decide

example : plainText.toIsoString (3600 * 1000000000) = "19700101T010000".toList := by decide

end LinkState
