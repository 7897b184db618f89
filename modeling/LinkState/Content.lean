import LinkState.Library.Fallible
import LinkState.Library.Tokens
import LinkState.Lsa

/-!
# The text of an LSA

An LSA travels as a text: its fields with a `|` behind each. `getData` writes it and
`initializeFromContent` reads it, once for each kind.

Names, numbers, doubles and time points are turned into texts by other libraries; `TextLib` is
what the code uses of them, and `TextLib.RoundTrips` what it relies on. Nothing is assumed of
texts that nobody wrote.

A text is a C string: it has no zero byte. The receiver makes its string from the Content value
without the length, so other bytes can follow what was written; they come after the last `|`.

Reading ends in one of three ways: an LSA, `rejected` (the function returns false), or `escaped`
(an exception leaves the function, or an assertion of the tokenizer fails).

Main results: `NameLsa.initializeFromContent_getData` and its two siblings.
-/

namespace LinkState

/-- Characters of a C string. -/
abbrev Text := List Char

/-- What the code uses of the libraries that read and write texts. -/
structure TextLib where
  /-- `Name::toUri`. -/
  toUri : Name → Text
  /-- The constructor of a name from a URI; `none` where it throws. -/
  fromUri : Text → Option Name
  /-- `lexical_cast` from an unsigned number. -/
  printNat : Nat → Text
  /-- `lexical_cast<uint32_t>`; `none` where it throws. -/
  toUInt32 : Text → Option UInt32
  printDouble : Double → Text
  toDouble : Text → Option Double
  /-- `time::toIsoString` and `time::fromIsoString`. -/
  toIsoString : TimePoint → Text
  fromIsoString : Text → Option TimePoint
  /-- What the iterator yields behind the last of the tokens; `none` where its assertion fails. -/
  pastEnd : List Text → Option Text

namespace TextLib

/-- A text the tokenizer takes for one field. -/
abbrev IsField (t : Text) : Prop := LinkState.IsField '|' t

/-- What is written is read back, and is one field. -/
structure RoundTrips (lib : TextLib) : Prop where
  fromUri_toUri : ∀ n, lib.fromUri (lib.toUri n) = some n
  isField_toUri : ∀ n, IsField (lib.toUri n)
  toUInt32_printNat : ∀ n, lib.toUInt32 (lib.printNat n) =
    if n < 2 ^ 32 then some (UInt32.ofNat n) else none
  toDouble_printNat : ∀ n : Nat, lib.toDouble (lib.printNat n) = some (n : Double)
  isField_printNat : ∀ n, IsField (lib.printNat n)
  toDouble_printDouble : ∀ x, lib.toDouble (lib.printDouble x) = some x
  isField_printDouble : ∀ x, IsField (lib.printDouble x)
  /-- The text of a time point has microseconds. -/
  fromIsoString_toIsoString : ∀ t, 1000 ∣ t → lib.fromIsoString (lib.toIsoString t) = some t
  isField_toIsoString : ∀ t, IsField (lib.toIsoString t)

end TextLib

/-! ## Writing -/

/-- The first four fields: origin, kind, number, expiration point. -/
def headerData (lib : TextLib) (l : Lsa) (typeString : String) : Text :=
  lib.toUri l.origRouter ++ ['|'] ++ typeString.toList ++ ['|'] ++
    lib.printNat l.lsSeqNo.toNat ++ ['|'] ++ lib.toIsoString l.expirationTimePoint

def NameLsa.getData (lib : TextLib) (l : NameLsa) : Text :=
  let nameLsaData := headerData lib l.toLsa NameLsa.typeString ++ ['|'] ++ lib.printNat l.npl.size
  l.npl.toList.foldl (fun data name => data ++ ['|'] ++ lib.toUri name) nameLsaData ++ ['|']

def AdjLsa.getData (lib : TextLib) (l : AdjLsa) : Text :=
  let adjLsaData := headerData lib l.toLsa AdjLsa.typeString ++ ['|'] ++ lib.printNat l.adl.size
  l.adl.toList.foldl (fun data a =>
    data ++ ['|'] ++ lib.toUri a.name ++ ['|'] ++ a.connectingFaceUri.toList ++ ['|'] ++
      lib.printNat a.getLinkCost) adjLsaData ++ ['|']

def CoordinateLsa.getData (lib : TextLib) (l : CoordinateLsa) : Text :=
  headerData lib l.toLsa CoordinateLsa.typeString ++ ['|'] ++
    lib.printDouble l.corRad ++ ['|'] ++ lib.printDouble l.corTheta ++ ['|']

/-! ## Reading -/

/-- How `initializeFromContent` fails. -/
inductive ParseFailure
  /-- It returns false. -/
  | rejected
  /-- An exception or a failed assertion leaves it. -/
  | escaped
  deriving DecidableEq

namespace TextLib

/-- A failure inside a `try` block is caught: the function returns false. -/
def inTry {α : Type} (x : Option α) : Except ParseFailure α := x.elim (.error .rejected) .ok

/-- A failure outside the `try` blocks leaves the function. -/
def outsideTry {α : Type} (x : Option α) : Except ParseFailure α := x.elim (.error .escaped) .ok

/-- `*tok_iter++` for the iterator at a position. -/
def token (lib : TextLib) (toks : List Text) (i : Nat) : Except ParseFailure Text :=
  match toks[i]? with
  | some t => .ok t
  | none => outsideTry (lib.pastEnd toks)

/-- The first four tokens. -/
def readHeader (lib : TextLib) (toks : List Text) : Except ParseFailure Lsa := do
  let origRouter ← outsideTry (lib.fromUri (← lib.token toks 0))
  if ¬ origRouter.length > 0 then throw .rejected
  let lsType := String.ofList (← lib.token toks 1)
  let lsSeqNo ← inTry (lib.toUInt32 (← lib.token toks 2))
  let expirationTimePoint ← inTry (lib.fromIsoString (← lib.token toks 3))
  return { origRouter, lsType, lsSeqNo, expirationTimePoint }

/-- The loop over the names: so many from a position on. -/
def readNames (lib : TextLib) (toks : List Text) : (numName i : Nat) → NameLsa →
    Except ParseFailure NameLsa
  | 0, _, l => .ok l
  | n + 1, i, l => do
    let name ← outsideTry (lib.fromUri (← lib.token toks i))
    readNames lib toks n (i + 1) (l.addName name)

/-- The loop over the adjacents, three tokens each. -/
def readAdjacents (lib : TextLib) (toks : List Text) : (numLink i : Nat) → AdjLsa →
    Except ParseFailure AdjLsa
  | 0, _, l => .ok l
  | n + 1, i, l => do
    let name ← inTry (lib.fromUri (← lib.token toks i))
    let connectingFaceUri := String.ofList (← lib.token toks (i + 1))
    let linkCost ← inTry (lib.toDouble (← lib.token toks (i + 2)))
    readAdjacents lib toks n (i + 3)
      (l.addAdjacent { name, connectingFaceUri, linkCost, status := .inactive })

end TextLib

def NameLsa.initializeFromContent (lib : TextLib) (content : Text) :
    Except ParseFailure NameLsa := do
  let toks := tokens '|' content
  let header ← lib.readHeader toks
  let numName ← TextLib.inTry (lib.toUInt32 (← lib.token toks 4))
  lib.readNames toks numName.toNat 5 { header with }

def AdjLsa.initializeFromContent (lib : TextLib) (content : Text) :
    Except ParseFailure AdjLsa := do
  let toks := tokens '|' content
  let header ← lib.readHeader toks
  let numLink ← TextLib.inTry (lib.toUInt32 (← lib.token toks 4))
  lib.readAdjacents toks numLink.toNat 5 { header with }

def CoordinateLsa.initializeFromContent (lib : TextLib) (content : Text) :
    Except ParseFailure CoordinateLsa := do
  let toks := tokens '|' content
  let header ← lib.readHeader toks
  let corRad ← TextLib.inTry (lib.toDouble (← lib.token toks 4))
  let corTheta ← TextLib.inTry (lib.toDouble (← lib.token toks 5))
  return { header with corRad, corTheta }

/-! ## The fields written -/

def headerFields (lib : TextLib) (l : Lsa) (typeString : String) : List Text :=
  [lib.toUri l.origRouter, typeString.toList, lib.printNat l.lsSeqNo.toNat,
    lib.toIsoString l.expirationTimePoint]

def Adjacent.fields (lib : TextLib) (a : Adjacent) : List Text :=
  [lib.toUri a.name, a.connectingFaceUri.toList, lib.printNat a.getLinkCost]

theorem NameLsa.getData_eq (lib : TextLib) (l : NameLsa) :
    l.getData lib = terminated '|' (headerFields lib l.toLsa NameLsa.typeString ++
      lib.printNat l.npl.size :: l.npl.toList.map lib.toUri) := by
  rw [getData, foldl_append_sep (fun n => [lib.toUri n]) (fun text n => by simp [terminated]),
    ← List.map_eq_flatMap]
  simp [terminated, headerData, headerFields]

theorem AdjLsa.getData_eq (lib : TextLib) (l : AdjLsa) :
    l.getData lib = terminated '|' (headerFields lib l.toLsa AdjLsa.typeString ++
      lib.printNat l.adl.size :: l.adl.toList.flatMap (Adjacent.fields lib)) := by
  rw [getData, foldl_append_sep (Adjacent.fields lib)
    (fun text a => by simp [terminated, Adjacent.fields])]
  simp [terminated, headerData, headerFields]

theorem CoordinateLsa.getData_eq (lib : TextLib) (l : CoordinateLsa) :
    l.getData lib = terminated '|' (headerFields lib l.toLsa CoordinateLsa.typeString ++
      [lib.printDouble l.corRad, lib.printDouble l.corTheta]) := by
  simp [getData, terminated, headerData, headerFields]

/-! ## Reading what was written -/

/-- The header of an LSA as the reader makes it. -/
def Lsa.asRead (l : Lsa) (typeString : String) (expirationTimePoint : TimePoint) : Lsa where
  origRouter := l.origRouter
  lsType := typeString
  lsSeqNo := l.lsSeqNo
  expirationTimePoint := expirationTimePoint

namespace TextLib

variable {lib : TextLib}

@[simp] theorem inTry_some {α : Type} (a : α) : inTry (some a) = .ok a := rfl
@[simp] theorem inTry_none {α : Type} : inTry (none : Option α) = .error .rejected := rfl
@[simp] theorem outsideTry_some {α : Type} (a : α) : outsideTry (some a) = .ok a := rfl

theorem token_of_getElem? {toks : List Text} {i : Nat} {t : Text} (h : toks[i]? = some t) :
    lib.token toks i = .ok t := by
  rw [token, h]

theorem RoundTrips.toUInt32_lsSeqNo (h : lib.RoundTrips) (n : UInt32) :
    lib.toUInt32 (lib.printNat n.toNat) = some n := by
  rw [h.toUInt32_printNat, if_pos n.toNat_lt, UInt32.ofNat_toNat]

theorem readHeader_headerFields (h : lib.RoundTrips) (l : Lsa) (typeString : String)
    (rest : List Text) :
    lib.readHeader (headerFields lib l typeString ++ rest) =
      if l.origRouter = [] then .error .rejected
      else (inTry (lib.fromIsoString (lib.toIsoString l.expirationTimePoint))).map
        (l.asRead typeString) := by
  have htoken : ∀ i t, (headerFields lib l typeString)[i]? = some t →
      lib.token (headerFields lib l typeString ++ rest) i = .ok t := by
    intro i t hi
    apply token_of_getElem?
    rw [List.getElem?_append_left (List.getElem?_eq_some_iff.1 hi).1, hi]
  rw [readHeader, htoken 0 _ rfl, htoken 1 _ rfl, htoken 2 _ rfl, htoken 3 _ rfl]
  simp only [ok_bind, h.fromUri_toUri, outsideTry_some]
  by_cases horig : l.origRouter = []
  · simp [horig]
    rfl
  · have hpos : l.origRouter.length > 0 := List.length_pos_of_ne_nil horig
    simp only [hpos, not_true_eq_false, if_false, horig]
    simp only [h.toUInt32_lsSeqNo, inTry_some, ok_bind, String.ofList_toList]
    cases lib.fromIsoString (lib.toIsoString l.expirationTimePoint) <;> rfl

theorem readNames_spec (h : lib.RoundTrips) (names : List Name) (done rest : List Text)
    (l : NameLsa) :
    lib.readNames (done ++ (names.map lib.toUri ++ rest)) names.length done.length l =
      .ok (names.foldl NameLsa.addName l) := by
  induction names generalizing done l with
  | nil => rfl
  | cons n names ih =>
    have htoken : lib.token (done ++ ((n :: names).map lib.toUri ++ rest)) done.length =
        .ok (lib.toUri n) := token_of_getElem? (by simp)
    have hrest := ih (done ++ [lib.toUri n]) (l.addName n)
    rw [List.length_cons, readNames, htoken]
    simp only [ok_bind, h.fromUri_toUri, outsideTry_some]
    simpa using hrest

end TextLib

/-- An adjacent as the reader makes it: with the rounded cost, not ACTIVE. -/
def Adjacent.asRead (a : Adjacent) : Adjacent where
  name := a.name
  connectingFaceUri := a.connectingFaceUri
  linkCost := a.getLinkCost
  status := .inactive

/-- The face URIs of a list are fields. -/
def AdjacencyList.UrisAreFields (l : AdjacencyList) : Prop :=
  ∀ a ∈ l, TextLib.IsField a.connectingFaceUri.toList

namespace TextLib

variable {lib : TextLib}

theorem readAdjacents_spec (h : lib.RoundTrips) (as : List Adjacent) (done rest : List Text)
    (l : AdjLsa) :
    lib.readAdjacents (done ++ (as.flatMap (Adjacent.fields lib) ++ rest)) as.length done.length
      l = .ok ((as.map Adjacent.asRead).foldl AdjLsa.addAdjacent l) := by
  induction as generalizing done l with
  | nil => rfl
  | cons a as ih =>
    let toks := done ++ ((a :: as).flatMap (Adjacent.fields lib) ++ rest)
    have htoken : ∀ i t, (Adjacent.fields lib a)[i]? = some t →
        lib.token toks (done.length + i) = .ok t := by
      intro i t hi
      apply token_of_getElem?
      have hlt := (List.getElem?_eq_some_iff.1 hi).1
      show (done ++ (Adjacent.fields lib a ++ _ ++ rest))[_]? = _
      rw [List.getElem?_append_right (Nat.le_add_right _ i), Nat.add_sub_cancel_left,
        List.append_assoc, List.getElem?_append_left hlt, hi]
    have hrest := ih (done ++ Adjacent.fields lib a) (l.addAdjacent a.asRead)
    rw [List.length_cons, readAdjacents]
    show (lib.token toks (done.length + 0) >>= _) = _
    rw [htoken 0 _ rfl, htoken 1 _ rfl, htoken 2 _ rfl]
    simp only [ok_bind, h.fromUri_toUri, h.toDouble_printNat, inTry_some, String.ofList_toList]
    simpa [Adjacent.fields, Adjacent.asRead] using hrest

end TextLib

/-! ## The round trips -/

theorem isField_of_mem_headerFields {lib : TextLib} (h : lib.RoundTrips) {l : Lsa}
    {typeString : String} (htype : TextLib.IsField typeString.toList) {t : Text}
    (ht : t ∈ headerFields lib l typeString) : TextLib.IsField t := by
  simp only [headerFields, List.mem_cons, List.not_mem_nil, or_false] at ht
  rcases ht with rfl | rfl | rfl | rfl
  · exact h.isField_toUri _
  · exact htype
  · exact h.isField_printNat _
  · exact h.isField_toIsoString _

/-- A Name LSA as the reader makes it. -/
def NameLsa.asRead (l : NameLsa) (expirationTimePoint : TimePoint) : NameLsa where
  toLsa := l.toLsa.asRead typeString expirationTimePoint
  npl := l.npl

/-- An Adjacency LSA as the reader makes it. -/
def AdjLsa.asRead (l : AdjLsa) (expirationTimePoint : TimePoint) : AdjLsa where
  toLsa := l.toLsa.asRead typeString expirationTimePoint
  adl := l.adl.mapValues Adjacent.asRead fun _ => rfl

/-- A Coordinate LSA as the reader makes it. -/
def CoordinateLsa.asRead (l : CoordinateLsa) (expirationTimePoint : TimePoint) :
    CoordinateLsa where
  toLsa := l.toLsa.asRead typeString expirationTimePoint
  corRad := l.corRad
  corTheta := l.corTheta

/-- The header and the count are read; what is left is the loop over the list. -/
theorem TextLib.readCounted {lib : TextLib} (h : lib.RoundTrips) {α : Type} {l : Lsa}
    {typeString : String} {toks rest : List Text} {n : Nat}
    (readList : Nat → Lsa → Except ParseFailure α) (make : TimePoint → α)
    (htoks : toks = headerFields lib l typeString ++ (lib.printNat n :: rest))
    (hlist : ∀ t, readList n (l.asRead typeString t) = .ok (make t)) :
    (do
      let header ← lib.readHeader toks
      let count ← inTry (lib.toUInt32 (← lib.token toks 4))
      readList count.toNat header) =
      if l.origRouter ≠ [] ∧ n < 2 ^ 32 then
        inTry ((lib.fromIsoString (lib.toIsoString l.expirationTimePoint)).map make)
      else .error .rejected := by
  have hcount : lib.token toks 4 = .ok (lib.printNat n) := by
    rw [htoks]
    rfl
  rw [hcount, htoks, readHeader_headerFields h]
  simp only [ok_bind, h.toUInt32_printNat]
  by_cases horig : l.origRouter = []
  · rw [if_pos horig, error_bind, if_neg fun hc => hc.1 horig]
  · rw [if_neg horig]
    by_cases hn : n < 2 ^ 32
    · rw [if_pos hn, if_pos ⟨horig, hn⟩]
      cases lib.fromIsoString (lib.toIsoString l.expirationTimePoint) with
      | none => rfl
      | some t =>
        have hofNat : (UInt32.ofNat n).toNat = n := by
          rw [UInt32.toNat_ofNat']
          exact Nat.mod_eq_of_lt hn
        show readList (UInt32.ofNat n).toNat _ = _
        rw [hofNat, hlist]
        rfl
    · rw [if_neg hn, if_neg fun hc => hn hc.2]
      cases lib.fromIsoString (lib.toIsoString l.expirationTimePoint) <;> rfl

/-- **Reading the text of a Name LSA**, whatever follows it. The count has 32 bits. -/
theorem NameLsa.initializeFromContent_getData {lib : TextLib} (h : lib.RoundTrips) (l : NameLsa)
    (rest : Text) :
    initializeFromContent lib (l.getData lib ++ rest) =
      if l.origRouter ≠ [] ∧ l.npl.size < 2 ^ 32 then
        TextLib.inTry ((lib.fromIsoString (lib.toIsoString l.expirationTimePoint)).map l.asRead)
      else .error .rejected := by
  let names := l.npl.toList.map lib.toUri
  have hfields : ∀ t ∈ headerFields lib l.toLsa typeString ++ lib.printNat l.npl.size :: names,
      TextLib.IsField t := by
    intro t ht
    rcases List.mem_append.1 ht with ht | ht
    · exact isField_of_mem_headerFields h ⟨by decide, by decide⟩ ht
    · rcases List.mem_cons.1 ht with rfl | ht
      · exact h.isField_printNat _
      · obtain ⟨n, -, rfl⟩ := List.mem_map.1 ht
        exact h.isField_toUri n
  have htokens : tokens '|' (l.getData lib ++ rest) =
      headerFields lib l.toLsa typeString ++
        (lib.printNat l.npl.size :: (names ++ tokens '|' rest)) := by
    rw [getData_eq, tokens_terminated hfields, List.append_assoc]
    rfl
  refine TextLib.readCounted h
    (fun n hd => lib.readNames (tokens '|' (l.getData lib ++ rest)) n 5 { hd with }) l.asRead
    htokens fun t => ?_
  rw [htokens]
  refine (TextLib.readNames_spec h l.npl.toList
    (headerFields lib l.toLsa typeString ++ [lib.printNat l.npl.size]) (tokens '|' rest) _).trans ?_
  exact congrArg Except.ok (NameLsa.make_eq l.origRouter typeString l.lsSeqNo t l.npl)

theorem AdjLsa.foldl_addAdjacent (l : AdjLsa) (as : List Adjacent) :
    as.foldl addAdjacent l = { l with adl := as.foldl KeyedList.insert l.adl } := by
  induction as generalizing l with
  | nil => rfl
  | cons a as ih => rw [List.foldl_cons, ih]; rfl

/-- **Reading the text of an Adjacency LSA**, whatever follows it. -/
theorem AdjLsa.initializeFromContent_getData {lib : TextLib} (h : lib.RoundTrips) {l : AdjLsa}
    (huris : l.adl.UrisAreFields) (rest : Text) :
    initializeFromContent lib (l.getData lib ++ rest) =
      if l.origRouter ≠ [] ∧ l.adl.size < 2 ^ 32 then
        TextLib.inTry ((lib.fromIsoString (lib.toIsoString l.expirationTimePoint)).map l.asRead)
      else .error .rejected := by
  let adjacents := l.adl.toList.flatMap (Adjacent.fields lib)
  have hfields : ∀ t ∈ headerFields lib l.toLsa typeString ++
      lib.printNat l.adl.size :: adjacents, TextLib.IsField t := by
    intro t ht
    rcases List.mem_append.1 ht with ht | ht
    · exact isField_of_mem_headerFields h ⟨by decide, by decide⟩ ht
    · rcases List.mem_cons.1 ht with rfl | ht
      · exact h.isField_printNat _
      · obtain ⟨a, ha, ht⟩ := List.mem_flatMap.1 ht
        simp only [Adjacent.fields, List.mem_cons, List.not_mem_nil, or_false] at ht
        rcases ht with rfl | rfl | rfl
        · exact h.isField_toUri _
        · exact huris a ha
        · exact h.isField_printNat _
  have htokens : tokens '|' (l.getData lib ++ rest) =
      headerFields lib l.toLsa typeString ++
        (lib.printNat l.adl.size :: (adjacents ++ tokens '|' rest)) := by
    rw [getData_eq, tokens_terminated hfields, List.append_assoc]
    rfl
  refine TextLib.readCounted h
    (fun n hd => lib.readAdjacents (tokens '|' (l.getData lib ++ rest)) n 5 { hd with }) l.asRead
    htokens fun t => ?_
  rw [htokens]
  refine (TextLib.readAdjacents_spec h l.adl.toList
    (headerFields lib l.toLsa typeString ++ [lib.printNat l.adl.size]) (tokens '|' rest) _).trans ?_
  rw [foldl_addAdjacent]
  congr 2
  exact KeyedList.foldl_insert_empty (l.adl.mapValues Adjacent.asRead fun _ => rfl)

/-- **Reading the text of a Coordinate LSA**, whatever follows it. -/
theorem CoordinateLsa.initializeFromContent_getData {lib : TextLib} (h : lib.RoundTrips)
    (l : CoordinateLsa) (rest : Text) :
    initializeFromContent lib (l.getData lib ++ rest) =
      if l.origRouter ≠ [] then
        TextLib.inTry ((lib.fromIsoString (lib.toIsoString l.expirationTimePoint)).map l.asRead)
      else .error .rejected := by
  let coordinates := [lib.printDouble l.corRad, lib.printDouble l.corTheta]
  have hfields : ∀ t ∈ headerFields lib l.toLsa typeString ++ coordinates,
      TextLib.IsField t := by
    intro t ht
    rcases List.mem_append.1 ht with ht | ht
    · exact isField_of_mem_headerFields h ⟨by decide, by decide⟩ ht
    · simp only [coordinates, List.mem_cons, List.not_mem_nil, or_false] at ht
      rcases ht with rfl | rfl
      · exact h.isField_printDouble _
      · exact h.isField_printDouble _
  have htokens : tokens '|' (l.getData lib ++ rest) =
      headerFields lib l.toLsa typeString ++ (coordinates ++ tokens '|' rest) := by
    rw [getData_eq, tokens_terminated hfields, List.append_assoc]
  have hrad : lib.token (tokens '|' (l.getData lib ++ rest)) 4 = .ok (lib.printDouble l.corRad) := by
    rw [htokens]
    rfl
  have htheta : lib.token (tokens '|' (l.getData lib ++ rest)) 5 =
      .ok (lib.printDouble l.corTheta) := by
    rw [htokens]
    rfl
  rw [initializeFromContent]
  simp only [hrad, htheta, ok_bind, h.toDouble_printDouble, TextLib.inTry_some]
  rw [htokens, TextLib.readHeader_headerFields h]
  by_cases horig : l.origRouter = []
  · rw [if_pos horig, if_neg fun hc => hc horig, error_bind]
  · rw [if_neg horig, if_pos horig]
    cases lib.fromIsoString (lib.toIsoString l.expirationTimePoint) <;> rfl

end LinkState
