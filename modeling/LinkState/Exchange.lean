import LinkState.Content
import LinkState.AllKinds

/-!
# LSA Interests and LSA Data

An LSA is asked for by the name
`/<network>/NLSR/LSA/<site>/<router>/<type>/<seq>`, and the Data that answers has a version
behind it. The origin is read off the name: the network of the reader, then what stands between
the component `LSA` and the last components.

`processInterest` gives the content of the answer, if there is one. `onContentValidated` is
what a router does with Data that passed validation: the number in the name decides whether the
LSA is new, but what is installed is read from the content.
-/

namespace LinkState

open SequencingManager

/-- The type strings of the kinds. -/
def SequencingManager.Counter.typeString : Counter → String
  | .name => NameLsa.typeString
  | .adj => AdjLsa.typeString
  | .cor => CoordinateLsa.typeString

def SequencingManager.Counter.component (c : Counter) : Component := ⟨c.typeString⟩

theorem Counter.component_injective : Function.Injective Counter.component := by
  intro c c' h
  cases c <;> cases c' <;> first | rfl | exact absurd h (by decide)

@[simp] theorem Counter.component_inj {c c' : Counter} : c.component = c'.component ↔ c = c' :=
  Counter.component_injective.eq_iff

namespace ConfParameter

/-- `SyncLogicHandler::buildUpdatePrefix`: the prefix of this router's LSAs. -/
def updatePrefix (conf : ConfParameter) : Name := conf.lsaPrefix ++ conf.siteName ++ conf.routerName

end ConfParameter

/-- The kind with a type string. -/
def SequencingManager.Counter.ofComponent (x : Component) : Option Counter :=
  if x = Counter.component .name then some .name
  else if x = Counter.component .adj then some .adj
  else if x = Counter.component .cor then some .cor
  else none

theorem Counter.ofComponent_eq_some {x : Component} {c : Counter} :
    Counter.ofComponent x = some c ↔ x = c.component := by
  unfold Counter.ofComponent
  cases c <;> split_ifs <;> simp_all

@[simp] theorem Counter.ofComponent_component (c : Counter) :
    Counter.ofComponent c.component = some c := Counter.ofComponent_eq_some.2 rfl

/-! ## Answering -/

namespace Nlsr

/-- The origin that the name of an LSA Interest or LSA Data stands for, when so many components
follow the origin. -/
def originOf (s : Nlsr) (name : Name) (lsaPosition following : Nat) : Name :=
  s.confParam.network ++
    getSubName name (lsaPosition + 1) (name.length - lsaPosition - 1 - following)

/-- The content of the answer, if the stored LSA has the number asked for. -/
def processInterestForNameLsa (lib : TextLib) (s : Nlsr) (lsaKey : Name) (seqNo : UInt64) :
    Option Text :=
  match s.lsdb.findNameLsa lsaKey with
  | some l => if l.lsSeqNo.toUInt64 = seqNo then some (l.getData lib) else none
  | none => none

def processInterestForAdjacencyLsa (lib : TextLib) (s : Nlsr) (lsaKey : Name) (seqNo : UInt64) :
    Option Text :=
  match s.lsdb.findAdjLsa lsaKey with
  | some l => if l.lsSeqNo.toUInt64 = seqNo then some (l.getData lib) else none
  | none => none

def processInterestForCoordinateLsa (lib : TextLib) (s : Nlsr) (lsaKey : Name) (seqNo : UInt64) :
    Option Text :=
  match s.lsdb.findCoordinateLsa lsaKey with
  | some l => if l.lsSeqNo.toUInt64 = seqNo then some (l.getData lib) else none
  | none => none

/-- The content of the Data that answers an LSA Interest, if one is sent. -/
def processInterest (lib : TextLib) (s : Nlsr) (interestName : Name) : Option Text := do
  let lsaPosition ← getNameComponentPosition interestName "LSA"
  let originRouter := s.originOf interestName lsaPosition 2
  -- `toNumber` throws where the component is no number, and nothing is sent
  let seqNo ← (← fromEnd interestName 1).toNumber
  let interestedLsType ← fromEnd interestName 2
  if interestedLsType = ⟨NameLsa.typeString⟩ then
    s.processInterestForNameLsa lib (originRouter ++ [interestedLsType]) seqNo
  else if interestedLsType = ⟨AdjLsa.typeString⟩ then
    s.processInterestForAdjacencyLsa lib (originRouter ++ [interestedLsType]) seqNo
  else if interestedLsType = ⟨CoordinateLsa.typeString⟩ then
    s.processInterestForCoordinateLsa lib (originRouter ++ [interestedLsType]) seqNo
  else none

/-! ## Receiving -/

/-- Install an LSA that was read; where reading fails, whether the function returns false or an
exception escapes, nothing has changed yet. -/
def processContentNameLsa (lib : TextLib) (s : Nlsr) (lsaKey : Name) (lsSeqNo : UInt64)
    (dataContent : Text) : Nlsr :=
  if s.lsdb.isNameLsaNew lsaKey lsSeqNo then
    match NameLsa.initializeFromContent lib dataContent with
    | .ok nameLsa => s.installNameLsa nameLsa
    | .error _ => s
  else s

def processContentAdjacencyLsa (lib : TextLib) (s : Nlsr) (lsaKey : Name) (lsSeqNo : UInt64)
    (dataContent : Text) : Nlsr :=
  if s.lsdb.isAdjLsaNew lsaKey lsSeqNo then
    match AdjLsa.initializeFromContent lib dataContent with
    | .ok adjLsa => s.installAdjLsa adjLsa
    | .error _ => s
  else s

def processContentCoordinateLsa (lib : TextLib) (s : Nlsr) (lsaKey : Name) (lsSeqNo : UInt64)
    (dataContent : Text) : Nlsr :=
  if s.lsdb.isCoordinateLsaNew lsaKey lsSeqNo then
    match CoordinateLsa.initializeFromContent lib dataContent with
    | .ok corLsa => s.installCoordinateLsa corLsa
    | .error _ => s
  else s

def onContentValidated (lib : TextLib) (s : Nlsr) (dataName : Name) (dataContent : Text) : Nlsr :=
  match getNameComponentPosition dataName "LSA", (fromEnd dataName 2).bind Component.toNumber,
      fromEnd dataName 3 with
  | some lsaPosition, some seqNo, some interestedLsType =>
    let originRouter := s.originOf dataName lsaPosition 3
    if interestedLsType = ⟨NameLsa.typeString⟩ then
      s.processContentNameLsa lib (originRouter ++ [interestedLsType]) seqNo dataContent
    else if interestedLsType = ⟨AdjLsa.typeString⟩ then
      s.processContentAdjacencyLsa lib (originRouter ++ [interestedLsType]) seqNo dataContent
    else if interestedLsType = ⟨CoordinateLsa.typeString⟩ then
      s.processContentCoordinateLsa lib (originRouter ++ [interestedLsType]) seqNo dataContent
    else s
  | _, _, _ => s

/-! ## What a name stands for -/

end Nlsr

/-- The LSA that a name asks for or carries. -/
structure LsaId where
  origin : Name
  kind : Counter
  seqNo : UInt64
  deriving DecidableEq

def AnyLsa.getData (lib : TextLib) : AnyLsa → Text
  | .name l => l.getData lib
  | .adj l => l.getData lib
  | .coordinate l => l.getData lib

/-- The reader of a kind. -/
def AnyLsa.initializeFromContent (lib : TextLib) (content : Text) :
    Counter → Except ParseFailure AnyLsa
  | .name => (NameLsa.initializeFromContent lib content).map .name
  | .adj => (AdjLsa.initializeFromContent lib content).map .adj
  | .cor => (CoordinateLsa.initializeFromContent lib content).map .coordinate

theorem AnyLsa.counter_of_initializeFromContent {lib : TextLib} {content : Text} {c : Counter}
    {l : AnyLsa} (h : AnyLsa.initializeFromContent lib content c = .ok l) : l.counter = c := by
  cases c with
  | name =>
    cases hr : NameLsa.initializeFromContent lib content <;>
      simp [AnyLsa.initializeFromContent, hr, Except.map] at h
    subst h
    rfl
  | adj =>
    cases hr : AdjLsa.initializeFromContent lib content <;>
      simp [AnyLsa.initializeFromContent, hr, Except.map] at h
    subst h
    rfl
  | cor =>
    cases hr : CoordinateLsa.initializeFromContent lib content <;>
      simp [AnyLsa.initializeFromContent, hr, Except.map] at h
    subst h
    rfl

namespace Nlsr

/-- What a name stands for, when so many components follow the origin. -/
def lsaIdOf (s : Nlsr) (name : Name) (following : Nat) : Option LsaId := do
  let lsaPosition ← getNameComponentPosition name "LSA"
  let seqNo ← (← fromEnd name (following - 1)).toNumber
  let kind ← Counter.ofComponent (← fromEnd name following)
  return ⟨s.originOf name lsaPosition following, kind, seqNo⟩

/-- An Interest is answered with the stored LSA that its name asks for. -/
def answer (lib : TextLib) (s : Nlsr) (id : LsaId) : Option Text :=
  ((s.lsaOf id.kind id.origin).filter fun l => l.lsSeqNo.toUInt64 = id.seqNo).map
    (AnyLsa.getData lib)

/-- Is the LSA a name stands for newer than the stored one? -/
def isLsaNew (s : Nlsr) (id : LsaId) : Bool :=
  Lsdb.isNewerThan ((s.lsaOf id.kind id.origin).map AnyLsa.lsSeqNo) id.seqNo

/-- Install an LSA that was read. -/
def processContent (lib : TextLib) (s : Nlsr) (id : LsaId) (dataContent : Text) : Nlsr :=
  if s.isLsaNew id then
    match AnyLsa.initializeFromContent lib dataContent id.kind with
    | .ok l => s.install l
    | .error _ => s
  else s

theorem processInterestForNameLsa_eq (lib : TextLib) (s : Nlsr) (o : Name) (seqNo : UInt64) :
    s.processInterestForNameLsa lib (NameLsa.key o) seqNo = s.answer lib ⟨o, .name, seqNo⟩ := by
  unfold processInterestForNameLsa answer lsaOf
  cases hfind : s.lsdb.findNameLsa (NameLsa.key o) with
  | none => simp [hfind]
  | some l =>
    by_cases h : l.lsSeqNo.toUInt64 = seqNo <;>
      simp [hfind, h, AnyLsa.lsSeqNo, AnyLsa.getData]

theorem processInterestForAdjacencyLsa_eq (lib : TextLib) (s : Nlsr) (o : Name)
    (seqNo : UInt64) :
    s.processInterestForAdjacencyLsa lib (AdjLsa.key o) seqNo = s.answer lib ⟨o, .adj, seqNo⟩ := by
  unfold processInterestForAdjacencyLsa answer lsaOf
  cases hfind : s.lsdb.findAdjLsa (AdjLsa.key o) with
  | none => simp [hfind]
  | some l =>
    by_cases h : l.lsSeqNo.toUInt64 = seqNo <;>
      simp [hfind, h, AnyLsa.lsSeqNo, AnyLsa.getData]

theorem processInterestForCoordinateLsa_eq (lib : TextLib) (s : Nlsr) (o : Name)
    (seqNo : UInt64) :
    s.processInterestForCoordinateLsa lib (CoordinateLsa.key o) seqNo =
      s.answer lib ⟨o, .cor, seqNo⟩ := by
  unfold processInterestForCoordinateLsa answer lsaOf
  cases hfind : s.lsdb.findCoordinateLsa (CoordinateLsa.key o) with
  | none => simp [hfind]
  | some l =>
    by_cases h : l.lsSeqNo.toUInt64 = seqNo <;>
      simp [hfind, h, AnyLsa.lsSeqNo, AnyLsa.getData]

theorem processInterest_eq (lib : TextLib) (s : Nlsr) (interestName : Name) :
    s.processInterest lib interestName = (s.lsaIdOf interestName 2).bind (s.answer lib) := by
  unfold processInterest lsaIdOf
  cases getNameComponentPosition interestName "LSA" with
  | none => rfl
  | some lsaPosition =>
    cases fromEnd interestName 1 with
    | none => rfl
    | some seqComponent =>
      cases hseq : seqComponent.toNumber with
      | none => simp [hseq]
      | some seqNo =>
        cases fromEnd interestName 2 with
        | none => simp
        | some x =>
          simp only [hseq, Option.bind_eq_bind, Option.bind_some, Option.pure_def]
          show (if x = Counter.component .name then _ else if x = Counter.component .adj then _
            else if x = Counter.component .cor then _ else none) = _
          unfold Counter.ofComponent
          split_ifs with hname hadj hcor
          · subst hname
            exact processInterestForNameLsa_eq lib s _ seqNo
          · subst hadj
            exact processInterestForAdjacencyLsa_eq lib s _ seqNo
          · subst hcor
            exact processInterestForCoordinateLsa_eq lib s _ seqNo
          · rfl

theorem processContentNameLsa_eq (lib : TextLib) (s : Nlsr) (o : Name) (seqNo : UInt64)
    (dataContent : Text) :
    s.processContentNameLsa lib (NameLsa.key o) seqNo dataContent =
      s.processContent lib ⟨o, .name, seqNo⟩ dataContent := by
  unfold processContentNameLsa processContent
  have hnew : s.isLsaNew ⟨o, .name, seqNo⟩ = s.lsdb.isNameLsaNew (NameLsa.key o) seqNo := by
    simp [isLsaNew, Lsdb.isNameLsaNew, lsaOf, Function.comp_def, AnyLsa.lsSeqNo]
  rw [hnew]
  cases h : NameLsa.initializeFromContent lib dataContent <;>
    simp [AnyLsa.initializeFromContent, h, Except.map, install]

theorem processContentAdjacencyLsa_eq (lib : TextLib) (s : Nlsr) (o : Name) (seqNo : UInt64)
    (dataContent : Text) :
    s.processContentAdjacencyLsa lib (AdjLsa.key o) seqNo dataContent =
      s.processContent lib ⟨o, .adj, seqNo⟩ dataContent := by
  unfold processContentAdjacencyLsa processContent
  have hnew : s.isLsaNew ⟨o, .adj, seqNo⟩ = s.lsdb.isAdjLsaNew (AdjLsa.key o) seqNo := by
    simp [isLsaNew, Lsdb.isAdjLsaNew, lsaOf, Function.comp_def, AnyLsa.lsSeqNo]
  rw [hnew]
  cases h : AdjLsa.initializeFromContent lib dataContent <;>
    simp [AnyLsa.initializeFromContent, h, Except.map, install]

theorem processContentCoordinateLsa_eq (lib : TextLib) (s : Nlsr) (o : Name) (seqNo : UInt64)
    (dataContent : Text) :
    s.processContentCoordinateLsa lib (CoordinateLsa.key o) seqNo dataContent =
      s.processContent lib ⟨o, .cor, seqNo⟩ dataContent := by
  unfold processContentCoordinateLsa processContent
  have hnew : s.isLsaNew ⟨o, .cor, seqNo⟩ =
      s.lsdb.isCoordinateLsaNew (CoordinateLsa.key o) seqNo := by
    simp [isLsaNew, Lsdb.isCoordinateLsaNew, lsaOf, Function.comp_def, AnyLsa.lsSeqNo]
  rw [hnew]
  cases h : CoordinateLsa.initializeFromContent lib dataContent <;>
    simp [AnyLsa.initializeFromContent, h, Except.map, install]

theorem onContentValidated_eq (lib : TextLib) (s : Nlsr) (dataName : Name) (dataContent : Text) :
    s.onContentValidated lib dataName dataContent =
      match s.lsaIdOf dataName 3 with
      | some id => s.processContent lib id dataContent
      | none => s := by
  unfold onContentValidated lsaIdOf
  cases getNameComponentPosition dataName "LSA" with
  | none => rfl
  | some lsaPosition =>
    cases hseq : (fromEnd dataName 2).bind Component.toNumber with
    | none =>
      cases hcomp : fromEnd dataName 2 with
      | none => simp
      | some x =>
        rw [hcomp] at hseq
        simp [show x.toNumber = none from hseq]
    | some seqNo =>
      obtain ⟨x, hcomp, hx⟩ := Option.bind_eq_some_iff.1 hseq
      cases fromEnd dataName 3 with
      | none => simp [hcomp]
      | some kind =>
        simp only [hcomp, hx, Option.bind_eq_bind, Option.bind_some, Option.pure_def]
        show (if kind = Counter.component .name then _ else if kind = Counter.component .adj then _
          else if kind = Counter.component .cor then _ else s) = _
        unfold Counter.ofComponent
        split_ifs with hname hadj hcor
        · subst hname
          exact processContentNameLsa_eq lib s _ seqNo dataContent
        · subst hadj
          exact processContentAdjacencyLsa_eq lib s _ seqNo dataContent
        · subst hcor
          exact processContentCoordinateLsa_eq lib s _ seqNo dataContent
        · rfl

/-- The name of an LSA of a router: the components of the router, kind, number, and what follows. -/
def lsaName (conf : ConfParameter) (router : Name) (kind seqNo : Component) (rest : Name) : Name :=
  conf.lsaPrefix ++ router ++ kind :: seqNo :: rest

/-- Such a name stands for the LSA it says, unless the network has a component `LSA`. -/
theorem lsaIdOf_lsaName {s : Nlsr} (hLSA : (⟨"LSA"⟩ : Component) ∉ s.confParam.network)
    (router : Name) (kind seqComponent : Component) (rest : Name) :
    s.lsaIdOf (lsaName s.confParam router kind seqComponent rest) (rest.length + 2) =
      seqComponent.toNumber.bind fun seqNo => (Counter.ofComponent kind).map fun c =>
        ⟨s.confParam.network ++ router, c, seqNo⟩ := by
  let name := lsaName s.confParam router kind seqComponent rest
  have hname : name = (s.confParam.network ++ [⟨"NLSR"⟩]) ++
      ⟨"LSA"⟩ :: (router ++ kind :: seqComponent :: rest) := by
    simp [name, lsaName, ConfParameter.lsaPrefix]
  have hpos : getNameComponentPosition name "LSA" = some (s.confParam.network.length + 1) := by
    rw [hname, getNameComponentPosition_append]
    · simp
    · simp [hLSA]
  have hseq : fromEnd name (rest.length + 2 - 1) = some seqComponent := by
    simp [fromEnd, hname]
  have hkind : fromEnd name (rest.length + 2) = some kind := by
    simp [fromEnd, hname]
  have horigin : s.originOf name (s.confParam.network.length + 1) (rest.length + 2) =
      s.confParam.network ++ router := by
    have hdrop : name.drop (s.confParam.network.length + 1 + 1) =
        router ++ kind :: seqComponent :: rest := by
      rw [hname, List.drop_append]
      simp
    have hlength : name.length - (s.confParam.network.length + 1) - 1 - (rest.length + 2) =
        router.length := by
      rw [hname]
      simp only [List.length_append, List.length_cons, List.length_nil]
      omega
    rw [originOf, getSubName, hdrop, hlength, List.take_left']
    rfl
  show s.lsaIdOf name _ = _
  unfold lsaIdOf
  rw [hpos, hseq, hkind]
  cases hn : seqComponent.toNumber with
  | none => simp [hn]
  | some seqNo =>
    cases hc : Counter.ofComponent kind with
    | none => simp [hc]
    | some c => simp [hn, hc, horigin]

end Nlsr

end LinkState
