import LinkState.OwnNames

/-!
# One answer for each command

`onCommandValidated` answers 501 to a verb it does not know and 400 to parameters that it cannot
read. What it can read it hands to `advertise` or `withdraw`, and then it answers 200. Each of
these two looks at the parameters again and answers 400 to what it does not accept, and the caller
is not told.

`answersTruly_iff`: a command gets one answer that says what was done, unless its verb is known and
its parameters can be read and are not accepted. Such a command is answered 400 and then 200.
-/

namespace LinkState

open PrefixUpdateProcessor

namespace PrefixCommand

/-- The verb is one of the two. -/
def Known (command : PrefixCommand) : Prop :=
  command.verb = advertiseVerb ∨ command.verb = withdrawVerb

instance (command : PrefixCommand) : Decidable command.Known :=
  inferInstanceAs (Decidable (_ ∨ _))

/-- The control command that checks the parameters. -/
def controlCommand (lib : ControlLib) (command : PrefixCommand) : ControlCommand lib :=
  if command.verb = advertiseVerb then advertisePrefixCommand lib else withdrawPrefixCommand lib

section

variable [TlvLib] (lib : ControlLib) (command : PrefixCommand)

/-- The name of parameters that can be read and are accepted. -/
def acceptedName : Option Name :=
  (extractParameters lib command.parameterComponent).bind fun parameters =>
    if validateParameters (command.controlCommand lib) parameters then
      some (lib.getName parameters)
    else none

/-- The parameters can be read, and they have no name or have another field. -/
def ReadNotAccepted : Prop :=
  ∃ parameters, extractParameters lib command.parameterComponent = some parameters ∧
    ¬ ∀ field, lib.hasField parameters field = true ↔ field = lib.nameField

end

/-- Either command accepts a name and nothing else. -/
theorem validateParameters_iff {lib : ControlLib} (command : PrefixCommand)
    (parameters : lib.ControlParameters) :
    validateParameters (command.controlCommand lib) parameters = true ↔
      ∀ field, lib.hasField parameters field = true ↔ field = lib.nameField := by
  have hrequired : (command.controlCommand lib).required = [lib.nameField] := by
    unfold controlCommand
    split <;> rfl
  rw [validateParameters, lib.validate_iff, hrequired]
  simp only [List.mem_singleton]

/-- The two verbs differ. -/
theorem verb_ne_advertise {command : PrefixCommand} (h : command.verb = withdrawVerb) :
    command.verb ≠ advertiseVerb := by
  rw [h]
  decide

end PrefixCommand

namespace Nlsr

/-- The names, the LSDB, the sequence numbers and what was announced are as they were. -/
structure SameAnnounced (s t : Nlsr) : Prop where
  namePrefixList : t.namePrefixList = s.namePrefixList
  lsdb : t.lsdb = s.lsdb
  sequencingManager : t.sequencingManager = s.sequencingManager
  published : t.published = s.published

/-- There is one answer, and it says what was done. -/
structure AnswersTruly [TlvLib] (lib : ControlLib) (command : PrefixCommand) (s t : Nlsr)
    (responses : List ControlResponse) : Prop where
  once : responses.length = 1
  success : ∀ response ∈ responses, response.code = 200 ↔
    command.Known ∧ ∃ name, command.acceptedName lib = some name
  advertised : command.verb = advertiseVerb → ∀ name,
    command.acceptedName lib = some name →
      ∀ x, x ∈ t.namePrefixList ↔ x = name ∨ x ∈ s.namePrefixList
  withdrawn : command.verb = withdrawVerb → ∀ name,
    command.acceptedName lib = some name →
      ∀ x, x ∈ t.namePrefixList ↔ x ≠ name ∧ x ∈ s.namePrefixList
  malformed : command.Known → command.acceptedName lib = none →
    (∀ response ∈ responses, response.code = 400) ∧ SameAnnounced s t
  unsupported : ¬ command.Known →
    (∀ response ∈ responses, response.code = 501) ∧ SameAnnounced s t

theorem SameAnnounced.refl (s : Nlsr) : SameAnnounced s s := ⟨rfl, rfl, rfl, rfl⟩

/-! ## The list after a command -/

theorem contains_namePrefixList (l : NamePrefixList) (name : Name) :
    l.contains name ↔ name ∈ l := by
  rw [KeyedList.contains, KeyedList.find?_isSome]
  simp

theorem mem_namePrefixList_advertise (s : Nlsr) (name x : Name) :
    x ∈ (s.advertise name).namePrefixList ↔ x = name ∨ x ∈ s.namePrefixList := by
  unfold advertise
  split_ifs with h
  · rw [contains_namePrefixList] at h
    refine ⟨Or.inr, fun hx => hx.elim (fun hname => ?_) id⟩
    rw [hname]
    exact h
  · show x ∈ Nlsr.namePrefixList (buildAndInstallOwnNameLsa _) ↔ _
    rw [(sameLists_buildAndInstallOwnNameLsa _).namePrefixList, ← contains_namePrefixList,
      ← contains_namePrefixList s.namePrefixList]
    exact KeyedList.contains_insert s.namePrefixList name x

theorem mem_namePrefixList_withdraw (s : Nlsr) (name x : Name) :
    x ∈ (s.withdraw name).namePrefixList ↔ x ≠ name ∧ x ∈ s.namePrefixList := by
  unfold withdraw
  split_ifs with h
  · show x ∈ Nlsr.namePrefixList (buildAndInstallOwnNameLsa _) ↔ _
    rw [(sameLists_buildAndInstallOwnNameLsa _).namePrefixList]
    simp [NamePrefixList.remove, and_comm]
  · rw [contains_namePrefixList] at h
    refine ⟨fun hx => ⟨fun hname => h ?_, hx⟩, And.right⟩
    rwa [hname] at hx

/-! ## The four cases -/

section

variable [TlvLib] {lib : ControlLib} {command : PrefixCommand} (s : Nlsr)

theorem onCommandValidated_of_not_known (h : ¬ command.Known) :
    s.onCommandValidated lib command = (s, [unsupported]) :=
  if_neg h

theorem onCommandValidated_of_unread (hknown : command.Known)
    (h : extractParameters lib command.parameterComponent = none) :
    s.onCommandValidated lib command = (s, [malformed]) := by
  have hverb : command.verb = advertiseVerb ∨ command.verb = withdrawVerb := hknown
  unfold onCommandValidated
  rw [if_pos hverb, h]

/-- What is read and not accepted is answered twice. -/
theorem onCommandValidated_of_readNotAccepted (hknown : command.Known)
    (h : command.ReadNotAccepted lib) :
    s.onCommandValidated lib command = (s, [malformed, success]) := by
  have hverb : command.verb = advertiseVerb ∨ command.verb = withdrawVerb := hknown
  obtain ⟨parameters, hread, hfields⟩ := h
  have hinvalid : ¬ validateParameters (command.controlCommand lib) parameters = true :=
    fun hvalid => hfields ((PrefixCommand.validateParameters_iff command parameters).1 hvalid)
  unfold PrefixCommand.controlCommand at hinvalid
  unfold onCommandValidated changePrefix
  rw [if_pos hverb, hread]
  split_ifs at hinvalid ⊢ <;> simp [hinvalid]

theorem onCommandValidated_of_accepted (hknown : command.Known) {name : Name}
    (h : command.acceptedName lib = some name) :
    s.onCommandValidated lib command =
      (if command.verb = advertiseVerb then s.advertise name else s.withdraw name, [success]) := by
  have hverb : command.verb = advertiseVerb ∨ command.verb = withdrawVerb := hknown
  obtain ⟨parameters, hread, hname⟩ := Option.bind_eq_some_iff.1 h
  split_ifs at hname with hvalid
  obtain rfl : lib.getName parameters = name := Option.some.inj hname
  unfold PrefixCommand.controlCommand at hvalid
  unfold onCommandValidated changePrefix
  rw [if_pos hverb, hread]
  split_ifs at hvalid ⊢ <;> simp [hvalid]

/-! ## The answers -/

theorem answersTruly_of_not_known (h : ¬ command.Known) :
    AnswersTruly lib command s s [unsupported] where
  once := rfl
  success := by simp [unsupported, h]
  advertised hverb := absurd (Or.inl hverb) h
  withdrawn hverb := absurd (Or.inr hverb) h
  malformed hknown := absurd hknown h
  unsupported _ := ⟨by simp [PrefixUpdateProcessor.unsupported], .refl s⟩

theorem answersTruly_of_unread (hknown : command.Known)
    (h : extractParameters lib command.parameterComponent = none) :
    AnswersTruly lib command s s [malformed] := by
  have hnone : command.acceptedName lib = none := by
    rw [PrefixCommand.acceptedName, h, Option.bind_none]
  refine ⟨rfl, by simp [malformed, hnone], fun _ name hname => ?_, fun _ name hname => ?_,
    fun _ _ => ⟨by simp [malformed], .refl s⟩, fun hnot => absurd hknown hnot⟩
  · exact absurd (hnone.symm.trans hname) (by simp)
  · exact absurd (hnone.symm.trans hname) (by simp)

theorem answersTruly_of_accepted (hknown : command.Known) {name : Name}
    (h : command.acceptedName lib = some name) :
    AnswersTruly lib command s
      (if command.verb = advertiseVerb then s.advertise name else s.withdraw name) [success] := by
  have hname : ∀ {x}, command.acceptedName lib = some x → x = name := fun hx =>
    Option.some.inj (hx.symm.trans h)
  refine ⟨rfl, by simp [success, hknown, h], fun hverb y hy x => ?_, fun hverb y hy x => ?_,
    fun _ hnone => absurd (hnone.symm.trans h) (by simp), fun hnot => absurd hknown hnot⟩
  · rw [if_pos hverb, hname hy]
    exact mem_namePrefixList_advertise s name x
  · rw [if_neg (PrefixCommand.verb_ne_advertise hverb), hname hy]
    exact mem_namePrefixList_withdraw s name x

end

/-- **A command gets one answer that says what was done, unless its verb is known and its
parameters can be read and are not accepted.** -/
theorem answersTruly_iff [TlvLib] (lib : ControlLib) (s : Nlsr) (command : PrefixCommand) :
    AnswersTruly lib command s (s.onCommandValidated lib command).1
        (s.onCommandValidated lib command).2 ↔
      ¬ (command.Known ∧ command.ReadNotAccepted lib) := by
  constructor
  · rintro h ⟨hknown, hread⟩
    have hlen := h.once
    rw [onCommandValidated_of_readNotAccepted s hknown hread] at hlen
    exact absurd hlen (by simp)
  · intro h
    by_cases hknown : command.Known
    · cases hread : extractParameters lib command.parameterComponent with
      | none =>
        rw [onCommandValidated_of_unread s hknown hread]
        exact answersTruly_of_unread s hknown hread
      | some parameters =>
        have hvalid : validateParameters (command.controlCommand lib) parameters = true := by
          rw [PrefixCommand.validateParameters_iff]
          by_contra hfields
          exact h ⟨hknown, parameters, hread, hfields⟩
        have hname : command.acceptedName lib = some (lib.getName parameters) := by
          rw [PrefixCommand.acceptedName, hread, Option.bind_some, if_pos hvalid]
        rw [onCommandValidated_of_accepted s hknown hname]
        exact answersTruly_of_accepted s hknown hname
    · rw [onCommandValidated_of_not_known s hknown]
      exact answersTruly_of_not_known s hknown

/-- Parameters of type 104 with nothing in them. -/
def namelessCommand : PrefixCommand where
  verb := advertiseVerb
  parameterComponent := ⟨String.ofList (Tlv.Block.wire ⟨104, []⟩)⟩

/-- An advertisement without a name is answered 400 and then 200. -/
theorem not_answersTruly_namelessCommand :
    let s := (start { network := [⟨"a"⟩] } KeyedList.empty KeyedList.empty none 0).initializeNlsr
    (s.onCommandValidated plainControl namelessCommand).2 = [malformed, success] ∧
      ¬ AnswersTruly plainControl namelessCommand s
        (s.onCommandValidated plainControl namelessCommand).1
        (s.onCommandValidated plainControl namelessCommand).2 := by
  intro s
  have htwo : (s.onCommandValidated plainControl namelessCommand).2 = [malformed, success] := by
    decide +kernel
  refine ⟨htwo, fun h => ?_⟩
  have hlen := h.once
  rw [htwo] at hlen
  exact absurd hlen (by decide)

end Nlsr

end LinkState
