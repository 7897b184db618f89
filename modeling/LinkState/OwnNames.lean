import LinkState.Interests
import LinkState.Neighbours
import LinkState.Restart

/-!
# The names a router advertises

The names come from the configuration and from commands that an operator sends while the daemon
runs. A command that passed validation has a verb and parameters; the parameters may be no block,
no parameters, or without a name. It is answered in every case, once for each thing found wrong
and once more when it was understood.

`own_names_advertised`: in every state of a run the own Name LSA lists the names of the list,
each once, and a command announces a new number if and only if it has changed the list. The stored
LSA is patched by two set differences, and only if the new number is greater; that it is greater
is `Numbered`.
-/

namespace LinkState

open SequencingManager

/-! ## Commands -/

/-- The control parameters of ndn-cxx, and the validator that its control commands have. -/
structure ControlLib where
  ControlParameters : Type
  /-- What a `CONTROL_PARAMETER_…` names. -/
  Field : Type
  /-- `CONTROL_PARAMETER_NAME`. -/
  nameField : Field
  hasField : ControlParameters → Field → Bool
  getName : ControlParameters → Name
  /-- `none` where it throws. -/
  wireDecode : Tlv.Block → Option ControlParameters
  /-- `FieldValidator::validate`, with the fields that are required; false where it throws. -/
  validate : List Field → ControlParameters → Bool
  /-- What is required is present, and nothing else is. -/
  validate_iff {required : List Field} {parameters : ControlParameters} :
    validate required parameters = true ↔
      ∀ field, hasField parameters field = true ↔ field ∈ required

/-- `ndn::nfd::ControlCommand`: the fields that its request validator requires. -/
structure ControlCommand (lib : ControlLib) where
  required : List lib.Field

/-- `AdvertisePrefixCommand`. -/
def advertisePrefixCommand (lib : ControlLib) : ControlCommand lib := ⟨[lib.nameField]⟩

/-- `WithdrawPrefixCommand`. -/
def withdrawPrefixCommand (lib : ControlLib) : ControlCommand lib := ⟨[lib.nameField]⟩

/-- A command that passed validation, taken apart. What follows the parameters is its signature. -/
structure PrefixCommand where
  verb : Component
  parameterComponent : Component
  deriving DecidableEq

/-- The code and the text of a response. -/
structure ControlResponse where
  code : Nat
  text : String
  deriving DecidableEq

namespace PrefixUpdateProcessor

/-- `ADVERTISE_VERB`. -/
def advertiseVerb : Component := ⟨"advertise"⟩

/-- `WITHDRAW_VERB`. -/
def withdrawVerb : Component := ⟨"withdraw"⟩

def malformed : ControlResponse := ⟨400, "Malformed command"⟩

def success : ControlResponse := ⟨200, "Success"⟩

def unsupported : ControlResponse := ⟨501, "Unsupported command"⟩

/-- `extractParameters`; `none` where it returns false. -/
def extractParameters [TlvLib] (lib : ControlLib) (parameterComponent : Component) :
    Option lib.ControlParameters :=
  (blockFromValue parameterComponent).bind lib.wireDecode

def validateParameters {lib : ControlLib} (command : ControlCommand lib)
    (parameters : lib.ControlParameters) : Bool :=
  lib.validate command.required parameters

end PrefixUpdateProcessor

namespace Nlsr

open PrefixUpdateProcessor

/-- `PrefixUpdateProcessor::advertise` and `withdraw` for parameters that may not be valid. -/
def changePrefix {lib : ControlLib} (command : ControlCommand lib) (change : Nlsr → Name → Nlsr)
    (s : Nlsr) (parameters : lib.ControlParameters) : Nlsr × List ControlResponse :=
  if validateParameters command parameters then (change s (lib.getName parameters), [])
  else (s, [malformed])

theorem changePrefix_cases {lib : ControlLib} (command : ControlCommand lib)
    (change : Nlsr → Name → Nlsr) (s : Nlsr) (parameters : lib.ControlParameters) :
    (changePrefix command change s parameters).1 = s ∨
      ∃ name, (changePrefix command change s parameters).1 = change s name := by
  unfold changePrefix
  split
  · exact Or.inr ⟨_, rfl⟩
  · exact Or.inl rfl

section

variable [TlvLib] (lib : ControlLib)

def onCommandValidated (s : Nlsr) (command : PrefixCommand) : Nlsr × List ControlResponse :=
  if command.verb = advertiseVerb ∨ command.verb = withdrawVerb then
    match extractParameters lib command.parameterComponent with
    | none => (s, [malformed])
    | some parameters =>
      let (s, responses) :=
        if command.verb = advertiseVerb then
          changePrefix (advertisePrefixCommand lib) advertise s parameters
        else changePrefix (withdrawPrefixCommand lib) withdraw s parameters
      (s, responses ++ [success])
  else (s, [unsupported])

/-- **A command does nothing, or it advertises or withdraws a name.** -/
theorem onCommandValidated_cases (s : Nlsr) (command : PrefixCommand) :
    (s.onCommandValidated lib command).1 = s ∨
      ∃ name, (s.onCommandValidated lib command).1 = s.advertise name ∨
        (s.onCommandValidated lib command).1 = s.withdraw name := by
  unfold onCommandValidated
  split
  · cases extractParameters lib command.parameterComponent with
    | none => exact Or.inl rfl
    | some parameters =>
      dsimp only
      split
      · exact (changePrefix_cases _ advertise s parameters).imp_right
          fun ⟨name, h⟩ => ⟨name, Or.inl h⟩
      · exact (changePrefix_cases _ withdraw s parameters).imp_right
          fun ⟨name, h⟩ => ⟨name, Or.inr h⟩
  · exact Or.inl rfl

end

/-! ## The own names -/

/-- The names of this router's stored Name LSA. -/
def ownNpl (s : Nlsr) : Option NamePrefixList :=
  (s.lsdb.findNameLsa (NameLsa.key s.routerPrefix)).map NameLsa.npl

/-- The own Name LSA is there and lists the names of the list, each once. -/
def ListsOwnNames (s : Nlsr) : Prop :=
  ∃ npl, s.ownNpl = some npl ∧ npl.toList.Nodup ∧ npl.toList.Perm s.namePrefixList.toList

theorem ownNpl_of_lsaOf {s t : Nlsr} (hrp : t.routerPrefix = s.routerPrefix)
    (h : t.lsaOf .name s.routerPrefix = s.lsaOf .name s.routerPrefix) : t.ownNpl = s.ownNpl := by
  have hinj : Function.Injective AnyLsa.name := fun _ _ h => AnyLsa.name.inj h
  have hfind : t.lsdb.findNameLsa (NameLsa.key s.routerPrefix) =
      s.lsdb.findNameLsa (NameLsa.key s.routerPrefix) := Option.map_injective hinj h
  rw [ownNpl, ownNpl, hrp, hfind]

/-- An operation that neither installs nor removes the own Name LSA. -/
def LeavesOwnName (s : Nlsr) : Op → Prop
  | .install l => l.counter = .name → l.origRouter ≠ s.routerPrefix
  | .removeNameLsa key => key ≠ NameLsa.key s.routerPrefix
  | _ => True

theorem ownNpl_apply (math : MathLib) {s : Nlsr} {op : Op} (h : s.LeavesOwnName op) :
    (s.apply math op).ownNpl = s.ownNpl := by
  have hrp : (s.apply math op).routerPrefix = s.routerPrefix :=
    congrArg ConfParameter.routerPrefix (confParam_apply math s op)
  cases op with
  | none => rfl
  | install l =>
    refine ownNpl_of_lsaOf hrp ?_
    obtain ⟨eid, hinst⟩ := lsaOf_install s l
    rw [apply, hinst .name s.routerPrefix, if_neg fun hl => h hl.1.symm hl.2.symm]
  | removeNameLsa key =>
    exact ownNpl_of_lsaOf hrp ((lsaOf_removeNameLsa s key _ _).trans
      (if_neg fun hkey => h hkey.2.symm))
  | removeAdjLsa key =>
    exact ownNpl_of_lsaOf hrp ((lsaOf_removeAdjLsa s key _ _).trans (if_neg (by simp)))
  | removeCoordinateLsa key =>
    exact ownNpl_of_lsaOf hrp ((lsaOf_removeCoordinateLsa s key _ _).trans (if_neg (by simp)))
  | refreshNameLsa key =>
    simp only [apply]
    cases hfind : s.lsdb.findNameLsa key with
    | none => rfl
    | some chk =>
      -- A refresh changes the header only
      have hchk : s.lsdb.nameLsdb.find? chk.getKey = some chk := by
        rw [KeyedList.key_of_find? hfind]
        exact hfind
      let l' : NameLsa :=
        { chk with toLsa := chk.toLsa.refreshed s.getLsaExpirationTimePoint s.scheduler.nextId }
      have hagree : s.lsdb.nameLsdb.Agree NameLsa.npl (s.lsdb.nameLsdb.replace l') :=
        KeyedList.agree_replace (a := chk) hchk rfl
      exact hagree (NameLsa.key s.routerPrefix)
  | refreshAdjLsa key =>
    simp only [apply]
    cases s.lsdb.findAdjLsa key with
    | none => rfl
    | some chk => rfl
  | refreshCoordinateLsa key =>
    simp only [apply]
    cases s.lsdb.findCoordinateLsa key with
    | none => rfl
    | some chk => rfl
  | calculate => exact ownNpl_of_lsaOf hrp (by rw [apply, lsaOf_calculate])
  | fibRemove name => exact ownNpl_of_lsaOf hrp (by rw [apply, lsaOf_fibRemove])

theorem Quiet.ownNpl {s t : Nlsr} (h : Quiet s t) : t.ownNpl = s.ownNpl :=
  ownNpl_of_lsaOf h.routerPrefix (by rw [h.lsaOf])

theorem ownNpl_step (math : MathLib) {s : Nlsr} {e : Event} (h : s.LeavesOwnName (s.opOf e)) :
    (s.step math e).ownNpl = s.ownNpl := by
  obtain ⟨s₁, h₁, h₂⟩ := step_spec math s e
  have h' : s₁.LeavesOwnName (s.opOf e) := by
    unfold LeavesOwnName at h ⊢
    rwa [h₁.routerPrefix]
  rw [h₂.ownNpl, ownNpl_apply math h', h₁.ownNpl]

/-- A build leaves the names it was made of: the stored number is the counter, so the next one is
newer, and patching is as good as replacing. -/
theorem ownNpl_buildAndInstallOwnNameLsa {s : Nlsr} (hs : s.Numbered) (hroom : s.HasRoom .name) :
    ∃ npl, s.buildAndInstallOwnNameLsa.ownNpl = some npl ∧
      ∀ name, name ∈ npl ↔ name ∈ s.namePrefixList := by
  let s' : Nlsr := { s with sequencingManager := s.sequencingManager.increaseNameLsaSeq }
  have hmake : s.ownNameLsa.npl = s.namePrefixList ∧ s.ownNameLsa.origRouter = s.routerPrefix ∧
      s.ownNameLsa.lsSeqNo = (s.sequencingManager.counter .name + 1).toUInt32 := by
    rw [ownNameLsa, NameLsa.make_eq]
    exact ⟨rfl, rfl, rfl⟩
  have hrp : s.buildAndInstallOwnNameLsa.routerPrefix = s.routerPrefix :=
    (onlyLsdb_installNameLsa s' s.ownNameLsa).routerPrefix
  have hkey : NameLsa.key s.routerPrefix = s.ownNameLsa.getKey := by
    rw [NameLsa.getKey, hmake.2.1]
  obtain ⟨-, eid, hinst⟩ := lsdb_installNameLsa s' s.ownNameLsa
  have hfind := hinst (NameLsa.key s.routerPrefix)
  rw [if_pos hkey] at hfind
  have hdb : s'.lsdb.nameLsdb.find? (NameLsa.key s.routerPrefix) =
      s.lsdb.findNameLsa (NameLsa.key s.routerPrefix) := rfl
  unfold ownNpl
  rw [hrp, show s.buildAndInstallOwnNameLsa.lsdb.findNameLsa _ = _ from hfind, hdb]
  cases hchk : s.lsdb.findNameLsa (NameLsa.key s.routerPrefix) with
  | none => exact ⟨s.ownNameLsa.npl, rfl, fun name => by rw [hmake.1]⟩
  | some chk =>
    have hstored : chk.lsSeqNo.toNat = (s.sequencingManager.counter .name).toNat :=
      hs.own .name _ (by simp [ownSeqNo, show s.lsdb.nameLsdb.find? _ = some chk from hchk])
    have hnext : s.ownNameLsa.lsSeqNo.toNat = (s.sequencingManager.counter .name).toNat + 1 := by
      rw [hmake.2.2]
      exact hroom.toNat_toUInt32
    have hlt : chk.lsSeqNo.toNat < s.ownNameLsa.lsSeqNo.toNat := by omega
    refine ⟨patchedNames chk.npl s.ownNameLsa.npl, ?_, fun name => ?_⟩
    · simp [hlt, updatedNameLsa]
    · rw [mem_patchedNames, hmake.1]

theorem perm_of_mem_iff {l₁ l₂ : NamePrefixList} (h : ∀ name, name ∈ l₁ ↔ name ∈ l₂) :
    l₁.toList.Perm l₂.toList :=
  (List.perm_ext_iff_of_nodup (by simpa using l₁.nodup) (by simpa using l₂.nodup)).mpr h

/-! ## The list -/

theorem OnlyHello.namePrefixList {s t : Nlsr} (h : OnlyHello s t) :
    t.namePrefixList = s.namePrefixList := by
  rw [OnlyHello] at h
  rw [h]

/-- Only commands change the list. -/
theorem namePrefixList_step (math : MathLib) (s : Nlsr) {e : Event}
    (hadv : ∀ name, e ≠ .advertise name) (hwd : ∀ name, e ≠ .withdraw name) :
    (s.step math e).namePrefixList = s.namePrefixList := by
  cases e with
  | installNameLsa nlsa => exact (onlyLsdb_installNameLsa s _).sameLists.namePrefixList
  | installAdjLsa alsa => exact (onlyLsdb_installAdjLsa s _).sameLists.namePrefixList
  | installCoordinateLsa clsa => exact (onlyLsdb_installCoordinateLsa s _).sameLists.namePrefixList
  | removeNameLsa key => exact (onlyLsdb_removeNameLsa s key).sameLists.namePrefixList
  | removeAdjLsa key => exact (onlyLsdb_removeAdjLsa s key).sameLists.namePrefixList
  | removeCoordinateLsa key => exact (onlyLsdb_removeCoordinateLsa s key).sameLists.namePrefixList
  | fire id => exact (sameLists_fire math s id).namePrefixList
  | buildAndInstallOwnNameLsa => exact (sameLists_buildAndInstallOwnNameLsa s).namePrefixList
  | buildAndInstallOwnCoordinateLsa =>
    exact (sameLists_buildAndInstallOwnCoordinateLsa s).namePrefixList
  | publishRoutingUpdate => rfl
  | scheduleAdjLsaBuild => exact (onlyHello_scheduleAdjLsaBuild s).namePrefixList
  | helloTimedOut interestName =>
    exact (onlyHello_processInterestTimedOut s interestName).namePrefixList
  | helloValidated dataName => exact (onlyHello_onHelloValidated s dataName).namePrefixList
  | registrationSuccess neighbor faceId =>
    exact (onlyHello_onRegistrationSuccess s neighbor faceId).namePrefixList
  | registrationFailure neighbor =>
    exact (onlyHello_onRegistrationFailure s neighbor).namePrefixList
  | faceDestroyed faceId => exact (onlyHello_onFaceDestroyed s faceId).namePrefixList
  | advertise name => exact absurd rfl (hadv name)
  | withdraw name => exact absurd rfl (hwd name)
  | clock now => rfl

/-! ## Events -/

/-- The own Name LSA is removed by nothing: where an own LSA expires it is refreshed. -/
def KeepsOwnName (s : Nlsr) (e : Event) : Prop :=
  s.ArrivesForeign e ∧ e ≠ .removeNameLsa (NameLsa.key s.routerPrefix)

theorem listsOwnNames_buildAndInstallOwnNameLsa {s : Nlsr} (hs : s.Numbered)
    (hroom : s.HasRoom .name) : s.buildAndInstallOwnNameLsa.ListsOwnNames := by
  obtain ⟨npl, hnpl, hmem⟩ := ownNpl_buildAndInstallOwnNameLsa hs hroom
  refine ⟨npl, hnpl, by simpa using npl.nodup, ?_⟩
  rw [(sameLists_buildAndInstallOwnNameLsa _).namePrefixList]
  exact perm_of_mem_iff hmem

/-- A build moves the counter of the names, and no other. -/
theorem counter_buildAndInstallOwnNameLsa (s : Nlsr) :
    s.buildAndInstallOwnNameLsa.sequencingManager.counter .name =
      s.sequencingManager.counter .name + 1 := by
  let s' : Nlsr := { s with sequencingManager := s.sequencingManager.increaseNameLsaSeq }
  have hinstall : s.buildAndInstallOwnNameLsa.sequencingManager = s'.sequencingManager :=
    (onlyLsdb_installNameLsa s' s.ownNameLsa).sequencingManager
  rw [hinstall]
  rfl

/-- Where the counter of the names keeps in its room and is moved, there was room. -/
theorem hasRoom_of_keepsRoom {s t : Nlsr} (h : KeepsRoom s t)
    (hcounter : t.sequencingManager.counter .name = s.sequencingManager.counter .name + 1) :
    s.HasRoom .name :=
  (h .name).resolve_right fun hsame => counter_add_one_ne _ (hcounter.symm.trans hsame)

/-- A change of the list, the build of the LSA and the announcement. -/
theorem listsOwnNames_rebuildNames {s : Nlsr} (hs : s.Numbered) (hroom : s.HasRoom .name)
    (names : NamePrefixList) :
    let s₀ : Nlsr := { s with namePrefixList := names }
    s₀.buildAndInstallOwnNameLsa.publishRoutingUpdate.ListsOwnNames := by
  intro s₀
  have h₀ : SameNumbers s s₀ := ⟨⟨rfl, rfl⟩, rfl, rfl, ⟨rfl, rfl⟩⟩
  exact listsOwnNames_buildAndInstallOwnNameLsa (h₀.numbered hs) hroom

theorem leavesOwnName_actionOp {s : Nlsr} (hs : s.lsdb.thisRouterPrefix = s.routerPrefix)
    (action : Action) : s.LeavesOwnName (s.actionOp action) := by
  have hspec := s.actionOp_spec action
  generalize s.actionOp action = op at hspec ⊢
  cases hspec with
  | @removeNameLsa lsaKey _ chk hfind hseq horig =>
    -- The LSA that expires is of another router
    intro hkey
    have hchk : chk.getKey = lsaKey := KeyedList.key_of_find? hfind
    exact horig ((NameLsa.key_inj.1 (hchk.trans hkey)).trans hs.symm)
  | installOwn => exact nofun
  | _ => trivial

theorem ListsOwnNames.congr {s t : Nlsr} (h : s.ListsOwnNames) (hnpl : t.ownNpl = s.ownNpl)
    (hlist : t.namePrefixList = s.namePrefixList) : t.ListsOwnNames := by
  unfold ListsOwnNames
  rw [hnpl, hlist]
  exact h

/-- **Every event leaves the own names listed.** -/
theorem listsOwnNames_step (math : MathLib) {s : Nlsr} (hs : s.Numbered) (h : s.ListsOwnNames)
    {e : Event} (he : s.KeepsOwnName e) (hroom : KeepsRoom s (s.step math e)) :
    (s.step math e).ListsOwnNames := by
  have hkeep : s.LeavesOwnName (s.opOf e) → (∀ name, e ≠ .advertise name) →
      (∀ name, e ≠ .withdraw name) → (s.step math e).ListsOwnNames := fun hop hadv hwd =>
    h.congr (ownNpl_step math hop) (namePrefixList_step math s hadv hwd)
  cases e with
  | installNameLsa nlsa => exact hkeep (fun _ => he.1) (by simp) (by simp)
  | removeNameLsa key => exact hkeep (fun hkey => he.2 (congrArg _ hkey)) (by simp) (by simp)
  | fire id =>
    refine hkeep ?_ (by simp) (by simp)
    simp only [opOf, fireOp]
    cases s.pendingAction id with
    | none => trivial
    | some action => exact leavesOwnName_actionOp hs.thisRouterPrefix action
  | buildAndInstallOwnNameLsa =>
    exact listsOwnNames_buildAndInstallOwnNameLsa hs
      (hasRoom_of_keepsRoom hroom (counter_buildAndInstallOwnNameLsa s))
  | advertise name =>
    change (s.advertise name).ListsOwnNames
    change KeepsRoom s (s.advertise name) at hroom
    unfold advertise at hroom ⊢
    split_ifs at hroom ⊢
    · exact h
    · exact listsOwnNames_rebuildNames hs
        (hasRoom_of_keepsRoom hroom (counter_buildAndInstallOwnNameLsa _)) _
  | withdraw name =>
    change (s.withdraw name).ListsOwnNames
    change KeepsRoom s (s.withdraw name) at hroom
    unfold withdraw at hroom ⊢
    split_ifs at hroom ⊢
    · exact listsOwnNames_rebuildNames hs
        (hasRoom_of_keepsRoom hroom (counter_buildAndInstallOwnNameLsa _)) _
    · exact h
  | installAdjLsa alsa => exact hkeep (by rintro ⟨⟩) (by simp) (by simp)
  | installCoordinateLsa clsa => exact hkeep (by rintro ⟨⟩) (by simp) (by simp)
  | buildAndInstallOwnCoordinateLsa => exact hkeep (by rintro ⟨⟩) (by simp) (by simp)
  | _ => exact hkeep trivial (by simp) (by simp)

/-! ## What a command announces -/

/-- The list has changed, its names are numbered anew, and the new number is announced. -/
structure AnnouncesNames (s t : Nlsr) : Prop where
  namePrefixList : t.namePrefixList ≠ s.namePrefixList
  published : t.published = s.published ++ [t.sequencingManager.combinedSeqNo]
  counter : t.sequencingManager.counter .name = s.sequencingManager.counter .name + 1

theorem announcesNames_rebuildNames {s : Nlsr} {names : NamePrefixList}
    (h : names ≠ s.namePrefixList) :
    let s₀ : Nlsr := { s with namePrefixList := names }
    AnnouncesNames s s₀.buildAndInstallOwnNameLsa.publishRoutingUpdate := by
  intro s₀
  refine ⟨?_, ?_, counter_buildAndInstallOwnNameLsa s₀⟩
  · show s₀.buildAndInstallOwnNameLsa.namePrefixList ≠ _
    rw [(sameLists_buildAndInstallOwnNameLsa _).namePrefixList]
    exact h
  · let s' : Nlsr := { s₀ with sequencingManager := s₀.sequencingManager.increaseNameLsaSeq }
    have hinstall : s₀.buildAndInstallOwnNameLsa.published = s'.published :=
      (onlyLsdb_installNameLsa s' s₀.ownNameLsa).silent.published
    show s₀.buildAndInstallOwnNameLsa.published ++ _ = _
    rw [hinstall]
    rfl

theorem advertise_cases (s : Nlsr) (name : Name) :
    s.advertise name = s ∨ AnnouncesNames s (s.advertise name) := by
  unfold advertise
  split_ifs with hmem
  · exact Or.inl rfl
  · refine Or.inr (announcesNames_rebuildNames fun hsame => hmem ?_)
    rw [← hsame]
    simp [KeyedList.contains_insert]

theorem withdraw_cases (s : Nlsr) (name : Name) :
    s.withdraw name = s ∨ AnnouncesNames s (s.withdraw name) := by
  unfold withdraw
  split_ifs with hmem
  · refine Or.inr (announcesNames_rebuildNames fun hsame => ?_)
    rw [← hsame] at hmem
    simp [NamePrefixList.remove, KeyedList.contains] at hmem
  · exact Or.inl rfl

/-- **A command leaves everything as it is, or it announces a changed list.** -/
theorem onCommandValidated_announces [TlvLib] (lib : ControlLib) (s : Nlsr)
    (command : PrefixCommand) :
    (s.onCommandValidated lib command).1 = s ∨
      AnnouncesNames s (s.onCommandValidated lib command).1 := by
  rcases onCommandValidated_cases lib s command with h | ⟨name, h | h⟩
  · exact Or.inl h
  · rw [h]
    exact advertise_cases s name
  · rw [h]
    exact withdraw_cases s name

/-! ## Runs -/

end Nlsr

/-- An event, or a command of the operator. -/
inductive CommandedEvent
  | event (e : Event)
  | command (command : PrefixCommand)

namespace Nlsr

/-- What holds in every state of a run. -/
structure NamesInv (s : Nlsr) : Prop where
  numbered : s.Numbered
  listsOwnNames : s.ListsOwnNames

theorem NamesInv.step (math : MathLib) {s : Nlsr} (h : s.NamesInv) {e : Event}
    (he : s.KeepsOwnName e) (hroom : KeepsRoom s (s.step math e)) : (s.step math e).NamesInv :=
  ⟨(turn_step math h.numbered e he.1).numbered h.numbered hroom,
    listsOwnNames_step math h.numbered h.listsOwnNames he hroom⟩

theorem namesInv_initializeNlsr (confParam : ConfParameter) (adjacencyList : AdjacencyList)
    (namePrefixList : NamePrefixList) (seqFile : Option UInt64) (now : TimePoint) :
    (start confParam adjacencyList namePrefixList seqFile now).initializeNlsr.NamesInv := by
  refine ⟨numbered_initializeNlsr .., ?_⟩
  let s₁ :=
    (initiated confParam adjacencyList namePrefixList seqFile now).buildAndInstallOwnNameLsa
  have h₁ : s₁.ListsOwnNames := listsOwnNames_buildAndInstallOwnNameLsa (numbered_initiated ..)
    (hasRoom_initiated confParam adjacencyList namePrefixList seqFile now .name)
  have h₂ : s₁.buildAndInstallOwnCoordinateLsa.ListsOwnNames :=
    h₁.congr (ownNpl_step ⟨0, id, id, id, id⟩ (e := .buildAndInstallOwnCoordinateLsa) nofun)
      (sameLists_buildAndInstallOwnCoordinateLsa s₁).namePrefixList
  refine initializeNlsr_of_built (fun s h => ?_) h₂
  have hset := onlyHello_setAdjacencyList s (freeLinks s.adjacencyList)
  exact h.congr hset.quiet.ownNpl hset.namePrefixList

section

variable [TlvLib] (math : MathLib) (lib : ControlLib)

def commandedStep (s : Nlsr) : CommandedEvent → Nlsr
  | .event e => s.step math e
  | .command command => (s.onCommandValidated lib command).1

/-- Nothing arrives in the name of this router and no counter leaves the 32 bits. -/
def CommandedRegular (s : Nlsr) (e : CommandedEvent) : Prop :=
  (match e with
    | .event e => s.KeepsOwnName e
    | .command _ => True) ∧ KeepsRoom s (s.commandedStep math lib e)

variable {math lib}

theorem NamesInv.commandedStep {s : Nlsr} (h : s.NamesInv) {e : CommandedEvent}
    (he : s.CommandedRegular math lib e) :
    (s.commandedStep math lib e).NamesInv := by
  obtain ⟨he, hroom⟩ := he
  cases e with
  | event e => exact h.step math he hroom
  | command command =>
    change KeepsRoom s (s.onCommandValidated lib command).1 at hroom
    show (s.onCommandValidated lib command).1.NamesInv
    rcases onCommandValidated_cases lib s command with hcmd | ⟨name, hcmd | hcmd⟩
    · rw [hcmd]
      exact h
    · rw [hcmd] at hroom ⊢
      have he : s.KeepsOwnName (.advertise name) := ⟨trivial, nofun⟩
      exact h.step math he hroom
    · rw [hcmd] at hroom ⊢
      have he : s.KeepsOwnName (.withdraw name) := ⟨trivial, nofun⟩
      exact h.step math he hroom

variable (math lib)

/-- **The advertised names match the list.** In every state of a run the own Name LSA lists the
names of the list, each once. A command announces a number if and only if it has changed the list,
and the counter of the names has then grown by one. -/
theorem own_names_advertised (confParam : ConfParameter) (adjacencyList : AdjacencyList)
    (namePrefixList : NamePrefixList) (seqFile : Option UInt64) (now : TimePoint)
    (es : List CommandedEvent)
    (h : Meets (commandedStep math lib) (CommandedRegular math lib)
      (start confParam adjacencyList namePrefixList seqFile now).initializeNlsr es) :
    let s := (start confParam adjacencyList namePrefixList seqFile now).initializeNlsr
    Along (commandedStep math lib) ListsOwnNames s es ∧
      ∀ before command after, es = before ++ .command command :: after →
        let u := run (commandedStep math lib) s before
        let t := u.commandedStep math lib (.command command)
        (t.published ≠ u.published ↔ t.namePrefixList ≠ u.namePrefixList) ∧
          (t.namePrefixList ≠ u.namePrefixList →
            t.published = u.published ++ [t.sequencingManager.combinedSeqNo] ∧
            (t.sequencingManager.counter .name).toNat =
              (u.sequencingManager.counter .name).toNat + 1) := by
  intro s
  refine ⟨(along_of_meets (fun s e hs he => hs.commandedStep he)
    (namesInv_initializeNlsr ..) h).imp fun s hs => hs.listsOwnNames, ?_⟩
  rintro before command after rfl
  intro u t
  have hmeets := meets_append.1 h
  have hroom : KeepsRoom u t := hmeets.2.1.2
  rcases onCommandValidated_announces lib u command with hsame | hann
  · have htu : t = u := hsame
    rw [htu]
    exact ⟨⟨fun hne => absurd rfl hne, fun hne => absurd rfl hne⟩, fun hne => absurd rfl hne⟩
  · have hann : AnnouncesNames u t := hann
    have hcounter := hasRoom_of_keepsRoom hroom hann.counter
    refine ⟨iff_of_true ?_ hann.namePrefixList, fun _ => ⟨hann.published, ?_⟩⟩
    · rw [hann.published]
      simp
    · rw [hann.counter, hcounter.toNat_add_one]

end

end Nlsr

/-! A library that knows the name and takes every other element for another field. -/

inductive PlainField
  | name
  | other
  deriving DecidableEq

structure PlainParameters where
  name : Option Name
  hasOthers : Bool
  deriving DecidableEq

def PlainParameters.hasField (parameters : PlainParameters) : PlainField → Bool
  | .name => parameters.name.isSome
  | .other => parameters.hasOthers

/-- `ControlParameters` is type 104. -/
def PlainParameters.wireDecode (b : Tlv.Block) : Option PlainParameters :=
  if b.type = 104 then do
    let elements ← b.parse
    let hasOthers := elements.any fun e => e.type ≠ Tlv.nameType
    match elements.find? fun e => e.type = Tlv.nameType with
    | none => return { name := none, hasOthers }
    | some e =>
      let name ← TlvLib.decodeName e
      return { name := some name, hasOthers }
  else none

def plainControl : ControlLib where
  ControlParameters := PlainParameters
  Field := PlainField
  nameField := .name
  hasField := PlainParameters.hasField
  getName parameters := parameters.name.getD []
  wireDecode := PlainParameters.wireDecode
  validate required parameters := [PlainField.name, .other].all fun field =>
    parameters.hasField field == decide (field ∈ required)
  validate_iff := by
    intro required parameters
    have hfield : ∀ field, (parameters.hasField field == decide (field ∈ required)) = true ↔
        (parameters.hasField field = true ↔ field ∈ required) := fun field => by
      rw [beq_iff_eq, Bool.eq_iff_iff, decide_eq_true_iff]
    rw [List.all_eq_true]
    exact ⟨fun h field => (hfield field).1 (h field (by cases field <;> simp)),
      fun h field _ => (hfield field).2 (h field)⟩

namespace Nlsr

open PrefixUpdateProcessor in
/-- The name `/b` is advertised, then a command without parameters comes, and `/b` is withdrawn. -/
def threeCommands : List CommandedEvent :=
  let parameters : Component :=
    ⟨String.ofList (Tlv.Block.wire ⟨104, Tlv.wires [Tlv.nameBlock [⟨"b"⟩]]⟩)⟩
  [.command ⟨advertiseVerb, parameters⟩, .command ⟨advertiseVerb, ⟨"x"⟩⟩,
    .command ⟨withdrawVerb, parameters⟩]

theorem own_names_advertised_threeCommands :
    let s := (start { network := [⟨"a"⟩] } KeyedList.empty KeyedList.empty none 0).initializeNlsr
    let t := run (commandedStep ⟨0, id, id, id, id⟩ plainControl) s threeCommands
    t.ListsOwnNames ∧ t.published.length = 2 := by
  have h := own_names_advertised ⟨0, id, id, id, id⟩ plainControl { network := [⟨"a"⟩] }
    KeyedList.empty KeyedList.empty none 0 threeCommands
    ⟨⟨trivial, keepsRoom_of_fits (by decide +kernel) _⟩,
      ⟨trivial, keepsRoom_of_fits (by decide +kernel) _⟩,
      ⟨trivial, keepsRoom_of_fits (by decide +kernel) _⟩, trivial⟩
  exact ⟨h.1.last, by decide +kernel⟩

end Nlsr

end LinkState
