import LinkState.Exchange

/-!
# Reading the origin off an LSA name

A router publishes under `/<network>/NLSR/LSA/<site>/<router>`, its update prefix. Three
functions read the origin off a name that begins with it, and all of them look for the first
component `NLSR` or `LSA`.

`nameSurvives_iff`: all three read the origin that the name was built from if and only if the
network name has neither component. The names of the site and the router may have them.
-/

namespace LinkState

/-- `SyncUpdate::getOriginRouter`; `none` where it throws. -/
def getOriginRouter (name : Name) : Option Name := do
  let nlsrPosition ← getNameComponentPosition name "NLSR"
  let lsaPosition ← getNameComponentPosition name "LSA"
  return getSubName name 0 nlsrPosition ++ name.drop (lsaPosition + 1)

/-- The Interest for an LSA of the router with this configuration. -/
def ConfParameter.lsaInterestName (conf : ConfParameter) (kind : SequencingManager.Counter)
    (seqNo : UInt64) : Name :=
  conf.updatePrefix ++ [kind.component, Component.fromNumber seqNo]

/-- The Data that answers it. -/
def ConfParameter.lsaDataName (conf : ConfParameter) (kind : SequencingManager.Counter)
    (seqNo : UInt64) (version : Component) : Name :=
  conf.lsaInterestName kind seqNo ++ [version]

/-- The LSA of the router with this configuration. -/
def ConfParameter.lsaId (conf : ConfParameter) (kind : SequencingManager.Counter)
    (seqNo : UInt64) : LsaId :=
  ⟨conf.routerPrefix, kind, seqNo⟩

/-- The names built from a configuration are read back: by a router that gets a sync update, by
the origin that gets an Interest, and by a router of the network that gets Data. -/
structure NameSurvives (conf : ConfParameter) (kind : SequencingManager.Counter)
    (seqNo : UInt64) : Prop where
  origin : getOriginRouter conf.updatePrefix = some conf.routerPrefix
  /-- What the Interest stands for at the origin. -/
  interest : ∀ s : Nlsr, s.confParam = conf →
    s.lsaIdOf (conf.lsaInterestName kind seqNo) 2 = some (conf.lsaId kind seqNo)
  /-- What the Data stands for at a receiver. -/
  data : ∀ (s : Nlsr) (version : Component), s.confParam.network = conf.network →
    s.lsaIdOf (conf.lsaDataName kind seqNo version) 3 = some (conf.lsaId kind seqNo)
  /-- The origin looks up that LSA. -/
  answers : ∀ (lib : TextLib) (s : Nlsr), s.confParam = conf →
    s.processInterest lib (conf.lsaInterestName kind seqNo) = s.answer lib (conf.lsaId kind seqNo)
  /-- A receiver takes the content for that LSA. -/
  processes : ∀ (lib : TextLib) (s : Nlsr) (version : Component) (content : Text),
    s.confParam.network = conf.network →
    s.onContentValidated lib (conf.lsaDataName kind seqNo version) content =
      s.processContent lib (conf.lsaId kind seqNo) content

/-! ## Positions -/

theorem getNameComponentPosition_of_mem {p : Name} {s : String} (h : Component.mk s ∈ p)
    (q : Name) : ∃ i < p.length, getNameComponentPosition (p ++ q) s = some i := by
  unfold getNameComponentPosition
  rw [List.findIdx?_append]
  cases hfind : p.findIdx? fun c => c = Component.mk s with
  | none => exact absurd (List.findIdx?_eq_none_iff.1 hfind _ h) (by simp)
  | some i =>
    obtain ⟨hi, -⟩ := List.findIdx?_eq_some_iff_getElem.1 hfind
    exact ⟨i, hi, rfl⟩

variable {conf : ConfParameter} {kind : SequencingManager.Counter} {seqNo : UInt64}

theorem updatePrefix_eq (conf : ConfParameter) :
    conf.updatePrefix =
      conf.network ++ ⟨"NLSR"⟩ :: ⟨"LSA"⟩ :: (conf.siteName ++ conf.routerName) := by
  simp [ConfParameter.updatePrefix, ConfParameter.lsaPrefix]

theorem lsaInterestName_eq (conf : ConfParameter) (kind : SequencingManager.Counter)
    (seqNo : UInt64) :
    conf.lsaInterestName kind seqNo = Nlsr.lsaName conf (conf.siteName ++ conf.routerName)
      kind.component (Component.fromNumber seqNo) [] := by
  simp [ConfParameter.lsaInterestName, ConfParameter.updatePrefix, Nlsr.lsaName]

theorem lsaDataName_eq (conf : ConfParameter) (kind : SequencingManager.Counter)
    (seqNo : UInt64) (version : Component) :
    conf.lsaDataName kind seqNo version = Nlsr.lsaName conf (conf.siteName ++ conf.routerName)
      kind.component (Component.fromNumber seqNo) [version] := by
  simp [ConfParameter.lsaDataName, lsaInterestName_eq, Nlsr.lsaName]

theorem lsaName_congr {conf conf' : ConfParameter} (h : conf.network = conf'.network)
    (router : Name) (kind seqNo : Component) (rest : Name) :
    Nlsr.lsaName conf router kind seqNo rest = Nlsr.lsaName conf' router kind seqNo rest := by
  unfold Nlsr.lsaName ConfParameter.lsaPrefix
  rw [h]

/-! ## Names that survive -/

/-- Where the network has no component `LSA`, Interests and Data stand for the LSA they were
built from. -/
theorem lsaIdOf_built {s : Nlsr} (hnetwork : s.confParam.network = conf.network)
    (hLSA : (⟨"LSA"⟩ : Component) ∉ conf.network) (rest : Name) :
    s.lsaIdOf (Nlsr.lsaName conf (conf.siteName ++ conf.routerName) kind.component
      (Component.fromNumber seqNo) rest) (rest.length + 2) = some (conf.lsaId kind seqNo) := by
  rw [lsaName_congr hnetwork.symm, Nlsr.lsaIdOf_lsaName (hnetwork ▸ hLSA),
    Component.toNumber_fromNumber, Counter.ofComponent_component, hnetwork]
  simp [ConfParameter.lsaId, ConfParameter.routerPrefix]

theorem getNameComponentPosition_LSA (hLSA : (⟨"LSA"⟩ : Component) ∉ conf.network) :
    getNameComponentPosition conf.updatePrefix "LSA" = some (conf.network.length + 1) := by
  have happend : conf.updatePrefix = (conf.network ++ [⟨"NLSR"⟩]) ++
      ⟨"LSA"⟩ :: (conf.siteName ++ conf.routerName) := by
    rw [updatePrefix_eq, List.append_assoc]
    rfl
  rw [happend, getNameComponentPosition_append (by simp [hLSA])]
  simp

theorem getOriginRouter_updatePrefix (hNLSR : (⟨"NLSR"⟩ : Component) ∉ conf.network)
    (hLSA : (⟨"LSA"⟩ : Component) ∉ conf.network) :
    getOriginRouter conf.updatePrefix = some conf.routerPrefix := by
  have hnlsr : getNameComponentPosition conf.updatePrefix "NLSR" = some conf.network.length := by
    rw [updatePrefix_eq, getNameComponentPosition_append hNLSR]
  have hrouter : conf.updatePrefix.drop (conf.network.length + 1 + 1) =
      conf.siteName ++ conf.routerName := by
    rw [updatePrefix_eq, List.drop_append, List.drop_eq_nil_of_le (by omega), List.nil_append,
      show conf.network.length + 1 + 1 - conf.network.length = 2 by omega]
    rfl
  have hnetwork : getSubName conf.updatePrefix 0 conf.network.length = conf.network := by
    rw [updatePrefix_eq, getSubName, List.drop_zero, List.take_left']
    rfl
  unfold getOriginRouter
  rw [hnlsr, getNameComponentPosition_LSA hLSA]
  simp [hrouter, hnetwork, ConfParameter.routerPrefix]

theorem nameSurvives_of_not_mem (hNLSR : (⟨"NLSR"⟩ : Component) ∉ conf.network)
    (hLSA : (⟨"LSA"⟩ : Component) ∉ conf.network) : NameSurvives conf kind seqNo := by
  have hinterest : ∀ s : Nlsr, s.confParam = conf →
      s.lsaIdOf (conf.lsaInterestName kind seqNo) 2 = some (conf.lsaId kind seqNo) := by
    rintro s rfl
    rw [lsaInterestName_eq]
    exact lsaIdOf_built rfl hLSA []
  have hdata : ∀ (s : Nlsr) (version : Component), s.confParam.network = conf.network →
      s.lsaIdOf (conf.lsaDataName kind seqNo version) 3 = some (conf.lsaId kind seqNo) := by
    intro s version hs
    rw [lsaDataName_eq]
    exact lsaIdOf_built hs hLSA [version]
  exact {
    origin := getOriginRouter_updatePrefix hNLSR hLSA
    interest := hinterest
    data := hdata
    answers := fun lib s hs => by
      rw [Nlsr.processInterest_eq, hinterest s hs, Option.bind_some]
    processes := fun lib s version content hs => by
      rw [Nlsr.onContentValidated_eq, hdata s version hs] }

/-! ## Names that do not -/

/-- With a component `LSA` in the network too much is taken for the origin. -/
theorem not_mem_of_interest
    (h : ∀ s : Nlsr, s.confParam = conf →
      s.lsaIdOf (conf.lsaInterestName kind seqNo) 2 = some (conf.lsaId kind seqNo)) :
    (⟨"LSA"⟩ : Component) ∉ conf.network := by
  intro hmem
  have hname : conf.lsaInterestName kind seqNo = conf.network ++
      (⟨"NLSR"⟩ :: ⟨"LSA"⟩ :: (conf.siteName ++ conf.routerName) ++
        [kind.component, Component.fromNumber seqNo]) := by
    rw [ConfParameter.lsaInterestName, updatePrefix_eq, List.append_assoc]
  obtain ⟨j, hj, hpos⟩ := getNameComponentPosition_of_mem hmem
    (⟨"NLSR"⟩ :: ⟨"LSA"⟩ :: (conf.siteName ++ conf.routerName) ++
      [kind.component, Component.fromNumber seqNo])
  have hid := h { confParam := conf } rfl
  unfold Nlsr.lsaIdOf at hid
  rw [hname, hpos] at hid
  -- The origin read off the name is longer than the one it was built from
  obtain ⟨j', hj', hid⟩ := Option.bind_eq_some_iff.1 hid
  obtain rfl : j = j' := Option.some.inj hj'
  obtain ⟨_, -, hid⟩ := Option.bind_eq_some_iff.1 hid
  obtain ⟨_, -, hid⟩ := Option.bind_eq_some_iff.1 hid
  obtain ⟨_, -, hid⟩ := Option.bind_eq_some_iff.1 hid
  obtain ⟨_, -, hid⟩ := Option.bind_eq_some_iff.1 hid
  have horigin := congrArg (fun id : LsaId => id.origin.length) (Option.some.inj hid)
  simp only [Nlsr.originOf, getSubName, ConfParameter.lsaId, ConfParameter.routerPrefix,
    List.length_append, List.length_take, List.length_drop, List.length_cons,
    List.length_nil] at horigin
  omega

/-- With a component `NLSR` in the network too little is taken for it. -/
theorem not_mem_of_origin (hLSA : (⟨"LSA"⟩ : Component) ∉ conf.network)
    (h : getOriginRouter conf.updatePrefix = some conf.routerPrefix) :
    (⟨"NLSR"⟩ : Component) ∉ conf.network := by
  intro hmem
  obtain ⟨i, hi, hnlsr⟩ := getNameComponentPosition_of_mem hmem
    (⟨"NLSR"⟩ :: ⟨"LSA"⟩ :: (conf.siteName ++ conf.routerName))
  rw [← updatePrefix_eq] at hnlsr
  unfold getOriginRouter at h
  rw [hnlsr, getNameComponentPosition_LSA hLSA] at h
  have hlength := congrArg List.length (Option.some.inj h)
  rw [updatePrefix_eq] at hlength
  simp only [getSubName, ConfParameter.routerPrefix, List.length_append, List.length_take,
    List.length_drop, List.length_cons] at hlength
  omega

/-- **The origin is read back from every name exactly if the network has neither component.** -/
theorem nameSurvives_iff (conf : ConfParameter) (kind : SequencingManager.Counter)
    (seqNo : UInt64) :
    NameSurvives conf kind seqNo ↔
      (⟨"NLSR"⟩ : Component) ∉ conf.network ∧ (⟨"LSA"⟩ : Component) ∉ conf.network := by
  refine ⟨fun h => ?_, fun h => nameSurvives_of_not_mem h.1 h.2⟩
  have hLSA := not_mem_of_interest h.interest
  exact ⟨not_mem_of_origin hLSA h.origin, hLSA⟩

/-- A network whose name ends in `LSA`. -/
def netLSA : ConfParameter where
  network := [⟨"ndn"⟩, ⟨"LSA"⟩]
  siteName := [⟨"site"⟩]
  routerName := [⟨"router"⟩]

/-- There the origin of a sync update is read as `/ndn/LSA/NLSR/LSA/site/router`. -/
theorem not_nameSurvives_netLSA : ¬ NameSurvives netLSA .adj 7 := by
  intro h
  have horigin := h.origin
  revert horigin
  decide

end LinkState
