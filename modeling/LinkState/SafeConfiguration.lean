import LinkState.ConfFile

/-!
# What an accepted configuration guarantees

The routing core takes its parameters as they come: it relies on the file processor to let only
safe ones through. `Safe` lists what it relies on.

* `InRange`: every number is in its range. `keeps_process…`: a section that is accepted keeps it,
  whatever was stored before.
* `Processed` is the invariant of the loop over the sections. Besides the ranges it follows what
  the tree makes of the neighbours and of the hyperbolic state.
* `safe_iff_of_load`: an accepted configuration is safe unless the first entry of a neighbour has a
  negative link cost, which nothing checks, or the state is some other spelling of `on` than `on`
  itself, for which missing coordinates are let through.
-/

namespace LinkState

/-- Every parameter is in its range. -/
structure InRange (c : FileParameter) : Prop where
  lsaRefreshTime : 240 ≤ c.lsaRefreshTime ∧ c.lsaRefreshTime ≤ 7200
  routerDeadInterval : c.lsaRefreshTime < c.routerDeadInterval
  lsaInterestLifetime : seconds 1 ≤ c.lsaInterestLifetime ∧ c.lsaInterestLifetime ≤ seconds 60
  interestRetryNumber : 1 ≤ c.interestRetryNumber ∧ c.interestRetryNumber ≤ 15
  interestResendTime : 1 ≤ c.interestResendTime ∧ c.interestResendTime ≤ 15
  infoInterestInterval : 30 ≤ c.infoInterestInterval ∧ c.infoInterestInterval ≤ 90
  adjLsaBuildInterval : 0 ≤ c.adjLsaBuildInterval ∧ c.adjLsaBuildInterval ≤ 10
  firstHelloInterval : 0 ≤ c.firstHelloInterval ∧ c.firstHelloInterval ≤ 20
  routingCalcInterval : 0 ≤ c.routingCalcInterval ∧ c.routingCalcInterval ≤ 30
  maxFacesPerPrefix : 0 ≤ c.maxFacesPerPrefix ∧ c.maxFacesPerPrefix ≤ 60

theorem inRange_default : InRange {} := by
  constructor <;> decide

namespace ConfFileProcessor

variable {lib : ConfLib}

/-! ## Checked values -/

theorem checkedValue_eq_ok {T : Type} [LE T] [DecidableLE T] {limits : Limits T}
    {value : Option T} {message : String} {v : T}
    (h : checkedValue limits value message = .ok v) : limits.Allows v := by
  unfold checkedValue at h
  by_cases hallows : limits.Allows (value.getD limits.default)
  · simp only [hallows, if_true, Except.ok.injEq] at h
    exact h ▸ hallows
  · simp [hallows] at h

/-- A value that is parsed is in the limits: read ones are checked, and the default is one. -/
theorem parse_limitedVariable {key : String} {set : UInt32 → Configured → Configured}
    {limits : Limits UInt32} {convert : String → Option UInt32} {sec : Ptree}
    {s s' : Configured}
    (h : (limitedVariable key set limits).parseFromConfigSection lib convert sec s = .ok s') :
    ∃ v, limits.Allows v ∧ s' = set v s := by
  unfold ConfigurationVariable.parseFromConfigSection at h
  cases hget : lib.get convert sec (limitedVariable key set limits).key with
  | none =>
    rw [hget] at h
    exact ⟨limits.default, limits.allows_default, (Except.ok.inj h).symm⟩
  | some value =>
    rw [hget] at h
    simp only [bind_eq_ok, pure_eq_ok] at h
    obtain ⟨_, hvalid, rfl⟩ := h
    refine ⟨value, ?_, rfl⟩
    unfold ConfigurationVariable.isValidValue at hvalid
    dsimp only [limitedVariable] at hvalid
    by_cases hout : value < limits.min ∨ limits.max < value
    · rw [if_pos hout] at hvalid
      exact nomatch hvalid
    · simp only [not_or, UInt32.not_lt] at hout
      exact hout

/-- A count that is not negative and small is stored as it is. -/
theorem toUInt32_bounds {a b : UInt32} {n : Int} (ha : (a.toNat : Int) ≤ n)
    (hb : n ≤ (b.toNat : Int)) : a ≤ n.toNat.toUInt32 ∧ n.toNat.toUInt32 ≤ b := by
  have hlt := b.toNat_lt
  have hn : n.toNat.toUInt32.toNat = n.toNat := by
    show n.toNat % 2 ^ 32 = n.toNat
    omega
  constructor
  · rw [UInt32.le_iff_toNat_le, hn]
    omega
  · rw [UInt32.le_iff_toNat_le, hn]
    omega

/-! ## What a section keeps -/

/-- The neighbours and the coordinates stay, and the ranges are kept. -/
structure Keeps (s s' : Configured) : Prop where
  inRange : InRange s.confParam → InRange s'.confParam
  adjacencyList : s'.adjacencyList = s.adjacencyList
  hyperbolicState : s'.confParam.hyperbolicState = s.confParam.hyperbolicState
  corR : s'.confParam.corR = s.confParam.corR
  corTheta : s'.confParam.corTheta = s.confParam.corTheta

theorem Keeps.refl (s : Configured) : Keeps s s := ⟨id, rfl, rfl, rfl, rfl⟩

theorem Keeps.trans {s t u : Configured} (h₁ : Keeps s t) (h₂ : Keeps t u) : Keeps s u where
  inRange h := h₂.inRange (h₁.inRange h)
  adjacencyList := h₂.adjacencyList.trans h₁.adjacencyList
  hyperbolicState := h₂.hyperbolicState.trans h₁.hyperbolicState
  corR := h₂.corR.trans h₁.corR
  corTheta := h₂.corTheta.trans h₁.corTheta

theorem keeps_processNames {sec : Ptree} {s s' : Configured}
    (h : processNames lib sec s = .ok s') : Keeps s s' := by
  simp only [processNames, bind_eq_ok, pure_eq_ok] at h
  obtain ⟨network, -, site, -, router, -, n, -, siteName, -, routerName, -, rfl⟩ := h
  exact ⟨fun h => { h with }, rfl, rfl, rfl, rfl⟩

theorem keeps_processRefresh {sec : Ptree} {s s' : Configured}
    (h : processRefresh lib sec s = .ok s') : Keeps s s' := by
  simp only [processRefresh, bind_eq_ok, require_eq_ok, pure_eq_ok] at h
  obtain ⟨lsaRefreshTime, hrefresh, -, hdead, rfl⟩ := h
  exact ⟨fun h => { h with
    lsaRefreshTime := checkedValue_eq_ok hrefresh
    routerDeadInterval := hdead }, rfl, rfl, rfl, rfl⟩

theorem keeps_processLifetime {sec : Ptree} {s s' : Configured}
    (h : processLifetime lib sec s = .ok s') : Keeps s s' := by
  simp only [processLifetime, bind_eq_ok, pure_eq_ok] at h
  obtain ⟨lifetime, hlifetime, rfl⟩ := h
  obtain ⟨hmin, hmax⟩ := checkedValue_eq_ok hlifetime
  have hseconds : seconds 1 ≤ seconds lifetime ∧ seconds lifetime ≤ seconds 60 := by
    simp only [lsaInterestLifetimeLimits] at hmin hmax
    have hlow : 1 * 1000000000 ≤ lifetime * 1000000000 := by omega
    have hhigh : lifetime * 1000000000 ≤ 60 * 1000000000 := by omega
    exact ⟨hlow, hhigh⟩
  exact ⟨fun h => { h with lsaInterestLifetime := hseconds }, rfl, rfl, rfl, rfl⟩

theorem keeps_processLogLevel {sec : Ptree} {s s' : Configured}
    (h : processLogLevel lib sec s = .ok s') : Keeps s s' := by
  simp only [processLogLevel, bind_eq_ok, pure_eq_ok] at h
  obtain ⟨-, -, rfl⟩ := h
  exact ⟨fun h => { h with }, rfl, rfl, rfl, rfl⟩

theorem keeps_processDirectories {sec : Ptree} {s s' : Configured}
    (h : processDirectories lib sec s = .ok s') : Keeps s s' := by
  simp only [processDirectories, bind_eq_ok, pure_eq_ok] at h
  obtain ⟨logDir, -, seqFileDir, -, rfl⟩ := h
  exact ⟨fun h => { h with }, rfl, rfl, rfl, rfl⟩

theorem keeps_processLog4Cxx {sec : Ptree} {s s' : Configured}
    (h : processLog4Cxx lib sec s = .ok s') : Keeps s s' := by
  unfold processLog4Cxx at h
  cases hget : lib.getString sec "log4cxx-conf" with
  | none =>
    rw [hget] at h
    exact Except.ok.inj h ▸ Keeps.refl s
  | some path =>
    simp only [hget, bind_eq_ok] at h
    obtain ⟨-, -, h⟩ := h
    cases hexists : lib.pathExists path with
    | none =>
      rw [hexists] at h
      exact Except.ok.inj h ▸ Keeps.refl s
    | some pathExists =>
      simp only [hexists, bind_eq_ok, pure_eq_ok] at h
      obtain ⟨-, -, rfl⟩ := h
      exact ⟨fun h => { h with }, rfl, rfl, rfl, rfl⟩

theorem keeps_processConfSectionGeneral {sec : Ptree} {s s' : Configured}
    (h : processConfSectionGeneral lib sec s = .ok s') : Keeps s s' := by
  simp only [processConfSectionGeneral, bind_eq_ok] at h
  obtain ⟨s₁, h₁, s₂, h₂, s₃, h₃, s₄, h₄, s₅, h₅, h₆⟩ := h
  have hranges := (keeps_processNames h₁).trans ((keeps_processRefresh h₂).trans
    (keeps_processLifetime h₃))
  exact hranges.trans ((keeps_processLogLevel h₄).trans ((keeps_processDirectories h₅).trans
    (keeps_processLog4Cxx h₆)))

theorem keeps_processHello {sec : Ptree} {s s' : Configured}
    (h : processHello lib sec s = .ok s') : Keeps s s' := by
  simp only [processHello, bind_eq_ok, pure_eq_ok] at h
  obtain ⟨retrials, hretrials, timeOut, htimeOut, interval, hinterval, rfl⟩ := h
  obtain ⟨hmin, hmax⟩ := checkedValue_eq_ok hretrials
  exact ⟨fun h => { h with
    interestRetryNumber := toUInt32_bounds hmin hmax
    interestResendTime := checkedValue_eq_ok htimeOut
    infoInterestInterval := checkedValue_eq_ok hinterval }, rfl, rfl, rfl, rfl⟩

theorem keeps_adjLsaBuildInterval {sec : Ptree} {s s' : Configured}
    (h : adjLsaBuildInterval.parseFromConfigSection lib lib.toUInt32 sec s = .ok s') :
    Keeps s s' := by
  obtain ⟨v, hv, rfl⟩ := parse_limitedVariable h
  exact ⟨fun h => { h with adjLsaBuildInterval := hv }, rfl, rfl, rfl, rfl⟩

theorem keeps_firstHelloInterval {sec : Ptree} {s s' : Configured}
    (h : firstHelloInterval.parseFromConfigSection lib lib.toUInt32 sec s = .ok s') :
    Keeps s s' := by
  obtain ⟨v, hv, rfl⟩ := parse_limitedVariable h
  exact ⟨fun h => { h with firstHelloInterval := hv }, rfl, rfl, rfl, rfl⟩

theorem keeps_processConfSectionFib {sec : Ptree} {s s' : Configured}
    (h : processConfSectionFib lib sec s = .ok s') : Keeps s s' := by
  simp only [processConfSectionFib, bind_eq_ok] at h
  obtain ⟨maxFaces, hmaxFaces, h⟩ := h
  obtain ⟨hmin, hmax⟩ := checkedValue_eq_ok hmaxFaces
  obtain ⟨v, hv, rfl⟩ := parse_limitedVariable h
  exact ⟨fun h => { h with
    maxFacesPerPrefix := toUInt32_bounds hmin hmax
    routingCalcInterval := hv }, rfl, rfl, rfl, rfl⟩

theorem keeps_processConfSectionAdvertising {sec : Ptree} {s s' : Configured}
    (h : processConfSectionAdvertising lib sec s = .ok s') : Keeps s s' := by
  refine foldlM_ok_induction (P := fun _ t => Keeps s t) ?_ sec.children
    (Keeps.refl s) h
  intro _ entry t t' ht hstep
  refine ht.trans ?_
  unfold processPrefix at hstep
  split at hstep
  · simp only [bind_eq_ok, pure_eq_ok] at hstep
    obtain ⟨-, -, -, -, rfl⟩ := hstep
    exact ⟨id, rfl, rfl, rfl, rfl⟩
  · exact Except.ok.inj hstep ▸ Keeps.refl t

theorem keeps_processCert {entry : String × Ptree} {s s' : Configured}
    (h : processCert lib s entry = .ok s') : Keeps s s' := by
  unfold processCert at h
  split at h
  · simp only [bind_eq_ok, pure_eq_ok] at h
    obtain ⟨-, -, rfl⟩ := h
    exact ⟨id, rfl, rfl, rfl, rfl⟩
  · exact nomatch h

theorem keeps_loadValidator {sec : Ptree} {s s' : Configured}
    (h : loadValidator lib sec s = .ok s') : Keeps s s' := by
  simp only [loadValidator, bind_eq_ok, pure_eq_ok] at h
  obtain ⟨-, -, rfl⟩ := h
  exact ⟨id, rfl, rfl, rfl, rfl⟩

theorem keeps_loadPrefixUpdateValidator {sec : Ptree} {s s' : Configured}
    (h : loadPrefixUpdateValidator lib sec s = .ok s') : Keeps s s' := by
  simp only [loadPrefixUpdateValidator, bind_eq_ok, pure_eq_ok] at h
  obtain ⟨-, -, rfl⟩ := h
  exact ⟨id, rfl, rfl, rfl, rfl⟩

theorem keeps_processRest {rest : List (String × Ptree)} {s s' : Configured}
    (h : processRest lib s rest = .ok s') : Keeps s s' := by
  unfold processRest at h
  split at h
  · rw [bind_eq_ok] at h
    obtain ⟨t, hload, hcerts⟩ := h
    refine foldlM_ok_induction (P := fun _ t => Keeps s t) ?_ _
      (keeps_loadPrefixUpdateValidator hload) hcerts
    intro _ entry t t' ht hstep
    exact ht.trans (keeps_processCert hstep)
  · exact Except.ok.inj h ▸ Keeps.refl s

theorem keeps_processConfSectionSecurity {sec : Ptree} {s s' : Configured}
    (h : processConfSectionSecurity lib sec s = .ok s') : Keeps s s' := by
  unfold processConfSectionSecurity at h
  split at h
  · rw [bind_eq_ok] at h
    obtain ⟨t, hload, hrest⟩ := h
    exact (keeps_loadValidator hload).trans (keeps_processRest hrest)
  · exact nomatch h

/-! ## Neighbours -/

/-- The neighbour a child of the section stands for. -/
def neighborOf (lib : ConfLib) : String × Ptree → Option Adjacent
  | ("neighbor", sec) => do
    let faceUri ← lib.getString sec "face-uri"
    let name ← (lib.getString sec "name").bind lib.fromUri
    if name ≠ [] then
      some { name, connectingFaceUri := faceUri, linkCost := linkCostOf lib sec }
    else none
  | _ => none

/-- The neighbours of a list of sections, in the order of the file. -/
def neighborsOf (lib : ConfLib) (sections : List (String × Ptree)) : List Adjacent :=
  sections.flatMap fun (name, sec) =>
    if name = "neighbors" then sec.children.filterMap (neighborOf lib) else []

/-- One child adds its neighbour, if it stands for one. -/
theorem processNeighbor_eq {entry : String × Ptree} {s s' : Configured}
    (h : processNeighbor lib s entry = .ok s') :
    s' = { s with
      adjacencyList := (neighborOf lib entry).toList.foldl KeyedList.insert s.adjacencyList } := by
  unfold processNeighbor at h
  split at h
  · rename_i sec
    simp only [bind_eq_ok, orError_eq_ok] at h
    obtain ⟨name, hname, faceUri, hface, -, -, neighborName, huri, h⟩ := h
    by_cases hempty : neighborName ≠ []
    · rw [if_pos hempty, pure_eq_ok] at h
      simp [neighborOf, hname, hface, huri, hempty, ← h]
    · rw [if_neg hempty, pure_eq_ok] at h
      simp [neighborOf, hname, hface, huri, not_not.1 hempty, ← h]
  · rename_i hother
    have hnone : neighborOf lib entry = none := by
      unfold neighborOf
      split
      · exact absurd rfl (hother _)
      · rfl
    rw [hnone]
    exact (Except.ok.inj h).symm

/-- The section of the neighbours adds its neighbours one by one. -/
theorem processConfSectionNeighbors_ok {sec : Ptree} {s s' : Configured}
    (h : processConfSectionNeighbors lib sec s = .ok s') :
    ∃ t, Keeps s t ∧ s' = { t with adjacencyList :=
      (sec.children.filterMap (neighborOf lib)).foldl KeyedList.insert s.adjacencyList } := by
  simp only [processConfSectionNeighbors, bind_eq_ok] at h
  obtain ⟨s₁, h₁, s₂, h₂, s₃, h₃, hchildren⟩ := h
  have hkeeps : Keeps s s₃ :=
    (keeps_processHello h₁).trans ((keeps_adjLsaBuildInterval h₂).trans
      (keeps_firstHelloInterval h₃))
  refine ⟨s₃, hkeeps, ?_⟩
  rw [← hkeeps.adjacencyList]
  let added (done : List (String × Ptree)) : AdjacencyList :=
    (done.filterMap (neighborOf lib)).foldl KeyedList.insert s₃.adjacencyList
  refine foldlM_ok_induction (P := fun done t => t = { s₃ with adjacencyList := added done }) ?_
    sec.children rfl hchildren
  rintro done entry t t' rfl hstep
  rw [processNeighbor_eq hstep]
  simp only [added, List.filterMap_append, List.foldl_append, List.filterMap_cons,
    List.filterMap_nil]
  cases neighborOf lib entry <;> rfl

/-! ## Coordinates -/

def radiusOf (lib : ConfLib) (sec : Ptree) : Option Double := lib.get lib.toDouble sec "radius"

def angleOf (lib : ConfLib) (sec : Ptree) : Option Double := lib.get lib.toDouble sec "angle"

/-- The section names both coordinates. -/
def GivesCoordinates (lib : ConfLib) (sec : Ptree) : Prop :=
  (radiusOf lib sec).isSome ∧ (angleOf lib sec).isSome

/-- The sections on hyperbolic routing. -/
def hyperbolicSections (sections : List (String × Ptree)) : List Ptree :=
  sections.filterMap fun (name, sec) => if name = "hyperbolic" then some sec else none

/-- The coordinates in force were given: the radius is not negative, and some section names
both. -/
def CoordinatesGiven (lib : ConfLib) (sections : List (String × Ptree)) (c : FileParameter) : Prop :=
  0 ≤ c.corR ∧ ∃ sec ∈ hyperbolicSections sections,
    radiusOf lib sec = some c.corR ∧ angleOf lib sec = some c.corTheta

theorem processConfSectionHyperbolic_ok {sec : Ptree} {s s' : Configured}
    (h : processConfSectionHyperbolic lib sec s = .ok s') :
    processState (stateOf lib sec) = .ok s'.confParam.hyperbolicState ∧
      (InRange s.confParam → InRange s'.confParam) ∧ s'.adjacencyList = s.adjacencyList ∧
      ((radiusOf lib sec = some s'.confParam.corR ∧ angleOf lib sec = some s'.confParam.corTheta ∧
          0 ≤ s'.confParam.corR) ∨
        (¬ GivesCoordinates lib sec ∧ stateOf lib sec ≠ "on" ∧ stateOf lib sec ≠ "dry-run" ∧
          s'.confParam.corR = s.confParam.corR ∧ s'.confParam.corTheta = s.confParam.corTheta)) := by
  simp only [processConfSectionHyperbolic, bind_eq_ok] at h
  obtain ⟨state, hstate, h⟩ := h
  split at h
  · rename_i corR corTheta hradius hangle
    simp only [bind_eq_ok, require_eq_ok, pure_eq_ok] at h
    obtain ⟨-, hsign, rfl⟩ := h
    exact ⟨hstate, fun h => { h with }, rfl, Or.inl ⟨hradius, hangle, hsign⟩⟩
  · rename_i hmissing
    simp only [bind_eq_ok, require_eq_ok, pure_eq_ok, not_or] at h
    obtain ⟨-, ⟨hon, hdryRun⟩, rfl⟩ := h
    have hnot : ¬ GivesCoordinates lib sec := by
      intro ⟨hradius, hangle⟩
      obtain ⟨corR, hcorR⟩ := Option.isSome_iff_exists.1 hradius
      obtain ⟨corTheta, hcorTheta⟩ := Option.isSome_iff_exists.1 hangle
      exact hmissing corR corTheta hcorR hcorTheta
    exact ⟨hstate, fun h => { h with }, rfl, Or.inr ⟨hnot, hon, hdryRun, rfl, rfl⟩⟩

/-! ## All sections -/

/-- The state the last section on hyperbolic routing names. -/
def lastState (lib : ConfLib) (sections : List (String × Ptree)) : String :=
  match (hyperbolicSections sections).getLast? with
  | some sec => stateOf lib sec
  | none => "off"

/-- What holds after the first sections of an accepted configuration. -/
structure Processed (lib : ConfLib) (done : List (String × Ptree)) (s : Configured) : Prop where
  inRange : InRange s.confParam
  adjacencyList : s.adjacencyList = (neighborsOf lib done).foldl KeyedList.insert KeyedList.empty
  state : processState (lastState lib done) = .ok s.confParam.hyperbolicState
  /-- A state that is written as the keyword is comes with coordinates. -/
  strict : lastState lib done = "on" ∨ lastState lib done = "dry-run" →
    ∃ sec ∈ hyperbolicSections done, GivesCoordinates lib sec
  given : (∃ sec ∈ hyperbolicSections done, GivesCoordinates lib sec) →
    CoordinatesGiven lib done s.confParam

theorem processed_nil (lib : ConfLib) : Processed lib [] {} where
  inRange := inRange_default
  adjacencyList := rfl
  state := if_pos (by simp [lastState, hyperbolicSections, iequals])
  strict h := by simp [lastState, hyperbolicSections] at h
  given h := by simp [hyperbolicSections] at h

variable {done : List (String × Ptree)} {sec : Ptree} {s s' : Configured}

theorem Processed.keep (h : Processed lib done s) {entry : String × Ptree}
    (hneighbors : entry.1 ≠ "neighbors") (hhyperbolic : entry.1 ≠ "hyperbolic")
    (hkeeps : Keeps s s') : Processed lib (done ++ [entry]) s' := by
  have hsections : hyperbolicSections (done ++ [entry]) = hyperbolicSections done := by
    simp [hyperbolicSections, hhyperbolic]
  have hstate : lastState lib (done ++ [entry]) = lastState lib done := by
    rw [lastState, hsections]
    rfl
  refine ⟨hkeeps.inRange h.inRange, ?_, ?_, ?_, ?_⟩
  · rw [hkeeps.adjacencyList, h.adjacencyList]
    simp [neighborsOf, hneighbors]
  · rw [hstate, hkeeps.hyperbolicState]
    exact h.state
  · rw [hstate, hsections]
    exact h.strict
  · rw [CoordinatesGiven, hsections, hkeeps.corR, hkeeps.corTheta]
    exact h.given

theorem Processed.neighbors (h : Processed lib done s)
    (hok : processConfSectionNeighbors lib sec s = .ok s') :
    Processed lib (done ++ [("neighbors", sec)]) s' := by
  obtain ⟨t, hkeeps, rfl⟩ := processConfSectionNeighbors_ok hok
  have hsections : hyperbolicSections (done ++ [("neighbors", sec)]) = hyperbolicSections done := by
    simp [hyperbolicSections]
  have hstate : lastState lib (done ++ [("neighbors", sec)]) = lastState lib done := by
    rw [lastState, hsections]
    rfl
  refine ⟨hkeeps.inRange h.inRange, ?_, ?_, ?_, ?_⟩
  · show (sec.children.filterMap (neighborOf lib)).foldl KeyedList.insert s.adjacencyList = _
    rw [h.adjacencyList, ← List.foldl_append]
    simp [neighborsOf]
  · rw [hstate]
    exact hkeeps.hyperbolicState ▸ h.state
  · rw [hstate, hsections]
    exact h.strict
  · rw [CoordinatesGiven, hsections]
    show _ → 0 ≤ t.confParam.corR ∧ _
    rw [hkeeps.corR, hkeeps.corTheta]
    exact h.given

theorem Processed.hyperbolic (h : Processed lib done s)
    (hok : processConfSectionHyperbolic lib sec s = .ok s') :
    Processed lib (done ++ [("hyperbolic", sec)]) s' := by
  obtain ⟨hstate, hrange, hlist, hcoordinates⟩ := processConfSectionHyperbolic_ok hok
  have hsections : hyperbolicSections (done ++ [("hyperbolic", sec)]) =
      hyperbolicSections done ++ [sec] := by
    simp [hyperbolicSections]
  have hlast : lastState lib (done ++ [("hyperbolic", sec)]) = stateOf lib sec := by
    simp [lastState, hsections]
  have hmem : sec ∈ hyperbolicSections done ++ [sec] := List.mem_append_right _ (by simp)
  refine ⟨hrange h.inRange, ?_, hlast ▸ hstate, ?_, ?_⟩
  · rw [hlist, h.adjacencyList]
    simp [neighborsOf]
  · rw [hlast, hsections]
    intro hkeyword
    obtain ⟨hradius, hangle, -⟩ | ⟨-, hon, hdryRun, -, -⟩ := hcoordinates
    · exact ⟨sec, hmem, by simp [hradius], by simp [hangle]⟩
    · exact absurd hkeyword (by simp [hon, hdryRun])
  · rw [CoordinatesGiven, hsections]
    intro hgives
    obtain ⟨hradius, hangle, hsign⟩ | ⟨hnot, -, -, hcorR, hcorTheta⟩ := hcoordinates
    · exact ⟨hsign, sec, hmem, hradius, hangle⟩
    · -- The section that gave them is an earlier one
      obtain ⟨earlier, hearlier, hboth⟩ := hgives
      have hbefore : earlier ∈ hyperbolicSections done := by
        obtain hdone | hsec := List.mem_append.1 hearlier
        · exact hdone
        · exact absurd (List.mem_singleton.1 hsec ▸ hboth) hnot
      obtain ⟨hsign, given, hgiven, hradius, hangle⟩ := h.given ⟨earlier, hbefore, hboth⟩
      rw [hcorR, hcorTheta]
      exact ⟨hsign, given, List.mem_append_left _ hgiven, hradius, hangle⟩

theorem Processed.step {entry : String × Ptree} (h : Processed lib done s)
    (hok : processSection lib s entry = .ok s') : Processed lib (done ++ [entry]) s' := by
  unfold processSection at hok
  split at hok
  · exact h.keep (by simp) (by simp) (keeps_processConfSectionGeneral hok)
  · exact h.neighbors hok
  · exact h.hyperbolic hok
  · exact h.keep (by simp) (by simp) (keeps_processConfSectionFib hok)
  · exact h.keep (by simp) (by simp) (keeps_processConfSectionAdvertising hok)
  · exact h.keep (by simp) (by simp) (keeps_processConfSectionSecurity hok)
  · rename_i hneighbors hhyperbolic _ _ _
    cases hok
    refine h.keep (fun hname => ?_) (fun hname => ?_) (Keeps.refl s)
    · exact hneighbors entry.2 (by rw [← hname])
    · exact hhyperbolic entry.2 (by rw [← hname])

/-- **The invariant holds after every accepted configuration.** -/
theorem processed_load {pt : Ptree} (h : load lib pt {} = .ok s) : Processed lib pt.children s :=
  foldlM_ok_induction (fun _ _ _ _ hdone hok => hdone.step hok) pt.children
    (processed_nil lib) h

/-! ## Safety -/

/-- What the routing core relies on. -/
structure Safe (lib : ConfLib) (pt : Ptree) (s : Configured) : Prop where
  inRange : InRange s.confParam
  neighbors : ∀ a ∈ s.adjacencyList, a.name ≠ [] ∧ 0 ≤ a.linkCost
  coordinates : s.confParam.hyperbolicState ≠ .off →
    CoordinatesGiven lib pt.children s.confParam

/-- The first entry of every neighbour has a link cost that is not negative. -/
def CostsAllowed (lib : ConfLib) (pt : Ptree) : Prop :=
  ∀ name a, (neighborsOf lib pt.children).find? (fun a => a.name = name) = some a → 0 ≤ a.linkCost

/-- If the last state is `on` in another spelling, some section gives the coordinates. -/
def SpellingAllowed (lib : ConfLib) (pt : Ptree) : Prop :=
  iequals (lastState lib pt.children) "on" → lastState lib pt.children ≠ "on" →
    ∃ sec ∈ hyperbolicSections pt.children, GivesCoordinates lib sec

theorem name_ne_nil_of_neighborOf {entry : String × Ptree} {a : Adjacent}
    (h : neighborOf lib entry = some a) : a.name ≠ [] := by
  unfold neighborOf at h
  split at h
  · simp only [Option.bind_eq_bind, Option.bind_eq_some_iff] at h
    obtain ⟨faceUri, -, name, -, h⟩ := h
    by_cases hname : name ≠ []
    · rw [if_pos hname] at h
      exact Option.some_inj.1 h ▸ hname
    · simp [hname] at h
  · exact nomatch h

theorem Processed.find? (h : Processed lib done s) (name : Name) :
    s.adjacencyList.find? name = (neighborsOf lib done).find? fun a => a.name = name := by
  rw [h.adjacencyList, KeyedList.find?_foldl_insert]
  rfl

theorem Processed.costs_iff {pt : Ptree} (h : Processed lib pt.children s) :
    (∀ a ∈ s.adjacencyList, 0 ≤ a.linkCost) ↔ CostsAllowed lib pt := by
  constructor
  · intro hcosts name a hfirst
    rw [← h.find?] at hfirst
    exact hcosts a (KeyedList.mem_of_find? hfirst)
  · intro hallowed a ha
    refine hallowed a.name a ?_
    rw [← h.find?]
    exact KeyedList.find?_of_mem ha

theorem Processed.name_ne_nil (h : Processed lib done s) {a : Adjacent}
    (ha : a ∈ s.adjacencyList) : a.name ≠ [] := by
  have hfirst := KeyedList.find?_of_mem ha
  rw [h.find?] at hfirst
  obtain ⟨⟨name, sec⟩, -, hentry⟩ := List.mem_flatMap.1 (List.mem_of_find?_eq_some hfirst)
  dsimp only at hentry
  by_cases hname : name = "neighbors"
  · rw [if_pos hname] at hentry
    obtain ⟨child, -, hchild⟩ := List.mem_filterMap.1 hentry
    exact name_ne_nil_of_neighborOf hchild
  · rw [if_neg hname] at hentry
    exact absurd hentry List.not_mem_nil

/-- A state that is not off is a keyword, or `on` in another spelling. -/
theorem keyword_of_processState {state : String} {hyperbolicState : HyperbolicState}
    (h : processState state = .ok hyperbolicState) (hoff : hyperbolicState ≠ .off) :
    (state = "on" ∨ state = "dry-run") ∨ (iequals state "on" ∧ state ≠ "on") := by
  unfold processState at h
  split_ifs at h with hiOff hiOn hdryRun
  · exact absurd (Except.ok.inj h).symm hoff
  · by_cases hon : state = "on"
    · exact Or.inl (Or.inl hon)
    · exact Or.inr ⟨hiOn, hon⟩
  · exact Or.inl (Or.inr hdryRun)

/-- However it is spelled, `on` turns hyperbolic routing on. -/
theorem on_of_processState {state : String} {hyperbolicState : HyperbolicState}
    (h : processState state = .ok hyperbolicState) (hon : iequals state "on") :
    hyperbolicState = .on := by
  have hnotOff : ¬ iequals state "off" := by
    simp only [iequals, decide_eq_true_eq] at hon ⊢
    rw [hon]
    decide
  rw [processState, if_neg hnotOff, if_pos hon] at h
  exact (Except.ok.inj h).symm

theorem Processed.coordinates_iff {pt : Ptree} (h : Processed lib pt.children s) :
    (s.confParam.hyperbolicState ≠ .off → CoordinatesGiven lib pt.children s.confParam) ↔
      SpellingAllowed lib pt := by
  constructor
  · intro hsafe hon _
    have hstate : s.confParam.hyperbolicState ≠ .off := by
      rw [on_of_processState h.state hon]
      exact nofun
    obtain ⟨-, sec, hmem, hradius, hangle⟩ := hsafe hstate
    exact ⟨sec, hmem, by simp [hradius], by simp [hangle]⟩
  · intro hallowed hoff
    obtain hkeyword | ⟨hon, hother⟩ := keyword_of_processState h.state hoff
    · exact h.given (h.strict hkeyword)
    · exact h.given (hallowed hon hother)

/-- **An accepted configuration is safe exactly if** no neighbour is first entered with a negative
link cost, and no other spelling of `on` asks for hyperbolic routing without coordinates. -/
theorem safe_iff_of_load (lib : ConfLib) (pt : Ptree) {s : Configured}
    (h : load lib pt {} = .ok s) :
    Safe lib pt s ↔ CostsAllowed lib pt ∧ SpellingAllowed lib pt := by
  have hprocessed := processed_load h
  rw [← hprocessed.costs_iff, ← hprocessed.coordinates_iff]
  constructor
  · intro hsafe
    exact ⟨fun a ha => (hsafe.neighbors a ha).2, hsafe.coordinates⟩
  · rintro ⟨hcosts, hcoordinates⟩
    exact ⟨hprocessed.inRange, fun a ha => ⟨hprocessed.name_ne_nil ha, hcosts a ha⟩, hcoordinates⟩

/-! ## Accepted configurations -/

/-- A neighbour with a negative link cost. -/
def negativeCost : Ptree :=
  .node "" [("neighbors", .node "" [("neighbor",
    plainSection [("name", "/ndn/castor"), ("face-uri", "udp4://localhost"), ("link-cost", "-5")])])]

/-- Hyperbolic routing in capitals and without coordinates. -/
def capitalOn : Ptree := .node "" [("hyperbolic", plainSection [("state", "ON")])]

/-- Both are accepted, and neither is safe. -/
theorem not_safe_of_load :
    (∃ s, load plainLib negativeCost {} = .ok s ∧ ¬ Safe plainLib negativeCost s) ∧
    ∃ s, load plainLib capitalOn {} = .ok s ∧ ¬ Safe plainLib capitalOn s := by
  constructor
  · let castor : Adjacent :=
      { name := readName "/ndn/castor", connectingFaceUri := "udp4://localhost", linkCost := -5 }
    refine ⟨_, rfl, fun hsafe => ?_⟩
    have hcost : 0 ≤ castor.linkCost := (hsafe.neighbors castor (List.mem_singleton.2 rfl)).2
    exact absurd hcost (by decide)
  · refine ⟨_, rfl, fun hsafe => ?_⟩
    obtain ⟨-, sec, hmem, hradius, -⟩ := hsafe.coordinates nofun
    have hmissing : radiusOf plainLib (plainSection [("state", "ON")]) = none := rfl
    obtain rfl : sec = plainSection [("state", "ON")] := List.mem_singleton.1 hmem
    rw [hmissing] at hradius
    exact nomatch hradius

/-- A configuration as in the sample file. -/
def sampleConf : Ptree :=
  .node "" [
    ("general", plainSection [("network", "/ndn"), ("site", "/memphis.edu"),
      ("router", "/cs/pollux"), ("lsa-refresh-time", "1800"), ("lsa-interest-lifetime", "3"),
      ("router-dead-interval", "86400"), ("log-level", "INFO"), ("log-dir", "/tmp"),
      ("seq-dir", "/tmp")]),
    ("neighbors", .node "" [("hello-retries", .node "3" []), ("hello-timeout", .node "1" []),
      ("neighbor", plainSection [("name", "/ndn/castor"), ("face-uri", "udp4://localhost"),
        ("link-cost", "20")])]),
    ("hyperbolic", plainSection [("state", "on"), ("radius", "123"), ("angle", "1")])]

/-- It is accepted, and what was just proved applies to it. -/
theorem safe_iff_of_load_sampleConf : ∃ s, load plainLib sampleConf {} = .ok s ∧
    (Safe plainLib sampleConf s ↔
      CostsAllowed plainLib sampleConf ∧ SpellingAllowed plainLib sampleConf) :=
  ⟨_, rfl, safe_iff_of_load plainLib sampleConf rfl⟩

end ConfFileProcessor

end LinkState
