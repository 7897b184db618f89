import LinkState.Advertised
import LinkState.OwnNames

/-!
# A silent neighbour

An ACTIVE neighbour becomes INACTIVE when its count of timeouts is equal to the number of retries.
Timeouts of Hello Interests and failed registrations count alike, a reply sets the count to 0, and
a lost face sets it to the number of retries and makes the neighbour INACTIVE at once.

* `neighborTurn_step`: what an event makes of a neighbour.
* `BelowRetries`: the count of an ACTIVE neighbour is below the number of retries, so it cannot
  step over it.
* `silent_neighbor`: as many timeouts and failures as there are retries, with no reply in between,
  turn an ACTIVE neighbour INACTIVE.
-/

namespace LinkState

open HelloProtocol

/-! ## What an event makes of a neighbour -/

namespace Event

/-- A validated reply of the neighbour. -/
def replies (n : Name) : Event → Bool
  | .helloValidated dataName =>
    fromEnd dataName 3 = some infoComponent ∧ dropLast dataName 4 = n
  | _ => false

/-- An Interest to the neighbour that timed out, or a registration for it that failed. -/
def misses (n : Name) : Event → Bool
  | .helloTimedOut interestName =>
    fromEnd interestName 2 = some infoComponent ∧ dropLast interestName 3 = n
  | .registrationFailure neighbor => neighbor = n
  | _ => false

/-- An event of the Hello protocol. -/
def isHello : Event → Bool
  | .helloTimedOut _ | .helloValidated _ | .registrationSuccess .. | .registrationFailure _
  | .faceDestroyed _ => true
  | _ => false

end Event

/-- What an event makes of a neighbour, with `r` retries. -/
inductive NeighborTurn (r : UInt32) (n : Name) (e : Event) (a b : Adjacent) : Prop
  | replied (h : e.replies n) (hstatus : b.status = .active) (hcount : b.interestTimedOutNo = 0)
  | missed (h : ¬ e.replies n) (h' : e.misses n)
      (hcount : b.interestTimedOutNo = a.interestTimedOutNo + 1)
      (hstatus : b.status =
        if a.status = .active ∧ a.interestTimedOutNo + 1 = r then .inactive else a.status)
  | lost (h : ¬ e.replies n) (h' : ¬ e.misses n) (hactive : a.status = .active)
      (hstatus : b.status = .inactive) (hcount : b.interestTimedOutNo = r)
  | kept (h : ¬ e.replies n) (h' : ¬ e.misses n) (hstatus : b.status = a.status)
      (hcount : b.interestTimedOutNo = a.interestTimedOutNo)

/-- A count that is below the number of retries and does not reach it stays below. -/
theorem count_add_one_lt {count r : UInt32} (h : count < r) (hne : count + 1 ≠ r) :
    count + 1 < r := by
  rw [UInt32.lt_iff_toNat_lt] at h ⊢
  rw [Ne, ← UInt32.toNat_inj] at hne
  have hmax := r.toNat_lt
  rw [UInt32.toNat_add] at hne ⊢
  simp only [UInt32.reduceToNat] at hne ⊢
  omega

theorem NeighborTurn.below {r : UInt32} (hr : 0 < r) {n : Name} {e : Event} {a b : Adjacent}
    (h : NeighborTurn r n e a b) (ha : a.status = .active → a.interestTimedOutNo < r)
    (hactive : b.status = .active) : b.interestTimedOutNo < r := by
  cases h with
  | replied _ _ hcount =>
    rw [hcount]
    exact hr
  | missed _ _ hcount hstatus =>
    rw [hcount]
    rw [hactive] at hstatus
    split_ifs at hstatus with hturn
    exact count_add_one_lt (ha hstatus.symm) fun hr => hturn ⟨hstatus.symm, hr⟩
  | lost _ _ _ hstatus => exact absurd (hstatus.symm.trans hactive) (by decide)
  | kept _ _ hstatus hcount =>
    rw [hcount]
    exact ha (hstatus.symm.trans hactive)

/-- A neighbour that is no longer ACTIVE is INACTIVE. -/
theorem NeighborTurn.inactive {r : UInt32} {n : Name} {e : Event} {a b : Adjacent}
    (h : NeighborTurn r n e a b) (ha : a.status = .active) (hb : b.status ≠ .active) :
    b.status = .inactive := by
  cases h with
  | replied _ hstatus => exact absurd hstatus hb
  | missed _ _ _ hstatus =>
    split_ifs at hstatus
    · exact hstatus
    · exact absurd (hstatus.trans ha) hb
  | lost _ _ _ hstatus => exact hstatus
  | kept _ _ hstatus => exact absurd (hstatus.trans ha) hb

/-- Where the neighbour stays ACTIVE without a reply, its count is that of the misses. -/
theorem NeighborTurn.count {r : UInt32} {n : Name} {e : Event} {a b : Adjacent}
    (h : NeighborTurn r n e a b) (hquiet : ¬ e.replies n) (hlt : a.interestTimedOutNo < r)
    (hb : b.status = .active) :
    b.interestTimedOutNo.toNat = a.interestTimedOutNo.toNat + if e.misses n then 1 else 0 := by
  cases h with
  | replied h => exact absurd h hquiet
  | missed _ hmisses hcount =>
    have hmax := r.toNat_lt
    have hlt' := UInt32.lt_iff_toNat_lt.1 hlt
    rw [hcount, if_pos hmisses, UInt32.toNat_add]
    simp only [UInt32.reduceToNat]
    omega
  | lost _ _ _ hstatus => exact absurd (hstatus.symm.trans hb) (by decide)
  | kept _ hmisses _ hcount => rw [hcount, if_neg hmisses, Nat.add_zero]

namespace AdjacencyList

theorem find?_modify_of_ne {l : AdjacencyList} {n neighbor : Name} {f : Adjacent → Adjacent}
    (hname : ∀ a, (f a).name = a.name) (h : n ≠ neighbor) :
    (l.modify neighbor f).find? n = l.find? n := by
  unfold modify
  cases hfind : l.find? neighbor with
  | none => rfl
  | some a =>
    have hkey : (f a).name = neighbor := (hname a).trans (KeyedList.key_of_find? hfind)
    rw [KeyedList.find?_replace, hkey, if_neg h]

theorem find?_setStatusOfNeighbor_of_ne {l : AdjacencyList} {n neighbor : Name} (status : Status)
    (h : n ≠ neighbor) : (l.setStatusOfNeighbor neighbor status).find? n = l.find? n :=
  find?_modify_of_ne (fun _ => rfl) h

theorem find?_setTimedOutInterestCount_of_ne {l : AdjacencyList} {n neighbor : Name}
    (count : UInt32) (h : n ≠ neighbor) :
    (l.setTimedOutInterestCount neighbor count).find? n = l.find? n :=
  find?_modify_of_ne (fun _ => rfl) h

end AdjacencyList

namespace Nlsr

/-- The turn of the neighbour from one state to another, if there is such a neighbour. -/
def TurnOf (r : UInt32) (n : Name) (e : Event) (s t : Nlsr) : Prop :=
  Option.Rel (NeighborTurn r n e) (s.adjacencyList.find? n) (t.adjacencyList.find? n)

theorem turnOf_of_find?_eq {r : UInt32} {n : Name} {e : Event} {s t : Nlsr} (h : ¬ e.replies n)
    (h' : ¬ e.misses n) (hfind : t.adjacencyList.find? n = s.adjacencyList.find? n) :
    TurnOf r n e s t := by
  rw [TurnOf, hfind]
  cases s.adjacencyList.find? n with
  | none => exact .none
  | some a => exact .some (.kept h h' rfl rfl)

theorem turnOf_of_sameLists {r : UInt32} {n : Name} {e : Event} {s t : Nlsr} (h : ¬ e.replies n)
    (h' : ¬ e.misses n) (hlists : SameLists s t) : TurnOf r n e s t :=
  turnOf_of_find?_eq h h' (congrArg (KeyedList.find? · n) hlists.adjacencyList)

theorem turnOf_replied {r : UInt32} {n : Name} {e : Event} {s t : Nlsr} (h : e.replies n)
    {f : Adjacent → Adjacent} (hfind : t.adjacencyList.find? n = (s.adjacencyList.find? n).map f)
    (hf : ∀ a, (f a).status = .active ∧ (f a).interestTimedOutNo = 0) : TurnOf r n e s t := by
  rw [TurnOf, hfind]
  cases s.adjacencyList.find? n with
  | none => exact .none
  | some a => exact .some (.replied h (hf a).1 (hf a).2)

theorem turnOf_onHelloValidated (r : UInt32) (n : Name) (s : Nlsr) (dataName : Name) :
    TurnOf r n (.helloValidated dataName) s (s.onHelloValidated dataName) := by
  let neighbor := dropLast dataName 4
  let l := (s.adjacencyList.setStatusOfNeighbor neighbor .active).setTimedOutInterestCount
    neighbor 0
  by_cases hinfo : fromEnd dataName 3 = some infoComponent
  · have hlist : (s.onHelloValidated dataName).adjacencyList = l := by
      unfold onHelloValidated
      rw [if_pos hinfo]
      dsimp only
      split_ifs
      · exact (scheduleAdjLsaBuild_requests _).1
      · rfl
    by_cases hn : neighbor = n
    · subst hn
      refine turnOf_replied (f := fun a => { a with status := .active, interestTimedOutNo := 0 })
        (by simp [Event.replies, hinfo, neighbor]) ?_ fun a => ⟨rfl, rfl⟩
      rw [hlist, AdjacencyList.find?_setTimedOutInterestCount,
        AdjacencyList.find?_setStatusOfNeighbor, Option.map_map]
      rfl
    · refine turnOf_of_find?_eq (by simpa [Event.replies, hinfo] using hn) nofun ?_
      rw [hlist]
      exact (AdjacencyList.find?_setTimedOutInterestCount_of_ne 0 (Ne.symm hn)).trans
        (AdjacencyList.find?_setStatusOfNeighbor_of_ne .active (Ne.symm hn))
  · have hsame : s.onHelloValidated dataName = s := if_neg hinfo
    rw [hsame]
    exact turnOf_of_sameLists (by simp [Event.replies, hinfo]) nofun (.refl s)

/-- What a missed reply makes of a neighbour. -/
def missed (r : UInt32) (a : Adjacent) : Adjacent :=
  { a with
    interestTimedOutNo := a.interestTimedOutNo + 1
    status := if a.status = .active ∧ a.interestTimedOutNo + 1 = r then .inactive else a.status }

theorem turnOf_missed {r : UInt32} {n : Name} {e : Event} {s t : Nlsr} (h : ¬ e.replies n)
    (h' : e.misses n)
    (hfind : t.adjacencyList.find? n = (s.adjacencyList.find? n).map (missed r)) :
    TurnOf r n e s t := by
  rw [TurnOf, hfind]
  cases s.adjacencyList.find? n with
  | none => exact .none
  | some a => exact .some (.missed h h' rfl rfl)

/-- The list after a timeout. -/
theorem find?_processInterestTimedOut {s : Nlsr} {interestName : Name}
    (hinfo : fromEnd interestName 2 = some infoComponent) (n : Name) :
    (s.processInterestTimedOut interestName).adjacencyList.find? n =
      if n = dropLast interestName 3 then
        (s.adjacencyList.find? n).map (missed s.confParam.interestRetryNumber)
      else s.adjacencyList.find? n := by
  let neighbor := dropLast interestName 3
  let r := s.confParam.interestRetryNumber
  let l := s.adjacencyList.incrementTimedOutInterestCount neighbor
  have hinfo' : ¬ fromEnd interestName 2 ≠ some infoComponent := fun h => h hinfo
  have hlist : (s.processInterestTimedOut interestName).adjacencyList =
      if l.getStatusOfNeighbor neighbor = .active ∧ l.getTimedOutInterestCount neighbor = r then
        l.setStatusOfNeighbor neighbor .inactive
      else l := by
    unfold processInterestTimedOut
    rw [if_neg hinfo']
    dsimp only
    split_ifs with hlt hturn hturn hturn' hturn'
    · exact absurd hturn.2 (UInt32.ne_of_lt hlt)
    · rfl
    · exact (scheduleAdjLsaBuild_requests _).1
    · exact absurd hturn hturn'
    · exact absurd hturn' hturn
    · rfl
  have hl : l.find? neighbor = (s.adjacencyList.find? neighbor).map fun a =>
      { a with interestTimedOutNo := a.interestTimedOutNo + 1 } :=
    AdjacencyList.find?_modify fun _ => rfl
  rw [hlist]
  by_cases hn : n = neighbor
  · subst hn
    rw [if_pos rfl]
    cases ha : s.adjacencyList.find? neighbor with
    | none =>
      rw [ha] at hl
      have hstatus : l.getStatusOfNeighbor neighbor = .unknown := by
        rw [AdjacencyList.getStatusOfNeighbor, hl]
        rfl
      rw [if_neg fun h => absurd (hstatus.symm.trans h.1) (by decide)]
      exact hl
    | some a =>
      rw [ha] at hl
      have hstatus : l.getStatusOfNeighbor neighbor = a.status := by
        rw [AdjacencyList.getStatusOfNeighbor, hl]
        rfl
      have hcount : l.getTimedOutInterestCount neighbor = a.interestTimedOutNo + 1 := by
        rw [AdjacencyList.getTimedOutInterestCount, hl]
        rfl
      rw [hstatus, hcount]
      by_cases hr : a.status = .active ∧ a.interestTimedOutNo + 1 = r
      · rw [if_pos hr, AdjacencyList.find?_setStatusOfNeighbor, hl]
        simp [missed, hr, r]
      · rw [if_neg hr, hl]
        simp [missed, r, hr]
  · rw [if_neg hn]
    have hle : l.find? n = s.adjacencyList.find? n :=
      AdjacencyList.find?_modify_of_ne (fun _ => rfl) hn
    split_ifs
    · exact (AdjacencyList.find?_setStatusOfNeighbor_of_ne .inactive hn).trans hle
    · exact hle

theorem turnOf_processInterestTimedOut (n : Name) (s : Nlsr) (interestName : Name) :
    TurnOf s.confParam.interestRetryNumber n (.helloTimedOut interestName) s
      (s.processInterestTimedOut interestName) := by
  by_cases hinfo : fromEnd interestName 2 = some infoComponent
  · have hfind := find?_processInterestTimedOut (s := s) hinfo n
    by_cases hn : n = dropLast interestName 3
    · rw [if_pos hn] at hfind
      exact turnOf_missed nofun (by simp [Event.misses, hinfo, hn]) hfind
    · rw [if_neg hn] at hfind
      exact turnOf_of_find?_eq nofun (by simp [Event.misses, Ne.symm hn]) hfind
  · have hsame : s.processInterestTimedOut interestName = s := if_pos hinfo
    rw [hsame]
    exact turnOf_of_sameLists nofun (by simp [Event.misses, hinfo]) (.refl s)

theorem turnOf_onRegistrationFailure (n : Name) (s : Nlsr) (neighbor : Name) :
    TurnOf s.confParam.interestRetryNumber n (.registrationFailure neighbor) s
      (s.onRegistrationFailure neighbor) := by
  let r := s.confParam.interestRetryNumber
  unfold onRegistrationFailure
  cases ha : s.adjacencyList.find? neighbor with
  | none =>
    by_cases hn : neighbor = n
    · subst hn
      exact turnOf_missed nofun (by simp [Event.misses]) (by simp [ha])
    · exact turnOf_of_sameLists nofun (by simpa [Event.misses] using hn) (.refl s)
  | some a =>
    have hname : a.name = neighbor := KeyedList.key_of_find? ha
    have hlist : ∀ t : Nlsr, t.adjacencyList = s.adjacencyList.replace (missed r a) →
        TurnOf r n (.registrationFailure neighbor) s t := by
      intro t ht
      have hkey : (missed r a).name = neighbor := hname
      by_cases hn : neighbor = n
      · subst hn
        refine turnOf_missed nofun (by simp [Event.misses]) ?_
        rw [ht, KeyedList.find?_replace, if_pos hkey.symm, ha]
        rfl
      · refine turnOf_of_find?_eq nofun (by simpa [Event.misses] using hn) ?_
        rw [ht, KeyedList.find?_replace, hkey, if_neg (Ne.symm hn)]
    dsimp only
    split_ifs with hr hactive
    · exact hlist _ ((scheduleAdjLsaBuild_requests _).1.trans
        (congrArg s.adjacencyList.replace (by simp [missed, r, hr, hactive])))
    · exact hlist _ ((scheduleAdjLsaBuild_requests _).1.trans
        (congrArg s.adjacencyList.replace (by simp [missed, hactive])))
    · exact hlist _ (congrArg s.adjacencyList.replace (by simp [missed, r, hr]))

theorem turnOf_onFaceDestroyed (n : Name) (s : Nlsr) (faceId : UInt64) :
    TurnOf s.confParam.interestRetryNumber n (.faceDestroyed faceId) s
      (s.onFaceDestroyed faceId) := by
  unfold onFaceDestroyed
  cases h : s.adjacencyList.findAdjacentByFaceId faceId with
  | none => exact turnOf_of_sameLists nofun nofun (.refl s)
  | some a =>
    have ha : s.adjacencyList.find? a.name = some a :=
      KeyedList.find?_of_mem (List.mem_of_find?_eq_some h)
    have hlist : ∀ b : Adjacent, b.name = a.name → NeighborTurn s.confParam.interestRetryNumber
        a.name (.faceDestroyed faceId) a b → ∀ t : Nlsr,
          t.adjacencyList = s.adjacencyList.replace b →
            TurnOf s.confParam.interestRetryNumber n (.faceDestroyed faceId) s t := by
      intro b hb hturn t ht
      by_cases hn : a.name = n
      · subst hn
        rw [TurnOf, ht, KeyedList.find?_replace, if_pos hb.symm, ha]
        exact .some hturn
      · refine turnOf_of_find?_eq nofun nofun ?_
        rw [ht, KeyedList.find?_replace, hb, if_neg (Ne.symm hn)]
    dsimp only
    split_ifs with hactive
    · exact hlist { a with
        faceId := 0, status := .inactive, interestTimedOutNo := s.confParam.interestRetryNumber }
        rfl (.lost nofun nofun hactive rfl rfl) _ (scheduleAdjLsaBuild_requests _).1
    · exact hlist { a with faceId := 0 } rfl (.kept nofun nofun rfl rfl) _ rfl

theorem turnOf_onRegistrationSuccess (r : UInt32) (n : Name) (s : Nlsr) (neighbor : Name)
    (faceId : UInt64) : TurnOf r n (.registrationSuccess neighbor faceId) s
      (s.onRegistrationSuccess neighbor faceId) := by
  unfold onRegistrationSuccess
  cases ha : s.adjacencyList.find? neighbor with
  | none => exact turnOf_of_sameLists nofun nofun (.refl s)
  | some a =>
    have hname : a.name = neighbor := KeyedList.key_of_find? ha
    let t := s.setAdjacencyList (s.adjacencyList.replace { a with faceId })
    have ht : TurnOf r n (.registrationSuccess neighbor faceId) s t := by
      by_cases hn : neighbor = n
      · subst hn
        show Option.Rel _ _ ((s.adjacencyList.replace { a with faceId }).find? neighbor)
        rw [KeyedList.find?_replace, if_pos hname.symm, ha]
        exact .some (.kept nofun nofun rfl rfl)
      · refine turnOf_of_find?_eq nofun nofun ?_
        show (s.adjacencyList.replace { a with faceId }).find? n = _
        rw [KeyedList.find?_replace, hname, if_neg (Ne.symm hn)]
    -- The registrations that follow are commands
    have hsent := fun (u : Nlsr) name uri cost timeout times =>
      (onlySent_registerPrefix u name uri cost timeout times).onlyFib.sameLists.adjacencyList
    dsimp only
    rw [TurnOf, hsent, hsent, hsent]
    exact ht

/-- Only the Hello protocol changes the neighbours. -/
theorem adjacencyList_step (math : MathLib) (s : Nlsr) {e : Event} (h : ¬ e.isHello) :
    (s.step math e).adjacencyList = s.adjacencyList := by
  cases e with
  | installNameLsa nlsa => exact (onlyLsdb_installNameLsa s _).sameLists.adjacencyList
  | installAdjLsa alsa => exact (onlyLsdb_installAdjLsa s _).sameLists.adjacencyList
  | installCoordinateLsa clsa =>
    exact (onlyLsdb_installCoordinateLsa s _).sameLists.adjacencyList
  | removeNameLsa key => exact (onlyLsdb_removeNameLsa s key).sameLists.adjacencyList
  | removeAdjLsa key => exact (onlyLsdb_removeAdjLsa s key).sameLists.adjacencyList
  | removeCoordinateLsa key => exact (onlyLsdb_removeCoordinateLsa s key).sameLists.adjacencyList
  | fire id => exact (sameLists_fire math s id).adjacencyList
  | buildAndInstallOwnNameLsa => exact (sameLists_buildAndInstallOwnNameLsa s).adjacencyList
  | buildAndInstallOwnCoordinateLsa =>
    exact (sameLists_buildAndInstallOwnCoordinateLsa s).adjacencyList
  | publishRoutingUpdate => rfl
  | scheduleAdjLsaBuild => exact (scheduleAdjLsaBuild_requests s).1
  | advertise name =>
    show (s.advertise name).adjacencyList = _
    unfold advertise
    split_ifs
    · rfl
    · exact (sameLists_buildAndInstallOwnNameLsa _).adjacencyList
  | withdraw name =>
    show (s.withdraw name).adjacencyList = _
    unfold withdraw
    split_ifs
    · exact (sameLists_buildAndInstallOwnNameLsa _).adjacencyList
    · rfl
  | clock now => rfl
  | helloTimedOut | helloValidated | registrationSuccess | registrationFailure | faceDestroyed =>
    exact absurd rfl h

theorem helloTurn_step (math : MathLib) (s : Nlsr) {e : Event} (h : e.isHello) :
    HelloTurn s (s.step math e) := by
  cases e with
  | helloTimedOut interestName => exact helloTurn_processInterestTimedOut s interestName
  | helloValidated dataName => exact helloTurn_onHelloValidated s dataName
  | registrationSuccess neighbor faceId => exact helloTurn_onRegistrationSuccess s neighbor faceId
  | registrationFailure neighbor => exact helloTurn_onRegistrationFailure s neighbor
  | faceDestroyed faceId => exact helloTurn_onFaceDestroyed s faceId
  | _ => exact absurd h Bool.false_ne_true

/-- **What an event makes of a neighbour.** -/
theorem neighborTurn_step (math : MathLib) (s : Nlsr) (e : Event) (n : Name) :
    TurnOf s.confParam.interestRetryNumber n e s (s.step math e) := by
  by_cases h : e.isHello
  · cases e with
    | helloTimedOut interestName => exact turnOf_processInterestTimedOut n s interestName
    | helloValidated dataName => exact turnOf_onHelloValidated _ n s dataName
    | registrationSuccess neighbor faceId =>
      exact turnOf_onRegistrationSuccess _ n s neighbor faceId
    | registrationFailure neighbor => exact turnOf_onRegistrationFailure n s neighbor
    | faceDestroyed faceId => exact turnOf_onFaceDestroyed n s faceId
    | _ => exact absurd h Bool.false_ne_true
  · have hevent : ¬ e.replies n ∧ ¬ e.misses n := by
      cases e <;> simp_all [Event.isHello, Event.replies, Event.misses]
    exact turnOf_of_find?_eq hevent.1 hevent.2
      (congrArg (KeyedList.find? · n) (adjacencyList_step math s h))

/-! ## The count of an ACTIVE neighbour -/

/-- The count of an ACTIVE neighbour is below the number of retries. -/
def BelowRetries (s : Nlsr) : Prop :=
  ∀ a ∈ s.adjacencyList, a.status = .active →
    a.interestTimedOutNo < s.confParam.interestRetryNumber

/-- **No event lets an ACTIVE neighbour reach the number of retries.** -/
theorem belowRetries_step (math : MathLib) {s : Nlsr} (hr : 0 < s.confParam.interestRetryNumber)
    (hs : s.BelowRetries) (e : Event) : (s.step math e).BelowRetries := by
  intro b hb hactive
  have hturn := neighborTurn_step math s e b.name
  rw [TurnOf, KeyedList.find?_of_mem hb] at hturn
  rw [confParam_step]
  cases hfind : s.adjacencyList.find? b.name with
  | none =>
    rw [hfind] at hturn
    cases hturn
  | some a =>
    rw [hfind] at hturn
    cases hturn with
    | some h => exact h.below hr (hs a (KeyedList.mem_of_find? hfind)) hactive

/-! ## A run without a reply -/

/-- The neighbour is there with this status. -/
def HasStatus (s : Nlsr) (n : Name) (status : Status) : Prop :=
  ∃ a, s.adjacencyList.find? n = some a ∧ a.status = status

/-- The turn of a neighbour that is there. -/
theorem exists_neighborTurn (math : MathLib) {s : Nlsr} {n : Name} {a : Adjacent}
    (ha : s.adjacencyList.find? n = some a) (e : Event) :
    ∃ b, (s.step math e).adjacencyList.find? n = some b ∧
      NeighborTurn s.confParam.interestRetryNumber n e a b := by
  have hturn := neighborTurn_step math s e n
  rw [TurnOf, ha] at hturn
  cases hb : (s.step math e).adjacencyList.find? n with
  | none =>
    rw [hb] at hturn
    cases hturn
  | some b =>
    rw [hb] at hturn
    cases hturn with
    | some h => exact ⟨b, rfl, h⟩

/-- Without a reply an INACTIVE neighbour stays INACTIVE. -/
theorem inactive_run (math : MathLib) {n : Name} {s : Nlsr} (hs : s.HasStatus n .inactive)
    {es : List Event} (hquiet : ∀ e ∈ es, ¬ e.replies n) :
    (run (step math) s es).HasStatus n .inactive := by
  induction es generalizing s with
  | nil => exact hs
  | cons e es ih =>
    obtain ⟨a, ha, hstatus⟩ := hs
    obtain ⟨b, hb, hturn⟩ := exists_neighborTurn math ha e
    refine ih ⟨b, hb, ?_⟩ fun e he => hquiet e (List.mem_cons_of_mem _ he)
    cases hturn with
    | replied h => exact absurd h (hquiet e List.mem_cons_self)
    | missed _ _ _ hb => rw [hb, if_neg fun h => by simp [hstatus] at h, hstatus]
    | lost _ _ _ hb => exact hb
    | kept _ _ hb => rw [hb, hstatus]

/-- An event that changes the status of a neighbour requests a build. -/
theorem requests_of_status_ne (math : MathLib) {s : Nlsr} {e : Event} {n : Name} {a b : Adjacent}
    (ha : s.adjacencyList.find? n = some a) (hb : (s.step math e).adjacencyList.find? n = some b)
    (hne : b.status ≠ a.status) :
    (s.step math e).isBuildAdjLsaSheduled = true ∧
      (s.step math e).adjBuildCount = s.adjBuildCount + 1 := by
  have hhello : e.isHello := by
    by_contra h
    rw [adjacencyList_step math s h, ha] at hb
    exact hne (congrArg Adjacent.status (Option.some.inj hb.symm))
  refine (helloTurn_step math s hhello).requests.resolve_left fun hsame => hne ?_
  have hagree := hsame.1 n
  rw [ha, hb] at hagree
  exact Option.some.inj hagree

/-- An event turns the neighbour INACTIVE and requests a build. -/
structure TurnsInactive (n : Name) (s t : Nlsr) : Prop where
  active : s.HasStatus n .active
  inactive : t.HasStatus n .inactive
  isBuildAdjLsaSheduled : t.isBuildAdjLsaSheduled = true
  adjBuildCount : t.adjBuildCount = s.adjBuildCount + 1

/-- **Misses turn an ACTIVE neighbour INACTIVE**: the ones it has counted and the ones that follow
are not as many as there are retries before that. -/
theorem exists_turnsInactive (math : MathLib) {n : Name} {s : Nlsr} (hs : s.BelowRetries)
    (hr : 0 < s.confParam.interestRetryNumber) {a : Adjacent}
    (ha : s.adjacencyList.find? n = some a) (hactive : a.status = .active) {es : List Event}
    (hquiet : ∀ e ∈ es, ¬ e.replies n)
    (hmisses : s.confParam.interestRetryNumber.toNat ≤
      a.interestTimedOutNo.toNat + es.countP (Event.misses n)) :
    ∃ es₁ e es₂, es = es₁ ++ e :: es₂ ∧
      a.interestTimedOutNo.toNat + es₁.countP (Event.misses n) <
        s.confParam.interestRetryNumber.toNat ∧
      TurnsInactive n (run (step math) s es₁) ((run (step math) s es₁).step math e) := by
  have hbelow : a.interestTimedOutNo.toNat < s.confParam.interestRetryNumber.toNat :=
    UInt32.lt_iff_toNat_lt.1 (hs a (KeyedList.mem_of_find? ha) hactive)
  induction es generalizing s a with
  | nil =>
    rw [List.countP_nil] at hmisses
    omega
  | cons e es ih =>
    obtain ⟨b, hb, hturn⟩ := exists_neighborTurn math ha e
    have hconf : (s.step math e).confParam = s.confParam := confParam_step math s e
    by_cases hb' : b.status = .active
    · -- The neighbour stays ACTIVE, and a miss is counted
      have hlt : a.interestTimedOutNo < s.confParam.interestRetryNumber :=
        UInt32.lt_iff_toNat_lt.2 hbelow
      have hcount := hturn.count (hquiet e List.mem_cons_self) hlt hb'
      have hs' := belowRetries_step math hr hs e
      have hr' : 0 < (s.step math e).confParam.interestRetryNumber := hconf ▸ hr
      obtain ⟨es₁, e', es₂, heq, hlow, hturns⟩ := ih hs' hr' hb hb'
        (fun e he => hquiet e (List.mem_cons_of_mem _ he))
        (by rw [hconf, hcount]; rw [List.countP_cons] at hmisses; omega)
        (UInt32.lt_iff_toNat_lt.1 (hs' b (KeyedList.mem_of_find? hb) hb'))
      refine ⟨e :: es₁, e', es₂, by rw [heq, List.cons_append], ?_, hturns⟩
      rw [hconf, hcount] at hlow
      rw [List.countP_cons]
      omega
    · have hrequests := requests_of_status_ne math ha hb fun h => hb' (h.trans hactive)
      exact ⟨[], e, es, rfl, by simpa using hbelow, ⟨a, ha, hactive⟩,
        ⟨b, hb, hturn.inactive hactive hb'⟩, hrequests.1, hrequests.2⟩

/-! ## Every run -/

theorem belowRetries_initializeNlsr (confParam : ConfParameter) {adjacencyList : AdjacencyList}
    (namePrefixList : NamePrefixList) (seqFile : Option UInt64) (now : TimePoint)
    (hinactive : ∀ a ∈ adjacencyList, a.status ≠ .active) :
    (start confParam adjacencyList namePrefixList seqFile now).initializeNlsr.BelowRetries := by
  intro a ha hactive
  have hlist := (sameRequests_initializeNlsr confParam adjacencyList namePrefixList seqFile
    now).1.adjacencyList
  rw [hlist] at ha
  change a ∈ configuredNeighbors confParam adjacencyList at ha
  unfold configuredNeighbors at ha
  split_ifs at ha
  · obtain ⟨b, hb, rfl⟩ := KeyedList.mem_mapValues.1 ha
    exact absurd hactive (hinactive b hb)
  · exact absurd hactive (hinactive a ha)

/-- **A silent neighbour does not stay ACTIVE.** In every state of a run the count of an ACTIVE
neighbour is below the number of retries. As many timeouts and failed registrations as there are
retries, with no reply in between, turn an ACTIVE neighbour INACTIVE and request a build: one of
them does, or the loss of the face before that. -/
theorem silent_neighbor (math : MathLib) (confParam : ConfParameter)
    {adjacencyList : AdjacencyList} (namePrefixList : NamePrefixList) (seqFile : Option UInt64)
    (now : TimePoint) (hr : 1 ≤ confParam.interestRetryNumber)
    (hinactive : ∀ a ∈ adjacencyList, a.status ≠ .active) (es : List Event) :
    let s := (start confParam adjacencyList namePrefixList seqFile now).initializeNlsr
    Along (step math) BelowRetries s es ∧
      ∀ n before silent, es = before ++ silent →
        (run (step math) s before).HasStatus n .active → (∀ e ∈ silent, ¬ e.replies n) →
        confParam.interestRetryNumber.toNat ≤ silent.countP (Event.misses n) →
        ∃ es₁ e es₂, silent = es₁ ++ e :: es₂ ∧
          es₁.countP (Event.misses n) < confParam.interestRetryNumber.toNat ∧
          TurnsInactive n (run (step math) s (before ++ es₁))
            ((run (step math) s (before ++ es₁)).step math e) ∧
          (run (step math) s es).HasStatus n .inactive := by
  intro s
  let P : Nlsr → Prop := fun s => s.confParam = confParam ∧ s.BelowRetries
  have hstep : ∀ s e, P s → P (s.step math e) := fun s e hs =>
    ⟨(confParam_step math s e).trans hs.1, belowRetries_step math (hs.1.symm ▸ hr) hs.2 e⟩
  have hinit : P s := ⟨confParam_initializeNlsr confParam adjacencyList namePrefixList seqFile now,
    belowRetries_initializeNlsr confParam namePrefixList seqFile now hinactive⟩
  refine ⟨(along_of_step hstep hinit es).imp fun _ hs => hs.2, ?_⟩
  rintro n before silent rfl ⟨a, ha, hactive⟩ hquiet hmisses
  have hu : P (run (step math) s before) := run_induction hstep hinit before
  obtain ⟨es₁, e, es₂, rfl, hlow, hturns⟩ := exists_turnsInactive math hu.2 (hu.1.symm ▸ hr) ha
    hactive hquiet (hu.1.symm ▸ le_add_left hmisses)
  rw [hu.1] at hlow
  rw [← run_append] at hturns
  refine ⟨es₁, e, es₂, rfl, by omega, hturns, ?_⟩
  rw [← List.append_assoc, run_append, run_cons]
  exact inactive_run math hturns.inactive fun e' he' => hquiet e' (by simp [he'])

/-- The neighbour `/b`, as configured. -/
def oneSilent : AdjacencyList := KeyedList.empty.insert { name := [⟨"b"⟩] }

/-- It replies, an Interest times out, a registration fails. -/
def goesSilent : List Event :=
  [.helloValidated [⟨"b"⟩, ⟨"NLSR"⟩, ⟨"INFO"⟩, ⟨"a"⟩, ⟨"v"⟩],
    .helloTimedOut [⟨"b"⟩, ⟨"NLSR"⟩, ⟨"INFO"⟩, ⟨"a"⟩], .registrationFailure [⟨"b"⟩]]

theorem silent_neighbor_goesSilent :
    (run (step ⟨0, id, id, id, id⟩) (start { network := [⟨"a"⟩], interestRetryNumber := 2 }
      oneSilent KeyedList.empty none 0).initializeNlsr goesSilent).HasStatus [⟨"b"⟩] .inactive := by
  have hinactive : ∀ a ∈ oneSilent, a.status ≠ .active := by
    simp [oneSilent, KeyedList.mem_insert]
  obtain ⟨-, h⟩ := silent_neighbor ⟨0, id, id, id, id⟩
    { network := [⟨"a"⟩], interestRetryNumber := 2 } KeyedList.empty none 0 (by decide) hinactive
    goesSilent
  obtain ⟨-, -, -, -, -, -, h⟩ := h [⟨"b"⟩] (goesSilent.take 1) (goesSilent.drop 1) rfl
    ⟨{ name := [⟨"b"⟩], status := .active }, by decide +kernel, rfl⟩ (by decide +kernel)
    (by decide +kernel)
  exact h

end Nlsr

end LinkState
