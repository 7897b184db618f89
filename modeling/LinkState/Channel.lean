import LinkState.Advertised
import LinkState.Reading
import LinkState.Serving

/-!
# An origin and a receiver

A router serves the LSAs it builds; another router of the network gets what was served, late,
out of order, more than once or not at all, and patches what it has stored with it.

`receiver_agrees`: whatever the order, an LSA of the origin that the receiver stores says what the
origin wrote under its number, and while the receiver keeps it its number never goes down.
-/

namespace LinkState

open SequencingManager

namespace Nlsr

/-! ## What an origin serves -/

/-- **No event changes the links of a neighbour.** -/
theorem links_step (math : MathLib) {s : Nlsr} (hs : s.lsdb.thisRouterPrefix = s.routerPrefix)
    {e : Event} (he : s.ArrivesForeign e) :
    s.adjacencyList.Agree Adjacent.triple (s.step math e).adjacencyList := by
  by_cases hremove : e = .removeAdjLsa (AdjLsa.key s.routerPrefix)
  · subst hremove
    have h : (s.step math (.removeAdjLsa (AdjLsa.key s.routerPrefix))).adjacencyList =
        s.adjacencyList := (onlyLsdb_removeAdjLsa s _).sameRequests.adjacencyList
    rw [h]
    exact KeyedList.Agree.refl _ _
  · rcases advertising_cases math hs ⟨he, hremove⟩ with ⟨hsame, -⟩ | hturn | ⟨id, rfl, hid⟩
    · rw [hsame.adjacencyList]
      exact KeyedList.Agree.refl _ _
    · exact hturn.links
    · rw [fire_buildAdjLsa math hid, (sameLists_buildAdjLsa _).adjacencyList]
      exact KeyedList.Agree.refl _ _

/-- The origin can write down its own LSAs. -/
structure Writes (s : Nlsr) : Prop where
  uris : s.adjacencyList.UrisAreFields
  own : ∀ c l, s.lsaOf c s.routerPrefix = some l → l.Plain s.confParam

theorem plain_of_builds {s : Nlsr} (huris : s.adjacencyList.UrisAreFields) {l : AnyLsa}
    (h : s.Builds l) : l.Plain s.confParam := by
  cases l with
  | name l => trivial
  | adj l =>
    obtain rfl : l = s.ownAdjLsa := h
    intro a ha
    rw [ownAdjLsa, AdjLsa.make_eq] at ha
    exact huris a (KeyedList.mem_filter.1 ha).1
  | coordinate l =>
    obtain rfl : l = s.ownCoordinateLsa := h
    exact ⟨rfl, rfl⟩

theorem notFrom_of_arrivesForeign {s : Nlsr} {e : Event} (h : s.ArrivesForeign e) :
    NotFrom s.routerPrefix e := by
  cases e <;> exact h

theorem writes_step (math : MathLib) {s : Nlsr} (hpfx : s.lsdb.thisRouterPrefix = s.routerPrefix)
    (hs : s.Writes) {e : Event} (he : s.ArrivesForeign e) : (s.step math e).Writes := by
  have hconf := confParam_step math s e
  have hrp : (s.step math e).routerPrefix = s.routerPrefix :=
    congrArg ConfParameter.routerPrefix hconf
  refine ⟨fun a ha => ?_, fun c l' hl' => ?_⟩
  · obtain ⟨b, hb, -, htriple⟩ := (links_step math hpfx he).symm.exists_mem ha
    have huri : b.connectingFaceUri = a.connectingFaceUri := congrArg (fun p => p.2.1) htriple
    rw [← huri]
    exact hs.uris b hb
  · rw [hconf]
    rw [hrp] at hl'
    have hbuilds : ∀ l, s.opOf e = .install l → s.routerPrefix = l.origRouter →
        l.Plain s.confParam := fun l hop ho =>
      plain_of_builds hs.uris (builds_of_opOf hop (ho ▸ notFrom_of_arrivesForeign he))
    cases lsaChange_step math s e hl' with
    | kept h => exact hs.own c l' h
    | installed hop hc ho h => exact hbuilds l' hop ho
    | updated l chk eid hop hc ho h hlt heq =>
      rw [heq]
      exact (hs.own c chk h).updated (hbuilds l hop ho) (hc ▸ (counter_of_lsaOf h).symm) eid
    | refreshed chk t eid h hop heq =>
      rw [heq]
      exact (hs.own c chk h).refreshed t eid

theorem lsaOf_initiated (confParam : ConfParameter) (adjacencyList : AdjacencyList)
    (namePrefixList : NamePrefixList) (seqFile : Option UInt64) (now : TimePoint) (c : Counter)
    (o : Name) :
    (initiated confParam adjacencyList namePrefixList seqFile now).lsaOf c o = none := by
  cases c <;> rfl

theorem writes_initializeNlsr (confParam : ConfParameter) {adjacencyList : AdjacencyList}
    (namePrefixList : NamePrefixList) (seqFile : Option UInt64) (now : TimePoint)
    (huris : adjacencyList.UrisAreFields) :
    (start confParam adjacencyList namePrefixList seqFile now).initializeNlsr.Writes := by
  let math : MathLib := ⟨0, id, id, id, id⟩
  have hstep : ∀ (s : Nlsr) (e : Event), s.ArrivesForeign e →
      s.lsdb.thisRouterPrefix = s.routerPrefix ∧ s.Writes →
      (s.step math e).lsdb.thisRouterPrefix = (s.step math e).routerPrefix ∧
        (s.step math e).Writes := by
    intro s e he hs
    refine ⟨?_, writes_step math hs.1 hs.2 he⟩
    rw [thisRouterPrefix_step, hs.1]
    exact (congrArg ConfParameter.routerPrefix (confParam_step math s e)).symm
  refine (initializeNlsr_of_step (P := fun s => s.lsdb.thisRouterPrefix = s.routerPrefix ∧ s.Writes)
    math (fun s => hstep s _ trivial) (fun s => hstep s _ trivial) (fun s hs => ?_) ?_).2
  · refine ⟨hs.1, fun a ha => ?_, hs.2.own⟩
    have ha' : a ∈ freeLinks s.adjacencyList := ha
    obtain ⟨b, hb, rfl⟩ := KeyedList.mem_mapValues.1 ha'
    exact hs.2.uris b hb
  · refine ⟨rfl, huris, fun c l hl => ?_⟩
    rw [lsaOf_initiated] at hl
    cases hl

/-! ## The LSA a name stands for -/

theorem lsaIdOf_congr {s t : Nlsr} (h : t.confParam.network = s.confParam.network) :
    t.lsaIdOf = s.lsaIdOf := by
  funext name following
  simp only [lsaIdOf, originOf, h]

/-- The Data stands for the LSA that was asked for. -/
theorem lsaIdOf_append {s : Nlsr} {name : Name} {id : LsaId} (h : s.lsaIdOf name 2 = some id)
    (version : Component) : s.lsaIdOf (name ++ [version]) 3 = some id := by
  have hfromEnd : ∀ i, fromEnd (name ++ [version]) (i + 2) = fromEnd name (i + 1) := by
    intro i
    simp [fromEnd]
  unfold lsaIdOf at h ⊢
  obtain ⟨lsaPosition, hpos, h⟩ := Option.bind_eq_some_iff.1 h
  have hlt : lsaPosition < name.length := (List.findIdx?_eq_some_iff_getElem.1 hpos).1
  have hpos' : getNameComponentPosition (name ++ [version]) "LSA" = some lsaPosition := by
    unfold getNameComponentPosition at hpos ⊢
    rw [List.findIdx?_append, hpos]
    rfl
  have horigin : s.originOf (name ++ [version]) lsaPosition 3 = s.originOf name lsaPosition 2 := by
    have hlength : (name ++ [version]).length - lsaPosition - 1 - 3 =
        name.length - lsaPosition - 1 - 2 := by
      rw [List.length_append, List.length_singleton]
      omega
    unfold originOf getSubName
    rw [hlength, List.drop_append_of_le_length hlt, List.take_append_of_le_length]
    rw [List.length_drop]
    omega
  rw [hpos', show fromEnd _ (3 - 1) = _ from hfromEnd 0, show fromEnd _ 3 = _ from hfromEnd 1,
    ← h]
  simp only [Option.bind_eq_bind, Option.bind_some, horigin]

/-! ## LSAs of other origins -/

/-- An event leaves an LSA of another origin as it is or removes it, unless one arrives. -/
theorem lsaOf_foreign_step (math : MathLib) {s : Nlsr}
    (hs : s.lsdb.thisRouterPrefix = s.routerPrefix) {o : Name} (ho : s.routerPrefix ≠ o) {e : Event}
    (he : NotFrom o e) {c : Counter} {l' : AnyLsa} (hl' : (s.step math e).lsaOf c o = some l') :
    s.lsaOf c o = some l' := by
  have hbuilds : ∀ l, s.opOf e = .install l → o ≠ l.origRouter := by
    intro l hop horig
    subst horig
    exact ho (origRouter_of_builds (builds_of_opOf hop he)).symm
  cases lsaChange_step math s e hl' with
  | kept h => exact h
  | installed hop hc horig h => exact absurd horig (hbuilds l' hop)
  | updated l chk eid hop hc horig h hlt heq => exact absurd horig (hbuilds l hop)
  | refreshed chk t eid h hop heq => exact absurd ((origin_of_refresh hop).trans hs).symm ho

end Nlsr

/-! ## The two routers -/

/-- An origin with what it has served, and a receiver. -/
structure Channel where
  origin : Server
  receiver : Nlsr

inductive ChannelEvent
  | origin (e : ServerEvent)
  | receiver (e : Event)
  /-- Data arrives with a version behind its name; what is behind its content in memory is read
  too. -/
  | deliver (d : Served) (version : Component) (rest : Text)

namespace Channel

open Nlsr

def step (math : MathLib) (lib : TextLib) (w : Channel) : ChannelEvent → Channel
  | .origin e => { w with origin := w.origin.step math lib e }
  | .receiver e => { w with receiver := w.receiver.step math e }
  | .deliver d version rest =>
    { w with
      receiver := w.receiver.onContentValidated lib (d.interestName ++ [version])
        (d.content ++ rest) }

/-- The turns of the origin are regular. Its LSAs reach the receiver as Data it has served: late,
more than once, in any order, or never. -/
def Allowed (math : MathLib) (w : Channel) : ChannelEvent → Prop
  | .origin e => w.origin.Regular math e
  | .receiver e => NotFrom w.origin.router.routerPrefix e
  | .deliver d _ _ => d ∈ w.origin.served

/-- The content is what the origin writes of an LSA, which its name stands for. -/
structure Tells (lib : TextLib) (conf : ConfParameter) (id : LsaId) (content : Text)
    (l : AnyLsa) : Prop where
  counter : l.counter = id.kind
  origRouter : l.origRouter = id.origin
  seqNo : l.lsSeqNo.toUInt64 = id.seqNo
  plain : id.origin = conf.routerPrefix → l.Plain conf
  content : content = l.getData lib

/-- A stored LSA of the origin says what the origin has served under its number. -/
structure Backed (lib : TextLib) (conf : ConfParameter) (v : Server) (c : Counter) (l' : AnyLsa) :
    Prop where
  rounded : l'.Rounded conf
  served : ∃ d ∈ v.served,
    v.router.lsaIdOf d.interestName 2 = some ⟨conf.routerPrefix, c, l'.lsSeqNo.toUInt64⟩ ∧
      ∃ l, Tells lib conf ⟨conf.routerPrefix, c, l'.lsSeqNo.toUInt64⟩ d.content l ∧
        l.SaysWritten lib l'

structure Agreeing (lib : TextLib) (conf : ConfParameter) (w : Channel) : Prop where
  frozen : w.origin.Frozen lib
  writes : w.origin.router.Writes
  confParam : w.origin.router.confParam = conf
  network : w.receiver.confParam.network = conf.network
  apart : w.receiver.routerPrefix ≠ conf.routerPrefix
  thisRouterPrefix : w.receiver.lsdb.thisRouterPrefix = w.receiver.routerPrefix
  told : ∀ d ∈ w.origin.served, ∃ id l,
    w.origin.router.lsaIdOf d.interestName 2 = some id ∧ Tells lib conf id d.content l
  stored : ∀ c l', w.receiver.lsaOf c conf.routerPrefix = some l' →
    Backed lib conf w.origin c l'

section

variable {math : MathLib} {lib : TextLib} {conf : ConfParameter} {w : Channel}

/-! ### The origin -/

theorem agreeing_turn (hw : w.Agreeing lib conf) {e : Event} (he : w.origin.router.Regular math e) :
    (w.step math lib (.origin (.turn e))).Agreeing lib conf := by
  have hconf : (w.origin.router.step math e).confParam = conf :=
    (confParam_step math w.origin.router e).trans hw.confParam
  have hid : (w.origin.router.step math e).lsaIdOf = w.origin.router.lsaIdOf :=
    lsaIdOf_congr (congrArg ConfParameter.network (confParam_step math w.origin.router e))
  refine ⟨Server.frozen_turn hw.frozen he.1 he.2,
    writes_step math hw.frozen.numbered.thisRouterPrefix hw.writes he.1, hconf, hw.network, hw.apart,
    hw.thisRouterPrefix, fun d hd => ?_, fun c l' hl' => ?_⟩
  · show ∃ id l, (w.origin.router.step math e).lsaIdOf d.interestName 2 = some id ∧ _
    rw [hid]
    exact hw.told d hd
  · obtain ⟨hrounded, d, hd, hown, hsaid⟩ := hw.stored c l' hl'
    refine ⟨hrounded, d, hd, ?_, hsaid⟩
    show (w.origin.router.step math e).lsaIdOf d.interestName 2 = _
    rw [hid]
    exact hown

theorem agreeing_interest (hw : w.Agreeing lib conf) (interestName : Name) :
    (w.step math lib (.origin (.interest interestName))).Agreeing lib conf := by
  cases h : w.origin.router.processInterest lib interestName with
  | none =>
    have heq : w.origin.step math lib (.interest interestName) = w.origin := by
      simp [Server.step, h]
    show Agreeing lib conf { w with origin := w.origin.step math lib (.interest interestName) }
    rw [heq]
    exact hw
  | some content =>
    have heq : w.origin.step math lib (.interest interestName) =
        { w.origin with served := w.origin.served ++ [⟨interestName, content⟩] } := by
      simp [Server.step, h]
    have hfrozen : (w.origin.step math lib (.interest interestName)).Frozen lib :=
      Server.frozen_interest hw.frozen interestName
    show Agreeing lib conf { w with origin := w.origin.step math lib (.interest interestName) }
    rw [heq] at hfrozen ⊢
    refine ⟨hfrozen, hw.writes, hw.confParam, hw.network, hw.apart, hw.thisRouterPrefix,
      fun d hd => ?_, fun c l' hl' => ?_⟩
    · rcases List.mem_append.1 hd with hd | hd
      · exact hw.told d hd
      · obtain rfl := List.mem_singleton.1 hd
        rw [processInterest_eq] at h
        obtain ⟨id, hid, hanswer⟩ := Option.bind_eq_some_iff.1 h
        obtain ⟨l, hl, hdata⟩ := Option.map_eq_some_iff.1 hanswer
        obtain ⟨hl, hseq⟩ := Option.filter_eq_some_iff.1 hl
        refine ⟨id, l, hid, counter_of_lsaOf hl, origRouter_of_lsaOf hl, by simpa using hseq,
          fun horigin => ?_, hdata.symm⟩
        have hpfx : id.origin = w.origin.router.routerPrefix :=
          horigin.trans (congrArg ConfParameter.routerPrefix hw.confParam).symm
        rw [hpfx] at hl
        rw [← hw.confParam]
        exact hw.writes.own id.kind l hl
    · obtain ⟨hrounded, d, hd, hown⟩ := hw.stored c l' hl'
      exact ⟨hrounded, d, List.mem_append_left _ hd, hown⟩

/-! ### The receiver -/

theorem agreeing_receiver (hw : w.Agreeing lib conf) {e : Event}
    (he : NotFrom w.origin.router.routerPrefix e) :
    (w.step math lib (.receiver e)).Agreeing lib conf := by
  have hconf := confParam_step math w.receiver e
  have hpfx : (w.receiver.step math e).routerPrefix = w.receiver.routerPrefix :=
    congrArg ConfParameter.routerPrefix hconf
  have horigin : w.origin.router.routerPrefix = conf.routerPrefix :=
    congrArg ConfParameter.routerPrefix hw.confParam
  refine ⟨hw.frozen, hw.writes, hw.confParam,
    (congrArg ConfParameter.network hconf).trans hw.network,
    fun h => hw.apart (hpfx.symm.trans h), ?_, hw.told, fun c l' hl' => ?_⟩
  · show (w.receiver.step math e).lsdb.thisRouterPrefix = (w.receiver.step math e).routerPrefix
    rw [thisRouterPrefix_step, hpfx]
    exact hw.thisRouterPrefix
  · exact hw.stored c l' (lsaOf_foreign_step math hw.thisRouterPrefix hw.apart (horigin ▸ he) hl')

/-- Data that is new and can be read is installed. -/
theorem install_of_deliver (math : MathLib) (hw : w.Agreeing lib conf) {d : Served}
    (hd : d ∈ w.origin.served) (version : Component) (rest : Text) :
    (w.step math lib (.deliver d version rest)).receiver = w.receiver ∨
      ∃ id l l₁, w.origin.router.lsaIdOf d.interestName 2 = some id ∧
        Tells lib conf id d.content l ∧
        AnyLsa.initializeFromContent lib (l.getData lib ++ rest) id.kind = .ok l₁ ∧
        (w.step math lib (.deliver d version rest)).receiver = w.receiver.install l₁ := by
  obtain ⟨id, l, hid, htells⟩ := hw.told d hd
  have hnetwork : w.receiver.confParam.network = w.origin.router.confParam.network :=
    hw.network.trans (congrArg ConfParameter.network hw.confParam).symm
  have hread : w.receiver.lsaIdOf (d.interestName ++ [version]) 3 = some id := by
    rw [lsaIdOf_congr hnetwork]
    exact lsaIdOf_append hid version
  have hstep : (w.step math lib (.deliver d version rest)).receiver =
      w.receiver.processContent lib id (l.getData lib ++ rest) := by
    show w.receiver.onContentValidated lib _ _ = _
    rw [onContentValidated_eq, hread, htells.content]
  rw [hstep, processContent]
  split_ifs
  · cases hl₁ : AnyLsa.initializeFromContent lib (l.getData lib ++ rest) id.kind with
    | error e => exact Or.inl rfl
    | ok l₁ => exact Or.inr ⟨id, l, l₁, hid, htells, hl₁, rfl⟩
  · exact Or.inl rfl

/-- **What an install of delivered Data leaves of the origin says what was served.** -/
theorem backed_install (math : MathLib) (h : lib.RoundTrips) (hw : w.Agreeing lib conf) {d : Served}
    (hd : d ∈ w.origin.served) {id : LsaId} {l l₁ : AnyLsa}
    (hid : w.origin.router.lsaIdOf d.interestName 2 = some id)
    (htells : Tells lib conf id d.content l) {rest : Text}
    (hread : AnyLsa.initializeFromContent lib (l.getData lib ++ rest) id.kind = .ok l₁)
    {c : Counter} {l' : AnyLsa}
    (hl' : (w.receiver.install l₁).lsaOf c conf.routerPrefix = some l') :
    Backed lib conf w.origin c l' := by
  have hcounter : l₁.counter = id.kind := AnyLsa.counter_of_initializeFromContent hread
  have horigin : l₁.origRouter = id.origin := by
    obtain ⟨text, htext⟩ := l.exists_getData_eq lib
    rw [htext, List.append_assoc, htells.origRouter] at hread
    exact AnyLsa.origRouter_of_read h hread
  -- What is read of an own LSA is the LSA as the reader makes it
  have hasRead : conf.routerPrefix = l₁.origRouter → ∃ t,
      lib.fromIsoString (lib.toIsoString l.toLsa.expirationTimePoint) = some t ∧
        l₁ = l.asRead t := fun ho => by
    rw [← htells.counter] at hread
    exact AnyLsa.eq_asRead h (htells.plain (ho.trans horigin).symm) hread
  have hbacked : c = l₁.counter → conf.routerPrefix = l₁.origRouter →
      l'.Rounded conf ∧ l.SaysWritten lib l' → Backed lib conf w.origin c l' := by
    intro hc ho hsaid
    have hid' : id = ⟨conf.routerPrefix, c, l'.lsSeqNo.toUInt64⟩ := by
      rw [hsaid.2.1, htells.seqNo, hc, hcounter, ho, horigin]
    exact ⟨hsaid.1, d, hd, hid' ▸ hid, l, hid' ▸ htells, hsaid.2⟩
  cases lsaChange_apply math w.receiver (.install l₁) hl' with
  | kept hkept => exact hw.stored c l' hkept
  | installed hop hc ho hnone =>
    obtain rfl : l₁ = l' := by cases hop; rfl
    obtain ⟨t, ht, rfl⟩ := hasRead ho
    exact hbacked hc ho (AnyLsa.saysWritten_asRead (htells.plain (ho.trans horigin).symm) ht)
  | updated l₂ chk eid hop hc ho hchk hlt heq =>
    obtain rfl : l₁ = l₂ := by cases hop; rfl
    obtain ⟨t, ht, rfl⟩ := hasRead ho
    obtain rfl := heq
    refine hbacked hc ho (AnyLsa.saysWritten_updated (hw.stored c chk hchk).rounded
      (htells.plain (ho.trans horigin).symm) ?_ ?_ ht eid)
    · rw [counter_of_lsaOf hchk, hc, hcounter, htells.counter]
    · rw [origRouter_of_lsaOf hchk, ho, horigin, htells.origRouter]
  | refreshed chk t eid hchk hop heq => rcases hop with hop | hop | hop <;> cases hop

theorem agreeing_deliver (h : lib.RoundTrips) (hw : w.Agreeing lib conf) {d : Served}
    (hd : d ∈ w.origin.served) (version : Component) (rest : Text) :
    (w.step math lib (.deliver d version rest)).Agreeing lib conf := by
  rcases install_of_deliver math hw hd version rest with
    hsame | ⟨id, l, l₁, hid, htells, hread, hinstall⟩
  · have heq : w.step math lib (.deliver d version rest) = w :=
      congrArg (fun s => ({ w with receiver := s } : Channel)) hsame
    rw [heq]
    exact hw
  · have heq : w.step math lib (.deliver d version rest) =
        { w with receiver := w.receiver.install l₁ } :=
      congrArg (fun s => ({ w with receiver := s } : Channel)) hinstall
    rw [heq]
    have hconf : (w.receiver.install l₁).confParam = w.receiver.confParam :=
      confParam_apply math w.receiver (.install l₁)
    have hpfx : (w.receiver.install l₁).routerPrefix = w.receiver.routerPrefix :=
      congrArg ConfParameter.routerPrefix hconf
    have hthis : (w.receiver.install l₁).lsdb.thisRouterPrefix = w.receiver.lsdb.thisRouterPrefix :=
      thisRouterPrefix_apply math w.receiver (.install l₁)
    exact ⟨hw.frozen, hw.writes, hw.confParam,
      (congrArg ConfParameter.network hconf).trans hw.network,
      fun hp => hw.apart (hpfx.symm.trans hp),
      hthis.trans (hw.thisRouterPrefix.trans hpfx.symm), hw.told,
      fun c l' hl' => backed_install math h hw hd hid htells hread hl'⟩

theorem agreeing_step (h : lib.RoundTrips) (hw : w.Agreeing lib conf) {e : ChannelEvent}
    (he : w.Allowed math e) : (w.step math lib e).Agreeing lib conf := by
  cases e with
  | origin e =>
    cases e with
    | turn e => exact agreeing_turn hw he
    | interest interestName => exact agreeing_interest hw interestName
  | receiver e => exact agreeing_receiver hw he
  | deliver d version rest => exact agreeing_deliver h hw he version rest

/-! ### The stored number -/

theorem lsSeqNo_le_step (hw : w.Agreeing lib conf) {e : ChannelEvent} (he : w.Allowed math e)
    {c : Counter} {l l' : AnyLsa} (hl : w.receiver.lsaOf c conf.routerPrefix = some l)
    (hl' : (w.step math lib e).receiver.lsaOf c conf.routerPrefix = some l') :
    l.lsSeqNo ≤ l'.lsSeqNo := by
  have hkept : w.receiver.lsaOf c conf.routerPrefix = some l' → l.lsSeqNo ≤ l'.lsSeqNo := by
    intro h
    obtain rfl := Option.some.inj (hl.symm.trans h)
    exact UInt32.le_refl _
  cases e with
  | origin e => exact hkept hl'
  | receiver e =>
    have horigin : w.origin.router.routerPrefix = conf.routerPrefix :=
      congrArg ConfParameter.routerPrefix hw.confParam
    exact hkept (lsaOf_foreign_step math hw.thisRouterPrefix hw.apart
      (horigin ▸ show NotFrom w.origin.router.routerPrefix e from he) hl')
  | deliver d version rest =>
    rcases install_of_deliver math hw he version rest with
      hsame | ⟨id, l₀, l₁, -, -, -, hinstall⟩
    · exact hkept (hsame ▸ hl')
    · rw [hinstall] at hl'
      cases lsaChange_apply math w.receiver (.install l₁) hl' with
      | kept h => exact hkept h
      | installed hop hc ho hnone => simp [hnone] at hl
      | updated l₂ chk eid hop hc ho hchk hlt heq =>
        obtain rfl := Option.some.inj (hl.symm.trans hchk)
        rw [heq, AnyLsa.lsSeqNo_updated (hc.symm.trans (counter_of_lsaOf hl).symm)]
        exact UInt32.le_of_lt hlt
      | refreshed chk t eid hchk hop heq => rcases hop with hop | hop | hop <;> cases hop

/-- While an LSA of the origin stays, its number does not go down. -/
theorem lsSeqNo_le_run (h : lib.RoundTrips) {es : List ChannelEvent} (hw : w.Agreeing lib conf)
    (hes : Meets (step math lib) (Allowed math) w es) {c : Counter}
    (hstays : Along (step math lib) (fun w => w.receiver.lsaOf c conf.routerPrefix ≠ none) w es)
    {l l' : AnyLsa} (hl : w.receiver.lsaOf c conf.routerPrefix = some l)
    (hl' : (run (step math lib) w es).receiver.lsaOf c conf.routerPrefix = some l') :
    l.lsSeqNo ≤ l'.lsSeqNo := by
  induction es generalizing w l with
  | nil =>
    obtain rfl := Option.some.inj (hl.symm.trans hl')
    exact UInt32.le_refl _
  | cons e es ih =>
    obtain ⟨l₁, hl₁⟩ := Option.ne_none_iff_exists'.1 hstays.2.first
    exact UInt32.le_trans (lsSeqNo_le_step hw hes.1 hl hl₁)
      (ih (agreeing_step h hw hes.1) hes.2 hstays.2 hl₁ hl')

end

/-! ### From the start -/

/-- A router that has just started stores no LSA of another router. -/
theorem lsaOf_initializeNlsr (confParam : ConfParameter) (adjacencyList : AdjacencyList)
    (namePrefixList : NamePrefixList) (seqFile : Option UInt64) (now : TimePoint) {o : Name}
    (ho : confParam.routerPrefix ≠ o) (c : Counter) :
    (start confParam adjacencyList namePrefixList seqFile now).initializeNlsr.lsaOf c o = none := by
  let math : MathLib := ⟨0, id, id, id, id⟩
  have hstep : ∀ (s : Nlsr) (e : Event), NotFrom o e →
      (s.confParam = confParam ∧ s.lsdb.thisRouterPrefix = s.routerPrefix ∧ s.lsaOf c o = none) →
      (s.step math e).confParam = confParam ∧
        (s.step math e).lsdb.thisRouterPrefix = (s.step math e).routerPrefix ∧
          (s.step math e).lsaOf c o = none := by
    intro s e he hs
    obtain ⟨hconf, hthis, hnone⟩ := hs
    have hconf' := (confParam_step math s e).trans hconf
    have hpfx : (s.step math e).routerPrefix = s.routerPrefix :=
      congrArg ConfParameter.routerPrefix (hconf'.trans hconf.symm)
    refine ⟨hconf', ?_, ?_⟩
    · rw [thisRouterPrefix_step, hpfx]
      exact hthis
    · rw [Option.eq_none_iff_forall_ne_some]
      intro l hl
      have hs : s.routerPrefix ≠ o := by
        rw [routerPrefix, hconf]
        exact ho
      have hsome := lsaOf_foreign_step math hthis hs he hl
      rw [hnone] at hsome
      cases hsome
  exact (initializeNlsr_of_step (P := fun s => s.confParam = confParam ∧
      s.lsdb.thisRouterPrefix = s.routerPrefix ∧ s.lsaOf c o = none) math
    (fun s => hstep s _ trivial) (fun s => hstep s _ trivial) (fun s hs => hs)
    ⟨rfl, rfl, lsaOf_initiated ..⟩).2.2

/-- Two routers that have just started. -/
def first (origin receiver : Nlsr) : Channel := { origin := { router := origin }, receiver }

theorem agreeing_first {lib : TextLib} {confA confB : ConfParameter} {adjA : AdjacencyList}
    (npA : NamePrefixList) (seqA : Option UInt64) (nowA : TimePoint) (adjB : AdjacencyList)
    (npB : NamePrefixList) (seqB : Option UInt64) (nowB : TimePoint)
    (hnetwork : confB.network = confA.network) (hapart : confB.routerPrefix ≠ confA.routerPrefix)
    (huris : adjA.UrisAreFields) :
    (first (start confA adjA npA seqA nowA).initializeNlsr
      (start confB adjB npB seqB nowB).initializeNlsr).Agreeing lib confA := by
  have hconf := confParam_initializeNlsr confB adjB npB seqB nowB
  refine ⟨⟨numbered_initializeNlsr .., by simp [first], by simp [first], by simp [first]⟩,
    writes_initializeNlsr _ _ _ _ huris, confParam_initializeNlsr .., ?_, ?_,
    (numbered_initializeNlsr ..).thisRouterPrefix, by simp [first], fun c l' hl' => ?_⟩
  · exact (congrArg ConfParameter.network hconf).trans hnetwork
  · intro h
    exact hapart ((congrArg ConfParameter.routerPrefix hconf).symm.trans h)
  · have hnone := lsaOf_initializeNlsr confB adjB npB seqB nowB hapart c
    exact absurd (hnone.symm.trans hl') (by simp)

/-- **Origin and receiver agree.** Whatever reaches the receiver and when: an LSA of the origin
that it stores has a number that the origin has served, and says what is written in every content
that the origin has served under this number. While the receiver keeps an LSA of a kind, its
number does not go down. -/
theorem receiver_agrees (math : MathLib) (lib : TextLib) (h : lib.RoundTrips)
    (confA confB : ConfParameter) (adjA adjB : AdjacencyList) (npA npB : NamePrefixList)
    (seqA seqB : Option UInt64) (nowA nowB : TimePoint) (hnetwork : confB.network = confA.network)
    (hapart : confB.routerPrefix ≠ confA.routerPrefix) (huris : adjA.UrisAreFields)
    (es : List ChannelEvent)
    (hes : Meets (step math lib) (Allowed math)
      (first (start confA adjA npA seqA nowA).initializeNlsr
        (start confB adjB npB seqB nowB).initializeNlsr) es) :
    let w₀ := first (start confA adjA npA seqA nowA).initializeNlsr
      (start confB adjB npB seqB nowB).initializeNlsr
    let v := (run (step math lib) w₀ es).origin
    let stored := fun w : Channel => fun c => w.receiver.lsaOf c confA.routerPrefix
    (∀ c l', stored (run (step math lib) w₀ es) c = some l' →
      (∃ d ∈ v.served, v.IsOwn d c l'.lsSeqNo.toUInt64) ∧
        ∀ d ∈ v.served, v.IsOwn d c l'.lsSeqNo.toUInt64 → ∃ l,
          Tells lib confA ⟨confA.routerPrefix, c, l'.lsSeqNo.toUInt64⟩ d.content l ∧
            l.SaysWritten lib l') ∧
      ∀ c before during, es = before ++ during →
        Along (step math lib) (fun w => stored w c ≠ none) (run (step math lib) w₀ before) during →
          ∀ l l', stored (run (step math lib) w₀ before) c = some l →
            stored (run (step math lib) w₀ es) c = some l' → l.lsSeqNo ≤ l'.lsSeqNo := by
  intro w₀ v stored
  have hfirst : w₀.Agreeing lib confA :=
    agreeing_first npA seqA nowA adjB npB seqB nowB hnetwork hapart huris
  have hrun : ∀ es, Meets (step math lib) (Allowed math) w₀ es →
      (run (step math lib) w₀ es).Agreeing lib confA := by
    intro es hes
    have halong := along_of_meets (P := fun w => w.Agreeing lib confA)
      (fun w e hw he => agreeing_step h hw he) hfirst hes
    exact halong.last
  refine ⟨fun c l' hl' => ?_, fun c before during hsplit hstays l l' hl hl' => ?_⟩
  · have hw := hrun es hes
    have hpfx : v.router.routerPrefix = confA.routerPrefix :=
      congrArg ConfParameter.routerPrefix hw.confParam
    have hown : ∀ d, v.IsOwn d c l'.lsSeqNo.toUInt64 ↔ v.router.lsaIdOf d.interestName 2 =
        some ⟨confA.routerPrefix, c, l'.lsSeqNo.toUInt64⟩ := by
      intro d
      rw [Server.IsOwn, hpfx]
    obtain ⟨-, d, hd, hid, l, htells, hsaid⟩ := hw.stored c l' hl'
    refine ⟨⟨d, hd, (hown d).2 hid⟩, fun d' hd' hid' => ⟨l, ?_, hsaid⟩⟩
    have hcontent := hw.frozen.same d' hd' d hd c _ hid' ((hown d).2 hid)
    exact ⟨htells.counter, htells.origRouter, htells.seqNo, htells.plain,
      hcontent.trans htells.content⟩
  · subst hsplit
    obtain ⟨hbefore, hduring⟩ := meets_append.1 hes
    have hl'' : stored (run (step math lib) (run (step math lib) w₀ before) during) c = some l' := by
      rw [← run_append]
      exact hl'
    exact lsSeqNo_le_run h (hrun before hbefore) hduring hstays hl hl''

/-! ### A replay -/

deriving instance DecidableEq for Served

def netA : ConfParameter := { network := [⟨"net"⟩], routerName := [⟨"a"⟩] }

def netB : ConfParameter := { network := [⟨"net"⟩], routerName := [⟨"b"⟩] }

/-- The first version of the Name LSA arrives with garbage behind it, then the second one, then
the first one again. -/
def replayed : List ChannelEvent :=
  let ask := fun n => lsaName netA [⟨"a"⟩] (Counter.component .name) (Component.fromNumber n) []
  let served₁ : Served := ⟨ask 1, "/net/a|name|1|19700101T010000|0|".toList⟩
  let served₂ : Served := ⟨ask 2, "/net/a|name|2|19700101T010005|1|/p|".toList⟩
  [.origin (.interest (ask 1)), .deliver served₁ ⟨"v1"⟩ ['x', '|'],
    .origin (.turn (.clock 5000000000)), .origin (.turn (.advertise [⟨"p"⟩])),
    .origin (.interest (ask 2)), .deliver served₂ ⟨"v2"⟩ [], .receiver (.clock 7000000000),
    .deliver served₁ ⟨"v1"⟩ []]

theorem receiver_agrees_replayed :
    let adjA := KeyedList.empty.insert
      { name := [⟨"net"⟩, ⟨"b"⟩], connectingFaceUri := "udp4://b", linkCost := 10 }
    let w₀ := first (start netA adjA KeyedList.empty none 0).initializeNlsr
      (start netB KeyedList.empty KeyedList.empty none 0).initializeNlsr
    let math : MathLib := ⟨0, id, id, id, id⟩
    let w := run (step math plainText) w₀ replayed
    w.origin.served.length = 2 ∧
      ∃ l', w.receiver.lsaOf .name [⟨"net"⟩, ⟨"a"⟩] = some l' ∧ l'.lsSeqNo = 2 ∧
        ((∃ d ∈ w.origin.served, w.origin.IsOwn d .name 2) ∧
          ∀ d ∈ w.origin.served, w.origin.IsOwn d .name 2 → ∃ l,
            Tells plainText netA ⟨[⟨"net"⟩, ⟨"a"⟩], .name, 2⟩ d.content l ∧
              l.SaysWritten plainText l') := by
  intro adjA w₀ math w
  have hagrees := receiver_agrees math plainText roundTrips_plainText netA netB adjA
    KeyedList.empty KeyedList.empty KeyedList.empty none none 0 0 (by decide) (by decide)
    (fun a ha => ?_) replayed ?_
  · have hseq : (w.receiver.lsaOf .name [⟨"net"⟩, ⟨"a"⟩]).map AnyLsa.lsSeqNo = some 2 := by
      decide +kernel
    obtain ⟨l', hl', htwo⟩ := Option.map_eq_some_iff.1 hseq
    have hstored := hagrees.1 .name l' hl'
    rw [htwo] at hstored
    exact ⟨by decide +kernel, l', hl', htwo, hstored⟩
  · obtain rfl := List.mem_singleton.1 ha
    exact ⟨by decide, by decide⟩
  · refine ⟨trivial, ?_, ⟨trivial, keepsRoom_of_fits ?_ _⟩, ⟨trivial, keepsRoom_of_fits ?_ _⟩,
      trivial, ?_, trivial, ?_, trivial⟩
    · show _ ∈ _
      decide +kernel
    · decide +kernel
    · decide +kernel
    · show _ ∈ _
      decide +kernel
    · show _ ∈ _
      decide +kernel

end Channel

end LinkState
