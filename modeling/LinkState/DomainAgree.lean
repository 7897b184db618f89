import LinkState.Channel
import LinkState.DomainRequests
import LinkState.SameContent

/-!
# Agreement in a domain

A router answers Interests under its own update prefix alone, and a router asks for LSAs of others
alone. So what arrives at a router comes from another one, and is about that one or about nobody in
the domain: an LSA is never learned from a third party.

So between any two routers there is a channel as if they were alone (`agrees_after`), and
`domain_agrees`: all that other routers store of a router says what that one has served under the
number.
-/

namespace LinkState

open Sync SequencingManager Nlsr

variable {ι : Type*} {H : HashFunction}

/-! ## Names under an update prefix -/

/-- **What a name under an update prefix stands for is of the router with that prefix**, or at
least no other router can have such an origin. -/
theorem Nlsr.origin_comparable {s : Nlsr} {conf : ConfParameter}
    (hnetwork : s.confParam.network = conf.network) (hLSA : (⟨"LSA"⟩ : Component) ∉ conf.network)
    {name : Name} (hunder : conf.updatePrefix <+: name) {id : LsaId}
    (hid : s.lsaIdOf name 2 = some id) :
    id.origin <+: conf.routerPrefix ∨ conf.routerPrefix <+: id.origin := by
  obtain ⟨rest, rfl⟩ := hunder
  have hname : conf.updatePrefix ++ rest = (conf.network ++ [⟨"NLSR"⟩]) ++
      ⟨"LSA"⟩ :: (conf.siteName ++ conf.routerName ++ rest) := by
    simp [updatePrefix_eq]
  have hpos : getNameComponentPosition (conf.updatePrefix ++ rest) "LSA" =
      some (conf.network.length + 1) := by
    rw [hname, getNameComponentPosition_append]
    · simp
    · simp [hLSA]
  have hdrop : (conf.updatePrefix ++ rest).drop (conf.network.length + 1 + 1) =
      conf.siteName ++ conf.routerName ++ rest := by
    rw [hname, List.drop_append]
    simp
  unfold lsaIdOf at hid
  rw [hpos] at hid
  simp only [Option.bind_eq_bind, Option.bind_some, Option.bind_eq_some_iff, Option.pure_def,
    Option.some.injEq] at hid
  obtain ⟨-, -, seqNo, -, -, -, kind, -, rfl⟩ := hid
  -- Both are the network and a beginning of what follows it
  unfold originOf getSubName ConfParameter.routerPrefix
  rw [hdrop, hnetwork, List.append_assoc conf.network, List.prefix_append_right_inj,
    List.prefix_append_right_inj]
  exact List.prefix_or_prefix_of_prefix (List.take_prefix _ _) (List.prefix_append _ _)

namespace Node

variable (math : MathLib) (lib : TextLib) (pb : Protobuf)

/-- The server after an event. -/
def nextServer (n : Node H) : NodeEvent → Server
  | .turn e => n.server.step math lib (.turn e)
  | .lsaInterest interestName =>
    if n.updatePrefix <+: interestName then n.server.step math lib (.interest interestName)
    else n.server
  | .lsaData dataName dataContent =>
    { n.server with router := n.router.onContentValidated lib dataName dataContent }
  | _ => n.server

theorem server_step (n : Node H) (f : NodeEvent) :
    (n.step math lib pb f).server = n.nextServer math lib f := by
  have hgoTo : ∀ router, (n.goTo lib router).server = { n.server with router := router } := by
    intro router
    obtain ⟨posted, threw, h⟩ := n.goTo_frame lib router
    rw [h]
  have hhear : ∀ (m : Node H) out, (m.hear lib out).server = m.server := by
    intro m out
    obtain ⟨fetcher, threw, h⟩ := m.hear_frame lib out
    rw [h]
  cases f with
  | turn e => exact hgoTo _
  | lsaInterest interestName =>
    show (n.onLsaInterest math lib interestName).server = _
    unfold onLsaInterest nextServer
    dsimp only
    split_ifs <;> rfl
  | lsaData dataName dataContent => exact hgoTo _
  | fetch e => rfl
  | posted => exact hhear _ _
  | sync e => exact hhear _ _

/-- **Only Interests under the update prefix are answered.** -/
theorem served_step (n : Node H) (f : NodeEvent) :
    ∀ s ∈ (n.step math lib pb f).server.served,
      s ∈ n.server.served ∨ n.updatePrefix <+: s.interestName := by
  rw [n.server_step math lib pb f]
  intro s hs
  cases f with
  | lsaInterest interestName =>
    unfold nextServer at hs
    dsimp only at hs
    split_ifs at hs with hunder
    · unfold Server.step at hs
      dsimp only at hs
      cases hanswer : n.server.router.processInterest lib interestName with
      | none =>
        rw [hanswer] at hs
        exact Or.inl hs
      | some content =>
        rw [hanswer] at hs
        rcases List.mem_append.1 hs with hs | hs
        · exact Or.inl hs
        · rw [List.mem_singleton.1 hs]
          exact Or.inr hunder
    · exact Or.inl hs
  | _ => exact Or.inl hs

end Node

/-! ## What arrives -/

namespace TextLib

variable {lib : TextLib} {toks : List Text}

theorem expiringEventId_readHeader {header : Lsa} (h : lib.readHeader toks = .ok header) :
    header.expiringEventId = none := by
  obtain ⟨_, -, h⟩ := ok_of_bind h
  obtain ⟨_, -, h⟩ := ok_of_bind h
  split_ifs at h
  · obtain ⟨_, -, h⟩ := ok_of_bind h
    obtain ⟨_, -, h⟩ := ok_of_bind h
    obtain ⟨_, -, h⟩ := ok_of_bind h
    obtain ⟨_, -, h⟩ := ok_of_bind h
    obtain ⟨_, -, h⟩ := ok_of_bind h
    cases h
    rfl
  · cases h

theorem toLsa_readNames {n i : Nat} {l l' : NameLsa} (h : lib.readNames toks n i l = .ok l') :
    l'.toLsa = l.toLsa := by
  induction n generalizing i l with
  | zero =>
    cases h
    rfl
  | succ n ih =>
    obtain ⟨_, -, h⟩ := ok_of_bind h
    obtain ⟨_, -, h⟩ := ok_of_bind h
    exact (ih h).trans rfl

theorem toLsa_readAdjacents {n i : Nat} {l l' : AdjLsa}
    (h : lib.readAdjacents toks n i l = .ok l') : l'.toLsa = l.toLsa := by
  induction n generalizing i l with
  | zero =>
    cases h
    rfl
  | succ n ih =>
    obtain ⟨_, -, h⟩ := ok_of_bind h
    obtain ⟨_, -, h⟩ := ok_of_bind h
    obtain ⟨_, -, h⟩ := ok_of_bind h
    obtain ⟨_, -, h⟩ := ok_of_bind h
    obtain ⟨_, -, h⟩ := ok_of_bind h
    exact (ih h).trans rfl

end TextLib

/-- What was just read has no expiration. -/
theorem AnyLsa.expiringEventId_of_read {lib : TextLib} {content : Text} {c : Counter} {l : AnyLsa}
    (h : AnyLsa.initializeFromContent lib content c = .ok l) : l.toLsa.expiringEventId = none := by
  cases c with
  | name =>
    cases hname : NameLsa.initializeFromContent lib content with
    | error e => simp [AnyLsa.initializeFromContent, hname, Except.map] at h
    | ok l =>
      rw [AnyLsa.initializeFromContent, hname] at h
      cases h
      obtain ⟨header, hheader, hrest⟩ := TextLib.ok_of_bind hname
      obtain ⟨_, -, hrest⟩ := TextLib.ok_of_bind hrest
      obtain ⟨_, -, hrest⟩ := TextLib.ok_of_bind hrest
      exact (congrArg Lsa.expiringEventId (TextLib.toLsa_readNames hrest)).trans
        (TextLib.expiringEventId_readHeader hheader)
  | adj =>
    cases hadj : AdjLsa.initializeFromContent lib content with
    | error e => simp [AnyLsa.initializeFromContent, hadj, Except.map] at h
    | ok l =>
      rw [AnyLsa.initializeFromContent, hadj] at h
      cases h
      obtain ⟨header, hheader, hrest⟩ := TextLib.ok_of_bind hadj
      obtain ⟨_, -, hrest⟩ := TextLib.ok_of_bind hrest
      obtain ⟨_, -, hrest⟩ := TextLib.ok_of_bind hrest
      exact (congrArg Lsa.expiringEventId (TextLib.toLsa_readAdjacents hrest)).trans
        (TextLib.expiringEventId_readHeader hheader)
  | cor =>
    cases hcor : CoordinateLsa.initializeFromContent lib content with
    | error e => simp [AnyLsa.initializeFromContent, hcor, Except.map] at h
    | ok l =>
      rw [AnyLsa.initializeFromContent, hcor] at h
      cases h
      obtain ⟨header, hheader, hrest⟩ := TextLib.ok_of_bind hcor
      obtain ⟨_, -, hrest⟩ := TextLib.ok_of_bind hrest
      obtain ⟨_, -, hrest⟩ := TextLib.ok_of_bind hrest
      obtain ⟨_, -, hrest⟩ := TextLib.ok_of_bind hrest
      obtain ⟨_, -, hrest⟩ := TextLib.ok_of_bind hrest
      cases hrest
      exact TextLib.expiringEventId_readHeader hheader

/-- An install of what was just read is an event. -/
theorem Nlsr.exists_install_event (math : MathLib) {l : AnyLsa}
    (hl : l.toLsa.expiringEventId = none) :
    ∃ e : Event, (∀ s : Nlsr, s.step math e = s.install l) ∧
      ∀ o, l.origRouter ≠ o → NotFrom o e := by
  cases l with
  | name l =>
    have heq : { l with expiringEventId := none } = l := by rw [← hl]; rfl
    refine ⟨.installNameLsa l, fun s => ?_, fun o ho => ho⟩
    exact congrArg s.installNameLsa heq
  | adj l =>
    have heq : { l with expiringEventId := none } = l := by rw [← hl]; rfl
    refine ⟨.installAdjLsa l, fun s => ?_, fun o ho => ho⟩
    exact congrArg s.installAdjLsa heq
  | coordinate l =>
    have heq : { l with expiringEventId := none } = l := by rw [← hl]; rfl
    refine ⟨.installCoordinateLsa l, fun s => ?_, fun o ho => ho⟩
    exact congrArg s.installCoordinateLsa heq

theorem Nlsr.arrivesForeign_of_notFrom {s : Nlsr} {e : Event} (h : NotFrom s.routerPrefix e) :
    s.ArrivesForeign e := by
  cases e <;> exact h

theorem notFrom_of_isLocal {e : Event} (h : e.isLocal) (o : Name) : NotFrom o e := by
  cases e with
  | installNameLsa l => cases h
  | installAdjLsa l => cases h
  | installCoordinateLsa l => cases h
  | _ => trivial

namespace Domain

/-- Between two routers there is a channel as if they were alone. -/
def Agrees (lib : TextLib) (setup : ι → Setup) (d : Domain ι H) (i j : ι) : Prop :=
  Channel.Agreeing lib (setup j).confParam ⟨(d.node j).server, (d.node i).router⟩

/-- **What one router has served is no LSA of a third one.** If it changes anything where it
arrives, an LSA that no other router has the name of is installed. -/
theorem installs_of_arrives (math : MathLib) {lib : TextLib} (h : lib.RoundTrips)
    {setup : ι → Setup} (hconf : WellConfigured lib setup) {d : Domain ι H} {i k : ι}
    (hagrees : Agrees lib setup d i k) {s : Served} (hs : s ∈ (d.node k).server.served)
    (hunder : (setup k).confParam.updatePrefix <+: s.interestName) (version : Component)
    (rest : Text) :
    let t := (d.node i).router.onContentValidated lib (s.interestName ++ [version])
      (s.content ++ rest)
    t = (d.node i).router ∨ ∃ l : AnyLsa, l.toLsa.expiringEventId = none ∧
      (∀ m, m ≠ k → l.origRouter ≠ (setup m).confParam.routerPrefix) ∧
        t = (d.node i).router.install l := by
  rcases Channel.install_of_deliver math hagrees hs version rest with
    hsame | ⟨id, l, l₁, hid, htells, hread, hinstall⟩
  · exact Or.inl hsame
  · refine Or.inr ⟨l₁, AnyLsa.expiringEventId_of_read hread, fun m hm horigin => hm ?_, hinstall⟩
    have horig : l₁.origRouter = id.origin := by
      obtain ⟨text, htext⟩ := l.exists_getData_eq lib
      rw [htext, List.append_assoc, htells.origRouter] at hread
      exact AnyLsa.origRouter_of_read h hread
    have hnetwork : (d.node k).router.confParam.network = (setup k).confParam.network :=
      congrArg ConfParameter.network hagrees.confParam
    rcases origin_comparable hnetwork (hconf.noLSA k) hunder hid with hpre | hpre
    · rw [← horig, horigin] at hpre
      exact hconf.apart m k hpre
    · rw [← horig, horigin] at hpre
      exact (hconf.apart k m hpre).symm

/-- So it is an event in which no LSA of a third router arrives. -/
theorem event_of_arrives (math : MathLib) {lib : TextLib} (h : lib.RoundTrips)
    {setup : ι → Setup} (hconf : WellConfigured lib setup) {d : Domain ι H} {i k : ι}
    (hagrees : Agrees lib setup d i k) {s : Served} (hs : s ∈ (d.node k).server.served)
    (hunder : (setup k).confParam.updatePrefix <+: s.interestName) (version : Component)
    (rest : Text) :
    let t := (d.node i).router.onContentValidated lib (s.interestName ++ [version])
      (s.content ++ rest)
    t = (d.node i).router ∨ ∃ e, t = (d.node i).router.step math e ∧
      ∀ m, m ≠ k → NotFrom (setup m).confParam.routerPrefix e := by
  rcases installs_of_arrives math h hconf hagrees hs hunder version rest with
    hsame | ⟨l, hl, hfrom, hinstall⟩
  · exact Or.inl hsame
  · obtain ⟨e, he, hnot⟩ := exists_install_event math hl
    exact Or.inr ⟨e, hinstall.trans (he _).symm, fun m hm => hnot _ (hfrom m hm)⟩

variable [DecidableEq ι] (math : MathLib) (lib : TextLib) (pb : Protobuf)

/-- A router answers Interests under its own prefix. -/
theorem filtered_after (h : lib.RoundTrips) (setup : ι → Setup) (es : List (DomainEvent ι)) (k : ι) :
    ∀ s ∈ ((after math lib pb H setup es).node k).server.served,
      (setup k).confParam.updatePrefix <+: s.interestName := by
  induction es using List.reverseRecOn with
  | nil => exact fun s hs => absurd hs List.not_mem_nil
  | append_singleton es e ih =>
    intro s hs
    rw [after_concat] at hs
    rcases step_cases math lib pb (after math lib pb H setup es) e with
      ⟨-, hstep⟩ | ⟨i, f, -, hstep⟩ <;> rw [hstep] at hs
    · exact ih s hs
    · by_cases hk : k = i
      · subst hk
        rw [node_act_self] at hs
        have hconf := (configured_after math lib pb h (H := H) setup es k).confParam
        rcases Node.served_step math lib pb _ f s hs with hs | hunder
        · exact ih s hs
        · rwa [Node.updatePrefix, hconf] at hunder
      · rw [node_act_of_ne math lib pb _ hk] at hs
        exact ih s hs

/-- **Data comes from others.** -/
theorem sender_ne (h : lib.RoundTrips) {setup : ι → Setup} (hconf : WellConfigured lib setup)
    {es : List (DomainEvent ι)} {i k : ι} {s : Served} {version : Component}
    (hs : s ∈ ((after math lib pb H setup es).node k).server.served) {x : LsaInterest}
    (hx : x ∈ ((after math lib pb H setup es).node i).fetcher.sent)
    (hunder : x.name <+: s.interestName ++ [version]) : k ≠ i := by
  have hasking := asking_after math lib pb h hconf (H := H) es i
  obtain ⟨j, c, p, hne, -, hr⟩ := hasking.passed _ (hasking.fetcher.inv.passed x hx)
  have hasked : (setup j).confParam.updatePrefix <+: s.interestName ++ [version] := by
    rw [hasking.fetcher.inv.named x hx, (Prod.mk.inj hr).1, List.append_assoc] at hunder
    exact (List.prefix_append _ _).trans hunder
  have hserved : (setup k).confParam.updatePrefix <+: s.interestName ++ [version] :=
    (filtered_after math lib pb h setup es k s hs).trans (List.prefix_append _ _)
  rintro rfl
  rcases List.prefix_or_prefix_of_prefix hasked hserved with hpre | hpre
  · exact hne (hconf.updatePrefix_apart hpre)
  · exact hne (hconf.updatePrefix_apart hpre).symm

/-- No counter leaves its bits. -/
def KeepsRoom (d : Domain ι H) (e : DomainEvent ι) : Prop :=
  ∀ i, Nlsr.KeepsRoom (d.node i).router ((d.step math lib pb e).node i).router

theorem keepsRoom_of_fits {d : Domain ι H} (h : ∀ i, Fits (d.node i).router.sequencingManager)
    (e : DomainEvent ι) : KeepsRoom math lib pb d e :=
  fun i => Nlsr.keepsRoom_of_fits (h i) _

/-- **A step keeps the channels.** -/
theorem agrees_act (h : lib.RoundTrips) {setup : ι → Setup} (hconf : WellConfigured lib setup)
    {d : Domain ι H} (hd : ∀ i j, j ≠ i → Agrees lib setup d i j)
    (hfiltered : ∀ k, ∀ s ∈ (d.node k).server.served,
      (setup k).confParam.updatePrefix <+: s.interestName)
    {e : DomainEvent ι} {k : ι} {f : NodeEvent} (hlocated : Located d e k f)
    (hsender : ∀ i j n version rest, e = .lsaData i j n version rest → j ≠ i)
    (hroom : Nlsr.KeepsRoom (d.node k).router ((d.node k).step math lib pb f).router)
    (i j : ι) (hij : j ≠ i) : Agrees lib setup (d.act math lib pb k f) i j := by
  have hold := hd i j hij
  unfold Agrees
  by_cases hi : i = k
  · subst hi
    rw [node_act_self, node_act_of_ne math lib pb d hij, Node.router_step]
    have hrp : (d.node j).router.routerPrefix = (setup j).confParam.routerPrefix :=
      congrArg ConfParameter.routerPrefix hold.confParam
    cases hlocated with
    | turn he =>
      exact Channel.agreeing_receiver hold (hrp ▸ notFrom_of_isLocal he _)
    | @lsaData _ k' n version rest s x hserved hx hunder =>
      have hs := List.mem_of_getElem? hserved
      have hk' := hsender i k' n version rest rfl
      by_cases hj : j = k'
      · subst hj
        show Channel.Agreeing _ _ (Channel.step math lib
          ⟨(d.node j).server, (d.node i).router⟩ (.deliver s version rest))
        exact Channel.agreeing_deliver h hold hs version rest
      · rcases event_of_arrives math h hconf (hd i k' hk') hs (hfiltered k' s hs) version rest with
          hsame | ⟨e, he, hfrom⟩
        · show Channel.Agreeing _ _ ⟨_, (d.node i).router.onContentValidated ..⟩
          rw [hsame]
          exact hold
        · show Channel.Agreeing _ _ ⟨_, (d.node i).router.onContentValidated ..⟩
          rw [he]
          exact Channel.agreeing_receiver hold (hrp ▸ hfrom j hj)
    | _ => exact hold
  rw [node_act_of_ne math lib pb d hi]
  by_cases hj : j = k
  · subst hj
    rw [node_act_self, Node.server_step]
    rw [Node.router_step] at hroom
    cases hlocated with
    | @turn _ e he =>
      show Channel.Agreeing _ _ (Channel.step math lib
        ⟨(d.node j).server, (d.node i).router⟩ (.origin (.turn e)))
      refine Channel.agreeing_turn hold ⟨?_, hroom⟩
      exact arrivesForeign_of_notFrom (notFrom_of_isLocal he _)
    | @lsaInterest _ interestName =>
      unfold Node.nextServer
      dsimp only
      split_ifs
      · show Channel.Agreeing _ _ (Channel.step math lib
          ⟨(d.node j).server, (d.node i).router⟩ (.origin (.interest interestName)))
        exact Channel.agreeing_interest hold interestName
      · exact hold
    | @lsaData _ k' n version rest s x hserved hx hunder =>
      have hs := List.mem_of_getElem? hserved
      have hk' := hsender j k' n version rest rfl
      unfold Node.nextRouter at hroom
      unfold Node.nextServer
      dsimp only at hroom ⊢
      rcases event_of_arrives math h hconf (hd j k' hk') hs (hfiltered k' s hs) version rest with
        hsame | ⟨e, he, hfrom⟩
      · rw [hsame]
        exact hold
      · rw [he] at hroom ⊢
        have hrp : (d.node j).router.routerPrefix = (setup j).confParam.routerPrefix :=
          congrArg ConfParameter.routerPrefix hold.confParam
        show Channel.Agreeing _ _ (Channel.step math lib
          ⟨(d.node j).server, (d.node i).router⟩ (.origin (.turn e)))
        refine Channel.agreeing_turn hold ⟨?_, hroom⟩
        exact arrivesForeign_of_notFrom (hrp ▸ hfrom j hk'.symm)
    | _ => exact hold
  · rw [node_act_of_ne math lib pb d hj]
    exact hold

/-- **Any two routers agree as if they were alone.** -/
theorem agrees_after (h : lib.RoundTrips) {setup : ι → Setup} (hconf : WellConfigured lib setup)
    {es : List (DomainEvent ι)}
    (hes : Meets (step math lib pb) (KeepsRoom math lib pb) (first H setup) es) :
    ∀ i j, j ≠ i → Agrees lib setup (after math lib pb H setup es) i j := by
  induction es using List.reverseRecOn with
  | nil =>
    intro i j hij
    refine Channel.agreeing_first _ _ _ _ _ _ _ (hconf.network i j) ?_ (hconf.urisAreFields j)
    intro heq
    exact hij (hconf.routerPrefix_injective heq).symm
  | append_singleton es e ih =>
    obtain ⟨hbefore, hroom, -⟩ := meets_append.1 hes
    have hroom : KeepsRoom math lib pb (after math lib pb H setup es) e := hroom
    rw [after_concat]
    rcases step_cases math lib pb (after math lib pb H setup es) e with
      ⟨-, hstep⟩ | ⟨k, f, hlocated, hstep⟩
    · rw [hstep]
      exact ih hbefore
    · unfold KeepsRoom at hroom
      rw [hstep] at hroom ⊢
      have hk := hroom k
      rw [node_act_self] at hk
      refine agrees_act math lib pb h hconf (ih hbefore) (filtered_after math lib pb h setup es)
        hlocated ?_ hk
      rintro i j n version rest rfl
      cases hlocated with
      | lsaData hserved hx hunder =>
        exact sender_ne math lib pb h hconf (List.mem_of_getElem? hserved) hx hunder

end Domain

/-- What is stored of an origin says what it has served under the number. -/
theorem Channel.Agreeing.served_as_stored {lib : TextLib} {conf : ConfParameter} {w : Channel}
    (hw : w.Agreeing lib conf) {c : Counter} {l' : AnyLsa}
    (hl' : w.receiver.lsaOf c conf.routerPrefix = some l') :
    (∃ s ∈ w.origin.served, w.origin.IsOwn s c l'.lsSeqNo.toUInt64) ∧
      ∀ s ∈ w.origin.served, w.origin.IsOwn s c l'.lsSeqNo.toUInt64 → ∃ l : AnyLsa,
        s.content = l.getData lib ∧ l.SaysWritten lib l' := by
  have hpfx : w.origin.router.routerPrefix = conf.routerPrefix :=
    congrArg ConfParameter.routerPrefix hw.confParam
  obtain ⟨-, s, hs, hid, l, htells, hsaid⟩ := hw.stored c l' hl'
  have hown : w.origin.IsOwn s c l'.lsSeqNo.toUInt64 := by
    rw [Server.IsOwn, hpfx]
    exact hid
  refine ⟨⟨s, hs, hown⟩, fun s' hs' hown' => ⟨l, ?_, hsaid⟩⟩
  exact (hw.frozen.same s' hs' s hs c _ hown' hown).trans htells.content

namespace Domain

variable [DecidableEq ι] (math : MathLib) (lib : TextLib) (pb : Protobuf)

/-- **A domain agrees on LSAs.** Whatever was lost, repeated or mixed up: an LSA of a router that
is stored at another one has a number that its router has served, and says what is written in every
content that it has served under this number. -/
theorem domain_agrees (h : lib.RoundTrips) {setup : ι → Setup} (hconf : WellConfigured lib setup)
    (es : List (DomainEvent ι))
    (hes : Meets (step math lib pb) (KeepsRoom math lib pb) (first H setup) es) {i j : ι}
    (hij : j ≠ i) {c : Counter} {l' : AnyLsa}
    (hl' : ((after math lib pb H setup es).node i).router.lsaOf c
      (setup j).confParam.routerPrefix = some l') :
    let v := ((after math lib pb H setup es).node j).server
    (∃ s ∈ v.served, v.IsOwn s c l'.lsSeqNo.toUInt64) ∧
      ∀ s ∈ v.served, v.IsOwn s c l'.lsSeqNo.toUInt64 → ∃ l : AnyLsa,
        s.content = l.getData lib ∧ l.SaysWritten lib l' :=
  (agrees_after math lib pb h hconf hes i j hij).served_as_stored hl'

/-- Both others ask for a Name LSA and get it. -/
def bothStore : List (DomainEvent Three) :=
  toldOnce ++ [.syncData .c 0,
    .lsaInterest .a ((threeRouters .a).confParam.lsaInterestName .name 2),
    .lsaData .b .a 0 ⟨"v"⟩ [], .lsaData .c .a 0 ⟨"v"⟩ []]

theorem meets_bothStore : Meets (step ⟨0, id, id, id, id⟩ plainText wire)
    (KeepsRoom ⟨0, id, id, id, id⟩ plainText wire) (first checksum threeRouters) bothStore := by
  refine ⟨keepsRoom_of_fits _ _ _ ?_ _, keepsRoom_of_fits _ _ _ ?_ _, keepsRoom_of_fits _ _ _ ?_ _,
    keepsRoom_of_fits _ _ _ ?_ _, keepsRoom_of_fits _ _ _ ?_ _, keepsRoom_of_fits _ _ _ ?_ _,
    keepsRoom_of_fits _ _ _ ?_ _, keepsRoom_of_fits _ _ _ ?_ _, keepsRoom_of_fits _ _ _ ?_ _,
    keepsRoom_of_fits _ _ _ ?_ _, trivial⟩
  all_goals decide +kernel

theorem domain_agrees_bothStore :
    ∃ l' : AnyLsa, ((after ⟨0, id, id, id, id⟩ plainText wire checksum threeRouters bothStore).node
        .b).router.lsaOf .name (threeRouters .a).confParam.routerPrefix = some l' ∧
      let v := ((after ⟨0, id, id, id, id⟩ plainText wire checksum threeRouters bothStore).node
        .a).server
      (∃ s ∈ v.served, v.IsOwn s .name l'.lsSeqNo.toUInt64) ∧
        ∀ s ∈ v.served, v.IsOwn s .name l'.lsSeqNo.toUInt64 → ∃ l : AnyLsa,
          s.content = l.getData plainText ∧ l.SaysWritten plainText l' := by
  have hone : (((after ⟨0, id, id, id, id⟩ plainText wire checksum threeRouters bothStore).node
      .b).router.lsaOf .name (threeRouters .a).confParam.routerPrefix).map AnyLsa.lsSeqNo =
        some 2 := by decide +kernel
  obtain ⟨l', hl', -⟩ := Option.map_eq_some_iff.1 hone
  exact ⟨l', hl', domain_agrees _ plainText wire roundTrips_plainText
    wellConfigured_threeRouters bothStore meets_bothStore (by decide) hl'⟩

/-- **One number, one LSA.** Wherever in a domain other routers store LSAs of one router and of one
kind with one number, these say the same and expire at the same time. The LSA that the router itself
stores has an expiration time of finer resolution than the text. -/
theorem same_number_same_lsa (h : lib.RoundTrips) {setup : ι → Setup}
    (hconf : WellConfigured lib setup) (es : List (DomainEvent ι))
    (hes : Meets (step math lib pb) (KeepsRoom math lib pb) (first H setup) es) {i i' j : ι}
    (hij : j ≠ i) (hij' : j ≠ i') {c : Counter} {l l' : AnyLsa}
    (hl : ((after math lib pb H setup es).node i).router.lsaOf c
      (setup j).confParam.routerPrefix = some l)
    (hl' : ((after math lib pb H setup es).node i').router.lsaOf c
      (setup j).confParam.routerPrefix = some l')
    (hseq : l.lsSeqNo = l'.lsSeqNo) :
    l.SaysSame l' ∧ l.toLsa.expirationTimePoint = l'.toLsa.expirationTimePoint := by
  have hagrees := agrees_after math lib pb h hconf hes
  obtain ⟨-, s, hs, hid, w, htells, hsaid⟩ := (hagrees i j hij).stored c l hl
  obtain ⟨-, s', hs', hid', w', htells', hsaid'⟩ := (hagrees i' j hij').stored c l' hl'
  -- Both were read from what the router has served under the number
  have hpfx : ((after math lib pb H setup es).node j).server.router.routerPrefix =
      (setup j).confParam.routerPrefix :=
    congrArg ConfParameter.routerPrefix (hagrees i j hij).confParam
  have hcontent : s.content = s'.content := by
    refine (hagrees i j hij).frozen.same s hs s' hs' c l.lsSeqNo.toUInt64 ?_ ?_
    · rw [Server.IsOwn, hpfx]
      exact hid
    · rw [Server.IsOwn, hpfx, hseq]
      exact hid'
  refine AnyLsa.saysSame_of_saysWritten h (htells.plain rfl) (htells'.plain rfl) ?_ hsaid hsaid' ?_
  · exact htells.content.symm.trans (hcontent.trans htells'.content)
  · exact (origRouter_of_lsaOf hl).trans (origRouter_of_lsaOf hl').symm

theorem same_number_same_lsa_bothStore :
    ∃ l l', ((after ⟨0, id, id, id, id⟩ plainText wire checksum threeRouters bothStore).node
        .b).router.lsaOf .name (threeRouters .a).confParam.routerPrefix = some l ∧
      ((after ⟨0, id, id, id, id⟩ plainText wire checksum threeRouters bothStore).node
        .c).router.lsaOf .name (threeRouters .a).confParam.routerPrefix = some l' ∧
        l.SaysSame l' ∧ l.toLsa.expirationTimePoint = l'.toLsa.expirationTimePoint := by
  have hone : (((after ⟨0, id, id, id, id⟩ plainText wire checksum threeRouters bothStore).node
      .b).router.lsaOf .name (threeRouters .a).confParam.routerPrefix).map AnyLsa.lsSeqNo =
        some 2 := by decide +kernel
  have htwo : (((after ⟨0, id, id, id, id⟩ plainText wire checksum threeRouters bothStore).node
      .c).router.lsaOf .name (threeRouters .a).confParam.routerPrefix).map AnyLsa.lsSeqNo =
        some 2 := by decide +kernel
  obtain ⟨l, hl, hseq⟩ := Option.map_eq_some_iff.1 hone
  obtain ⟨l', hl', hseq'⟩ := Option.map_eq_some_iff.1 htwo
  exact ⟨l, l', hl, hl', same_number_same_lsa _ plainText wire roundTrips_plainText
    wellConfigured_threeRouters bothStore meets_bothStore (by decide) (by decide) hl hl'
    (hseq.trans hseq'.symm)⟩

end Domain

end LinkState
