import LinkState.Domain
import LinkState.Published

/-!
# What is asked for in a domain

Each router publishes under its own update prefix and nothing is ever removed, so all that the sync
protocol spreads are numbers that routers have announced. What the handlers ask for comes from
there.

* `none_throws`: no update makes a handler throw, so no router is brought down by another.
* `asked_was_announced`: every LSA Interest of a router, however often it is repeated, is for an LSA
  of another router, by the name that this router serves and with a number that it has announced.
-/

namespace LinkState

open Sync SequencingManager

variable {ι : Type*} {H : HashFunction}

/-! ## Publications of a router -/

/-- What a router publishes when it announces a number. -/
def publicationOf (conf : ConfParameter) (seqNo : UInt64) : Publication :=
  ⟨conf.updatePrefix, 0, seqNo, "NoData".toList⟩

@[simp] theorem seq_comp_publicationOf (conf : ConfParameter) :
    Publication.seq ∘ publicationOf conf = id := rfl

namespace Nlsr

/-- Data that is new and can be read is installed. -/
theorem onContentValidated_cases (lib : TextLib) (s : Nlsr) (dataName : Name)
    (dataContent : Text) :
    s.onContentValidated lib dataName dataContent = s ∨
      ∃ id l, s.lsaIdOf dataName 3 = some id ∧
        AnyLsa.initializeFromContent lib dataContent id.kind = .ok l ∧
        s.onContentValidated lib dataName dataContent = s.install l := by
  rw [onContentValidated_eq]
  cases hid : s.lsaIdOf dataName 3 with
  | none => exact Or.inl rfl
  | some id =>
    dsimp only
    unfold processContent
    split_ifs
    · cases hl : AnyLsa.initializeFromContent lib dataContent id.kind with
      | error e => exact Or.inl rfl
      | ok l => exact Or.inr ⟨id, l, rfl, hl, rfl⟩
    · exact Or.inl rfl

theorem confParam_onContentValidated (lib : TextLib) (s : Nlsr) (dataName : Name)
    (dataContent : Text) :
    (s.onContentValidated lib dataName dataContent).confParam = s.confParam := by
  rcases s.onContentValidated_cases lib dataName dataContent with h | ⟨_, l, -, -, h⟩ <;> rw [h]
  exact confParam_apply ⟨0, id, id, id, id⟩ s (.install l)

end Nlsr

namespace LsaFetcher

/-- **A step expresses an Interest or sends nothing.** A retry is for what was passed before. -/
theorem step_expresses {s : LsaFetcher} (h : s.Inv) (e : FetchEvent) :
    ((s.step e).passed = s.passed ∧ (s.step e).sent = s.sent) ∨
      ∃ i, Expresses s (s.step e) i ∧ (e.isLater → (i.lsaName, i.seqNo) ∈ s.passed) := by
  have hfails : ∀ deadline lsaName seqNo fetch,
      (s.onContentValidationFailed deadline lsaName seqNo fetch).passed = s.passed ∧
        (s.onContentValidationFailed deadline lsaName seqNo fetch).sent = s.sent := by
    intro deadline lsaName seqNo fetch
    unfold onContentValidationFailed
    dsimp only
    split_ifs <;> exact ⟨rfl, rfl⟩
  cases e with
  | advance d => exact Or.inl ⟨rfl, rfl⟩
  | syncUpdate lsaName seqNo =>
    refine Or.inr ⟨_, expresses_expressInterestForLsa h lsaName seqNo, fun he => ?_⟩
    cases he
  | timeout interest =>
    unfold step
    dsimp only
    cases hi : s.sent[interest]? with
    | none => exact Or.inl ⟨rfl, rfl⟩
    | some i =>
      have hmem := List.mem_of_getElem? hi
      rcases processInterestTimedOut_cases h hmem with hsame | ⟨-, hexpresses⟩
      · exact Or.inl ⟨congrArg passed hsame, congrArg sent hsame⟩
      · exact Or.inr ⟨_, hexpresses, fun _ => h.passed i hmem⟩
  | validationFails interest =>
    unfold step
    dsimp only
    cases s.sent[interest]? with
    | none => exact Or.inl ⟨rfl, rfl⟩
    | some i => exact Or.inl (hfails ..)
  | revalidationFails revalidation =>
    unfold step
    dsimp only
    cases s.revalidations[revalidation]? with
    | none => exact Or.inl ⟨rfl, rfl⟩
    | some r => exact Or.inl (hfails ..)

theorem Expresses.passed_eq {s t : LsaFetcher} {i : LsaInterest} (h : Expresses s t i) :
    t.passed = s.passed ++ [(i.lsaName, i.seqNo)] :=
  congrArg passed h.frame

/-- A retry passes only what was passed before. -/
theorem passed_step_of_isLater {s : LsaFetcher} (h : s.Inv) {e : FetchEvent} (he : e.isLater) :
    ∀ r ∈ (s.step e).passed, r ∈ s.passed := by
  intro r hr
  rcases step_expresses h e with ⟨hpassed, -⟩ | ⟨i, hi, hlater⟩
  · rwa [hpassed] at hr
  · rw [hi.passed_eq] at hr
    rcases List.mem_append.1 hr with hr | hr
    · exact hr
    · rw [List.mem_singleton.1 hr]
      exact hlater he

/-- For all that was passed an Interest was sent, with this number or a larger one. -/
def Sends (s : LsaFetcher) : Prop :=
  ∀ r ∈ s.passed, ∃ i ∈ s.sent, i.lsaName = r.1 ∧ r.2 ≤ i.seqNo

/-- What is known of a fetcher: what it was asked for, it asks for. -/
structure Asks (s : LsaFetcher) : Prop where
  inv : s.Inv
  sends : s.Sends

theorem Asks.step {s : LsaFetcher} (h : s.Asks) (e : FetchEvent) : (s.step e).Asks := by
  refine ⟨inv_step h.inv e, ?_⟩
  intro r hr
  rcases step_expresses h.inv e with ⟨hpassed, hsent⟩ | ⟨i, hi, -⟩
  · rw [hsent]
    exact h.sends r (hpassed ▸ hr)
  rw [hi.passed_eq] at hr
  rcases List.mem_append.1 hr with hr | hr
  · obtain ⟨j, hj, hname, hle⟩ := h.sends r hr
    refine ⟨j, ?_, hname, hle⟩
    rcases hi.sent with ⟨-, hsent⟩ | ⟨-, hsent⟩ <;> rw [hsent]
    · exact hj
    · exact List.mem_append_left _ hj
  obtain rfl := List.mem_singleton.1 hr
  rcases hi.sent with ⟨⟨q, hq, hlt⟩, hsent⟩ | ⟨-, hsent⟩ <;> rw [hsent]
  -- A larger number was passed before, and an Interest was sent for that
  · obtain ⟨j, hj, hname, hle⟩ := h.sends _ hq
    exact ⟨j, hj, hname, UInt64.le_of_lt (UInt64.lt_of_lt_of_le hlt hle)⟩
  · exact ⟨i, List.mem_append_right _ (List.mem_singleton_self i), rfl, UInt64.le_refl _⟩

theorem Asks.run {s : LsaFetcher} (h : s.Asks) (es : List FetchEvent) :
    (run LsaFetcher.step s es).Asks :=
  run_induction (P := Asks) (fun _ e h => h.step e) h es

theorem asks_start (now : TimePoint) (lifetime : LsaInterestLifetime) :
    (start now lifetime).Asks :=
  ⟨inv_start now lifetime, fun _ hr => absurd hr List.not_mem_nil⟩

/-- Nothing that was passed is forgotten. -/
theorem passed_run {s : LsaFetcher} (h : s.Inv) (es : List FetchEvent) :
    s.passed ⊆ (LinkState.run LsaFetcher.step s es).passed := by
  induction es generalizing s with
  | nil => exact List.Subset.refl _
  | cons e es ih =>
    have hone : s.passed ⊆ (s.step e).passed := by
      rcases step_expresses h e with ⟨hpassed, -⟩ | ⟨i, hi, -⟩
      · rw [hpassed]
        exact List.Subset.refl _
      · rw [hi.passed_eq]
        exact List.subset_append_left _ _
    exact List.Subset.trans hone (ih (inv_step h e))

end LsaFetcher

namespace Node

variable (math : MathLib) (lib : TextLib) (pb : Protobuf)

@[simp] theorem router_goTo (n : Node H) (router : Nlsr) : (n.goTo lib router).router = router := by
  obtain ⟨posted, threw, h⟩ := n.goTo_frame lib router
  rw [h]
  rfl

@[simp] theorem router_hear (n : Node H) (out : List Output) : (n.hear lib out).router = n.router := by
  obtain ⟨fetcher, threw, h⟩ := n.hear_frame lib out
  rw [h]
  rfl

/-- The router after an event. -/
def nextRouter (n : Node H) : NodeEvent → Nlsr
  | .turn e => n.router.step math e
  | .lsaData dataName dataContent => n.router.onContentValidated lib dataName dataContent
  | _ => n.router

theorem router_step (n : Node H) (f : NodeEvent) :
    (n.step math lib pb f).router = n.nextRouter math lib f := by
  cases f with
  | turn e => exact n.router_goTo lib _
  | lsaInterest interestName =>
    show (n.onLsaInterest math lib interestName).router = n.router
    unfold onLsaInterest
    split_ifs
    · unfold router Server.step
      dsimp only
      cases n.server.router.processInterest lib interestName <;> rfl
    · rfl
  | lsaData dataName dataContent => exact n.router_goTo lib _
  | fetch e => rfl
  | posted => exact router_hear lib _ _
  | sync e => exact router_hear lib _ _

theorem confParam_nextRouter (n : Node H) (f : NodeEvent) :
    (n.nextRouter math lib f).confParam = n.router.confParam := by
  cases f with
  | turn e => exact Nlsr.confParam_step math n.router e
  | lsaData dataName dataContent =>
    exact n.router.confParam_onContentValidated lib dataName dataContent
  | _ => rfl

/-- **What a router announces is posted.** -/
theorem goTo_eq (h : lib.RoundTrips) (n : Node H) (router : Nlsr) :
    n.goTo lib router =
      { n with
        server := { n.server with router := router }
        socket := { n.socket with
          posted := n.socket.posted ++
            (router.published.drop n.router.published.length).map
              (publicationOf router.confParam) } } := by
  unfold goTo
  generalize router.published.drop n.router.published.length = seqNos
  induction seqNos using List.reverseRecOn with
  | nil => simp
  | append_singleton seqNos seqNo ih =>
    rw [List.foldl_append, ih]
    simp [publish, SyncLogicHandler.publishSyncUpdate_eq h, SyncSocket.publishData, publicationOf,
      updatePrefix, Node.router]

/-- What is still posted after an event. -/
def stillPosted (n : Node H) : NodeEvent → List Publication
  | .posted => n.socket.posted.tail
  | _ => n.socket.posted

/-- What an event makes the router announce. -/
def announced (n : Node H) (f : NodeEvent) : List UInt64 :=
  (n.nextRouter math lib f).published.drop n.router.published.length

theorem posted_step_posted (n : Node H) :
    (n.step math lib pb .posted).socket.posted = n.socket.posted.tail := by
  show (n.setSocket lib (n.socket.runPosted lib pb)).1.socket.posted = n.socket.posted.tail
  simp only [setSocket, socket_hear, SyncSocket.runPosted]
  cases hp : n.socket.posted with
  | nil => exact hp
  | cons p posted => rfl

/-- **What is posted after an event.** -/
theorem posted_step (h : lib.RoundTrips) (n : Node H) (f : NodeEvent) :
    (n.step math lib pb f).socket.posted =
      n.stillPosted f ++ (n.announced math lib f).map (publicationOf n.router.confParam) := by
  have hconf := n.confParam_nextRouter math lib f
  have hsame : n.nextRouter math lib f = n.router → n.announced math lib f = [] := by
    intro hrouter
    rw [announced, hrouter, List.drop_length]
  rw [← hconf]
  cases f with
  | turn e =>
    show (n.goTo lib (n.router.step math e)).socket.posted = _
    rw [goTo_eq lib h]
    rfl
  | lsaData dataName dataContent =>
    show (n.goTo lib (n.router.onContentValidated lib dataName dataContent)).socket.posted = _
    rw [goTo_eq lib h]
    rfl
  | lsaInterest interestName =>
    rw [hsame rfl, List.map_nil, List.append_nil]
    show (n.onLsaInterest math lib interestName).socket.posted = n.socket.posted
    unfold onLsaInterest
    split_ifs <;> rfl
  | fetch e =>
    rw [hsame rfl, List.map_nil, List.append_nil]
    rfl
  | posted =>
    rw [hsame rfl, List.map_nil, List.append_nil]
    exact posted_step_posted math lib pb n
  | sync e =>
    rw [hsame rfl, List.map_nil, List.append_nil]
    show (n.setSocket lib (n.socket.logicTurn pb e)).1.socket.posted = n.socket.posted
    simp only [setSocket, socket_hear, SyncSocket.logicTurn]

/-- **The callbacks run one after the other.** -/
theorem hear_eq {n : Node H} {out : List Output} {fetcher : LsaFetcher}
    (h : SyncLogicHandler.onNsyncUpdate lib n.router n.fetcher (SyncLogic.reported out) =
      some fetcher) : n.hear lib out = { n with fetcher := fetcher } := by
  induction out generalizing n with
  | nil =>
    obtain rfl : n.fetcher = fetcher := Option.some.inj h
    rfl
  | cons o out ih =>
    have hsplit : SyncLogic.reported (o :: out) =
        SyncLogic.reported [o] ++ SyncLogic.reported out := by
      rw [← SyncLogic.reported_append, List.singleton_append]
    show hear lib (n.hearOne lib o) out = _
    cases o with
    | onUpdate v =>
      have hv : SyncLogic.reported [.onUpdate v] = v := by simp [SyncLogic.reported]
      rw [hsplit, hv, SyncLogicHandler.onNsyncUpdate, List.foldlM_append] at h
      obtain ⟨first, hfirst, hrest⟩ := Option.bind_eq_some_iff.1 h
      change SyncLogicHandler.onNsyncUpdate lib n.router n.fetcher v = some first at hfirst
      have hone : n.hearOne lib (.onUpdate v) = { n with fetcher := first } := by
        simp [hearOne, hfirst]
      rw [hone, ih (n := { n with fetcher := first }) hrest]
    | _ => exact ih h

/-- **What was published stays published.** -/
theorem published_nextRouter (n : Node H) (f : NodeEvent) :
    (n.nextRouter math lib f).published = n.router.published ++ n.announced math lib f := by
  have hadds : Nlsr.Adds n.router (n.nextRouter math lib f) := by
    cases f with
    | turn e => exact Nlsr.adds_step math n.router e
    | lsaData dataName dataContent =>
      show Nlsr.Adds n.router (n.router.onContentValidated lib dataName dataContent)
      rcases n.router.onContentValidated_cases lib dataName dataContent with
        h | ⟨_, l, -, -, h⟩ <;> rw [h]
      · exact Nlsr.Adds.refl n.router
      · exact (Nlsr.onlyLsdb_install n.router l).adds
    | _ => exact Nlsr.Adds.refl n.router
  exact (List.prefix_iff_eq_append.1 hadds).symm

/-- **A node keeps its configuration and publishes under its own prefix.** -/
structure Configured (conf : ConfParameter) (n : Node H) : Prop where
  confParam : n.router.confParam = conf
  posted : ∀ p ∈ n.socket.posted, p = publicationOf conf p.seq

theorem Configured.step {conf : ConfParameter} (h : lib.RoundTrips) {n : Node H}
    (hn : n.Configured conf) (f : NodeEvent) : (n.step math lib pb f).Configured conf := by
  refine ⟨?_, ?_⟩
  · rw [n.router_step, n.confParam_nextRouter, hn.confParam]
  · rw [n.posted_step math lib pb h f, hn.confParam]
    intro p hp
    rcases List.mem_append.1 hp with hp | hp
    · refine hn.posted p ?_
      cases f with
      | posted => exact List.mem_of_mem_tail hp
      | _ => exact hp
    · obtain ⟨seqNo, -, rfl⟩ := List.mem_map.1 hp
      rfl

/-! ## What a node asks for -/

/-- The callbacks only ask for more. -/
theorem fetcher_hear (n : Node H) (out : List Output) :
    ∃ es, (n.hear lib out).fetcher = run LsaFetcher.step n.fetcher es := by
  induction out generalizing n with
  | nil => exact ⟨[], rfl⟩
  | cons o out ih =>
    have hone : ∃ es, (n.hearOne lib o).fetcher = run LsaFetcher.step n.fetcher es := by
      cases o with
      | onUpdate v =>
        unfold hearOne
        dsimp only
        rw [SyncLogicHandler.onNsyncUpdate_eq]
        cases SyncLogicHandler.updatesOf lib v with
        | none => exact ⟨[], rfl⟩
        | some updates => exact ⟨_, rfl⟩
      | _ => exact ⟨[], rfl⟩
    obtain ⟨es, hone⟩ := hone
    obtain ⟨es', hrest⟩ := ih (n.hearOne lib o)
    refine ⟨es ++ es', ?_⟩
    show (hear lib (n.hearOne lib o) out).fetcher = _
    rw [hrest, hone, run_append]

/-- A step is steps of the fetcher. -/
theorem fetcher_step (n : Node H) (f : NodeEvent) :
    ∃ es, (n.step math lib pb f).fetcher = run LsaFetcher.step n.fetcher es := by
  have hgoTo : ∀ router, (n.goTo lib router).fetcher = n.fetcher := by
    intro router
    obtain ⟨posted, threw, h⟩ := n.goTo_frame lib router
    rw [h]
  cases f with
  | turn e => exact ⟨[], hgoTo _⟩
  | lsaData dataName dataContent => exact ⟨[], hgoTo _⟩
  | lsaInterest interestName =>
    refine ⟨[], ?_⟩
    show (n.onLsaInterest math lib interestName).fetcher = n.fetcher
    unfold onLsaInterest
    split_ifs <;> rfl
  | fetch e => exact ⟨[e], rfl⟩
  | posted => exact fetcher_hear lib _ _
  | sync e => exact fetcher_hear lib _ _

/-- No exception has left the event loop, and all that was asked for is in `K`. -/
structure Asking (K : Name × UInt64 → Prop) (n : Node H) : Prop where
  calm : n.threw = false
  fetcher : n.fetcher.Asks
  passed : ∀ r ∈ n.fetcher.passed, K r

theorem Asking.mono {K K' : Name × UInt64 → Prop} (hK : ∀ r, K r → K' r) {n : Node H}
    (hn : n.Asking K) : n.Asking K' :=
  ⟨hn.calm, hn.fetcher, fun r hr => hK r (hn.passed r hr)⟩

theorem reported_runPosted (s : SyncSocket H) :
    SyncLogic.reported (s.runPosted lib pb).2 = [] := by
  unfold SyncSocket.runPosted
  cases s.posted with
  | nil => rfl
  | cons p posted => exact SyncLogic.reported_addLocalNames pb s.syncLogic _ _ _

/-- What a step of the sync logic is to the node. -/
theorem step_sync_eq {n : Node H} {e : SyncLogic.Event} {requests : List (Name × UInt64)}
    (h : SyncLogicHandler.onNsyncUpdate lib n.router n.fetcher
      (SyncLogic.reported (n.socket.syncLogic.turn pb e).2) =
        some (SyncLogicHandler.ask n.fetcher requests)) :
    n.step math lib pb (.sync e) =
      { n with
        socket := (n.socket.logicTurn pb e).1
        fetcher := SyncLogicHandler.ask n.fetcher requests } :=
  hear_eq (n := { n with socket := (n.socket.logicTurn pb e).1 }) lib h

/-- **A step asks for what the updates ask for**, and for nothing else. -/
theorem Asking.step (h : lib.RoundTrips) {K : Name × UInt64 → Prop} {n : Node H}
    (hn : n.Asking K) {f : NodeEvent} (hlater : ∀ e, f = .fetch e → e.isLater)
    (hsync : ∀ e, f = .sync e → ∃ requests,
      SyncLogicHandler.onNsyncUpdate lib n.router n.fetcher
        (SyncLogic.reported (n.socket.syncLogic.turn pb e).2) =
          some (SyncLogicHandler.ask n.fetcher requests) ∧ ∀ r ∈ requests, K r) :
    (n.step math lib pb f).Asking K := by
  have hfetcher : (n.step math lib pb f).fetcher.Asks := by
    obtain ⟨es, hes⟩ := n.fetcher_step math lib pb f
    rw [hes]
    exact hn.fetcher.run es
  have hsame : ∀ {m : Node H}, m.threw = n.threw → m.fetcher = n.fetcher → m.Asking K := by
    intro m hthrew hfetcher
    refine ⟨hthrew.trans hn.calm, ?_, ?_⟩ <;> rw [hfetcher]
    · exact hn.fetcher
    · exact hn.passed
  cases f with
  | turn e =>
    refine hsame (m := n.goTo lib (n.router.step math e)) ?_ ?_ <;> rw [goTo_eq lib h]
  | lsaData dataName dataContent =>
    refine hsame (m := n.goTo lib (n.router.onContentValidated lib dataName dataContent)) ?_ ?_ <;>
      rw [goTo_eq lib h]
  | lsaInterest interestName =>
    refine hsame (m := n.onLsaInterest math lib interestName) ?_ ?_ <;>
    · unfold onLsaInterest
      split_ifs <;> rfl
  | fetch e =>
    refine ⟨hn.calm, hfetcher, fun r hr => hn.passed r ?_⟩
    exact LsaFetcher.passed_step_of_isLater hn.fetcher.inv (hlater e rfl) r hr
  | posted =>
    have hheard : (n.setSocket lib (n.socket.runPosted lib pb)).1 =
        { n with socket := (n.socket.runPosted lib pb).1 } := by
      refine hear_eq (n := { n with socket := (n.socket.runPosted lib pb).1 }) lib ?_
      rw [reported_runPosted]
      rfl
    refine hsame (m := (n.setSocket lib (n.socket.runPosted lib pb)).1) ?_ ?_ <;> rw [hheard]
  | sync e =>
    obtain ⟨requests, hrequests, hK⟩ := hsync e rfl
    refine ⟨?_, hfetcher, ?_⟩ <;> rw [step_sync_eq math lib pb hrequests]
    · exact hn.calm
    · intro r hr
      rw [SyncLogicHandler.passed_ask hn.fetcher.inv] at hr
      rcases List.mem_append.1 hr with hr | hr
      · exact hn.passed r hr
      · exact hK r hr

end Node

namespace Domain

variable [DecidableEq ι] (math : MathLib) (lib : TextLib) (pb : Protobuf)

theorem configured_after (h : lib.RoundTrips) (setup : ι → Setup) (es : List (DomainEvent ι))
    (i : ι) : ((after math lib pb H setup es).node i).Configured (setup i).confParam := by
  induction es using List.reverseRecOn generalizing i with
  | nil => exact ⟨Nlsr.confParam_initializeNlsr .., fun p hp => absurd hp List.not_mem_nil⟩
  | append_singleton es e ih =>
    rw [after_concat]
    rcases step_cases math lib pb (after math lib pb H setup es) e with
      ⟨-, hstep⟩ | ⟨j, f, -, hstep⟩ <;> rw [hstep]
    · exact ih i
    · by_cases hj : i = j
      · subst hj
        rw [node_act_self]
        exact (ih i).step math lib pb h f
      · rw [node_act_of_ne math lib pb _ hj]
        exact ih i

/-- What the sync logics are given: numbers of routers, each under the prefix of its router. -/
def FromRouters (lib : TextLib) (setup : ι → Setup) : NetworkEvent ι → Prop
  | .addLocalNames i namePrefix session _ =>
    namePrefix = uriOf lib (setup i).confParam.updatePrefix ∧ session = 0
  | .remove _ _ => False
  | _ => True

theorem fromRouters_netTrace (h : lib.RoundTrips) (setup : ι → Setup)
    (es : List (DomainEvent ι)) :
    ∀ e ∈ netTrace math lib pb H setup es, FromRouters lib setup e := by
  induction es using List.reverseRecOn with
  | nil => simp [netTrace, trace]
  | append_singleton es e ih =>
    rw [netTrace_concat]
    intro ne hne
    rcases List.mem_append.1 hne with hne | hne
    · exact ih ne hne
    · cases e with
      | posted i =>
        simp only [networkEvents, List.mem_map, Option.mem_toList] at hne
        obtain ⟨p, hp, rfl⟩ := hne
        have hposted := (configured_after math lib pb h (H := H) setup es i).posted p
          (List.mem_of_head? hp)
        rw [hposted]
        exact ⟨rfl, rfl⟩
      | turn i e => exact absurd hne List.not_mem_nil
      | lsaInterest i interestName => exact absurd hne List.not_mem_nil
      | lsaData i k n version rest => exact absurd hne List.not_mem_nil
      | fetch i e => exact absurd hne List.not_mem_nil
      | _ =>
        obtain rfl := List.mem_singleton.1 hne
        trivial

/-- The sync logic of a router was given a number. -/
def HandedOver (lib : TextLib) (setup : ι → Setup) (tr : List (NetworkEvent ι)) (j : ι)
    (seqNo : UInt64) : Prop :=
  .addLocalNames j (uriOf lib (setup j).confParam.updatePrefix) 0 seqNo ∈ tr

theorem noRemovals_netTrace (h : lib.RoundTrips) (setup : ι → Setup) (es : List (DomainEvent ι)) :
    Network.NoRemovals (netTrace math lib pb H setup es) := by
  intro i namePrefix hmem
  exact fromRouters_netTrace math lib pb h setup es _ hmem

/-- What was published is a number of a router. -/
theorem handedOver_of_published (h : lib.RoundTrips) {setup : ι → Setup}
    {es : List (DomainEvent ι)} {info : String} {v : SeqNo}
    (hpub : Network.Published (netTrace math lib pb H setup es) info (.set v)) :
    ∃ j, info = uriOf lib (setup j).confParam.updatePrefix ∧ v.session = 0 ∧
      HandedOver lib setup (netTrace math lib pb H setup es) j v.seq := by
  obtain ⟨j, ⟨session, seq, hmem, hc⟩ | ⟨hmem, -⟩ | ⟨-, ⟨namePrefix, hmem⟩, -⟩⟩ := hpub
  · obtain ⟨rfl, rfl⟩ := fromRouters_netTrace math lib pb h setup es _ hmem
    cases hc
    exact ⟨j, rfl, rfl, hmem⟩
  · exact absurd hmem (noRemovals_netTrace math lib pb h setup es j info)
  · exact absurd hmem (noRemovals_netTrace math lib pb h setup es j namePrefix)

/-- **What is reported at a router is a number that a router handed over.** -/
theorem handedOver_of_reported (h : lib.RoundTrips) {setup : ι → Setup}
    {es : List (DomainEvent ι)} {e : DomainEvent ι} {i : ι} {f : SyncLogic.Event}
    (hlocate : Located (after math lib pb H setup es) e i (.sync f)) {mdi : MissingDataInfo}
    (hmdi : mdi ∈ SyncLogic.reported
      (((after math lib pb H setup es).node i).socket.syncLogic.turn pb f).2) :
    ∃ j, mdi.namePrefix = uriOf lib (setup j).confParam.updatePrefix ∧ mdi.high.session = 0 ∧
      HandedOver lib setup (netTrace math lib pb H setup (es ++ [e])) j mdi.high.seq := by
  obtain ⟨ne, hne, hlocated⟩ := network_locate hlocate lib
  have hsound := Network.sound_after pb false (H := H) (netTrace math lib pb H setup es)
  rw [network_after] at hlocated
  have hpub := Network.published_of_brings pb hsound hlocated
    (SyncLogic.brings_of_reported pb hmdi)
  rw [← hne, ← netTrace_concat] at hpub
  exact handedOver_of_published math lib pb h hpub

/-- The numbers that the sync logic of a router was given, in this order. -/
def handed (tr : List (NetworkEvent ι)) (j : ι) : List UInt64 :=
  tr.filterMap fun
    | .addLocalNames i _ _ seq => if i = j then some seq else none
    | _ => none

theorem mem_handed {setup : ι → Setup} {tr : List (NetworkEvent ι)}
    (h : ∀ e ∈ tr, FromRouters lib setup e) {j : ι} {seqNo : UInt64} :
    seqNo ∈ handed tr j ↔ HandedOver lib setup tr j seqNo := by
  unfold handed
  rw [List.mem_filterMap]
  constructor
  · intro hmem
    obtain ⟨e, he, hseq⟩ := hmem
    cases e with
    | addLocalNames i namePrefix session seq =>
      simp only [Option.ite_none_right_eq_some, Option.some.injEq] at hseq
      obtain ⟨rfl, rfl⟩ := hseq
      obtain ⟨rfl, rfl⟩ := h _ he
      exact he
    | _ => simp at hseq
  · intro hmem
    exact ⟨_, hmem, by simp⟩

theorem handed_append (tr tr' : List (NetworkEvent ι)) (j : ι) :
    handed (tr ++ tr') j = handed tr j ++ handed tr' j :=
  List.filterMap_append ..

/-- Only what was posted is handed over. -/
theorem handed_networkEvents (d : Domain ι H) (i j : ι) :
    handed (d.networkEvents lib (.posted i)) j =
      if i = j then ((d.node i).socket.posted.head?.map Publication.seq).toList else [] := by
  unfold networkEvents handed
  cases hp : (d.node i).socket.posted with
  | nil => simp [hp]
  | cons p posted =>
    by_cases hij : i = j
    · subst hij
      simp [hp]
    · simp [hp, hij]

theorem handed_networkEvents_of_ne (d : Domain ι H) {e : DomainEvent ι} (h : ∀ i, e ≠ .posted i)
    (j : ι) : handed (d.networkEvents lib e) j = [] := by
  cases e with
  | posted i => exact absurd rfl (h i)
  | _ => rfl

/-- **What a router has published is what its sync logic was given, and what is still posted.** -/
theorem published_after (h : lib.RoundTrips) (setup : ι → Setup) (es : List (DomainEvent ι))
    (j : ι) :
    ((after math lib pb H setup es).node j).router.published =
      handed (netTrace math lib pb H setup es) j ++
        ((after math lib pb H setup es).node j).socket.posted.map Publication.seq := by
  induction es using List.reverseRecOn with
  | nil => exact Nlsr.published_initializeNlsr ..
  | append_singleton es e ih =>
    rw [after_concat, netTrace_concat, handed_append]
    generalize after math lib pb H setup es = d at ih ⊢
    rcases step_cases math lib pb d e with ⟨hnone, hstep⟩ | ⟨i, f, hlocated, hstep⟩ <;> rw [hstep]
    · have hne : ∀ i, e ≠ .posted i := by
        rintro i rfl
        cases hnone
      rw [handed_networkEvents_of_ne lib d hne, List.append_nil]
      exact ih
    by_cases hj : j = i
    · subst hj
      rw [node_act_self, Node.router_step, Node.published_nextRouter, ih,
        Node.posted_step math lib pb h]
      cases hlocated with
      | posted =>
        rw [handed_networkEvents, if_pos rfl]
        cases hp : (d.node j).socket.posted <;> simp [Node.stillPosted, hp]
      | _ =>
        rw [handed_networkEvents_of_ne lib d (by simp)]
        simp [Node.stillPosted]
    · rw [node_act_of_ne math lib pb d hj]
      have hnone : handed (d.networkEvents lib e) j = [] := by
        cases hlocated with
        | posted => rw [handed_networkEvents, if_neg (Ne.symm hj)]
        | _ => rfl
      rw [hnone, List.append_nil]
      exact ih

/-! ## What is asked for in a domain -/

/-- An LSA of another router, by a number that its sync logic was given. -/
def Requested (lib : TextLib) (setup : ι → Setup) (tr : List (NetworkEvent ι)) (i : ι)
    (r : Name × UInt64) : Prop :=
  ∃ j c seqNo, j ≠ i ∧ HandedOver lib setup tr j seqNo ∧
    r = ((setup j).confParam.updatePrefix ++ [c.component], announcedSeqNo seqNo c)

/-- What the handler asks for when something arrives. -/
theorem asks_of_reported (h : lib.RoundTrips) {setup : ι → Setup} (hconf : WellConfigured lib setup)
    {es : List (DomainEvent ι)} {e : DomainEvent ι} {i : ι} {f : SyncLogic.Event}
    (hlocated : Located (after math lib pb H setup es) e i (.sync f)) :
    let n := (after math lib pb H setup es).node i
    ∃ requests, SyncLogicHandler.onNsyncUpdate lib n.router n.fetcher
        (SyncLogic.reported (n.socket.syncLogic.turn pb f).2) =
          some (SyncLogicHandler.ask n.fetcher requests) ∧
      ∀ r, r ∈ requests ↔ ∃ mdi ∈ SyncLogic.reported (n.socket.syncLogic.turn pb f).2,
        ∃ j c, j ≠ i ∧ mdi.namePrefix = uriOf lib (setup j).confParam.updatePrefix ∧
          n.router.isLsaNew ((setup j).confParam.lsaId c (announcedSeqNo mdi.high.seq c)) ∧
          r = ((setup j).confParam.updatePrefix ++ [c.component],
            announcedSeqNo mdi.high.seq c) := by
  intro n
  generalize hv : SyncLogic.reported (n.socket.syncLogic.turn pb f).2 = v
  have hfrom : ∀ mdi : MissingDataInfo, ∃ j : ι, mdi ∈ v →
      mdi.namePrefix = uriOf lib (setup j).confParam.updatePrefix := by
    intro mdi
    by_cases hmdi : mdi ∈ v
    · obtain ⟨j, hj, -⟩ := handedOver_of_reported math lib pb h hlocated (hv ▸ hmdi)
      exact ⟨j, fun _ => hj⟩
    · exact ⟨i, fun hmem => absurd hmem hmdi⟩
  choose origin horigin using hfrom
  have hupdates : SyncLogicHandler.updatesOf lib v = some (v.map fun mdi =>
      SyncLogicHandler.updateOf (setup (origin mdi)).confParam mdi.high.seq) :=
    SyncLogicHandler.updatesOf_eq h horigin
  refine ⟨_, by rw [SyncLogicHandler.onNsyncUpdate_eq, hupdates]; rfl, fun r => ?_⟩
  have hown : n.router.confParam = (setup i).confParam :=
    (configured_after math lib pb h (H := H) setup es i).confParam
  simp only [List.flatMap_map, List.mem_flatMap]
  refine exists_congr fun mdi => and_congr_right fun hmdi => ?_
  rw [SyncLogicHandler.mem_requestsFor (hconf.noNLSR _) (hconf.noLSA _), hown]
  constructor
  · intro hr
    obtain ⟨hne, c, hnew, rfl⟩ := hr
    exact ⟨origin mdi, c, fun heq => hne (by rw [heq]), horigin mdi hmdi, hnew, rfl⟩
  · intro hr
    obtain ⟨j, c, hne, hunder, hnew, rfl⟩ := hr
    obtain rfl : j = origin mdi := hconf.updatePrefix_injective
      (uriOf_injective h (hunder.symm.trans (horigin mdi hmdi)))
    exact ⟨fun heq => hne (hconf.routerPrefix_injective heq), c, hnew, rfl⟩

theorem asking_after (h : lib.RoundTrips) {setup : ι → Setup} (hconf : WellConfigured lib setup)
    (es : List (DomainEvent ι)) (i : ι) :
    ((after math lib pb H setup es).node i).Asking
      (Requested lib setup (netTrace math lib pb H setup es) i) := by
  induction es using List.reverseRecOn generalizing i with
  | nil =>
    exact ⟨rfl, LsaFetcher.asks_start _ _, fun r hr => absurd hr List.not_mem_nil⟩
  | append_singleton es e ih =>
    have hmono : ((after math lib pb H setup es).node i).Asking
        (Requested lib setup (netTrace math lib pb H setup (es ++ [e])) i) := by
      refine (ih i).mono fun r hr => ?_
      obtain ⟨j, c, seqNo, hne, hhanded, hr⟩ := hr
      rw [netTrace_concat]
      exact ⟨j, c, seqNo, hne, List.mem_append_left _ hhanded, hr⟩
    rw [after_concat]
    rcases step_cases math lib pb (after math lib pb H setup es) e with
      ⟨-, hstep⟩ | ⟨k, f, hlocated, hstep⟩ <;> rw [hstep]
    · exact hmono
    by_cases hk : i = k
    · subst hk
      rw [node_act_self]
      refine hmono.step math lib pb h ?_ ?_
      · rintro e' rfl
        cases hlocated with
        | fetch he => exact he
      · rintro g rfl
        obtain ⟨requests, hrequests, hmem⟩ := asks_of_reported math lib pb h hconf hlocated
        refine ⟨requests, hrequests, fun r hr => ?_⟩
        obtain ⟨mdi, hmdi, j, c, hne, hunder, -, rfl⟩ := (hmem r).1 hr
        obtain ⟨j', hj', -, hhanded⟩ := handedOver_of_reported math lib pb h hlocated hmdi
        obtain rfl : j = j' := hconf.updatePrefix_injective
          (uriOf_injective h (hunder.symm.trans hj'))
        exact ⟨j, c, mdi.high.seq, hne, hhanded, rfl⟩
    · rw [node_act_of_ne math lib pb _ hk]
      exact hmono

/-- One of three routers advertises a prefix, and another one is told. -/
def toldOnce : List (DomainEvent Three) :=
  [.due .b 0 0, .turn .a (.clock 5000000000), .turn .a (.advertise [⟨"p"⟩]), .posted .a,
    .syncInterest .a 0 0, .syncData .b 0]

/-- **What is asked for was announced.** Every LSA Interest that a router has sent, however often
it was sent again, is for an LSA of another router: it has the name that this router serves, with a
number that this router has published. -/
theorem asked_was_announced (h : lib.RoundTrips) {setup : ι → Setup}
    (hconf : WellConfigured lib setup) (es : List (DomainEvent ι)) (i : ι) :
    let d := after math lib pb H setup es
    ∀ x ∈ (d.node i).fetcher.sent, ∃ j c, j ≠ i ∧ ∃ p ∈ (d.node j).router.published,
      x.name = (setup j).confParam.lsaInterestName c (announcedSeqNo p c) := by
  intro d x hx
  have hasking := asking_after math lib pb h hconf (H := H) es i
  obtain ⟨j, c, p, hne, hhanded, hr⟩ := hasking.passed _ (hasking.fetcher.inv.passed x hx)
  obtain ⟨hname, hseq⟩ := Prod.mk.inj hr
  refine ⟨j, c, hne, p, ?_, ?_⟩
  · rw [published_after math lib pb h]
    exact List.mem_append_left _
      ((mem_handed lib (fromRouters_netTrace math lib pb h setup es)).2 hhanded)
  · rw [hasking.fetcher.inv.named x hx, hname, hseq]
    simp [ConfParameter.lsaInterestName]

/-- The other one asks for an LSA of each kind. -/
theorem asked_was_announced_toldOnce :
    let d := after ⟨0, id, id, id, id⟩ plainText wire checksum threeRouters toldOnce
    (d.node .b).fetcher.sent.length = 3 ∧
      ∀ x ∈ (d.node .b).fetcher.sent, ∃ j c, j ≠ .b ∧ ∃ p ∈ (d.node j).router.published,
        x.name = (threeRouters j).confParam.lsaInterestName c (announcedSeqNo p c) :=
  ⟨by decide +kernel, asked_was_announced _ plainText wire roundTrips_plainText
    wellConfigured_threeRouters toldOnce .b⟩

end Domain

end LinkState
