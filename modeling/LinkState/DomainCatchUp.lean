import LinkState.DomainRequests

/-!
# Catching up in a domain

A router that is told of a number asks for the LSAs behind it, unless it has them. So what its sync
logic knows of another router it has asked for, or it was there (`known_was_asked_for`).

* `same_digest_asked_for`: routers with the same digest have asked for, or have had, the newest LSAs
  of each other.
* `can_catch_up`: from every state they can get there by what they send on their own.

Digests may collide, so both say: or two states of sync logics do.
-/

namespace LinkState

open Sync SequencingManager

variable {ι : Type*} {H : HashFunction}

theorem Nlsr.stored_of_not_isLsaNew {s : Nlsr} {id : LsaId} (h : s.isLsaNew id = false) :
    ∃ l, s.lsaOf id.kind id.origin = some l ∧ id.seqNo ≤ l.lsSeqNo.toUInt64 := by
  unfold isLsaNew at h
  cases hl : s.lsaOf id.kind id.origin with
  | none => simp [hl, Lsdb.isNewerThan] at h
  | some l =>
    refine ⟨l, rfl, ?_⟩
    simpa [hl, Lsdb.isNewerThan] using h

namespace Node

variable (math : MathLib) (lib : TextLib) (pb : Protobuf)

theorem syncLogic_step (n : Node H) (f : NodeEvent) :
    (n.step math lib pb f).socket.syncLogic =
      match n.syncEvent lib f with
      | none => n.socket.syncLogic
      | some e => n.socket.syncLogic.step pb e := by
  have hturn := congrArg Prod.fst (n.syncLogic_turn math lib pb f)
  refine hturn.trans ?_
  cases n.syncEvent lib f <;> rfl

end Node

namespace Domain

/-- What the sync logic of a router knows of another one. -/
def known (lib : TextLib) (setup : ι → Setup) (d : Domain ι H) (i j : ι) : WithBot SeqNo :=
  (d.node i).socket.syncLogic.view (uriOf lib (setup j).confParam.updatePrefix)

/-- An Interest was sent for an LSA, or for a newer one of its router and kind. -/
def AskedFor (setup : ι → Setup) (d : Domain ι H) (i j : ι) (c : Counter) (seqNo : UInt64) : Prop :=
  ∃ x ∈ (d.node i).fetcher.sent, ∃ q, seqNo ≤ q ∧ x.name = (setup j).confParam.lsaInterestName c q

/-- What the fetcher was asked for it asks for. -/
theorem askedFor_of_passed {setup : ι → Setup} {d : Domain ι H} {i j : ι} {c : Counter}
    {seqNo : UInt64} (hasks : (d.node i).fetcher.Asks)
    (h : ((setup j).confParam.updatePrefix ++ [c.component], seqNo) ∈ (d.node i).fetcher.passed) :
    AskedFor setup d i j c seqNo := by
  obtain ⟨x, hx, hname, hle⟩ := hasks.sends _ h
  refine ⟨x, hx, x.seqNo, hle, ?_⟩
  rw [hasks.inv.named x hx, hname]
  simp [ConfParameter.lsaInterestName]

/-- What the nodes do with what they have, with what they are sent, and with time. -/
def IsExchange : DomainEvent ι → Prop
  | .posted _ | .due _ _ _ | .expireInterests _ _ | .syncInterest _ _ _ | .syncData _ _ => True
  | _ => False

/-- What a network does on its own a domain can do. -/
def ofIdle : NetworkEvent ι → DomainEvent ι
  | .due i id now => .due i id now
  | .expireInterests i now => .expireInterests i now
  | .interest i k now => .syncInterest i k now
  | .data i k => .syncData i k
  | .addLocalNames i _ _ _ => .posted i
  | .remove i _ => .posted i

theorem isExchange_ofIdle (e : NetworkEvent ι) : IsExchange (ofIdle e) := by
  cases e <;> trivial

variable [DecidableEq ι] (math : MathLib) (lib : TextLib) (pb : Protobuf)

/-- The LSA was stored at some time, or a newer one. -/
def WasStored (H : HashFunction) (setup : ι → Setup) (es : List (DomainEvent ι)) (i j : ι)
    (c : Counter) (seqNo : UInt64) : Prop :=
  ∃ earlier, earlier <+: es ∧ ∃ l, ((after math lib pb H setup earlier).node i).router.lsaOf c
    (setup j).confParam.routerPrefix = some l ∧ seqNo ≤ l.lsSeqNo.toUInt64

theorem WasStored.append {setup : ι → Setup} {es : List (DomainEvent ι)} {i j : ι} {c : Counter}
    {seqNo : UInt64} (h : WasStored math lib pb H setup es i j c seqNo)
    (es' : List (DomainEvent ι)) : WasStored math lib pb H setup (es ++ es') i j c seqNo := by
  obtain ⟨earlier, hpre, hl⟩ := h
  exact ⟨earlier, hpre.trans (List.prefix_append _ _), hl⟩

/-! ## What is known has been asked for -/

theorem perBranch_node (setup : ι → Setup) (es : List (DomainEvent ι)) (i : ι) :
    ((after math lib pb H setup es).node i).socket.syncLogic.perBranch = false := by
  have hparty := congrFun (congrArg Network.party (network_after math lib pb (H := H) setup es)) i
  change ((after math lib pb H setup es).node i).socket.syncLogic = _ at hparty
  rw [hparty, Network.party_after]
  exact SyncLogic.perBranch_after ..

/-- What arrives in a domain removes nothing. -/
theorem foreign_of_located (h : lib.RoundTrips) {setup : ι → Setup} {es : List (DomainEvent ι)}
    {e : DomainEvent ι} {i : ι} {f : SyncLogic.Event}
    (hlocated : Located (after math lib pb H setup es) e i (.sync f)) (namePrefix : String) :
    SyncLogic.Foreign pb namePrefix f := by
  obtain ⟨ne, hne, hlocate⟩ := network_locate hlocated lib
  have hremovals := noRemovals_netTrace math lib pb h (H := H) setup (es ++ [e])
  rw [netTrace_concat, hne] at hremovals
  rw [network_after] at hlocate
  have hadditive := Network.additive_of_locate pb false hremovals hlocate
  cases hlocated with
  | syncData hx => exact fun msg hmsg => hadditive msg hmsg namePrefix
  | _ => trivial

/-- **What is known was passed on**: the fetcher was asked for it, or it was stored. -/
theorem passed_of_known (h : lib.RoundTrips) {setup : ι → Setup} (hconf : WellConfigured lib setup)
    {es : List (DomainEvent ι)} {i j : ι} (hij : j ≠ i) (c : Counter) {v : SeqNo}
    (hv : known lib setup (after math lib pb H setup es) i j = v) :
    ((setup j).confParam.updatePrefix ++ [c.component], announcedSeqNo v.seq c) ∈
        ((after math lib pb H setup es).node i).fetcher.passed ∨
      WasStored math lib pb H setup es i j c (announcedSeqNo v.seq c) := by
  induction es using List.reverseRecOn generalizing v with
  | nil => exact absurd hv WithBot.bot_ne_coe
  | append_singleton es e ih =>
    have hasking := asking_after math lib pb h hconf (H := H) es i
    rw [after_concat] at hv ⊢
    have hkeep : known lib setup ((after math lib pb H setup es).step math lib pb e) i j =
          known lib setup (after math lib pb H setup es) i j →
        ((after math lib pb H setup es).node i).fetcher.passed ⊆
          (((after math lib pb H setup es).step math lib pb e).node i).fetcher.passed →
        ((setup j).confParam.updatePrefix ++ [c.component], announcedSeqNo v.seq c) ∈
            (((after math lib pb H setup es).step math lib pb e).node i).fetcher.passed ∨
          WasStored math lib pb H setup (es ++ [e]) i j c (announcedSeqNo v.seq c) := by
      intro hknown hpassed
      rcases ih (hknown.symm.trans hv) with hp | hs
      · exact Or.inl (hpassed hp)
      · exact Or.inr (hs.append math lib pb [e])
    rcases step_cases math lib pb (after math lib pb H setup es) e with
      ⟨-, hstep⟩ | ⟨k, f, hlocated, hstep⟩
    · rw [hstep] at hkeep ⊢
      exact hkeep rfl (List.Subset.refl _)
    rw [hstep] at hv hkeep ⊢
    by_cases hk : i = k
    swap
    · unfold known at hkeep
      rw [node_act_of_ne math lib pb _ hk] at hkeep ⊢
      exact hkeep rfl (List.Subset.refl _)
    subst hk
    unfold known at hv hkeep
    rw [node_act_self] at hv hkeep ⊢
    generalize hn : (after math lib pb H setup es).node i = n at *
    have hpassed : n.fetcher.passed ⊆ (n.step math lib pb f).fetcher.passed := by
      obtain ⟨fs, hfs⟩ := n.fetcher_step math lib pb f
      rw [hfs]
      exact LsaFetcher.passed_run hasking.fetcher.inv fs
    have hlogic := n.syncLogic_step math lib pb f
    cases f with
    | posted =>
      refine hkeep ?_ hpassed
      rw [hlogic, Node.syncEvent]
      cases hp : n.socket.posted.head? with
      | none => rfl
      | some p =>
        have hown := (configured_after math lib pb h (H := H) setup es i).posted p
          (List.mem_of_head? (hn ▸ hp))
        show (n.socket.syncLogic.addLocalNames pb _ _ _).1.view _ = _
        rw [SyncLogic.view_addLocalNames, Function.update_of_ne]
        intro huri
        rw [hown] at huri
        exact hij (hconf.updatePrefix_injective (uriOf_injective h huri))
    | sync g =>
      have hforeign := foreign_of_located math lib pb h hlocated
        (uriOf lib (setup j).confParam.updatePrefix)
      have hbranch := perBranch_node math lib pb (H := H) setup es i
      obtain ⟨requests, hrequests, hmem⟩ := asks_of_reported math lib pb h hconf hlocated
      rw [hn] at hbranch hrequests hmem
      rcases SyncLogic.reports_turn pb hbranch (hconf.notForwarder j) hforeign with
        ⟨hview, -⟩ | ⟨-, -, -, seq, -, -, -, -, hview, hreports⟩
      · refine hkeep ?_ hpassed
        rw [hlogic]
        exact hview
      rw [hlogic] at hv
      obtain rfl : seq = v := WithBot.coe_injective (hview.symm.trans hv)
      -- There is one report, and each kind in it is asked for or stored
      have hreported : ⟨_, SyncLogic.lowOf (n.socket.syncLogic.view _) seq, seq⟩ ∈
          SyncLogic.reported (n.socket.syncLogic.turn pb g).2 :=
        List.mem_of_mem_filter (hreports ▸ List.mem_singleton_self _)
      cases hnew : n.router.isLsaNew ((setup j).confParam.lsaId c (announcedSeqNo seq.seq c)) with
      | true =>
        left
        rw [Node.step_sync_eq math lib pb hrequests, SyncLogicHandler.passed_ask hasking.fetcher.inv]
        refine List.mem_append_right _ ((hmem _).2 ?_)
        exact ⟨_, hreported, j, c, hij, rfl, hnew, rfl⟩
      | false =>
        right
        refine ⟨es, List.prefix_append _ _, ?_⟩
        rw [hn]
        exact Nlsr.stored_of_not_isLsaNew hnew
    | _ =>
      refine hkeep ?_ hpassed
      rw [hlogic]
      rfl

/-- **What is known has been asked for.** Of all that the sync logic of a router knows of another
one, the router has asked for the LSAs, or for newer ones, or it had them. -/
theorem known_was_asked_for (h : lib.RoundTrips) {setup : ι → Setup}
    (hconf : WellConfigured lib setup) (es : List (DomainEvent ι)) {i j : ι} (hij : j ≠ i)
    {v : SeqNo} (hv : known lib setup (after math lib pb H setup es) i j = v) (c : Counter) :
    AskedFor setup (after math lib pb H setup es) i j c (announcedSeqNo v.seq c) ∨
      WasStored math lib pb H setup es i j c (announcedSeqNo v.seq c) :=
  (passed_of_known math lib pb h hconf hij c hv).imp_left
    (askedFor_of_passed (asking_after math lib pb h hconf es i).fetcher)

theorem known_was_asked_for_toldOnce :
    let d := after ⟨0, id, id, id, id⟩ plainText wire checksum threeRouters toldOnce
    AskedFor threeRouters d .b .a .name (announcedSeqNo 2199024304128 .name) ∨
      WasStored ⟨0, id, id, id, id⟩ plainText wire checksum threeRouters toldOnce .b .a .name
        (announcedSeqNo 2199024304128 .name) :=
  known_was_asked_for _ plainText wire roundTrips_plainText wellConfigured_threeRouters toldOnce
    (by decide) (v := ⟨0, 2199024304128⟩) (by decide +kernel) .name

/-! ## What is published is known -/

/-- The numbers that were published for a router are its own. -/
theorem mem_publishedNumbers (h : lib.RoundTrips) {setup : ι → Setup}
    (hconf : WellConfigured lib setup) {es : List (DomainEvent ι)} {j : ι}
    (hposted : ((after math lib pb H setup es).node j).socket.posted = []) {m : WithBot SeqNo} :
    m ∈ Network.publishedNumbers (netTrace math lib pb H setup es)
        (uriOf lib (setup j).confParam.updatePrefix) ↔
      ∃ q ∈ ((after math lib pb H setup es).node j).router.published,
        m = (⟨0, q⟩ : SeqNo) := by
  have hfrom := fromRouters_netTrace math lib pb h (H := H) setup es
  rw [published_after math lib pb h, hposted, List.map_nil, List.append_nil]
  constructor
  · intro hm
    obtain ⟨k, session, seq, hmem, rfl⟩ := hm
    obtain ⟨huri, rfl⟩ := hfrom _ hmem
    obtain rfl : j = k := hconf.updatePrefix_injective (uriOf_injective h huri)
    exact ⟨seq, (mem_handed lib hfrom).2 hmem, rfl⟩
  · intro hm
    obtain ⟨q, hq, rfl⟩ := hm
    exact ⟨j, 0, q, (mem_handed lib hfrom).1 hq, rfl⟩

/-- The greatest number of a router is the greatest that was published for it. -/
theorem isGreatest_publishedNumbers (h : lib.RoundTrips) {setup : ι → Setup}
    (hconf : WellConfigured lib setup) {es : List (DomainEvent ι)} {j : ι}
    (hposted : ((after math lib pb H setup es).node j).socket.posted = []) {p : UInt64}
    (hp : IsGreatest {q | q ∈ ((after math lib pb H setup es).node j).router.published} p) :
    IsGreatest (Network.publishedNumbers (netTrace math lib pb H setup es)
      (uriOf lib (setup j).confParam.updatePrefix)) ((⟨0, p⟩ : SeqNo) : WithBot SeqNo) := by
  constructor
  · exact (mem_publishedNumbers math lib pb h hconf hposted).2 ⟨p, hp.1, rfl⟩
  · intro m hm
    obtain ⟨q, hq, rfl⟩ := (mem_publishedNumbers math lib pb h hconf hposted).1 hm
    have hle : (⟨0, q⟩ : SeqNo) ≤ ⟨0, p⟩ := by
      rw [SeqNo.le_iff_of_session_eq (by rfl)]
      exact UInt64.le_iff_toNat_le.1 (hp.2 hq)
    exact WithBot.coe_le_coe.2 hle

/-- A router knows its own number. -/
theorem known_self (h : lib.RoundTrips) {setup : ι → Setup} (hconf : WellConfigured lib setup)
    {es : List (DomainEvent ι)} {j : ι}
    (hposted : ((after math lib pb H setup es).node j).socket.posted = []) {p : UInt64}
    (hp : IsGreatest {q | q ∈ ((after math lib pb H setup es).node j).router.published} p) :
    known lib setup (after math lib pb H setup es) j j = (⟨0, p⟩ : SeqNo) := by
  have hremovals := noRemovals_netTrace math lib pb h (H := H) setup es
  have hgreatest := isGreatest_publishedNumbers math lib pb h hconf hposted hp
  have hviews : known lib setup (after math lib pb H setup es) j j =
      Network.views (Network.after pb false H (netTrace math lib pb H setup es)) j
        (uriOf lib (setup j).confParam.updatePrefix) := by
    rw [← network_after]
    rfl
  rw [hviews]
  apply le_antisymm
  · exact Network.views_le_of_published pb false hremovals hgreatest.2 j
  · have hmem := hp.1
    change p ∈ _ at hmem
    rw [published_after math lib pb h, hposted, List.map_nil, List.append_nil] at hmem
    exact Network.le_views_of_published pb false hremovals
      ((mem_handed lib (fromRouters_netTrace math lib pb h setup es)).1 hmem)

/-- **Routers with the same digest have asked each other for everything.** Of two routers whose
sync logics have the same digest, each has asked for the LSAs behind the greatest number that the
other has published, or for newer ones, or it had them. Or else two states of sync logics
collide. -/
theorem same_digest_asked_for (h : lib.RoundTrips) {setup : ι → Setup}
    (hconf : WellConfigured lib setup) (es : List (DomainEvent ι)) {i j : ι} (hij : j ≠ i)
    (hsame : ((after math lib pb H setup es).node i).socket.syncLogic.state.rootDigest =
      ((after math lib pb H setup es).node j).socket.syncLogic.state.rootDigest)
    (hposted : ((after math lib pb H setup es).node j).socket.posted = []) {p : UInt64}
    (hp : IsGreatest {q | q ∈ ((after math lib pb H setup es).node j).router.published} p) :
    Network.Collides pb false H (netTrace math lib pb H setup es) ∨ ∀ c,
      AskedFor setup (after math lib pb H setup es) i j c (announcedSeqNo p c) ∨
        WasStored math lib pb H setup es i j c (announcedSeqNo p c) := by
  rcases FullState.view_eq_or_collision hsame with hview | hcollision
  · right
    have hknown : known lib setup (after math lib pb H setup es) i j = (⟨0, p⟩ : SeqNo) :=
      (congrFun hview _).trans (known_self math lib pb h hconf hposted hp)
    intro c
    exact (passed_of_known math lib pb h hconf hij c hknown).imp_left
      (askedFor_of_passed (asking_after math lib pb h hconf es i).fetcher)
  · left
    have hhad : ∀ k, Network.Had pb false (netTrace math lib pb H setup es)
        ((after math lib pb H setup es).node k).socket.syncLogic.state := by
      intro k
      have hk := Network.had_after (H := H) pb false (netTrace math lib pb H setup es) k
      rw [← network_after] at hk
      exact hk
    exact ⟨_, _, hhad i, hhad j, hcollision⟩

theorem same_digest_asked_for_toldOnce :
    Network.Collides wire false checksum
        (netTrace ⟨0, id, id, id, id⟩ plainText wire checksum threeRouters toldOnce) ∨ ∀ c,
      AskedFor threeRouters
          (after ⟨0, id, id, id, id⟩ plainText wire checksum threeRouters toldOnce) .b .a c
          (announcedSeqNo 2199024304128 c) ∨
        WasStored ⟨0, id, id, id, id⟩ plainText wire checksum threeRouters toldOnce .b .a c
          (announcedSeqNo 2199024304128 c) := by
  have hpublished : ((after ⟨0, id, id, id, id⟩ plainText wire checksum threeRouters toldOnce).node
      .a).router.published = [2199024304128] := by decide +kernel
  refine same_digest_asked_for _ plainText wire roundTrips_plainText wellConfigured_threeRouters
    toldOnce (by decide) (by decide +kernel) (by decide +kernel) ?_
  rw [hpublished]
  simp [IsGreatest, upperBounds]

/-! ## Catching up -/

/-- An exchange changes no router. -/
theorem router_exchange (d : Domain ι H) {es : List (DomainEvent ι)} (hes : ∀ e ∈ es, IsExchange e)
    (j : ι) : ((run (step math lib pb) d es).node j).router = (d.node j).router := by
  induction es generalizing d with
  | nil => rfl
  | cons e es ih =>
    rw [run_cons, ih _ fun e' he' => hes e' (List.mem_cons_of_mem _ he')]
    have he := hes e List.mem_cons_self
    rcases step_cases math lib pb d e with ⟨-, hstep⟩ | ⟨k, f, hlocated, hstep⟩ <;> rw [hstep]
    by_cases hk : j = k
    · subst hk
      rw [node_act_self, Node.router_step]
      cases hlocated with
      | turn _ => exact he.elim
      | lsaData _ _ _ => exact he.elim
      | _ => rfl
    · rw [node_act_of_ne math lib pb d hk]

/-- What one node has posted can be run. -/
theorem exists_posted_eq_nil_self (d : Domain ι H) (j : ι) :
    ∃ es : List (DomainEvent ι), (∀ e ∈ es, IsExchange e) ∧
      ((run (step math lib pb) d es).node j).socket.posted = [] ∧
      ∀ k, k ≠ j → (run (step math lib pb) d es).node k = d.node k := by
  generalize hn : (d.node j).socket.posted.length = n
  induction n generalizing d with
  | zero => exact ⟨[], by simp, List.length_eq_zero_iff.1 hn, fun k _ => rfl⟩
  | succ n ih =>
    have hstep : d.step math lib pb (.posted j) = d.act math lib pb j .posted := rfl
    have hposted : ((d.step math lib pb (.posted j)).node j).socket.posted =
        (d.node j).socket.posted.tail := by
      rw [hstep, node_act_self]
      exact Node.posted_step_posted math lib pb _
    obtain ⟨es, hes, hdone, hothers⟩ := ih (d.step math lib pb (.posted j))
      (by rw [hposted, List.length_tail, hn, Nat.add_sub_cancel])
    refine ⟨.posted j :: es, ?_, hdone, fun k hk => (hothers k hk).trans ?_⟩
    · intro e he
      rcases List.mem_cons.1 he with rfl | he
      · trivial
      · exact hes e he
    · rw [hstep, node_act_of_ne math lib pb d hk]

/-- What is posted can be run. -/
theorem exists_posted_eq_nil (d : Domain ι H) (js : List ι) :
    ∃ es : List (DomainEvent ι), (∀ e ∈ es, IsExchange e) ∧
      ∀ j ∈ js, ((run (step math lib pb) d es).node j).socket.posted = [] := by
  induction js with
  | nil => exact ⟨[], by simp, by simp⟩
  | cons j js ih =>
    obtain ⟨es, hes, hjs⟩ := ih
    obtain ⟨es', hes', hdone, hothers⟩ :=
      exists_posted_eq_nil_self math lib pb (run (step math lib pb) d es) j
    refine ⟨es ++ es', ?_, ?_⟩
    · intro e he
      rcases List.mem_append.1 he with he | he
      · exact hes e he
      · exact hes' e he
    · intro k hk
      rw [run_append]
      by_cases hkj : k = j
      · rw [hkj]
        exact hdone
      · rw [hothers k hkj]
        exact hjs k ((List.mem_cons.1 hk).resolve_left hkj)

theorem trace_ofIdle (d : Domain ι H) {es : List (NetworkEvent ι)}
    (hes : ∀ e ∈ es, Network.Idle e) : d.trace math lib pb (es.map ofIdle) = es := by
  induction es generalizing d with
  | nil => rfl
  | cons e es ih =>
    have hone : d.networkEvents lib (ofIdle e) = [e] := by
      have he := hes e List.mem_cons_self
      cases e with
      | addLocalNames i namePrefix session seq => exact he.elim
      | remove i namePrefix => exact he.elim
      | _ => rfl
    rw [List.map_cons, trace, hone, ih _ fun e' he' => hes e' (List.mem_cons_of_mem _ he')]
    rfl

/-- Everybody can get to know what anybody has published. -/
theorem exists_known [Fintype ι] (h : lib.RoundTrips) {setup : ι → Setup}
    (hconf : WellConfigured lib setup) (es : List (DomainEvent ι)) :
    ∃ es' : List (DomainEvent ι), (∀ e ∈ es', IsExchange e) ∧
      (Network.Collides pb false H (netTrace math lib pb H setup (es ++ es')) ∨
        ∀ i j p, IsGreatest {q | q ∈ ((after math lib pb H setup es).node j).router.published} p →
          known lib setup (after math lib pb H setup (es ++ es')) i j = (⟨0, p⟩ : SeqNo)) := by
  obtain ⟨es₁, hes₁, hposted⟩ := exists_posted_eq_nil math lib pb
    (after math lib pb H setup es) (Finset.univ : Finset ι).toList
  have hrouter := router_exchange math lib pb (after math lib pb H setup es) hes₁
  have hrun : run (step math lib pb) (after math lib pb H setup es) es₁ =
      after math lib pb H setup (es ++ es₁) := (run_append _ _ _ _).symm
  rw [hrun] at hposted hrouter
  obtain ⟨nes, hidle, hlub⟩ := Network.exists_isLUB (H := H) pb false
    (noRemovals_netTrace math lib pb h setup (es ++ es₁))
  have htrace : netTrace math lib pb H setup (es ++ es₁ ++ nes.map ofIdle) =
      netTrace math lib pb H setup (es ++ es₁) ++ nes := by
    rw [netTrace, trace_append, trace_ofIdle math lib pb _ hidle]
  refine ⟨es₁ ++ nes.map ofIdle, ?_, ?_⟩
  · intro e he
    rcases List.mem_append.1 he with he | he
    · exact hes₁ e he
    · obtain ⟨ne, -, rfl⟩ := List.mem_map.1 he
      exact isExchange_ofIdle ne
  rw [← List.append_assoc, htrace]
  refine hlub.imp_right fun hlub i j p hp => ?_
  rw [← hrouter j] at hp
  have hgreatest := isGreatest_publishedNumbers math lib pb h hconf
    (hposted j (Finset.mem_toList.2 (Finset.mem_univ j))) hp
  have hagreed := Network.agreed_of_isLUB pb false
    (noRemovals_netTrace math lib pb h setup (es ++ es₁)) hlub i
    (uriOf lib (setup j).confParam.updatePrefix)
  rw [← htrace, ← network_after] at hagreed
  exact hagreed.unique hgreatest.isLUB

/-- **A domain can always catch up.** After any run, whatever was lost, repeated or mixed up, the
nodes have a way to get to where each has asked for the newest LSAs of every other router, or has
had them, by what they send on their own; or else two states of sync logics collide. -/
theorem can_catch_up [Fintype ι] (h : lib.RoundTrips) {setup : ι → Setup}
    (hconf : WellConfigured lib setup) (es : List (DomainEvent ι)) :
    ∃ es' : List (DomainEvent ι), (∀ e ∈ es', IsExchange e) ∧
      (Network.Collides pb false H (netTrace math lib pb H setup (es ++ es')) ∨
        ∀ i j, j ≠ i → ∀ p,
          IsGreatest {q | q ∈ ((after math lib pb H setup es).node j).router.published} p →
          ∀ c, AskedFor setup (after math lib pb H setup (es ++ es')) i j c
              (announcedSeqNo p c) ∨
            WasStored math lib pb H setup (es ++ es') i j c (announcedSeqNo p c)) := by
  obtain ⟨es', hes', hknown⟩ := exists_known math lib pb h hconf (H := H) es
  refine ⟨es', hes', hknown.imp_right fun hknown i j hij p hp c => ?_⟩
  exact (passed_of_known math lib pb h hconf hij c (hknown i j p hp)).imp_left
    (askedFor_of_passed (asking_after math lib pb h hconf _ i).fetcher)

/-- Nobody has been told of what one of three routers has announced. -/
theorem can_catch_up_untold :
    let math : MathLib := ⟨0, id, id, id, id⟩
    let es : List (DomainEvent Three) :=
      [.turn .a (.clock 5000000000), .turn .a (.advertise [⟨"p"⟩])]
    ∃ es' : List (DomainEvent Three), (∀ e ∈ es', IsExchange e) ∧
      (Network.Collides wire false checksum
          (netTrace math plainText wire checksum threeRouters (es ++ es')) ∨
        ∀ i j, j ≠ i → ∀ p,
          IsGreatest {q | q ∈
            ((after math plainText wire checksum threeRouters es).node j).router.published} p →
          ∀ c, AskedFor threeRouters (after math plainText wire checksum threeRouters (es ++ es')) i j c
              (announcedSeqNo p c) ∨
            WasStored math plainText wire checksum threeRouters (es ++ es') i j c
              (announcedSeqNo p c)) :=
  can_catch_up _ plainText wire roundTrips_plainText wellConfigured_threeRouters _

end Domain

end LinkState
