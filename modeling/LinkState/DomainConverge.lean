import LinkState.DomainAgree
import LinkState.DomainCatchUp
import LinkState.SpeaksFor
import Mathlib.Data.Fintype.Prod

/-!
# Convergence of a domain

An LSA that comes in a Data packet was numbered by the router it is of, so in a domain a router
numbers its own LSAs as if it were alone (`numbered_after`). What it has published then never runs
ahead of its counters, and an own LSA has the number of its counter. So a router that knows the
newest number of another one asks for exactly the LSAs that the other one stores
(`asked_of_passed`), and one Interest and one Data are enough to get each (`exists_delivery`).

`can_converge`: from every state a domain can get to where each router has stored the announced
LSAs of every other one, by what the nodes send on their own.
-/

namespace LinkState

open Sync SequencingManager Nlsr

variable {ι : Type*} {H : HashFunction}

/-- What is written of the LSA can be read. -/
def AnyLsa.Readable (lib : TextLib) (l : AnyLsa) : Prop :=
  ∃ l', AnyLsa.initializeFromContent lib (l.getData lib) l.counter = .ok l'

/-- The count of the entries fits where it is read. -/
def AnyLsa.CountFits : AnyLsa → Prop
  | .name l => l.npl.size < 2 ^ 32
  | .adj l => l.adl.size < 2 ^ 32
  | .coordinate _ => True

instance : DecidablePred AnyLsa.CountFits
  | .name l => inferInstanceAs (Decidable (l.npl.size < 2 ^ 32))
  | .adj l => inferInstanceAs (Decidable (l.adl.size < 2 ^ 32))
  | .coordinate _ => inferInstanceAs (Decidable True)

/-- **An LSA can be read if its origin has a name, its count fits and its time is read back.** -/
theorem AnyLsa.readable_iff {lib : TextLib} (h : lib.RoundTrips) {conf : ConfParameter} {l : AnyLsa}
    (hl : l.Plain conf) :
    l.Readable lib ↔ l.origRouter ≠ [] ∧ l.CountFits ∧
      (lib.fromIsoString (lib.toIsoString l.toLsa.expirationTimePoint)).isSome := by
  have hmap : ∀ {α : Type} (f : α → AnyLsa) (make : TimePoint → α) (t : TimePoint) (P : Prop)
      [Decidable P],
      (∃ l', Except.map f (if P then
          TextLib.inTry ((lib.fromIsoString (lib.toIsoString t)).map make)
        else .error .rejected) = .ok l') ↔
      P ∧ (lib.fromIsoString (lib.toIsoString t)).isSome := by
    intro α f make t P _
    cases lib.fromIsoString (lib.toIsoString t) <;> split_ifs <;> simp [Except.map, *]
  unfold Readable
  rw [← List.append_nil (l.getData lib)]
  cases l with
  | name l =>
    have hname := NameLsa.initializeFromContent_getData h l []
    have hiff := hmap AnyLsa.name l.asRead l.expirationTimePoint
      (l.origRouter ≠ [] ∧ l.npl.size < 2 ^ 32)
    rw [← hname, and_assoc] at hiff
    exact hiff
  | adj l =>
    have hadj := AdjLsa.initializeFromContent_getData h hl []
    have hiff := hmap AnyLsa.adj l.asRead l.expirationTimePoint
      (l.origRouter ≠ [] ∧ l.adl.size < 2 ^ 32)
    rw [← hadj, and_assoc] at hiff
    exact hiff
  | coordinate l =>
    have hcoordinate := CoordinateLsa.initializeFromContent_getData h l []
    have hiff := hmap AnyLsa.coordinate l.asRead l.expirationTimePoint (l.origRouter ≠ [])
    rw [← hcoordinate] at hiff
    exact hiff.trans (and_congr_right' (true_and _).symm.to_iff)

/-- **Content that arrives is stored**, unless a newer LSA is, and LSAs of others stay. -/
theorem Nlsr.stored_of_processContent {lib : TextLib} (h : lib.RoundTrips) (s : Nlsr)
    {conf : ConfParameter} {l : AnyLsa} (hplain : l.Plain conf) (hread : l.Readable lib) :
    let t := s.processContent lib ⟨l.origRouter, l.counter, l.lsSeqNo.toUInt64⟩ (l.getData lib)
    (∃ l', t.lsaOf l.counter l.origRouter = some l' ∧
        l.lsSeqNo.toUInt64 ≤ l'.lsSeqNo.toUInt64) ∧
      ∀ c o, o ≠ l.origRouter → t.lsaOf c o = s.lsaOf c o := by
  dsimp only
  unfold processContent
  cases hnew : s.isLsaNew ⟨l.origRouter, l.counter, l.lsSeqNo.toUInt64⟩ with
  | false => exact ⟨stored_of_not_isLsaNew hnew, fun c o _ => rfl⟩
  | true =>
    obtain ⟨l₁, hl₁⟩ := hread
    rw [if_pos rfl, hl₁]
    dsimp only
    rw [← List.append_nil (l.getData lib)] at hl₁
    obtain ⟨time, -, rfl⟩ := AnyLsa.eq_asRead h hplain hl₁
    have hcounter : (l.asRead time).counter = l.counter := by cases l <;> rfl
    have horigin : (l.asRead time).origRouter = l.origRouter := by cases l <;> rfl
    have hseq : (l.asRead time).lsSeqNo = l.lsSeqNo := by cases l <;> rfl
    refine ⟨?_, fun c o ho => lsaOf_install_ne fun hl => ho (hl.2.trans horigin)⟩
    rw [← hcounter, ← horigin]
    by_cases htakes : s.Takes (l.asRead time)
    · obtain ⟨l', hl', hseq', -⟩ := lsaOf_install_of_takes htakes
      refine ⟨l', hl', ?_⟩
      rw [hseq', hseq]
      exact UInt64.le_refl _
    · rw [install_of_not_takes htakes]
      unfold Takes at htakes
      push Not at htakes
      obtain ⟨chk, hchk, hle⟩ := htakes
      refine ⟨chk, hchk, ?_⟩
      rw [hseq, UInt32.lt_iff_toNat_lt, not_lt] at hle
      rw [UInt64.le_iff_toNat_le, UInt32.toNat_toUInt64, UInt32.toNat_toUInt64]
      exact hle

namespace Node

variable (math : MathLib) (lib : TextLib) (pb : Protobuf)

theorem fetcher_lsaInterest (n : Node H) (interestName : Name) :
    (n.step math lib pb (.lsaInterest interestName)).fetcher = n.fetcher := by
  show (n.onLsaInterest math lib interestName).fetcher = _
  unfold onLsaInterest
  split_ifs <;> rfl

theorem fetcher_lsaData (n : Node H) (dataName : Name) (dataContent : Text) :
    (n.step math lib pb (.lsaData dataName dataContent)).fetcher = n.fetcher := by
  obtain ⟨posted, threw, hgoTo⟩ :=
    n.goTo_frame lib (n.router.onContentValidated lib dataName dataContent)
  show (n.goTo lib _).fetcher = _
  rw [hgoTo]

/-- An Interest for an own LSA is answered. -/
theorem served_own (n : Node H) {conf : ConfParameter} (hn : n.router.confParam = conf)
    (hNLSR : (⟨"NLSR"⟩ : Component) ∉ conf.network) (hLSA : (⟨"LSA"⟩ : Component) ∉ conf.network)
    {c : Counter} {l : AnyLsa} (hl : n.router.lsaOf c conf.routerPrefix = some l) :
    let interestName := conf.lsaInterestName c l.lsSeqNo.toUInt64
    (n.step math lib pb (.lsaInterest interestName)).server.served =
      n.server.served ++ [⟨interestName, l.getData lib⟩] := by
  intro interestName
  have hanswer : n.server.router.processInterest lib interestName = some (l.getData lib) := by
    refine ((nameSurvives_of_not_mem hNLSR hLSA).answers lib n.router hn).trans ?_
    simp [answer, ConfParameter.lsaId, hl]
  have hunder : n.updatePrefix <+: interestName := by
    rw [updatePrefix, hn]
    exact List.prefix_append _ _
  rw [n.server_step, nextServer, if_pos hunder, Server.step, hanswer]

end Node

namespace Domain

/-- Every counter is inside its field. -/
def Fitting (d : Domain ι H) : Prop := ∀ i, Fits (d.node i).router.sequencingManager

variable [DecidableEq ι] (math : MathLib) (lib : TextLib) (pb : Protobuf)

theorem meets_keepsRoom {d : Domain ι H} {es : List (DomainEvent ι)}
    (h : Along (step math lib pb) Fitting d es) :
    Meets (step math lib pb) (KeepsRoom math lib pb) d es := by
  induction es generalizing d with
  | nil => trivial
  | cons e es ih => exact ⟨keepsRoom_of_fits math lib pb h.1 e, ih h.2⟩

/-! ## Routers of a domain -/

/-- Data leaves the router as it is, or installs an LSA of another router. -/
theorem router_lsaData (h : lib.RoundTrips) {setup : ι → Setup} (hconf : WellConfigured lib setup)
    {es : List (DomainEvent ι)} (hes : Along (step math lib pb) Fitting (first H setup) es)
    {e : DomainEvent ι} {i : ι} {dataName : Name} {dataContent : Text}
    (hlocated : Located (after math lib pb H setup es) e i (.lsaData dataName dataContent)) :
    let s := ((after math lib pb H setup es).node i).router
    s.onContentValidated lib dataName dataContent = s ∨
      ∃ l : AnyLsa, l.toLsa.expiringEventId = none ∧
        l.origRouter ≠ (setup i).confParam.routerPrefix ∧
        s.onContentValidated lib dataName dataContent = s.install l := by
  cases hlocated with
  | @lsaData _ k n version rest s x hserved hx hunder =>
    have hs := List.mem_of_getElem? hserved
    have hk := sender_ne math lib pb h hconf hs hx hunder
    have hagrees := agrees_after math lib pb h hconf (meets_keepsRoom math lib pb hes) i k hk
    have hfiltered := filtered_after math lib pb h setup es k s hs
    rcases installs_of_arrives math h hconf hagrees hs hfiltered version rest with
      hsame | ⟨l, hl, hfrom, hinstall⟩
    · exact Or.inl hsame
    · exact Or.inr ⟨l, hl, hfrom i hk.symm, hinstall⟩

/-- **A router of a domain takes events of its own**, in which no LSA arrives in its name. -/
theorem router_cases (h : lib.RoundTrips) {setup : ι → Setup} (hconf : WellConfigured lib setup)
    {es : List (DomainEvent ι)} (hes : Along (step math lib pb) Fitting (first H setup) es)
    (e : DomainEvent ι) (i : ι) :
    let s := ((after math lib pb H setup es).node i).router
    let t := ((after math lib pb H setup (es ++ [e])).node i).router
    t = s ∨ ∃ f, t = s.step math f ∧ s.ArrivesForeign f := by
  have hconfigured := (configured_after math lib pb h (H := H) setup es i).confParam
  dsimp only
  rw [after_concat]
  rcases step_cases math lib pb (after math lib pb H setup es) e with
    ⟨-, hstep⟩ | ⟨k, f, hlocated, hstep⟩ <;> rw [hstep]
  · exact Or.inl rfl
  by_cases hi : i = k
  swap
  · rw [node_act_of_ne math lib pb _ hi]
    exact Or.inl rfl
  subst hi
  rw [node_act_self, Node.router_step]
  cases f with
  | turn f =>
    cases hlocated with
    | turn he =>
      exact Or.inr ⟨f, rfl, arrivesForeign_of_notFrom (notFrom_of_isLocal he _)⟩
  | lsaData dataName dataContent =>
    rcases router_lsaData math lib pb h hconf hes hlocated with hsame | ⟨l, hl, hforeign, hinstall⟩
    · exact Or.inl hsame
    · obtain ⟨f, hf, hnot⟩ := exists_install_event math hl
      refine Or.inr ⟨f, hinstall.trans (hf _).symm, arrivesForeign_of_notFrom (hnot _ ?_)⟩
      rw [routerPrefix, hconfigured]
      exact hforeign
  | _ => exact Or.inl rfl

/-- **In a domain routers number their LSAs as if they were alone.** -/
theorem numbered_after (h : lib.RoundTrips) {setup : ι → Setup} (hconf : WellConfigured lib setup)
    {es : List (DomainEvent ι)} (hes : Along (step math lib pb) Fitting (first H setup) es)
    (i : ι) :
    ((after math lib pb H setup es).node i).router.Numbered ∧
      ((after math lib pb H setup es).node i).router.NeverReuses [] := by
  induction es using List.reverseRecOn with
  | nil => exact neverReuses_initializeNlsr _ _ _ _ (by simp) (hes i)
  | append_singleton es e ih =>
    obtain ⟨hbefore, hafter⟩ := along_append.1 hes
    obtain ⟨hnumbered, hnever⟩ := ih hbefore
    have hfits : Fits ((after math lib pb H setup (es ++ [e])).node i).router.sequencingManager :=
      hes.last i
    rcases router_cases math lib pb h hconf hbefore e i with hsame | ⟨f, hf, hforeign⟩
    · rw [hsame]
      exact ⟨hnumbered, hnever⟩
    · rw [hf] at hfits ⊢
      have hturn := turn_step math hnumbered f hforeign
      have hroom := Nlsr.keepsRoom_of_fits (hbefore.last i)
        (((after math lib pb H setup es).node i).router.step math f)
      exact ⟨hturn.numbered hnumbered hroom, hturn.neverReuses hroom hfits hnever⟩

/-! ## What is asked for is there -/

/-- An own LSA has the number of the counter, and nothing beyond it was published. -/
theorem announced_le (h : lib.RoundTrips) {setup : ι → Setup} (hconf : WellConfigured lib setup)
    {es : List (DomainEvent ι)} (hes : Along (step math lib pb) Fitting (first H setup) es) {j : ι}
    {c : Counter} {l : AnyLsa}
    (hl : ((after math lib pb H setup es).node j).router.lsaOf c
      (setup j).confParam.routerPrefix = some l) {p : UInt64}
    (hp : p ∈ ((after math lib pb H setup es).node j).router.published) :
    announcedSeqNo p c ≤ l.lsSeqNo.toUInt64 := by
  obtain ⟨hnumbered, hnever⟩ := numbered_after math lib pb h hconf hes j
  have hconfigured := (configured_after math lib pb h (H := H) setup es j).confParam
  have hown : ((after math lib pb H setup es).node j).router.routerPrefix =
      (setup j).confParam.routerPrefix := congrArg ConfParameter.routerPrefix hconfigured
  rw [← hown] at hl
  rw [hnumbered.lsSeqNo hl, UInt64.le_iff_toNat_le]
  have hreached := hnever.reached p hp c
  rw [← toNat_counter_splitSequenceNo] at hreached
  exact hreached

/-- **What was passed on for the newest number is asked for.** If the number is that of the own LSA,
an Interest for this LSA has been sent. -/
theorem asked_of_passed (h : lib.RoundTrips) {setup : ι → Setup} (hconf : WellConfigured lib setup)
    {es : List (DomainEvent ι)} (hes : Along (step math lib pb) Fitting (first H setup) es)
    {i j : ι} {c : Counter} {l : AnyLsa}
    (hl : ((after math lib pb H setup es).node j).router.lsaOf c
      (setup j).confParam.routerPrefix = some l)
    (hpassed : ((setup j).confParam.updatePrefix ++ [c.component], l.lsSeqNo.toUInt64) ∈
      ((after math lib pb H setup es).node i).fetcher.passed) :
    ∃ x ∈ ((after math lib pb H setup es).node i).fetcher.sent,
      x.name = (setup j).confParam.lsaInterestName c l.lsSeqNo.toUInt64 := by
  have hasking := asking_after math lib pb h hconf (H := H) es i
  obtain ⟨x, hx, hname, hle⟩ := hasking.fetcher.sends _ hpassed
  dsimp only at hname hle
  -- The Interest is for a number that the other one has published
  obtain ⟨j', c', p, -, hhanded, hr⟩ := hasking.passed _ (hasking.fetcher.inv.passed x hx)
  obtain ⟨hname', hseq⟩ := Prod.mk.inj hr
  obtain ⟨hupdate, hcomponent⟩ := List.append_inj' (hname.symm.trans hname') rfl
  obtain rfl : j = j' := hconf.updatePrefix_injective hupdate
  obtain rfl : c = c' := Counter.component_injective (List.singleton_inj.1 hcomponent)
  have hp : p ∈ ((after math lib pb H setup es).node j).router.published := by
    rw [published_after math lib pb h]
    exact List.mem_append_left _
      ((mem_handed lib (fromRouters_netTrace math lib pb h setup es)).2 hhanded)
  have hseq' : x.seqNo = l.lsSeqNo.toUInt64 :=
    UInt64.le_antisymm (hseq ▸ announced_le math lib pb h hconf hes hl hp) hle
  refine ⟨x, hx, ?_⟩
  rw [hasking.fetcher.inv.named x hx, hname, hseq']
  simp [ConfParameter.lsaInterestName]

/-! ## Deliveries -/

/-- An Interest that was sent arrives, or Data that was served, and nothing is put to it. -/
def IsDelivery (d : Domain ι H) : DomainEvent ι → Prop
  | .lsaInterest _ interestName => ∃ i, ∃ x ∈ (d.node i).fetcher.sent, x.name = interestName
  | .lsaData _ k n _ rest => n < (d.node k).server.served.length ∧ rest = []
  | _ => False

/-- What stays when LSAs of other routers arrive. -/
structure Keeps (setup : ι → Setup) (d t : Domain ι H) : Prop where
  confParam : ∀ k, (t.node k).router.confParam = (d.node k).router.confParam
  own : ∀ k c, (t.node k).router.lsaOf c (setup k).confParam.routerPrefix =
    (d.node k).router.lsaOf c (setup k).confParam.routerPrefix
  fetcher : ∀ k, (t.node k).fetcher = (d.node k).fetcher

omit [DecidableEq ι] in
theorem Keeps.refl (setup : ι → Setup) (d : Domain ι H) : Keeps setup d d :=
  ⟨fun _ => rfl, fun _ _ => rfl, fun _ => rfl⟩

omit [DecidableEq ι] in
theorem Keeps.trans {setup : ι → Setup} {d t u : Domain ι H} (h : Keeps setup d t)
    (h' : Keeps setup t u) : Keeps setup d u :=
  ⟨fun k => (h'.confParam k).trans (h.confParam k), fun k c => (h'.own k c).trans (h.own k c),
    fun k => (h'.fetcher k).trans (h.fetcher k)⟩

theorem keeps_act {setup : ι → Setup} (d : Domain ι H) {i : ι} {f : NodeEvent}
    (hown : ∀ c, ((d.node i).nextRouter math lib f).lsaOf c (setup i).confParam.routerPrefix =
      (d.node i).router.lsaOf c (setup i).confParam.routerPrefix)
    (hfetcher : ((d.node i).step math lib pb f).fetcher = (d.node i).fetcher) :
    Keeps setup d (d.act math lib pb i f) := by
  refine ⟨fun k => ?_, fun k c => ?_, fun k => ?_⟩ <;> by_cases hk : k = i
  · subst hk
    rw [node_act_self, Node.router_step, Node.confParam_nextRouter]
  · rw [node_act_of_ne math lib pb d hk]
  · subst hk
    rw [node_act_self, Node.router_step, hown]
  · rw [node_act_of_ne math lib pb d hk]
  · subst hk
    rw [node_act_self, hfetcher]
  · rw [node_act_of_ne math lib pb d hk]

/-- **One Interest and one Data are enough.** Where an Interest for an own LSA of another router
was sent, this LSA can get there. -/
theorem exists_delivery (h : lib.RoundTrips) {setup : ι → Setup} (hconf : WellConfigured lib setup)
    {d : Domain ι H} (hd : ∀ k, (d.node k).router.confParam = (setup k).confParam) {i j : ι}
    (hij : j ≠ i) {c : Counter} {l : AnyLsa}
    (hl : (d.node j).router.lsaOf c (setup j).confParam.routerPrefix = some l)
    (hplain : l.Plain (setup j).confParam) (hread : l.Readable lib) {x : LsaInterest}
    (hx : x ∈ (d.node i).fetcher.sent)
    (hname : x.name = (setup j).confParam.lsaInterestName c l.lsSeqNo.toUInt64) :
    ∃ es : List (DomainEvent ι), Meets (step math lib pb) IsDelivery d es ∧
      Keeps setup d (run (step math lib pb) d es) ∧
      ∃ l', ((run (step math lib pb) d es).node i).router.lsaOf c
          (setup j).confParam.routerPrefix = some l' ∧
        l.lsSeqNo.toUInt64 ≤ l'.lsSeqNo.toUInt64 := by
  have hsurvives : NameSurvives (setup j).confParam c l.lsSeqNo.toUInt64 :=
    nameSurvives_of_not_mem (hconf.noNLSR j) (hconf.noLSA j)
  have hcounter : l.counter = c := counter_of_lsaOf hl
  have horigin : l.origRouter = (setup j).confParam.routerPrefix := origRouter_of_lsaOf hl
  -- The origin answers the Interest
  let d₁ := d.act math lib pb j (.lsaInterest x.name)
  have hserved : (d₁.node j).server.served =
      (d.node j).server.served ++ [⟨x.name, l.getData lib⟩] := by
    show ((d.act math lib pb j (.lsaInterest x.name)).node j).server.served = _
    rw [node_act_self, hname]
    exact Node.served_own math lib pb _ (hd j) (hconf.noNLSR j) (hconf.noLSA j) hl
  have hkeeps₁ : Keeps setup d d₁ :=
    keeps_act math lib pb d (fun c => rfl) (Node.fetcher_lsaInterest math lib pb _ _)
  -- The receiver takes the Data
  let dataName := x.name ++ [⟨"v"⟩]
  let d₂ := d₁.act math lib pb i (.lsaData dataName (l.getData lib ++ []))
  let e₂ : DomainEvent ι := .lsaData i j (d.node j).server.served.length ⟨"v"⟩ []
  have hstep : d₁.step math lib pb e₂ = d₂ := by
    have hsent : ∃ y ∈ (d₁.node i).fetcher.sent, y.name <+: x.name ++ [⟨"v"⟩] := by
      rw [hkeeps₁.fetcher i]
      exact ⟨x, hx, List.prefix_append _ _⟩
    have hlocate : d₁.locate e₂ = some (i, .lsaData dataName (l.getData lib ++ [])) := by
      simp only [e₂, locate, hserved, List.getElem?_concat_length]
      exact if_pos hsent
    simp only [step, hlocate]
    rfl
  have hnetwork : (d₁.node i).router.confParam.network = (setup j).confParam.network := by
    rw [hkeeps₁.confParam i, hd i]
    exact hconf.network i j
  have hnext : (d₁.node i).nextRouter math lib (.lsaData dataName (l.getData lib ++ [])) =
      (d₁.node i).router.processContent lib ⟨l.origRouter, l.counter, l.lsSeqNo.toUInt64⟩
        (l.getData lib) := by
    rw [List.append_nil, hcounter, horigin]
    show (d₁.node i).router.onContentValidated lib (x.name ++ [⟨"v"⟩]) _ = _
    rw [hname]
    exact hsurvives.processes lib _ ⟨"v"⟩ _ hnetwork
  obtain ⟨hstored, hothers⟩ := stored_of_processContent h (d₁.node i).router hplain hread
  rw [← hnext] at hstored hothers
  refine ⟨[.lsaInterest j x.name, e₂], ?_, ?_⟩
  · refine ⟨⟨i, x, hx, rfl⟩, ⟨?_, rfl⟩, trivial⟩
    show _ < (d₁.node j).server.served.length
    rw [hserved, List.length_append]
    exact Nat.lt_succ_self _
  have hrun : run (step math lib pb) d [.lsaInterest j x.name, e₂] = d₂ := hstep
  rw [hrun]
  refine ⟨hkeeps₁.trans (keeps_act math lib pb d₁ (fun c' => ?_)
    (Node.fetcher_lsaData math lib pb _ _ _)), ?_⟩
  · refine hothers c' _ fun heq => hij ?_
    exact (hconf.routerPrefix_injective (heq.trans horigin)).symm
  · show ∃ l', ((d₁.act math lib pb i _).node i).router.lsaOf c _ = some l' ∧ _
    rw [node_act_self, Node.router_step, ← hcounter, ← horigin]
    exact hstored

/-- On the way the LSA is stored, or a newer one. -/
def Stores (setup : ι → Setup) (d : Domain ι H) (es : List (DomainEvent ι)) (i j : ι) (c : Counter)
    (seqNo : UInt64) : Prop :=
  ∃ earlier, earlier <+: es ∧ ∃ l, ((run (step math lib pb) d earlier).node i).router.lsaOf c
    (setup j).confParam.routerPrefix = some l ∧ seqNo ≤ l.lsSeqNo.toUInt64

/-- An own LSA of another router that was asked for and can be read. -/
structure Awaited (lib : TextLib) (setup : ι → Setup) (d : Domain ι H) (i j : ι) (c : Counter)
    (l : AnyLsa) : Prop where
  ne : j ≠ i
  own : (d.node j).router.lsaOf c (setup j).confParam.routerPrefix = some l
  plain : l.Plain (setup j).confParam
  readable : l.Readable lib
  asked : ∃ x ∈ (d.node i).fetcher.sent,
    x.name = (setup j).confParam.lsaInterestName c l.lsSeqNo.toUInt64

/-- All that is awaited can arrive, one LSA after the other. -/
theorem exists_deliveries (h : lib.RoundTrips) {setup : ι → Setup}
    (hconf : WellConfigured lib setup) {d : Domain ι H}
    (hd : ∀ k, (d.node k).router.confParam = (setup k).confParam) (ts : List (ι × ι × Counter)) :
    ∃ es : List (DomainEvent ι), Meets (step math lib pb) IsDelivery d es ∧
      Keeps setup d (run (step math lib pb) d es) ∧
      ∀ i j c, (i, j, c) ∈ ts → ∀ l, Awaited lib setup d i j c l →
        Stores math lib pb setup d es i j c l.lsSeqNo.toUInt64 := by
  induction ts with
  | nil => exact ⟨[], trivial, Keeps.refl setup d, by simp⟩
  | cons t ts ih =>
    obtain ⟨i, j, c⟩ := t
    obtain ⟨es, hes, hkeeps, hstores⟩ := ih
    by_cases hawaited : ∃ l, Awaited lib setup d i j c l
    swap
    · refine ⟨es, hes, hkeeps, fun i' j' c' hmem l hl => ?_⟩
      rcases List.mem_cons.1 hmem with heq | hmem
      · cases heq
        exact absurd ⟨l, hl⟩ hawaited
      · exact hstores i' j' c' hmem l hl
    obtain ⟨l, hl⟩ := hawaited
    obtain ⟨x, hx, hname⟩ := hl.asked
    obtain ⟨es', hes', hkeeps', hstored⟩ := exists_delivery math lib pb h hconf
      (fun k => (hkeeps.confParam k).trans (hd k)) hl.ne ((hkeeps.own j c).trans hl.own) hl.plain
      hl.readable ((hkeeps.fetcher i).symm ▸ hx) hname
    rw [← run_append] at hkeeps' hstored
    refine ⟨es ++ es', meets_append.2 ⟨hes, hes'⟩, hkeeps.trans hkeeps',
      fun i' j' c' hmem l' hl' => ?_⟩
    rcases List.mem_cons.1 hmem with heq | hmem
    · cases heq
      obtain rfl : l = l' := Option.some.inj (hl.own.symm.trans hl'.own)
      exact ⟨es ++ es', List.prefix_rfl, hstored⟩
    · obtain ⟨earlier, hpre, hearlier⟩ := hstores i' j' c' hmem l' hl'
      exact ⟨earlier, hpre.trans (List.prefix_append _ _), hearlier⟩

/-! ## Convergence -/

theorem along_fitting_exchange {d : Domain ι H} (hd : Fitting d) {es : List (DomainEvent ι)}
    (hes : ∀ e ∈ es, IsExchange e) : Along (step math lib pb) Fitting d es := by
  induction es generalizing d with
  | nil => exact hd
  | cons e es ih =>
    refine ⟨hd, ih (fun i => ?_) fun e' he' => hes e' (List.mem_cons_of_mem _ he')⟩
    have hone : ∀ e' ∈ [e], IsExchange e' := by
      intro e' he'
      rw [List.mem_singleton.1 he']
      exact hes e List.mem_cons_self
    have hrouter : ((d.step math lib pb e).node i).router = (d.node i).router :=
      router_exchange math lib pb d hone i
    rw [hrouter]
    exact hd i

/-- What was passed on for the newest number is awaited. -/
theorem awaited_of_passed (h : lib.RoundTrips) {setup : ι → Setup}
    (hconf : WellConfigured lib setup) {es : List (DomainEvent ι)}
    (hes : Along (step math lib pb) Fitting (first H setup) es) {i j : ι} (hij : j ≠ i)
    {c : Counter} {l : AnyLsa}
    (hl : ((after math lib pb H setup es).node j).router.lsaOf c
      (setup j).confParam.routerPrefix = some l)
    (hpassed : ((setup j).confParam.updatePrefix ++ [c.component], l.lsSeqNo.toUInt64) ∈
      ((after math lib pb H setup es).node i).fetcher.passed)
    (hcount : l.CountFits)
    (htime : (lib.fromIsoString (lib.toIsoString l.toLsa.expirationTimePoint)).isSome) :
    Awaited lib setup (after math lib pb H setup es) i j c l := by
  have hagrees := agrees_after math lib pb h hconf (meets_keepsRoom math lib pb hes) i j hij
  have hplain : l.Plain (setup j).confParam := by
    have hown := hagrees.writes.own c l
    rw [hagrees.confParam] at hown
    exact hown ((congrArg (lsaOf _ c) (congrArg ConfParameter.routerPrefix
      hagrees.confParam)).trans hl)
  -- The name of an origin is a beginning of no other one
  have horigin : l.origRouter ≠ [] := by
    intro hnil
    refine hij (hconf.apart j i ?_)
    rw [← origRouter_of_lsaOf hl, hnil]
    exact List.nil_prefix
  exact {
    ne := hij
    own := hl
    plain := hplain
    readable := (AnyLsa.readable_iff h hplain).2 ⟨horigin, hcount, htime⟩
    asked := asked_of_passed math lib pb h hconf hes hl hpassed }

/-- **A domain can always converge.** After any run in which the counters stay inside their fields,
whatever was lost, repeated or mixed up, the nodes have a way to get to where each has stored the
newest LSAs of every other router, or newer ones, by what they send on their own: those that are
announced, whose count fits and whose time is read back. Or else two states of sync logics
collide. -/
theorem can_converge [Fintype ι] (h : lib.RoundTrips) {setup : ι → Setup}
    (hconf : WellConfigured lib setup) (es : List (DomainEvent ι))
    (hes : Along (step math lib pb) Fitting (first H setup) es) :
    ∃ es' : List (DomainEvent ι),
      Meets (step math lib pb) (fun d e => IsExchange e ∨ IsDelivery d e)
        (after math lib pb H setup es) es' ∧
      (Network.Collides pb false H (netTrace math lib pb H setup (es ++ es')) ∨
        ∀ i j, j ≠ i → ∀ p,
          IsGreatest {q | q ∈ ((after math lib pb H setup es).node j).router.published} p →
          ∀ c l, ((after math lib pb H setup es).node j).router.lsaOf c
              (setup j).confParam.routerPrefix = some l →
            l.lsSeqNo.toUInt64 = announcedSeqNo p c → l.CountFits →
            (lib.fromIsoString (lib.toIsoString l.toLsa.expirationTimePoint)).isSome →
            WasStored math lib pb H setup (es ++ es') i j c l.lsSeqNo.toUInt64) := by
  obtain ⟨es₁, hes₁, hknown⟩ := exists_known math lib pb h hconf (H := H) es
  have hrun : run (step math lib pb) (after math lib pb H setup es) es₁ =
      after math lib pb H setup (es ++ es₁) := (run_append _ _ _ _).symm
  have hrouter := router_exchange math lib pb (after math lib pb H setup es) hes₁
  rw [hrun] at hrouter
  have hfitting : Along (step math lib pb) Fitting (first H setup) (es ++ es₁) :=
    along_append.2 ⟨hes, along_fitting_exchange math lib pb hes.last hes₁⟩
  -- Then every LSA that was asked for is delivered
  let ts : List (ι × ι × Counter) := (Finset.univ : Finset (ι × ι)).toList.flatMap fun q =>
    SyncLogicHandler.kinds.map fun c => (q.1, q.2, c)
  have hts : ∀ i j c, (i, j, c) ∈ ts := by
    intro i j c
    refine List.mem_flatMap.2 ⟨(i, j), Finset.mem_toList.2 (Finset.mem_univ _), ?_⟩
    refine List.mem_map.2 ⟨c, ?_, rfl⟩
    cases c <;> decide
  obtain ⟨es₂, hes₂, -, hstores⟩ := exists_deliveries math lib pb h hconf
    (fun k => (configured_after math lib pb h (H := H) setup (es ++ es₁) k).confParam) ts
  have hafter : run (step math lib pb) (after math lib pb H setup (es ++ es₁)) es₂ =
      after math lib pb H setup (es ++ (es₁ ++ es₂)) := by
    rw [← List.append_assoc]
    exact (run_append _ _ _ _).symm
  refine ⟨es₁ ++ es₂, meets_append.2 ⟨?_, ?_⟩, ?_⟩
  · exact meets_of_forall (fun _ e he => Or.inl (hes₁ e he)) _
  · rw [hrun]
    exact hes₂.imp fun _ _ he => Or.inr he
  rw [← List.append_assoc] at hafter ⊢
  rcases hknown with hcollides | hknown
  · left
    have htrace : netTrace math lib pb H setup (es ++ es₁ ++ es₂) =
        netTrace math lib pb H setup (es ++ es₁) ++
          (after math lib pb H setup (es ++ es₁)).trace math lib pb es₂ :=
      trace_append math lib pb _ _ _
    rw [htrace]
    exact hcollides.append pb false _
  right
  intro i j hij p hp c l hl hannounced hcount htime
  rcases passed_of_known math lib pb h hconf hij c (hknown i j p hp) with hpassed | hstored
  swap
  · rw [hannounced]
    exact hstored.append math lib pb es₂
  rw [← hannounced] at hpassed
  rw [← hrouter j] at hl
  have hawaited := awaited_of_passed math lib pb h hconf hfitting hij hl hpassed hcount htime
  obtain ⟨earlier, hpre, hearlier⟩ := hstores i j c (hts i j c) l hawaited
  refine ⟨es ++ es₁ ++ earlier, (List.prefix_append_right_inj _).2 hpre, ?_⟩
  rw [show after math lib pb H setup (es ++ es₁ ++ earlier) = _ from run_append _ _ _ _]
  exact hearlier

/-- One of three routers has announced a name, and nobody has been told of it. -/
def untold : List (DomainEvent Three) :=
  [.turn .a (.clock 5000000000), .turn .a (.advertise [⟨"p"⟩])]

theorem can_converge_untold :
    let math : MathLib := ⟨0, id, id, id, id⟩
    ∃ es' : List (DomainEvent Three),
      Meets (step math plainText wire) (fun d e => IsExchange e ∨ IsDelivery d e)
        (after math plainText wire checksum threeRouters untold) es' ∧
      (Network.Collides wire false checksum
          (netTrace math plainText wire checksum threeRouters (untold ++ es')) ∨
        WasStored math plainText wire checksum threeRouters (untold ++ es') .b .a .name 2) := by
  intro math
  have hfitting :
      Along (step math plainText wire) Fitting (first checksum threeRouters) untold := by
    refine ⟨?_, ?_, ?_⟩ <;> unfold Fitting <;> decide +kernel
  obtain ⟨es', hes', hconverge⟩ := can_converge math plainText wire roundTrips_plainText
    wellConfigured_threeRouters untold hfitting
  refine ⟨es', hes', hconverge.imp_right fun hconverge => ?_⟩
  have hpublished : ((after math plainText wire checksum threeRouters untold).node
      .a).router.published = [2199024304128] := by decide +kernel
  have hone : (((after math plainText wire checksum threeRouters untold).node .a).router.lsaOf .name
      (threeRouters .a).confParam.routerPrefix).map (fun l => (l.lsSeqNo, decide l.CountFits,
        (plainText.fromIsoString (plainText.toIsoString l.toLsa.expirationTimePoint)).isSome)) =
      some (2, true, true) := by decide +kernel
  obtain ⟨l, hl, hall⟩ := Option.map_eq_some_iff.1 hone
  obtain ⟨hseq, hrest⟩ := Prod.mk.inj hall
  obtain ⟨hcount, htime⟩ := Prod.mk.inj hrest
  have hstored := hconverge .b .a (by decide) 2199024304128 ?_ .name l hl (by rw [hseq]; decide)
    (of_decide_eq_true hcount) htime
  · rwa [hseq] at hstored
  · rw [hpublished]
    simp [IsGreatest, upperBounds]

end Domain

end LinkState
