import LinkState.Exchange
import LinkState.PlainText
import LinkState.Restart

/-!
# What a router serves

Data is cached in the network by its name, so the content of an LSA must not change while its
number stays. But a stored LSA is changed in place: an update patches its list, a comparison
sorts it, a refresh moves its expiration point.

`lsaOf_own_step` is why it works for the own LSAs: a turn leaves one as it is or gives it a
number past the counter. `one_name_one_content` follows for runs of turns and Interests.
-/

namespace LinkState

open SequencingManager

namespace Nlsr

/-! ## The own LSAs -/

theorem ownSeqNo_eq (s : Nlsr) (c : Counter) :
    s.ownSeqNo c = (s.lsaOf c s.routerPrefix).map fun l => l.lsSeqNo.toNat := by
  cases c <;>
    simp [ownSeqNo, lsaOf, Lsdb.findNameLsa, Lsdb.findAdjLsa, Lsdb.findCoordinateLsa,
      Function.comp_def, AnyLsa.lsSeqNo]

/-- An own number that changes passes the counter. -/
theorem Turn.counter_lt {s t : Nlsr} (h : Turn s t) (hs : s.Numbered) (hroom : KeepsRoom s t)
    {c : Counter} {n : Nat} (hn : t.ownSeqNo c = some n) (hne : s.ownSeqNo c ≠ some n) :
    (s.sequencingManager.counter c).toNat < n := by
  have ht := (h.numbered hs hroom).own c n hn
  rcases h.counts hroom with h | ⟨e, hr, h⟩
  · rcases h.own c with hown | hown
    · exact absurd (hown ▸ hn) hne
    · simp [hown] at hn
  · by_cases hc : c = e.of
    · subst hc
      rw [ht, h.sequencingManager, counter_seqStep, if_pos rfl, hr.toNat_add_one]
      exact Nat.lt_succ_self _
    · exact absurd (h.others c hc ▸ hn) hne

theorem toNat_add_one_ne (n : UInt32) : (n + 1).toNat ≠ n.toNat := by
  intro h
  rw [UInt32.toNat_add] at h
  have hlt := n.toNat_lt
  simp at h
  omega

/-- **A turn leaves an own LSA as it is, or its number passes the counter.** -/
theorem lsaOf_own_step (math : MathLib) {s : Nlsr} (hs : s.Numbered) {e : Event}
    (he : s.ArrivesForeign e) (hroom : KeepsRoom s (s.step math e)) {c : Counter} {l' : AnyLsa}
    (hl' : (s.step math e).lsaOf c s.routerPrefix = some l') :
    s.lsaOf c s.routerPrefix = some l' ∨
      (s.sequencingManager.counter c).toNat < l'.lsSeqNo.toNat := by
  have hrp : (s.step math e).routerPrefix = s.routerPrefix :=
    congrArg ConfParameter.routerPrefix (confParam_step math s e)
  have hown : (s.step math e).ownSeqNo c = some l'.lsSeqNo.toNat := by
    rw [ownSeqNo_eq, hrp, hl']
    rfl
  -- Whatever changes the LSA changes its number
  have hnewer : s.ownSeqNo c ≠ some l'.lsSeqNo.toNat →
      (s.sequencingManager.counter c).toNat < l'.lsSeqNo.toNat :=
    (turn_step math hs e he).counter_lt hs hroom hown
  rw [ownSeqNo_eq] at hnewer
  cases lsaChange_step math s e hl' with
  | kept h => exact Or.inl h
  | installed hop hc ho h => exact Or.inr (hnewer (by simp [h]))
  | updated l chk eid hop hc ho h hlt heq =>
    have hkind : l.counter = chk.counter := by rw [counter_of_lsaOf h, hc]
    have hlt' := UInt32.lt_iff_toNat_lt.1 hlt
    refine Or.inr (hnewer ?_)
    rw [h, heq, AnyLsa.lsSeqNo_updated hkind]
    simpa using hlt'.ne
  | refreshed chk t eid h hop heq =>
    refine Or.inr (hnewer ?_)
    rw [h, heq, AnyLsa.lsSeqNo_refreshed]
    simpa using (toNat_add_one_ne chk.lsSeqNo).symm

end Nlsr

/-! ## Runs of turns and Interests -/

/-- Data that was served: its name, without the version, and its content. -/
structure Served where
  interestName : Name
  content : Text

/-- A router and the LSA Data it has served. -/
structure Server where
  router : Nlsr
  served : List Served := []

inductive ServerEvent
  | turn (e : Event)
  | interest (interestName : Name)

namespace Server

open Nlsr

def step (math : MathLib) (lib : TextLib) (v : Server) : ServerEvent → Server
  | .turn e => { v with router := v.router.step math e }
  | .interest interestName =>
    match v.router.processInterest lib interestName with
    | some content => { v with served := v.served ++ [⟨interestName, content⟩] }
    | none => v

/-- Every turn is regular. -/
def Regular (math : MathLib) (v : Server) : ServerEvent → Prop
  | .turn e => v.router.Regular math e
  | .interest _ => True

/-- The Data is for this router's own LSA of a kind with a number. -/
def IsOwn (v : Server) (d : Served) (c : Counter) (seqNo : UInt64) : Prop :=
  v.router.lsaIdOf d.interestName 2 = some ⟨v.router.routerPrefix, c, seqNo⟩

/-- What was served is behind the counters, agrees with itself and with what is stored. -/
structure Frozen (lib : TextLib) (v : Server) : Prop where
  numbered : v.router.Numbered
  reached : ∀ d ∈ v.served, ∀ c seqNo, v.IsOwn d c seqNo →
    seqNo.toNat ≤ (v.router.sequencingManager.counter c).toNat
  stored : ∀ d ∈ v.served, ∀ c seqNo, v.IsOwn d c seqNo → ∀ l,
    v.router.lsaOf c v.router.routerPrefix = some l → l.lsSeqNo.toUInt64 = seqNo →
      d.content = l.getData lib
  same : ∀ d ∈ v.served, ∀ d' ∈ v.served, ∀ c seqNo, v.IsOwn d c seqNo → v.IsOwn d' c seqNo →
    d.content = d'.content

theorem frozen_turn {math : MathLib} {lib : TextLib} {v : Server} (hv : v.Frozen lib) {e : Event}
    (he : v.router.ArrivesForeign e) (hroom : KeepsRoom v.router (v.router.step math e)) :
    (v.step math lib (.turn e)).Frozen lib := by
  have hconf := confParam_step math v.router e
  have hrp : (v.router.step math e).routerPrefix = v.router.routerPrefix :=
    congrArg ConfParameter.routerPrefix hconf
  have hown : ∀ d c seqNo, (v.step math lib (.turn e)).IsOwn d c seqNo ↔ v.IsOwn d c seqNo := by
    intro d c seqNo
    simp only [IsOwn, step, lsaIdOf, originOf, hconf, hrp]
  have hturn := turn_step math hv.numbered e he
  refine ⟨hturn.numbered hv.numbered hroom, fun d hd c seqNo h => ?_,
    fun d hd c seqNo h l hl hseq => ?_, fun d hd d' hd' c seqNo h h' => ?_⟩
  · exact (hv.reached d hd c seqNo ((hown d c seqNo).1 h)).trans (hturn.counter_le hroom c)
  · have h' := (hown d c seqNo).1 h
    rw [show (v.step math lib (.turn e)).router = v.router.step math e from rfl, hrp] at hl
    rcases lsaOf_own_step math hv.numbered he hroom hl with hl | hlt
    · exact hv.stored d hd c seqNo h' l hl hseq
    · -- The number of the new LSA was not in use
      have hle := hv.reached d hd c seqNo h'
      rw [← hseq, UInt32.toNat_toUInt64] at hle
      omega
  · exact hv.same d hd d' hd' c seqNo ((hown d c seqNo).1 h) ((hown d' c seqNo).1 h')

theorem frozen_interest {math : MathLib} {lib : TextLib} {v : Server} (hv : v.Frozen lib)
    (interestName : Name) : (v.step math lib (.interest interestName)).Frozen lib := by
  cases h : v.router.processInterest lib interestName with
  | none =>
    have heq : v.step math lib (.interest interestName) = v := by simp [step, h]
    rw [heq]
    exact hv
  | some content =>
    have heq : v.step math lib (.interest interestName) =
        { v with served := v.served ++ [⟨interestName, content⟩] } := by simp [step, h]
    rw [heq]
    -- What is served now is what is stored
    have hnew : ∀ c seqNo, v.IsOwn ⟨interestName, content⟩ c seqNo →
        ∃ l, v.router.lsaOf c v.router.routerPrefix = some l ∧ l.lsSeqNo.toUInt64 = seqNo ∧
          content = l.getData lib := by
      intro c seqNo hown
      rw [processInterest_eq, show v.router.lsaIdOf interestName 2 = _ from hown] at h
      obtain ⟨l, hl, hdata⟩ := Option.map_eq_some_iff.1 h
      obtain ⟨hl, hseq⟩ := Option.filter_eq_some_iff.1 hl
      exact ⟨l, hl, by simpa using hseq, hdata.symm⟩
    have hmem : ∀ d ∈ v.served ++ [⟨interestName, content⟩],
        d ∈ v.served ∨ d = ⟨interestName, content⟩ := fun d hd => by simpa using hd
    refine ⟨hv.numbered, fun d hd c seqNo hd' => ?_, fun d hd c seqNo hd' l hl hseq => ?_,
      fun d hd d' hd' c seqNo h₁ h₂ => ?_⟩
    · rcases hmem d hd with hd | rfl
      · exact hv.reached d hd c seqNo hd'
      · obtain ⟨l, hl, rfl, -⟩ := hnew c seqNo hd'
        rw [UInt32.toNat_toUInt64, hv.numbered.own c l.lsSeqNo.toNat (by rw [ownSeqNo_eq, hl]; rfl)]
    · rcases hmem d hd with hd | rfl
      · exact hv.stored d hd c seqNo hd' l hl hseq
      · obtain ⟨l', hl', -, hcontent⟩ := hnew c seqNo hd'
        obtain rfl : l' = l := Option.some.inj (hl'.symm.trans hl)
        exact hcontent
    · rcases hmem d hd with hd | rfl <;> rcases hmem d' hd' with hd' | rfl
      · exact hv.same d hd d' hd' c seqNo h₁ h₂
      · obtain ⟨l, hl, hseq, hcontent⟩ := hnew c seqNo h₂
        exact (hv.stored d hd c seqNo h₁ l hl hseq).trans hcontent.symm
      · obtain ⟨l, hl, hseq, hcontent⟩ := hnew c seqNo h₁
        exact hcontent.trans (hv.stored d' hd' c seqNo h₂ l hl hseq).symm
      · rfl

/-- A router that has just started. -/
def first (confParam : ConfParameter) (adjacencyList : AdjacencyList)
    (namePrefixList : NamePrefixList) (seqFile : Option UInt64) (now : TimePoint) : Server :=
  { router := (start confParam adjacencyList namePrefixList seqFile now).initializeNlsr }

theorem frozen_run (math : MathLib) (lib : TextLib) (confParam : ConfParameter)
    (adjacencyList : AdjacencyList) (namePrefixList : NamePrefixList) (seqFile : Option UInt64)
    (now : TimePoint) {es : List ServerEvent}
    (h : Meets (step math lib) (Regular math)
      (first confParam adjacencyList namePrefixList seqFile now) es) :
    (run (step math lib) (first confParam adjacencyList namePrefixList seqFile now) es).Frozen
      lib := by
  have hfirst : (first confParam adjacencyList namePrefixList seqFile now).Frozen lib :=
    ⟨numbered_initializeNlsr .., by simp [first], by simp [first], by simp [first]⟩
  refine (along_of_meets (fun v e hv he => ?_) hfirst h).last
  cases e with
  | turn e => exact frozen_turn hv he.1 he.2
  | interest interestName => exact frozen_interest hv interestName

/-- **One LSA name, one content.** Whatever a router serves for a kind and a number of its own
has one content. -/
theorem one_name_one_content (math : MathLib) (lib : TextLib) (confParam : ConfParameter)
    (adjacencyList : AdjacencyList) (namePrefixList : NamePrefixList) (seqFile : Option UInt64)
    (now : TimePoint) (es : List ServerEvent)
    (h : Meets (step math lib) (Regular math)
      (first confParam adjacencyList namePrefixList seqFile now) es) :
    let v := run (step math lib) (first confParam adjacencyList namePrefixList seqFile now) es
    ∀ d ∈ v.served, ∀ d' ∈ v.served, ∀ c seqNo, v.IsOwn d c seqNo → v.IsOwn d' c seqNo →
      d.content = d'.content :=
  (frozen_run math lib confParam adjacencyList namePrefixList seqFile now h).same

/-- The Name LSA is asked for twice, and again after a prefix was advertised. -/
def askedTwice : List ServerEvent :=
  let ask := fun n => ServerEvent.interest
    (lsaName { network := [⟨"a"⟩] } [] (Counter.component .name) (Component.fromNumber n) [])
  [ask 1, .turn (.clock 5000000000), ask 1, .turn (.advertise [⟨"b"⟩]), ask 2]

theorem one_name_one_content_askedTwice :
    let v := run (step ⟨0, id, id, id, id⟩ plainText)
      (first { network := [⟨"a"⟩] } KeyedList.empty KeyedList.empty none 0) askedTwice
    v.served.map Served.content = ["/a|name|1|19700101T010000|0|".toList,
        "/a|name|1|19700101T010000|0|".toList, "/a|name|2|19700101T010005|1|/b|".toList] ∧
      ∀ d ∈ v.served, ∀ d' ∈ v.served, ∀ c seqNo, v.IsOwn d c seqNo → v.IsOwn d' c seqNo →
        d.content = d'.content := by
  refine ⟨by decide +kernel, one_name_one_content ⟨0, id, id, id, id⟩ plainText
    { network := [⟨"a"⟩] } KeyedList.empty KeyedList.empty none 0 askedTwice
    ⟨trivial, ⟨trivial, keepsRoom_of_fits ?_ _⟩, trivial, ⟨trivial, keepsRoom_of_fits ?_ _⟩,
      trivial, trivial⟩⟩
  · decide +kernel
  · decide +kernel

end Server

end LinkState
