import LinkState.Library.Run
import LinkState.State

/-!
# Fetching LSAs

A sync update asks for an LSA with a number, and `expressInterest` keeps for each LSA name the
highest number it was ever asked for. What comes back comes back late and in any order: an
Interest may time out and the validation of its Data may fail at any time, any number of times,
each with the number and the deadline of the fetch it belongs to.

`fetching_never_goes_back`: in every run the numbers asked for by the Interests of one name never
decrease, every Interest carries the largest number passed so far and a new largest number is
asked for at once; nothing is sent again or validated again after the deadline.
-/

namespace LinkState

/-- `LSA_REFRESH_TIME_MAX`, in seconds. -/
def lsaRefreshTimeMax : Int := 7200

structure HighestSeqNo where
  lsaName : Name
  seqNo : UInt64
  deriving DecidableEq

/-- An Interest sent, with what its callbacks have captured. The position of the Interest that
began the fetch is a ghost: the code does not have it. -/
structure LsaInterest where
  name : Name
  timeoutCount : UInt32
  deadline : TimePoint
  lsaName : Name
  seqNo : UInt64
  sentAt : TimePoint
  fetch : Nat
  deriving DecidableEq

/-- A scheduled run of `retryContentValidation`. -/
structure Revalidation where
  scheduledAt : TimePoint
  due : TimePoint
  deadline : TimePoint
  lsaName : Name
  seqNo : UInt64
  fetch : Nat
  deriving DecidableEq

/-- The lifetime of an LSA Interest, in seconds, within the range the configuration allows. -/
structure LsaInterestLifetime where
  seconds : Int
  inRange : 1 ≤ seconds ∧ seconds ≤ 60

/-- The part of the LSDB that fetches. The Interests sent and the numbers passed to
`expressInterest` are kept as histories, the oldest first. -/
structure LsaFetcher where
  now : TimePoint
  lsaInterestLifetime : LsaInterestLifetime
  highestSeqNo : KeyedList HighestSeqNo.lsaName := KeyedList.empty
  sent : List LsaInterest := []
  revalidations : List Revalidation := []
  passed : List (Name × UInt64) := []

namespace LsaFetcher

def send (s : LsaFetcher) (interest : LsaInterest) : LsaFetcher :=
  { s with sent := s.sent ++ [interest] }

/-- `Lsdb::expressInterest`. No deadline is `DEFAULT_LSA_RETRIEVAL_DEADLINE`. -/
def expressInterest (s : LsaFetcher) (interestName : Name) (timeoutCount : UInt32)
    (deadline : Option TimePoint) (fetch : Nat) : LsaFetcher :=
  let deadline := deadline.getD (s.now + seconds lsaRefreshTimeMax)
  let lsaName := getSubName interestName 0 (interestName.length - 1)
  match (fromEnd interestName 1).bind Component.toNumber with
  | none => s
  | some seqNo =>
    let interest : LsaInterest :=
      { name := interestName, timeoutCount, deadline, lsaName, seqNo, sentAt := s.now, fetch }
    let s := { s with passed := s.passed ++ [(lsaName, seqNo)] }
    match s.highestSeqNo.find? lsaName with
    | none =>
      ({ s with highestSeqNo := s.highestSeqNo.insert ⟨lsaName, seqNo⟩ } : LsaFetcher).send interest
    | some highest =>
      if seqNo > highest.seqNo then
        ({ s with highestSeqNo := s.highestSeqNo.replace ⟨lsaName, seqNo⟩ } : LsaFetcher).send
          interest
      else if seqNo < highest.seqNo then s
      else s.send interest

/-- `SyncLogicHandler::expressInterestForLsa`; a fetch begins. -/
def expressInterestForLsa (s : LsaFetcher) (lsaName : Name) (seqNo : UInt64) : LsaFetcher :=
  s.expressInterest (lsaName ++ [Component.fromNumber seqNo]) 0 none s.sent.length

/-- Is this the highest number passed for the name? -/
def isHighest (s : LsaFetcher) (lsaName : Name) (seqNo : UInt64) : Bool :=
  match s.highestSeqNo.find? lsaName with
  | none => false
  | some highest => highest.seqNo = seqNo

/-- `Lsdb::processInterestTimedOut`. -/
def processInterestTimedOut (s : LsaFetcher) (interest : LsaInterest) : LsaFetcher :=
  if s.now < interest.deadline then
    if s.isHighest interest.lsaName interest.seqNo then
      s.expressInterest interest.name (interest.timeoutCount + 1) (some interest.deadline)
        interest.fetch
    else s
  else s

/-- `Lsdb::onContentValidationFailed`. -/
def onContentValidationFailed (s : LsaFetcher) (deadline : TimePoint) (lsaName : Name)
    (seqNo : UInt64) (fetch : Nat) : LsaFetcher :=
  let due := s.now + seconds s.lsaInterestLifetime.seconds
  if due < deadline then
    if s.isHighest lsaName seqNo then
      { s with revalidations := s.revalidations ++
          [{ scheduledAt := s.now, due, deadline, lsaName, seqNo, fetch }] }
    else s
  else s

end LsaFetcher

/-- What happens to a fetcher. Interests and re-validations are named by their positions. -/
inductive FetchEvent
  | advance (d : Nat)
  | syncUpdate (lsaName : Name) (seqNo : UInt64)
  | timeout (interest : Nat)
  | validationFails (interest : Nat)
  | revalidationFails (revalidation : Nat)
  deriving DecidableEq

namespace LsaFetcher

def step (s : LsaFetcher) : FetchEvent → LsaFetcher
  | .advance d => { s with now := s.now + d }
  | .syncUpdate lsaName seqNo => s.expressInterestForLsa lsaName seqNo
  | .timeout interest =>
    match s.sent[interest]? with
    | some i => s.processInterestTimedOut i
    | none => s
  | .validationFails interest =>
    match s.sent[interest]? with
    | some i => s.onContentValidationFailed i.deadline i.lsaName i.seqNo i.fetch
    | none => s
  | .revalidationFails revalidation =>
    match s.revalidations[revalidation]? with
    | some r => s.onContentValidationFailed r.deadline r.lsaName r.seqNo r.fetch
    | none => s

/-- A fetcher that was never asked for anything. -/
def start (now : TimePoint) (lsaInterestLifetime : LsaInterestLifetime) : LsaFetcher :=
  { now, lsaInterestLifetime }

/-- The numbers passed to `expressInterest` for a name. -/
def passedFor (s : LsaFetcher) (lsaName : Name) : Set UInt64 := {q | (lsaName, q) ∈ s.passed}

/-- The fetch was begun by an Interest for this name and number, at a time that gives the
deadline. -/
structure Begun (s : LsaFetcher) (fetch : Nat) (lsaName : Name) (seqNo : UInt64)
    (deadline : TimePoint) (first : LsaInterest) : Prop where
  position : s.sent[fetch]? = some first
  own : first.fetch = fetch
  lsaName : first.lsaName = lsaName
  seqNo : first.seqNo = seqNo
  deadline : deadline = first.sentAt + seconds lsaRefreshTimeMax

/-- What has been sent and scheduled so far. -/
structure NeverGoesBack (s : LsaFetcher) : Prop where
  /-- The numbers asked for by the Interests of one name never decrease. -/
  ordered : s.sent.Pairwise fun i j => i.lsaName = j.lsaName → i.seqNo ≤ j.seqNo
  /-- An Interest that does not begin its fetch was sent before the deadline of the fetch. -/
  resent : ∀ (k : Nat) (i : LsaInterest), s.sent[k]? = some i →
    ∃ first, s.Begun i.fetch i.lsaName i.seqNo i.deadline first ∧
      (k ≠ i.fetch → i.sentAt < i.deadline)
  /-- A validation is tried again before the deadline of the fetch. -/
  retried : ∀ r ∈ s.revalidations,
    ∃ first, s.Begun r.fetch r.lsaName r.seqNo r.deadline first ∧
      r.scheduledAt < r.deadline ∧ r.due < r.deadline

/-- From `s` to `t` at most one Interest is sent, and it carries the largest number passed for its
name so far. -/
def SendsLargest (s t : LsaFetcher) : Prop :=
  t.sent = s.sent ∨
    ∃ i, t.sent = s.sent ++ [i] ∧ i.name = i.lsaName ++ [Component.fromNumber i.seqNo] ∧
      IsGreatest (t.passedFor i.lsaName) i.seqNo

/-! ## Expressing an Interest -/

/-- The map has the largest number passed for each name. -/
def KeepsHighest (s : LsaFetcher) : Prop :=
  ∀ n, match s.highestSeqNo.find? n with
    | none => s.passedFor n = ∅
    | some highest => IsGreatest (s.passedFor n) highest.seqNo

theorem keepsHighest_congr {s t : LsaFetcher} (hhighest : t.highestSeqNo = s.highestSeqNo)
    (hpassed : t.passed = s.passed) (h : s.KeepsHighest) : t.KeepsHighest := by
  unfold KeepsHighest passedFor at *
  rw [hhighest, hpassed]
  exact h

/-- One more number is passed. -/
def pass (s : LsaFetcher) (lsaName : Name) (seqNo : UInt64) : LsaFetcher :=
  { s with passed := s.passed ++ [(lsaName, seqNo)] }

theorem mem_passedFor_pass {s : LsaFetcher} {lsaName n : Name} {seqNo q : UInt64} :
    q ∈ (s.pass lsaName seqNo).passedFor n ↔ q ∈ s.passedFor n ∨ n = lsaName ∧ q = seqNo := by
  simp [passedFor, pass]

theorem passedFor_pass_ne {s : LsaFetcher} {lsaName n : Name} (h : n ≠ lsaName) (seqNo : UInt64) :
    (s.pass lsaName seqNo).passedFor n = s.passedFor n := by
  ext q
  rw [mem_passedFor_pass]
  exact or_iff_left fun hn => h hn.1

/-- The number is passed; the map may change for its name only. -/
theorem KeepsHighest.pass {s : LsaFetcher} (h : s.KeepsHighest) {lsaName : Name} {seqNo : UInt64}
    {highestSeqNo : KeyedList HighestSeqNo.lsaName} (entry : HighestSeqNo)
    (hothers : ∀ n, n ≠ lsaName → highestSeqNo.find? n = s.highestSeqNo.find? n)
    (hentry : highestSeqNo.find? lsaName = some entry)
    (hgreatest : IsGreatest ((s.pass lsaName seqNo).passedFor lsaName) entry.seqNo) :
    KeepsHighest { s.pass lsaName seqNo with highestSeqNo } := by
  intro n
  show match highestSeqNo.find? n with
    | none => (s.pass lsaName seqNo).passedFor n = ∅
    | some highest => IsGreatest ((s.pass lsaName seqNo).passedFor n) highest.seqNo
  by_cases hn : n = lsaName
  · subst hn
    rw [hentry]
    exact hgreatest
  · rw [hothers n hn, passedFor_pass_ne hn]
    exact h n

theorem isGreatest_pass {s : LsaFetcher} {lsaName : Name} {seqNo : UInt64}
    (h : ∀ q ∈ s.passedFor lsaName, q ≤ seqNo) :
    IsGreatest ((s.pass lsaName seqNo).passedFor lsaName) seqNo := by
  refine ⟨mem_passedFor_pass.2 (Or.inr ⟨rfl, rfl⟩), fun q hq => ?_⟩
  rcases mem_passedFor_pass.1 hq with hq | ⟨-, rfl⟩
  · exact h q hq
  · exact UInt64.le_refl q

/-- What expressing an Interest does: the number is passed, and the Interest is sent unless a
larger number was passed before. -/
structure Expresses (s t : LsaFetcher) (i : LsaInterest) : Prop where
  frame : t = { s.pass i.lsaName i.seqNo with highestSeqNo := t.highestSeqNo, sent := t.sent }
  keepsHighest : t.KeepsHighest
  sent : (∃ q ∈ s.passedFor i.lsaName, i.seqNo < q) ∧ t.sent = s.sent ∨
    (∀ q ∈ s.passedFor i.lsaName, q ≤ i.seqNo) ∧ t.sent = s.sent ++ [i]

/-- The Interest that `expressInterest` is about to send. -/
def interestFor (s : LsaFetcher) (lsaName : Name) (seqNo : UInt64) (timeoutCount : UInt32)
    (deadline : Option TimePoint) (fetch : Nat) : LsaInterest where
  name := lsaName ++ [Component.fromNumber seqNo]
  timeoutCount := timeoutCount
  deadline := deadline.getD (s.now + seconds lsaRefreshTimeMax)
  lsaName := lsaName
  seqNo := seqNo
  sentAt := s.now
  fetch := fetch

/-- **What `expressInterest` does** with the name of an LSA and a number. -/
theorem expresses_expressInterest {s : LsaFetcher} (h : s.KeepsHighest) (lsaName : Name)
    (seqNo : UInt64) (timeoutCount : UInt32) (deadline : Option TimePoint) (fetch : Nat) :
    Expresses s
      (s.expressInterest (lsaName ++ [Component.fromNumber seqNo]) timeoutCount deadline fetch)
      (s.interestFor lsaName seqNo timeoutCount deadline fetch) := by
  have hsub : getSubName (lsaName ++ [Component.fromNumber seqNo]) 0
      ((lsaName ++ [Component.fromNumber seqNo]).length - 1) = lsaName := by
    simp [getSubName]
  have hnum : (fromEnd (lsaName ++ [Component.fromNumber seqNo]) 1).bind Component.toNumber =
      some seqNo := by
    simp [fromEnd, Component.toNumber_fromNumber]
  have hname := h lsaName
  unfold expressInterest
  rw [hsub, hnum]
  dsimp only
  generalize hi : s.interestFor lsaName seqNo timeoutCount deadline fetch = i
  have hi' : (LsaInterest.mk (lsaName ++ [Component.fromNumber seqNo]) timeoutCount
      (deadline.getD (s.now + seconds lsaRefreshTimeMax)) lsaName seqNo s.now fetch) = i := hi
  have hlsaName : i.lsaName = lsaName := hi ▸ rfl
  have hseqNo : i.seqNo = seqNo := hi ▸ rfl
  rw [hi']
  cases hfind : s.highestSeqNo.find? lsaName with
  | none =>
    rw [hfind] at hname
    have hall : ∀ q ∈ s.passedFor lsaName, q ≤ seqNo := fun q hq => by
      rw [hname] at hq
      exact absurd hq (Set.notMem_empty q)
    have hkeeps := h.pass ⟨lsaName, seqNo⟩
      (fun n hn => KeyedList.find?_insert_ne hn) (KeyedList.find?_insert_self hfind)
      (isGreatest_pass hall)
    exact {
      frame := by rw [hlsaName, hseqNo]; rfl
      keepsHighest := keepsHighest_congr rfl rfl hkeeps
      sent := Or.inr ⟨by rw [hlsaName, hseqNo]; exact hall, rfl⟩ }
  | some highest =>
    rw [hfind] at hname
    have hkey : highest.lsaName = lsaName := KeyedList.key_of_find? hfind
    dsimp only
    split_ifs with hgt hlt
    · have hall : ∀ q ∈ s.passedFor lsaName, q ≤ seqNo := fun q hq =>
        UInt64.le_trans (hname.2 hq) (UInt64.le_of_lt hgt)
      have hkeeps := h.pass ⟨lsaName, seqNo⟩
        (fun n hn => KeyedList.find?_replace_ne hn) (KeyedList.find?_replace_self hfind)
        (isGreatest_pass hall)
      exact {
        frame := by rw [hlsaName, hseqNo]; rfl
        keepsHighest := keepsHighest_congr rfl rfl hkeeps
        sent := Or.inr ⟨by rw [hlsaName, hseqNo]; exact hall, rfl⟩ }
    · -- The number is outdated: the map keeps the larger one
      have hkeeps := h.pass highest (fun n _ => rfl) hfind
        ⟨mem_passedFor_pass.2 (Or.inl hname.1), fun q hq => by
          rcases mem_passedFor_pass.1 hq with hq | ⟨-, rfl⟩
          · exact hname.2 hq
          · exact UInt64.le_of_lt hlt⟩
      exact {
        frame := by rw [hlsaName, hseqNo]; rfl
        keepsHighest := hkeeps
        sent := Or.inl ⟨⟨highest.seqNo, hlsaName ▸ hname.1, hseqNo ▸ hlt⟩, rfl⟩ }
    · have heq : highest.seqNo = seqNo :=
        UInt64.le_antisymm (UInt64.not_lt.1 hlt) (UInt64.not_lt.1 hgt)
      have hall : ∀ q ∈ s.passedFor lsaName, q ≤ seqNo := fun q hq => heq ▸ hname.2 hq
      have hgreatest : IsGreatest ((s.pass lsaName seqNo).passedFor lsaName) highest.seqNo :=
        heq.symm ▸ isGreatest_pass hall
      have hkeeps := h.pass highest (fun n _ => rfl) hfind hgreatest
      exact {
        frame := by rw [hlsaName, hseqNo]; rfl
        keepsHighest := keepsHighest_congr rfl rfl hkeeps
        sent := Or.inr ⟨by rw [hlsaName, hseqNo]; exact hall, rfl⟩ }

/-! ## The invariant -/

/-- What every step keeps. -/
structure Inv (s : LsaFetcher) : Prop where
  keepsHighest : s.KeepsHighest
  passed : ∀ i ∈ s.sent, i.seqNo ∈ s.passedFor i.lsaName
  named : ∀ i ∈ s.sent, i.name = i.lsaName ++ [Component.fromNumber i.seqNo]
  neverGoesBack : s.NeverGoesBack

theorem inv_start (now : TimePoint) (lifetime : LsaInterestLifetime) : (start now lifetime).Inv where
  keepsHighest := fun n => Set.eq_empty_of_forall_notMem fun q => List.not_mem_nil
  passed := fun i hi => absurd hi List.not_mem_nil
  named := fun i hi => absurd hi List.not_mem_nil
  neverGoesBack := {
    ordered := List.Pairwise.nil
    resent := fun k i hi => by simp [start] at hi
    retried := fun r hr => absurd hr List.not_mem_nil }

/-- A fetch that has begun stays begun when more is sent. -/
theorem Begun.append {s t : LsaFetcher} {fetch : Nat} {lsaName : Name} {seqNo : UInt64}
    {deadline : TimePoint} {first : LsaInterest} (h : s.Begun fetch lsaName seqNo deadline first)
    {more : List LsaInterest} (hsent : t.sent = s.sent ++ more) :
    t.Begun fetch lsaName seqNo deadline first where
  position := by
    obtain ⟨hlt, -⟩ := List.getElem?_eq_some_iff.1 h.position
    rw [hsent, List.getElem?_append_left hlt]
    exact h.position
  own := h.own
  lsaName := h.lsaName
  seqNo := h.seqNo
  deadline := h.deadline

/-- The Interest belongs to a fetch that has begun, or begins one itself. -/
def Belongs (s : LsaFetcher) (i : LsaInterest) : Prop :=
  (i.fetch = s.sent.length ∧ i.deadline = i.sentAt + seconds lsaRefreshTimeMax) ∨
    (∃ first, s.Begun i.fetch i.lsaName i.seqNo i.deadline first) ∧ i.sentAt < i.deadline

/-- **Expressing an Interest keeps the invariant**, if the Interest belongs to a fetch. -/
theorem Inv.expresses {s t : LsaFetcher} {i : LsaInterest} (h : s.Inv) (ht : Expresses s t i)
    (hname : i.name = i.lsaName ++ [Component.fromNumber i.seqNo]) (hfetch : s.Belongs i) :
    t.Inv := by
  have hpassed : ∀ n, s.passedFor n ⊆ t.passedFor n := by
    intro n q hq
    rw [ht.frame]
    exact mem_passedFor_pass.2 (Or.inl hq)
  have hnew : i.seqNo ∈ t.passedFor i.lsaName := by
    rw [ht.frame]
    exact mem_passedFor_pass.2 (Or.inr ⟨rfl, rfl⟩)
  have hrevalidations : t.revalidations = s.revalidations := by rw [ht.frame]; rfl
  have hback := h.neverGoesBack
  rcases ht.sent with ⟨-, hsent⟩ | ⟨hlargest, hsent⟩
  · have hsent' : t.sent = s.sent ++ [] := by rw [hsent, List.append_nil]
    exact {
      keepsHighest := ht.keepsHighest
      passed := fun j hj => hpassed _ (h.passed j (hsent ▸ hj))
      named := fun j hj => h.named j (hsent ▸ hj)
      neverGoesBack := {
        ordered := hsent ▸ hback.ordered
        resent := fun k j hj => by
          obtain ⟨first, hbegun, hearly⟩ := hback.resent k j (hsent ▸ hj)
          exact ⟨first, hbegun.append hsent', hearly⟩
        retried := fun r hr => by
          obtain ⟨first, hbegun, hearly⟩ := hback.retried r (hrevalidations ▸ hr)
          exact ⟨first, hbegun.append hsent', hearly⟩ } }
  · have hmem : ∀ j, j ∈ t.sent ↔ j ∈ s.sent ∨ j = i := fun j => by
      rw [hsent, List.mem_append, List.mem_singleton]
    exact {
      keepsHighest := ht.keepsHighest
      passed := fun j hj => by
        rcases (hmem j).1 hj with hj | rfl
        · exact hpassed _ (h.passed j hj)
        · exact hnew
      named := fun j hj => by
        rcases (hmem j).1 hj with hj | rfl
        · exact h.named j hj
        · exact hname
      neverGoesBack := {
        ordered := by
          rw [hsent, List.pairwise_append]
          refine ⟨hback.ordered, List.pairwise_singleton _ _, fun j hj k hk hjk => ?_⟩
          obtain rfl := List.mem_singleton.1 hk
          exact hlargest _ (hjk ▸ h.passed j hj)
        resent := fun k j hj => by
          rw [hsent, List.getElem?_append] at hj
          split_ifs at hj with hk
          · obtain ⟨first, hbegun, hearly⟩ := hback.resent k j hj
            exact ⟨first, hbegun.append hsent, hearly⟩
          · obtain ⟨hk', rfl⟩ := List.getElem?_eq_some_iff.1 hj
            have hpos : k = s.sent.length := by
              rw [List.length_singleton] at hk'
              omega
            rw [List.getElem_singleton]
            rcases hfetch with ⟨hown, hdeadline⟩ | ⟨⟨first, hbegun⟩, hearly⟩
            · refine ⟨i, ⟨?_, rfl, rfl, rfl, hdeadline⟩, fun hne => absurd ?_ hne⟩
              · rw [hsent, hown, List.getElem?_concat_length]
              · rw [hown, hpos]
            · exact ⟨first, hbegun.append hsent, fun _ => hearly⟩
        retried := fun r hr => by
          obtain ⟨first, hbegun, hearly⟩ := hback.retried r (hrevalidations ▸ hr)
          exact ⟨first, hbegun.append hsent, hearly⟩ } }

/-- A step that sends nothing keeps the invariant if what it schedules belongs to a fetch. -/
theorem Inv.of_retried {s t : LsaFetcher} (h : s.Inv) (hsent : t.sent = s.sent)
    (hpassed : t.passed = s.passed) (hhighest : t.highestSeqNo = s.highestSeqNo)
    (hretried : ∀ r ∈ t.revalidations,
      ∃ first, s.Begun r.fetch r.lsaName r.seqNo r.deadline first ∧
        r.scheduledAt < r.deadline ∧ r.due < r.deadline) : t.Inv := by
  have hsent' : t.sent = s.sent ++ [] := by rw [hsent, List.append_nil]
  exact {
    keepsHighest := keepsHighest_congr hhighest hpassed h.keepsHighest
    passed := fun i hi => by
      rw [passedFor, hpassed]
      exact h.passed i (hsent ▸ hi)
    named := fun i hi => h.named i (hsent ▸ hi)
    neverGoesBack := {
      ordered := hsent ▸ h.neverGoesBack.ordered
      resent := fun k i hi => by
        obtain ⟨first, hbegun, hearly⟩ := h.neverGoesBack.resent k i (hsent ▸ hi)
        exact ⟨first, hbegun.append hsent', hearly⟩
      retried := fun r hr => by
        obtain ⟨first, hbegun, hearly⟩ := hretried r hr
        exact ⟨first, hbegun.append hsent', hearly⟩ } }

/-- Validating again keeps the invariant, if the Data belongs to a fetch. -/
theorem inv_onContentValidationFailed {s : LsaFetcher} (h : s.Inv) {deadline : TimePoint}
    {lsaName : Name} {seqNo : UInt64} {fetch : Nat} {first : LsaInterest}
    (hbegun : s.Begun fetch lsaName seqNo deadline first) :
    (s.onContentValidationFailed deadline lsaName seqNo fetch).Inv := by
  unfold onContentValidationFailed
  dsimp only
  split_ifs with hdue hhighest
  · have hearly : s.now < deadline := by
      have hlifetime := s.lsaInterestLifetime.inRange.1
      have hpos : 0 < seconds s.lsaInterestLifetime.seconds :=
        Int.mul_pos hlifetime (by decide)
      exact lt_trans (lt_add_of_pos_right s.now hpos) hdue
    refine h.of_retried rfl rfl rfl fun r hr => ?_
    rcases List.mem_append.1 hr with hr | hr
    · exact h.neverGoesBack.retried r hr
    · obtain rfl := List.mem_singleton.1 hr
      exact ⟨first, hbegun, hearly, hdue⟩
  · exact h
  · exact h

theorem sent_onContentValidationFailed (s : LsaFetcher) (deadline : TimePoint) (lsaName : Name)
    (seqNo : UInt64) (fetch : Nat) :
    (s.onContentValidationFailed deadline lsaName seqNo fetch).sent = s.sent := by
  unfold onContentValidationFailed
  dsimp only
  split_ifs <;> rfl

theorem expresses_expressInterestForLsa {s : LsaFetcher} (h : s.Inv) (lsaName : Name)
    (seqNo : UInt64) :
    Expresses s (s.expressInterestForLsa lsaName seqNo)
      (s.interestFor lsaName seqNo 0 none s.sent.length) :=
  expresses_expressInterest h.keepsHighest lsaName seqNo 0 none s.sent.length

/-- A timed out Interest is expressed again before the deadline, or nothing happens. -/
theorem processInterestTimedOut_cases {s : LsaFetcher} (h : s.Inv) {i : LsaInterest}
    (hi : i ∈ s.sent) :
    s.processInterestTimedOut i = s ∨
      s.now < i.deadline ∧
        Expresses s (s.processInterestTimedOut i) (s.interestFor i.lsaName i.seqNo
          (i.timeoutCount + 1) (some i.deadline) i.fetch) := by
  unfold processInterestTimedOut
  split_ifs with hearly hhighest
  · rw [h.named i hi]
    exact Or.inr ⟨hearly, expresses_expressInterest h.keepsHighest ..⟩
  · exact Or.inl rfl
  · exact Or.inl rfl

/-- **One step keeps the invariant.** -/
theorem inv_step {s : LsaFetcher} (h : s.Inv) (e : FetchEvent) : (s.step e).Inv := by
  have hback := h.neverGoesBack
  cases e with
  | advance d => exact h.of_retried rfl rfl rfl hback.retried
  | syncUpdate lsaName seqNo =>
    exact h.expresses (expresses_expressInterestForLsa h lsaName seqNo) rfl (Or.inl ⟨rfl, rfl⟩)
  | timeout interest =>
    unfold step
    dsimp only
    cases hi : s.sent[interest]? with
    | none => exact h
    | some i =>
      rcases processInterestTimedOut_cases h (List.mem_of_getElem? hi) with hsame | ⟨hearly, ht⟩
      · dsimp only
        rwa [hsame]
      · obtain ⟨first, hbegun, -⟩ := hback.resent interest i hi
        exact h.expresses ht rfl (Or.inr ⟨⟨first, hbegun⟩, hearly⟩)
  | validationFails interest =>
    unfold step
    dsimp only
    cases hi : s.sent[interest]? with
    | none => exact h
    | some i =>
      obtain ⟨first, hbegun, -⟩ := hback.resent interest i hi
      exact inv_onContentValidationFailed h hbegun
  | revalidationFails revalidation =>
    unfold step
    dsimp only
    cases hr : s.revalidations[revalidation]? with
    | none => exact h
    | some r =>
      obtain ⟨first, hbegun, -⟩ := hback.retried r (List.mem_of_getElem? hr)
      exact inv_onContentValidationFailed h hbegun

/-! ## What a step sends -/

theorem Expresses.sendsLargest {s t : LsaFetcher} {i : LsaInterest} (ht : Expresses s t i)
    (hname : i.name = i.lsaName ++ [Component.fromNumber i.seqNo]) : SendsLargest s t := by
  rcases ht.sent with ⟨-, hsent⟩ | ⟨hlargest, hsent⟩
  · exact Or.inl hsent
  · refine Or.inr ⟨i, hsent, hname, ?_⟩
    rw [ht.frame]
    exact isGreatest_pass hlargest

theorem sendsLargest_step {s : LsaFetcher} (h : s.Inv) (e : FetchEvent) :
    SendsLargest s (s.step e) := by
  cases e with
  | advance d => exact Or.inl rfl
  | syncUpdate lsaName seqNo =>
    exact (expresses_expressInterestForLsa h lsaName seqNo).sendsLargest rfl
  | timeout interest =>
    unfold step
    dsimp only
    cases hi : s.sent[interest]? with
    | none => exact Or.inl rfl
    | some i =>
      rcases processInterestTimedOut_cases h (List.mem_of_getElem? hi) with hsame | ⟨-, ht⟩
      · exact Or.inl (congrArg sent hsame)
      · exact ht.sendsLargest rfl
  | validationFails interest =>
    unfold step
    dsimp only
    cases s.sent[interest]? with
    | none => exact Or.inl rfl
    | some i => exact Or.inl (sent_onContentValidationFailed ..)
  | revalidationFails revalidation =>
    unfold step
    dsimp only
    cases s.revalidations[revalidation]? with
    | none => exact Or.inl rfl
    | some r => exact Or.inl (sent_onContentValidationFailed ..)

/-! ## The result -/

/-- **Fetching never goes back.** In every run: the numbers asked for by the Interests of one name
never decrease; no Interest is sent again and no validation tried again at or after the deadline
of its fetch; each step sends the largest number passed so far, if anything; and the first use of
a new largest number does send an Interest for it. -/
theorem fetching_never_goes_back (now : TimePoint) (lifetime : LsaInterestLifetime)
    (es : List FetchEvent) :
    let s := run step (start now lifetime) es
    s.NeverGoesBack ∧ (∀ e, SendsLargest s (s.step e)) ∧
      ∀ lsaName seqNo, (∀ q ∈ s.passedFor lsaName, q < seqNo) →
        ∃ i, (s.step (.syncUpdate lsaName seqNo)).sent = s.sent ++ [i] ∧
          i.lsaName = lsaName ∧ i.seqNo = seqNo := by
  intro s
  have hinv : s.Inv :=
    run_induction (P := Inv) (fun s e h => inv_step h e) (inv_start now lifetime) es
  refine ⟨hinv.neverGoesBack, fun e => sendsLargest_step hinv e, fun lsaName seqNo hnew => ?_⟩
  rcases (expresses_expressInterestForLsa hinv lsaName seqNo).sent with
    ⟨⟨q, hq, hlt⟩, -⟩ | ⟨-, hsent⟩
  · exact absurd hlt (UInt64.lt_asymm (hnew q hq))
  · exact ⟨_, hsent, rfl, rfl⟩

end LsaFetcher

end LinkState
