import LinkState.Sync.History

/-!
# What the application is told

The application fetches what it is told is missing, so it must be told of every number and of
none twice, in whatever order Data comes in and however often it is repeated.

A step tells it of a prefix at most once, with the numbers from just above the old one to the new
one (`reports_turn`). So over a whole run every number up to the current one is in exactly one
report (`exactly_once`), as long as the prefix is not removed, and is published by others alone
and in one session.
-/

namespace LinkState.Sync.SyncLogic

variable {H : HashFunction} (pb : Protobuf)

/-- What a run puts out. -/
def outputs (s : SyncLogic H) : List Event → List Output
  | [] => []
  | e :: es => (s.turn pb e).2 ++ outputs (s.step pb e) es

theorem outputs_concat (s : SyncLogic H) (es : List Event) (e : Event) :
    s.outputs pb (es ++ [e]) =
      s.outputs pb es ++ ((run (step pb) s es).turn pb e).2 := by
  induction es generalizing s with
  | nil => simp [outputs]
  | cons e' es ih => simp [outputs, ih]

/-- What is reported of a prefix. -/
def reportsOf (namePrefix : String) (out : List Output) : List MissingDataInfo :=
  (reported out).filter fun mdi => mdi.namePrefix = namePrefix

@[simp] theorem reportsOf_append (namePrefix : String) (out out' : List Output) :
    reportsOf namePrefix (out ++ out') = reportsOf namePrefix out ++ reportsOf namePrefix out' := by
  simp [reportsOf]

theorem reportsOf_of_reported_eq_nil {out : List Output} (h : reported out = [])
    (namePrefix : String) : reportsOf namePrefix out = [] := by
  simp [reportsOf, h]

/-! ## One step -/

theorem namePrefix_reportOf (before : WithBot SeqNo) (leaf : DiffLeaf) :
    ∀ mdi ∈ reportOf before leaf, mdi.namePrefix = leaf.info ∧ leaf.info ≠ forwarderPrefix := by
  intro mdi hmdi
  unfold reportOf at hmdi
  cases h : leaf.operation <;> simp only [h] at hmdi
  · split_ifs at hmdi with hlt
    · obtain rfl := List.mem_singleton.1 hmdi
      exact ⟨rfl, hlt.2⟩
    · simp at hmdi
  · simp at hmdi

/-- A merge reports a prefix that grows, from just above the old number to the new one. -/
theorem reportsOf_applyDiff (s : SyncLogic H) (hbranch : s.perBranch = false) (diff : DiffState)
    {namePrefix : String} (hfwd : namePrefix ≠ forwarderPrefix) :
    reportsOf namePrefix (s.applyDiff diff).2 =
      (diff.delta namePrefix).elim [] fun
        | .drop => []
        | .set seq =>
          if s.view namePrefix < seq then
            [⟨namePrefix, lowOf (s.view namePrefix) seq, seq⟩]
          else [] := by
  rw [reportsOf, reported_applyDiff, hbranch]
  simp only [Bool.false_eq_true, if_false]
  rw [SortedTable.filter_flatMap (fun leaf => reportOf (s.view leaf.info) leaf)
    MissingDataInfo.namePrefix
    (fun leaf mdi hmdi => (namePrefix_reportOf (s.view leaf.info) leaf mdi hmdi).1)]
  unfold DiffState.delta
  cases hfind : diff.leaves.find? namePrefix with
  | none => rfl
  | some leaf =>
    obtain rfl := SortedTable.key_of_find? hfind
    cases hop : leaf.operation <;> simp [reportOf, hop, Operation.change, hfwd]

/-- Others alone change the prefix, and they do not remove it. -/
def Foreign (namePrefix : String) : Event → Prop
  | .addLocalNames name _ _ => name ≠ namePrefix
  | .remove name => name ≠ namePrefix
  | .syncData _ content => ∀ msg, pb.parse content = some msg →
      (decode msg).delta namePrefix ≠ some .drop
  | _ => True

/-- What a step does to a prefix and reports of it. -/
def Reports (namePrefix : String) (s : SyncLogic H) (e : Event) : Prop :=
  ((s.step pb e).view namePrefix = s.view namePrefix ∧
    reportsOf namePrefix (s.turn pb e).2 = []) ∨
  ∃ name content msg, ∃ seq : SeqNo, e = .syncData name content ∧ pb.parse content = some msg ∧
    (decode msg).delta namePrefix = some (.set seq) ∧
    s.view namePrefix < seq ∧ (s.step pb e).view namePrefix = seq ∧
    reportsOf namePrefix (s.turn pb e).2 = [⟨namePrefix, lowOf (s.view namePrefix) seq, seq⟩]

/-- **A prefix is reported exactly if its number grows.** -/
theorem reports_turn {s : SyncLogic H} (hbranch : s.perBranch = false) {namePrefix : String}
    (hfwd : namePrefix ≠ forwarderPrefix) {e : Event} (h : Foreign pb namePrefix e) :
    Reports pb namePrefix s e := by
  rcases turn_cases pb s e with ⟨hquiet, hout⟩ | ⟨name, session, seq, rfl⟩ | ⟨name, rfl⟩ |
    ⟨name, content, msg, rfl, hmsg, hmerges⟩
  · exact Or.inl ⟨congrFun hquiet.view namePrefix, reportsOf_of_reported_eq_nil hout _⟩
  · refine Or.inl ⟨?_, reportsOf_of_reported_eq_nil (reported_addLocalNames ..) _⟩
    show (s.addLocalNames pb name session seq).1.view namePrefix = _
    rw [view_addLocalNames, Function.update_of_ne (Ne.symm h)]
  · refine Or.inl ⟨?_, reportsOf_of_reported_eq_nil (reported_remove ..) _⟩
    show (s.remove pb name).1.view namePrefix = _
    rw [view_remove, Function.update_of_ne hfwd, Function.update_of_ne (Ne.symm h)]
  · have hview := congrFun hmerges.view namePrefix
    have hreports := reportsOf_applyDiff s hbranch (decode msg) hfwd
    rw [← hmerges.out] at hreports
    have hdrop := h msg hmsg
    cases hdelta : (decode msg).delta namePrefix with
    | none =>
      rw [Delta.merge_of_none _ hdelta] at hview
      rw [hdelta] at hreports
      exact Or.inl ⟨hview, hreports⟩
    | some c =>
      cases c with
      | drop => exact absurd hdelta hdrop
      | set seq =>
        rw [Delta.merge_of_set _ hdelta] at hview
        rw [hdelta] at hreports
        change _ = if s.view namePrefix < seq then _ else _ at hreports
        split_ifs at hreports with hlt
        · rw [sup_of_le_right hlt.le] at hview
          exact Or.inr ⟨name, content, msg, seq, rfl, hmsg, hdelta, hlt, hview, hreports⟩
        · rw [sup_of_le_left (not_lt.1 hlt)] at hview
          exact Or.inl ⟨hview, hreports⟩

/-! ## Runs -/

/-- The number is in what a report says is missing. -/
def Covers (mdi : MissingDataInfo) (seq : UInt64) : Prop := mdi.low.seq ≤ seq ∧ seq ≤ mdi.high.seq

instance (mdi : MissingDataInfo) (seq : UInt64) : Decidable (Covers mdi seq) :=
  inferInstanceAs (Decidable (_ ∧ _))

/-- A prefix has got so far in a session that this number is known. -/
def Reached (m : WithBot SeqNo) (session seq : UInt64) : Prop := (⟨session, seq⟩ : SeqNo) ≤ m

instance (m : WithBot SeqNo) (session seq : UInt64) : Decidable (Reached m session seq) :=
  inferInstanceAs (Decidable (_ ≤ _))

/-- What is received of a prefix is of one session. -/
def InSession (namePrefix : String) (session : UInt64) : Event → Prop
  | .syncData _ content => ∀ msg seq, pb.parse content = some msg →
      (decode msg).delta namePrefix = some (.set seq) → seq.session = session
  | _ => True

theorem reached_coe {old : SeqNo} {session : UInt64} (h : old.session = session) (seq : UInt64) :
    Reached old session seq ↔ seq.toNat ≤ old.seq.toNat :=
  WithBot.coe_le_coe.trans (SeqNo.le_iff_of_session_eq h.symm)

theorem not_reached_bot (session seq : UInt64) : ¬ Reached ⊥ session seq :=
  WithBot.not_coe_le_bot _

/-- **A report takes up where the earlier ones ended.** -/
theorem reached_or_covers {m : WithBot SeqNo} {session : UInt64} {new : SeqNo}
    (hold : ∀ old : SeqNo, m = old → old.session = session) (hnew : new.session = session)
    (hlt : m < new) (namePrefix : String) (seq : UInt64) :
    (Reached new session seq ↔
        Reached m session seq ∨ Covers ⟨namePrefix, lowOf m new, new⟩ seq) ∧
      ¬ (Reached m session seq ∧ Covers ⟨namePrefix, lowOf m new, new⟩ seq) := by
  rw [reached_coe hnew]
  unfold Covers
  rw [UInt64.le_iff_toNat_le, UInt64.le_iff_toNat_le]
  cases hm : m with
  | bot =>
    have hlow : (lowOf ⊥ new).seq.toNat = 0 := rfl
    simp [not_reached_bot, hlow]
  | coe old =>
    have hsession := hold old hm
    rw [hm, WithBot.coe_lt_coe, SeqNo.lt_iff_of_session_eq (hsession.trans hnew.symm)] at hlt
    -- There is a greater number, so the next one is no overflow
    have hlow : (lowOf old new).seq.toNat = old.seq.toNat + 1 := by
      show (old.seq + 1).toNat = _
      have := new.seq.toNat_lt
      rw [UInt64.toNat_add, UInt64.toNat_one, Nat.mod_eq_of_lt (by omega)]
    rw [reached_coe hsession, hlow]
    dsimp only
    omega

/-- What has been reported of a prefix, given what is known of it. -/
structure Told (namePrefix : String) (session : UInt64) (s : SyncLogic H) (out : List Output) :
    Prop where
  session_eq : ∀ old : SeqNo, s.view namePrefix = old → old.session = session
  once : ∀ seq, (reportsOf namePrefix out).countP (fun mdi => Covers mdi seq) =
    if Reached (s.view namePrefix) session seq then 1 else 0

theorem Told.step {namePrefix : String} {session : UInt64} {s : SyncLogic H} {out : List Output}
    (h : Told namePrefix session s out) {e : Event} (hstep : Reports pb namePrefix s e)
    (hsession : InSession pb namePrefix session e) :
    Told namePrefix session (s.step pb e) (out ++ (s.turn pb e).2) := by
  rcases hstep with ⟨hview, hout⟩ | ⟨name, content, msg, new, rfl, hmsg, hdelta, hlt, hview, hout⟩
  · constructor
    · rw [hview]
      exact h.session_eq
    · intro seq
      rw [reportsOf_append, hout, List.append_nil, hview]
      exact h.once seq
  · have hnew : new.session = session := hsession msg new hmsg hdelta
    constructor
    · intro v hv
      rw [hview] at hv
      rw [← WithBot.coe_injective hv]
      exact hnew
    · intro seq
      obtain ⟨hiff, hnot⟩ := reached_or_covers h.session_eq hnew hlt namePrefix seq
      rw [reportsOf_append, hout, List.countP_append, h.once, List.countP_singleton, hview]
      simp only [hiff, decide_eq_true_eq]
      by_cases hold : Reached (s.view namePrefix) session seq
      · have hcovers : ¬ Covers ⟨namePrefix, lowOf (s.view namePrefix) new, new⟩ seq := by
          intro hc
          exact hnot ⟨hold, hc⟩
        simp [hold, hcovers]
      · simp [hold]

/-- **Every number is reported exactly once.** Of a prefix that others publish in one session and
nobody removes, each number up to the current one has been in exactly one report, and no other
number in any. -/
theorem exactly_once (es : List Event) {namePrefix : String} (session : UInt64)
    (hfwd : namePrefix ≠ forwarderPrefix) (hforeign : ∀ e ∈ es, Foreign pb namePrefix e)
    (hsession : ∀ e ∈ es, InSession pb namePrefix session e) (seq : UInt64) :
    (reportsOf namePrefix ((init H false).outputs pb es)).countP (fun mdi => Covers mdi seq) =
      if Reached ((after pb false H es).view namePrefix) session seq then 1 else 0 := by
  have htold : Told namePrefix session (after pb false H es) ((init H false).outputs pb es) := by
    induction es using List.reverseRecOn with
    | nil => exact ⟨fun old h => absurd h WithBot.bot_ne_coe, fun seq => rfl⟩
    | append_singleton es e ih =>
      have hold := ih (fun e' h => hforeign e' (List.mem_append_left _ h))
        (fun e' h => hsession e' (List.mem_append_left _ h))
      rw [outputs_concat, after_concat]
      refine hold.step pb (reports_turn pb (perBranch_after pb false es) hfwd ?_) ?_
      · exact hforeign e (by simp)
      · exact hsession e (by simp)
  exact htold.once seq

/-- Data that is received twice is reported once. -/
theorem exactly_once_repeated :
    let data := Event.syncData (normalName zeroDigest)
      (wire.serialize [⟨"/ndn/router", .update, some ⟨0, 2⟩⟩])
    (reportsOf "/ndn/router" ((init checksum false).outputs wire [data, data])).countP
        (fun mdi => Covers mdi 1) =
      if Reached ((after wire false checksum [data, data]).view "/ndn/router") 0 1 then 1
      else 0 := by
  refine exactly_once wire [_, _] 0 (by decide) ?_ ?_ 1
  · intro e he
    obtain rfl : e = .syncData _ _ := by simpa using he
    intro msg hmsg
    rw [wire.parse_serialize] at hmsg
    cases hmsg
    decide
  · intro e he
    obtain rfl : e = .syncData _ _ := by simpa using he
    intro msg seq hmsg hdelta
    rw [wire.parse_serialize] at hmsg
    cases hmsg
    cases hdelta
    rfl

end LinkState.Sync.SyncLogic
