import LinkState.Sync.Logic

/-!
# What a step of a party does

Each operation is described by what it does to the state, seen as a map, and to the log, and by
what it sends. Most operations touch neither state nor log. `turn_cases` puts them together: a
step leaves state and log as they are (`Quiet`), or it is a local update, a local removal, or
the merge of a difference that was received.

`Recorded` is what the three have in common: one difference is inserted in the log with the
digest of the new state, and it is carried out on the state.
-/

namespace LinkState.Sync

variable {H : HashFunction}

namespace SyncLogic

/-- The sequence numbers a party has. -/
def view (s : SyncLogic H) : String → WithBot SeqNo := s.state.view

/-- State and log are as before. -/
structure Quiet (s t : SyncLogic H) : Prop where
  view : t.view = s.view
  log : t.log = s.log
  perBranch : t.perBranch = s.perBranch

theorem Quiet.refl (s : SyncLogic H) : Quiet s s := ⟨rfl, rfl, rfl⟩

theorem Quiet.trans {s t u : SyncLogic H} (h : Quiet s t) (h' : Quiet t u) : Quiet s u :=
  ⟨h'.view.trans h.view, h'.log.trans h.log, h'.perBranch.trans h.perBranch⟩

theorem Quiet.rootDigest {s t : SyncLogic H} (h : Quiet s t) :
    t.state.rootDigest = s.state.rootDigest :=
  FullState.rootDigest_congr h.view

variable (pb : Protobuf) (s : SyncLogic H)

/-! ## What is sent -/

theorem quiet_reexpressInterest : Quiet s s.reexpressInterest := ⟨rfl, rfl, rfl⟩

theorem quiet_sendSyncInterest : Quiet s s.sendSyncInterest.1 :=
  ⟨FullState.view_getDigest s.state, rfl, rfl⟩

/-- A sync Interest has the digest of the state. -/
theorem sendSyncInterest_snd :
    s.sendSyncInterest.2 = [.interest (normalName s.state.rootDigest)] := by
  show [Output.interest (normalName s.state.getDigest.1)] = _
  rw [FullState.getDigest_fst]

theorem quiet_sendSyncRecoveryInterests (digest : Digest) :
    Quiet s (s.sendSyncRecoveryInterests digest).1 := by
  unfold sendSyncRecoveryInterests
  dsimp only
  split_ifs <;> exact ⟨rfl, rfl, rfl⟩

theorem sendSyncRecoveryInterests_snd (digest : Digest) :
    (s.sendSyncRecoveryInterests digest).2 = [.interest (recoveryName digest)] := by
  unfold sendSyncRecoveryInterests
  dsimp only
  split_ifs <;> rfl

/-- What Data does to its sender: nothing, or it expresses a new Interest. -/
theorem sendSyncData_fst (name : SyncName) (msg : SyncStateMsg) :
    (s.sendSyncData pb name msg).1 =
      if s.outstandingInterestName = some name then s.reexpressInterest else s := by
  unfold sendSyncData
  dsimp only
  split_ifs <;> rfl

@[simp] theorem sendSyncData_snd (name : SyncName) (msg : SyncStateMsg) :
    (s.sendSyncData pb name msg).2 = [.data name (pb.serialize msg)] := by
  unfold sendSyncData
  dsimp only
  split_ifs <;> rfl

theorem quiet_sendSyncData (name : SyncName) (msg : SyncStateMsg) :
    Quiet s (s.sendSyncData pb name msg).1 := by
  rw [sendSyncData_fst]
  split_ifs
  · exact quiet_reexpressInterest s
  · exact Quiet.refl s

/-- What Data does to its sender, it keeps if a new Interest keeps it. -/
theorem sendSyncData_keeps {P : SyncLogic H → Prop} (h : P s)
    (hreexpress : ∀ t, P t → P t.reexpressInterest) (name : SyncName) (msg : SyncStateMsg) :
    P (s.sendSyncData pb name msg).1 := by
  rw [sendSyncData_fst]
  split_ifs
  · exact hreexpress s h
  · exact h

theorem answerAll_keeps {P : SyncLogic H → Prop} (hreexpress : ∀ t, P t → P t.reexpressInterest)
    (full diffLog : DiffState) (l : List PendingInterest) {s : SyncLogic H} (h : P s) :
    P (s.answerAll pb full diffLog l).1 := by
  induction l generalizing s with
  | nil => exact h
  | cons i l ih => exact ih (sendSyncData_keeps pb s h hreexpress _ _)

/-- Every Interest gets its answer. -/
theorem answerAll_snd (full diffLog : DiffState) (l : List PendingInterest) (s : SyncLogic H) :
    (s.answerAll pb full diffLog l).2 = l.map fun i =>
      .data i.name (pb.serialize (if i.unknown then full else diffLog).encode) := by
  induction l generalizing s with
  | nil => rfl
  | cons i l ih =>
    rw [answerAll]
    dsimp only
    rw [ih, sendSyncData_snd]
    rfl

theorem quiet_satisfyPendingSyncInterests (diffLog : DiffState) :
    Quiet s (s.satisfyPendingSyncInterests pb diffLog).1 := by
  refine answerAll_keeps pb (P := fun t => Quiet s t) ?_ _ _ _ ⟨rfl, rfl, rfl⟩
  exact fun t ht => ht.trans (quiet_reexpressInterest t)

/-! ## Interests -/

theorem quiet_delayInterest (name : SyncName) (digest : Digest) (now : Int) :
    Quiet s (s.delayInterest name digest now) := ⟨rfl, rfl, rfl⟩

/-- The state after its digest was asked for. -/
def digested (s : SyncLogic H) : SyncLogic H := { s with state := s.state.getDigest.2 }

theorem quiet_digested : Quiet s s.digested := ⟨FullState.view_getDigest s.state, rfl, rfl⟩

/-- A digest that is neither that of the state nor in the log, nor zero, although it can be looked
for. -/
structure Unknown (s : SyncLogic H) (digest : Digest) : Prop where
  ne_rootDigest : s.state.rootDigest ≠ digest
  hasHash : digest.hasHash
  find?_eq_none : s.log.find? digest = none
  not_isZero : ¬ digest.isZero

/-- What an Interest leads to, by its digest. -/
theorem processSyncInterest_cases (name : SyncName) (digest : Digest) (timed : Bool) (now : Int) :
    let r := s.processSyncInterest pb name digest timed now
    (digest.isZero ∧ s.view ≠ ⊥ ∧ r = s.digested.sendSyncData pb name s.digested.state.encode) ∨
    (s.state.rootDigest = digest ∧ r = ({ s.digested with
      syncInterestTable :=
        (SyncInterestTable.insert s.syncInterestTable digest name false now).1 }, [])) ∨
    (¬ digest.hasHash ∧ r = (s.digested, [])) ∨
    (s.state.rootDigest ≠ digest ∧ ∃ i, s.log.find? digest = some i ∧
      r = s.digested.sendSyncData pb name (s.log.diff i).encode) ∨
    (Unknown s digest ∧ timed = true ∧
      r = sendSyncRecoveryInterests { s.digested with
        recoveryRetransmissionInterval := defaultRecoveryRetransmitInterval } digest) ∨
    (Unknown s digest ∧ timed = false ∧
      r = (s.digested.delayInterest name digest now, [])) := by
  dsimp only
  have hzero : s.state.rootDigest.isZero ↔ s.view = ⊥ := FullState.isZero_rootDigest
  unfold processSyncInterest
  dsimp only
  rw [FullState.getDigest_fst]
  by_cases h : digest.isZero ∧ ¬ s.state.rootDigest.isZero
  · rw [if_pos h]
    exact Or.inl ⟨h.1, fun hbot => h.2 (hzero.2 hbot), rfl⟩
  · rw [if_neg h]
    by_cases hroot : s.state.rootDigest = digest
    · rw [if_pos hroot]
      exact Or.inr (Or.inl ⟨hroot, rfl⟩)
    · rw [if_neg hroot]
      right; right
      by_cases hhash : ¬ digest.hasHash
      · rw [if_pos hhash]
        exact Or.inl ⟨hhash, rfl⟩
      rw [if_neg hhash]
      right
      cases hfind : s.log.find? digest with
      | some i => exact Or.inl ⟨hroot, i, rfl, rfl⟩
      | none =>
        have hunknown : Unknown s digest := by
          refine ⟨hroot, not_not.1 hhash, hfind, fun hd => hroot ?_⟩
          have hs : s.state.rootDigest.isZero := by
            by_contra hs
            exact h ⟨hd, hs⟩
          rw [Digest.isZero_iff.1 hd, Digest.isZero_iff.1 hs]
        right
        cases timed with
        | true => exact Or.inl ⟨hunknown, rfl, rfl⟩
        | false => exact Or.inr ⟨hunknown, rfl, rfl⟩

/-- The digest zero asks for everything there is. -/
theorem processSyncInterest_of_isZero {digest : Digest} (hzero : digest.isZero) (hne : s.view ≠ ⊥)
    (name : SyncName) (timed : Bool) (now : Int) :
    s.processSyncInterest pb name digest timed now =
      s.digested.sendSyncData pb name s.digested.state.encode := by
  have hroot : ¬ s.state.rootDigest.isZero := fun h => hne (FullState.isZero_rootDigest.1 h)
  unfold processSyncInterest
  dsimp only
  rw [FullState.getDigest_fst, if_pos ⟨hzero, hroot⟩]
  rfl

/-- What becomes of an Interest with a digest that is not known. -/
theorem processSyncInterest_of_unknown {digest : Digest} (h : Unknown s digest) (name : SyncName)
    (timed : Bool) (now : Int) :
    s.processSyncInterest pb name digest timed now =
      if timed then sendSyncRecoveryInterests { s.digested with
        recoveryRetransmissionInterval := defaultRecoveryRetransmitInterval } digest
      else (s.digested.delayInterest name digest now, []) := by
  rcases processSyncInterest_cases pb s name digest timed now with
    ⟨hzero, -, -⟩ | ⟨hroot, -⟩ | ⟨hhash, -⟩ | ⟨-, i, hfind, -⟩ | ⟨-, rfl, hr⟩ | ⟨-, rfl, hr⟩
  · exact absurd hzero h.not_isZero
  · exact absurd hroot h.ne_rootDigest
  · exact absurd h.hasHash hhash
  · rw [h.find?_eq_none] at hfind
    cases hfind
  · exact hr
  · exact hr

theorem Unknown.quiet {s t : SyncLogic H} {digest : Digest} (h : Unknown s digest)
    (hquiet : Quiet s t) : Unknown t digest where
  ne_rootDigest := by rw [hquiet.rootDigest]; exact h.ne_rootDigest
  hasHash := h.hasHash
  find?_eq_none := by rw [hquiet.log]; exact h.find?_eq_none
  not_isZero := h.not_isZero

theorem quiet_processSyncInterest (name : SyncName) (digest : Digest) (timed : Bool) (now : Int) :
    Quiet s (s.processSyncInterest pb name digest timed now).1 := by
  have hdigested := quiet_digested s
  rcases processSyncInterest_cases pb s name digest timed now with
    ⟨-, -, h⟩ | ⟨-, h⟩ | ⟨-, h⟩ | ⟨-, i, -, h⟩ | ⟨-, -, h⟩ | ⟨-, -, h⟩ <;> rw [h]
  · exact hdigested.trans (quiet_sendSyncData pb _ _ _)
  · exact ⟨hdigested.view, rfl, rfl⟩
  · exact hdigested
  · exact hdigested.trans (quiet_sendSyncData pb _ _ _)
  · have hinterval : Quiet s { s.digested with
        recoveryRetransmissionInterval := defaultRecoveryRetransmitInterval } :=
      ⟨hdigested.view, rfl, rfl⟩
    exact hinterval.trans (quiet_sendSyncRecoveryInterests _ _)
  · exact hdigested.trans (quiet_delayInterest _ _ _ _)

/-- An Interest for the whole state is answered or not. -/
theorem processSyncRecoveryInterest_cases (name : SyncName) (digest : Digest) :
    s.processSyncRecoveryInterest pb name digest = (s, []) ∨
      s.processSyncRecoveryInterest pb name digest = s.sendSyncData pb name s.state.encode := by
  unfold processSyncRecoveryInterest
  by_cases hhash : ¬ digest.hasHash
  · rw [if_pos hhash]
    exact Or.inl rfl
  · rw [if_neg hhash]
    cases s.log.find? digest with
    | none => exact Or.inl rfl
    | some i => exact Or.inr rfl

theorem quiet_processSyncRecoveryInterest (name : SyncName) (digest : Digest) :
    Quiet s (s.processSyncRecoveryInterest pb name digest).1 := by
  rcases processSyncRecoveryInterest_cases pb s name digest with h | h <;> rw [h]
  · exact Quiet.refl s
  · exact quiet_sendSyncData pb s _ _

theorem quiet_onSyncInterest (name : SyncName) (now : Int) :
    Quiet s (s.onSyncInterest pb name now).1 := by
  unfold onSyncInterest
  cases convertNameToDigestAndType name with
  | none => exact Quiet.refl s
  | some r =>
    dsimp only
    split_ifs
    · exact quiet_processSyncInterest pb s _ _ _ _
    · exact quiet_processSyncRecoveryInterest pb s _ _
    · exact Quiet.refl s

/-! ## Changes of the state -/

/-- A difference was inserted in the log with the digest of the new state, and was carried out on
the state. -/
structure Recorded (diff : DiffState) (s t : SyncLogic H) : Prop where
  log : t.log = s.log.insert t.state.rootDigest diff
  view : Delta.CarriedOut diff.delta s.view t.view
  perBranch : t.perBranch = s.perBranch

theorem log_insertToDiffLog (diffLog : DiffState) :
    (s.insertToDiffLog diffLog).log = s.log.insert s.state.rootDigest diffLog := by
  show s.log.insert s.state.getDigest.1 diffLog = _
  rw [FullState.getDigest_fst]

@[simp] theorem view_insertToDiffLog (diffLog : DiffState) :
    (s.insertToDiffLog diffLog).view = s.view :=
  FullState.view_getDigest s.state

@[simp] theorem rootDigest_insertToDiffLog (diffLog : DiffState) :
    (s.insertToDiffLog diffLog).state.rootDigest = s.state.rootDigest :=
  FullState.rootDigest_getDigest s.state

theorem Recorded.quiet {diff : DiffState} {s t u : SyncLogic H} (h : Recorded diff s t)
    (h' : Quiet t u) : Recorded diff s u where
  log := by rw [h'.log, h'.rootDigest]; exact h.log
  view := by rw [h'.view]; exact h.view
  perBranch := h'.perBranch.trans h.perBranch

/-- Inserting a difference after the state was changed accordingly. -/
theorem recorded_insertToDiffLog {diff : DiffState} {s : SyncLogic H} {state : FullState H}
    (hview : Delta.CarriedOut diff.delta s.view state.view) :
    Recorded diff s (insertToDiffLog { s with state := state } diff) where
  log := by rw [log_insertToDiffLog, rootDigest_insertToDiffLog]
  view := by rw [view_insertToDiffLog]; exact hview
  perBranch := rfl

/-- The greater of two numbers is one of them. -/
theorem sup_eq_coe {m : WithBot SeqNo} {seq v : SeqNo} (h : m ⊔ (seq : WithBot SeqNo) = v) :
    m = v ∨ seq = v := by
  rcases le_total m seq with hle | hle
  · rw [sup_of_le_right hle] at h
    exact Or.inr (WithBot.coe_injective h)
  · rw [sup_of_le_left hle] at h
    exact Or.inl h

/-- A local change: the state is replaced, the difference is recorded and sent. -/
theorem view_publish (state : FullState H) (diff : DiffState) :
    ((insertToDiffLog { s with state := state } diff).satisfyPendingSyncInterests pb diff).1.view =
      state.view :=
  (quiet_satisfyPendingSyncInterests pb _ _).view.trans
    (view_insertToDiffLog { s with state := state } diff)

theorem recorded_publish {state : FullState H} {diff : DiffState}
    (h : Delta.CarriedOut diff.delta s.view state.view) :
    Recorded diff s
      ((insertToDiffLog { s with state := state } diff).satisfyPendingSyncInterests pb diff).1 := by
  have hinsert : Recorded diff s (insertToDiffLog { s with state := state } diff) :=
    recorded_insertToDiffLog h
  exact hinsert.quiet (quiet_satisfyPendingSyncInterests pb _ _)

theorem view_addLocalNames (namePrefix : String) (session seq : UInt64) :
    (s.addLocalNames pb namePrefix session seq).1.view =
      Function.update s.view namePrefix (s.view namePrefix ⊔ (⟨session, seq⟩ : SeqNo)) :=
  (view_publish pb s _ _).trans (FullState.view_update s.state namePrefix ⟨session, seq⟩)

theorem recorded_addLocalNames (namePrefix : String) (session seq : UInt64) :
    Recorded (DiffState.init.update namePrefix ⟨session, seq⟩) s
      (s.addLocalNames pb namePrefix session seq).1 := by
  refine recorded_publish pb s ⟨fun info hle => ?_, fun info v hv => ?_⟩
  · rw [FullState.view_update]
    rw [DiffState.delta_update, DiffState.delta_init] at hle ⊢
    unfold Delta.patch
    by_cases h : info = namePrefix
    · subst h
      rw [Function.update_self, Function.update_self]
      exact sup_of_le_right (hle _ (Function.update_self ..))
    · rw [Function.update_of_ne h, Function.update_of_ne h]
      rfl
  · rw [FullState.view_update] at hv
    rw [DiffState.delta_update]
    by_cases h : info = namePrefix
    · subst h
      rw [Function.update_self] at hv ⊢
      exact (sup_eq_coe hv).imp_right fun h => by rw [h]
    · rw [Function.update_of_ne h] at hv
      exact Or.inl hv

/-- What a removal leaves: the prefix is gone and the forwarder has a new number. -/
theorem view_remove (namePrefix : String) :
    (s.remove pb namePrefix).1.view =
      Function.update (Function.update s.view namePrefix ⊥) forwarderPrefix
        (Function.update s.view namePrefix ⊥ forwarderPrefix ⊔
          forwarderSeq (s.state.remove namePrefix).1) := by
  refine (view_publish pb s _ _).trans ?_
  rw [FullState.view_update, FullState.view_remove]
  rfl

theorem recorded_remove (namePrefix : String) :
    Recorded ((DiffState.init.remove namePrefix).update forwarderPrefix
      (forwarderSeq (s.state.remove namePrefix).1)) s (s.remove pb namePrefix).1 := by
  refine recorded_publish pb s ⟨fun info hle => ?_, fun info v hv => ?_⟩
  · rw [FullState.view_update, FullState.view_remove]
    rw [DiffState.delta_update, DiffState.delta_remove, DiffState.delta_init] at hle ⊢
    unfold Delta.patch
    by_cases hfwd : info = forwarderPrefix
    · subst hfwd
      rw [Function.update_self, Function.update_self]
      by_cases hp : forwarderPrefix = namePrefix
      · -- The forwarder itself was removed and starts anew
        subst hp
        rw [Function.update_self]
        exact bot_sup_eq _
      · rw [Function.update_of_ne hp]
        exact sup_of_le_right (hle _ (Function.update_self ..))
    · rw [Function.update_of_ne hfwd, Function.update_of_ne hfwd]
      by_cases hp : info = namePrefix
      · subst hp
        rw [Function.update_self, Function.update_self]
        rfl
      · rw [Function.update_of_ne hp, Function.update_of_ne hp]
        rfl
  · rw [FullState.view_update, FullState.view_remove] at hv
    rw [DiffState.delta_update, DiffState.delta_remove]
    have hgone : ∀ {info : String} {v : SeqNo},
        Function.update s.state.view namePrefix ⊥ info = v → s.view info = v := by
      intro info v hv
      by_cases hp : info = namePrefix
      · rw [hp, Function.update_self] at hv
        exact absurd hv WithBot.bot_ne_coe
      · rwa [Function.update_of_ne hp] at hv
    by_cases hfwd : info = forwarderPrefix
    · subst hfwd
      rw [Function.update_self] at hv ⊢
      exact (sup_eq_coe hv).imp hgone fun h => by rw [h]
    · rw [Function.update_of_ne hfwd] at hv
      exact Or.inl (hgone hv)

/-! ## Data -/

/-- What the loop over the leaves has at a prefix: the number, and what was recorded. -/
def Received.at (r : Received H) (info : String) : WithBot SeqNo × Option (Change SeqNo) :=
  (r.state.view info, r.diffLog.delta info)

/-- What a leaf does to that. -/
def settle (before : WithBot SeqNo × Option (Change SeqNo)) (leaf : DiffLeaf) :
    WithBot SeqNo × Option (Change SeqNo) :=
  match leaf.operation with
  | .update seq => if before.1 < seq then (↑seq, some (.set seq)) else before
  | .remove => if before.1 = ⊥ then before else (⊥, some .drop)

/-- The first number that is missing, given what there is. -/
def lowOf (before : WithBot SeqNo) (seq : SeqNo) : SeqNo :=
  before.recBotCoe ⟨seq.session, 0⟩ fun old => SeqNo.increment (some old)

/-- What the application has to be told of a leaf, given the number before. -/
def reportOf (before : WithBot SeqNo) (leaf : DiffLeaf) : List MissingDataInfo :=
  match leaf.operation with
  | .update seq =>
    if before < seq ∧ leaf.info ≠ forwarderPrefix then [⟨leaf.info, lowOf before seq, seq⟩] else []
  | .remove => []

/-- What it is told at once. -/
def toldOf (perBranch : Bool) (before : WithBot SeqNo) (leaf : DiffLeaf) : List Output :=
  match leaf.operation with
  | .update _ =>
    if perBranch then (reportOf before leaf).map fun mdi => .onUpdateBranch (branchName mdi) else []
  | .remove => if perBranch ∨ before = ⊥ then [] else [.onRemove leaf.info]

@[simp] theorem report_at (r : Received H) (perBranch : Bool) (mdi : MissingDataInfo)
    (info : String) : (r.report perBranch mdi).at info = r.at info := by
  unfold Received.report
  split_ifs <;> rfl

/-- An update that changes nothing. -/
theorem process_update_of_le {r : Received H} {leaf : DiffLeaf} {seq : SeqNo}
    (hop : leaf.operation = .update seq) (h : ¬ r.state.view leaf.info < seq)
    (perBranch : Bool) :
    r.process perBranch leaf = { r with state := (r.state.update leaf.info seq).1 } := by
  cases hview : r.state.view leaf.info with
  | bot => exact absurd (hview ▸ WithBot.bot_lt_coe seq) h
  | coe old =>
    rw [hview, WithBot.coe_lt_coe, not_lt] at h
    have hres := FullState.update_snd_of_le hview h
    unfold Received.process
    rw [hop]
    show (if (r.state.update leaf.info seq).2.1 || (r.state.update leaf.info seq).2.2.1 then _
      else _) = _
    rw [hres]
    rfl

/-- An update that changes the number. -/
theorem process_update_of_lt {r : Received H} {leaf : DiffLeaf} {seq : SeqNo}
    (hop : leaf.operation = .update seq) (h : r.state.view leaf.info < seq) (perBranch : Bool) :
    r.process perBranch leaf = Received.report
      { r with
        state := (r.state.update leaf.info seq).1
        diffLog := r.diffLog.update leaf.info seq }
      perBranch ⟨leaf.info, lowOf (r.state.view leaf.info) seq, seq⟩ := by
  unfold Received.process
  rw [hop]
  show (if (r.state.update leaf.info seq).2.1 || (r.state.update leaf.info seq).2.2.1 then
    Received.report _ perBranch ⟨_, firstMissing (r.state.update leaf.info seq).2.2.2 seq, _⟩
    else _) = _
  cases hview : r.state.view leaf.info with
  | bot => rw [FullState.update_snd_of_bot hview]; rfl
  | coe old =>
    rw [hview, WithBot.coe_lt_coe] at h
    rw [FullState.update_snd_of_lt hview h]
    rfl

/-- A removal of what is not there. -/
theorem process_remove_of_bot {r : Received H} {leaf : DiffLeaf} (hop : leaf.operation = .remove)
    (h : r.state.view leaf.info = ⊥) (perBranch : Bool) :
    r.process perBranch leaf = { r with state := (r.state.remove leaf.info).1 } := by
  have hres : (r.state.remove leaf.info).2 = false := by
    rw [← Bool.not_eq_true, FullState.remove_snd]
    exact not_not.2 h
  unfold Received.process
  rw [hop]
  show (if (r.state.remove leaf.info).2 then _ else _) = _
  rw [hres]
  rfl

theorem process_remove_of_ne_bot {r : Received H} {leaf : DiffLeaf}
    (hop : leaf.operation = .remove) (h : r.state.view leaf.info ≠ ⊥) (perBranch : Bool) :
    r.process perBranch leaf = { r with
      state := (r.state.remove leaf.info).1
      diffLog := r.diffLog.remove leaf.info
      told := if perBranch then r.told else r.told ++ [.onRemove leaf.info] } := by
  have hres : (r.state.remove leaf.info).2 = true := (FullState.remove_snd _ _).2 h
  unfold Received.process
  rw [hop]
  show (if (r.state.remove leaf.info).2 then _ else _) = _
  rw [hres]
  rfl

/-- **A leaf touches its prefix only.** -/
theorem process_at (r : Received H) (perBranch : Bool) (leaf : DiffLeaf) (info : String) :
    (r.process perBranch leaf).at info =
      if info = leaf.info then settle (r.at info) leaf else r.at info := by
  cases hop : leaf.operation with
  | update seq =>
    by_cases hlt : r.state.view leaf.info < seq
    · rw [process_update_of_lt hop hlt, report_at]
      unfold Received.at
      dsimp only
      rw [FullState.view_update, DiffState.delta_update]
      by_cases h : info = leaf.info
      · subst h
        rw [if_pos rfl, Function.update_self, Function.update_self, settle, hop]
        dsimp only
        rw [if_pos hlt, sup_of_le_right hlt.le]
      · rw [if_neg h, Function.update_of_ne h, Function.update_of_ne h]
    · rw [process_update_of_le hop hlt]
      unfold Received.at
      dsimp only
      rw [FullState.view_update, sup_of_le_left (not_lt.1 hlt), Function.update_eq_self]
      split_ifs with h
      · subst h
        rw [settle, hop]
        dsimp only
        rw [if_neg hlt]
      · rfl
  | remove =>
    by_cases hbot : r.state.view leaf.info = ⊥
    · rw [process_remove_of_bot hop hbot]
      unfold Received.at
      dsimp only
      rw [FullState.view_remove]
      split_ifs with h
      · subst h
        rw [Function.update_self, settle, hop]
        dsimp only
        rw [if_pos hbot, hbot]
      · rw [Function.update_of_ne h]
    · rw [process_remove_of_ne_bot hop hbot]
      unfold Received.at
      dsimp only
      rw [FullState.view_remove, DiffState.delta_remove]
      by_cases h : info = leaf.info
      · subst h
        rw [if_pos rfl, Function.update_self, Function.update_self, settle, hop]
        dsimp only
        rw [if_neg hbot]
      · rw [if_neg h, Function.update_of_ne h, Function.update_of_ne h]

/-- **What a leaf adds to the reports.** -/
theorem process_missing (r : Received H) (perBranch : Bool) (leaf : DiffLeaf) :
    (r.process perBranch leaf).missing =
      r.missing ++ if perBranch then [] else reportOf (r.state.view leaf.info) leaf := by
  cases hop : leaf.operation with
  | update seq =>
    by_cases hlt : r.state.view leaf.info < seq
    · rw [process_update_of_lt hop hlt, reportOf, hop]
      unfold Received.report
      dsimp only
      by_cases hfwd : leaf.info = forwarderPrefix
      · simp [hfwd]
      · cases perBranch <;> simp [hfwd, hlt]
    · rw [process_update_of_le hop hlt, reportOf, hop]
      simp [hlt]
  | remove =>
    rw [reportOf, hop]
    by_cases hbot : r.state.view leaf.info = ⊥
    · rw [process_remove_of_bot hop hbot]
      simp
    · rw [process_remove_of_ne_bot hop hbot]
      simp

theorem process_told (r : Received H) (perBranch : Bool) (leaf : DiffLeaf) :
    (r.process perBranch leaf).told =
      r.told ++ toldOf perBranch (r.state.view leaf.info) leaf := by
  cases hop : leaf.operation with
  | update seq =>
    rw [toldOf, reportOf, hop]
    by_cases hlt : r.state.view leaf.info < seq
    · rw [process_update_of_lt hop hlt]
      unfold Received.report
      dsimp only
      by_cases hfwd : leaf.info = forwarderPrefix
      · simp [hfwd]
      · cases perBranch <;> simp [hfwd, hlt]
    · rw [process_update_of_le hop hlt]
      simp [hlt]
  | remove =>
    rw [toldOf, hop]
    by_cases hbot : r.state.view leaf.info = ⊥
    · rw [process_remove_of_bot hop hbot]
      simp [hbot]
    · rw [process_remove_of_ne_bot hop hbot]
      cases perBranch <;> simp [hbot]

theorem receive_at (diff : DiffState) (info : String) :
    (s.receive diff).at info =
      (Delta.merge diff.delta s.view info, Delta.effective diff.delta s.view info) := by
  have hwalk := SortedTable.look_foldl (Received.process s.perBranch) Received.at
    (fun before leaf => settle before leaf)
    (fun r leaf info => process_at r s.perBranch leaf info) diff.leaves
    ⟨s.state, DiffState.init, [], []⟩ info
  refine hwalk.trans ?_
  show (diff.leaves.find? info).elim (s.view info, none) (settle (s.view info, none)) = _
  cases hfind : diff.leaves.find? info with
  | none =>
    have hdelta : diff.delta info = none := by rw [DiffState.delta, hfind]; rfl
    rw [Delta.merge_of_none _ hdelta, Delta.effective_of_none _ hdelta]
    rfl
  | some leaf =>
    have hdelta : diff.delta info = some leaf.operation.change := by
      rw [DiffState.delta, hfind]; rfl
    show settle (s.view info, none) leaf = _
    unfold settle
    cases hop : leaf.operation with
    | update seq =>
      rw [hop] at hdelta
      rw [Delta.merge_of_set _ hdelta, Delta.effective_of_set _ hdelta]
      dsimp only
      split_ifs with hlt
      · rw [sup_of_le_right hlt.le]
      · rw [sup_of_le_left (not_lt.1 hlt)]
    | remove =>
      rw [hop] at hdelta
      rw [Delta.merge_of_drop _ hdelta, Delta.effective_of_drop _ hdelta]
      dsimp only
      split_ifs with hbot
      · rw [hbot]
      · rfl

/-- **What is received is merged.** -/
theorem view_receive (diff : DiffState) :
    (s.receive diff).state.view = Delta.merge diff.delta s.view := by
  funext info
  exact congrArg Prod.fst (receive_at s diff info)

/-- What was changed is recorded. -/
theorem delta_receive (diff : DiffState) :
    (s.receive diff).diffLog.delta = Delta.effective diff.delta s.view := by
  funext info
  exact congrArg Prod.snd (receive_at s diff info)

/-- A step of the loop leaves the numbers of other prefixes alone. -/
theorem view_process_of_ne (r : Received H) (perBranch : Bool) (leaf : DiffLeaf) {info : String}
    (h : info ≠ leaf.info) :
    (r.process perBranch leaf).state.view info = r.state.view info := by
  have hat := process_at r perBranch leaf info
  rw [if_neg h] at hat
  exact congrArg Prod.fst hat

/-- **The reports depend on the numbers at the start.** -/
theorem missing_receive (diff : DiffState) :
    (s.receive diff).missing = diff.leaves.toList.flatMap fun leaf =>
      if s.perBranch then [] else reportOf (s.view leaf.info) leaf := by
  have hwalk := SortedTable.out_foldl (Received.process s.perBranch)
    (fun r : Received H => r.state.view) Received.missing
    (fun before leaf => if s.perBranch then [] else reportOf before leaf)
    (fun r leaf info h => view_process_of_ne r s.perBranch leaf h)
    (fun r leaf => process_missing r s.perBranch leaf) diff.leaves
    ⟨s.state, DiffState.init, [], []⟩
  exact hwalk

theorem told_receive (diff : DiffState) :
    (s.receive diff).told = diff.leaves.toList.flatMap fun leaf =>
      toldOf s.perBranch (s.view leaf.info) leaf := by
  have hwalk := SortedTable.out_foldl (Received.process s.perBranch)
    (fun r : Received H => r.state.view) Received.told (toldOf s.perBranch)
    (fun r leaf info h => view_process_of_ne r s.perBranch leaf h)
    (fun r leaf => process_told r s.perBranch leaf) diff.leaves
    ⟨s.state, DiffState.init, [], []⟩
  exact hwalk

theorem view_applyDiff (diff : DiffState) :
    (s.applyDiff diff).1.view = Delta.merge diff.delta s.view :=
  (view_insertToDiffLog _ _).trans (view_receive s diff)

theorem recorded_applyDiff (diff : DiffState) :
    Recorded (s.receive diff).diffLog s (s.applyDiff diff).1 := by
  have hview : (s.receive diff).state.view = Delta.patch (s.receive diff).diffLog.delta s.view := by
    rw [delta_receive, Delta.patch_effective, view_receive]
  refine recorded_insertToDiffLog ⟨fun info _ => congrFun hview info, fun info v hv => ?_⟩
  have hv : Delta.patch (s.receive diff).diffLog.delta s.view info = v :=
    (congrFun hview info).symm.trans hv
  unfold Delta.patch at hv
  cases hdelta : (s.receive diff).diffLog.delta info with
  | none => rw [hdelta] at hv; exact Or.inl hv
  | some c =>
    rw [hdelta] at hv
    cases c with
    | drop => exact absurd hv WithBot.bot_ne_coe
    | set seq =>
      obtain rfl : seq = v := WithBot.coe_injective hv
      exact Or.inr rfl

/-! ## Reports -/

/-- What the application is told it has not got yet. -/
def reported (out : List Output) : List MissingDataInfo :=
  out.flatMap fun
    | .onUpdate v => v
    | _ => []

@[simp] theorem reported_nil : reported [] = [] := rfl

@[simp] theorem reported_append (out out' : List Output) :
    reported (out ++ out') = reported out ++ reported out' :=
  List.flatMap_append

@[simp] theorem reported_interest (name : SyncName) : reported [.interest name] = [] := rfl

@[simp] theorem reported_data (name : SyncName) (content : Bytes) :
    reported [.data name content] = [] := rfl

@[simp] theorem reported_answers {α : Type*} (f : α → SyncName) (g : α → Bytes) (l : List α) :
    reported (l.map fun a => .data (f a) (g a)) = [] := by
  simp [reported, List.flatMap_map]

theorem reported_toldOf (perBranch : Bool) (before : WithBot SeqNo) (leaf : DiffLeaf) :
    reported (toldOf perBranch before leaf) = [] := by
  unfold toldOf
  cases leaf.operation with
  | update seq =>
    dsimp only
    split_ifs
    · simp [reported, List.flatMap_map]
    · rfl
  | remove =>
    dsimp only
    split_ifs <;> rfl

theorem reported_flatMap {α : Type*} {f : α → List Output} (h : ∀ a, reported (f a) = [])
    (l : List α) : reported (l.flatMap f) = [] := by
  induction l with
  | nil => rfl
  | cons a l ih => rw [List.flatMap_cons, reported_append, h, ih]; rfl

/-- The application is told what is missing, each prefix by its leaf. -/
theorem reported_applyDiff (diff : DiffState) :
    reported (s.applyDiff diff).2 = diff.leaves.toList.flatMap fun leaf =>
      if s.perBranch then [] else reportOf (s.view leaf.info) leaf := by
  show reported ((s.receive diff).told ++ if (s.receive diff).missing = [] then [] else _) = _
  rw [reported_append, told_receive, reported_flatMap (fun leaf => reported_toldOf _ _ leaf),
    List.nil_append, ← missing_receive]
  split_ifs with h
  · rw [h]; rfl
  · exact List.append_nil _

/-- Is it for the application? The rest goes over the network. -/
def Output.toApplication : Output → Bool
  | .interest _ => false
  | .data _ _ => false
  | _ => true

/-- A merge sends nothing. -/
theorem toApplication_applyDiff (diff : DiffState) :
    ∀ o ∈ (s.applyDiff diff).2, Output.toApplication o = true := by
  intro o ho
  rcases List.mem_append.1 ho with ho | ho
  · rw [told_receive] at ho
    obtain ⟨leaf, -, ho⟩ := List.mem_flatMap.1 ho
    unfold toldOf at ho
    cases hop : leaf.operation <;> simp only [hop] at ho <;> split_ifs at ho
    · obtain ⟨mdi, -, rfl⟩ := List.mem_map.1 ho
      rfl
    · simp at ho
    · simp at ho
    · obtain rfl := List.mem_singleton.1 ho
      rfl
  · split_ifs at ho
    · simp at ho
    · obtain rfl := List.mem_singleton.1 ho
      rfl

/-- A local change reports nothing. -/
theorem reported_satisfyPendingSyncInterests (diffLog : DiffState) :
    reported (s.satisfyPendingSyncInterests pb diffLog).2 = [] := by
  rw [satisfyPendingSyncInterests, answerAll_snd, reported_answers]

@[simp] theorem reported_addLocalNames (namePrefix : String) (session seq : UInt64) :
    reported (s.turn pb (.addLocalNames namePrefix session seq)).2 = [] :=
  reported_satisfyPendingSyncInterests pb _ _

@[simp] theorem reported_remove (namePrefix : String) :
    reported (s.turn pb (.remove namePrefix)).2 = [] :=
  reported_satisfyPendingSyncInterests pb _ _

theorem reported_processSyncInterest (name : SyncName) (digest : Digest) (timed : Bool)
    (now : Int) : reported (s.processSyncInterest pb name digest timed now).2 = [] := by
  rcases processSyncInterest_cases pb s name digest timed now with
    ⟨-, -, h⟩ | ⟨-, h⟩ | ⟨-, h⟩ | ⟨-, i, -, h⟩ | ⟨-, -, h⟩ | ⟨-, -, h⟩ <;> rw [h]
  · rw [sendSyncData_snd, reported_data]
  · rfl
  · rfl
  · rw [sendSyncData_snd, reported_data]
  · rw [sendSyncRecoveryInterests_snd, reported_interest]
  · rfl

theorem reported_onSyncInterest (name : SyncName) (now : Int) :
    reported (s.onSyncInterest pb name now).2 = [] := by
  unfold onSyncInterest
  cases convertNameToDigestAndType name with
  | none => rfl
  | some r =>
    dsimp only
    split_ifs
    · exact reported_processSyncInterest pb s _ _ _ _
    · rcases processSyncRecoveryInterest_cases pb s name r.1 with h | h <;> rw [h]
      · rfl
      · rw [sendSyncData_snd, reported_data]
    · rfl

/-! ## Steps -/

/-- A difference that was received has been merged, what it changed was recorded and the
application was told. -/
structure Merges (diff : DiffState) (s : SyncLogic H) (r : SyncLogic H × List Output) : Prop where
  view : r.1.view = Delta.merge diff.delta s.view
  recorded : ∃ changes : DiffState,
    changes.delta = Delta.effective diff.delta s.view ∧ Recorded changes s r.1
  out : r.2 = (s.applyDiff diff).2

/-- Parties with the same state and log differ in nothing that matters to a merge. -/
structure SameState (s t : SyncLogic H) : Prop where
  state : t.state = s.state
  log : t.log = s.log
  perBranch : t.perBranch = s.perBranch

theorem SameState.quiet {s t : SyncLogic H} (h : SameState s t) : Quiet s t :=
  ⟨congrArg FullState.view h.state, h.log, h.perBranch⟩

theorem sameState_removeInterest (name : SyncName) : SameState s (s.removeInterest name) :=
  ⟨rfl, rfl, rfl⟩

theorem sameState_cancelRecovery : SameState s s.cancelRecovery := ⟨rfl, rfl, rfl⟩

theorem sameState_takeEvent (id : Nat) : SameState s (s.takeEvent id) := ⟨rfl, rfl, rfl⟩

theorem SameState.applyDiff {s t : SyncLogic H} (h : SameState s t) (diff : DiffState) :
    (t.applyDiff diff).2 = (s.applyDiff diff).2 := by
  unfold SyncLogic.applyDiff receive
  rw [h.state, h.perBranch]

theorem SameState.merges {diff : DiffState} {s t : SyncLogic H} {r : SyncLogic H × List Output}
    (h : SameState s t) (hm : Merges diff t r) : Merges diff s r := by
  have hview : t.view = s.view := h.quiet.view
  obtain ⟨changes, hdelta, hrec⟩ := hm.recorded
  exact {
    view := hview ▸ hm.view
    recorded := ⟨changes, hview ▸ hdelta, h.log ▸ hrec.log, hview ▸ hrec.view,
      hrec.perBranch.trans h.perBranch⟩
    out := hm.out.trans (h.applyDiff diff) }

/-- What is done after a merge does not undo it. -/
theorem merges_applyDiff (diff : DiffState) {u : SyncLogic H}
    (h : Quiet (s.applyDiff diff).1 u) : Merges diff s (u, (s.applyDiff diff).2) where
  view := h.view.trans (view_applyDiff s diff)
  recorded := ⟨(s.receive diff).diffLog, delta_receive s diff, (recorded_applyDiff s diff).quiet h⟩
  out := rfl

/-- **Data is merged**, and only then the party may express a new Interest. -/
theorem merges_processSyncData (name : SyncName) {wireData : Bytes} {msg : SyncStateMsg}
    (h : pb.parse wireData = some msg) :
    Merges (decode msg) s (s.processSyncData pb name wireData) := by
  unfold processSyncData
  rw [h]
  apply (sameState_removeInterest s name).merges
  apply merges_applyDiff
  show Quiet _ (if _ then _ else _)
  split_ifs
  · exact quiet_reexpressInterest _
  · exact Quiet.refl _

/-- Data that cannot be parsed does nothing. -/
theorem quiet_processSyncData (name : SyncName) {wireData : Bytes} (h : pb.parse wireData = none) :
    Quiet s (s.processSyncData pb name wireData).1 ∧
      (s.processSyncData pb name wireData).2 = [] := by
  unfold processSyncData
  rw [h]
  refine ⟨(sameState_removeInterest s name).quiet.trans ?_, rfl⟩
  show Quiet _ (if _ then _ else _)
  split_ifs
  · exact quiet_reexpressInterest _
  · exact Quiet.refl _

theorem processSyncData_cases (name : SyncName) (wireData : Bytes) :
    (Quiet s (s.processSyncData pb name wireData).1 ∧
        (s.processSyncData pb name wireData).2 = []) ∨
      ∃ msg, pb.parse wireData = some msg ∧
        Merges (decode msg) s (s.processSyncData pb name wireData) := by
  cases h : pb.parse wireData with
  | none => exact Or.inl (quiet_processSyncData pb s name h)
  | some msg => exact Or.inr ⟨msg, rfl, merges_processSyncData pb s name h⟩

theorem onSyncDataValidated_cases (name : SyncName) (content : Bytes) :
    (Quiet s (s.onSyncDataValidated pb name content).1 ∧
        (s.onSyncDataValidated pb name content).2 = []) ∨
      ∃ msg, pb.parse content = some msg ∧
        Merges (decode msg) s (s.onSyncDataValidated pb name content) := by
  unfold onSyncDataValidated
  cases convertNameToDigestAndType name with
  | none => exact Or.inl ⟨Quiet.refl s, rfl⟩
  | some r =>
    dsimp only
    split_ifs
    · exact processSyncData_cases pb s name content
    · have hsame := sameState_cancelRecovery s
      rcases processSyncData_cases pb s.cancelRecovery name content with
        ⟨hquiet, hout⟩ | ⟨msg, hmsg, h⟩
      · exact Or.inl ⟨hsame.quiet.trans hquiet, hout⟩
      · exact Or.inr ⟨msg, hmsg, hsame.merges h⟩

theorem runAction_quiet (action : SyncAction) (now : Int) :
    Quiet s (s.runAction pb action now).1 ∧ reported (s.runAction pb action now).2 = [] := by
  cases action with
  | sendSyncInterest =>
    refine ⟨quiet_sendSyncInterest s, ?_⟩
    show reported s.sendSyncInterest.2 = []
    rw [sendSyncInterest_snd, reported_interest]
  | processSyncInterest name digest =>
    exact ⟨quiet_processSyncInterest pb s _ _ _ _, reported_processSyncInterest pb s _ _ _ _⟩
  | sendSyncRecoveryInterests digest =>
    refine ⟨quiet_sendSyncRecoveryInterests s digest, ?_⟩
    show reported (s.sendSyncRecoveryInterests digest).2 = []
    rw [sendSyncRecoveryInterests_snd, reported_interest]

/-- What runs when an event is due. -/
theorem turn_due (id : Nat) (now : Int) :
    s.scheduler.find? id = none ∧ s.turn pb (.due id now) = (s, []) ∨
      ∃ action, s.scheduler.find? id = some action ∧
        s.turn pb (.due id now) = (s.takeEvent id).runAction pb action now := by
  unfold turn
  dsimp only
  cases s.scheduler.find? id with
  | none => exact Or.inl ⟨rfl, rfl⟩
  | some action => exact Or.inr ⟨action, rfl, rfl⟩

/-- **What a step does**: it leaves state and log as they are and reports nothing, it is a local
change, or it merges a difference that was received. -/
theorem turn_cases (e : Event) :
    (Quiet s (s.turn pb e).1 ∧ reported (s.turn pb e).2 = []) ∨
    (∃ namePrefix session seq, e = .addLocalNames namePrefix session seq) ∨
    (∃ namePrefix, e = .remove namePrefix) ∨
    ∃ name content msg, e = .syncData name content ∧ pb.parse content = some msg ∧
      Merges (decode msg) s (s.turn pb e) := by
  cases e with
  | syncInterest name now =>
    exact Or.inl ⟨quiet_onSyncInterest pb s name now, reported_onSyncInterest pb s name now⟩
  | syncData name content =>
    rcases onSyncDataValidated_cases pb s name content with ⟨hquiet, hout⟩ | ⟨msg, hmsg, h⟩
    · refine Or.inl ⟨hquiet, ?_⟩
      show reported (s.onSyncDataValidated pb name content).2 = []
      rw [hout, reported_nil]
    · exact Or.inr (Or.inr (Or.inr ⟨name, content, msg, rfl, hmsg, h⟩))
  | addLocalNames namePrefix session seq => exact Or.inr (Or.inl ⟨_, _, _, rfl⟩)
  | remove namePrefix => exact Or.inr (Or.inr (Or.inl ⟨_, rfl⟩))
  | due id now =>
    left
    rcases turn_due pb s id now with ⟨-, h⟩ | ⟨action, -, h⟩ <;> rw [h]
    · exact ⟨Quiet.refl s, rfl⟩
    · obtain ⟨hquiet, hout⟩ := runAction_quiet pb (s.takeEvent id) action now
      exact ⟨(sameState_takeEvent s id).quiet.trans hquiet, hout⟩
  | expireInterests now => exact Or.inl ⟨⟨rfl, rfl, rfl⟩, rfl⟩

/-- **The log changes only together with the state.** -/
theorem quiet_or_recorded (e : Event) :
    Quiet s (s.step pb e) ∨ ∃ diff, Recorded diff s (s.step pb e) := by
  rcases turn_cases pb s e with ⟨h, -⟩ | ⟨namePrefix, session, seq, rfl⟩ | ⟨namePrefix, rfl⟩ |
    ⟨name, content, msg, -, -, h⟩
  · exact Or.inl h
  · exact Or.inr ⟨_, recorded_addLocalNames pb s namePrefix session seq⟩
  · exact Or.inr ⟨_, recorded_remove pb s namePrefix⟩
  · obtain ⟨changes, -, hrec⟩ := h.recorded
    exact Or.inr ⟨changes, hrec⟩

/-- **Data that can be read is merged**, under whatever name. -/
theorem view_step_syncData {name : SyncName} (hname : (convertNameToDigestAndType name).isSome)
    (msg : SyncStateMsg) :
    (s.step pb (.syncData name (pb.serialize msg))).view =
      Delta.merge (decode msg).delta s.view := by
  show (s.onSyncDataValidated pb name (pb.serialize msg)).1.view = _
  obtain ⟨r, hr⟩ := Option.isSome_iff_exists.1 hname
  have hparse := pb.parse_serialize msg
  unfold onSyncDataValidated
  rw [hr]
  dsimp only
  split_ifs
  · exact (merges_processSyncData pb s name hparse).view
  · exact (merges_processSyncData pb s.cancelRecovery name hparse).view

theorem perBranch_step (e : Event) : (s.step pb e).perBranch = s.perBranch := by
  rcases quiet_or_recorded pb s e with h | ⟨diff, h⟩
  · exact h.perBranch
  · exact h.perBranch

end SyncLogic

end LinkState.Sync
