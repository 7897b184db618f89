import LinkState.Sync.History

/-!
# What a party answers

A party sends Data for two reasons only: an Interest has come in, or its state has changed and
Interests are pending. `turn_answers`: whatever happens to it, all Data it sends is under a name
that it was asked for, and says nothing that is not in its state or its log.

`answered_after` puts this together for a run: nothing is sent that was not asked for.
-/

namespace LinkState.Sync.SyncLogic

variable {H : HashFunction} (pb : Protobuf)

/-! ## What is known -/

/-- A change that is in the state or in the log. -/
def Known (s : SyncLogic H) (info : String) (c : Change SeqNo) : Prop :=
  (∃ v : SeqNo, c = .set v ∧ s.view info = v) ∨ ∃ d ∈ s.log.history, d info = some c

theorem Quiet.known {s t : SyncLogic H} (h : Quiet s t) {info : String} {c : Change SeqNo}
    (hc : Known s info c) : Known t info c := by
  unfold Known
  rw [h.view, h.log]
  exact hc

theorem known_asDiff {s : SyncLogic H} {info : String} {c : Change SeqNo}
    (h : s.state.asDiff.delta info = some c) : Known s info c := by
  obtain ⟨v, hv, rfl⟩ := delta_asDiff_eq_some.1 h
  exact Or.inl ⟨v, rfl, hv⟩

theorem known_diff {s : SyncLogic H} {i : Nat} (hi : i < s.log.entries.length) {info : String}
    {c : Change SeqNo} (h : (s.log.diff i).delta info = some c) : Known s info c := by
  rw [DiffLog.delta_diff hi] at h
  obtain ⟨d, hd, hc⟩ := Delta.exists_mem_of_accumulate h
  exact Or.inr ⟨d, List.mem_of_mem_drop hd, hc⟩

/-- The changes that an event brings with it. -/
def Brings (e : Event) (info : String) (c : Change SeqNo) : Prop :=
  match e with
  | .addLocalNames namePrefix session seq => info = namePrefix ∧ c = .set ⟨session, seq⟩
  | .remove namePrefix => info = namePrefix ∧ c = .drop ∨
      info = forwarderPrefix ∧ ∃ v, c = .set v
  | .syncData _ content => ∃ msg, pb.parse content = some msg ∧ (decode msg).delta info = some c
  | _ => False

/-- What is reported was brought by the event. -/
theorem brings_of_reported {s : SyncLogic H} {e : Event} {mdi : MissingDataInfo}
    (h : mdi ∈ reported (s.turn pb e).2) : Brings pb e mdi.namePrefix (.set mdi.high) := by
  rcases turn_cases pb s e with ⟨-, hout⟩ | ⟨name, session, seq, rfl⟩ | ⟨name, rfl⟩ |
    ⟨name, content, msg, rfl, hmsg, hmerges⟩
  · rw [hout] at h
    exact absurd h List.not_mem_nil
  · simp at h
  · simp at h
  · rw [hmerges.out, reported_applyDiff] at h
    obtain ⟨leaf, hleaf, h⟩ := List.mem_flatMap.1 h
    split_ifs at h
    · exact absurd h List.not_mem_nil
    · unfold reportOf at h
      cases hop : leaf.operation with
      | remove => simp [hop] at h
      | update seq =>
        simp only [hop] at h
        split_ifs at h
        · obtain rfl := List.mem_singleton.1 h
          have hfind : (decode msg).leaves.find? leaf.info = some leaf :=
            SortedTable.find?_of_mem hleaf
          refine ⟨msg, hmsg, ?_⟩
          simp [DiffState.delta, hfind, hop, Operation.change]
        · exact absurd h List.not_mem_nil

/-- What is recorded becomes known. -/
theorem Recorded.known {diff : DiffState} {s t : SyncLogic H} (h : Recorded diff s t)
    {info : String} {c : Change SeqNo} (hc : Known t info c) :
    Known s info c ∨ diff.delta info = some c := by
  rcases hc with ⟨v, rfl, hv⟩ | ⟨d, hd, hdc⟩
  · rcases h.view.eq_or info v hv with hold | hnew
    · exact Or.inl (Or.inl ⟨v, rfl, hold⟩)
    · exact Or.inr hnew
  · rw [h.log, DiffLog.history_insert] at hd
    rcases List.mem_append.1 hd with hd | hd
    · exact Or.inl (Or.inr ⟨d, hd, hdc⟩)
    · rw [List.mem_singleton.1 hd] at hdc
      exact Or.inr hdc

/-- **A party knows what it knew before and what the event brought.** -/
theorem known_step {s : SyncLogic H} {e : Event} {info : String} {c : Change SeqNo}
    (h : Known (s.step pb e) info c) : Known s info c ∨ Brings pb e info c := by
  rcases turn_cases pb s e with ⟨hquiet, -⟩ | ⟨namePrefix, session, seq, rfl⟩ | ⟨namePrefix, rfl⟩ |
    ⟨name, content, msg, rfl, hmsg, hmerges⟩
  · left
    have hview : (s.step pb e).view = s.view := hquiet.view
    have hlog : (s.step pb e).log = s.log := hquiet.log
    unfold Known at h ⊢
    rwa [hview, hlog] at h
  · refine ((recorded_addLocalNames pb s namePrefix session seq).known h).imp_right ?_
    intro hdiff
    rw [DiffState.delta_update, DiffState.delta_init, Function.update_apply] at hdiff
    split_ifs at hdiff with hinfo
    · exact ⟨hinfo, (Option.some.inj hdiff).symm⟩
    · cases hdiff
  · refine ((recorded_remove pb s namePrefix).known h).imp_right ?_
    intro hdiff
    rw [DiffState.delta_update, DiffState.delta_remove, DiffState.delta_init,
      Function.update_apply, Function.update_apply] at hdiff
    split_ifs at hdiff with hfwd hinfo
    · exact Or.inr ⟨hfwd, _, (Option.some.inj hdiff).symm⟩
    · exact Or.inl ⟨hinfo, (Option.some.inj hdiff).symm⟩
    · cases hdiff
  · obtain ⟨changes, hdelta, hrec⟩ := hmerges.recorded
    refine (hrec.known h).imp_right ?_
    intro hdiff
    rw [hdelta] at hdiff
    exact ⟨msg, hmsg, (Delta.effective_eq_some hdiff).1⟩

/-! ## What is sent -/

/-- The content can be read, and what it says is in `K`. -/
def Carries (K : String → Change SeqNo → Prop) (content : Bytes) : Prop :=
  ∃ msg, pb.parse content = some msg ∧ ∀ info c, (decode msg).delta info = some c → K info c

/-- All Data is under a name in `P` and says what is in `K`. -/
def Answers (P : SyncName → Prop) (K : String → Change SeqNo → Prop) (out : List Output) : Prop :=
  ∀ name content, .data name content ∈ out → P name ∧ Carries pb K content

variable {P : SyncName → Prop} {K : String → Change SeqNo → Prop}

theorem answers_nil : Answers pb P K [] := by
  intro name content h
  simp at h

/-- Where nothing goes over the network. -/
theorem answers_of_toApplication {out : List Output}
    (h : ∀ o ∈ out, Output.toApplication o = true) : Answers pb P K out := by
  intro name content hmem
  have happ := h _ hmem
  simp [Output.toApplication] at happ

theorem answers_interest (name : SyncName) : Answers pb P K [.interest name] := by
  intro name content h
  simp at h

theorem carries_serialize {msg : SyncStateMsg}
    (h : ∀ info c, (decode msg).delta info = some c → K info c) :
    Carries pb K (pb.serialize msg) :=
  ⟨msg, pb.parse_serialize msg, h⟩

theorem answers_sendSyncData (s : SyncLogic H) {name : SyncName} {msg : SyncStateMsg}
    (hname : P name) (h : ∀ info c, (decode msg).delta info = some c → K info c) :
    Answers pb P K (s.sendSyncData pb name msg).2 := by
  intro name' content hmem
  rw [sendSyncData_snd, List.mem_singleton] at hmem
  cases hmem
  exact ⟨hname, carries_serialize pb h⟩

/-! ## What is still to be answered -/

/-- The Interests that are kept, or are to be looked at again, are in `P`. -/
structure Asked (P : SyncName → Prop) (s : SyncLogic H) : Prop where
  table : ∀ i ∈ s.syncInterestTable, P i.name
  delayed : ∀ e ∈ s.scheduler.events, ∀ name digest,
    e.action = .processSyncInterest name digest → P name

theorem Asked.mono {s : SyncLogic H} (h : Asked P s) {Q : SyncName → Prop}
    (hPQ : ∀ name, P name → Q name) : Asked Q s where
  table i hi := hPQ _ (h.table i hi)
  delayed e he name digest haction := hPQ _ (h.delayed e he name digest haction)

theorem asked_init (perBranch : Bool) : Asked P (init H perBranch) where
  table i hi := absurd hi (KeyedList.not_mem_empty i)
  delayed e he name digest haction := by
    rcases EventQueue.mem_scheduleEvent.1 he with he | rfl
    · exact absurd he (KeyedList.not_mem_empty e)
    · cases haction

theorem Asked.reexpressInterest {s : SyncLogic H} (h : Asked P s) :
    Asked P s.reexpressInterest where
  table := h.table
  delayed e he name digest haction := by
    rcases EventQueue.mem_scheduleEvent.1 (EventQueue.mem_cancelEvent.1 he).1 with he | rfl
    · exact h.delayed e he name digest haction
    · cases haction

theorem Asked.cancelRecovery {s : SyncLogic H} (h : Asked P s) : Asked P s.cancelRecovery where
  table := h.table
  delayed e he := h.delayed e (EventQueue.mem_cancelEvent.1 he).1

theorem Asked.takeEvent {s : SyncLogic H} (h : Asked P s) (id : Nat) :
    Asked P (s.takeEvent id) where
  table := h.table
  delayed e he := h.delayed e (EventQueue.mem_cancelEvent.1 he).1

theorem Asked.sendSyncRecoveryInterests {s : SyncLogic H} (h : Asked P s) (digest : Digest) :
    Asked P (s.sendSyncRecoveryInterests digest).1 := by
  have hcancelled := h.cancelRecovery
  unfold SyncLogic.sendSyncRecoveryInterests
  dsimp only
  split_ifs
  · refine ⟨h.table, ?_⟩
    intro e he name digest haction
    rcases EventQueue.mem_scheduleEvent.1 he with he | rfl
    · exact hcancelled.delayed e he name digest haction
    · cases haction
  · exact ⟨h.table, hcancelled.delayed⟩

/-- An Interest that is kept was asked for. -/
theorem Asked.insert {s : SyncLogic H} (h : Asked P s) {name : SyncName} (hname : P name)
    (digest : Digest) (unknown : Bool) (now : Int) :
    ∀ i ∈ (SyncInterestTable.insert s.syncInterestTable digest name unknown now).1, P i.name := by
  intro i hi
  rcases SyncInterestTable.mem_insert.1 hi with ⟨hi, -⟩ | rfl
  · exact h.table i hi
  · exact hname

theorem Asked.delayInterest {s : SyncLogic H} (h : Asked P s) {name : SyncName} (hname : P name)
    (digest : Digest) (now : Int) : Asked P (s.delayInterest name digest now) where
  table := h.insert hname digest true now
  delayed e he name' digest' haction := by
    rcases EventQueue.mem_scheduleEvent.1 he with he | rfl
    · refine h.delayed e ?_ name' digest' haction
      split_ifs at he
      · exact (EventQueue.mem_cancelEvent.1 he).1
      · exact he
    · cases haction
      exact hname

theorem Asked.sendSyncData {s : SyncLogic H} (h : Asked P s) (name : SyncName)
    (msg : SyncStateMsg) : Asked P (s.sendSyncData pb name msg).1 :=
  sendSyncData_keeps pb s h (fun _ ht => ht.reexpressInterest) name msg

/-! ## Steps -/

/-- What a step keeps of what was asked for, and what it sends. -/
structure Serves (P : SyncName → Prop) (r : SyncLogic H × List Output) : Prop where
  asked : Asked P r.1
  answers : Answers pb P (Known r.1) r.2

theorem serves_sendSyncData {s : SyncLogic H} (h : Asked P s) {name : SyncName} (hname : P name)
    {msg : SyncStateMsg} (hmsg : ∀ info c, (decode msg).delta info = some c → Known s info c) :
    Serves pb P (s.sendSyncData pb name msg) where
  asked := h.sendSyncData pb name msg
  answers := answers_sendSyncData pb s hname fun info c hc =>
    (quiet_sendSyncData pb s name msg).known (hmsg info c hc)

/-- The whole state is known. -/
theorem serves_full {s : SyncLogic H} (h : Asked P s) {name : SyncName} (hname : P name) :
    Serves pb P (s.sendSyncData pb name s.state.encode) := by
  apply serves_sendSyncData pb h hname
  intro info c hc
  rw [decode_encodeFull] at hc
  exact known_asDiff hc

theorem serves_processSyncInterest {s : SyncLogic H} (h : Asked P s) {name : SyncName}
    (hname : P name) (digest : Digest) (timed : Bool) (now : Int) :
    Serves pb P (s.processSyncInterest pb name digest timed now) := by
  have hdigested : Asked P s.digested := ⟨h.table, h.delayed⟩
  rcases processSyncInterest_cases pb s name digest timed now with
    ⟨-, -, hr⟩ | ⟨-, hr⟩ | ⟨-, hr⟩ | ⟨-, i, hfind, hr⟩ | ⟨-, -, hr⟩ | ⟨-, -, hr⟩ <;> rw [hr]
  · exact serves_full pb hdigested hname
  · exact ⟨⟨h.insert hname _ _ _, h.delayed⟩, answers_nil pb⟩
  · exact ⟨hdigested, answers_nil pb⟩
  · apply serves_sendSyncData pb hdigested hname
    intro info c hc
    rw [decode_encode] at hc
    exact (quiet_digested s).known (known_diff (DiffLog.find?_eq_some hfind).1 hc)
  · constructor
    · apply Asked.sendSyncRecoveryInterests
      exact ⟨h.table, h.delayed⟩
    · rw [sendSyncRecoveryInterests_snd]
      exact answers_interest pb _
  · exact ⟨hdigested.delayInterest hname _ _, answers_nil pb⟩

theorem serves_onSyncInterest {s : SyncLogic H} (h : Asked P s) {name : SyncName}
    (hP : (convertNameToDigestAndType name).isSome → P name) (now : Int) :
    Serves pb P (s.onSyncInterest pb name now) := by
  unfold onSyncInterest
  cases hconv : convertNameToDigestAndType name with
  | none => exact ⟨h, answers_nil pb⟩
  | some r =>
    have hname : P name := hP (by simp [hconv])
    dsimp only
    split_ifs
    · exact serves_processSyncInterest pb h hname _ _ _
    · rcases processSyncRecoveryInterest_cases pb s name r.1 with hr | hr <;> rw [hr]
      · exact ⟨h, answers_nil pb⟩
      · exact serves_full pb h hname
    · exact ⟨h, answers_nil pb⟩

/-- A local change is in the log when it is sent. -/
theorem serves_publish {s : SyncLogic H} (h : Asked P s) (state : FullState H) (diff : DiffState) :
    Serves pb P
      ((insertToDiffLog { s with state := state } diff).satisfyPendingSyncInterests pb diff) := by
  have hlog := log_insertToDiffLog { s with state := state } diff
  have hquiet := quiet_satisfyPendingSyncInterests pb
    (insertToDiffLog { s with state := state } diff) diff
  constructor
  · refine answerAll_keeps pb (fun _ ht => ht.reexpressInterest) _ _ _ ?_
    exact ⟨fun i hi => absurd hi (KeyedList.not_mem_empty i), h.delayed⟩
  · intro name content hmem
    rw [satisfyPendingSyncInterests, answerAll_snd] at hmem
    obtain ⟨i, hi, hdata⟩ := List.mem_map.1 hmem
    cases hdata
    refine ⟨h.table i hi, carries_serialize pb ?_⟩
    intro info c hc
    apply hquiet.known
    rw [decode_encode] at hc
    split_ifs at hc
    · exact known_asDiff hc
    · right
      rw [hlog, DiffLog.history_insert]
      exact ⟨diff.delta, by simp, hc⟩

theorem asked_processSyncData {s : SyncLogic H} (h : Asked P s) (name : SyncName)
    (wireData : Bytes) : Asked P (s.processSyncData pb name wireData).1 := by
  have hsame : Asked P (s.removeInterest name) :=
    ⟨fun i hi => h.table i (KeyedList.mem_erase.1 hi).1, h.delayed⟩
  unfold processSyncData
  cases pb.parse wireData with
  | none =>
    show Asked P (if _ then _ else _)
    split_ifs
    · exact hsame.reexpressInterest
    · exact hsame
  | some msg =>
    have hu : Asked P ((s.removeInterest name).applyDiff (decode msg)).1 :=
      ⟨hsame.table, hsame.delayed⟩
    show Asked P (if _ then _ else _)
    split_ifs
    · exact hu.reexpressInterest
    · exact hu

theorem serves_onSyncDataValidated {s : SyncLogic H} (h : Asked P s) (name : SyncName)
    (content : Bytes) : Serves pb P (s.onSyncDataValidated pb name content) := by
  constructor
  · unfold onSyncDataValidated
    cases convertNameToDigestAndType name with
    | none => exact h
    | some r =>
      dsimp only
      split_ifs
      · exact asked_processSyncData pb h _ _
      · exact asked_processSyncData pb h.cancelRecovery _ _
  · rcases onSyncDataValidated_cases pb s name content with ⟨-, hout⟩ | ⟨msg, -, hmerges⟩
    · rw [hout]
      exact answers_nil pb
    · rw [hmerges.out]
      exact answers_of_toApplication pb (toApplication_applyDiff s _)

/-- **A step sends only what is known, under names that were asked for.** -/
theorem turn_answers {s : SyncLogic H} (h : Asked P s) (e : Event)
    (hP : ∀ name now, e = .syncInterest name now →
      (convertNameToDigestAndType name).isSome → P name) : Serves pb P (s.turn pb e) := by
  cases e with
  | syncInterest name now => exact serves_onSyncInterest pb h (hP name now rfl) now
  | syncData name content => exact serves_onSyncDataValidated pb h name content
  | addLocalNames namePrefix session seq => exact serves_publish pb h _ _
  | remove namePrefix => exact serves_publish pb h _ _
  | due id now =>
    have htaken := h.takeEvent id
    rcases turn_due pb s id now with ⟨-, ht⟩ | ⟨action, hfind, ht⟩ <;> rw [ht]
    · exact ⟨h, answers_nil pb⟩
    · cases action with
      | sendSyncInterest =>
        refine ⟨Asked.reexpressInterest ⟨htaken.table, htaken.delayed⟩, ?_⟩
        show Answers pb P _ (s.takeEvent id).sendSyncInterest.2
        rw [sendSyncInterest_snd]
        exact answers_interest pb _
      | processSyncInterest name digest =>
        have hname := h.delayed _ (EventQueue.find?_eq_some.1 hfind) name digest rfl
        exact serves_processSyncInterest pb htaken hname digest true now
      | sendSyncRecoveryInterests digest =>
        refine ⟨htaken.sendSyncRecoveryInterests digest, ?_⟩
        show Answers pb P _ (sendSyncRecoveryInterests _ digest).2
        rw [sendSyncRecoveryInterests_snd]
        exact answers_interest pb _
  | expireInterests now =>
    exact ⟨⟨fun i hi => h.table i (KeyedList.mem_filter.1 hi).1, h.delayed⟩, answers_nil pb⟩

/-! ## Runs -/

/-- An Interest with this name came in, and the name was that of a digest. -/
def AskedIn (es : List Event) (name : SyncName) : Prop :=
  (convertNameToDigestAndType name).isSome ∧ ∃ now, .syncInterest name now ∈ es

theorem AskedIn.append {es : List Event} {name : SyncName} (h : AskedIn es name)
    (es' : List Event) : AskedIn (es ++ es') name := by
  obtain ⟨hconv, now, hmem⟩ := h
  exact ⟨hconv, now, List.mem_append_left _ hmem⟩

/-- What was asked for before a step is asked for after it, and so is the Interest of the step. -/
theorem serves_concat {es : List Event} {s : SyncLogic H} (h : Asked (AskedIn es) s) (e : Event) :
    Serves pb (AskedIn (es ++ [e])) (s.turn pb e) := by
  apply turn_answers pb (h.mono fun name hname => hname.append [e])
  intro name now he hconv
  exact ⟨hconv, now, by simp [he]⟩

theorem asked_after (perBranch : Bool) (es : List Event) :
    Asked (AskedIn es) (after pb perBranch H es) := by
  refine after_induction pb perBranch (P := fun es s => Asked (AskedIn es) s)
    (asked_init perBranch) ?_ es
  intro es s e h
  exact (serves_concat pb h e).asked

/-- **Nothing is sent that was not asked for, or is not known.** Whatever has happened to a party,
the Data it sends at the next step is under the name of an Interest that came in, and all that the
Data says is in the party's state or in its log. -/
theorem answered_after (perBranch : Bool) (es : List Event) (e : Event) (name : SyncName)
    (content : Bytes)
    (h : .data name content ∈ ((after pb perBranch H es).turn pb e).2) :
    AskedIn (es ++ [e]) name ∧
      Carries pb (Known (after pb perBranch H (es ++ [e]))) content := by
  rw [after_concat]
  exact (serves_concat pb (asked_after pb perBranch es) e).answers name content h

/-- Who asks with the digest zero gets what was published. -/
theorem answered_after_publication :
    let es := [Event.addLocalNames "/ndn/router" 0 1]
    let e := Event.syncInterest (normalName zeroDigest) 0
    let s := after wire false checksum es
    AskedIn (es ++ [e]) (normalName zeroDigest) ∧
      Carries wire (Known (after wire false checksum (es ++ [e])))
        (wire.serialize s.digested.state.encode) := by
  refine answered_after wire false [_] _ _ _ ?_
  have hview : (after wire false checksum [.addLocalNames "/ndn/router" 0 1]).view ≠ ⊥ := by
    intro h
    have hat := congrFun h "/ndn/router"
    rw [show after wire false checksum _ = (addLocalNames wire (init checksum false) _ _ _).1
      from rfl, view_addLocalNames, Function.update_self] at hat
    exact absurd (sup_eq_bot_iff.1 hat).2 WithBot.coe_ne_bot
  rw [turn_normalName wire _ wellFormed_zeroDigest,
    processSyncInterest_of_isZero wire _ (by decide) hview, sendSyncData_snd]
  exact List.mem_singleton_self _

/-! ## Changes that somebody waits for -/

end LinkState.Sync.SyncLogic
