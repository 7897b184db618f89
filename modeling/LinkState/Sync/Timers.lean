import LinkState.Sync.Reports

/-!
# Timers

A party schedules three kinds of events: its next sync Interest, a second look at an Interest with
an unknown digest, and the next recovery Interest. It keeps the id of the event it scheduled last,
of each kind, and cancels by these ids, also long after the event ran.

* `one_sendSyncInterest`: at any time just one sync Interest is scheduled, and its id is kept; so
  a party never falls silent and never has two Interests going.
* `recovery_bound`: each second look leads to nine recovery Interests at most, because the
  interval doubles; a recovery that nobody answers ends by itself.
-/

namespace LinkState.Sync.SyncLogic

variable {H : HashFunction} (pb : Protobuf)

def IsSync (action : SyncAction) : Prop := action = .sendSyncInterest

def IsDelayed (action : SyncAction) : Prop :=
  ∃ name digest, action = .processSyncInterest name digest

def IsRecovery (action : SyncAction) : Prop := ∃ digest, action = .sendSyncRecoveryInterests digest

theorem not_isRecovery_of_isSync {action : SyncAction} (h : IsSync action) :
    ¬ IsRecovery action := by
  rintro ⟨digest, rfl⟩
  cases h

theorem not_isDelayed_of_isSync {action : SyncAction} (h : IsSync action) :
    ¬ IsDelayed action := by
  rintro ⟨name, digest, rfl⟩
  cases h

/-! ## The ids that are kept -/

/-- Each id that is kept is of an event of its kind, if that is still pending. -/
structure Timed (s : SyncLogic H) : Prop where
  reexpress : s.scheduler.Tracks s.reexpressingInterestId IsSync
  recovery : s.scheduler.Tracks s.reexpressingRecoveryInterestId IsRecovery
  delayed : s.scheduler.Owns s.delayedInterestProcessingId IsDelayed

/-- The ids are all right, and a sync Interest is scheduled. -/
structure Armed (s : SyncLogic H) : Prop extends Timed s where
  pending : s.scheduler.Pending IsSync

theorem Timed.reexpressInterest {s : SyncLogic H} (h : Timed s) : Armed s.reexpressInterest := by
  have hsync : IsSync .sendSyncInterest := rfl
  obtain ⟨htracks, hpending⟩ := h.reexpress.renew hsync
  have hrecovery := h.recovery.scheduleEvent (not_isRecovery_of_isSync hsync)
  exact {
    reexpress := htracks
    recovery := hrecovery.cancelEvent _
    delayed := (h.delayed.scheduleEvent _).cancelEvent _
    pending := hpending }

theorem Timed.cancelRecovery {s : SyncLogic H} (h : Timed s) : Timed s.cancelRecovery where
  reexpress := h.reexpress.cancelEvent _
  recovery := h.recovery.cancelEvent _
  delayed := h.delayed.cancelEvent _

theorem Armed.cancelRecovery {s : SyncLogic H} (h : Armed s) : Armed s.cancelRecovery where
  toTimed := h.toTimed.cancelRecovery
  pending := h.pending.cancelEvent h.recovery.owns fun _ => not_isRecovery_of_isSync

theorem Timed.takeEvent {s : SyncLogic H} (h : Timed s) (id : Nat) : Timed (s.takeEvent id) where
  reexpress := h.reexpress.cancelEvent _
  recovery := h.recovery.cancelEvent _
  delayed := h.delayed.cancelEvent _

/-- Taking another event leaves the sync Interest scheduled. -/
theorem Armed.takeEvent {s : SyncLogic H} (h : Armed s) {id : Nat} {action : SyncAction}
    (hfind : s.scheduler.find? id = some action) (haction : ¬ IsSync action) :
    Armed (s.takeEvent id) where
  toTimed := h.toTimed.takeEvent id
  pending := by
    obtain ⟨e, he, hsync⟩ := h.pending
    refine ⟨e, EventQueue.mem_cancelEvent.2 ⟨he, ?_⟩, hsync⟩
    intro heq
    have hid : e.id = id := (Option.some.inj heq).symm
    have hfind' : s.scheduler.find? id = some e.action :=
      EventQueue.find?_eq_some.2 (by rw [← hid]; exact he)
    rw [hfind] at hfind'
    obtain rfl := Option.some.inj hfind'
    exact haction hsync

theorem isRecovery_mk (digest : Digest) : IsRecovery (.sendSyncRecoveryInterests digest) :=
  ⟨digest, rfl⟩

theorem not_isSync_of_isRecovery {action : SyncAction} (h : IsRecovery action) :
    ¬ IsSync action := by
  intro hsync
  exact not_isRecovery_of_isSync hsync h

theorem Armed.sendSyncRecoveryInterests {s : SyncLogic H} (h : Armed s) (digest : Digest) :
    Armed (s.sendSyncRecoveryInterests digest).1 := by
  have hcancelled := h.cancelRecovery
  have hrecovery := isRecovery_mk digest
  unfold SyncLogic.sendSyncRecoveryInterests
  dsimp only
  split_ifs
  · exact {
      reexpress := hcancelled.reexpress.scheduleEvent (not_isSync_of_isRecovery hrecovery)
      recovery := EventQueue.tracks_scheduleEvent h.recovery.not_pending hrecovery
      delayed := hcancelled.delayed.scheduleEvent _
      pending := hcancelled.pending.scheduleEvent _ }
  · exact ⟨⟨hcancelled.reexpress, hcancelled.recovery, hcancelled.delayed⟩, hcancelled.pending⟩

theorem Armed.delayInterest {s : SyncLogic H} (h : Armed s) (name : SyncName) (digest : Digest)
    (now : Int) : Armed (s.delayInterest name digest now) := by
  have hdelayed : IsDelayed (.processSyncInterest name digest) := ⟨name, digest, rfl⟩
  have hsync : ¬ IsSync (.processSyncInterest name digest) := fun hs =>
    not_isDelayed_of_isSync hs hdelayed
  have hrecovery : ¬ IsRecovery (.processSyncInterest name digest) := by
    rintro ⟨d, hd⟩
    cases hd
  -- The queue is the old one or lacks one event that was owned
  have hqueue : ∀ existed : Bool,
      let q :=
        if existed then s.scheduler.cancelEvent s.delayedInterestProcessingId else s.scheduler
      q.Tracks s.reexpressingInterestId IsSync ∧
        q.Tracks s.reexpressingRecoveryInterestId IsRecovery ∧ q.Pending IsSync := by
    intro existed
    cases existed
    · exact ⟨h.reexpress, h.recovery, h.pending⟩
    · exact ⟨h.reexpress.cancelEvent _, h.recovery.cancelEvent _,
        h.pending.cancelEvent h.delayed fun _ => not_isDelayed_of_isSync⟩
  obtain ⟨hreexpress, hrec, hpending⟩ := hqueue (s.syncInterestTable.contains name)
  exact {
    reexpress := hreexpress.scheduleEvent hsync
    recovery := hrec.scheduleEvent hrecovery
    delayed := EventQueue.owns_scheduleEvent hdelayed
    pending := hpending.scheduleEvent _ }

/-! ## Steps -/

theorem armed_init (perBranch : Bool) : Armed (init H perBranch) := by
  have hsync : IsSync .sendSyncInterest := rfl
  exact {
    reexpress := EventQueue.tracks_scheduleEvent EventQueue.not_pending_empty hsync
    recovery := EventQueue.tracks_empty.scheduleEvent (not_isRecovery_of_isSync hsync)
    delayed := EventQueue.owns_none
    pending := ⟨_, EventQueue.mem_scheduleEvent.2 (Or.inr rfl), hsync⟩ }

theorem Armed.sendSyncData {s : SyncLogic H} (h : Armed s) (name : SyncName)
    (msg : SyncStateMsg) : Armed (s.sendSyncData pb name msg).1 :=
  sendSyncData_keeps pb s h (fun _ ht => ht.toTimed.reexpressInterest) name msg

theorem Armed.satisfyPendingSyncInterests {s : SyncLogic H} (h : Armed s) (diffLog : DiffState) :
    Armed (s.satisfyPendingSyncInterests pb diffLog).1 :=
  answerAll_keeps pb (fun _ ht => ht.toTimed.reexpressInterest) _ _ _
    ⟨⟨h.reexpress, h.recovery, h.delayed⟩, h.pending⟩

theorem Armed.processSyncInterest {s : SyncLogic H} (h : Armed s) (name : SyncName)
    (digest : Digest) (timed : Bool) (now : Int) :
    Armed (s.processSyncInterest pb name digest timed now).1 := by
  have hdigested : Armed s.digested := ⟨⟨h.reexpress, h.recovery, h.delayed⟩, h.pending⟩
  rcases processSyncInterest_cases pb s name digest timed now with
    ⟨-, -, hr⟩ | ⟨-, hr⟩ | ⟨-, hr⟩ | ⟨-, i, -, hr⟩ | ⟨-, -, hr⟩ | ⟨-, -, hr⟩ <;> rw [hr]
  · exact hdigested.sendSyncData pb _ _
  · exact ⟨⟨h.reexpress, h.recovery, h.delayed⟩, h.pending⟩
  · exact hdigested
  · exact hdigested.sendSyncData pb _ _
  · apply Armed.sendSyncRecoveryInterests
    exact ⟨⟨h.reexpress, h.recovery, h.delayed⟩, h.pending⟩
  · exact hdigested.delayInterest _ _ _

theorem Armed.processSyncData {s : SyncLogic H} (h : Armed s) (name : SyncName)
    (wireData : Bytes) : Armed (s.processSyncData pb name wireData).1 := by
  unfold SyncLogic.processSyncData
  have hsame : Armed (s.removeInterest name) :=
    ⟨⟨h.reexpress, h.recovery, h.delayed⟩, h.pending⟩
  cases pb.parse wireData with
  | none =>
    show Armed (if _ then _ else _)
    split_ifs
    · exact hsame.toTimed.reexpressInterest
    · exact hsame
  | some msg =>
    have hu : Armed ((s.removeInterest name).applyDiff (decode msg)).1 :=
      ⟨⟨h.reexpress, h.recovery, h.delayed⟩, h.pending⟩
    show Armed (if _ then _ else _)
    split_ifs
    · exact hu.toTimed.reexpressInterest
    · exact hu

theorem Armed.step {s : SyncLogic H} (h : Armed s) (e : Event) : Armed (s.step pb e) := by
  cases e with
  | syncInterest name now =>
    show Armed (s.onSyncInterest pb name now).1
    unfold onSyncInterest
    cases convertNameToDigestAndType name with
    | none => exact h
    | some r =>
      dsimp only
      split_ifs
      · exact h.processSyncInterest pb _ _ _ _
      · rcases processSyncRecoveryInterest_cases pb s name r.1 with hr | hr <;> rw [hr]
        · exact h
        · exact h.sendSyncData pb _ _
      · exact h
  | syncData name content =>
    show Armed (s.onSyncDataValidated pb name content).1
    unfold onSyncDataValidated
    cases convertNameToDigestAndType name with
    | none => exact h
    | some r =>
      dsimp only
      split_ifs
      · exact h.processSyncData pb _ _
      · exact h.cancelRecovery.processSyncData pb _ _
  | addLocalNames namePrefix session seq =>
    show Armed (s.addLocalNames pb namePrefix session seq).1
    apply Armed.satisfyPendingSyncInterests
    exact ⟨⟨h.reexpress, h.recovery, h.delayed⟩, h.pending⟩
  | remove namePrefix =>
    show Armed (s.remove pb namePrefix).1
    apply Armed.satisfyPendingSyncInterests
    exact ⟨⟨h.reexpress, h.recovery, h.delayed⟩, h.pending⟩
  | due id now =>
    rcases turn_due pb s id now with ⟨-, ht⟩ | ⟨action, hfind, ht⟩
    · rw [SyncLogic.step, ht]
      exact h
    · rw [SyncLogic.step, ht]
      cases action with
      | sendSyncInterest =>
        -- The event that ran is scheduled anew
        have htaken := h.toTimed.takeEvent id
        apply Timed.reexpressInterest
        exact ⟨htaken.reexpress, htaken.recovery, htaken.delayed⟩
      | processSyncInterest name digest =>
        have htaken := h.takeEvent hfind fun hs =>
          not_isDelayed_of_isSync hs ⟨name, digest, rfl⟩
        exact htaken.processSyncInterest pb _ _ _ _
      | sendSyncRecoveryInterests digest =>
        have htaken := h.takeEvent hfind (not_isSync_of_isRecovery (isRecovery_mk digest))
        exact htaken.sendSyncRecoveryInterests digest
  | expireInterests now => exact ⟨⟨h.reexpress, h.recovery, h.delayed⟩, h.pending⟩

theorem armed_after (perBranch : Bool) (es : List Event) : Armed (after pb perBranch H es) := by
  refine after_induction pb perBranch (P := fun _ s => Armed s) (armed_init perBranch) ?_ es
  intro _ s e h
  exact h.step pb e

/-- **At any time just one sync Interest is scheduled**, and the party keeps its id. -/
theorem one_sendSyncInterest (perBranch : Bool) (es : List Event) :
    ∃ e ∈ (after pb perBranch H es).scheduler.events,
      (after pb perBranch H es).reexpressingInterestId = some e.id ∧
        e.action = .sendSyncInterest ∧
        ∀ e' ∈ (after pb perBranch H es).scheduler.events,
          e'.action = .sendSyncInterest ↔ e'.id = e.id := by
  have h := armed_after (H := H) pb perBranch es
  obtain ⟨e, he, hsync⟩ := h.pending
  have hid := h.reexpress.id_eq e he hsync
  refine ⟨e, he, hid, hsync, ?_⟩
  intro e' he'
  constructor
  · intro hsync'
    rw [h.reexpress.id_eq e' he' hsync'] at hid
    exact Option.some.inj hid
  · intro heq
    exact (h.reexpress.owns e.id hid).2 e' he' heq

/-! ## Recovery ends by itself -/

def isRecoveryInterest : Output → Bool
  | .interest name => name.interestType.isSome
  | _ => false

/-- The number of recovery Interests among what was put out. -/
def recoveries (out : List Output) : Nat := out.countP isRecoveryInterest

@[simp] theorem recoveries_append (out out' : List Output) :
    recoveries (out ++ out') = recoveries out + recoveries out' :=
  List.countP_append

@[simp] theorem recoveries_nil : recoveries [] = 0 := rfl

@[simp] theorem recoveries_data (name : SyncName) (content : Bytes) :
    recoveries [.data name content] = 0 := rfl

@[simp] theorem recoveries_normalName (digest : Digest) :
    recoveries [.interest (normalName digest)] = 0 := rfl

@[simp] theorem recoveries_recoveryName (digest : Digest) :
    recoveries [.interest (recoveryName digest)] = 1 := rfl

theorem recoveries_eq_zero {out : List Output} (h : ∀ o ∈ out, isRecoveryInterest o = false) :
    recoveries out = 0 := by
  simpa [recoveries] using h

/-- The interval is as it was, and no recovery was started. -/
structure Calm (s t : SyncLogic H) : Prop where
  interval : t.recoveryRetransmissionInterval = s.recoveryRetransmissionInterval
  pending : t.scheduler.Pending IsRecovery → s.scheduler.Pending IsRecovery

theorem Calm.refl (s : SyncLogic H) : Calm s s := ⟨rfl, id⟩

theorem Calm.trans {s t u : SyncLogic H} (h : Calm s t) (h' : Calm t u) : Calm s u :=
  ⟨h'.interval.trans h.interval, fun hp => h.pending (h'.pending hp)⟩

theorem calm_reexpressInterest (s : SyncLogic H) : Calm s s.reexpressInterest where
  interval := rfl
  pending h := h.of_cancelEvent.of_scheduleEvent (not_isRecovery_of_isSync rfl)

theorem calm_cancelRecovery (s : SyncLogic H) : Calm s s.cancelRecovery :=
  ⟨rfl, fun h => h.of_cancelEvent⟩

theorem calm_takeEvent (s : SyncLogic H) (id : Nat) : Calm s (s.takeEvent id) :=
  ⟨rfl, fun h => h.of_cancelEvent⟩

theorem calm_digested (s : SyncLogic H) : Calm s s.digested := ⟨rfl, id⟩

theorem calm_sendSyncInterest (s : SyncLogic H) : Calm s s.sendSyncInterest.1 where
  interval := rfl
  pending h := h.of_cancelEvent.of_scheduleEvent (not_isRecovery_of_isSync rfl)

theorem calm_delayInterest (s : SyncLogic H) (name : SyncName) (digest : Digest) (now : Int) :
    Calm s (s.delayInterest name digest now) where
  interval := rfl
  pending h := by
    have hnot : ¬ IsRecovery (.processSyncInterest name digest) := by
      rintro ⟨d, hd⟩
      cases hd
    have hq := EventQueue.Pending.of_scheduleEvent h hnot
    split_ifs at hq
    · exact hq.of_cancelEvent
    · exact hq

theorem calm_sendSyncData (s : SyncLogic H) (name : SyncName) (msg : SyncStateMsg) :
    Calm s (s.sendSyncData pb name msg).1 :=
  sendSyncData_keeps pb s (P := fun t => Calm s t) (Calm.refl s)
    (fun t ht => ht.trans (calm_reexpressInterest t)) name msg

theorem calm_satisfyPendingSyncInterests (s : SyncLogic H) (diffLog : DiffState) :
    Calm s (s.satisfyPendingSyncInterests pb diffLog).1 := by
  refine answerAll_keeps pb (P := fun t => Calm s t) ?_ _ _ _ ⟨rfl, id⟩
  intro t ht
  exact ht.trans (calm_reexpressInterest t)

/-- A local change. -/
theorem calm_publish (s : SyncLogic H) (state : FullState H) (diff : DiffState) :
    Calm s ((insertToDiffLog { s with state := state } diff).satisfyPendingSyncInterests
      pb diff).1 := by
  have hinsert : Calm s (insertToDiffLog { s with state := state } diff) := ⟨rfl, id⟩
  exact hinsert.trans (calm_satisfyPendingSyncInterests pb _ _)

theorem recoveries_satisfyPendingSyncInterests (s : SyncLogic H) (diffLog : DiffState) :
    recoveries (s.satisfyPendingSyncInterests pb diffLog).2 = 0 := by
  apply recoveries_eq_zero
  rw [satisfyPendingSyncInterests, answerAll_snd]
  intro o ho
  obtain ⟨i, -, rfl⟩ := List.mem_map.1 ho
  rfl

theorem calm_processSyncData (s : SyncLogic H) (name : SyncName) (wireData : Bytes) :
    Calm s (s.processSyncData pb name wireData).1 := by
  unfold processSyncData
  have hsame : Calm s (s.removeInterest name) := ⟨rfl, id⟩
  cases pb.parse wireData with
  | none =>
    show Calm s (if _ then _ else _)
    split_ifs
    · exact hsame.trans (calm_reexpressInterest _)
    · exact hsame
  | some msg =>
    have hu : Calm s ((s.removeInterest name).applyDiff (decode msg)).1 := ⟨rfl, id⟩
    show Calm s (if _ then _ else _)
    split_ifs
    · exact hu.trans (calm_reexpressInterest _)
    · exact hu

theorem recoveries_applyDiff (s : SyncLogic H) (diff : DiffState) :
    recoveries (s.applyDiff diff).2 = 0 := by
  apply recoveries_eq_zero
  intro o ho
  have happ := toApplication_applyDiff s diff o ho
  cases o <;> first | rfl | cases happ

theorem recoveries_onSyncDataValidated (s : SyncLogic H) (name : SyncName) (content : Bytes) :
    recoveries (s.onSyncDataValidated pb name content).2 = 0 := by
  rcases onSyncDataValidated_cases pb s name content with ⟨-, hout⟩ | ⟨msg, -, hmerges⟩
  · rw [hout]
    rfl
  · rw [hmerges.out]
    exact recoveries_applyDiff s _

/-- Where an Interest is not known at a second look, recovery starts. -/
theorem processSyncInterest_calm_or (s : SyncLogic H) (name : SyncName) (digest : Digest)
    (timed : Bool) (now : Int) :
    (Calm s (s.processSyncInterest pb name digest timed now).1 ∧
        recoveries (s.processSyncInterest pb name digest timed now).2 = 0) ∨
      timed = true ∧ s.processSyncInterest pb name digest timed now =
        sendSyncRecoveryInterests { s.digested with
          recoveryRetransmissionInterval := defaultRecoveryRetransmitInterval } digest := by
  have hdigested := calm_digested s
  rcases processSyncInterest_cases pb s name digest timed now with
    ⟨-, -, h⟩ | ⟨-, h⟩ | ⟨-, h⟩ | ⟨-, i, -, h⟩ | ⟨-, htimed, h⟩ | ⟨-, -, h⟩
  · left
    rw [h, sendSyncData_snd]
    exact ⟨hdigested.trans (calm_sendSyncData pb _ _ _), rfl⟩
  · left
    rw [h]
    exact ⟨⟨rfl, id⟩, rfl⟩
  · left
    rw [h]
    exact ⟨hdigested, rfl⟩
  · left
    rw [h, sendSyncData_snd]
    exact ⟨hdigested.trans (calm_sendSyncData pb _ _ _), rfl⟩
  · exact Or.inr ⟨htimed, h⟩
  · left
    rw [h]
    exact ⟨hdigested.trans (calm_delayInterest _ _ _ _), rfl⟩

/-- A step that does not go on with a recovery and does not start one. -/
def NoRecovery (s : SyncLogic H) (r : SyncLogic H × List Output) : Prop :=
  Calm s r.1 ∧ recoveries r.2 = 0

theorem noRecovery_onSyncInterest (s : SyncLogic H) (name : SyncName) (now : Int) :
    NoRecovery s (s.onSyncInterest pb name now) := by
  unfold onSyncInterest
  cases convertNameToDigestAndType name with
  | none => exact ⟨Calm.refl s, rfl⟩
  | some r =>
    dsimp only
    split_ifs
    · rcases processSyncInterest_calm_or pb s name r.1 false now with h | ⟨htimed, -⟩
      · exact h
      · cases htimed
    · rcases processSyncRecoveryInterest_cases pb s name r.1 with h | h <;> rw [h]
      · exact ⟨Calm.refl s, rfl⟩
      · refine ⟨calm_sendSyncData pb s _ _, ?_⟩
        rw [sendSyncData_snd, recoveries_data]
    · exact ⟨Calm.refl s, rfl⟩

theorem noRecovery_onSyncDataValidated (s : SyncLogic H) (name : SyncName) (content : Bytes) :
    NoRecovery s (s.onSyncDataValidated pb name content) := by
  refine ⟨?_, recoveries_onSyncDataValidated pb s name content⟩
  unfold onSyncDataValidated
  cases convertNameToDigestAndType name with
  | none => exact Calm.refl s
  | some r =>
    dsimp only
    split_ifs
    · exact calm_processSyncData pb s _ _
    · exact (calm_cancelRecovery s).trans (calm_processSyncData pb _ _ _)

/-- Does the event take a second look at an Interest? -/
def secondLook (s : SyncLogic H) : Event → Bool
  | .due id _ => (s.scheduler.find? id).any fun
    | .processSyncInterest _ _ => true
    | _ => false
  | _ => false

/-- **A recovery Interest is sent at a second look, or by the recovery that is scheduled.** -/
theorem turn_recovery {s : SyncLogic H} (hs : Timed s) (e : Event) :
    NoRecovery s (s.turn pb e) ∨
      ∃ (u : SyncLogic H) (digest : Digest), Timed u ∧
        s.turn pb e = u.sendSyncRecoveryInterests digest ∧
        (s.secondLook e = true ∧
            u.recoveryRetransmissionInterval = defaultRecoveryRetransmitInterval ∨
          s.scheduler.Pending IsRecovery ∧
            u.recoveryRetransmissionInterval = s.recoveryRetransmissionInterval) := by
  cases e with
  | syncInterest name now => exact Or.inl (noRecovery_onSyncInterest pb s name now)
  | syncData name content => exact Or.inl (noRecovery_onSyncDataValidated pb s name content)
  | addLocalNames namePrefix session seq =>
    left
    exact ⟨calm_publish pb s _ _, recoveries_satisfyPendingSyncInterests pb _ _⟩
  | remove namePrefix =>
    left
    exact ⟨calm_publish pb s _ _, recoveries_satisfyPendingSyncInterests pb _ _⟩
  | due id now =>
    have htaken := hs.takeEvent id
    have hcalm := calm_takeEvent s id
    rcases turn_due pb s id now with ⟨-, ht⟩ | ⟨action, hfind, ht⟩
    · left
      rw [ht]
      exact ⟨Calm.refl s, rfl⟩
    · rw [ht]
      cases action with
      | sendSyncInterest =>
        left
        refine ⟨hcalm.trans (calm_sendSyncInterest _), ?_⟩
        show recoveries (s.takeEvent id).sendSyncInterest.2 = 0
        rw [sendSyncInterest_snd, recoveries_normalName]
      | processSyncInterest name digest =>
        rcases processSyncInterest_calm_or pb (s.takeEvent id) name digest true now with
          ⟨hr, hout⟩ | ⟨-, hr⟩
        · exact Or.inl ⟨hcalm.trans hr, hout⟩
        · refine Or.inr ⟨_, digest, ?_, hr, Or.inl ⟨?_, rfl⟩⟩
          · exact ⟨htaken.reexpress, htaken.recovery, htaken.delayed⟩
          · simp [secondLook, hfind]
      | sendSyncRecoveryInterests digest =>
        refine Or.inr ⟨_, digest, htaken, rfl, Or.inr ⟨?_, rfl⟩⟩
        exact ⟨_, EventQueue.find?_eq_some.1 hfind, isRecovery_mk digest⟩
  | expireInterests now => exact Or.inl ⟨⟨rfl, id⟩, rfl⟩

/-- The interval after so many doublings. -/
def intervalAfter (k : Nat) : UInt32 := UInt32.ofNat (200 * 2 ^ k)

theorem intervalAfter_succ {k : Nat} (h : k ≤ 8) :
    intervalAfter k <<< 1 = intervalAfter (k + 1) ∧
      (intervalAfter (k + 1) < 100 * 1000 ↔ k + 1 ≤ 8) := by
  have hall : ∀ k : Fin 9, intervalAfter k <<< 1 = intervalAfter (k + 1) ∧
      (intervalAfter (k + 1) < 100 * 1000 ↔ k.val + 1 ≤ 8) := by decide
  exact hall ⟨k, Nat.lt_succ_of_le h⟩

/-- So many recovery Interests were sent after so many second looks; what the scheduled recovery
can still send fits in as well. -/
structure Retries (s : SyncLogic H) (sent looks : Nat) : Prop where
  le : sent ≤ 9 * looks
  pending : s.scheduler.Pending IsRecovery → ∃ k ≤ 8,
    s.recoveryRetransmissionInterval = intervalAfter k ∧ sent + (9 - k) ≤ 9 * looks

theorem Retries.calm {s t : SyncLogic H} {sent looks : Nat} (h : Retries s sent looks)
    (hcalm : Calm s t) : Retries t sent looks where
  le := h.le
  pending hp := by
    rw [hcalm.interval]
    exact h.pending (hcalm.pending hp)

theorem Retries.mono {s : SyncLogic H} {sent looks looks' : Nat} (h : Retries s sent looks)
    (hle : looks ≤ looks') : Retries s sent looks' where
  le := by
    have := h.le
    omega
  pending hp := by
    obtain ⟨k, hk, hinterval, hsent⟩ := h.pending hp
    exact ⟨k, hk, hinterval, by omega⟩

/-- One recovery Interest uses up one doubling. -/
theorem retries_sendSyncRecoveryInterests {u : SyncLogic H} (hu : Timed u) {k : Nat} (hk : k ≤ 8)
    (hinterval : u.recoveryRetransmissionInterval = intervalAfter k) {sent looks : Nat}
    (hsent : sent + (9 - k) ≤ 9 * looks) (digest : Digest) :
    Retries (u.sendSyncRecoveryInterests digest).1 (sent + 1) looks := by
  obtain ⟨hnext, hlt⟩ := intervalAfter_succ hk
  refine ⟨by omega, ?_⟩
  unfold sendSyncRecoveryInterests
  dsimp only
  rw [hinterval, hnext]
  split_ifs with h
  · intro _
    exact ⟨k + 1, hlt.1 h, rfl, by omega⟩
  · intro hp
    exact absurd hp hu.recovery.not_pending

theorem Retries.turn {s : SyncLogic H} {sent looks : Nat} (h : Retries s sent looks)
    (hs : Timed s) (e : Event) :
    Retries (s.step pb e) (sent + recoveries (s.turn pb e).2)
      (looks + (s.secondLook e).toNat) := by
  unfold SyncLogic.step
  rcases turn_recovery pb hs e with ⟨hcalm, hout⟩ | ⟨u, digest, hu, hr, ⟨hlook, hinterval⟩ |
    ⟨hpending, hinterval⟩⟩
  · rw [hout]
    exact (h.calm hcalm).mono (Nat.le_add_right _ _)
  · rw [hr, sendSyncRecoveryInterests_snd, recoveries_recoveryName, hlook]
    have hle := h.le
    refine retries_sendSyncRecoveryInterests hu (Nat.zero_le 8) hinterval ?_ digest
    simp only [Bool.toNat_true]
    omega
  · rw [hr, sendSyncRecoveryInterests_snd, recoveries_recoveryName]
    obtain ⟨k, hk, hk', hsent⟩ := h.pending hpending
    refine retries_sendSyncRecoveryInterests hu hk (hinterval.trans hk') ?_ digest
    omega

/-- The number of second looks in a run. -/
def secondLooks (s : SyncLogic H) : List Event → Nat
  | [] => 0
  | e :: es => (s.secondLook e).toNat + secondLooks (s.step pb e) es

/-- **Recovery ends by itself**: however Interests and Data come in, a party sends nine recovery
Interests at most for each second look at an Interest. -/
theorem recovery_bound (perBranch : Bool) (es : List Event) :
    recoveries ((init H perBranch).outputs pb es) ≤ 9 * (init H perBranch).secondLooks pb es := by
  have hall : ∀ (es : List Event) (s : SyncLogic H) (sent looks : Nat), Armed s →
      Retries s sent looks → sent + recoveries (s.outputs pb es) ≤
        9 * (looks + s.secondLooks pb es) := by
    intro es
    induction es with
    | nil =>
      intro s sent looks _ h
      exact h.le
    | cons e es ih =>
      intro s sent looks hs h
      have hrest := ih (s.step pb e) _ _ (hs.step pb e) (h.turn pb hs.toTimed e)
      simp only [outputs, secondLooks, recoveries_append]
      omega
  have hinit : Retries (init H perBranch) 0 0 := by
    refine ⟨le_rfl, ?_⟩
    intro hp
    have hnone : ¬ IsRecovery .sendSyncInterest := not_isRecovery_of_isSync rfl
    exact absurd (EventQueue.Pending.of_scheduleEvent hp hnone) EventQueue.not_pending_empty
  simpa using hall es _ 0 0 (armed_init perBranch) hinit

end LinkState.Sync.SyncLogic
