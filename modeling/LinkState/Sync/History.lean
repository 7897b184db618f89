import Mathlib.Data.List.Induction
import LinkState.Library.Run
import LinkState.Sync.LogicSpec
import LinkState.Sync.RootDigest
import LinkState.Sync.Wire

/-!
# What the log says of a run

Along any run of a party, `log_after`: the difference at an address of the log was recorded when
the party had done some of the events, and its digest is that of the state it had then. No
digest of a state the party ever had is forgotten, and it knows no others (`recalls_iff`).

If no prefix was ever recorded with a smaller number than before, the state is what the log says
(`view_after`). Then who has a state that the party had once, and asks with its digest, gets
exactly what he lacks (`catch_up`), unless two states collide.

`grown_after`: numbers never get smaller in a run in which nothing is removed and the
application publishes nothing that is older than what there is.
-/

namespace LinkState.Sync.SyncLogic

variable {H : HashFunction} (pb : Protobuf) (perBranch : Bool)

/-- A party after a run. -/
def after (H : HashFunction) (es : List Event) : SyncLogic H :=
  run (step pb) (init H perBranch) es

@[simp] theorem after_nil : after pb perBranch H [] = init H perBranch := rfl

theorem after_append (es es' : List Event) :
    after pb perBranch H (es ++ es') = run (step pb) (after pb perBranch H es) es' :=
  run_append _ _ _ _

theorem after_concat (es : List Event) (e : Event) :
    after pb perBranch H (es ++ [e]) = (after pb perBranch H es).step pb e :=
  after_append pb perBranch es [e]

/-- What holds at the start and is kept by every step holds after every run. -/
theorem after_induction {P : List Event → SyncLogic H → Prop} (hinit : P [] (init H perBranch))
    (hstep : ∀ es s e, P es s → P (es ++ [e]) (s.step pb e)) (es : List Event) :
    P es (after pb perBranch H es) := by
  induction es using List.reverseRecOn with
  | nil => exact hinit
  | append_singleton es e ih =>
    rw [after_concat]
    exact hstep es _ e ih

theorem perBranch_after (es : List Event) : (after pb perBranch H es).perBranch = perBranch := by
  refine after_induction pb perBranch (P := fun _ s => s.perBranch = perBranch) rfl ?_ es
  intro _ s e h
  rw [perBranch_step, h]

/-! ## The log of a run -/

/-- **Every difference in the log was recorded on the way**, with the digest of the state then. -/
theorem log_after (es : List Event) {i : Nat}
    (hi : i < (after pb perBranch H es).log.entries.length) :
    ∃ earlier, earlier <+: es ∧
      (after pb perBranch H earlier).log.history =
        (after pb perBranch H es).log.history.take (i + 1) ∧
      digestAt (after pb perBranch H es).log.entries i =
        some (after pb perBranch H earlier).state.rootDigest := by
  induction es using List.reverseRecOn with
  | nil => simp [init, DiffLog.empty] at hi
  | append_singleton es e ih =>
    have hprefix : ∀ {earlier : List Event}, earlier <+: es → earlier <+: es ++ [e] :=
      fun h => h.trans (List.prefix_append es [e])
    have hconcat := after_concat pb perBranch es e (H := H)
    rcases quiet_or_recorded pb (after pb perBranch H es) e with hquiet | ⟨diff, hrec⟩
    · have hlog : (after pb perBranch H (es ++ [e])).log = (after pb perBranch H es).log := by
        rw [hconcat, hquiet.log]
      rw [hlog] at hi ⊢
      obtain ⟨earlier, hpre, h⟩ := ih hi
      exact ⟨earlier, hprefix hpre, h⟩
    · rw [← hconcat] at hrec
      have hlength := DiffLog.length_insertEntry (after pb perBranch H es).log
        (after pb perBranch H (es ++ [e])).state.rootDigest diff
      have hhistory : (after pb perBranch H (es ++ [e])).log.history =
          (after pb perBranch H es).log.history ++ [diff.delta] := by
        rw [hrec.log, DiffLog.history_insert]
      by_cases hold : i < (after pb perBranch H es).log.entries.length
      · obtain ⟨earlier, hpre, htake, hdigest⟩ := ih hold
        refine ⟨earlier, hprefix hpre, ?_, ?_⟩
        · rw [htake, hhistory, List.take_append_of_le_length (by simp; omega)]
        · rw [hrec.log]
          exact (DiffLog.digestAt_insertEntry hold).trans hdigest
      · -- The newest difference is the one this event recorded
        rw [hrec.log] at hi
        change i < ((after pb perBranch H es).log.insertEntry _ diff).length at hi
        obtain rfl : i = (after pb perBranch H es).log.entries.length := by omega
        refine ⟨es ++ [e], List.prefix_rfl, ?_, ?_⟩
        · rw [List.take_of_length_le]
          simp [hhistory]
        · rw [hrec.log]
          exact DiffLog.digestAt_insertEntry_new

/-- The log has a digest. -/
def Recalls (s : SyncLogic H) (digest : Digest) : Prop := (s.log.find? digest).isSome

theorem recalls_insert {s : SyncLogic H} {digest d : Digest} {diff : DiffState}
    (h : s.Recalls d) : ((s.log.insert digest diff).find? d).isSome := by
  unfold Recalls at h
  rw [DiffLog.find?_isSome_iff] at h ⊢
  obtain ⟨e, he, rfl⟩ := h
  obtain ⟨i, hi, rfl⟩ := List.getElem_of_mem he
  obtain ⟨next, hnext⟩ := DiffLog.getElem?_insertEntry digest diff (List.getElem?_eq_getElem hi)
  exact ⟨_, List.mem_of_getElem? hnext, rfl⟩

/-- **A digest that was recorded stays.** -/
theorem Recalls.step {s : SyncLogic H} {d : Digest} (h : s.Recalls d) (e : Event) :
    (s.step pb e).Recalls d := by
  unfold Recalls
  rcases quiet_or_recorded pb s e with hquiet | ⟨diff, hrec⟩
  · rw [hquiet.log]
    exact h
  · rw [hrec.log]
    exact recalls_insert h

/-- A party has nothing, or its digest is in the log. -/
theorem empty_or_recalls (es : List Event) :
    (after pb perBranch H es).view = ⊥ ∨
      (after pb perBranch H es).Recalls (after pb perBranch H es).state.rootDigest := by
  refine after_induction pb perBranch
    (P := fun _ s => s.view = ⊥ ∨ s.Recalls s.state.rootDigest) (Or.inl rfl) ?_ es
  intro _ s e h
  rcases quiet_or_recorded pb s e with hquiet | ⟨diff, hrec⟩
  · unfold Recalls
    rw [hquiet.view, hquiet.log, hquiet.rootDigest]
    exact h
  · right
    unfold Recalls
    rw [hrec.log, DiffLog.find?_insert_self]
    rfl

/-- **No state the party had is forgotten**, except the empty one. -/
theorem recalls_rootDigest_of_prefix {earlier es : List Event} (h : earlier <+: es) :
    (after pb perBranch H earlier).view = ⊥ ∨
      (after pb perBranch H es).Recalls (after pb perBranch H earlier).state.rootDigest := by
  obtain ⟨later, rfl⟩ := h
  refine (empty_or_recalls pb perBranch earlier).imp_right ?_
  intro hrecalls
  rw [after_append]
  exact run_induction (fun (s : SyncLogic H) e (hs : Recalls s _) => hs.step pb e) hrecalls later

/-- **A party knows the digests of the states it had**, and zero, and no others. -/
theorem recalls_iff (es : List Event) (d : Digest) :
    (after pb perBranch H es).Recalls d ∨ d.isZero ↔
      (∃ earlier, earlier <+: es ∧ (after pb perBranch H earlier).state.rootDigest = d) ∨
        d.isZero := by
  constructor
  · intro h
    rcases h with h | hzero
    · obtain ⟨i, hi⟩ := Option.isSome_iff_exists.1 h
      obtain ⟨hlt, hdigest⟩ := DiffLog.find?_eq_some hi
      obtain ⟨earlier, hpre, -, hdigest'⟩ := log_after pb perBranch es hlt
      exact Or.inl ⟨earlier, hpre, Option.some.inj (hdigest'.symm.trans hdigest)⟩
    · exact Or.inr hzero
  · intro h
    rcases h with ⟨earlier, hpre, rfl⟩ | hzero
    · rcases recalls_rootDigest_of_prefix pb perBranch hpre with hbot | hrecalls
      · exact Or.inr (FullState.isZero_rootDigest.2 hbot)
      · exact Or.inl hrecalls
    · exact Or.inr hzero

/-! ## The state of a run -/

/-- **If no number ever got smaller, the state is what the log says.** -/
theorem view_after (es : List Event) (h : Delta.Rising (after pb perBranch H es).log.history) :
    (after pb perBranch H es).view = Delta.replay ⊥ (after pb perBranch H es).log.history := by
  revert h
  refine after_induction pb perBranch (P := fun _ s =>
    Delta.Rising s.log.history → s.view = Delta.replay ⊥ s.log.history) ?_ ?_ es
  · intro _
    rfl
  · intro _ s e ih hrising
    rcases quiet_or_recorded pb s e with hquiet | ⟨diff, hrec⟩
    · rw [hquiet.log] at hrising ⊢
      rw [hquiet.view, ih hrising]
    · rw [hrec.log, DiffLog.history_insert] at hrising ⊢
      obtain ⟨hold, hnew⟩ := Delta.rising_append_singleton.1 hrising
      have hcarried := hrec.view
      rw [ih hold] at hcarried
      exact hcarried.eq_replay hnew

/-- What was recorded after an earlier state is just what leads from there to the state now. -/
theorem merge_diff_after (es : List Event)
    (h : Delta.Rising (after pb perBranch H es).log.history) {i : Nat}
    (hi : i < (after pb perBranch H es).log.entries.length) :
    ∃ earlier, earlier <+: es ∧
      digestAt (after pb perBranch H es).log.entries i =
        some (after pb perBranch H earlier).state.rootDigest ∧
      Delta.merge ((after pb perBranch H es).log.diff i).delta (after pb perBranch H earlier).view =
        (after pb perBranch H es).view := by
  obtain ⟨earlier, hpre, htake, hdigest⟩ := log_after pb perBranch es hi
  refine ⟨earlier, hpre, hdigest, ?_⟩
  have hsplit := List.take_append_drop (i + 1) (after pb perBranch H es).log.history
  have hrising : Delta.Rising (after pb perBranch H earlier).log.history := by
    rw [htake]
    exact h.sublist (List.take_sublist _ _)
  rw [view_after pb perBranch earlier hrising, view_after pb perBranch es h, htake,
    DiffLog.delta_diff hi, Delta.merge_accumulate (by rwa [hsplit]), hsplit]

/-! ## Runs without removals -/

/-- Nothing is removed, neither here nor by a message. -/
def Additive : Event → Prop
  | .remove _ => False
  | .syncData _ content => ∀ msg, pb.parse content = some msg →
      ∀ info, (decode msg).delta info ≠ some .drop
  | _ => True

/-- Nothing is taken back: nothing is removed, and what is published is not older than what there
is. -/
structure Fresh (s : SyncLogic H) (e : Event) : Prop where
  additive : Additive pb e
  le : ∀ namePrefix session seq, e = .addLocalNames namePrefix session seq →
    s.view namePrefix ≤ (⟨session, seq⟩ : SeqNo)

/-- **Without removals no number gets smaller.** -/
theorem le_view_step {e : Event} (h : Additive pb e) (s : SyncLogic H) :
    s.view ≤ (s.step pb e).view := by
  rcases turn_cases pb s e with ⟨hquiet, -⟩ | ⟨namePrefix, session, seq, rfl⟩ | ⟨namePrefix, rfl⟩ |
    ⟨name, content, msg, rfl, hmsg, hmerges⟩
  · exact hquiet.view.ge
  · show s.view ≤ (s.addLocalNames pb namePrefix session seq).1.view
    rw [view_addLocalNames]
    exact le_update_self_iff.2 le_sup_left
  · exact absurd h not_false
  · show s.view ≤ (s.turn pb (.syncData name content)).1.view
    rw [hmerges.view, Delta.merge_eq_sup (h msg hmsg)]
    exact le_sup_left

theorem le_view_run {es : List Event} (h : ∀ e ∈ es, Additive pb e) (s : SyncLogic H) :
    s.view ≤ (run (step pb) s es).view := by
  induction es generalizing s with
  | nil => exact le_rfl
  | cons e es ih =>
    have hfirst := le_view_step pb (h e List.mem_cons_self) s
    exact hfirst.trans (ih (fun e' he' => h e' (List.mem_cons_of_mem _ he')) _)

/-- What is recorded where nothing is taken back only adds to the state. -/
theorem quiet_or_advances {s : SyncLogic H} {e : Event} (h : Fresh pb s e) :
    Quiet s (s.step pb e) ∨
      ∃ diff, Recorded diff s (s.step pb e) ∧ Delta.Advances diff.delta s.view := by
  rcases turn_cases pb s e with ⟨hquiet, -⟩ | ⟨namePrefix, session, seq, rfl⟩ | ⟨namePrefix, rfl⟩ |
    ⟨name, content, msg, rfl, hmsg, hmerges⟩
  · exact Or.inl hquiet
  · refine Or.inr ⟨_, recorded_addLocalNames pb s namePrefix session seq, ?_, ?_⟩ <;>
      rw [DiffState.delta_update]
    · intro info w hw
      rw [Function.update_apply] at hw
      split_ifs at hw with hinfo
      · cases hw
        exact hinfo ▸ h.le namePrefix session seq rfl
      · cases hw
    · intro info hdrop
      rw [Function.update_apply] at hdrop
      split_ifs at hdrop <;> cases hdrop
  · exact absurd h.additive not_false
  · obtain ⟨changes, hdelta, hrec⟩ := hmerges.recorded
    refine Or.inr ⟨changes, hrec, ?_⟩
    rw [hdelta]
    exact Delta.advances_effective (h.additive msg hmsg) _

/-- The history rises, drops nothing and does not go beyond the state. -/
structure Grown (s : SyncLogic H) : Prop where
  rising : Delta.Rising s.log.history
  le_view : ∀ d ∈ s.log.history, ∀ info v, d info = some (.set v) → v ≤ s.view info

theorem grown_init : Grown (init H perBranch) where
  rising := List.Pairwise.nil
  le_view := by simp [init]

theorem Grown.step {s : SyncLogic H} (hs : Grown s) {e : Event} (h : Fresh pb s e) :
    Grown (s.step pb e) := by
  have hle := le_view_step pb h.additive s
  rcases quiet_or_advances pb h with hquiet | ⟨diff, hrec, hadv⟩
  · constructor
    · rw [hquiet.log]
      exact hs.rising
    · rw [hquiet.log, hquiet.view]
      exact hs.le_view
  · constructor
    · rw [hrec.log, DiffLog.history_insert]
      refine Delta.rising_append_singleton.2 ⟨hs.rising, ?_⟩
      intro d hd info v w hv hw
      exact WithBot.coe_le_coe.1 ((hs.le_view d hd info v hv).trans (hadv.le_of_set info w hw))
    · rw [hrec.log, DiffLog.history_insert]
      intro d hd info v hv
      rcases List.mem_append.1 hd with hd | hd
      · exact (hs.le_view d hd info v hv).trans (hle info)
      · obtain rfl := List.mem_singleton.1 hd
        rw [hrec.view.eq_of_advances hadv, Delta.patch, hv]
        exact le_rfl

/-- **Without removals numbers only grow**, in the state and in the log. -/
theorem grown_after {es : List Event} (h : Meets (step pb) (Fresh pb) (init H perBranch) es) :
    Grown (after pb perBranch H es) :=
  (along_of_meets (fun _ _ hs h => hs.step pb h) (grown_init perBranch) h).last

/-! ## Asking and answering -/

/-- An Interest for a digest is processed as such. -/
theorem turn_normalName (s : SyncLogic H) {digest : Digest} (hd : digest.WellFormed) (now : Int) :
    s.turn pb (.syncInterest (normalName digest) now) =
      s.processSyncInterest pb (normalName digest) digest false now := by
  show s.onSyncInterest pb (normalName digest) now = _
  simp [onSyncInterest, convertNameToDigestAndType_normal hd]

/-- An Interest for the whole state is answered if its digest is in the log. -/
theorem turn_recoveryName (s : SyncLogic H) {digest : Digest} (hd : digest.WellFormed)
    (hrecalls : s.Recalls digest) (now : Int) :
    s.turn pb (.syncInterest (recoveryName digest) now) =
      s.sendSyncData pb (recoveryName digest) s.state.encode := by
  obtain ⟨i, hi⟩ := Option.isSome_iff_exists.1 hrecalls
  show s.onSyncInterest pb (recoveryName digest) now = _
  simp [onSyncInterest, convertNameToDigestAndType_recovery hd, processSyncRecoveryInterest,
    hd.hasHash, hi]

/-- **Catching up.** Who has a state that a party had once, and asks with its digest, is told
nothing if the party still has this state, and gets Data that leads him to the state the party
has now; unless his state collides with one that the party had. -/
theorem catch_up (es es' : List Event) (t : SyncLogic H) (now : Int)
    (hrising : Delta.Rising (after pb perBranch H (es ++ es')).log.history)
    (ht : t.view = (after pb perBranch H es).view) :
    let s := after pb perBranch H (es ++ es')
    let name := normalName t.state.rootDigest
    let out := (s.turn pb (.syncInterest name now)).2
    (out = [] ∧ t.view = s.view) ∨
    (∃ content, out = [.data name content] ∧
      (t.step pb (.syncData name content)).view = s.view) ∨
    ∃ earlier, earlier <+: es ++ es' ∧
      t.state.Collision (after pb perBranch H earlier).state := by
  have hwf := t.state.wellFormed_rootDigest
  have hroot : t.state.rootDigest = (after pb perBranch H es).state.rootDigest :=
    FullState.rootDigest_congr ht
  dsimp only
  rw [turn_normalName pb _ hwf]
  rcases processSyncInterest_cases pb (after pb perBranch H (es ++ es')) _ t.state.rootDigest
    false now with ⟨hzero, -, h⟩ | ⟨hsame, h⟩ | ⟨hhash, -⟩ | ⟨-, i, hfind, h⟩ | ⟨-, htimed, -⟩ |
    ⟨hunknown, -, -⟩
  · -- The digest zero: the whole state is sent
    right; left
    refine ⟨_, by rw [h, sendSyncData_snd], ?_⟩
    have hbot : t.view = ⊥ := FullState.isZero_rootDigest.1 hzero
    rw [view_step_syncData pb t (isSome_normalName hwf), decode_encodeFull, merge_asDiff, hbot,
      bot_sup_eq]
    exact (quiet_digested _).view
  · rcases FullState.view_eq_or_collision hsame.symm with hview | hcollision
    · exact Or.inl ⟨by rw [h], hview⟩
    · exact Or.inr (Or.inr ⟨_, List.prefix_rfl, hcollision⟩)
  · exact absurd hwf.hasHash hhash
  · -- A digest from the log
    right
    obtain ⟨hlt, hdigest⟩ := DiffLog.find?_eq_some hfind
    obtain ⟨earlier, hpre, hdigest', hmerge⟩ := merge_diff_after pb perBranch _ hrising hlt
    have heq : t.state.rootDigest = (after pb perBranch H earlier).state.rootDigest :=
      Option.some.inj (hdigest.symm.trans hdigest')
    rcases FullState.view_eq_or_collision heq with hview | hcollision
    · refine Or.inl ⟨_, by rw [h, sendSyncData_snd], ?_⟩
      rw [view_step_syncData pb t (isSome_normalName hwf), decode_encode]
      show Delta.merge _ t.state.view = _
      rw [hview]
      exact hmerge
    · exact Or.inr ⟨earlier, hpre, hcollision⟩
  · exact absurd htimed Bool.false_ne_true
  · -- The party has not forgotten the digest
    rcases recalls_rootDigest_of_prefix pb perBranch (List.prefix_append es es') with hbot | hrec
    · exact absurd (FullState.isZero_rootDigest.2 (ht.trans hbot)) hunknown.not_isZero
    · unfold Recalls at hrec
      rw [← hroot, hunknown.find?_eq_none] at hrec
      exact absurd hrec Bool.false_ne_true

/-- Two numbers are published; who knows the first one catches up. -/
theorem catch_up_publications :
    let es := [Event.addLocalNames "/ndn/router" 0 1]
    let es' := [Event.addLocalNames "/ndn/router" 0 2]
    let t := after wire false checksum es
    let s := after wire false checksum (es ++ es')
    let name := normalName t.state.rootDigest
    let out := (s.turn wire (.syncInterest name 0)).2
    (out = [] ∧ t.view = s.view) ∨
    (∃ content, out = [.data name content] ∧
      (t.step wire (.syncData name content)).view = s.view) ∨
    ∃ earlier, earlier <+: es ++ es' ∧
      t.state.Collision (after wire false checksum earlier).state := by
  have hfresh : Meets (step wire) (Fresh wire) (init checksum false)
      [.addLocalNames "/ndn/router" 0 1, .addLocalNames "/ndn/router" 0 2] := by
    refine ⟨⟨trivial, ?_⟩, ⟨trivial, ?_⟩, trivial⟩
    · intro namePrefix session seq _
      exact bot_le
    · intro namePrefix session seq he
      cases he
      show (addLocalNames wire _ _ _ _).1.view _ ≤ _
      rw [view_addLocalNames, Function.update_self]
      exact sup_le bot_le (WithBot.coe_le_coe.2 (by decide))
  exact catch_up wire false [_] [_] _ 0 (grown_after wire false hfresh).rising rfl

end LinkState.Sync.SyncLogic
