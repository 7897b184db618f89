import Mathlib.Data.Fintype.Basic
import LinkState.Library.Gossip
import LinkState.Sync.Network
import LinkState.Sync.Timers

/-!
# Agreement

In a network in which nothing is removed, the parties agree when each of them has for every
prefix the greatest number that was published for it (`Agreed`).

* `agreement`: parties with the same digest agree. So a party can stop asking when it sees no
  other digest.
* `can_agree`: whatever was lost or repeated, the parties can come to agree by what they send on
  their own. Someone asks with his digest; if it is unknown to the other, the other asks for
  the whole state. That is a push of what the first one knows, and enough pushes lead to
  agreement.

Both hold unless two states that were reached collide.
-/

namespace LinkState.Sync.Network

open SyncLogic

variable {ι : Type*} {H : HashFunction}

/-- Nothing is removed. -/
def NoRemovals (es : List (NetworkEvent ι)) : Prop := ∀ i namePrefix, .remove i namePrefix ∉ es

theorem NoRemovals.append {es es' : List (NetworkEvent ι)} (h : NoRemovals es)
    (h' : NoRemovals es') : NoRemovals (es ++ es') := by
  intro i namePrefix hmem
  rcases List.mem_append.1 hmem with hmem | hmem
  · exact h i namePrefix hmem
  · exact h' i namePrefix hmem

theorem NoRemovals.left {es es' : List (NetworkEvent ι)} (h : NoRemovals (es ++ es')) :
    NoRemovals es :=
  fun i namePrefix hmem => h i namePrefix (List.mem_append_left _ hmem)

theorem not_published_drop {es : List (NetworkEvent ι)} (h : NoRemovals es) (info : String) :
    ¬ Published es info .drop := by
  intro hpub
  obtain ⟨i, ⟨session, seq, -, hc⟩ | ⟨hmem, -⟩ | ⟨-, -, v, hc⟩⟩ := hpub
  · cases hc
  · exact h i info hmem
  · cases hc

/-- An event that the parties bring about on their own. -/
def Idle : NetworkEvent ι → Prop
  | .addLocalNames _ _ _ _ => False
  | .remove _ _ => False
  | _ => True

theorem noRemovals_of_idle {es : List (NetworkEvent ι)} (h : ∀ e ∈ es, Idle e) :
    NoRemovals es := by
  intro i namePrefix hmem
  exact h _ hmem

variable [DecidableEq ι] (pb : Protobuf) (perBranch : Bool)

/-! ## What parties have -/

/-- What the parties have. -/
def views (net : Network ι H) (i : ι) : String → WithBot SeqNo := (net.party i).view

/-- A state that a party was in. -/
def Had (es : List (NetworkEvent ι)) (st : FullState H) : Prop :=
  ∃ i earlier, earlier <+: (init ι H perBranch).own pb i es ∧
    st = (SyncLogic.after pb perBranch H earlier).state

/-- Two states that parties were in collide. -/
def Collides (H : HashFunction) (es : List (NetworkEvent ι)) : Prop :=
  ∃ st st' : FullState H, Had pb perBranch es st ∧ Had pb perBranch es st' ∧ st.Collision st'

theorem had_after (es : List (NetworkEvent ι)) (i : ι) :
    Had pb perBranch es ((after pb perBranch H es).party i).state :=
  ⟨i, _, List.prefix_rfl, by rw [party_after]⟩

theorem Had.append {es : List (NetworkEvent ι)} {st : FullState H} (h : Had pb perBranch es st)
    (es' : List (NetworkEvent ι)) : Had pb perBranch (es ++ es') st := by
  obtain ⟨i, earlier, hpre, rfl⟩ := h
  refine ⟨i, earlier, ?_, rfl⟩
  rw [own_append]
  exact hpre.trans (List.prefix_append _ _)

theorem Collides.append {es : List (NetworkEvent ι)} (h : Collides pb perBranch H es)
    (es' : List (NetworkEvent ι)) : Collides pb perBranch H (es ++ es') := by
  obtain ⟨st, st', hst, hst', hcollision⟩ := h
  exact ⟨st, st', hst.append pb perBranch es', hst'.append pb perBranch es', hcollision⟩

/-! ## Without removals -/

/-- What arrives removes nothing. -/
theorem additive_of_locate {es : List (NetworkEvent ι)} {e : NetworkEvent ι}
    (h : NoRemovals (es ++ [e])) {i : ι} {f : SyncLogic.Event}
    (hlocate : (after pb perBranch H es).locate e = some (i, f)) : Additive pb f := by
  have hpub : ∀ info, Brings pb f info .drop → Published (es ++ [e]) info .drop := by
    intro info hf
    exact published_of_brings pb (sound_after pb perBranch es) hlocate hf
  cases f with
  | remove namePrefix => exact not_published_drop h namePrefix (hpub namePrefix (Or.inl ⟨rfl, rfl⟩))
  | syncData name content =>
    intro msg hmsg info hdrop
    exact not_published_drop h info (hpub info ⟨msg, hmsg, hdrop⟩)
  | _ => trivial

theorem views_step_le {es : List (NetworkEvent ι)} {e : NetworkEvent ι}
    (h : NoRemovals (es ++ [e])) :
    views (after pb perBranch H es) ≤ views (after pb perBranch H (es ++ [e])) := by
  rw [after_concat]
  rcases step_cases pb (after pb perBranch H es) e with ⟨-, hstep⟩ | ⟨i, f, hlocate, hstep⟩ <;>
    rw [hstep]
  intro j
  by_cases hj : j = i
  · subst hj
    unfold views
    rw [party_act_self]
    exact le_view_step pb (additive_of_locate pb perBranch h hlocate) _
  · unfold views
    rw [party_act_of_ne pb _ hj]

/-- **Nobody loses anything.** -/
theorem views_le {es es' : List (NetworkEvent ι)} (h : NoRemovals (es ++ es')) :
    views (after pb perBranch H es) ≤ views (after pb perBranch H (es ++ es')) := by
  induction es' using List.reverseRecOn with
  | nil => rw [List.append_nil]
  | append_singleton es' e ih =>
    rw [← List.append_assoc] at h ⊢
    exact (ih h.left).trans (views_step_le pb perBranch h)

/-! ## What was published -/

/-- The numbers that were published for a prefix. -/
def publishedNumbers (es : List (NetworkEvent ι)) (info : String) : Set (WithBot SeqNo) :=
  {m | ∃ i session seq, .addLocalNames i info session seq ∈ es ∧ m = (⟨session, seq⟩ : SeqNo)}

/-- Each party has for every prefix the greatest number that was published for it. -/
def Agreed (es : List (NetworkEvent ι)) (net : Network ι H) : Prop :=
  ∀ i info, IsLUB (publishedNumbers es info) (net.views i info)

/-- Who published a number has it or a greater one. -/
theorem le_views_of_published {es : List (NetworkEvent ι)} (h : NoRemovals es) {i : ι}
    {info : String} {session seq : UInt64} (hmem : .addLocalNames i info session seq ∈ es) :
    ((⟨session, seq⟩ : SeqNo) : WithBot SeqNo) ≤ views (after pb perBranch H es) i info := by
  obtain ⟨before, later, rfl⟩ := List.append_of_mem hmem
  have hsplit : before ++ .addLocalNames i info session seq :: later =
      (before ++ [.addLocalNames i info session seq]) ++ later := by simp
  rw [hsplit] at h ⊢
  refine le_trans ?_ (views_le pb perBranch h i info)
  rw [after_concat]
  show _ ≤ ((act pb _ i (.addLocalNames info session seq)).party i).view info
  rw [party_act_self]
  show _ ≤ (SyncLogic.addLocalNames pb _ info session seq).1.view info
  rw [view_addLocalNames, Function.update_self]
  exact le_sup_right

/-- Nobody has more than what was published. -/
theorem views_le_of_published {es : List (NetworkEvent ι)} (h : NoRemovals es) {info : String}
    {b : WithBot SeqNo} (hb : b ∈ upperBounds (publishedNumbers es info)) (i : ι) :
    views (after pb perBranch H es) i info ≤ b := by
  cases hv : views (after pb perBranch H es) i info with
  | bot => exact bot_le
  | coe v =>
    obtain ⟨j, hmem | ⟨-, namePrefix, hmem⟩⟩ := no_invention pb perBranch es i info v hv
    · exact hb ⟨j, v.session, v.seq, hmem, rfl⟩
    · exact absurd hmem (h j namePrefix)

/-- **Who has the join of what the parties have agrees.** -/
theorem agreed_of_isLUB {es : List (NetworkEvent ι)} (h : NoRemovals es) {net : Network ι H}
    (hlub : ∀ i, IsLUB (Set.range (views (after pb perBranch H es))) (net.views i)) :
    Agreed es net := by
  intro i info
  have hat := isLUB_pi.1 (hlub i) info
  constructor
  · rintro _ ⟨j, session, seq, hmem, rfl⟩
    refine (le_views_of_published (H := H) pb perBranch h hmem).trans (hat.1 ?_)
    exact ⟨_, ⟨j, rfl⟩, rfl⟩
  · intro b hb
    refine hat.2 ?_
    rintro _ ⟨_, ⟨j, rfl⟩, rfl⟩
    exact views_le_of_published pb perBranch h hb j

/-- **Parties with the same digest agree**, where nothing was removed: each has for every prefix
the greatest number that was published for it by any of them. Or else two of their states
collide. -/
theorem agreement {es : List (NetworkEvent ι)} (h : NoRemovals es)
    (hsame : ∀ i j, ((after pb perBranch H es).party i).state.rootDigest =
      ((after pb perBranch H es).party j).state.rootDigest) :
    Collides pb perBranch H es ∨ Agreed es (after pb perBranch H es) := by
  by_cases hcollides : Collides pb perBranch H es
  · exact Or.inl hcollides
  · right
    apply agreed_of_isLUB pb perBranch h
    have hall : ∀ i j, views (after pb perBranch H es) i = views (after pb perBranch H es) j := by
      intro i j
      rcases FullState.view_eq_or_collision (hsame i j) with hview | hcollision
      · exact hview
      · exact absurd ⟨_, _, had_after pb perBranch es i, had_after pb perBranch es j, hcollision⟩
          hcollides
    intro i
    constructor
    · rintro _ ⟨j, rfl⟩
      exact (hall j i).le
    · intro b hb
      exact hb ⟨i, rfl⟩

/-- Both parties published the same. -/
theorem agreement_both :
    let es := [NetworkEvent.addLocalNames true "/ndn/router" 0 1,
      NetworkEvent.addLocalNames false "/ndn/router" 0 1]
    Collides wire false checksum es ∨ Agreed es (after wire false checksum es) := by
  refine agreement wire false ?_ ?_
  · intro i namePrefix
    simp
  · intro i j
    apply FullState.rootDigest_congr
    cases i <;> cases j <;> rfl

/-! ## How parties come to agree -/

/-- The parties can get to `Q` on their own. -/
def CanReach (net : Network ι H) (Q : Network ι H → Prop) : Prop :=
  ∃ es : List (NetworkEvent ι), (∀ e ∈ es, Idle e) ∧ Q (run (step pb) net es)

theorem canReach_of_act {net : Network ι H} {Q : Network ι H → Prop} {e : NetworkEvent ι} {i : ι}
    {f : SyncLogic.Event} (he : Idle e) (hlocate : net.locate e = some (i, f))
    (h : CanReach pb (net.act pb i f) Q) : CanReach pb net Q := by
  obtain ⟨es, hidle, hQ⟩ := h
  have hstep : net.step pb e = net.act pb i f := by simp [step, hlocate]
  refine ⟨e :: es, ?_, ?_⟩
  · simpa [he] using hidle
  · rw [run_cons, hstep]
    exact hQ

/-- An event of a scheduler may run. -/
theorem canReach_of_due {net : Network ι H} {Q : Network ι H → Prop} {i : ι} {id : Nat}
    {action : SyncAction} (hfind : (net.party i).scheduler.find? id = some action)
    (h : (net.party i).turn pb (.due id 0) = ((net.party i).takeEvent id).runAction pb action 0 →
      CanReach pb (net.act pb i (.due id 0)) Q) : CanReach pb net Q := by
  refine canReach_of_act pb (e := .due i id 0) trivial rfl (h ?_)
  simp [turn, hfind]

/-- What was sent may arrive. -/
theorem canReach_of_interest {net : Network ι H} {Q : Network ι H → Prop} {name : SyncName}
    (hname : name ∈ net.interests) (i : ι)
    (h : CanReach pb (net.act pb i (.syncInterest name 0)) Q) : CanReach pb net Q := by
  obtain ⟨k, hk, rfl⟩ := List.getElem_of_mem hname
  refine canReach_of_act pb (e := .interest i k 0) trivial ?_ h
  simp [locate, hk]

theorem canReach_of_data {net : Network ι H} {Q : Network ι H → Prop} {name : SyncName}
    {content : Bytes} (hdata : (name, content) ∈ net.data) (i : ι)
    (h : CanReach pb (net.act pb i (.syncData name content)) Q) : CanReach pb net Q := by
  obtain ⟨k, hk, hget⟩ := List.getElem_of_mem hdata
  refine canReach_of_act pb (e := .data i k) trivial ?_ h
  simp [locate, hk, hget]

theorem mem_interests_act {net : Network ι H} {i : ι} {f : SyncLogic.Event} {name : SyncName}
    (h : .interest name ∈ ((net.party i).turn pb f).2) : name ∈ (net.act pb i f).interests := by
  refine List.mem_append_right _ ?_
  exact List.mem_filterMap.2 ⟨_, h, rfl⟩

theorem mem_data_act {net : Network ι H} {i : ι} {f : SyncLogic.Event} {name : SyncName}
    {content : Bytes}
    (h : .data name content ∈ ((net.party i).turn pb f).2) :
    (name, content) ∈ (net.act pb i f).data := by
  refine List.mem_append_right _ ?_
  exact List.mem_filterMap.2 ⟨_, h, rfl⟩

/-- A party sends its Interest. -/
theorem canReach_express {net : Network ι H} {Q : Network ι H → Prop} {i : ι}
    (harmed : Armed (net.party i))
    (h : ∀ net' : Network ι H, Quiet (net.party i) (net'.party i) →
      (∀ k, k ≠ i → net'.party k = net.party k) →
      normalName (net.party i).state.rootDigest ∈ net'.interests → CanReach pb net' Q) :
    CanReach pb net Q := by
  obtain ⟨e, he, hsync⟩ := harmed.pending
  have hfind : (net.party i).scheduler.find? e.id = some .sendSyncInterest := by
    refine EventQueue.find?_eq_some.2 ?_
    rw [← hsync]
    exact he
  refine canReach_of_due pb hfind fun hturn => h _ ?_ ?_ ?_
  · rw [party_act_self, SyncLogic.step, hturn]
    exact (sameState_takeEvent _ _).quiet.trans (quiet_sendSyncInterest _)
  · intro k hk
    exact party_act_of_ne pb net hk _
  · apply mem_interests_act
    rw [hturn]
    show _ ∈ (sendSyncInterest _).2
    rw [sendSyncInterest_snd]
    exact List.mem_singleton_self _

/-- Who gets an Interest with an unknown digest looks at it again, and asks for the whole
state. -/
theorem canReach_ask {net : Network ι H} {Q : Network ι H → Prop} {j : ι} {digest : Digest}
    (hd : digest.WellFormed) (hname : normalName digest ∈ net.interests)
    (hunknown : Unknown (net.party j) digest)
    (h : ∀ net' : Network ι H, Quiet (net.party j) (net'.party j) →
      (∀ k, k ≠ j → net'.party k = net.party k) →
      recoveryName digest ∈ net'.interests → CanReach pb net' Q) : CanReach pb net Q := by
  apply canReach_of_interest pb hname j
  -- The Interest is kept, and a second look is scheduled
  have hturn : (net.party j).turn pb (.syncInterest (normalName digest) 0) =
      ((net.party j).digested.delayInterest (normalName digest) digest 0, []) := by
    rw [turn_normalName pb _ hd, processSyncInterest_of_unknown pb _ hunknown]
    simp
  have hparty : ((net.act pb j (.syncInterest (normalName digest) 0)).party j) =
      (net.party j).digested.delayInterest (normalName digest) digest 0 := by
    rw [party_act_self, SyncLogic.step, hturn]
  have hquiet : Quiet (net.party j)
      ((net.act pb j (.syncInterest (normalName digest) 0)).party j) := by
    rw [hparty]
    exact (quiet_digested _).trans (quiet_delayInterest _ _ _ _)
  have hothers : ∀ k, k ≠ j →
      (net.act pb j (.syncInterest (normalName digest) 0)).party k = net.party k :=
    fun k hk => party_act_of_ne pb net hk _
  generalize net.act pb j (.syncInterest (normalName digest) 0) = net' at *
  obtain ⟨id, hfind⟩ : ∃ id, (net'.party j).scheduler.find? id =
      some (.processSyncInterest (normalName digest) digest) := by
    rw [hparty]
    exact ⟨_, EventQueue.find?_eq_some.2 (EventQueue.mem_scheduleEvent.2 (Or.inr rfl))⟩
  have hunknown' : Unknown ((net'.party j).takeEvent id) digest :=
    hunknown.quiet (hquiet.trans (sameState_takeEvent _ _).quiet)
  refine canReach_of_due pb hfind fun hturn' => h _ ?_ ?_ ?_
  · rw [party_act_self, SyncLogic.step, hturn']
    exact (hquiet.trans (sameState_takeEvent _ _).quiet).trans
      (quiet_processSyncInterest pb _ _ _ _ _)
  · intro k hk
    rw [party_act_of_ne pb net' hk, hothers k hk]
  · apply mem_interests_act
    rw [hturn']
    show _ ∈ (processSyncInterest pb _ (normalName digest) digest true 0).2
    rw [processSyncInterest_of_unknown pb _ hunknown', if_pos rfl, sendSyncRecoveryInterests_snd]
    exact List.mem_singleton_self _

/-- Who is asked for the whole state by a digest of his sends it, and it arrives. -/
theorem canReach_recover {net : Network ι H} {i j : ι} (hij : i ≠ j) {digest : Digest}
    (hd : digest.WellFormed) (hname : recoveryName digest ∈ net.interests)
    (hrecalls : (net.party i).Recalls digest) :
    CanReach pb net fun net' =>
      net'.views = Function.update net.views j (net.views j ⊔ net.views i) := by
  apply canReach_of_interest pb hname i
  have hturn := turn_recoveryName pb (net.party i) hd hrecalls 0
  have hdata : (recoveryName digest, pb.serialize (net.party i).state.encode) ∈
      (net.act pb i (.syncInterest (recoveryName digest) 0)).data := by
    apply mem_data_act
    rw [hturn, sendSyncData_snd]
    exact List.mem_singleton_self _
  have hquiet : Quiet (net.party i)
      ((net.act pb i (.syncInterest (recoveryName digest) 0)).party i) := by
    rw [party_act_self, SyncLogic.step, hturn]
    exact quiet_sendSyncData pb _ _ _
  have hothers : ∀ k, k ≠ i →
      (net.act pb i (.syncInterest (recoveryName digest) 0)).party k = net.party k :=
    fun k hk => party_act_of_ne pb net hk _
  generalize net.act pb i (.syncInterest (recoveryName digest) 0) = net' at *
  apply canReach_of_data pb hdata j
  refine ⟨[], by simp, ?_⟩
  have hviews : net'.views = net.views := by
    funext k
    by_cases hk : k = i
    · subst hk
      exact hquiet.view
    · exact congrArg SyncLogic.view (hothers k hk)
  funext k
  by_cases hk : k = j
  · subst hk
    rw [Function.update_self]
    show ((net'.act pb k _).party k).view = _
    rw [party_act_self, view_step_syncData pb _ (isSome_recoveryName hd), decode_encodeFull,
      merge_asDiff]
    show net'.views k ⊔ net.views i = _
    rw [hviews]
  · rw [Function.update_of_ne hk]
    show ((net'.act pb j _).party k).view = _
    rw [party_act_of_ne pb net' hk]
    exact congrFun hviews k

/-- **One party can learn all that another one knows.** If the other's digest is unknown to it, it
gets the whole state. -/
theorem canReach_push {net : Network ι H} {i j : ι} (hij : i ≠ j) (harmed : Armed (net.party i))
    (hrecalls : (net.party i).Recalls (net.party i).state.rootDigest)
    (hunknown : Unknown (net.party j) (net.party i).state.rootDigest) :
    CanReach pb net fun net' =>
      net'.views = Function.update net.views j (net.views j ⊔ net.views i) := by
  have hd := (net.party i).state.wellFormed_rootDigest
  apply canReach_express pb harmed
  intro net₁ hquiet₁ hothers₁ hname₁
  have hunknown₁ : Unknown (net₁.party j) (net.party i).state.rootDigest := by
    rw [hothers₁ j hij.symm]
    exact hunknown
  apply canReach_ask pb hd hname₁ hunknown₁
  intro net₂ hquiet₂ hothers₂ hname₂
  have hparty : net₂.party i = net₁.party i := hothers₂ i hij
  have hrecalls₂ : (net₂.party i).Recalls (net.party i).state.rootDigest := by
    unfold Recalls
    rw [hparty, hquiet₁.log]
    exact hrecalls
  have hviews : net₂.views = net.views := by
    funext k
    by_cases hi : k = i
    · subst hi
      exact (congrArg SyncLogic.view hparty).trans hquiet₁.view
    · by_cases hj : k = j
      · subst hj
        exact hquiet₂.view.trans (congrArg SyncLogic.view (hothers₁ k hi))
      · exact congrArg SyncLogic.view ((hothers₂ k hj).trans (hothers₁ k hi))
  rw [← hviews]
  exact canReach_recover pb hij hd hname₂ hrecalls₂

/-- What happens to a party removes nothing. -/
theorem additive_own {es : List (NetworkEvent ι)} (h : NoRemovals es) (i : ι) :
    ∀ f ∈ (init ι H perBranch).own pb i es, Additive pb f := by
  induction es using List.reverseRecOn with
  | nil => simp [own]
  | append_singleton es e ih =>
    intro f hf
    rw [own_append] at hf
    rcases List.mem_append.1 hf with hf | hf
    · exact ih h.left f hf
    · change f ∈ ownEvent (after pb perBranch H es) i e ++ [] at hf
      rw [List.append_nil] at hf
      unfold ownEvent at hf
      cases hlocate : (after pb perBranch H es).locate e with
      | none => simp [hlocate] at hf
      | some r =>
        obtain ⟨j, g⟩ := r
        simp only [hlocate] at hf
        split_ifs at hf
        · obtain rfl := List.mem_singleton.1 hf
          exact additive_of_locate pb perBranch h hlocate
        · simp at hf

/-- **Whose digest is known has nothing that is not known.** -/
theorem views_le_of_not_unknown {es : List (NetworkEvent ι)} (h : NoRemovals es) {i j : ι}
    (hknown : ¬ Unknown ((after pb perBranch H es).party j)
      ((after pb perBranch H es).party i).state.rootDigest) :
    Collides pb perBranch H es ∨
      views (after pb perBranch H es) i ≤ views (after pb perBranch H es) j := by
  have hi := had_after (H := H) pb perBranch es i
  by_cases hzero : ((after pb perBranch H es).party i).state.rootDigest.isZero
  · right
    have hbot : views (after pb perBranch H es) i = ⊥ := FullState.isZero_rootDigest.1 hzero
    rw [hbot]
    exact bot_le
  by_cases hroot : ((after pb perBranch H es).party j).state.rootDigest =
      ((after pb perBranch H es).party i).state.rootDigest
  · rcases FullState.view_eq_or_collision hroot with hview | hcollision
    · exact Or.inr hview.ge
    · exact Or.inl ⟨_, _, had_after pb perBranch es j, hi, hcollision⟩
  · -- The digest is that of an earlier state
    obtain ⟨k, hk⟩ : ∃ k, ((after pb perBranch H es).party j).log.find?
        ((after pb perBranch H es).party i).state.rootDigest = some k := by
      refine Option.isSome_iff_exists.1 (Option.isSome_iff_ne_none.2 fun hnone => ?_)
      exact hknown ⟨hroot, (FullState.wellFormed_rootDigest _).hasHash, hnone, hzero⟩
    rw [party_after pb perBranch es j] at hk
    obtain ⟨hlt, hdigest⟩ := DiffLog.find?_eq_some hk
    obtain ⟨earlier, hpre, -, hdigest'⟩ := log_after pb perBranch _ hlt
    have heq : ((after pb perBranch H es).party i).state.rootDigest =
        (SyncLogic.after pb perBranch H earlier).state.rootDigest :=
      Option.some.inj (hdigest.symm.trans hdigest')
    rcases FullState.view_eq_or_collision heq with hview | hcollision
    · right
      have hadditive := additive_own (H := H) pb perBranch h j
      obtain ⟨later, hown⟩ := hpre
      show ((after pb perBranch H es).party i).view ≤ ((after pb perBranch H es).party j).view
      rw [party_after pb perBranch es j, ← hown, SyncLogic.after_append]
      refine hview.le.trans (le_view_run pb ?_ _)
      intro f hf
      exact hadditive f (by rw [← hown]; exact List.mem_append_right _ hf)
    · exact Or.inl ⟨_, _, hi, ⟨j, earlier, hpre, rfl⟩, hcollision⟩

/-- Every party can push what it knows to every other. -/
theorem push_after {es : List (NetworkEvent ι)} (h : NoRemovals es) (p : ι × ι) :
    ∃ es' : List (NetworkEvent ι), (∀ e ∈ es', Idle e) ∧
      (Collides pb perBranch H (es ++ es') ∨
        Push p (views (after pb perBranch H es)) (views (after pb perBranch H (es ++ es')))) := by
  obtain ⟨i, j⟩ := p
  by_cases hle : views (after pb perBranch H es) i ≤ views (after pb perBranch H es) j
  · refine ⟨[], by simp, Or.inr ?_⟩
    rw [List.append_nil]
    exact ⟨Spread.refl _, hle⟩
  by_cases hunknown : Unknown ((after pb perBranch H es).party j)
      ((after pb perBranch H es).party i).state.rootDigest
  · have hij : i ≠ j := by
      rintro rfl
      exact hle le_rfl
    have harmed : Armed ((after pb perBranch H es).party i) := by
      rw [party_after]
      exact armed_after pb perBranch _
    have hrecalls : ((after pb perBranch H es).party i).Recalls
        ((after pb perBranch H es).party i).state.rootDigest := by
      have hor := empty_or_recalls (H := H) pb perBranch ((init ι H perBranch).own pb i es)
      rw [← party_after] at hor
      refine hor.resolve_left fun hbot => hle ?_
      show ((after pb perBranch H es).party i).view ≤ _
      rw [hbot]
      exact bot_le
    obtain ⟨es', hidle, hviews⟩ := canReach_push pb hij harmed hrecalls hunknown
    have hrun : run (step pb) (after pb perBranch H es) es' = after pb perBranch H (es ++ es') :=
      (run_append _ _ _ _).symm
    rw [hrun] at hviews
    refine ⟨es', hidle, Or.inr ⟨⟨?_, ?_⟩, ?_⟩⟩ <;> rw [hviews]
    · exact le_update_self_iff.2 le_sup_left
    · intro b hb k
      by_cases hk : k = j
      · subst hk
        rw [Function.update_self]
        exact sup_le (hb k) (hb i)
      · rw [Function.update_of_ne hk]
        exact hb k
    · dsimp only
      rw [Function.update_self]
      exact le_sup_right
  · refine ⟨[], by simp, Or.inl ?_⟩
    rw [List.append_nil]
    exact (views_le_of_not_unknown pb perBranch h hunknown).resolve_right hle

theorem pushes_after (ps : List (ι × ι)) {es : List (NetworkEvent ι)} (h : NoRemovals es) :
    ∃ es' : List (NetworkEvent ι), (∀ e ∈ es', Idle e) ∧
      (Collides pb perBranch H (es ++ es') ∨
        Pushes ps (views (after pb perBranch H es))
          (views (after pb perBranch H (es ++ es')))) := by
  induction ps generalizing es with
  | nil =>
    refine ⟨[], by simp, Or.inr ?_⟩
    rw [List.append_nil]
    exact Pushes.nil _
  | cons p ps ih =>
    obtain ⟨es₁, hidle₁, h₁⟩ := push_after (H := H) pb perBranch h p
    obtain ⟨es₂, hidle₂, h₂⟩ := ih (h.append (noRemovals_of_idle hidle₁))
    refine ⟨es₁ ++ es₂, ?_, ?_⟩
    · intro e he
      rcases List.mem_append.1 he with he | he
      · exact hidle₁ e he
      · exact hidle₂ e he
    · rw [← List.append_assoc]
      rcases h₁ with hcollides | hpush
      · exact Or.inl (hcollides.append pb perBranch es₂)
      · exact h₂.imp_right fun hpushes => Pushes.cons hpush hpushes

/-- All parties can get what any of them has. -/
theorem exists_isLUB [Fintype ι] {es : List (NetworkEvent ι)} (h : NoRemovals es) :
    ∃ es' : List (NetworkEvent ι), (∀ e ∈ es', Idle e) ∧
      (Collides pb perBranch H (es ++ es') ∨ ∀ i,
        IsLUB (Set.range (views (after pb perBranch H es)))
          (views (after pb perBranch H (es ++ es')) i)) := by
  rcases isEmpty_or_nonempty ι with hempty | ⟨⟨hub⟩⟩
  · exact ⟨[], by simp, Or.inr fun i => hempty.elim i⟩
  · obtain ⟨es', hidle, hpushes⟩ := pushes_after (H := H) pb perBranch
      ((Finset.univ : Finset ι).toList.map (·, hub) ++ Finset.univ.toList.map (hub, ·)) h
    refine ⟨es', hidle, hpushes.imp_right fun hpushes => ?_⟩
    exact isLUB_of_pushes (fun i => Finset.mem_toList.2 (Finset.mem_univ i)) hpushes

/-- **The parties can always come to agree.** After any run of the network without removals,
whatever was lost, repeated or mixed up, the parties have a way to agree by what they send on
their own; or else two of their states collide. -/
theorem can_agree [Fintype ι] {es : List (NetworkEvent ι)} (h : NoRemovals es) :
    ∃ es' : List (NetworkEvent ι), (∀ e ∈ es', Idle e) ∧
      (Collides pb perBranch H (es ++ es') ∨ Agreed es (after pb perBranch H (es ++ es'))) := by
  obtain ⟨es', hidle, hlub⟩ := exists_isLUB (H := H) pb perBranch h
  exact ⟨es', hidle, hlub.imp_right (agreed_of_isLUB pb perBranch h)⟩

/-- Two parties that have not heard of each other. -/
theorem can_agree_two :
    let es := [NetworkEvent.addLocalNames true "/ndn/router-1" 0 1,
      NetworkEvent.addLocalNames false "/ndn/router-2" 0 1]
    ∃ es' : List (NetworkEvent Bool), (∀ e ∈ es', Idle e) ∧
      (Collides wire false checksum (es ++ es') ∨
        Agreed es (after wire false checksum (es ++ es'))) := by
  refine can_agree wire false ?_
  intro i namePrefix
  simp

end LinkState.Sync.Network
