import LinkState.Sync.History

/-!
# The root digest goes forward only

Updates only ever raise a number, but a removal takes a prefix back. So that no old digest comes
up again, each removal raises the number of a leaf of its own, the forwarder.

States are compared by the number of the forwarder first, and then prefix by prefix (`Behind`).
`behind_step`: no step goes back in this order, as long as the forwarder itself is not removed,
its number has not come to the end, and removals are received together with a new number of the
forwarder (`Forward`). So a digest that was left never comes up again (`forward_only`).
-/

namespace LinkState.Sync.SyncLogic

variable {H : HashFunction} (pb : Protobuf) (perBranch : Bool)

/-- The forwarder has a smaller number, or no prefix has a greater one. -/
def Behind (m m' : String → WithBot SeqNo) : Prop :=
  m forwarderPrefix < m' forwarderPrefix ∨ m ≤ m'

theorem Behind.le_forwarder {m m' : String → WithBot SeqNo} (h : Behind m m') :
    m forwarderPrefix ≤ m' forwarderPrefix := by
  rcases h with h | h
  · exact h.le
  · exact h forwarderPrefix

theorem Behind.trans {m m' m'' : String → WithBot SeqNo} (h : Behind m m') (h' : Behind m' m'') :
    Behind m m'' := by
  rcases h with hlt | hle
  · exact Or.inl (hlt.trans_le h'.le_forwarder)
  · rcases h' with hlt' | hle'
    · exact Or.inl ((hle forwarderPrefix).trans_lt hlt')
    · exact Or.inr (hle.trans hle')

theorem Behind.antisymm {m m' : String → WithBot SeqNo} (h : Behind m m') (h' : Behind m' m) :
    m = m' := by
  rcases h with hlt | hle
  · exact absurd h'.le_forwarder hlt.not_ge
  · rcases h' with hlt' | hle'
    · exact absurd (hle forwarderPrefix) hlt'.not_ge
    · exact le_antisymm hle hle'

/-- A removal leaves the forwarder, which can still count it; and one that is received comes with
a new number of the forwarder. -/
def Forward (s : SyncLogic H) : Event → Prop
  | .remove namePrefix => namePrefix ≠ forwarderPrefix ∧
      ∀ v : SeqNo, s.view forwarderPrefix = v → v.seq.toNat + 1 < 2 ^ 64
  | .syncData _ content => ∀ msg, pb.parse content = some msg →
      ∀ info, (decode msg).delta info = some .drop → s.view info ≠ ⊥ →
        ∃ v : SeqNo, (decode msg).delta forwarderPrefix = some (.set v) ∧
          s.view forwarderPrefix < v
  | _ => True

/-- A removal that can be counted raises the number of the forwarder. -/
theorem lt_forwarderSeq (state : FullState H)
    (h : ∀ v : SeqNo, state.view forwarderPrefix = v → v.seq.toNat + 1 < 2 ^ 64) :
    state.view forwarderPrefix < forwarderSeq state := by
  unfold forwarderSeq
  cases hfind : state.leaves.find? forwarderPrefix with
  | none =>
    rw [FullState.view_of_find?_none hfind]
    exact WithBot.bot_lt_coe _
  | some item =>
    have hview := FullState.view_of_find? hfind
    have hlt := h _ hview
    rw [hview, WithBot.coe_lt_coe]
    have hsession : item.seq.session = (SeqNo.increment (some item.seq)).session := rfl
    rw [SeqNo.lt_iff_of_session_eq hsession]
    show item.seq.seq.toNat < (item.seq.seq + 1).toNat
    rw [UInt64.toNat_add, UInt64.toNat_one, Nat.mod_eq_of_lt hlt]
    exact Nat.lt_succ_self _

theorem behind_remove (s : SyncLogic H) {namePrefix : String}
    (h : Forward pb s (.remove namePrefix)) :
    Behind s.view (s.remove pb namePrefix).1.view := by
  obtain ⟨hne, hroom⟩ := h
  have hkeep : (s.state.remove namePrefix).1.view forwarderPrefix = s.view forwarderPrefix := by
    rw [FullState.view_remove, Function.update_of_ne hne.symm]
    rfl
  have hlt := lt_forwarderSeq (s.state.remove namePrefix).1
    (fun v hv => hroom v (hkeep.symm.trans hv))
  left
  rw [view_remove, Function.update_self, Function.update_of_ne hne.symm]
  rw [hkeep] at hlt
  exact lt_of_lt_of_le hlt le_sup_right

theorem behind_merge {s : SyncLogic H} {d : Delta String SeqNo}
    (h : ∀ info, d info = some .drop → s.view info ≠ ⊥ →
      ∃ v : SeqNo, d forwarderPrefix = some (.set v) ∧ s.view forwarderPrefix < v) :
    Behind s.view (Delta.merge d s.view) := by
  by_cases hdrop : ∃ info, d info = some .drop ∧ s.view info ≠ ⊥
  · obtain ⟨info, hinfo, hne⟩ := hdrop
    obtain ⟨v, hv, hlt⟩ := h info hinfo hne
    left
    rw [Delta.merge_of_set _ hv]
    exact lt_of_lt_of_le hlt le_sup_right
  · right
    intro info
    cases hd : d info with
    | none => rw [Delta.merge_of_none _ hd]
    | some c =>
      cases c with
      | drop =>
        have hbot : s.view info = ⊥ := by
          by_contra hne
          exact hdrop ⟨info, hd, hne⟩
        rw [hbot]
        exact bot_le
      | set v =>
        rw [Delta.merge_of_set _ hd]
        exact le_sup_left

/-- **No step goes back.** -/
theorem behind_step {s : SyncLogic H} {e : Event} (h : Forward pb s e) :
    Behind s.view (s.step pb e).view := by
  rcases turn_cases pb s e with ⟨hquiet, -⟩ | ⟨namePrefix, session, seq, rfl⟩ | ⟨namePrefix, rfl⟩ |
    ⟨name, content, msg, rfl, hmsg, hmerges⟩
  · exact Or.inr hquiet.view.ge
  · right
    show s.view ≤ (s.addLocalNames pb namePrefix session seq).1.view
    rw [view_addLocalNames]
    intro info
    by_cases hinfo : info = namePrefix
    · subst hinfo
      rw [Function.update_self]
      exact le_sup_left
    · rw [Function.update_of_ne hinfo]
  · exact behind_remove pb s h
  · show Behind s.view (s.turn pb (.syncData name content)).1.view
    rw [hmerges.view]
    exact behind_merge (h msg hmsg)

theorem behind_run {s : SyncLogic H} {es : List Event} (h : Meets (step pb) (Forward pb) s es) :
    Behind s.view (run (step pb) s es).view := by
  induction es generalizing s with
  | nil => exact Or.inr le_rfl
  | cons e es ih => exact (behind_step pb h.1).trans (ih h.2)

/-- **A digest that was left never comes up again.** If a party has a digest that it had before,
its state has been the same all the time, or two of its states collide. -/
theorem forward_only (es es' es'' : List Event)
    (h : Meets (step pb) (Forward pb) (init H perBranch) (es ++ (es' ++ es'')))
    (heq : (after pb perBranch H es).state.rootDigest =
      (after pb perBranch H (es ++ (es' ++ es''))).state.rootDigest) :
    (after pb perBranch H (es ++ es')).view = (after pb perBranch H es).view ∨
      FullState.Collision (after pb perBranch H es).state
        (after pb perBranch H (es ++ (es' ++ es''))).state := by
  obtain ⟨-, hlater⟩ := meets_append.1 h
  obtain ⟨hmid, hend⟩ := meets_append.1 hlater
  have hgo := behind_run pb hmid
  have hcome := behind_run pb hend
  rcases FullState.view_eq_or_collision heq with hview | hcollision
  · left
    rw [after_append]
    change (after pb perBranch H es).view =
      (after pb perBranch H (es ++ (es' ++ es''))).view at hview
    rw [after_append, run_append] at hview
    change Behind _ (run (step pb) (run (step pb) (after pb perBranch H es) es') es'').view at hcome
    rw [← hview] at hcome
    exact hcome.antisymm hgo
  · exact Or.inr hcollision

/-- After a removal, which can be counted, an Interest is expressed. -/
theorem forward_only_expressed :
    let es := [Event.addLocalNames "/ndn/router" 0 1, Event.remove "/ndn/router"]
    let es' := [Event.due 0 0]
    let es'' := [Event.expireInterests 0]
    (after wire false checksum (es ++ es')).view = (after wire false checksum es).view ∨
      FullState.Collision (after wire false checksum es).state
        (after wire false checksum (es ++ (es' ++ es''))).state := by
  have hroom : ∀ v : SeqNo,
      (after wire false checksum [.addLocalNames "/ndn/router" 0 1]).view forwarderPrefix = v →
        v.seq.toNat + 1 < 2 ^ 64 := by
    intro v hv
    rw [show after wire false checksum _ = (addLocalNames wire (init checksum false) _ _ _).1
      from rfl, view_addLocalNames, Function.update_of_ne (by decide)] at hv
    exact absurd hv WithBot.bot_ne_coe
  refine forward_only wire false [_, _] [_] [_] ?_ (FullState.rootDigest_congr ?_)
  · exact ⟨trivial, ⟨by decide, hroom⟩, trivial, trivial, trivial⟩
  · exact (quiet_sendSyncInterest (takeEvent _ 0)).view.symm

end LinkState.Sync.SyncLogic
