import LinkState.Exchange
import LinkState.PlainText
import LinkState.Router

/-!
# What a Data packet may change

The name of an LSA Data packet is what its signer is checked against; what is installed is read
from the content. `speaksFor_iff`: a packet changes nothing but the LSA it is named after, and
that to its own number, exactly if the content, where it comes to be installed, has the origin and
the number of the name.

Nothing compares the two: a packet of one router can replace the LSA of another one
(`not_speaksFor`).
-/

namespace LinkState

namespace Nlsr

open SequencingManager

/-- From one state to the other at most the LSA of a kind and an origin has changed, and if it has,
it has the number. -/
structure SpeaksFor (s t : Nlsr) (origin : Name) (kind seqNo : Component) : Prop where
  others : ∀ c o, ¬ (c.component = kind ∧ o = origin) → t.lsaOf c o = s.lsaOf c o
  named : ∀ c, t.lsaOf c origin ≠ s.lsaOf c origin →
    ∃ l, t.lsaOf c origin = some l ∧ seqNo.toNumber = some l.lsSeqNo.toUInt64
  entries : ∀ n o, o ≠ origin → (t.origins n).find? o = (s.origins n).find? o

theorem speaksFor_refl (s : Nlsr) (origin : Name) (kind seqNo : Component) :
    SpeaksFor s s origin kind seqNo where
  others _ _ _ := rfl
  named _ h := absurd rfl h
  entries _ _ _ := rfl

/-- An install of the LSA changes the database: there is none yet, or an older one. -/
def Takes (s : Nlsr) (l : AnyLsa) : Prop :=
  ∀ chk, s.lsaOf l.counter l.origRouter = some chk → chk.lsSeqNo < l.lsSeqNo

/-- The content of the Data speaks in the name of the Data: if an LSA comes to be installed, it has
the origin and the number that the name says. -/
def SpeaksInName (lib : TextLib) (s : Nlsr) (dataName origin : Name) (dataContent : Text) : Prop :=
  ∀ id l, s.lsaIdOf dataName 3 = some id → s.isLsaNew id = true →
    AnyLsa.initializeFromContent lib dataContent id.kind = .ok l → s.Takes l →
      l.origRouter = origin ∧ l.lsSeqNo.toUInt64 = id.seqNo

/-- An install that takes nothing changes nothing. -/
theorem install_of_not_takes {s : Nlsr} {l : AnyLsa} (h : ¬ s.Takes l) : s.install l = s := by
  unfold Takes at h
  push Not at h
  obtain ⟨chk, hchk, hlt⟩ := h
  cases l with
  | name l =>
    obtain ⟨chk', hfind, rfl⟩ := Option.map_eq_some_iff.1 hchk
    exact installNameLsa_of_not_newer hfind hlt
  | adj l =>
    obtain ⟨chk', hfind, rfl⟩ := Option.map_eq_some_iff.1 hchk
    exact installAdjLsa_of_not_newer hfind hlt
  | coordinate l =>
    obtain ⟨chk', hfind, rfl⟩ := Option.map_eq_some_iff.1 hchk
    exact installCoordinateLsa_of_not_newer hfind hlt

/-- An install that takes the LSA leaves one with its number, where there was none such. -/
theorem lsaOf_install_of_takes {s : Nlsr} {l : AnyLsa} (h : s.Takes l) :
    ∃ l', (s.install l).lsaOf l.counter l.origRouter = some l' ∧ l'.lsSeqNo = l.lsSeqNo ∧
      s.lsaOf l.counter l.origRouter ≠ some l' := by
  obtain ⟨eid, hinst⟩ := lsaOf_install s l
  rw [hinst, if_pos ⟨rfl, rfl⟩]
  refine ⟨_, rfl, ?_⟩
  cases hchk : s.lsaOf l.counter l.origRouter with
  | none => exact ⟨rfl, nofun⟩
  | some chk =>
    have hlt := UInt32.lt_iff_toNat_lt.1 (h chk hchk)
    have hseq : (chk.updated l eid).lsSeqNo = l.lsSeqNo :=
      AnyLsa.lsSeqNo_updated (counter_of_lsaOf hchk).symm eid
    simp only [afterOffer, if_pos hlt]
    refine ⟨hseq, fun heq => ?_⟩
    rw [← Option.some.inj heq] at hseq
    exact hlt.ne (congrArg UInt32.toNat hseq)

/-- An install changes the LSA of its own kind and origin only. -/
theorem lsaOf_install_ne {s : Nlsr} {l : AnyLsa} {c : Counter} {o : Name}
    (h : ¬ (c = l.counter ∧ o = l.origRouter)) : (s.install l).lsaOf c o = s.lsaOf c o := by
  obtain ⟨eid, hinst⟩ := lsaOf_install s l
  rw [hinst, if_neg h]

theorem origins_install {s : Nlsr} {l : AnyLsa} {o : Name} (h : o ≠ l.origRouter) (n : Name) :
    ((s.install l).origins n).find? o = (s.origins n).find? o := by
  obtain ⟨_, _, hedits, hadded, hremoved⟩ := exists_edits_install_origin s l
  refine hedits.origins_eq (fun p hp hpo => ?_) (fun p hp hpo => ?_) n
  · exact h (hpo.symm.trans (hadded p hp))
  · exact h (hpo.symm.trans (hremoved p hp))

/-- An install speaks for what it is named after exactly if it takes nothing else. -/
theorem speaksFor_install_iff {s : Nlsr} {l : AnyLsa} {origin : Name} {kind seqNo : Component}
    (hkind : l.counter.component = kind) :
    SpeaksFor s (s.install l) origin kind seqNo ↔
      (s.Takes l → l.origRouter = origin ∧ seqNo.toNumber = some l.lsSeqNo.toUInt64) := by
  constructor
  · intro h htakes
    obtain ⟨l', hl', hseq, hnew⟩ := lsaOf_install_of_takes htakes
    have hne : (s.install l).lsaOf l.counter l.origRouter ≠ s.lsaOf l.counter l.origRouter :=
      fun heq => hnew (heq.symm.trans hl')
    have horigin : l.origRouter = origin := by
      by_contra ho
      exact hne (h.others _ _ fun hc => ho hc.2)
    subst horigin
    obtain ⟨l'', hl'', hnumber⟩ := h.named _ hne
    obtain rfl : l' = l'' := Option.some.inj (hl'.symm.trans hl'')
    exact ⟨rfl, hseq ▸ hnumber⟩
  · intro h
    by_cases htakes : s.Takes l
    · obtain ⟨rfl, hnumber⟩ := h htakes
      obtain ⟨l', hl', hseq, -⟩ := lsaOf_install_of_takes htakes
      refine ⟨fun c o hco => lsaOf_install_ne fun hl => hco ⟨hl.1 ▸ hkind, hl.2⟩, fun c hne => ?_,
        fun n o ho => origins_install ho n⟩
      have hc : c = l.counter := by
        by_contra hc
        exact hne (lsaOf_install_ne fun hl => hc hl.1)
      exact ⟨l', hc ▸ hl', hseq.symm ▸ hnumber⟩
    · rw [install_of_not_takes htakes]
      exact speaksFor_refl ..

/-- The kind and the number that are read off the name of an LSA. -/
theorem kind_seqNo_of_lsaIdOf {s : Nlsr} {router : Name} {kind seqNo version : Component}
    {id : LsaId} (h : s.lsaIdOf (lsaName s.confParam router kind seqNo [version]) 3 = some id) :
    id.kind.component = kind ∧ seqNo.toNumber = some id.seqNo := by
  have hseq : fromEnd (lsaName s.confParam router kind seqNo [version]) 2 = some seqNo := by
    simp [fromEnd, lsaName]
  have hkind : fromEnd (lsaName s.confParam router kind seqNo [version]) 3 = some kind := by
    simp [fromEnd, lsaName]
  unfold lsaIdOf at h
  rw [hseq, hkind] at h
  simp only [Option.bind_eq_bind, Option.bind_some, Option.pure_def, Option.bind_eq_some_iff] at h
  obtain ⟨lsaPosition, -, n, hn, c, hc, hid⟩ := h
  cases hid
  exact ⟨(Counter.ofComponent_eq_some.1 hc).symm, hn⟩

/-- **A Data packet speaks for its own name** exactly if its content does. -/
theorem speaksFor_iff (lib : TextLib) (s : Nlsr) (router : Name) (kind seqNo version : Component)
    (dataContent : Text) :
    let dataName := lsaName s.confParam router kind seqNo [version]
    SpeaksFor s (s.onContentValidated lib dataName dataContent)
        (s.confParam.network ++ router) kind seqNo ↔
      s.SpeaksInName lib dataName (s.confParam.network ++ router) dataContent := by
  intro dataName
  rw [onContentValidated_eq]
  unfold SpeaksInName
  cases hid : s.lsaIdOf dataName 3 with
  | none => exact iff_of_true (speaksFor_refl ..) nofun
  | some id =>
    obtain ⟨hkind, hnumber⟩ := kind_seqNo_of_lsaIdOf hid
    dsimp only
    unfold processContent
    by_cases hnew : s.isLsaNew id = true
    · rw [if_pos hnew]
      cases hread : AnyLsa.initializeFromContent lib dataContent id.kind with
      | error e =>
        refine iff_of_true (speaksFor_refl ..) fun id' l hid' _ hl => ?_
        cases hid'
        rw [hread] at hl
        cases hl
      | ok l =>
        have hcounter := AnyLsa.counter_of_initializeFromContent hread
        dsimp only
        rw [speaksFor_install_iff (hcounter ▸ hkind), hnumber]
        constructor
        · intro h id' l' hid' _ hl htakes
          cases hid'
          rw [hread] at hl
          cases hl
          exact (h htakes).imp_right fun hs => (Option.some.inj hs).symm
        · intro h htakes
          exact (h id l rfl hnew hread htakes).imp_right fun hs => congrArg some hs.symm
    · rw [if_neg hnew]
      refine iff_of_true (speaksFor_refl ..) fun id' l hid' hnew' => ?_
      cases hid'
      exact absurd hnew' hnew

/-- The content of a Data packet of the router `/a/b`: a Name LSA of the router `/a`. -/
def inNameOfA : Text := "/a|name|7|19700101T010000|0|".toList

/-- **A packet of another router replaces this router's own LSA.** -/
theorem not_speaksFor :
    let s := (start { network := [⟨"a"⟩] } KeyedList.empty KeyedList.empty none 0).initializeNlsr
    let one := Component.fromNumber 1
    ¬ SpeaksFor s (s.onContentValidated plainText
        (lsaName s.confParam [⟨"b"⟩] (Counter.component .name) one [one]) inNameOfA)
      (s.confParam.network ++ [⟨"b"⟩]) (Counter.component .name) one := by
  intro s one h
  have hother := h.others .name s.routerPrefix (by decide +kernel)
  have hbefore : (s.lsaOf .name s.routerPrefix).map AnyLsa.lsSeqNo = some 1 := by decide +kernel
  have hafter : ((s.onContentValidated plainText
      (lsaName s.confParam [⟨"b"⟩] (Counter.component .name) one [one]) inNameOfA).lsaOf .name
        s.routerPrefix).map AnyLsa.lsSeqNo = some 7 := by decide +kernel
  rw [hother, hbefore] at hafter
  exact absurd hafter (by decide)

end Nlsr

end LinkState
