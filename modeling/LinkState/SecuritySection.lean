import LinkState.ConfFile

/-!
# The grammar of the security section

A security section is a validator, then at most one validator of prefix updates, then the
certificates to publish. `processConfSectionSecurity` goes through the section with one iterator,
and looks at what follows the validator only if it is the validator of prefix updates.

So a certificate that follows the validator at once is not published, and anything else that
follows it is let through: `enforced_iff` says that these sections are the exceptions.
-/

namespace LinkState

open HelloProtocol

namespace ConfFileProcessor

variable {lib : ConfLib}

/-- The keys of a section in the order of the file. -/
def keysOf (sec : Ptree) : List String := sec.children.map Prod.fst

/-- The keys a security section may have. -/
def InOrder (keys : List String) : Prop :=
  ∃ (updates : Bool) (n : Nat), keys = "validator" ::
    ((if updates then ["prefix-update-validator"] else []) ++ List.replicate n "cert-to-publish")

/-- ndn-cxx accepts every file and every validator the section names. -/
structure Loads (lib : ConfLib) (sec : Ptree) : Prop where
  validators : ∀ entry ∈ sec.children,
    entry.1 = "validator" ∨ entry.1 = "prefix-update-validator" → lib.loadsValidator entry.2
  certificates : ∀ entry ∈ sec.children,
    entry.1 = "cert-to-publish" → (lib.loadCertificate entry.2.data).isSome

/-- The certificate of an entry is among those passed on, and can be found. -/
def Published (lib : ConfLib) (s : Configured) (passed : List IdentityCertificate)
    (entry : String × Ptree) : Prop :=
  ∃ c ∈ passed, lib.loadCertificate entry.2.data = some c ∧
    s.certStore.contains (dropLast c.name 1)

/-- The grammar is enforced, and the section has its effect. -/
structure Enforced (lib : ConfLib) (sec : Ptree) (s : Configured) : Prop where
  accepts : (∃ s', processConfSectionSecurity lib sec s = .ok s') ↔ InOrder (keysOf sec)
  published : ∀ s', processConfSectionSecurity lib sec s = .ok s' →
    ∃ passed, s'.certsToPublish = s.certsToPublish ++ passed ∧
      ∀ entry ∈ sec.children, entry.1 = "cert-to-publish" → Published lib s' passed entry
  enabled : ∀ s', processConfSectionSecurity lib sec s = .ok s' →
    (s'.isPrefixUpdateEnabled = true ↔ "prefix-update-validator" ∈ keysOf sec)

/-- Something else follows the validator than the validator of prefix updates. -/
def Skips (keys : List String) : Prop :=
  ∃ key rest, keys = "validator" :: key :: rest ∧ key ≠ "prefix-update-validator"

/-! ## The certificate store -/

theorem contains_insert (store : CertificateStore) (c : IdentityCertificate) (name : Name) :
    (CertificateStore.insert store c).contains name ↔
      name = dropLast c.name 1 ∨ store.contains name := by
  unfold CertificateStore.insert
  split_ifs with h
  · rw [KeyedList.contains_replace]
    constructor
    · exact Or.inr
    · rintro (rfl | hname)
      · exact h
      · exact hname
  · exact KeyedList.contains_insert store c name

/-- A certificate that was passed on can be found by its name without version. -/
theorem contains_certStore {s : Configured} {c : IdentityCertificate}
    (h : c ∈ s.certsToPublish) : s.certStore.contains (dropLast c.name 1) := by
  have hfold (certs : List IdentityCertificate) (store : CertificateStore) (name : Name)
      (hname : store.contains name ∨ ∃ c ∈ certs, name = dropLast c.name 1) :
      (certs.foldl CertificateStore.insert store).contains name := by
    induction certs generalizing store with
    | nil => simpa using hname
    | cons c certs ih =>
      refine ih _ ?_
      rw [contains_insert]
      simp only [List.mem_cons, exists_eq_or_imp] at hname
      tauto
  exact hfold s.certsToPublish KeyedList.empty _ (Or.inr ⟨c, h, rfl⟩)

/-! ## Certificates -/

/-- The certificates a list of entries names. -/
def certsOf (lib : ConfLib) (entries : List (String × Ptree)) : List IdentityCertificate :=
  entries.filterMap fun entry => lib.loadCertificate entry.2.data

theorem processCert_ok {entry : String × Ptree} {s s' : Configured}
    (h : processCert lib s entry = .ok s') : entry.1 = "cert-to-publish" ∧
      s' = { s with certsToPublish := s.certsToPublish ++ certsOf lib [entry] } := by
  unfold processCert at h
  split at h
  · simp only [bind_eq_ok, orError_eq_ok, pure_eq_ok] at h
    obtain ⟨idCert, hcert, rfl⟩ := h
    simp [certsOf, hcert]
  · exact nomatch h

/-- A loop that runs through has passed on the certificates of its entries. -/
theorem foldlM_processCert_ok {entries : List (String × Ptree)} {s s' : Configured}
    (h : entries.foldlM (processCert lib) s = .ok s') :
    (∀ entry ∈ entries, entry.1 = "cert-to-publish") ∧
      s' = { s with certsToPublish := s.certsToPublish ++ certsOf lib entries } := by
  refine foldlM_ok_induction (P := fun done t =>
    (∀ entry ∈ done, entry.1 = "cert-to-publish") ∧
      t = { s with certsToPublish := s.certsToPublish ++ certsOf lib done }) ?_ entries
    (by simp [certsOf]) h
  rintro done entry t t' ⟨hkeys, rfl⟩ hstep
  obtain ⟨hkey, rfl⟩ := processCert_ok hstep
  refine ⟨?_, by simp [certsOf]⟩
  intro e he
  obtain hdone | hlast := List.mem_append.1 he
  · exact hkeys e hdone
  · exact List.mem_singleton.1 hlast ▸ hkey

/-- It runs through if all its entries are certificates that load. -/
theorem exists_foldlM_processCert {entries : List (String × Ptree)}
    (hkeys : ∀ entry ∈ entries, entry.1 = "cert-to-publish")
    (hload : ∀ entry ∈ entries, (lib.loadCertificate entry.2.data).isSome) (s : Configured) :
    ∃ s', entries.foldlM (processCert lib) s = .ok s' := by
  induction entries generalizing s with
  | nil => exact ⟨s, rfl⟩
  | cons entry entries ih =>
    obtain ⟨key, sec⟩ := entry
    obtain rfl : key = "cert-to-publish" := hkeys _ List.mem_cons_self
    obtain ⟨idCert, hcert⟩ := Option.isSome_iff_exists.1 (hload _ List.mem_cons_self)
    obtain ⟨s', hs'⟩ := ih (fun e he => hkeys e (List.mem_cons_of_mem _ he))
      (fun e he => hload e (List.mem_cons_of_mem _ he))
      { s with certsToPublish := s.certsToPublish ++ [idCert] }
    refine ⟨s', ?_⟩
    rw [List.foldlM_cons, bind_eq_ok]
    refine ⟨_, ?_, hs'⟩
    simp only [processCert, bind_eq_ok, orError_eq_ok]
    exact ⟨idCert, hcert, rfl⟩

/-! ## The shapes of a section -/

theorem inOrder_updates {keys : List String} :
    InOrder ("validator" :: "prefix-update-validator" :: keys) ↔
      ∀ key ∈ keys, key = "cert-to-publish" := by
  constructor
  · rintro ⟨updates, n, heq⟩
    cases updates with
    | false =>
      cases n with
      | zero => simp at heq
      | succ n => simp [List.replicate_succ] at heq
    | true =>
      have hkeys : keys = List.replicate n "cert-to-publish" := by simpa using heq
      intro key hkey
      rw [hkeys] at hkey
      exact List.eq_of_mem_replicate hkey
  · intro hall
    have hkeys : keys = List.replicate keys.length "cert-to-publish" :=
      List.eq_replicate_iff.2 ⟨rfl, hall⟩
    exact ⟨true, keys.length, congrArg ("validator" :: "prefix-update-validator" :: ·) hkeys⟩

theorem inOrder_skips {key : String} {keys : List String} (hkey : key ≠ "prefix-update-validator")
    (h : InOrder ("validator" :: key :: keys)) : key = "cert-to-publish" := by
  obtain ⟨updates, n, heq⟩ := h
  cases updates with
  | false =>
    cases n with
    | zero => simp at heq
    | succ n =>
      simp only [Bool.false_eq_true, if_false, List.nil_append, List.replicate_succ,
        List.cons.injEq, true_and] at heq
      exact heq.1
  | true =>
    simp only [if_true, List.cons_append, List.cons.injEq, true_and] at heq
    exact absurd heq.1 hkey

theorem processConfSectionSecurity_node (data : String) (validator : Ptree)
    (rest : List (String × Ptree)) (s : Configured) (hload : lib.loadsValidator validator) :
    processConfSectionSecurity lib (.node data (("validator", validator) :: rest)) s =
      processRest lib { s with validator := some validator } rest := by
  simp [processConfSectionSecurity, Ptree.children, loadValidator, require, hload]

/-! ## The section -/

/-- Without a validator first, the section is rejected, as it should be. -/
theorem enforced_of_not_validator {sec : Ptree} {s : Configured}
    (h : ∀ rest, keysOf sec ≠ "validator" :: rest) : Enforced lib sec s := by
  have hrejected : ∀ s', processConfSectionSecurity lib sec s ≠ .ok s' := by
    intro s' hok
    unfold processConfSectionSecurity at hok
    split at hok
    · rename_i validator rest hchildren
      exact h (rest.map Prod.fst) (by rw [keysOf, hchildren]; rfl)
    · exact nomatch hok
  refine ⟨⟨fun ⟨s', hok⟩ => absurd hok (hrejected s'), ?_⟩, fun s' hok => absurd hok (hrejected s'),
    fun s' hok => absurd hok (hrejected s')⟩
  rintro ⟨updates, n, hkeys⟩
  exact absurd hkeys (h _)

/-- A validator alone enables nothing. -/
theorem enforced_alone_iff {data : String} {validator : Ptree} {s : Configured}
    (hload : lib.loadsValidator validator) :
    Enforced lib (.node data [("validator", validator)]) s ↔ s.isPrefixUpdateEnabled = false := by
  have hok : processConfSectionSecurity lib (.node data [("validator", validator)]) s =
      .ok { s with validator := some validator } :=
    processConfSectionSecurity_node data validator [] s hload
  constructor
  · intro henforced
    simpa [keysOf, Ptree.children] using henforced.enabled _ hok
  · intro hdisabled
    refine ⟨⟨fun _ => ⟨false, 0, rfl⟩, fun _ => ⟨_, hok⟩⟩, fun s' hs' => ?_, fun s' hs' => ?_⟩
    · cases hok.symm.trans hs'
      exact ⟨[], by simp, by simp [Ptree.children]⟩
    · cases hok.symm.trans hs'
      simp [keysOf, Ptree.children, hdisabled]

/-- Behind a validator of prefix updates the whole section is looked at. -/
theorem enforced_updates {data : String} {validator updates : Ptree}
    {certs : List (String × Ptree)} {s : Configured} (hloads : Loads lib
      (.node data (("validator", validator) :: ("prefix-update-validator", updates) :: certs))) :
    Enforced lib
      (.node data (("validator", validator) :: ("prefix-update-validator", updates) :: certs)) s := by
  have hvalidator := hloads.validators ("validator", validator) List.mem_cons_self (Or.inl rfl)
  have hupdates := hloads.validators ("prefix-update-validator", updates)
    (List.mem_cons_of_mem _ List.mem_cons_self) (Or.inr rfl)
  let t : Configured := { s with
    validator := some validator
    isPrefixUpdateEnabled := true
    prefixUpdateValidator := some updates }
  have hprocess : processConfSectionSecurity lib
      (.node data (("validator", validator) :: ("prefix-update-validator", updates) :: certs)) s =
      certs.foldlM (processCert lib) t := by
    rw [processConfSectionSecurity_node data validator _ s hvalidator]
    simp only [processRest, loadPrefixUpdateValidator, require, if_pos hupdates]
    rfl
  refine ⟨?_, ?_, ?_⟩
  · rw [hprocess]
    refine Iff.trans ?_ inOrder_updates.symm
    constructor
    · rintro ⟨s', hok⟩ key hkey
      obtain ⟨entry, hentry, rfl⟩ := List.mem_map.1 hkey
      exact (foldlM_processCert_ok hok).1 entry hentry
    · intro hkeys
      have hcerts : ∀ entry ∈ certs, entry.1 = "cert-to-publish" := fun entry hentry =>
        hkeys entry.1 (List.mem_map_of_mem hentry)
      exact exists_foldlM_processCert hcerts (fun entry hentry => hloads.certificates entry
        (List.mem_cons_of_mem _ (List.mem_cons_of_mem _ hentry)) (hcerts entry hentry)) t
  · intro s' hok
    rw [hprocess] at hok
    obtain ⟨-, rfl⟩ := foldlM_processCert_ok hok
    refine ⟨certsOf lib certs, rfl, fun entry hentry hkey => ?_⟩
    obtain ⟨c, hc⟩ := Option.isSome_iff_exists.1 (hloads.certificates entry hentry hkey)
    have hcert : entry ∈ certs := by
      simp only [Ptree.children, List.mem_cons] at hentry
      obtain rfl | rfl | hentry := hentry
      · simp at hkey
      · simp at hkey
      · exact hentry
    have hmem : c ∈ certsOf lib certs := List.mem_filterMap.2 ⟨entry, hcert, hc⟩
    exact ⟨c, hmem, hc, contains_certStore (List.mem_append_right _ hmem)⟩
  · intro s' hok
    rw [hprocess] at hok
    obtain ⟨-, rfl⟩ := foldlM_processCert_ok hok
    simp [t, keysOf, Ptree.children]

/-- What follows the validator otherwise is let through without a look. -/
theorem not_enforced_skips {data key : String} {validator child : Ptree}
    {rest : List (String × Ptree)} {s : Configured} (hload : lib.loadsValidator validator)
    (hkey : key ≠ "prefix-update-validator") :
    ¬ Enforced lib (.node data (("validator", validator) :: (key, child) :: rest)) s := by
  intro henforced
  have hok : processConfSectionSecurity lib
      (.node data (("validator", validator) :: (key, child) :: rest)) s =
      .ok { s with validator := some validator } := by
    rw [processConfSectionSecurity_node data validator _ s hload]
    unfold processRest
    split
    · rename_i heq
      simp only [List.cons.injEq, Prod.mk.injEq] at heq
      exact absurd heq.1.1 hkey
    · rfl
  obtain rfl : key = "cert-to-publish" :=
    inOrder_skips hkey (henforced.accepts.1 ⟨_, hok⟩)
  -- Its certificate is not among those passed on, of which there is none
  obtain ⟨passed, hpassed, hpublished⟩ := henforced.published _ hok
  obtain rfl : passed = [] := by simpa using hpassed
  obtain ⟨c, hc, -⟩ := hpublished ("cert-to-publish", child)
    (List.mem_cons_of_mem _ List.mem_cons_self) rfl
  exact absurd hc List.not_mem_nil

/-- **The grammar is enforced and every certificate published exactly if** nothing else follows
the validator than the validator of prefix updates; a validator alone must also find prefix
updates not enabled yet. -/
theorem enforced_iff (lib : ConfLib) (sec : Ptree) (s : Configured) (hloads : Loads lib sec) :
    Enforced lib sec s ↔
      ¬ Skips (keysOf sec) ∧ (keysOf sec = ["validator"] → s.isPrefixUpdateEnabled = false) := by
  obtain ⟨data, children⟩ := sec
  by_cases hvalidator : ∃ rest, keysOf (.node data children) = "validator" :: rest
  · obtain ⟨keys, hkeys⟩ := hvalidator
    obtain ⟨⟨_, validator⟩, rest, rfl, rfl, rfl⟩ := List.map_eq_cons_iff.1 hkeys
    have hload := hloads.validators ("validator", validator) List.mem_cons_self (Or.inl rfl)
    match rest with
    | [] =>
      rw [enforced_alone_iff hload]
      simp [keysOf, Ptree.children, Skips]
    | (key, child) :: rest =>
      by_cases hkey : key = "prefix-update-validator"
      · subst hkey
        refine iff_of_true (enforced_updates hloads) ⟨?_, by simp [keysOf, Ptree.children]⟩
        rintro ⟨key, keys, heq, hne⟩
        simp only [keysOf, Ptree.children, List.map_cons, List.cons.injEq, true_and] at heq
        exact hne heq.1.symm
      · refine iff_of_false (not_enforced_skips hload hkey) fun h => h.1 ?_
        exact ⟨key, rest.map Prod.fst, rfl, hkey⟩
  · have hnot := not_exists.1 hvalidator
    refine iff_of_true (enforced_of_not_validator hnot) ⟨?_, fun h => absurd h (hnot [])⟩
    rintro ⟨key, keys, heq, -⟩
    exact absurd heq (hnot _)

/-- A validator, then the certificate of the router. -/
def certBehindValidator : Ptree :=
  .node "" [("validator", .node "" []), ("cert-to-publish", .node "router.cert" [])]

/-- Two validators. -/
def twoValidators : Ptree :=
  .node "" [("validator", .node "" []), ("validator", .node "" [])]

/-- Both are accepted, though the certificate of the first is not published and the keys of the
second are not in order. -/
theorem not_enforced :
    (Loads plainLib certBehindValidator ∧ ¬ Enforced plainLib certBehindValidator {}) ∧
    Loads plainLib twoValidators ∧ ¬ Enforced plainLib twoValidators {} := by
  refine ⟨⟨⟨fun _ _ _ => rfl, ?_⟩, not_enforced_skips rfl (by simp)⟩, ⟨fun _ _ _ => rfl, ?_⟩,
    not_enforced_skips rfl (by simp)⟩
  · simp [certBehindValidator, Ptree.children, Ptree.data, plainLib]
  · simp [twoValidators, Ptree.children]

/-- A section as in the sample file. -/
def sampleSecurity : Ptree :=
  .node "" [("validator", .node "" []), ("prefix-update-validator", .node "" []),
    ("cert-to-publish", .node "router.cert" [])]

theorem enforced_iff_sampleSecurity : Enforced plainLib sampleSecurity {} ↔
    ¬ Skips (keysOf sampleSecurity) ∧
      (keysOf sampleSecurity = ["validator"] → ({} : Configured).isPrefixUpdateEnabled = false) :=
  enforced_iff plainLib sampleSecurity {} ⟨fun _ _ _ => rfl, by
    simp [sampleSecurity, Ptree.children, Ptree.data, plainLib]⟩

end ConfFileProcessor

end LinkState
