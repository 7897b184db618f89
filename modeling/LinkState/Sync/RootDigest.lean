import LinkState.Sync.State

/-!
# What a root digest says about a state

Parties compare their states by digests alone. A digest is a hash over hashes over hashes: of
the leaves, of the prefix and the number of a leaf, and of these two themselves. All of them
have 32 bytes, so what is hashed can be cut up again.

`view_eq_or_collision`: two states with the same digest are the same, or two different strings
that were hashed for the two states have the same hash. Nothing is assumed about the hash
function.
-/

namespace LinkState.Sync

variable {H : HashFunction}

/-- Pieces of one length can be read off their concatenation. -/
theorem map_eq_of_flatMap_eq {α β : Type*} {f : α → List β} {n : Nat} (hn : 0 < n)
    {l l' : List α} (hl : ∀ a ∈ l, (f a).length = n) (hl' : ∀ a ∈ l', (f a).length = n)
    (h : l.flatMap f = l'.flatMap f) : l.map f = l'.map f := by
  induction l generalizing l' with
  | nil =>
    cases l' with
    | nil => rfl
    | cons a' l' =>
      have hlength := congrArg List.length h
      simp only [List.flatMap_nil, List.flatMap_cons, List.length_nil, List.length_append,
        hl' a' List.mem_cons_self] at hlength
      omega
  | cons a l ih =>
    cases l' with
    | nil =>
      have hlength := congrArg List.length h
      simp only [List.flatMap_nil, List.flatMap_cons, List.length_nil, List.length_append,
        hl a List.mem_cons_self] at hlength
      omega
    | cons a' l' =>
      rw [List.flatMap_cons, List.flatMap_cons] at h
      have hlength : (f a).length = (f a').length :=
        (hl a List.mem_cons_self).trans (hl' a' List.mem_cons_self).symm
      obtain ⟨hhead, htail⟩ := List.append_inj h hlength
      have ih := ih (fun x hx => hl x (List.mem_cons_of_mem _ hx))
        (fun x hx => hl' x (List.mem_cons_of_mem _ hx)) htail
      rw [List.map_cons, List.map_cons, hhead, ih]

theorem length_memoryBytes (n : UInt64) : (memoryBytes n).length = 8 := by
  rw [memoryBytes, List.length_reverse, Component.length_bigEndian]

theorem memoryBytes_injective : Function.Injective memoryBytes := by
  intro a b h
  have h' := congrArg Component.ofBigEndian (List.reverse_injective h)
  have hlt : ∀ n : UInt64, n.toNat < 256 ^ 8 := by
    intro n
    have := n.toNat_lt
    norm_num
    omega
  rwa [Component.ofBigEndian_bigEndian (hlt a), Component.ofBigEndian_bigEndian (hlt b),
    UInt64.toNat_inj] at h'

/-- What is hashed for a sequence number. -/
def SeqNo.bytes (seq : SeqNo) : Bytes := memoryBytes seq.session ++ memoryBytes seq.seq

theorem SeqNo.bytes_injective : Function.Injective SeqNo.bytes := by
  intro a b h
  have hlength := (length_memoryBytes a.session).trans (length_memoryBytes b.session).symm
  obtain ⟨hsession, hseq⟩ := List.append_inj h hlength
  cases a; cases b
  rw [SeqNo.mk.injEq]
  exact ⟨memoryBytes_injective hsession, memoryBytes_injective hseq⟩

namespace FullState

/-- The strings that are hashed for the digest of a state. -/
inductive Hashes (st : FullState H) : Bytes → Prop
  | info {leaf : FullLeaf H} (h : leaf ∈ st.leaves) : Hashes st leaf.info.toList
  | seq {leaf : FullLeaf H} (h : leaf ∈ st.leaves) : Hashes st leaf.seq.bytes
  | leaf {leaf : FullLeaf H} (h : leaf ∈ st.leaves) :
      Hashes st (H.infoDigest leaf.info ++ H.seqDigest leaf.seq)
  | root : Hashes st (st.leaves.toList.flatMap FullLeaf.digest)

/-- Different strings that are hashed for two states and have one hash. -/
def Collision (st st' : FullState H) : Prop :=
  ∃ m m', Hashes st m ∧ Hashes st' m' ∧ m ≠ m' ∧ H.hash m = H.hash m'

/-- Where there is no collision, equal hashes are hashes of equal strings. -/
theorem eq_of_hash_eq {st st' : FullState H} (h : ¬ Collision st st') {m m' : Bytes}
    (hm : Hashes st m) (hm' : Hashes st' m') (heq : H.hash m = H.hash m') : m = m' := by
  by_contra hne
  exact h ⟨m, m', hm, hm', hne, heq⟩

/-- Without a collision leaves with the same digest are the same. -/
theorem leaf_eq_of_digest_eq {st st' : FullState H} (h : ¬ Collision st st')
    {leaf leaf' : FullLeaf H} (hleaf : leaf ∈ st.leaves) (hleaf' : leaf' ∈ st'.leaves)
    (heq : leaf.digest = leaf'.digest) : leaf = leaf' := by
  rw [leaf.digest_eq, leaf'.digest_eq] at heq
  have hinput := eq_of_hash_eq h (.leaf hleaf) (.leaf hleaf') heq
  have hlength : (H.infoDigest leaf.info).length = (H.infoDigest leaf'.info).length :=
    (H.length_hash _).trans (H.length_hash _).symm
  obtain ⟨hinfo, hseq⟩ := List.append_inj hinput hlength
  apply FullLeaf.ext
  · exact String.toList_inj.1 (eq_of_hash_eq h (.info hleaf) (.info hleaf') hinfo)
  · exact SeqNo.bytes_injective (eq_of_hash_eq h (.seq hleaf) (.seq hleaf') hseq)

theorem length_digest (leaf : FullLeaf H) : leaf.digest.length = 32 := by
  rw [leaf.digest_eq]
  exact H.length_hash _

/-- Lists with the same digests in order are the same. -/
theorem toList_eq_of_map_digest_eq {st st' : FullState H} (h : ¬ Collision st st')
    {l l' : List (FullLeaf H)} (hl : ∀ a ∈ l, a ∈ st.leaves) (hl' : ∀ a ∈ l', a ∈ st'.leaves)
    (heq : l.map FullLeaf.digest = l'.map FullLeaf.digest) : l = l' := by
  induction l generalizing l' with
  | nil => exact (List.map_eq_nil_iff.1 heq.symm).symm
  | cons a l ih =>
    obtain ⟨a', l'', rfl, hhead, htail⟩ := List.map_eq_cons_iff.1 heq.symm
    have ha := leaf_eq_of_digest_eq h (hl a List.mem_cons_self) (hl' a' List.mem_cons_self)
      hhead.symm
    have hrest := ih (fun x hx => hl x (List.mem_cons_of_mem _ hx))
      (fun x hx => hl' x (List.mem_cons_of_mem _ hx)) htail.symm
    rw [ha, hrest]

/-- Without a collision states with the same digest have the same leaves. -/
theorem leaves_eq_of_rootDigest_eq {st st' : FullState H} (h : ¬ Collision st st')
    (heq : st.rootDigest = st'.rootDigest) : st.leaves = st'.leaves := by
  unfold rootDigest LeafContainer.rootDigest at heq
  split_ifs at heq with hnil hnil' hnil'
  · rw [SortedTable.eq_empty_iff.2 hnil, SortedTable.eq_empty_iff.2 hnil']
  · exact absurd heq.symm (H.hash_ne_zeroDigest _)
  · exact absurd heq (H.hash_ne_zeroDigest _)
  · have hflat := eq_of_hash_eq h .root .root heq
    have hdigests := map_eq_of_flatMap_eq (by norm_num)
      (fun a _ => length_digest a) (fun a _ => length_digest a) hflat
    have hlist := toList_eq_of_map_digest_eq h (fun _ ha => ha) (fun _ ha => ha) hdigests
    exact SortedTable.ext_find? fun info => KeyedList.find?_congr
      (fun a => by rw [KeyedList.mem_def, KeyedList.mem_def, hlist]) info

/-- **States with the same digest are the same, or two strings that were hashed collide.** -/
theorem view_eq_or_collision {st st' : FullState H} (heq : st.rootDigest = st'.rootDigest) :
    st.view = st'.view ∨ Collision st st' := by
  by_cases h : Collision st st'
  · exact Or.inr h
  · have hleaves := leaves_eq_of_rootDigest_eq h heq
    left
    unfold view
    rw [hleaves]

/-- **The digests are the same exactly if the states are**, or two strings that were hashed
collide. -/
theorem rootDigest_eq_iff (st st' : FullState H) :
    (st.rootDigest = st'.rootDigest ↔ st.view = st'.view) ∨ Collision st st' := by
  by_cases h : Collision st st'
  · exact Or.inr h
  · left
    constructor
    · intro heq
      exact (view_eq_or_collision heq).resolve_right h
    · exact rootDigest_congr

end FullState

end LinkState.Sync
