import LinkState.Library.SortedTable
import LinkState.Library.Delta
import LinkState.Sync.Digest

/-!
# Sync states

The state of a party is a table of leaves, one for each prefix that was ever heard of: the
prefix and its latest sequence number. A leaf keeps its own digest and the state the digest over
its leaves, in the order of the prefixes. Both are fields with the equation they obey, so that a
stale digest cannot be kept.

A `DiffState` is a table of changes to a state: prefixes to update and prefixes to remove.

Seen from outside, a state is the partial map `FullState.view` from prefixes to sequence numbers
and a difference the `DiffState.delta` on it. `FullState.ext_view`, `DiffState.ext_delta`: a
state, and with it its digest, and a difference are determined by them.
-/

namespace LinkState.Sync

/-! ## Sequence numbers -/

/-- A valid sequence number. The invalid one that the default constructor makes is `none` in
`Option SeqNo`. -/
structure SeqNo where
  session : UInt64
  seq : UInt64
  deriving DecidableEq

namespace SeqNo

theorem key_injective :
    Function.Injective fun s : SeqNo => toLex (s.session.toNat, s.seq.toNat) := by
  intro a b h
  have h' := congrArg ofLex h
  cases a; cases b
  simp only [ofLex_toLex, Prod.mk.injEq] at h'
  rw [mk.injEq, ← UInt64.toNat_inj, ← UInt64.toNat_inj]
  exact h'

/-- First by session, then by number. -/
instance : LinearOrder SeqNo :=
  LinearOrder.lift' (fun s => toLex (s.session.toNat, s.seq.toNat)) key_injective

/-- The order is `operator<`. -/
theorem lt_iff {a b : SeqNo} :
    a < b ↔ a.session < b.session ∨ (a.session = b.session ∧ a.seq < b.seq) := by
  rw [UInt64.lt_iff_toNat_lt, UInt64.lt_iff_toNat_lt, ← UInt64.toNat_inj]
  exact Prod.Lex.lt_iff

theorem lt_iff_of_session_eq {a b : SeqNo} (h : a.session = b.session) :
    a < b ↔ a.seq.toNat < b.seq.toNat := by
  rw [lt_iff, h, ← UInt64.lt_iff_toNat_lt]
  simp

theorem le_iff_of_session_eq {a b : SeqNo} (h : a.session = b.session) :
    a ≤ b ↔ a.seq.toNat ≤ b.seq.toNat := by
  rw [← not_lt, lt_iff_of_session_eq h.symm, not_lt]

/-- `operator++`, which makes an invalid number valid. -/
def increment : Option SeqNo → SeqNo
  | some s => { s with seq := s.seq + 1 }
  | none => ⟨0, 0⟩

end SeqNo

/-! ## Full states -/

/-- The eight bytes of a number in memory, the lowest first. -/
def memoryBytes (n : UInt64) : Bytes := (Component.bigEndian 8 n.toNat).reverse

namespace HashFunction

variable (H : HashFunction)

/-- `StdNameInfo::m_digest`. -/
def infoDigest (info : String) : Digest := H.hash info.toList

/-- `SeqNo::getDigest`. -/
def seqDigest (seq : SeqNo) : Digest := H.hash (memoryBytes seq.session ++ memoryBytes seq.seq)

/-- `FullLeaf::updateDigest`. -/
def leafDigest (info : String) (seq : SeqNo) : Digest :=
  H.hash (H.infoDigest info ++ H.seqDigest seq)

end HashFunction

/-- A leaf of a state, with its digest. -/
structure FullLeaf (H : HashFunction) where
  info : String
  seq : SeqNo
  digest : Digest
  digest_eq : digest = H.leafDigest info seq

variable {H : HashFunction}

namespace FullLeaf

@[ext] theorem ext {a b : FullLeaf H} (hinfo : a.info = b.info) (hseq : a.seq = b.seq) :
    a = b := by
  obtain ⟨_, _, _, ha⟩ := a
  obtain ⟨_, _, _, hb⟩ := b
  subst ha hb hinfo hseq
  rfl

def make (H : HashFunction) (info : String) (seq : SeqNo) : FullLeaf H where
  info := info
  seq := seq
  digest := H.leafDigest info seq
  digest_eq := rfl

/-- The leaf keeps the greater number. -/
def setSeq (leaf : FullLeaf H) (seq : SeqNo) : FullLeaf H := make H leaf.info (max leaf.seq seq)

end FullLeaf

abbrev LeafContainer (H : HashFunction) := SortedTable (FullLeaf.info (H := H))

/-- The digest over the leaves in order. -/
def LeafContainer.rootDigest (leaves : LeafContainer H) : Digest :=
  if leaves.toList = [] then zeroDigest else H.hash (leaves.toList.flatMap FullLeaf.digest)

/-- A state, with its digest if that was asked for since the last change. -/
structure FullState (H : HashFunction) where
  leaves : LeafContainer H
  digest : Option Digest
  digest_eq : ∀ d, digest = some d → d = leaves.rootDigest

namespace FullState

theorem digest_eq_none (leaves : LeafContainer H) :
    ∀ d, (none : Option Digest) = some d → d = leaves.rootDigest := by
  rintro d ⟨⟩

theorem digest_eq_some (leaves : LeafContainer H) :
    ∀ d, some leaves.rootDigest = some d → d = leaves.rootDigest := by
  rintro d ⟨⟩
  rfl

/-- The state with these leaves and no digest kept. -/
def ofLeaves (leaves : LeafContainer H) : FullState H := ⟨leaves, none, digest_eq_none leaves⟩

/-- The default constructor. -/
def init (H : HashFunction) : FullState H := ofLeaves SortedTable.empty

def rootDigest (st : FullState H) : Digest := st.leaves.rootDigest

def getDigest (st : FullState H) : Digest × FullState H :=
  match st.digest with
  | some d => (d, st)
  | none => (st.leaves.rootDigest, ⟨st.leaves, some st.leaves.rootDigest, digest_eq_some st.leaves⟩)

/-- Returned are whether the leaf was inserted, whether it was updated, and the number it had if
it was updated. -/
def update (st : FullState H) (info : String) (seq : SeqNo) :
    FullState H × Bool × Bool × Option SeqNo :=
  match st.leaves.find? info with
  | none => (ofLeaves (st.leaves.set (FullLeaf.make H info seq)), true, false, none)
  | some item =>
    if item.seq = seq ∨ seq < item.seq then (ofLeaves st.leaves, false, false, none)
    else (ofLeaves (st.leaves.set (item.setSeq seq)), false, true, some item.seq)

/-- Returned is whether there was a leaf. -/
def remove (st : FullState H) (info : String) : FullState H × Bool :=
  match st.leaves.find? info with
  | some _ => (ofLeaves (st.leaves.erase info), true)
  | none => (ofLeaves st.leaves, false)

/-! ### What a state is worth -/

/-- The sequence number of each prefix. -/
def view (st : FullState H) : String → WithBot SeqNo :=
  fun info => (st.leaves.find? info).elim ⊥ fun leaf => (leaf.seq : WithBot SeqNo)

theorem view_of_find? {st : FullState H} {info : String} {leaf : FullLeaf H}
    (h : st.leaves.find? info = some leaf) : st.view info = leaf.seq := by
  rw [view, h]; rfl

theorem view_of_find?_none {st : FullState H} {info : String}
    (h : st.leaves.find? info = none) : st.view info = ⊥ := by
  rw [view, h]; rfl

theorem view_eq_coe {st : FullState H} {info : String} {seq : SeqNo} :
    st.view info = seq ↔ ∃ leaf ∈ st.leaves, leaf.info = info ∧ leaf.seq = seq := by
  cases hfind : st.leaves.find? info with
  | none =>
    rw [view_of_find?_none hfind]
    constructor
    · exact fun h => absurd h WithBot.bot_ne_coe
    · rintro ⟨leaf, hleaf, hinfo, -⟩
      exact absurd hinfo (SortedTable.find?_eq_none.1 hfind leaf hleaf)
  | some item =>
    obtain ⟨hmem, hinfo⟩ := SortedTable.find?_eq_some.1 hfind
    rw [view_of_find? hfind, WithBot.coe_inj]
    constructor
    · exact fun h => ⟨item, hmem, hinfo, h⟩
    · rintro ⟨leaf, hleaf, rfl, rfl⟩
      rw [SortedTable.find?_of_mem hleaf] at hfind
      rw [Option.some.inj hfind]

theorem view_eq_bot {st : FullState H} {info : String} :
    st.view info = ⊥ ↔ st.leaves.find? info = none := by
  refine ⟨fun h => ?_, view_of_find?_none⟩
  cases hfind : st.leaves.find? info with
  | none => rfl
  | some leaf => exact absurd ((view_of_find? hfind).symm.trans h) WithBot.coe_ne_bot

@[simp] theorem view_init : (init H).view = ⊥ := rfl

@[simp] theorem view_ofLeaves (st : FullState H) : (ofLeaves st.leaves).view = st.view := rfl

/-- **The leaves are determined by the sequence numbers.** -/
theorem ext_view {st st' : FullState H} (h : st.view = st'.view) : st.leaves = st'.leaves := by
  refine SortedTable.ext_find? fun info => ?_
  have hinfo := congrFun h info
  cases hfind : st.leaves.find? info with
  | none => exact (view_eq_bot.1 (hinfo.symm.trans (view_of_find?_none hfind))).symm
  | some leaf =>
    rw [view_of_find? hfind] at hinfo
    obtain ⟨leaf', hleaf', rfl, hseq⟩ := view_eq_coe.1 hinfo.symm
    rw [SortedTable.find?_of_mem hleaf']
    exact congrArg some (FullLeaf.ext (SortedTable.key_of_find? hfind) hseq.symm)

theorem rootDigest_congr {st st' : FullState H} (h : st.view = st'.view) :
    st.rootDigest = st'.rootDigest :=
  congrArg LeafContainer.rootDigest (ext_view h)

/-- The digest that is returned is that of the leaves, kept or not. -/
@[simp] theorem getDigest_fst (st : FullState H) : st.getDigest.1 = st.rootDigest := by
  unfold getDigest
  cases h : st.digest with
  | none => rfl
  | some d => exact st.digest_eq d h

@[simp] theorem getDigest_leaves (st : FullState H) : st.getDigest.2.leaves = st.leaves := by
  unfold getDigest
  cases st.digest <;> rfl

@[simp] theorem view_getDigest (st : FullState H) : st.getDigest.2.view = st.view := by
  unfold view
  rw [getDigest_leaves]

@[simp] theorem rootDigest_getDigest (st : FullState H) :
    st.getDigest.2.rootDigest = st.rootDigest := by
  unfold rootDigest
  rw [getDigest_leaves]

theorem wellFormed_rootDigest (st : FullState H) : st.rootDigest.WellFormed := by
  unfold rootDigest LeafContainer.rootDigest
  split_ifs
  · exact wellFormed_zeroDigest
  · exact H.wellFormed_hash _

/-- Only the empty state has the digest zero. -/
theorem isZero_rootDigest {st : FullState H} : st.rootDigest.isZero ↔ st.view = ⊥ := by
  have hiff : st.rootDigest.isZero ↔ st.leaves.toList = [] := by
    unfold rootDigest LeafContainer.rootDigest Digest.isZero
    split_ifs with h
    · simp [h]
    · simp [h, H.hash_ne_zeroDigest]
  rw [hiff, ← SortedTable.eq_empty_iff]
  constructor
  · intro h
    funext info
    exact view_of_find?_none (h ▸ SortedTable.find?_empty info)
  · exact fun h => ext_view (h.trans view_init.symm)

/-! ### Updating and removing -/

theorem view_ofLeaves_set (st : FullState H) (leaf : FullLeaf H) :
    (ofLeaves (st.leaves.set leaf)).view = Function.update st.view leaf.info leaf.seq := by
  funext info
  show ((st.leaves.set leaf).find? info).elim ⊥ _ = _
  rw [SortedTable.find?_set]
  by_cases h : info = leaf.info
  · subst h; simp
  · simp only [h, if_false, Function.update_of_ne h]
    rfl

/-- **An update joins the number to the one that is there.** -/
theorem view_update (st : FullState H) (info : String) (seq : SeqNo) :
    (st.update info seq).1.view = Function.update st.view info (st.view info ⊔ seq) := by
  unfold update
  cases hfind : st.leaves.find? info with
  | none =>
    dsimp only
    rw [view_ofLeaves_set, view_of_find?_none hfind, bot_sup_eq]
    rfl
  | some item =>
    obtain rfl := SortedTable.key_of_find? hfind
    have hview := view_of_find? hfind
    dsimp only
    split_ifs with h
    · have hle : seq ≤ item.seq := h.elim (fun h => h.ge) le_of_lt
      rw [view_ofLeaves, hview, sup_eq_left.2 (WithBot.coe_le_coe.2 hle), ← hview,
        Function.update_eq_self]
    · rw [view_ofLeaves_set, hview]
      rfl

/-- What was not there is inserted. -/
theorem update_snd_of_bot {st : FullState H} {info : String} (h : st.view info = ⊥)
    (seq : SeqNo) : (st.update info seq).2 = (true, false, none) := by
  unfold update
  rw [view_eq_bot.1 h]

/-- What was there with a smaller number is updated. -/
theorem update_snd_of_lt {st : FullState H} {info : String} {old seq : SeqNo}
    (h : st.view info = old) (hlt : old < seq) :
    (st.update info seq).2 = (false, true, some old) := by
  obtain ⟨leaf, hleaf, rfl, rfl⟩ := view_eq_coe.1 h
  unfold update
  rw [SortedTable.find?_of_mem hleaf]
  dsimp only
  rw [if_neg (not_or.2 ⟨hlt.ne, hlt.not_gt⟩)]

/-- Otherwise nothing happens. -/
theorem update_snd_of_le {st : FullState H} {info : String} {old seq : SeqNo}
    (h : st.view info = old) (hle : seq ≤ old) :
    (st.update info seq).2 = (false, false, none) := by
  obtain ⟨leaf, hleaf, rfl, rfl⟩ := view_eq_coe.1 h
  unfold update
  rw [SortedTable.find?_of_mem hleaf]
  dsimp only
  rw [if_pos (hle.eq_or_lt.imp_left Eq.symm)]

theorem view_remove (st : FullState H) (info : String) :
    (st.remove info).1.view = Function.update st.view info ⊥ := by
  unfold remove
  cases hfind : st.leaves.find? info with
  | none =>
    dsimp only
    rw [view_ofLeaves, ← view_of_find?_none hfind, Function.update_eq_self]
  | some item =>
    funext info'
    show ((st.leaves.erase info).find? info').elim ⊥ _ = _
    rw [SortedTable.find?_erase]
    by_cases h : info' = info
    · subst h; simp
    · simp only [h, if_false, Function.update_of_ne h]
      rfl

theorem remove_snd (st : FullState H) (info : String) :
    (st.remove info).2 = true ↔ st.view info ≠ ⊥ := by
  rw [Ne, view_eq_bot]
  unfold remove
  cases st.leaves.find? info <;> simp

end FullState

/-! ## Differences -/

/-- What is to be done with a leaf; to update it, the number. -/
inductive Operation
  | update (seq : SeqNo)
  | remove
  deriving DecidableEq

def Operation.change : Operation → Change SeqNo
  | .update seq => .set seq
  | .remove => .drop

theorem Operation.change_injective : Function.Injective Operation.change := by
  intro a b h
  cases a <;> cases b <;> simp_all [Operation.change]

/-- A leaf of a difference. -/
structure DiffLeaf where
  info : String
  operation : Operation
  deriving DecidableEq

/-- A difference between states. -/
structure DiffState where
  leaves : SortedTable DiffLeaf.info

namespace DiffState

def init : DiffState := ⟨SortedTable.empty⟩

def update (d : DiffState) (info : String) (seq : SeqNo) : DiffState :=
  ⟨d.leaves.set ⟨info, .update seq⟩⟩

def remove (d : DiffState) (info : String) : DiffState := ⟨d.leaves.set ⟨info, .remove⟩⟩

/-- Carry out what a leaf says. -/
def apply (d : DiffState) (leaf : DiffLeaf) : DiffState :=
  match leaf.operation with
  | .update seq => d.update leaf.info seq
  | .remove => d.remove leaf.info

/-- `operator+=`. The prefixes of the leaves differ, so the order they are taken in does not
matter. -/
def add (d state : DiffState) : DiffState := state.leaves.toList.foldl apply d

/-- What is to be done with each prefix. -/
def delta (d : DiffState) : Delta String SeqNo :=
  fun info => (d.leaves.find? info).map fun leaf => leaf.operation.change

theorem delta_eq_some {d : DiffState} {info : String} {o : Operation} :
    d.delta info = some o.change ↔ ⟨info, o⟩ ∈ d.leaves := by
  unfold delta
  constructor
  · intro h
    obtain ⟨leaf, hfind, hchange⟩ := Option.map_eq_some_iff.1 h
    obtain ⟨hmem, rfl⟩ := SortedTable.find?_eq_some.1 hfind
    rwa [← Operation.change_injective hchange]
  · intro h
    rw [SortedTable.find?_of_mem h]
    rfl

/-- **A difference is determined by what is to be done with each prefix.** -/
theorem ext_delta {d d' : DiffState} (h : d.delta = d'.delta) : d = d' := by
  obtain ⟨leaves⟩ := d
  obtain ⟨leaves'⟩ := d'
  congr
  refine SortedTable.ext_find? fun info => ?_
  have hinfo := congrFun h info
  ext leaf
  obtain ⟨info', o⟩ := leaf
  rw [SortedTable.find?_eq_some, SortedTable.find?_eq_some]
  refine and_congr_left ?_
  rintro rfl
  exact delta_eq_some.symm.trans ((Eq.congr_left hinfo).trans delta_eq_some)

@[simp] theorem delta_init : init.delta = Delta.none := rfl

theorem delta_set (d : DiffState) (leaf : DiffLeaf) :
    (⟨d.leaves.set leaf⟩ : DiffState).delta =
      Function.update d.delta leaf.info (some leaf.operation.change) := by
  funext info
  show ((d.leaves.set leaf).find? info).map _ = _
  rw [SortedTable.find?_set]
  by_cases h : info = leaf.info
  · subst h; simp
  · simp only [h, if_false, Function.update_of_ne h]
    rfl

theorem delta_update (d : DiffState) (info : String) (seq : SeqNo) :
    (d.update info seq).delta = Function.update d.delta info (some (.set seq)) :=
  delta_set d ⟨info, .update seq⟩

theorem delta_remove (d : DiffState) (info : String) :
    (d.remove info).delta = Function.update d.delta info (some .drop) :=
  delta_set d ⟨info, .remove⟩

theorem delta_apply (d : DiffState) (leaf : DiffLeaf) :
    (d.apply leaf).delta = Function.update d.delta leaf.info (some leaf.operation.change) := by
  unfold apply
  cases h : leaf.operation with
  | update seq => exact delta_update d leaf.info seq
  | remove => exact delta_remove d leaf.info

/-- **Adding puts the second difference over the first.** -/
theorem delta_add (d d' : DiffState) : (d.add d').delta = Delta.overlay d.delta d'.delta := by
  funext info
  have hwalk := SortedTable.look_foldl apply delta (fun _ leaf => some leaf.operation.change)
    (fun d leaf info => by rw [delta_apply, Function.update_apply]) d'.leaves d info
  rw [add, hwalk]
  show _ = ((d'.leaves.find? info).map _).or (d.delta info)
  cases d'.leaves.find? info <;> rfl

end DiffState

end LinkState.Sync
