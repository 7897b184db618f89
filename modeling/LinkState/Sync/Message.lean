import LinkState.Sync.State

/-!
# Sync messages

A state or a difference is sent as a list of entries, one for each leaf in the order of the
prefixes. A full state is sent as updates only. A received message is read entry by entry into
a difference, so of two entries for one prefix the later one counts.

The entries go over the network in protocol buffers, whose code is generated: `Protobuf` is an
encoding in which every message is read back.

`decode_encode`: a difference is read back as it was. `decode_encodeFull`: a state is read back as
the difference that sets each of its prefixes. `decode_parse_serialize`: so it is over the network.
-/

namespace LinkState.Sync

/-- `SyncState::ActionType`. -/
inductive ActionType
  | update
  | delete
  | other
  deriving DecidableEq

/-- An entry of a message. -/
structure SyncState where
  name : String
  type : ActionType
  seqno : Option SeqNo
  deriving DecidableEq

abbrev SyncStateMsg := List SyncState

/-- The encoding of messages on the network. -/
structure Protobuf where
  serialize : SyncStateMsg → Bytes
  /-- `none` where the message cannot be parsed or lacks a required field. -/
  parse : Bytes → Option SyncStateMsg
  parse_serialize : ∀ m, parse (serialize m) = some m

/-- Messages whose bytes are put together are parsed as one message, with the entries of both. -/
structure Protobuf.Concatenates (pb : Protobuf) : Prop where
  parse_append : ∀ m m', pb.parse (pb.serialize m ++ pb.serialize m') = some (m ++ m')

/-- The entry for a leaf of a difference. -/
def DiffLeaf.encode (leaf : DiffLeaf) : SyncState :=
  match leaf.operation with
  | .update seq => ⟨leaf.info, .update, some seq⟩
  | .remove => ⟨leaf.info, .delete, none⟩

/-- `operator<<` of a difference. -/
def DiffState.encode (d : DiffState) : SyncStateMsg := d.leaves.toList.map DiffLeaf.encode

variable {H : HashFunction}

/-- `operator<<` of a full state. -/
def FullState.encode (st : FullState H) : SyncStateMsg :=
  st.leaves.toList.map fun leaf => ⟨leaf.info, .update, some leaf.seq⟩

/-- The sequence number of an entry; one that is missing reads as zero. -/
def SyncState.seqNo (ss : SyncState) : SeqNo := ss.seqno.getD ⟨0, 0⟩

/-- Read one entry. Everything but an update is a removal. -/
def DiffState.readEntry (d : DiffState) (ss : SyncState) : DiffState :=
  if ss.type = .update then d.update ss.name ss.seqNo else d.remove ss.name

/-- `operator>>`. -/
def decode (msg : SyncStateMsg) : DiffState := msg.foldl DiffState.readEntry DiffState.init

/-- The leaf that an entry is read as. -/
def SyncState.leaf (ss : SyncState) : DiffLeaf :=
  ⟨ss.name, if ss.type = .update then .update ss.seqNo else .remove⟩

theorem readEntry_eq (d : DiffState) (ss : SyncState) : d.readEntry ss = d.apply ss.leaf := by
  unfold DiffState.readEntry SyncState.leaf DiffState.apply
  by_cases h : ss.type = .update <;> simp [h]

theorem decode_eq (msg : SyncStateMsg) :
    decode msg = (msg.map SyncState.leaf).foldl DiffState.apply DiffState.init := by
  rw [decode, List.foldl_map]
  congr
  funext d ss
  exact readEntry_eq d ss

theorem leaf_encode (leaf : DiffLeaf) : leaf.encode.leaf = leaf := by
  obtain ⟨info, operation⟩ := leaf
  cases operation <;> rfl

theorem map_leaf_encode (d : DiffState) : d.encode.map SyncState.leaf = d.leaves.toList := by
  rw [DiffState.encode, List.map_map]
  exact List.map_id'' leaf_encode _

/-- **A difference survives the trip through a message.** -/
theorem decode_encode (d : DiffState) : decode d.encode = d := by
  rw [decode_eq, map_leaf_encode]
  apply DiffState.ext_delta
  show (DiffState.init.add d).delta = d.delta
  rw [DiffState.delta_add, DiffState.delta_init]
  funext info
  exact Option.or_none

/-- Reading two messages as one adds the differences they carry. -/
theorem decode_append (d d' : DiffState) : decode (d.encode ++ d'.encode) = d.add d' := by
  have hd := decode_encode d
  rw [decode_eq, map_leaf_encode] at hd
  rw [decode_eq, List.map_append, List.foldl_append, map_leaf_encode, map_leaf_encode, hd]
  rfl

/-- The difference that sets every prefix of a state. -/
def FullState.asDiff (st : FullState H) : DiffState :=
  st.leaves.toList.foldl (fun d leaf => d.update leaf.info leaf.seq) DiffState.init

/-- A state is sent as the difference that sets every prefix. -/
theorem decode_encodeFull (st : FullState H) : decode st.encode = st.asDiff := by
  rw [decode_eq, FullState.encode, List.map_map, FullState.asDiff, List.foldl_map]
  rfl

theorem delta_asDiff (st : FullState H) (info : String) :
    st.asDiff.delta info = (st.leaves.find? info).map fun leaf => .set leaf.seq := by
  have hwalk := SortedTable.look_foldl
    (fun (d : DiffState) (leaf : FullLeaf H) => d.update leaf.info leaf.seq) DiffState.delta
    (fun _ leaf => some (.set leaf.seq))
    (fun d leaf info => by rw [DiffState.delta_update, Function.update_apply])
    st.leaves DiffState.init info
  rw [FullState.asDiff, hwalk]
  cases st.leaves.find? info <;> rfl

/-- It sets a prefix to its number and nothing else. -/
theorem delta_asDiff_eq_some {st : FullState H} {info : String} {c : Change SeqNo} :
    st.asDiff.delta info = some c ↔ ∃ seq : SeqNo, st.view info = seq ∧ c = .set seq := by
  rw [delta_asDiff]
  cases hfind : st.leaves.find? info with
  | none =>
    rw [FullState.view_of_find?_none hfind]
    simp
  | some leaf =>
    rw [FullState.view_of_find? hfind]
    simp only [Option.map_some, Option.some.injEq, WithBot.coe_inj]
    constructor
    · rintro rfl
      exact ⟨leaf.seq, rfl, rfl⟩
    · rintro ⟨seq, rfl, rfl⟩
      rfl

/-- **Who merges a state that was sent joins it to his own.** -/
theorem merge_asDiff (st : FullState H) (m : String → WithBot SeqNo) :
    Delta.merge st.asDiff.delta m = m ⊔ st.view := by
  funext info
  unfold Delta.merge
  rw [delta_asDiff, Pi.sup_apply]
  cases hfind : st.leaves.find? info with
  | none =>
    rw [FullState.view_of_find?_none hfind]
    exact (sup_bot_eq (m info)).symm
  | some leaf =>
    rw [FullState.view_of_find? hfind]
    rfl

/-- **States and differences survive the trip over the network.** A difference is read as it was
and a state as the difference that sets each of its prefixes; differences whose bytes are put
together are read as their sum. -/
theorem decode_parse_serialize (pb : Protobuf) (hpb : pb.Concatenates) (d d' : DiffState)
    (st : FullState H) :
    (pb.parse (pb.serialize d.encode)).map decode = some d ∧
      (pb.parse (pb.serialize d.encode ++ pb.serialize d'.encode)).map decode = some (d.add d') ∧
      (pb.parse (pb.serialize st.encode)).map decode = some st.asDiff ∧
      ∀ m, Delta.merge st.asDiff.delta m = m ⊔ st.view := by
  refine ⟨?_, ?_, ?_, merge_asDiff st⟩
  · rw [pb.parse_serialize, Option.map_some, decode_encode]
  · rw [hpb.parse_append, Option.map_some, decode_append]
  · rw [pb.parse_serialize, Option.map_some, decode_encodeFull]

end LinkState.Sync
