import LinkState.Library.ProtocolBuffers
import LinkState.Sync.Message

/-!
# Sync messages on the wire

The messages of `sync-state.proto` as protocol buffers: the names and the types are required,
the sequence number is not, and both of its numbers are required if it is there. A type that is
none of the three counts as missing.

`wire` stands for the generated code in examples. `concatenates_wire`: messages that are put
together on the wire are read as one message with the entries of both.
-/

namespace LinkState.Sync

open ProtocolBuffers

/-! ## Writing -/

def ActionType.toNat : ActionType → Nat
  | .update => 0
  | .delete => 1
  | .other => 2

def SeqNo.fields (seq : SeqNo) : List Field :=
  [.varint 1 seq.seq.toNat, .varint 2 seq.session.toNat]

def SyncState.fields (ss : SyncState) : List Field :=
  [.bytes 1 ss.name.toList, .varint 2 ss.type.toNat] ++
    ss.seqno.toList.map fun seq => .bytes 3 (serialize seq.fields)

/-- `SerializeToArray`. -/
def serializeMsg (msg : SyncStateMsg) : Bytes :=
  serialize (msg.map fun ss => .bytes 1 (serialize ss.fields))

/-! ## Reading -/

/-- The integer of an enumeration is cut to 32 bits. -/
def ActionType.ofNat? (n : Nat) : Option ActionType :=
  if n % 2 ^ 32 = 0 then some .update
  else if n % 2 ^ 32 = 1 then some .delete
  else if n % 2 ^ 32 = 2 then some .other
  else none

def parseSeqNo (cs : Bytes) : Option SeqNo := do
  let fields ← parse cs
  let seq ← (varints fields 1).getLast?
  let session ← (varints fields 2).getLast?
  return ⟨UInt64.ofNat session, UInt64.ofNat seq⟩

/-- What is optional may be missing, but not be wrong. -/
def parseOptional (cs : Option Bytes) : Option (Option SeqNo) :=
  cs.elim (some none) fun cs => (parseSeqNo cs).map some

def parseSyncState (cs : Bytes) : Option SyncState := do
  let fields ← parse cs
  let name ← (contents fields 1).getLast?
  let type ← ((varints fields 2).filterMap ActionType.ofNat?).getLast?
  let seqno ← parseOptional (embedded fields 3)
  return ⟨String.ofList name, type, seqno⟩

/-- `ParseFromArray` with `IsInitialized`. -/
def parseMsg (cs : Bytes) : Option SyncStateMsg := do
  let fields ← parse cs
  (contents fields 1).mapM parseSyncState

/-! ## Round trips -/

theorem parseSeqNo_serialize (seq : SeqNo) : parseSeqNo (serialize seq.fields) = some seq := by
  simp [parseSeqNo, parse_serialize, SeqNo.fields, varints]

theorem ofNat?_toNat (type : ActionType) : ActionType.ofNat? type.toNat = some type := by
  cases type <;> rfl

theorem varints_fields (ss : SyncState) : varints ss.fields 2 = [ss.type.toNat] := by
  cases h : ss.seqno <;> simp [SyncState.fields, varints, h]

theorem contents_fields (ss : SyncState) :
    contents ss.fields 1 = [ss.name.toList] ∧
      embedded ss.fields 3 = ss.seqno.map fun seq => serialize seq.fields := by
  cases h : ss.seqno <;> simp [SyncState.fields, contents, embedded, h]

theorem parseSyncState_serialize (ss : SyncState) :
    parseSyncState (serialize ss.fields) = some ss := by
  obtain ⟨hname, hseqno⟩ := contents_fields ss
  have htype := varints_fields ss
  have hoptional : parseOptional (ss.seqno.map fun seq => serialize seq.fields) =
      some ss.seqno := by
    cases ss.seqno <;> simp [parseOptional, parseSeqNo_serialize]
  simp [parseSyncState, parse_serialize, hname, htype, hseqno, hoptional, ofNat?_toNat]

theorem contents_message (msg : SyncStateMsg) :
    contents (msg.map fun ss => .bytes 1 (serialize ss.fields)) 1 =
      msg.map fun ss => serialize ss.fields := by
  induction msg with
  | nil => rfl
  | cons ss msg ih =>
    simp only [List.map_cons]
    rw [← ih]
    rfl

theorem mapM_parseSyncState (msg : SyncStateMsg) :
    (msg.map fun ss => serialize ss.fields).mapM parseSyncState = some msg := by
  induction msg with
  | nil => rfl
  | cons ss msg ih => simp [parseSyncState_serialize, ih]

/-- **A message is read back from the wire.** -/
theorem parseMsg_serializeMsg (msg : SyncStateMsg) : parseMsg (serializeMsg msg) = some msg := by
  rw [parseMsg, serializeMsg, parse_serialize]
  simp only [Option.bind_eq_bind, Option.bind_some, contents_message, mapM_parseSyncState]

/-- The encoding of `sync-state.proto`. -/
def wire : Protobuf where
  serialize := serializeMsg
  parse := parseMsg
  parse_serialize := parseMsg_serializeMsg

theorem serializeMsg_append (msg msg' : SyncStateMsg) :
    serializeMsg (msg ++ msg') = serializeMsg msg ++ serializeMsg msg' := by
  simp [serializeMsg, serialize]

/-- **Messages that are put together on the wire are one message.** -/
theorem concatenates_wire : wire.Concatenates where
  parse_append msg msg' := by
    show parseMsg (serializeMsg msg ++ serializeMsg msg') = some (msg ++ msg')
    rw [← serializeMsg_append, parseMsg_serializeMsg]

/-- A removal and an update of `/a`, in two messages, and a state with one prefix. -/
theorem decode_parse_serialize_wire :
    let d := DiffState.init.remove "/a"
    let d' := DiffState.init.update "/a" ⟨1, 2⟩
    let st := ((FullState.init checksum).update "/b" ⟨3, 4⟩).1
    (wire.parse (wire.serialize d.encode)).map decode = some d ∧
      (wire.parse (wire.serialize d.encode ++ wire.serialize d'.encode)).map decode =
        some (d.add d') ∧
      (wire.parse (wire.serialize st.encode)).map decode = some st.asDiff ∧
      ∀ m, Delta.merge st.asDiff.delta m = m ⊔ st.view :=
  decode_parse_serialize wire concatenates_wire _ _ _

end LinkState.Sync
