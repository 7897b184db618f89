import LinkState.Content
import LinkState.Library.Run
import LinkState.Sync.LogicSpec

/-!
# The sync socket

What the application uses of the sync protocol. A publication is posted to the event loop first
and runs later: the Data is put, the number that follows is noted down, and the sync logic takes
the prefix and the number into its state.

`run_in_order`: whatever happens in between, publications run in the order in which they were made.
Each puts its Data, and `getNextSeq` follows the one that ran last.
-/

namespace LinkState.Sync

/-- A name as the sync logic takes it. -/
def uriOf (lib : TextLib) (name : Name) : String := String.ofList (lib.toUri name)

/-- The constructor of a name from a URI; `none` where it throws. -/
def nameOf (lib : TextLib) (uri : String) : Option Name := lib.fromUri uri.toList

@[simp] theorem nameOf_uriOf {lib : TextLib} (h : lib.RoundTrips) (name : Name) :
    nameOf lib (uriOf lib name) = some name := by
  simp [nameOf, uriOf, h.fromUri_toUri]

theorem uriOf_injective {lib : TextLib} (h : lib.RoundTrips) : Function.Injective (uriOf lib) := by
  intro n n' heq
  have hsome := nameOf_uriOf h n
  rw [heq, nameOf_uriOf h] at hsome
  exact (Option.some.inj hsome).symm

/-- A call of `publishData`. -/
structure Publication where
  namePrefix : Name
  session : UInt64
  seq : UInt64
  content : Text
  deriving DecidableEq

/-- `<prefix>/<session>/<seq>` -/
def dataName (namePrefix : Name) (session seq : UInt64) : Name :=
  namePrefix ++ [⟨toString session.toNat⟩, ⟨toString seq.toNat⟩]

/-- Data as it is put. -/
structure AppData where
  name : Name
  content : Text
  deriving DecidableEq

def Publication.data (p : Publication) : AppData := ⟨dataName p.namePrefix p.session p.seq, p.content⟩

structure SequenceEntry where
  namePrefix : Name
  seqNo : SeqNo
  deriving DecidableEq

structure SyncSocket (H : HashFunction) where
  sequenceLog : KeyedList SequenceEntry.namePrefix
  syncLogic : SyncLogic H
  /-- What was posted to the event loop and has not run yet, the first one first. -/
  posted : List Publication
  /-- The Data that was put, the first one first. -/
  put : List AppData

variable {H : HashFunction}

namespace SyncSocket

/-- The application is told of all prefixes together. -/
def init (H : HashFunction) : SyncSocket H := ⟨KeyedList.empty, SyncLogic.init H false, [], []⟩

def publishData (s : SyncSocket H) (namePrefix : Name) (session : UInt64) (content : Text)
    (seq : UInt64) : SyncSocket H :=
  { s with posted := s.posted ++ [⟨namePrefix, session, seq, content⟩] }

variable (lib : TextLib) (pb : Protobuf)

def publishDataInternal (s : SyncSocket H) (p : Publication) : SyncSocket H × List Output :=
  let (syncLogic, out) := s.syncLogic.addLocalNames pb (uriOf lib p.namePrefix) p.session p.seq
  ({ s with
    put := s.put ++ [p.data]
    sequenceLog :=
      (s.sequenceLog.erase p.namePrefix).insert ⟨p.namePrefix, ⟨p.session, p.seq + 1⟩⟩
    syncLogic := syncLogic }, out)

/-- The event loop runs what was posted first. -/
def runPosted (s : SyncSocket H) : SyncSocket H × List Output :=
  match s.posted with
  | [] => (s, [])
  | p :: posted => { s with posted := posted }.publishDataInternal lib pb p

/-- What happens to the sync logic. -/
def logicTurn (s : SyncSocket H) (e : SyncLogic.Event) : SyncSocket H × List Output :=
  let (syncLogic, out) := s.syncLogic.turn pb e
  ({ s with syncLogic := syncLogic }, out)

def remove (s : SyncSocket H) (namePrefix : Name) : SyncSocket H × List Output :=
  s.logicTurn pb (.remove (uriOf lib namePrefix))

/-- The number after the one that was published last, or zero where there is none in the
session. -/
def getNextSeq (s : SyncSocket H) (namePrefix : Name) (session : UInt64) : UInt64 :=
  match s.sequenceLog.find? namePrefix with
  | some i => if i.seqNo.session = session then i.seqNo.seq else 0
  | none => 0

/-! ## Publications run in order -/

/-- What happens to a socket. -/
inductive Event
  | publishData (p : Publication)
  | remove (namePrefix : Name)
  | posted
  /-- Something arrives for the sync logic, or one of its events is due. -/
  | logic (e : SyncLogic.Event)

def turn (s : SyncSocket H) : Event → SyncSocket H × List Output
  | .publishData p => (s.publishData p.namePrefix p.session p.content p.seq, [])
  | .remove namePrefix => s.remove lib pb namePrefix
  | .posted => s.runPosted lib pb
  | .logic e => s.logicTurn pb e

def step (s : SyncSocket H) (e : Event) : SyncSocket H := (s.turn lib pb e).1

/-- The calls of `publishData` in a run. -/
def calls (es : List Event) : List Publication :=
  es.filterMap fun
    | .publishData p => some p
    | _ => none

/-- What `getNextSeq` gives after these publications. -/
def nextAfter (done : List Publication) (namePrefix : Name) (session : UInt64) : UInt64 :=
  match done.reverse.find? fun p => p.namePrefix = namePrefix with
  | some p => if p.session = session then p.seq + 1 else 0
  | none => 0

/-- The calls are done up to some point and wait from there on. -/
structure InOrder (s : SyncSocket H) (made done : List Publication) : Prop where
  made_eq : made = done ++ s.posted
  put_eq : s.put = done.map Publication.data
  getNextSeq_eq : ∀ n session, s.getNextSeq n session = nextAfter done n session

theorem getNextSeq_publishDataInternal (s : SyncSocket H) (p : Publication) (n : Name)
    (session : UInt64) :
    (s.publishDataInternal lib pb p).1.getNextSeq n session =
      if n = p.namePrefix then (if p.session = session then p.seq + 1 else 0)
      else s.getNextSeq n session := by
  have hnone : (s.sequenceLog.erase p.namePrefix).find? p.namePrefix = none :=
    KeyedList.find?_erase_self s.sequenceLog p.namePrefix
  unfold getNextSeq publishDataInternal
  dsimp only
  by_cases hn : n = p.namePrefix
  · subst hn
    rw [KeyedList.find?_insert_self hnone]
    simp
  · have hkey : n ≠ SequenceEntry.namePrefix ⟨p.namePrefix, ⟨p.session, p.seq + 1⟩⟩ := hn
    rw [KeyedList.find?_insert_ne hkey, KeyedList.find?_erase_ne hn]
    simp [hn]

theorem nextAfter_concat (done : List Publication) (p : Publication) (n : Name)
    (session : UInt64) :
    nextAfter (done ++ [p]) n session =
      if n = p.namePrefix then (if p.session = session then p.seq + 1 else 0)
      else nextAfter done n session := by
  unfold nextAfter
  by_cases hn : n = p.namePrefix
  · simp [hn]
  · simp [hn, Ne.symm hn]

theorem InOrder.runPosted {s : SyncSocket H} {made done : List Publication}
    (h : s.InOrder made done) : ∃ done', (s.runPosted lib pb).1.InOrder made done' := by
  unfold SyncSocket.runPosted
  cases hposted : s.posted with
  | nil => exact ⟨done, h⟩
  | cons p posted =>
    refine ⟨done ++ [p], ?_, ?_, ?_⟩
    · show made = done ++ [p] ++ posted
      rw [h.made_eq, hposted, List.append_assoc, List.singleton_append]
    · show s.put ++ [p.data] = _
      rw [h.put_eq, List.map_append, List.map_singleton]
    · intro n session
      rw [getNextSeq_publishDataInternal, nextAfter_concat]
      congr 1
      exact h.getNextSeq_eq n session

/-- **Publications run in the order in which they were made**, whatever happens in between. Those
that have run have put their Data, and the next number of a prefix follows the one that ran
last. -/
theorem run_in_order (es : List Event) :
    ∃ done, (run (step lib pb) (init H) es).InOrder (calls es) done := by
  induction es using List.reverseRecOn with
  | nil => exact ⟨[], rfl, rfl, fun n session => rfl⟩
  | append_singleton es e ih =>
    obtain ⟨done, h⟩ := ih
    have hcalls : calls (es ++ [e]) = calls es ++ calls [e] := List.filterMap_append ..
    rw [run_append, hcalls]
    cases e with
    | publishData p =>
      refine ⟨done, ?_, h.put_eq, h.getNextSeq_eq⟩
      show calls es ++ [p] = done ++ (_ ++ [p])
      rw [h.made_eq, List.append_assoc]
    | posted =>
      rw [show calls [Event.posted] = [] from rfl, List.append_nil]
      exact h.runPosted lib pb
    | remove namePrefix =>
      rw [show calls [Event.remove namePrefix] = [] from rfl, List.append_nil]
      exact ⟨done, h.made_eq, h.put_eq, h.getNextSeq_eq⟩
    | logic e =>
      rw [show calls [Event.logic e] = [] from rfl, List.append_nil]
      exact ⟨done, h.made_eq, h.put_eq, h.getNextSeq_eq⟩

end SyncSocket

end LinkState.Sync
