import LinkState.Sync.State

/-!
# The log of differences

Every change of the state is recorded as a difference, with the digest of the state after it.
The differences are linked: each points to the one that was made next. The log itself is a
sequence of the differences, the newest in front, with one entry for a digest; when a digest
comes back the older entry is dropped, but the links still lead through it.

Here the differences stand at the addresses 0, 1, … in the order they were made, and a link is
an address. `DiffLog.WellFormed` is what insertions keep of the links and of the sequence.

* `delta_diff`: following the links from an entry adds up everything made after it.
* `find?_isSome_iff`: a digest is found if it was ever recorded.
-/

namespace LinkState.Sync

/-- A difference that was inserted in the log. -/
structure LogEntry where
  state : DiffState
  digest : Digest
  next : Option Nat

/-- The digest of the difference at an address. -/
def digestAt (entries : List LogEntry) (i : Nat) : Option Digest := entries[i]?.map LogEntry.digest

/-- The links and the sequence of a log. -/
structure DiffLog.WellFormed (entries : List LogEntry) (sequenced : List Nat) : Prop where
  /-- A difference points to the one that was made next. -/
  next_eq : ∀ i e, entries[i]? = some e →
    e.next = if i + 1 < entries.length then some (i + 1) else none
  /-- The newest one is in front. -/
  head_eq : sequenced.head? = if entries.length = 0 then none else some (entries.length - 1)
  lt : ∀ i ∈ sequenced, i < entries.length
  /-- A digest is there once. -/
  digests : sequenced.Pairwise fun i j => digestAt entries i ≠ digestAt entries j
  /-- Every difference is there, or a later one with its digest. -/
  found : ∀ i < entries.length, ∃ j ∈ sequenced, i ≤ j ∧ digestAt entries j = digestAt entries i

/-- The log: the differences by address, and the addresses in sequence. -/
structure DiffLog where
  entries : List LogEntry
  sequenced : List Nat
  wf : DiffLog.WellFormed entries sequenced

namespace DiffLog

theorem wellFormed_nil : WellFormed [] [] where
  next_eq := by simp
  head_eq := rfl
  lt := by simp
  digests := List.Pairwise.nil
  found := by simp

def empty : DiffLog := ⟨[], [], wellFormed_nil⟩

/-- The address of the entry with a digest. -/
def find? (log : DiffLog) (digest : Digest) : Option Nat :=
  log.sequenced.find? fun i => digestAt log.entries i = some digest

/-- Follow the links for so many steps, and add up what is found. -/
def follow (entries : List LogEntry) : (steps : Nat) → Option Nat → DiffState → DiffState
  | 0, _, ret => ret
  | _ + 1, none, ret => ret
  | steps + 1, some i, ret =>
    match entries[i]? with
    | none => ret
    | some e => follow entries steps e.next (ret.add e.state)

/-- `DiffState::diff` of the difference at an address. There are not more steps to make than
there are differences. -/
def diff (log : DiffLog) (i : Nat) : DiffState :=
  follow log.entries log.entries.length (log.entries[i]?.bind LogEntry.next) DiffState.init

/-! ## Insertion -/

/-- `setNext` of the entry in front, if there is one. -/
def setNext (entries : List LogEntry) (front : Option Nat) (next : Nat) : List LogEntry :=
  front.elim entries fun i => entries.modify i fun e => { e with next := some next }

/-- The sequence without the entry that has a digest, and the new one in front. -/
def pushFront (entries : List LogEntry) (sequenced : List Nat) (digest : Digest) (i : Nat) :
    List Nat :=
  i :: sequenced.filter fun j => digestAt entries j ≠ some digest

/-- The differences after one more. -/
def insertEntry (log : DiffLog) (digest : Digest) (state : DiffState) : List LogEntry :=
  setNext log.entries log.sequenced.head? log.entries.length ++ [⟨state, digest, none⟩]

variable {log : DiffLog} {digest : Digest} {state : DiffState}

theorem length_setNext (entries : List LogEntry) (front : Option Nat) (next : Nat) :
    (setNext entries front next).length = entries.length := by
  cases front with
  | none => rfl
  | some i => exact List.length_modify ..

/-- The links are all that changes in the differences there are. -/
theorem getElem?_insertEntry (digest : Digest) (state : DiffState) {i : Nat} {e : LogEntry}
    (h : log.entries[i]? = some e) :
    ∃ next, (log.insertEntry digest state)[i]? = some { e with next := next } := by
  have hlt : i < log.entries.length := (List.getElem?_eq_some_iff.1 h).1
  unfold insertEntry
  rw [List.getElem?_append_left (by rwa [length_setNext])]
  cases hfront : log.sequenced.head? with
  | none => exact ⟨e.next, h⟩
  | some front =>
    show ∃ next, (log.entries.modify front _)[i]? = _
    rw [List.getElem?_modify, h]
    by_cases hi : front = i
    · exact ⟨some log.entries.length, by simp [hi]⟩
    · exact ⟨e.next, by simp [hi]⟩

theorem getElem?_insertEntry_new :
    (log.insertEntry digest state)[log.entries.length]? = some ⟨state, digest, none⟩ := by
  unfold insertEntry
  rw [List.getElem?_append_right (by rw [length_setNext]), length_setNext, Nat.sub_self]
  rfl

theorem length_insertEntry (log : DiffLog) (digest : Digest) (state : DiffState) :
    (log.insertEntry digest state).length = log.entries.length + 1 := by
  rw [insertEntry, List.length_append, length_setNext]
  rfl

theorem digestAt_insertEntry {i : Nat} (h : i < log.entries.length) :
    digestAt (log.insertEntry digest state) i = digestAt log.entries i := by
  have hget := List.getElem?_eq_getElem h
  obtain ⟨next, hnext⟩ := getElem?_insertEntry digest state hget
  rw [digestAt, digestAt, hnext, hget]
  rfl

theorem digestAt_insertEntry_new :
    digestAt (log.insertEntry digest state) log.entries.length = some digest := by
  rw [digestAt, getElem?_insertEntry_new]
  rfl

/-- The link of the last difference leads to the new one; the others stay. -/
theorem next_insertEntry {i : Nat} {e : LogEntry}
    (h : (log.insertEntry digest state)[i]? = some e) :
    e.next = if i + 1 < log.entries.length + 1 then some (i + 1) else none := by
  have hlt := (List.getElem?_eq_some_iff.1 h).1
  rw [length_insertEntry] at hlt
  by_cases hi : i = log.entries.length
  · subst hi
    rw [getElem?_insertEntry_new] at h
    obtain rfl := Option.some.inj h
    rw [if_neg (Nat.lt_irrefl _)]
  · have hold : i < log.entries.length := by omega
    have hget := List.getElem?_eq_getElem hold
    have hnext := log.wf.next_eq i _ hget
    have hhead := log.wf.head_eq
    rw [if_neg (by omega)] at hhead
    unfold insertEntry at h
    rw [List.getElem?_append_left (by rwa [length_setNext]), hhead] at h
    change (log.entries.modify (log.entries.length - 1) _)[i]? = some e at h
    rw [List.getElem?_modify, hget] at h
    obtain rfl := Option.some.inj h
    rw [if_pos (by omega)]
    by_cases hlast : log.entries.length - 1 = i
    · simp only [if_pos hlast]
      exact congrArg some (by omega)
    · simp only [if_neg hlast]
      rw [hnext, if_pos (by omega)]

theorem wellFormed_insert (log : DiffLog) (digest : Digest) (state : DiffState) :
    WellFormed (log.insertEntry digest state)
      (pushFront log.entries log.sequenced digest log.entries.length) where
  next_eq i e h := by
    rw [length_insertEntry]
    exact next_insertEntry h
  head_eq := by
    rw [length_insertEntry, if_neg (Nat.succ_ne_zero _)]
    rfl
  lt i hi := by
    rw [length_insertEntry]
    rcases List.mem_cons.1 hi with rfl | hi
    · exact Nat.lt_succ_self _
    · exact Nat.lt_succ_of_lt (log.wf.lt i (List.mem_filter.1 hi).1)
  digests := by
    refine List.pairwise_cons.2 ⟨fun j hj => ?_, ?_⟩
    · obtain ⟨hj, hne⟩ := List.mem_filter.1 hj
      rw [digestAt_insertEntry_new, digestAt_insertEntry (log.wf.lt j hj)]
      exact fun heq => of_decide_eq_true hne heq.symm
    · have hold : (log.sequenced.filter fun j => digestAt log.entries j ≠ some digest).Pairwise
          fun i j => digestAt log.entries i ≠ digestAt log.entries j :=
        log.wf.digests.sublist List.filter_sublist
      refine hold.imp_of_mem fun {i j} hi hj hne => ?_
      rw [digestAt_insertEntry (log.wf.lt i (List.mem_filter.1 hi).1),
        digestAt_insertEntry (log.wf.lt j (List.mem_filter.1 hj).1)]
      exact hne
  found i hi := by
    rw [length_insertEntry] at hi
    by_cases hnew : i = log.entries.length
    · exact ⟨_, List.mem_cons_self, hnew.le, by rw [hnew]⟩
    · have hold : i < log.entries.length := by omega
      rw [digestAt_insertEntry hold]
      obtain ⟨j, hj, hij, hdigest⟩ := log.wf.found i hold
      by_cases heq : digestAt log.entries j = some digest
      · exact ⟨_, List.mem_cons_self, hold.le, by
          rw [digestAt_insertEntry_new, ← hdigest, heq]⟩
      · refine ⟨j, List.mem_cons_of_mem _ (List.mem_filter.2 ⟨hj, by simpa using heq⟩), hij, ?_⟩
        rw [digestAt_insertEntry (log.wf.lt j hj), hdigest]

/-- `SyncLogic::insertToDiffLog`, given the digest of the state. -/
def insert (log : DiffLog) (digest : Digest) (state : DiffState) : DiffLog :=
  ⟨log.insertEntry digest state,
    pushFront log.entries log.sequenced digest log.entries.length,
    wellFormed_insert log digest state⟩

/-! ## What the links lead to -/

/-- What the differences do, in the order they were made. -/
def history (log : DiffLog) : List (Delta String SeqNo) :=
  log.entries.map fun e => e.state.delta

@[simp] theorem history_empty : empty.history = [] := rfl

@[simp] theorem length_history : log.history.length = log.entries.length := List.length_map _

@[simp] theorem history_insert (log : DiffLog) (digest : Digest) (state : DiffState) :
    (log.insert digest state).history = log.history ++ [state.delta] := by
  refine List.ext_getElem? fun i => ?_
  have hlength := length_insertEntry log digest state
  show ((log.insertEntry digest state).map _)[i]? = _
  rw [List.getElem?_map]
  rcases Nat.lt_trichotomy i log.entries.length with hi | rfl | hi
  · have hget := List.getElem?_eq_getElem hi
    obtain ⟨next, hnext⟩ := getElem?_insertEntry digest state hget
    rw [List.getElem?_append_left (by rwa [length_history]), hnext, history, List.getElem?_map,
      hget]
    rfl
  · rw [getElem?_insertEntry_new, List.getElem?_append_right (by rw [length_history]),
      length_history, Nat.sub_self]
    rfl
  · rw [List.getElem?_eq_none (by omega), List.getElem?_eq_none]
    · rfl
    · rw [List.length_append, length_history, List.length_singleton]
      omega

theorem delta_follow (steps i : Nat) (ret : DiffState)
    (hsteps : log.entries.length ≤ i + steps) (hi : i < log.entries.length) :
    (follow log.entries steps (some i) ret).delta =
      (log.history.drop i).foldl Delta.overlay ret.delta := by
  induction steps generalizing i ret with
  | zero => omega
  | succ steps ih =>
    have hget := List.getElem?_eq_getElem hi
    have hnext := log.wf.next_eq i _ hget
    have hdrop : log.history.drop i = log.entries[i].state.delta :: log.history.drop (i + 1) := by
      rw [List.drop_eq_getElem_cons (by rwa [length_history])]
      simp [history]
    rw [follow, hget, hdrop, List.foldl_cons, ← DiffState.delta_add]
    show (follow log.entries steps log.entries[i].next _).delta = _
    rw [hnext]
    split_ifs with hlt
    · exact ih (i + 1) _ (by omega) hlt
    · rw [List.drop_eq_nil_of_le (by rw [length_history]; omega)]
      cases steps <;> rfl

/-- **The links lead through everything that was made later.** -/
theorem delta_diff {i : Nat} (h : i < log.entries.length) :
    (log.diff i).delta = Delta.accumulate (log.history.drop (i + 1)) := by
  have hget := List.getElem?_eq_getElem h
  unfold diff
  rw [hget, Option.bind_some, log.wf.next_eq i _ hget]
  split_ifs with hlt
  · exact delta_follow _ _ _ (by omega) hlt
  · rw [List.drop_eq_nil_of_le (by rw [length_history]; omega)]
    cases log.entries.length <;> rfl

/-! ## What is found -/

theorem find?_eq_some {i : Nat} (h : log.find? digest = some i) :
    i < log.entries.length ∧ digestAt log.entries i = some digest :=
  ⟨log.wf.lt i (List.mem_of_find?_eq_some h), by simpa using List.find?_some h⟩

/-- **A digest is found exactly if it was ever recorded.** -/
theorem find?_isSome_iff : (log.find? digest).isSome ↔ ∃ e ∈ log.entries, e.digest = digest := by
  constructor
  · intro h
    obtain ⟨i, hi⟩ := Option.isSome_iff_exists.1 h
    obtain ⟨hlt, hdigest⟩ := find?_eq_some hi
    rw [digestAt, List.getElem?_eq_getElem hlt] at hdigest
    exact ⟨_, List.getElem_mem hlt, Option.some.inj hdigest⟩
  · rintro ⟨e, he, rfl⟩
    obtain ⟨i, hi, rfl⟩ := List.getElem_of_mem he
    obtain ⟨j, hj, -, hdigest⟩ := log.wf.found i hi
    rw [find?, List.find?_isSome]
    refine ⟨j, hj, ?_⟩
    rw [digestAt, digestAt, List.getElem?_eq_getElem hi] at hdigest
    exact decide_eq_true hdigest

/-- The entry found for the digest of the newest difference is that difference. -/
theorem find?_insert_self (log : DiffLog) (digest : Digest) (state : DiffState) :
    (log.insert digest state).find? digest = some log.entries.length := by
  show (log.entries.length :: _).find? _ = _
  rw [List.find?_cons_of_pos]
  exact decide_eq_true digestAt_insertEntry_new

end DiffLog

end LinkState.Sync
