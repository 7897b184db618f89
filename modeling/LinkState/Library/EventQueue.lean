import LinkState.Library.KeyedList

/-!
# Pending events

A queue of events that are to run later, as an event loop keeps it. An event is put in under a
new id and can be cancelled by it. When an event is due is left out: any pending event may be
the next to run.

An owner who keeps the id of his event and cancels it whenever he puts in another has one event
pending at any time (`Tracks.renew`).
-/

namespace LinkState

/-- An event that is pending. -/
structure PendingEvent (α : Type*) where
  id : Nat
  action : α
  deriving DecidableEq

/-- The pending events, and the id the next one gets. -/
structure EventQueue (α : Type*) where
  events : KeyedList (PendingEvent.id (α := α))
  nextId : Nat
  fresh : ∀ e ∈ events, e.id < nextId

namespace EventQueue

variable {α : Type*}

theorem fresh_empty : ∀ e ∈ (KeyedList.empty : KeyedList (PendingEvent.id (α := α))), e.id < 0 := by
  simp

/-- The queue with no event. -/
def empty : EventQueue α := ⟨KeyedList.empty, 0, fresh_empty⟩

theorem fresh_schedule (q : EventQueue α) (action : α) :
    ∀ e ∈ q.events.insert ⟨q.nextId, action⟩, e.id < q.nextId + 1 := by
  intro e he
  rcases KeyedList.mem_insert.1 he with he | ⟨rfl, -⟩
  · exact Nat.lt_succ_of_lt (q.fresh e he)
  · exact Nat.lt_succ_self _

/-- Put an event in; its id is the number returned. -/
def scheduleEvent (q : EventQueue α) (action : α) : EventQueue α × Nat :=
  (⟨q.events.insert ⟨q.nextId, action⟩, q.nextId + 1, fresh_schedule q action⟩, q.nextId)

theorem fresh_filter (q : EventQueue α) (p : PendingEvent α → Bool) :
    ∀ e ∈ q.events.filter p, e.id < q.nextId :=
  fun e he => q.fresh e (KeyedList.mem_filter.1 he).1

/-- Take out the event with this id, if there is one. -/
def cancelEvent (q : EventQueue α) (eid : Option Nat) : EventQueue α :=
  ⟨q.events.filter fun e => eid ≠ some e.id, q.nextId, fresh_filter q _⟩

/-- The action of the event with this id. -/
def find? (q : EventQueue α) (id : Nat) : Option α := (q.events.find? id).map PendingEvent.action

variable {q : EventQueue α} {action : α} {eid : Option Nat} {e : PendingEvent α}

theorem mem_scheduleEvent :
    e ∈ (q.scheduleEvent action).1.events ↔ e ∈ q.events ∨ e = ⟨q.nextId, action⟩ := by
  have hnew : q.events.find? q.nextId = none :=
    KeyedList.find?_eq_none.2 fun e he => (q.fresh e he).ne
  simp [scheduleEvent, KeyedList.mem_insert, hnew]

theorem mem_cancelEvent :
    e ∈ (q.cancelEvent eid).events ↔ e ∈ q.events ∧ eid ≠ some e.id := by
  simp [cancelEvent]

theorem find?_eq_some {id : Nat} : q.find? id = some action ↔ ⟨id, action⟩ ∈ q.events := by
  unfold find?
  constructor
  · intro h
    obtain ⟨e, hfind, rfl⟩ := Option.map_eq_some_iff.1 h
    obtain ⟨hmem, rfl⟩ := KeyedList.find?_eq_some.1 hfind
    exact hmem
  · intro h
    have hfind : q.events.find? id = some ⟨id, action⟩ := KeyedList.find?_eq_some.2 ⟨h, rfl⟩
    rw [hfind]
    rfl

/-! ## Ids that are kept -/

variable {P Q : α → Prop} {eid' : Option Nat}

/-- An event with this id, if it is pending, has an action in `P`; and the id is not given
again. -/
def Owns (q : EventQueue α) (eid : Option Nat) (P : α → Prop) : Prop :=
  ∀ id, eid = some id → id < q.nextId ∧ ∀ e ∈ q.events, e.id = id → P e.action

/-- The pending events with an action in `P` have this id, so there is one at most. -/
structure Tracks (q : EventQueue α) (eid : Option Nat) (P : α → Prop) : Prop where
  owns : q.Owns eid P
  id_eq : ∀ e ∈ q.events, P e.action → eid = some e.id

/-- An event with an action in `P` is pending. -/
def Pending (q : EventQueue α) (P : α → Prop) : Prop := ∃ e ∈ q.events, P e.action

theorem owns_none : q.Owns none P := by
  intro id hid
  cases hid

theorem owns_scheduleEvent (h : P action) : (q.scheduleEvent action).1.Owns (some q.nextId) P := by
  intro id hid
  obtain rfl := Option.some.inj hid
  refine ⟨Nat.lt_succ_self _, fun e he heid => ?_⟩
  rcases mem_scheduleEvent.1 he with he | rfl
  · exact absurd heid (q.fresh e he).ne
  · exact h

theorem Owns.scheduleEvent (h : q.Owns eid P) (action : α) :
    (q.scheduleEvent action).1.Owns eid P := by
  intro id hid
  obtain ⟨hlt, hP⟩ := h id hid
  refine ⟨Nat.lt_succ_of_lt hlt, fun e he heid => ?_⟩
  rcases mem_scheduleEvent.1 he with he | rfl
  · exact hP e he heid
  · exact absurd heid.symm hlt.ne

theorem Owns.cancelEvent (h : q.Owns eid P) (eid' : Option Nat) :
    (q.cancelEvent eid').Owns eid P :=
  fun id hid => ⟨(h id hid).1, fun e he => (h id hid).2 e (mem_cancelEvent.1 he).1⟩

theorem tracks_empty : (empty : EventQueue α).Tracks none P where
  owns := owns_none
  id_eq e he := absurd he (KeyedList.not_mem_empty e)

theorem Tracks.scheduleEvent (h : q.Tracks eid P) (hP : ¬ P action) :
    (q.scheduleEvent action).1.Tracks eid P where
  owns := h.owns.scheduleEvent action
  id_eq e he hPe := by
    rcases mem_scheduleEvent.1 he with he | rfl
    · exact h.id_eq e he hPe
    · exact absurd hPe hP

theorem Tracks.cancelEvent (h : q.Tracks eid P) (eid' : Option Nat) :
    (q.cancelEvent eid').Tracks eid P where
  owns := h.owns.cancelEvent eid'
  id_eq e he := h.id_eq e (mem_cancelEvent.1 he).1

/-- An event that is scheduled where there was none of its kind is tracked by its id. -/
theorem tracks_scheduleEvent (hnot : ¬ q.Pending P) (h : P action) :
    (q.scheduleEvent action).1.Tracks (some q.nextId) P where
  owns := owns_scheduleEvent h
  id_eq e he hPe := by
    rcases mem_scheduleEvent.1 he with he | rfl
    · exact absurd ⟨e, he, hPe⟩ hnot
    · rfl

/-- Cancelling the id that is kept leaves no event. -/
theorem Tracks.not_pending (h : q.Tracks eid P) : ¬ (q.cancelEvent eid).Pending P := by
  rintro ⟨e, he, hP⟩
  obtain ⟨he, hne⟩ := mem_cancelEvent.1 he
  exact hne (h.id_eq e he hP)

/-- **Who schedules anew and cancels the old event has one pending.** -/
theorem Tracks.renew (h : q.Tracks eid P) (hP : P action) :
    ((q.scheduleEvent action).1.cancelEvent eid).Tracks (some q.nextId) P ∧
      ((q.scheduleEvent action).1.cancelEvent eid).Pending P := by
  have hne : eid ≠ some q.nextId := fun heq => (h.owns _ heq).1.ne rfl
  refine ⟨⟨(owns_scheduleEvent hP).cancelEvent eid, fun e he hPe => ?_⟩, ?_⟩
  · obtain ⟨he, hcancel⟩ := mem_cancelEvent.1 he
    rcases mem_scheduleEvent.1 he with he | rfl
    · exact absurd (h.id_eq e he hPe) hcancel
    · rfl
  · exact ⟨⟨q.nextId, action⟩, mem_cancelEvent.2 ⟨mem_scheduleEvent.2 (Or.inr rfl), hne⟩, hP⟩

theorem not_pending_empty : ¬ (empty : EventQueue α).Pending P := by
  rintro ⟨e, he, -⟩
  exact KeyedList.not_mem_empty e he

theorem Pending.scheduleEvent (h : q.Pending P) (action : α) :
    (q.scheduleEvent action).1.Pending P := by
  obtain ⟨e, he, hP⟩ := h
  exact ⟨e, mem_scheduleEvent.2 (Or.inl he), hP⟩

theorem Pending.of_scheduleEvent (h : (q.scheduleEvent action).1.Pending P) (hP : ¬ P action) :
    q.Pending P := by
  obtain ⟨e, he, hPe⟩ := h
  rcases mem_scheduleEvent.1 he with he | rfl
  · exact ⟨e, he, hPe⟩
  · exact absurd hPe hP

theorem Pending.of_cancelEvent (h : (q.cancelEvent eid).Pending P) : q.Pending P := by
  obtain ⟨e, he, hPe⟩ := h
  exact ⟨e, (mem_cancelEvent.1 he).1, hPe⟩

/-- Who cancels his own event takes out no event of another. -/
theorem Pending.cancelEvent (h : q.Pending P) (howns : q.Owns eid Q) (hPQ : ∀ a, P a → ¬ Q a) :
    (q.cancelEvent eid).Pending P := by
  obtain ⟨e, he, hP⟩ := h
  refine ⟨e, mem_cancelEvent.2 ⟨he, fun heq => ?_⟩, hP⟩
  exact hPQ _ hP ((howns e.id heq).2 e he rfl)

end EventQueue

end LinkState
