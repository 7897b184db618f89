import LinkState.LsdbSpec

/-!
# What operations do to the scheduler

An operation puts events in and cancels events. It cancels by an id that it finds in a table;
so to know which event goes one has to know which event the id was given for. `Owns` says this
of an id, and it stays true whatever else is scheduled, since ids are never used again.

* `Scheduler.Within P` says that an operation puts in and cancels only events with an action
  in `P`.
* `FibTurn` says it of the operations on the FIB: they touch the expirations of its entries and
  nothing else, because an entry owns the id it keeps.
-/

namespace LinkState

namespace Scheduler

/-- The event with this id, if it is pending, has an action in `P`; and the id is not given
again. -/
def Owns (sch : Scheduler) (eid : Option Nat) (P : Action → Prop) : Prop :=
  ∀ id, eid = some id → id < sch.nextId ∧ ∀ e ∈ sch.events, e.id = id → P e.action

/-- From one scheduler to another only events with an action in `P` are put in or taken out. -/
structure Within (P : Action → Prop) (sch sch' : Scheduler) : Prop where
  nextId : sch.nextId ≤ sch'.nextId
  new : ∀ e ∈ sch'.events, e ∈ sch.events ∨ (sch.nextId ≤ e.id ∧ P e.action)
  old : ∀ e ∈ sch.events, e ∈ sch'.events ∨ P e.action

variable {P Q : Action → Prop} {sch sch' sch'' : Scheduler}

theorem Within.refl (P : Action → Prop) (sch : Scheduler) : Within P sch sch :=
  ⟨le_rfl, fun _ => Or.inl, fun _ => Or.inl⟩

theorem Within.trans (h : Within P sch sch') (h' : Within P sch' sch'') : Within P sch sch'' where
  nextId := h.nextId.trans h'.nextId
  new e he := by
    rcases h'.new e he with he | ⟨hid, hP⟩
    · exact h.new e he
    · exact Or.inr ⟨h.nextId.trans hid, hP⟩
  old e he := by
    rcases h.old e he with he | hP
    · exact h'.old e he
    · exact Or.inr hP

theorem Within.mono (h : Within P sch sch') (hPQ : ∀ a, P a → Q a) : Within Q sch sch' where
  nextId := h.nextId
  new e he := (h.new e he).imp_right fun h => ⟨h.1, hPQ _ h.2⟩
  old e he := (h.old e he).imp_right (hPQ _)

theorem within_scheduleEvent {action : Action} (h : P action) (sch : Scheduler) (due : TimePoint) :
    Within P sch (sch.scheduleEvent due action).1 where
  nextId := Nat.le_succ _
  new e he := by
    rcases mem_scheduleEvent.1 he with he | rfl
    · exact Or.inl he
    · exact Or.inr ⟨le_rfl, h⟩
  old e he := Or.inl (mem_scheduleEvent.2 (Or.inl he))

theorem within_cancelEvent {eid : Option Nat} (h : sch.Owns eid P) :
    Within P sch (sch.cancelEvent eid) where
  nextId := le_rfl
  new e he := Or.inl (mem_cancelEvent.1 he).1
  old e he := by
    by_cases hid : eid = some e.id
    · exact Or.inr ((h e.id hid).2 e he rfl)
    · exact Or.inl (mem_cancelEvent.2 ⟨he, hid⟩)

theorem owns_none (sch : Scheduler) (P : Action → Prop) : sch.Owns none P := nofun

theorem Owns.mono {eid : Option Nat} (h : sch.Owns eid P) (hPQ : ∀ a, P a → Q a) :
    sch.Owns eid Q :=
  fun id hid => ⟨(h id hid).1, fun e he heid => hPQ _ ((h id hid).2 e he heid)⟩

/-- Whatever is put in has a later id. -/
theorem Owns.within {eid : Option Nat} (h : sch.Owns eid P) (h' : Within Q sch sch') :
    sch'.Owns eid P := by
  intro id hid
  obtain ⟨hlt, hP⟩ := h id hid
  refine ⟨hlt.trans_le h'.nextId, fun e he heid => ?_⟩
  rcases h'.new e he with he | ⟨hle, -⟩
  · exact hP e he heid
  · omega

theorem owns_scheduleEvent {action : Action} (h : P action) (sch : Scheduler) (due : TimePoint) :
    (sch.scheduleEvent due action).1.Owns (some sch.nextId) P := by
  intro id hid
  obtain rfl := Option.some.inj hid
  refine ⟨Nat.lt_succ_self _, fun e he heid => ?_⟩
  rcases mem_scheduleEvent.1 he with he | rfl
  · exact absurd heid (sch.fresh e he).ne
  · exact h

end Scheduler

namespace Nlsr

open Scheduler

/-! ## The FIB -/

/-- The expiration of a FIB entry. -/
def ExpiresFibEntry (action : Action) : Prop := ∃ name, action = .removeFibEntry name

/-- Every FIB entry owns its event. -/
def FibIds (s : Nlsr) : Prop :=
  ∀ entry ∈ s.fib.table, s.scheduler.Owns entry.expiringEventId ExpiresFibEntry

/-- The operation touches expirations of FIB entries only, as long as the entries own them. -/
def FibTurn (s t : Nlsr) : Prop :=
  s.FibIds → Within ExpiresFibEntry s.scheduler t.scheduler ∧ t.FibIds

theorem FibIds.congr {s t : Nlsr} (h : s.FibIds) (htable : t.fib.table = s.fib.table)
    (hsch : t.scheduler = s.scheduler) : t.FibIds := by
  unfold FibIds
  rw [htable, hsch]
  exact h

theorem FibIds.within {P : Action → Prop} {s t : Nlsr} (h : s.FibIds)
    (htable : t.fib.table = s.fib.table) (hsch : Within P s.scheduler t.scheduler) :
    t.FibIds := by
  intro entry hentry
  rw [htable] at hentry
  exact (h entry hentry).within hsch

theorem fibTurn_of_eq {s t : Nlsr} (htable : t.fib.table = s.fib.table)
    (hsch : t.scheduler = s.scheduler) : FibTurn s t :=
  fun h => ⟨hsch ▸ Within.refl _ _, h.congr htable hsch⟩

theorem FibTurn.refl (s : Nlsr) : FibTurn s s := fibTurn_of_eq rfl rfl

theorem FibTurn.trans {s t u : Nlsr} (h : FibTurn s t) (h' : FibTurn t u) : FibTurn s u := by
  intro hs
  obtain ⟨hst, ht⟩ := h hs
  obtain ⟨htu, hu⟩ := h' ht
  exact ⟨hst.trans htu, hu⟩

theorem OnlySent.fibTurn {s t : Nlsr} (h : OnlySent s t) : FibTurn s t :=
  fibTurn_of_eq h.table h.scheduler

theorem fibTurn_cancelEvent {s : Nlsr} {entry : FibEntry} (h : entry ∈ s.fib.table) :
    FibTurn s (s.cancelEvent entry.expiringEventId) := by
  intro hs
  have hwithin := within_cancelEvent (hs entry h)
  exact ⟨hwithin, hs.within rfl hwithin⟩

/-- An entry that is refreshed owns its new event. -/
theorem refreshFibEntry_owns (s : Nlsr) (entry : FibEntry) (seqNo : Int) :
    let r := s.refreshFibEntry entry seqNo
    Within ExpiresFibEntry s.scheduler r.1.scheduler ∧
      r.1.scheduler.Owns r.2.expiringEventId ExpiresFibEntry :=
  ⟨within_scheduleEvent ⟨entry.name, rfl⟩ _ _, owns_scheduleEvent ⟨entry.name, rfl⟩ _ _⟩

theorem fibTurn_fibRemove (s : Nlsr) (name : Name) : FibTurn s (s.fibRemove name) := by
  unfold fibRemove
  cases h : s.fib.table.find? name with
  | none => exact FibTurn.refl s
  | some entry =>
    have hsent := onlySent_foldl (fun s (nh : NextHop) =>
      onlySent_unregisterIfUpdatable s entry.name nh.connectingFaceUri) entry.nexthopList.toList s
    dsimp only
    generalize List.foldl _ s entry.nexthopList.toList = u at hsent ⊢
    have hmem : entry ∈ u.fib.table := hsent.table ▸ KeyedList.mem_of_find? h
    refine (hsent.fibTurn.trans (fibTurn_cancelEvent hmem)).trans fun hu => ?_
    exact ⟨Within.refl _ _, fun e he => hu e (KeyedList.mem_erase.1 he).1⟩

/-- The expiration of the entry of a name is cancelled, if there is one. -/
theorem fibTurn_cancel_fibEntry (s : Nlsr) (name : Name) :
    FibTurn s (s.cancelEvent (s.fibEntry name).expiringEventId) := by
  unfold fibEntry
  cases h : s.fib.table.find? name with
  | none =>
    show FibTurn s (s.cancelEvent none)
    rw [cancelEvent_none]
    exact FibTurn.refl s
  | some entry => exact fibTurn_cancelEvent (KeyedList.mem_of_find? h)

theorem fibTurn_fibUpdate (s : Nlsr) (name : Name) (allHops : NexthopList) :
    FibTurn s (s.fibUpdate name allHops) := by
  by_cases hsize : (s.hopsToInstall allHops).size = 0
  · rw [fibUpdate_of_size_eq_zero hsize]
    exact fibTurn_fibRemove s name
  · obtain ⟨t, entry, seqNo, table, hsent, -, heq, htable⟩ := exists_fibUpdate_sent hsize name
    have hcancel : FibTurn t _ := fibTurn_cancel_fibEntry t name
    rw [hsent.fibEntry] at hcancel
    rw [heq]
    refine (hsent.fibTurn.trans hcancel).trans fun hu => ?_
    obtain ⟨hwithin, howns⟩ := refreshFibEntry_owns
      (t.cancelEvent (s.fibEntry name).expiringEventId) entry seqNo
    refine ⟨hwithin, fun e he => ?_⟩
    have hfind := (htable e.name).symm.trans (KeyedList.find?_of_mem he)
    split_ifs at hfind with hn
    · obtain rfl := Option.some.inj hfind
      exact howns
    · have hold : e ∈ t.fib.table := hsent.table ▸ KeyedList.mem_of_find? hfind
      exact (hu e hold).within hwithin

theorem fibTurn_setNamePrefixTable (s : Nlsr)
    (namePrefixTable : KeyedList NamePrefixTableEntry.namePrefix) :
    FibTurn s { s with namePrefixTable } := fibTurn_of_eq rfl rfl

theorem fibTurn_addEntry (s : Nlsr) (name dest : Name) : FibTurn s (s.addEntry name dest) := by
  unfold addEntry addEntryRte
  cases s.namePrefixTable.find? name with
  | none =>
    dsimp only
    split_ifs
    · exact (fibTurn_setNamePrefixTable s _).trans (fibTurn_fibUpdate _ _ _)
    · exact fibTurn_setNamePrefixTable s _
  | some it =>
    dsimp only
    split_ifs
    · exact (fibTurn_setNamePrefixTable s _).trans (fibTurn_fibUpdate _ _ _)
    · exact (fibTurn_setNamePrefixTable s _).trans (fibTurn_fibRemove _ _)

theorem fibTurn_removeEntry (s : Nlsr) (name dest : Name) :
    FibTurn s (s.removeEntry name dest) := by
  unfold removeEntry removeEntryRte
  cases s.namePrefixTable.find? name with
  | none => exact FibTurn.refl s
  | some it =>
    dsimp only
    split_ifs
    · exact (fibTurn_setNamePrefixTable s _).trans (fibTurn_fibRemove _ _)
    · exact (fibTurn_setNamePrefixTable s _).trans (fibTurn_fibUpdate _ _ _)

theorem fibTurn_addEntries (s : Nlsr) (pairs : List (Name × Name)) :
    FibTurn s (s.addEntries pairs) := by
  induction pairs generalizing s with
  | nil => exact FibTurn.refl s
  | cons p pairs ih => exact (fibTurn_addEntry s p.1 p.2).trans (ih _)

theorem fibTurn_removeEntries (s : Nlsr) (pairs : List (Name × Name)) :
    FibTurn s (s.removeEntries pairs) := by
  induction pairs generalizing s with
  | nil => exact FibTurn.refl s
  | cons p pairs ih => exact (fibTurn_removeEntry s p.1 p.2).trans (ih _)

theorem fibTurn_updateWithNewRoute (s : Nlsr) : FibTurn s s.updateWithNewRoute := by
  rw [updateWithNewRoute_eq]
  exact fibTurn_addEntries s _

/-- The logs sort the hops and leave the ids alone. -/
theorem fibTurn_fibWriteLog (s : Nlsr) : FibTurn s s.fibWriteLog := by
  intro hs
  refine ⟨Within.refl _ _, fun e he => ?_⟩
  obtain ⟨entry, hentry, rfl⟩ := List.mem_map.1 he
  exact hs entry hentry

end Nlsr

end LinkState
