import LinkState.Deadlines

/-!
# The expirations of the FIB

The expiration of a FIB entry is scheduled under the name of the entry and knows nothing else of
it. It would delete a later entry of this name if it were left pending, so every operation that
removes or refreshes an entry cancels the event whose id the entry keeps.

`ExpiresAt` says of one name that its entry and its event go together; `expiresAt_step` is that
every operation keeps this for every name: the name it is about gets a new pair or loses both, and
nothing that it cancels belongs to another name.
-/

namespace LinkState

namespace Nlsr

/-! ## Entries and their events -/

/-- The entry of the name and its expiration: neither, or both, and then the event has the id the
entry keeps and is due at `due`. -/
def ExpiresAt (s : Nlsr) (due : TimePoint) (name : Name) : Prop :=
  match s.fib.table.find? name with
  | none => ∀ e ∈ s.scheduler.events, e.action ≠ .removeFibEntry name
  | some entry => ∃ id, entry.expiringEventId = some id ∧
      ∀ e, e ∈ s.scheduler.events ∧ e.action = .removeFibEntry name ↔
        e = ⟨id, due, .removeFibEntry name⟩

/-- Only the entry and the event of one name have changed. -/
structure OnlyNameExpires (s t : Nlsr) (name : Name) : Prop where
  table : ∀ n, n ≠ name → t.fib.table.find? n = s.fib.table.find? n
  events : ∀ n, n ≠ name → ∀ e : ScheduledEvent, e.action = .removeFibEntry n →
    (e ∈ t.scheduler.events ↔ e ∈ s.scheduler.events)

theorem ExpiresAt.congr {s t : Nlsr} {due : TimePoint} {n : Name} (h : s.ExpiresAt due n)
    (htable : t.fib.table.find? n = s.fib.table.find? n)
    (hevents : ∀ e : ScheduledEvent, e.action = .removeFibEntry n →
      (e ∈ t.scheduler.events ↔ e ∈ s.scheduler.events)) : t.ExpiresAt due n := by
  unfold ExpiresAt at h ⊢
  rw [htable]
  cases hfind : s.fib.table.find? n with
  | none =>
    rw [hfind] at h
    exact fun e he haction => h e ((hevents e haction).1 he) haction
  | some entry =>
    rw [hfind] at h
    obtain ⟨id, hid, hone⟩ := h
    exact ⟨id, hid, fun e => (and_congr_left (hevents e)).trans (hone e)⟩

theorem expiresAt_of_none {s : Nlsr} {due : TimePoint} {n : Name}
    (htable : s.fib.table.find? n = none)
    (hevents : ∀ e ∈ s.scheduler.events, e.action ≠ .removeFibEntry n) : s.ExpiresAt due n := by
  rw [ExpiresAt, htable]
  exact hevents

/-- The event with the id that the entry of a name keeps is the expiration of this name. -/
theorem ExpiresAt.action_of_id {s : Nlsr} {due : TimePoint} {name : Name}
    (h : s.ExpiresAt due name) {e : ScheduledEvent} (he : e ∈ s.scheduler.events)
    (hid : (s.fibEntry name).expiringEventId = some e.id) : e.action = .removeFibEntry name := by
  unfold ExpiresAt at h
  unfold fibEntry at hid
  cases hfind : s.fib.table.find? name with
  | none =>
    rw [hfind] at hid
    exact absurd hid (Option.some_ne_none _).symm
  | some entry =>
    rw [hfind] at h hid
    obtain ⟨id, hentry, hone⟩ := h
    obtain rfl : id = e.id := Option.some.inj (hentry.symm.trans hid)
    have hmem := ((hone ⟨e.id, due, .removeFibEntry name⟩).2 rfl).1
    rw [KeyedList.eq_of_key_eq he hmem rfl]

/-- The expiration of a name has the id that its entry keeps. -/
theorem ExpiresAt.id_of_action {s : Nlsr} {due : TimePoint} {name : Name}
    (h : s.ExpiresAt due name) {e : ScheduledEvent} (he : e ∈ s.scheduler.events)
    (haction : e.action = .removeFibEntry name) :
    e.due = due ∧ (s.fibEntry name).expiringEventId = some e.id ∧ s.fib.table.contains name := by
  unfold ExpiresAt at h
  unfold fibEntry KeyedList.contains
  cases hfind : s.fib.table.find? name with
  | none =>
    rw [hfind] at h
    exact absurd haction (h e he)
  | some entry =>
    rw [hfind] at h
    obtain ⟨id, hentry, hone⟩ := h
    obtain rfl := (hone e).1 ⟨he, haction⟩
    exact ⟨rfl, hentry, rfl⟩

/-! ## Removal -/

theorem scheduler_fibRemove (s : Nlsr) (name : Name) :
    (s.fibRemove name).scheduler = s.scheduler.cancelEvent (s.fibEntry name).expiringEventId := by
  unfold fibRemove fibEntry
  cases h : s.fib.table.find? name with
  | none => exact (congrArg Nlsr.scheduler (cancelEvent_none s)).symm
  | some entry =>
    have hsent := onlySent_foldl (fun s (nh : NextHop) =>
      onlySent_unregisterIfUpdatable s entry.name nh.connectingFaceUri) entry.nexthopList.toList s
    show Scheduler.cancelEvent (List.foldl _ s entry.nexthopList.toList).scheduler _ = _
    rw [hsent.scheduler]
    rfl

theorem mem_fibRemove {s : Nlsr} {name : Name} {e : ScheduledEvent} :
    e ∈ (s.fibRemove name).scheduler.events ↔
      e ∈ s.scheduler.events ∧ (s.fibEntry name).expiringEventId ≠ some e.id := by
  rw [scheduler_fibRemove, Scheduler.mem_cancelEvent]

/-- What the entry of a name has scheduled is the expiration of no other name. -/
theorem ExpiresAt.id_ne {s : Nlsr} {due : TimePoint} {name n : Name} (h : s.ExpiresAt due name)
    (hn : n ≠ name) {e : ScheduledEvent} (he : e ∈ s.scheduler.events)
    (haction : e.action = .removeFibEntry n) :
    (s.fibEntry name).expiringEventId ≠ some e.id := fun hid =>
  hn (Action.removeFibEntry.inj (haction.symm.trans (h.action_of_id he hid)))

theorem onlyNameExpires_fibRemove {s : Nlsr} {due : TimePoint} {name : Name}
    (h : s.ExpiresAt due name) : OnlyNameExpires s (s.fibRemove name) name where
  table n hn := by rw [find?_fibRemove, if_neg hn]
  events n hn e haction := by
    rw [mem_fibRemove]
    exact and_iff_left_of_imp fun he => h.id_ne hn he haction

theorem expiresAt_fibRemove {s : Nlsr} {due : TimePoint} {name : Name} (h : s.ExpiresAt due name)
    (due' : TimePoint) : (s.fibRemove name).ExpiresAt due' name := by
  refine expiresAt_of_none (by rw [find?_fibRemove, if_pos rfl]) fun e he haction => ?_
  obtain ⟨he, hne⟩ := mem_fibRemove.1 he
  exact hne (h.id_of_action he haction).2.1

/-- The expiration of an entry removes it as any other removal does: its own event, which has left
the scheduler, is the one that is cancelled. -/
theorem expiresAt_expire {s : Nlsr} {due : TimePoint} {name : Name} (h : s.ExpiresAt due name)
    {e : ScheduledEvent} (he : e ∈ s.scheduler.events) (haction : e.action = .removeFibEntry name)
    {due' : TimePoint} {n : Name} (hn : (s.fibRemove name).ExpiresAt due' n) :
    ((s.cancelEvent (some e.id)).fibRemove name).ExpiresAt due' n := by
  refine hn.congr ?_ fun e' _ => ?_
  · rw [find?_fibRemove, find?_fibRemove]
    rfl
  · have hid := (h.id_of_action he haction).2.1
    have hentry : (s.cancelEvent (some e.id)).fibEntry name = s.fibEntry name := rfl
    rw [mem_fibRemove, mem_fibRemove, hentry, hid]
    show e' ∈ (s.scheduler.cancelEvent (some e.id)).events ∧ _ ↔ _
    rw [Scheduler.mem_cancelEvent, and_assoc, and_self]

/-! ## Updates -/

/-- The new entry and the new event of an update with hops to install. -/
theorem exists_fibUpdate_expires {s : Nlsr} {allHops : NexthopList}
    (hsize : (s.hopsToInstall allHops).size ≠ 0) (name : Name) :
    (∃ entry : FibEntry, entry.expiringEventId = some s.scheduler.nextId ∧
      ∀ n, (s.fibUpdate name allHops).fib.table.find? n =
        if n = name then some entry else s.fib.table.find? n) ∧
      ∀ e, e ∈ (s.fibUpdate name allHops).scheduler.events ↔
        (e ∈ s.scheduler.events ∧ (s.fibEntry name).expiringEventId ≠ some e.id) ∨
          e = ⟨s.scheduler.nextId, s.now + s.fibLifetime, .removeFibEntry name⟩ := by
  obtain ⟨t, entry, seqNo, table, hsent, hname, heq, htable⟩ := exists_fibUpdate_sent hsize name
  have hnext : t.scheduler.nextId = s.scheduler.nextId := congrArg _ hsent.scheduler
  rw [heq]
  refine ⟨⟨_, congrArg some hnext, htable⟩, fun e => ?_⟩
  have hlife : t.now + seconds t.fib.refreshTime = s.now + s.fibLifetime := by
    rw [hsent.sameTimes.now, hsent.sameTimes.refreshTime, ← fibLifetime]
  refine Scheduler.mem_scheduleEvent.trans (or_congr ?_ ?_)
  · exact Scheduler.mem_cancelEvent.trans (by rw [hsent.scheduler])
  · show e = ⟨t.scheduler.nextId, t.now + seconds t.fib.refreshTime,
      .removeFibEntry entry.name⟩ ↔ _
    rw [hnext, hlife, hname]

theorem onlyNameExpires_fibUpdate {s : Nlsr} {due : TimePoint} {name : Name}
    (h : s.ExpiresAt due name) (allHops : NexthopList) :
    OnlyNameExpires s (s.fibUpdate name allHops) name := by
  by_cases hsize : (s.hopsToInstall allHops).size = 0
  · rw [fibUpdate_of_size_eq_zero hsize]
    exact onlyNameExpires_fibRemove h
  · obtain ⟨⟨entry, -, htable⟩, hevents⟩ := exists_fibUpdate_expires hsize name
    refine ⟨fun n hn => (htable n).trans (if_neg hn), fun n hn e haction => ?_⟩
    rw [hevents]
    constructor
    · rintro (⟨he, -⟩ | rfl)
      · exact he
      · exact absurd (Action.removeFibEntry.inj haction).symm hn
    · exact fun he => Or.inl ⟨he, h.id_ne hn he haction⟩

/-- **An updated entry expires after its lifetime.** -/
theorem expiresAt_fibUpdate {s : Nlsr} {due : TimePoint} {name : Name} (h : s.ExpiresAt due name)
    (allHops : NexthopList) :
    (s.fibUpdate name allHops).ExpiresAt (s.now + s.fibLifetime) name := by
  by_cases hsize : (s.hopsToInstall allHops).size = 0
  · rw [fibUpdate_of_size_eq_zero hsize]
    exact expiresAt_fibRemove h _
  · obtain ⟨⟨entry, heid, htable⟩, hevents⟩ := exists_fibUpdate_expires hsize name
    rw [ExpiresAt, htable, if_pos rfl]
    refine ⟨s.scheduler.nextId, heid, fun e => ?_⟩
    rw [hevents]
    constructor
    · rintro ⟨⟨he, hne⟩ | rfl, haction⟩
      · exact absurd (h.id_of_action he haction).2.1 hne
      · rfl
    · rintro rfl
      exact ⟨Or.inr rfl, rfl⟩

/-! ## Cleaning -/

theorem mem_fibClean {s : Nlsr} {e : ScheduledEvent} :
    e ∈ s.fibClean.scheduler.events ↔ e ∈ s.scheduler.events ∧
      ∀ entry ∈ s.fib.table, entry.expiringEventId ≠ some e.id := by
  have hfold : ∀ (l : List FibEntry) (s : Nlsr),
      e ∈ (l.foldl (fun s entry => entry.nexthopList.toList.foldl
        (fun s nh => s.unregisterPrefix entry.name nh.connectingFaceUri)
          (s.cancelEvent entry.expiringEventId)) s).scheduler.events ↔
        e ∈ s.scheduler.events ∧ ∀ entry ∈ l, entry.expiringEventId ≠ some e.id := by
    intro l
    induction l with
    | nil => simp
    | cons entry l ih =>
      intro s
      have hsent := onlySent_foldl (fun s (nh : NextHop) =>
        onlySent_unregisterPrefix s entry.name nh.connectingFaceUri) entry.nexthopList.toList
          (s.cancelEvent entry.expiringEventId)
      rw [List.foldl_cons, ih, hsent.scheduler, List.forall_mem_cons, ← and_assoc]
      exact and_congr_left fun _ => Scheduler.mem_cancelEvent
  exact hfold s.fib.table.toList s

theorem expiresAt_fibClean {s : Nlsr} {due : TimePoint} {name : Name} (h : s.ExpiresAt due name)
    (due' : TimePoint) : s.fibClean.ExpiresAt due' name := by
  refine expiresAt_of_none rfl fun e he haction => ?_
  obtain ⟨he, hne⟩ := mem_fibClean.1 he
  obtain ⟨-, hid, hcontains⟩ := h.id_of_action he haction
  obtain ⟨entry, hfind⟩ := Option.isSome_iff_exists.1 hcontains
  refine hne entry (KeyedList.mem_of_find? hfind) ?_
  rw [fibEntry, hfind] at hid
  exact hid

theorem sameTimes_fibClean (s : Nlsr) : SameTimes s s.fibClean := by
  have hfold : SameTimes s (s.fib.table.toList.foldl (fun s entry =>
      entry.nexthopList.toList.foldl
        (fun s nh => s.unregisterPrefix entry.name nh.connectingFaceUri)
          (s.cancelEvent entry.expiringEventId)) s) := by
    refine List.foldlRecOn (motive := SameTimes s) _ _ (SameTimes.refl s) fun t ht entry _ => ?_
    have hcancel : SameTimes t (t.cancelEvent entry.expiringEventId) :=
      ⟨rfl, rfl, rfl, rfl, rfl, rfl, rfl⟩
    exact ht.trans (hcancel.trans (onlySent_foldl (fun s (nh : NextHop) =>
      onlySent_unregisterPrefix s entry.name nh.connectingFaceUri) _ _).sameTimes)
  exact hfold.trans ⟨rfl, rfl, rfl, rfl, rfl, rfl, rfl⟩

end Nlsr

/-! ## Runs -/

/-- What happens to a FIB. -/
inductive FibEvent
  | update (name : Name) (allHops : NexthopList)
  | remove (name : Name)
  | clean
  /-- A pending expiration of a FIB entry fires. -/
  | expire (id : Nat)
  | clock (now : TimePoint)

/-- A router, and when each name was last updated. -/
structure FibState where
  nlsr : Nlsr
  updatedAt : Name → TimePoint

namespace FibState

open Nlsr

def step (s : FibState) : FibEvent → FibState
  | .update name allHops =>
    { nlsr := s.nlsr.fibUpdate name allHops
      updatedAt := Function.update s.updatedAt name s.nlsr.now }
  | .remove name => { s with nlsr := s.nlsr.fibRemove name }
  | .clean => { s with nlsr := s.nlsr.fibClean }
  | .expire id =>
    match s.nlsr.pendingAction id with
    | some (.removeFibEntry name) =>
      { s with nlsr := (s.nlsr.cancelEvent (some id)).fibRemove name }
    | _ => s
  | .clock now => { s with nlsr := { s.nlsr with now } }

/-- Every name has an entry and its expiration, or neither. -/
def Expires (s : FibState) : Prop :=
  ∀ name, s.nlsr.ExpiresAt (s.updatedAt name + s.nlsr.fibLifetime) name

theorem Expires.of_sameTimes {s : FibState} {t : Nlsr} (htimes : SameTimes s.nlsr t)
    (h : ∀ name, t.ExpiresAt (s.updatedAt name + s.nlsr.fibLifetime) name) :
    Expires { s with nlsr := t } := by
  intro name
  show t.ExpiresAt (s.updatedAt name + t.fibLifetime) name
  rw [htimes.fibLifetime]
  exact h name

theorem expires_remove {s : FibState} (h : s.Expires) (name : Name) :
    ∀ n, (s.nlsr.fibRemove name).ExpiresAt (s.updatedAt n + s.nlsr.fibLifetime) n := by
  intro n
  by_cases hn : n = name
  · subst hn
    exact expiresAt_fibRemove (h n) _
  · have honly := onlyNameExpires_fibRemove (h name)
    exact (h n).congr (honly.table n hn) (honly.events n hn)

/-- **Every operation keeps entries and expirations together.** -/
theorem expires_step (s : FibState) (e : FibEvent) (h : s.Expires) : (s.step e).Expires := by
  cases e with
  | update name allHops =>
    intro n
    have htimes := sameTimes_fibUpdate s.nlsr name allHops
    show (s.nlsr.fibUpdate name allHops).ExpiresAt
      (Function.update s.updatedAt name s.nlsr.now n +
        (s.nlsr.fibUpdate name allHops).fibLifetime) n
    rw [htimes.fibLifetime]
    by_cases hn : n = name
    · subst hn
      rw [Function.update_self]
      exact expiresAt_fibUpdate (h n) allHops
    · have honly := onlyNameExpires_fibUpdate (h name) allHops
      rw [Function.update_of_ne hn]
      exact (h n).congr (honly.table n hn) (honly.events n hn)
  | remove name =>
    exact .of_sameTimes (sameTimes_fibRemove s.nlsr name) (expires_remove h name)
  | clean =>
    exact .of_sameTimes (sameTimes_fibClean s.nlsr) fun name => expiresAt_fibClean (h name) _
  | expire id =>
    unfold step
    dsimp only
    split
    · rename_i name hid
      obtain ⟨e, hfind, haction⟩ := Option.map_eq_some_iff.1 hid
      obtain rfl : e.id = id := KeyedList.key_of_find? hfind
      have htimes : SameTimes s.nlsr (s.nlsr.cancelEvent (some e.id)) :=
        ⟨rfl, rfl, rfl, rfl, rfl, rfl, rfl⟩
      refine .of_sameTimes (htimes.trans (sameTimes_fibRemove _ name)) fun n => ?_
      exact expiresAt_expire (h name) (KeyedList.mem_of_find? hfind) haction
        (expires_remove h name n)
    · exact h
  | clock now => exact h

/-- The entries of the FIB and the pending expirations. -/
structure OneExpirationEach (s : FibState) : Prop where
  /-- An entry has one pending expiration, the one whose id it keeps, and this is due when the
  lifetime of the entry is over. -/
  one : ∀ entry ∈ s.nlsr.fib.table, ∃ e ∈ s.nlsr.scheduler.events,
    entry.expiringEventId = some e.id ∧ e.action = .removeFibEntry entry.name ∧
    e.due = s.updatedAt entry.name + seconds s.nlsr.fib.refreshTime ∧
    ∀ e' ∈ s.nlsr.scheduler.events, e'.action = .removeFibEntry entry.name → e' = e
  /-- There is no other expiration. -/
  owned : ∀ e ∈ s.nlsr.scheduler.events, ∀ name, e.action = .removeFibEntry name →
    ∃ entry ∈ s.nlsr.fib.table, entry.name = name
  names : (s.nlsr.fib.table.toList.map FibEntry.name).Nodup

theorem Expires.oneExpirationEach {s : FibState} (h : s.Expires) : s.OneExpirationEach where
  one entry hentry := by
    have hname := h entry.name
    rw [ExpiresAt, KeyedList.find?_of_mem hentry] at hname
    obtain ⟨id, hid, hone⟩ := hname
    have hmem := (hone _).2 rfl
    exact ⟨_, hmem.1, hid, rfl, rfl, fun e' he' haction => (hone e').1 ⟨he', haction⟩⟩
  owned e he name haction := by
    obtain ⟨-, -, hcontains⟩ := (h name).id_of_action he haction
    obtain ⟨entry, hfind⟩ := Option.isSome_iff_exists.1 hcontains
    exact ⟨entry, KeyedList.mem_of_find? hfind, KeyedList.key_of_find? hfind⟩
  names := s.nlsr.fib.table.nodup

/-- **Each FIB entry has exactly one pending expiration**, in every state of every run from an
empty FIB. Where an expiration fires no sooner than it is due, the lifetime of the entry since its
last update is over. -/
theorem fib_expirations (s : FibState) (htable : s.nlsr.fib.table.toList = [])
    (hevents : ∀ e ∈ s.nlsr.scheduler.events, ¬ ExpiresFibEntry e.action) (es : List FibEvent) :
    Along step OneExpirationEach s es ∧
      ∀ before id after, es = before ++ .expire id :: after →
        let u := run step s before
        ∀ e ∈ u.nlsr.scheduler.events, e.id = id → e.due ≤ u.nlsr.now →
          ∀ name, e.action = .removeFibEntry name →
            u.updatedAt name + seconds u.nlsr.fib.refreshTime ≤ u.nlsr.now := by
  have hempty : s.nlsr.fib.table = KeyedList.empty := KeyedList.ext htable
  have hs : s.Expires := fun name => by
    refine expiresAt_of_none (by rw [hempty]; rfl) fun e he haction => ?_
    exact hevents e he ⟨name, haction⟩
  refine ⟨(along_of_step expires_step hs es).imp fun _ h => h.oneExpirationEach, ?_⟩
  rintro before id after rfl u e he - hdue name haction
  have hu : u.Expires := run_induction expires_step hs before
  obtain ⟨heq, -⟩ := (hu name).id_of_action he haction
  rw [heq] at hdue
  exact hdue

/-- A router with an empty FIB whose entries live for 10 seconds. -/
def emptyFib : FibState where
  nlsr := { confParam := { network := [⟨"a"⟩] }, fib := { refreshTime := 10 } }
  updatedAt _ := 0

/-- An entry is updated twice, 4 seconds apart, and expires 10 seconds after that. -/
def updatedTwice : List FibEvent :=
  let hops := KeyedList.empty.insert { connectingFaceUri := "udp4://b" }
  [.update [⟨"b"⟩] hops, .clock (seconds 4), .update [⟨"b"⟩] hops, .clock (seconds 14), .expire 1]

theorem fib_expirations_updatedTwice :
    Along step OneExpirationEach emptyFib updatedTwice ∧
      seconds 4 + seconds 10 ≤ (run step emptyFib (updatedTwice.take 4)).nlsr.now := by
  have h := fib_expirations emptyFib rfl (by simp [emptyFib]) updatedTwice
  refine ⟨h.1, ?_⟩
  have hpending : (run step emptyFib (updatedTwice.take 4)).nlsr.scheduler.events.find? 1 =
      some ⟨1, seconds 14, .removeFibEntry [⟨"b"⟩]⟩ := by decide +kernel
  exact h.2 (updatedTwice.take 4) 1 [] rfl _ (KeyedList.mem_of_find? hpending) rfl
    (by decide +kernel) [⟨"b"⟩] rfl

end FibState

end LinkState
