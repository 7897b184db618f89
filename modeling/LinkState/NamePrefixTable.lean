import LinkState.Fib

/-!
# The name prefix table

For each name the origins that announce it, with a copy of the routing table entry of each, and
the hops of all of them merged by face. Every change is pushed to the FIB.
-/

namespace LinkState

namespace NamePrefixTableEntry

/-- Merge the hops of all origins. -/
def generateNhlfromRteList (entry : NamePrefixTableEntry) : NamePrefixTableEntry :=
  { entry with
    nexthopList := entry.rteList.toList.foldl (fun l rte =>
      rte.nexthopList.toList.foldl NexthopList.addNextHop l) KeyedList.empty }

def removeRoutingTableEntry (entry : NamePrefixTableEntry) (rte : RoutingTableEntry) :
    NamePrefixTableEntry :=
  { entry with rteList := entry.rteList.erase rte.destination }

/-- Append the entry of a new origin; for a known origin copy the hops over the old ones. -/
def addRoutingTableEntry (entry : NamePrefixTableEntry) (rte : RoutingTableEntry) :
    NamePrefixTableEntry :=
  match entry.rteList.find? rte.destination with
  | none => { entry with rteList := entry.rteList.insert rte }
  | some it =>
    let hops := rte.nexthopList.toList.foldl NexthopList.addNextHop KeyedList.empty
    { entry with rteList := entry.rteList.replace { it with nexthopList := hops } }

/-- `generateNhlfromRteList(); getNexthopList().sort()`. -/
def mergeHops (entry : NamePrefixTableEntry) : NamePrefixTableEntry :=
  let entry := entry.generateNhlfromRteList
  { entry with nexthopList := entry.nexthopList.sortHops }

end NamePrefixTableEntry

namespace Nlsr

/-- `NamePrefixTable::addEntry(name, rte)`. -/
def addEntryRte (s : Nlsr) (name : Name) (rte : RoutingTableEntry) : Nlsr :=
  match s.namePrefixTable.find? name with
  | none =>
    let entry := (({ namePrefix := name } : NamePrefixTableEntry).addRoutingTableEntry rte).mergeHops
    let s := { s with namePrefixTable := s.namePrefixTable.insert entry }
    if rte.nexthopList.size > 0 then s.fibUpdate name entry.nexthopList else s
  | some it =>
    let it := (it.addRoutingTableEntry rte).mergeHops
    let s := { s with namePrefixTable := s.namePrefixTable.replace it }
    -- The prefix stays in the table without hops: a later calculation may bring some.
    if it.nexthopList.size > 0 then s.fibUpdate name it.nexthopList else s.fibRemove name

/-- `NamePrefixTable::removeEntry(name, rte)`. -/
def removeEntryRte (s : Nlsr) (name : Name) (rte : RoutingTableEntry) : Nlsr :=
  match s.namePrefixTable.find? name with
  | none => s
  | some it =>
    let it := it.removeRoutingTableEntry rte
    if it.rteList.size = 0 then
      ({ s with namePrefixTable := s.namePrefixTable.erase name } : Nlsr).fibRemove name
    else
      let it := it.mergeHops
      ({ s with namePrefixTable := s.namePrefixTable.replace it } : Nlsr).fibUpdate name
        it.nexthopList

/-- `RoutingTable::findRoutingTableEntry`, with a new entry without hops where it is null. -/
def routingTableEntryOf (s : Nlsr) (destRouter : Name) : RoutingTableEntry :=
  (s.routingTable.rTable.find? destRouter).getD { destination := destRouter }

/-- `NamePrefixTable::addEntry(name, destRouter)`. -/
def addEntry (s : Nlsr) (name destRouter : Name) : Nlsr :=
  s.addEntryRte name (s.routingTableEntryOf destRouter)

/-- `NamePrefixTable::removeEntry(name, destRouter)`. -/
def removeEntry (s : Nlsr) (name destRouter : Name) : Nlsr :=
  s.removeEntryRte name (s.routingTableEntryOf destRouter)

/-- `updateWithNewRoute`. The table is rewritten while it is walked, but adding an origin that
is already there moves neither names nor origins, so the walk is over those it started with. -/
def updateWithNewRoute (s : Nlsr) : Nlsr :=
  s.namePrefixTable.toList.foldl (fun s prefixEntry =>
    prefixEntry.rteList.toList.foldl (fun s routingEntry =>
      s.addEntry prefixEntry.namePrefix routingEntry.destination) s) s

/-! ## Recorded origins -/

/-- The copies of routing table entries kept for a name, one for each recorded origin. -/
def origins (s : Nlsr) (name : Name) : RouteTable :=
  match s.namePrefixTable.find? name with
  | none => KeyedList.empty
  | some entry => entry.rteList

/-- The origin is recorded for the name. -/
def Recorded (s : Nlsr) (name origin : Name) : Prop := (s.origins name).contains origin

/-- Every entry of the table has an origin. -/
def EntriesHaveOrigins (s : Nlsr) : Prop :=
  ∀ name, s.namePrefixTable.contains name → ∃ origin, s.Recorded name origin

end Nlsr

theorem NamePrefixTableEntry.find?_addRoutingTableEntry (entry : NamePrefixTableEntry)
    (rte : RoutingTableEntry) (o : Name) :
    (entry.addRoutingTableEntry rte).rteList.find? o =
      if o = rte.destination then some rte else entry.rteList.find? o := by
  unfold addRoutingTableEntry
  cases h : entry.rteList.find? rte.destination with
  | none => simp only [KeyedList.find?_insert, h, and_true]
  | some it =>
    have hdest : it.destination = rte.destination := KeyedList.key_of_find? h
    simp only [KeyedList.find?_replace, hdest, NexthopList.foldl_addNextHop_empty]
    by_cases ho : o = rte.destination
    · subst ho; rw [if_pos rfl, if_pos rfl, h]; cases rte; rfl
    · rw [if_neg ho, if_neg ho]

@[simp] theorem NamePrefixTableEntry.addRoutingTableEntry_namePrefix
    (entry : NamePrefixTableEntry) (rte : RoutingTableEntry) :
    (entry.addRoutingTableEntry rte).namePrefix = entry.namePrefix := by
  unfold addRoutingTableEntry
  split <;> rfl

theorem NamePrefixTableEntry.find?_removeRoutingTableEntry (entry : NamePrefixTableEntry)
    (rte : RoutingTableEntry) (o : Name) :
    (entry.removeRoutingTableEntry rte).rteList.find? o =
      if o = rte.destination then none else entry.rteList.find? o :=
  KeyedList.find?_erase _ _ _

namespace Nlsr

/-- Nothing but the name prefix table, the FIB and the scheduler has changed. -/
def OnlyTables (s t : Nlsr) : Prop :=
  t = { s with
    namePrefixTable := t.namePrefixTable
    fib := t.fib
    scheduler := t.scheduler }

theorem OnlyTables.refl (s : Nlsr) : OnlyTables s s := rfl

theorem OnlyTables.trans {s t u : Nlsr} (h₁ : OnlyTables s t) (h₂ : OnlyTables t u) :
    OnlyTables s u := by
  rw [OnlyTables] at h₁ h₂ ⊢
  rw [h₂, h₁]

theorem OnlyFib.onlyTables {s t : Nlsr} (h : OnlyFib s t) : OnlyTables s t := by
  rw [OnlyFib] at h
  rw [OnlyTables, h]

theorem OnlyFib.namePrefixTable {s t : Nlsr} (h : OnlyFib s t) :
    t.namePrefixTable = s.namePrefixTable := by
  rw [OnlyFib] at h
  rw [h]

theorem onlyTables_foldl {α : Type*} {f : Nlsr → α → Nlsr} (hf : ∀ s a, OnlyTables s (f s a))
    (l : List α) (s : Nlsr) : OnlyTables s (l.foldl f s) := by
  induction l generalizing s with
  | nil => exact OnlyTables.refl s
  | cons a l ih => exact (hf s a).trans (ih (f s a))

/-- An operation on the entry of one name: the other names keep their entries in both tables. -/
structure OnlyName (s t : Nlsr) (name : Name) : Prop where
  onlyTables : OnlyTables s t
  entry_ne : ∀ n, n ≠ name → t.namePrefixTable.find? n = s.namePrefixTable.find? n
  fib_ne : ∀ n, n ≠ name → t.fib.table.find? n = s.fib.table.find? n

/-- Write an entry of the name prefix table, then update the FIB for its name. -/
theorem OnlyName.of_onlyFib {s t : Nlsr} {name : Name}
    {table : KeyedList NamePrefixTableEntry.namePrefix}
    (hentry : ∀ n, n ≠ name → table.find? n = s.namePrefixTable.find? n)
    (hfib : OnlyFib { s with namePrefixTable := table } t)
    (hne : ∀ n, n ≠ name → t.fib.table.find? n = s.fib.table.find? n) : OnlyName s t name where
  onlyTables := OnlyTables.trans (t := { s with namePrefixTable := table }) rfl hfib.onlyTables
  entry_ne := fun n hn => by rw [hfib.namePrefixTable]; exact hentry n hn
  fib_ne := hne

/-- The FIB has for the name what its merged hops ask for. -/
def FibFollows (s : Nlsr) (name : Name) : Prop :=
  match s.namePrefixTable.find? name with
  | none => s.fib.table.find? name = none
  | some entry => s.Installed name (s.hopsToInstall entry.mergeHops.nexthopList)

theorem OnlyTables.confParam {s t : Nlsr} (h : OnlyTables s t) : t.confParam = s.confParam := by
  rw [OnlyTables] at h
  rw [h]

theorem fibFollows_of_none {s : Nlsr} {name : Name} (h : s.namePrefixTable.find? name = none)
    (hfib : s.fib.table.find? name = none) : s.FibFollows name := by
  rw [FibFollows, h]
  exact hfib

/-- After an update of the FIB with the merged hops of the entry the FIB follows. -/
theorem fibFollows_fibUpdate {s : Nlsr} {name : Name} {entry : NamePrefixTableEntry}
    (h : s.namePrefixTable.find? name = some entry) :
    (s.fibUpdate name entry.mergeHops.nexthopList).FibFollows name := by
  obtain ⟨honly, -, hinst⟩ := fibUpdate_spec s name entry.mergeHops.nexthopList
  rw [FibFollows, honly.namePrefixTable, h]
  show Installed _ name _
  rw [hopsToInstall_congr honly.onlyTables.confParam]
  exact hinst

/-- An entry without hops is followed by a FIB without an entry. -/
theorem fibFollows_of_no_hops {s : Nlsr} {name : Name} {entry : NamePrefixTableEntry}
    (h : s.namePrefixTable.find? name = some entry)
    (hempty : entry.mergeHops.nexthopList.size = 0) (hfib : s.fib.table.find? name = none) :
    s.FibFollows name := by
  rw [FibFollows, h]
  exact installed_of_none hfib (size_hopsToInstall_of_empty hempty)

/-- The hops of an entry with a single origin are those of the origin. -/
theorem size_mergeHops_single (name : Name) (rte : RoutingTableEntry) :
    ((({ namePrefix := name } : NamePrefixTableEntry).addRoutingTableEntry
      rte).mergeHops.nexthopList).size = rte.nexthopList.size := by
  show (KeyedList.sort _ (([rte] : List RoutingTableEntry).foldl (fun l rte =>
    rte.nexthopList.toList.foldl NexthopList.addNextHop l) KeyedList.empty)).size = _
  rw [List.foldl_cons, List.foldl_nil, NexthopList.foldl_addNextHop_empty, KeyedList.size_sort]

/-! ### Adding an origin -/

theorem onlyName_addEntryRte (s : Nlsr) (name : Name) (rte : RoutingTableEntry) :
    OnlyName s (s.addEntryRte name rte) name := by
  unfold addEntryRte
  cases h : s.namePrefixTable.find? name with
  | none =>
    let entry :=
      (({ namePrefix := name } : NamePrefixTableEntry).addRoutingTableEntry rte).mergeHops
    have hentry : ∀ n, n ≠ name →
        (s.namePrefixTable.insert entry).find? n = s.namePrefixTable.find? n :=
      fun n hn => KeyedList.find?_insert_ne hn
    dsimp only
    split_ifs
    · obtain ⟨hfib, hne, -⟩ := fibUpdate_spec
        { s with namePrefixTable := s.namePrefixTable.insert entry } name entry.nexthopList
      exact OnlyName.of_onlyFib hentry hfib hne
    · exact OnlyName.of_onlyFib hentry (OnlyFib.refl _) fun _ _ => rfl
  | some it =>
    have hname : it.namePrefix = name := KeyedList.key_of_find? h
    let entry := (it.addRoutingTableEntry rte).mergeHops
    have hkey : entry.namePrefix = name := by
      show (it.addRoutingTableEntry rte).namePrefix = name
      rw [NamePrefixTableEntry.addRoutingTableEntry_namePrefix, hname]
    have hentry : ∀ n, n ≠ name →
        (s.namePrefixTable.replace entry).find? n = s.namePrefixTable.find? n :=
      fun n hn => KeyedList.find?_replace_ne (hkey ▸ hn)
    dsimp only
    split_ifs
    · obtain ⟨hfib, hne, -⟩ := fibUpdate_spec
        { s with namePrefixTable := s.namePrefixTable.replace entry } name entry.nexthopList
      exact OnlyName.of_onlyFib hentry hfib hne
    · refine OnlyName.of_onlyFib hentry (onlyFib_fibRemove _ name) fun n hn => ?_
      rw [find?_fibRemove, if_neg hn]

/-- The entry an addition leaves: the origin has the new hops, the others keep theirs; and the
FIB follows if it did. -/
theorem addEntryRte_entry (s : Nlsr) (name : Name) (rte : RoutingTableEntry) :
    (∃ entry, (s.addEntryRte name rte).namePrefixTable.find? name = some entry ∧
        ∀ o, entry.rteList.find? o =
          if o = rte.destination then some rte else (s.origins name).find? o) ∧
      (s.FibFollows name → (s.addEntryRte name rte).FibFollows name) := by
  unfold addEntryRte origins
  cases h : s.namePrefixTable.find? name with
  | none =>
    let entry :=
      (({ namePrefix := name } : NamePrefixTableEntry).addRoutingTableEntry rte).mergeHops
    have hkey : entry.namePrefix = name := rfl
    have hfind : (s.namePrefixTable.insert entry).find? name = some entry := by
      rw [← hkey, KeyedList.find?_insert_self (hkey ▸ h)]
    have hrte := NamePrefixTableEntry.find?_addRoutingTableEntry { namePrefix := name } rte
    dsimp only
    split_ifs with hsize
    · refine ⟨⟨entry, ?_, hrte⟩, fun _ => ?_⟩
      · rw [(fibUpdate_spec _ _ _).1.namePrefixTable]; exact hfind
      · exact @fibFollows_fibUpdate _ name entry hfind
    · refine ⟨⟨entry, hfind, hrte⟩, fun hfollows => ?_⟩
      rw [FibFollows, h] at hfollows
      refine fibFollows_of_no_hops hfind ?_ hfollows
      exact (size_mergeHops_single name rte).trans (Nat.eq_zero_of_not_pos hsize)
  | some it =>
    have hname : it.namePrefix = name := KeyedList.key_of_find? h
    let entry := (it.addRoutingTableEntry rte).mergeHops
    have hkey : entry.namePrefix = name := by
      show (it.addRoutingTableEntry rte).namePrefix = name
      rw [NamePrefixTableEntry.addRoutingTableEntry_namePrefix, hname]
    have hfind : (s.namePrefixTable.replace entry).find? name = some entry := by
      rw [← hkey, KeyedList.find?_replace_self (hkey ▸ h)]
    have hrte := NamePrefixTableEntry.find?_addRoutingTableEntry it rte
    dsimp only
    split_ifs with hsize
    · refine ⟨⟨entry, ?_, hrte⟩, fun _ => ?_⟩
      · rw [(fibUpdate_spec _ _ _).1.namePrefixTable]; exact hfind
      · exact @fibFollows_fibUpdate _ name entry hfind
    · refine ⟨⟨entry, ?_, hrte⟩, fun _ => ?_⟩
      · rw [(onlyFib_fibRemove _ name).namePrefixTable]; exact hfind
      · refine @fibFollows_of_no_hops _ name entry ?_ (Nat.eq_zero_of_not_pos hsize) ?_
        · rw [(onlyFib_fibRemove _ name).namePrefixTable]; exact hfind
        · rw [find?_fibRemove, if_pos rfl]

/-! ### Removing an origin -/

theorem onlyName_removeEntryRte (s : Nlsr) (name : Name) (rte : RoutingTableEntry) :
    OnlyName s (s.removeEntryRte name rte) name := by
  unfold removeEntryRte
  cases h : s.namePrefixTable.find? name with
  | none => exact ⟨OnlyTables.refl s, fun _ _ => rfl, fun _ _ => rfl⟩
  | some it =>
    have hname : it.namePrefix = name := KeyedList.key_of_find? h
    let entry := (it.removeRoutingTableEntry rte).mergeHops
    dsimp only
    split_ifs
    · refine OnlyName.of_onlyFib (fun n hn => KeyedList.find?_erase_ne hn)
        (onlyFib_fibRemove _ name) fun n hn => ?_
      rw [find?_fibRemove, if_neg hn]
    · obtain ⟨hfib, hne, -⟩ := fibUpdate_spec
        { s with namePrefixTable := s.namePrefixTable.replace entry } name entry.nexthopList
      exact OnlyName.of_onlyFib
        (fun n hn => KeyedList.find?_replace_ne (a := entry) (hname ▸ hn)) hfib hne

/-- What a removal leaves: the other origins, and an entry only if there are any; and the FIB
follows if it did. -/
theorem removeEntryRte_entry (s : Nlsr) (name : Name) (rte : RoutingTableEntry) :
    let t := s.removeEntryRte name rte
    (∀ o, (t.origins name).find? o =
        if o = rte.destination then none else (s.origins name).find? o) ∧
      (t.namePrefixTable.contains name → ∃ o, t.Recorded name o) ∧
      (s.FibFollows name → t.FibFollows name) := by
  unfold removeEntryRte Recorded origins
  cases h : s.namePrefixTable.find? name with
  | none =>
    dsimp only
    rw [h]
    refine ⟨fun o => ?_, fun hc => ?_, id⟩
    · rw [KeyedList.find?_empty, ite_self]
    · rw [KeyedList.contains, h] at hc
      exact absurd hc Bool.false_ne_true
  | some it =>
    have hname : it.namePrefix = name := KeyedList.key_of_find? h
    have hrte := NamePrefixTableEntry.find?_removeRoutingTableEntry it rte
    let entry := (it.removeRoutingTableEntry rte).mergeHops
    dsimp only
    split_ifs with hsize
    · -- The last origin goes, and the entry with it
      have hnil : (it.removeRoutingTableEntry rte).rteList = KeyedList.empty :=
        KeyedList.ext (List.length_eq_zero_iff.1 hsize)
      have hfind : (Nlsr.fibRemove { s with namePrefixTable := s.namePrefixTable.erase name }
          name).namePrefixTable.find? name = none := by
        rw [(onlyFib_fibRemove _ name).namePrefixTable]
        exact KeyedList.find?_erase_self _ _
      rw [hfind]
      refine ⟨fun o => ?_, fun hc => ?_, fun _ => fibFollows_of_none hfind ?_⟩
      · rw [← hrte o, hnil]
      · rw [KeyedList.contains, hfind] at hc
        exact absurd hc Bool.false_ne_true
      · rw [find?_fibRemove, if_pos rfl]
    · have hfind : (s.namePrefixTable.replace entry).find? name = some entry := by
        rw [← hname]; exact KeyedList.find?_replace_self (a := entry) (hname ▸ h)
      have hfind' : (Nlsr.fibUpdate { s with namePrefixTable := s.namePrefixTable.replace entry }
          name entry.nexthopList).namePrefixTable.find? name = some entry := by
        rw [(fibUpdate_spec _ _ _).1.namePrefixTable]; exact hfind
      have hcons : ∃ rte', rte' ∈ entry.rteList :=
        List.exists_mem_of_ne_nil _ fun hnil => hsize (List.length_eq_zero_iff.2 hnil)
      rw [hfind']
      refine ⟨hrte, fun _ => ?_, fun _ => @fibFollows_fibUpdate _ name entry hfind⟩
      obtain ⟨rte', hmem⟩ := hcons
      exact ⟨rte'.destination, KeyedList.find?_isSome.2 ⟨rte', hmem, rfl⟩⟩

/-! ### Pairs of a name and an origin -/

theorem OnlyTables.routingTable {s t : Nlsr} (h : OnlyTables s t) :
    t.routingTable = s.routingTable := by
  rw [OnlyTables] at h
  rw [h]

theorem OnlyTables.lsdb {s t : Nlsr} (h : OnlyTables s t) : t.lsdb = s.lsdb := by
  rw [OnlyTables] at h
  rw [h]

theorem OnlyTables.routerPrefix {s t : Nlsr} (h : OnlyTables s t) :
    t.routerPrefix = s.routerPrefix := congrArg ConfParameter.routerPrefix h.confParam

theorem OnlyTables.routingTableEntryOf {s t : Nlsr} (h : OnlyTables s t) (o : Name) :
    t.routingTableEntryOf o = s.routingTableEntryOf o := by
  rw [Nlsr.routingTableEntryOf, h.routingTable, ← Nlsr.routingTableEntryOf]

@[simp] theorem destination_routingTableEntryOf (s : Nlsr) (o : Name) :
    (s.routingTableEntryOf o).destination = o := by
  unfold routingTableEntryOf
  cases h : s.routingTable.rTable.find? o with
  | none => rfl
  | some rte => exact KeyedList.key_of_find? h

theorem nexthopList_routingTableEntryOf (s : Nlsr) (o : Name) :
    (s.routingTableEntryOf o).nexthopList = s.routingTable.rTable.hops o := by
  unfold routingTableEntryOf RouteTable.hops
  cases s.routingTable.rTable.find? o <;> rfl

theorem OnlyName.origins_ne {s t : Nlsr} {name n : Name} (h : OnlyName s t name)
    (hn : n ≠ name) : t.origins n = s.origins n := by
  rw [origins, h.entry_ne n hn, ← origins]

theorem OnlyName.fibFollows {s t : Nlsr} {name : Name} (h : OnlyName s t name)
    (hname : s.FibFollows name → t.FibFollows name) (hs : ∀ n, s.FibFollows n) (n : Name) :
    t.FibFollows n := by
  by_cases hn : n = name
  · exact hn ▸ hname (hs name)
  · have hfollows := hs n
    unfold FibFollows Installed at hfollows ⊢
    rw [h.entry_ne n hn, h.fib_ne n hn]
    cases hfind : s.namePrefixTable.find? n with
    | none => rw [hfind] at hfollows; exact hfollows
    | some entry =>
      rw [hfind] at hfollows
      dsimp only at hfollows ⊢
      rw [hopsToInstall_congr h.onlyTables.confParam]
      exact hfollows

/-- The copy kept for a pair after its origin is added is the current routing table entry; all
others are as before. -/
theorem origins_addEntry (s : Nlsr) (name dest n o : Name) :
    ((s.addEntry name dest).origins n).find? o =
      if n = name ∧ o = dest then some (s.routingTableEntryOf dest)
      else (s.origins n).find? o := by
  have honly := onlyName_addEntryRte s name (s.routingTableEntryOf dest)
  obtain ⟨⟨entry, hfind, hrte⟩, -⟩ := addEntryRte_entry s name (s.routingTableEntryOf dest)
  by_cases hn : n = name
  · subst hn
    rw [destination_routingTableEntryOf] at hrte
    simp only [true_and, ← hrte o]
    rw [addEntry, origins, hfind]
  · rw [addEntry, honly.origins_ne hn, if_neg fun h => hn h.1]

theorem origins_removeEntry (s : Nlsr) (name dest n o : Name) :
    ((s.removeEntry name dest).origins n).find? o =
      if n = name ∧ o = dest then none else (s.origins n).find? o := by
  have honly := onlyName_removeEntryRte s name (s.routingTableEntryOf dest)
  obtain ⟨hrte, -, -⟩ := removeEntryRte_entry s name (s.routingTableEntryOf dest)
  by_cases hn : n = name
  · subst hn
    rw [destination_routingTableEntryOf] at hrte
    simp only [true_and]
    exact hrte o
  · rw [removeEntry, honly.origins_ne hn, if_neg fun h => hn h.1]

theorem recorded_addEntry (s : Nlsr) (name dest n o : Name) :
    (s.addEntry name dest).Recorded n o ↔ (n = name ∧ o = dest) ∨ s.Recorded n o := by
  rw [Recorded, KeyedList.contains, origins_addEntry]
  by_cases h : n = name ∧ o = dest
  · simp [h]
  · simp [h, Recorded, KeyedList.contains]

theorem recorded_removeEntry (s : Nlsr) (name dest n o : Name) :
    (s.removeEntry name dest).Recorded n o ↔ ¬(n = name ∧ o = dest) ∧ s.Recorded n o := by
  rw [Recorded, KeyedList.contains, origins_removeEntry]
  by_cases h : n = name ∧ o = dest
  · simp [h]
  · simp [h, Recorded, KeyedList.contains]

theorem entriesHaveOrigins_addEntry {s : Nlsr} (h : s.EntriesHaveOrigins) (name dest : Name) :
    (s.addEntry name dest).EntriesHaveOrigins := by
  intro n hn
  by_cases hname : n = name
  · exact ⟨dest, (recorded_addEntry ..).2 (Or.inl ⟨hname, rfl⟩)⟩
  · rw [KeyedList.contains, addEntry, (onlyName_addEntryRte ..).entry_ne n hname] at hn
    obtain ⟨o, ho⟩ := h n hn
    exact ⟨o, (recorded_addEntry ..).2 (Or.inr ho)⟩

theorem entriesHaveOrigins_removeEntry {s : Nlsr} (h : s.EntriesHaveOrigins)
    (name dest : Name) : (s.removeEntry name dest).EntriesHaveOrigins := by
  intro n hn
  by_cases hname : n = name
  · subst hname
    exact (removeEntryRte_entry s n (s.routingTableEntryOf dest)).2.1 hn
  · rw [KeyedList.contains, removeEntry, (onlyName_removeEntryRte ..).entry_ne n hname] at hn
    obtain ⟨o, ho⟩ := h n hn
    exact ⟨o, (recorded_removeEntry ..).2 ⟨fun hc => hname hc.1, ho⟩⟩

theorem fibFollows_addEntry {s : Nlsr} (h : ∀ n, s.FibFollows n) (name dest n : Name) :
    (s.addEntry name dest).FibFollows n :=
  (onlyName_addEntryRte ..).fibFollows (addEntryRte_entry ..).2 h n

theorem fibFollows_removeEntry {s : Nlsr} (h : ∀ n, s.FibFollows n) (name dest n : Name) :
    (s.removeEntry name dest).FibFollows n :=
  (onlyName_removeEntryRte ..).fibFollows (removeEntryRte_entry ..).2.2 h n

/-! ### Lists of pairs -/

def addEntries (s : Nlsr) (pairs : List (Name × Name)) : Nlsr :=
  pairs.foldl (fun s p => s.addEntry p.1 p.2) s

def removeEntries (s : Nlsr) (pairs : List (Name × Name)) : Nlsr :=
  pairs.foldl (fun s p => s.removeEntry p.1 p.2) s

theorem onlyTables_addEntry (s : Nlsr) (name dest : Name) :
    OnlyTables s (s.addEntry name dest) := (onlyName_addEntryRte ..).onlyTables

theorem onlyTables_removeEntry (s : Nlsr) (name dest : Name) :
    OnlyTables s (s.removeEntry name dest) := (onlyName_removeEntryRte ..).onlyTables

theorem onlyTables_addEntries (s : Nlsr) (pairs : List (Name × Name)) :
    OnlyTables s (s.addEntries pairs) :=
  onlyTables_foldl (fun s (p : Name × Name) => onlyTables_addEntry s p.1 p.2) pairs s

theorem onlyTables_removeEntries (s : Nlsr) (pairs : List (Name × Name)) :
    OnlyTables s (s.removeEntries pairs) :=
  onlyTables_foldl (fun s (p : Name × Name) => onlyTables_removeEntry s p.1 p.2) pairs s

theorem recorded_addEntries (s : Nlsr) (pairs : List (Name × Name)) (n o : Name) :
    (s.addEntries pairs).Recorded n o ↔ (n, o) ∈ pairs ∨ s.Recorded n o := by
  induction pairs generalizing s with
  | nil => simp [addEntries]
  | cons p pairs ih =>
    rw [addEntries, List.foldl_cons, ← addEntries, ih, recorded_addEntry]
    simp only [List.mem_cons, Prod.ext_iff]
    tauto

theorem recorded_removeEntries (s : Nlsr) (pairs : List (Name × Name)) (n o : Name) :
    (s.removeEntries pairs).Recorded n o ↔ (n, o) ∉ pairs ∧ s.Recorded n o := by
  induction pairs generalizing s with
  | nil => simp [removeEntries]
  | cons p pairs ih =>
    rw [removeEntries, List.foldl_cons, ← removeEntries, ih, recorded_removeEntry]
    simp only [List.mem_cons, not_or, Prod.ext_iff]
    tauto

/-- What the rest of a list leaves is what its first pair gives it. -/
theorem ite_mem_cons {α : Type} {n o : Name} {p : Name × Name} {pairs : List (Name × Name)}
    {a a' b : α} (ha : o = p.2 → a' = a) :
    (if (n, o) ∈ pairs then a else if n = p.1 ∧ o = p.2 then a' else b) =
      if (n, o) ∈ p :: pairs then a else b := by
  by_cases hmem : (n, o) ∈ pairs
  · simp [hmem]
  · by_cases hp : n = p.1 ∧ o = p.2
    · have hp' : p = (n, o) := Prod.ext hp.1.symm hp.2.symm
      rw [if_neg hmem, if_pos hp, if_pos (by simp [hp']), ha hp.2]
    · have hne : (n, o) ≠ p := fun h => hp (by rw [← h]; exact ⟨rfl, rfl⟩)
      simp [hmem, hp, hne]

/-- The copies after a list of additions: current for the pairs of the list. -/
theorem origins_addEntries (s : Nlsr) (pairs : List (Name × Name)) (n o : Name) :
    ((s.addEntries pairs).origins n).find? o =
      if (n, o) ∈ pairs then some (s.routingTableEntryOf o) else (s.origins n).find? o := by
  induction pairs generalizing s with
  | nil => simp [addEntries]
  | cons p pairs ih =>
    rw [addEntries, List.foldl_cons, ← addEntries, ih, origins_addEntry,
      (onlyTables_addEntry ..).routingTableEntryOf]
    exact ite_mem_cons fun ho => by rw [ho]

theorem origins_removeEntries (s : Nlsr) (pairs : List (Name × Name)) (n o : Name) :
    ((s.removeEntries pairs).origins n).find? o =
      if (n, o) ∈ pairs then none else (s.origins n).find? o := by
  induction pairs generalizing s with
  | nil => simp [removeEntries]
  | cons p pairs ih =>
    rw [removeEntries, List.foldl_cons, ← removeEntries, ih, origins_removeEntry]
    exact ite_mem_cons fun _ => rfl

theorem fibFollows_addEntries {s : Nlsr} (h : ∀ n, s.FibFollows n)
    (pairs : List (Name × Name)) (n : Name) : (s.addEntries pairs).FibFollows n := by
  induction pairs generalizing s with
  | nil => exact h n
  | cons p pairs ih => exact ih (fibFollows_addEntry h p.1 p.2)

theorem entriesHaveOrigins_addEntries {s : Nlsr} (h : s.EntriesHaveOrigins)
    (pairs : List (Name × Name)) : (s.addEntries pairs).EntriesHaveOrigins := by
  induction pairs generalizing s with
  | nil => exact h
  | cons p pairs ih => exact ih (entriesHaveOrigins_addEntry h p.1 p.2)

theorem entriesHaveOrigins_removeEntries {s : Nlsr} (h : s.EntriesHaveOrigins)
    (pairs : List (Name × Name)) : (s.removeEntries pairs).EntriesHaveOrigins := by
  induction pairs generalizing s with
  | nil => exact h
  | cons p pairs ih => exact ih (entriesHaveOrigins_removeEntry h p.1 p.2)

/-! ### A new routing table -/

/-- The recorded pairs, in the order the table is walked. -/
def recordedPairs (s : Nlsr) : List (Name × Name) :=
  s.namePrefixTable.toList.flatMap fun entry =>
    entry.rteList.toList.map fun rte => (entry.namePrefix, rte.destination)

theorem mem_recordedPairs {s : Nlsr} {n o : Name} : (n, o) ∈ s.recordedPairs ↔ s.Recorded n o := by
  rw [recordedPairs, List.mem_flatMap, Recorded, origins]
  constructor
  · rintro ⟨entry, hentry, hmem⟩
    obtain ⟨rte, hrte, heq⟩ := List.mem_map.1 hmem
    obtain ⟨rfl, rfl⟩ := Prod.mk.inj heq
    rw [KeyedList.find?_of_mem hentry]
    exact KeyedList.find?_isSome.2 ⟨rte, hrte, rfl⟩
  · cases h : s.namePrefixTable.find? n with
    | none => exact fun hc => absurd hc Bool.false_ne_true
    | some entry =>
      intro hc
      obtain ⟨rte, hrte, rfl⟩ := KeyedList.find?_isSome.1 hc
      obtain ⟨hentry, rfl⟩ := KeyedList.find?_eq_some.1 h
      exact ⟨entry, hentry, List.mem_map.2 ⟨rte, hrte, rfl⟩⟩

theorem updateWithNewRoute_eq (s : Nlsr) :
    s.updateWithNewRoute = s.addEntries s.recordedPairs := by
  rw [updateWithNewRoute, addEntries, recordedPairs, List.foldl_flatMap]
  simp only [List.foldl_map]

/-- **A new routing table reaches every copy**, and no origin comes or goes. -/
theorem origins_updateWithNewRoute (s : Nlsr) (n o : Name) :
    (s.updateWithNewRoute.origins n).find? o =
      ((s.origins n).find? o).map fun _ => s.routingTableEntryOf o := by
  rw [updateWithNewRoute_eq, origins_addEntries]
  cases h : (s.origins n).find? o with
  | none =>
    have hnot : ¬ s.Recorded n o := by rw [Recorded, KeyedList.contains, h]; exact Bool.false_ne_true
    rw [if_neg (mt mem_recordedPairs.1 hnot)]
    rfl
  | some rte =>
    have hrec : s.Recorded n o := by rw [Recorded, KeyedList.contains, h]; rfl
    rw [if_pos (mem_recordedPairs.2 hrec)]
    rfl

theorem recorded_updateWithNewRoute (s : Nlsr) (n o : Name) :
    s.updateWithNewRoute.Recorded n o ↔ s.Recorded n o := by
  rw [updateWithNewRoute_eq, recorded_addEntries, or_iff_right_of_imp mem_recordedPairs.1]

theorem onlyTables_updateWithNewRoute (s : Nlsr) : OnlyTables s s.updateWithNewRoute := by
  rw [updateWithNewRoute_eq]
  exact onlyTables_addEntries ..

end Nlsr

end LinkState
