import LinkState.State

/-!
# The forwarding table

`Fib` keeps for each name the hops installed for it and tells the forwarder about every
change. An update first adds the new hops and then removes the ones that are no longer wanted,
and schedules the expiration of the entry anew.

`fib_update_spec`: after an update the faces of the entry are the faces of the hops it was
asked to install, whatever was there before; no hops, no entry.
-/

namespace LinkState

namespace Fib

/-- `FaceMap::getFaceId`. -/
def getFaceId (fib : Fib) (faceUri : String) : UInt32 :=
  match fib.faceMap.find? faceUri with
  | some fme => fme.faceId
  | none => 0

/-- `FaceMap::update`, as `onRegistration` calls it when the forwarder has answered. -/
def updateFaceMap (fib : Fib) (faceUri : String) (faceId : UInt32) : Fib :=
  if fib.faceMap.contains faceUri then { fib with faceMap := fib.faceMap.replace ⟨faceUri, faceId⟩ }
  else { fib with faceMap := fib.faceMap.insert ⟨faceUri, faceId⟩ }

/-- `Fib::GRACE_PERIOD`, in seconds. -/
def gracePeriod : Int := 10

end Fib

namespace Nlsr

def sendCommand (s : Nlsr) (command : RibCommand) : Nlsr :=
  { s with fib := { s.fib with commands := s.fib.commands ++ [command] } }

/-- `Fib::registerPrefix`; nothing is sent for a face without an id. -/
def registerPrefix (s : Nlsr) (namePrefix : Name) (faceUri : String) (faceCost : Nat)
    (timeout : Duration) (times : UInt8) : Nlsr :=
  let faceId := s.adjacencyList.getFaceId faceUri
  if faceId ≠ 0 then
    s.sendCommand (.register namePrefix faceId faceCost timeout faceUri times)
  else s

/-- `Fib::unregisterPrefix`. -/
def unregisterPrefix (s : Nlsr) (namePrefix : Name) (faceUri : String) : Nlsr :=
  let faceId := s.fib.getFaceId faceUri
  if faceId > 0 then s.sendCommand (.unregister namePrefix faceId) else s

/-- Names of configured neighbours are left to the Hello protocol. -/
def isPrefixUpdatable (s : Nlsr) (name : Name) : Bool := !s.adjacencyList.isNeighbor name

def unregisterIfUpdatable (s : Nlsr) (name : Name) (faceUri : String) : Nlsr :=
  if s.isPrefixUpdatable name then s.unregisterPrefix name faceUri else s

/-- `Fib::remove`. -/
def fibRemove (s : Nlsr) (name : Name) : Nlsr :=
  match s.fib.table.find? name with
  | none => s
  | some entry =>
    let s := entry.nexthopList.toList.foldl
      (fun s nh => s.unregisterIfUpdatable entry.name nh.connectingFaceUri) s
    let s := s.cancelEvent entry.expiringEventId
    { s with fib := { s.fib with table := s.fib.table.erase name } }

/-- Add every hop to the entry and register it. -/
def addNextHopsToFibEntryAndNfd (s : Nlsr) (entry : FibEntry) (hopsToAdd : NexthopList) :
    Nlsr × FibEntry :=
  let s := hopsToAdd.toList.foldl (fun s nh =>
    if s.isPrefixUpdatable entry.name then
      s.registerPrefix entry.name nh.connectingFaceUri nh.getRouteCostAsAdjustedInteger
        (seconds (s.fib.refreshTime + Fib.gracePeriod)) 0
    else s) s
  (s, { entry with
    nexthopList := (hopsToAdd.toList.foldl NexthopList.addNextHop entry.nexthopList).sortHops })

/-- Remove every hop of the entry whose face is not among the installed ones. -/
def removeOldNextHopsFromFibEntryAndNfd (s : Nlsr) (entry : FibEntry)
    (installedHops : NexthopList) : Nlsr × FibEntry :=
  entry.nexthopList.toList.foldl (fun (s, entry) nh =>
    if installedHops.contains nh.connectingFaceUri then (s, entry)
    else (s.unregisterIfUpdatable entry.name nh.connectingFaceUri,
      { entry with nexthopList := entry.nexthopList.removeNextHop nh })) (s, entry)

/-- `getNumberOfFacesForName`. A list is taken to have fewer than `2 ^ 32` hops. -/
def getNumberOfFacesForName (s : Nlsr) (nextHopList : NexthopList) : Nat :=
  let nNextHops := nextHopList.size
  let nMaxFaces := s.confParam.maxFacesPerPrefix.toNat
  if nMaxFaces = 0 then nNextHops else min nNextHops nMaxFaces

/-- The hops `Fib::update` installs: the first ones in the order of rank. -/
def hopsToInstall (s : Nlsr) (allHops : NexthopList) : NexthopList :=
  let allHops := allHops.sortHops
  (allHops.toList.take (s.getNumberOfFacesForName allHops)).foldl NexthopList.addNextHop
    KeyedList.empty

/-- The expiration point, sequence number and expiration event of an updated entry. -/
def refreshFibEntry (s : Nlsr) (entry : FibEntry) (seqNo : Int) : Nlsr × FibEntry :=
  let (s', eid) := s.scheduleEvent (seconds s.fib.refreshTime) (.removeFibEntry entry.name)
  (s', { entry with
    expirationTimePoint := s.now + seconds s.fib.refreshTime
    seqNo
    expiringEventId := some eid })

/-- `Fib::update`. -/
def fibUpdate (s : Nlsr) (name : Name) (allHops : NexthopList) : Nlsr :=
  let hopsToAdd := s.hopsToInstall allHops
  match s.fib.table.find? name with
  | none =>
    -- Don't create an entry for a name with no nexthops
    if hopsToAdd.size = 0 then s
    else
      let (s, entry) := s.addNextHopsToFibEntryAndNfd { name } hopsToAdd
      let (s, entry) := s.refreshFibEntry entry 1
      { s with fib := { s.fib with table := s.fib.table.insert entry } }
  | some entry =>
    -- Remove empty FIB entry
    if hopsToAdd.size = 0 then s.fibRemove name
    else
      let (s, entry) := s.addNextHopsToFibEntryAndNfd entry hopsToAdd
      let (s, entry) := s.removeOldNextHopsFromFibEntryAndNfd entry hopsToAdd
      let s := s.cancelEvent entry.expiringEventId
      let (s, entry) := s.refreshFibEntry entry (entry.seqNo + 1)
      { s with fib := { s.fib with table := s.fib.table.replace entry } }

/-- `Fib::clean`. -/
def fibClean (s : Nlsr) : Nlsr :=
  let s := s.fib.table.toList.foldl (fun s entry =>
    let s := s.cancelEvent entry.expiringEventId
    entry.nexthopList.toList.foldl
      (fun s nh => s.unregisterPrefix entry.name nh.connectingFaceUri) s) s
  { s with fib := { s.fib with table := KeyedList.empty } }

/-- `Fib::writeLog` sorts the hops of every entry. -/
def fibWriteLog (s : Nlsr) : Nlsr :=
  let table := s.fib.table.mapValues
    (fun entry => { entry with nexthopList := entry.nexthopList.sortHops }) fun _ => rfl
  { s with fib := { s.fib with table } }

/-! ## What the FIB leaves alone -/

/-- Nothing but the commands sent has changed. -/
def OnlySent (s t : Nlsr) : Prop :=
  t = { s with fib := { s.fib with commands := t.fib.commands } }

/-- Nothing but the FIB and the scheduler has changed. -/
def OnlyFib (s t : Nlsr) : Prop := t = { s with fib := t.fib, scheduler := t.scheduler }

theorem OnlySent.refl (s : Nlsr) : OnlySent s s := rfl

theorem OnlySent.trans {s t u : Nlsr} (h₁ : OnlySent s t) (h₂ : OnlySent t u) : OnlySent s u := by
  rw [OnlySent] at h₁ h₂ ⊢
  rw [h₂, h₁]

theorem OnlySent.table {s t : Nlsr} (h : OnlySent s t) : t.fib.table = s.fib.table := by
  rw [OnlySent] at h
  rw [h]

theorem OnlySent.scheduler {s t : Nlsr} (h : OnlySent s t) : t.scheduler = s.scheduler := by
  rw [OnlySent] at h
  rw [h]

theorem OnlySent.onlyFib {s t : Nlsr} (h : OnlySent s t) : OnlyFib s t := by
  rw [OnlySent] at h
  rw [OnlyFib, h]

theorem OnlyFib.refl (s : Nlsr) : OnlyFib s s := rfl

theorem OnlyFib.trans {s t u : Nlsr} (h₁ : OnlyFib s t) (h₂ : OnlyFib t u) : OnlyFib s u := by
  rw [OnlyFib] at h₁ h₂ ⊢
  rw [h₂, h₁]

theorem OnlyFib.setTable {s t : Nlsr} (h : OnlyFib s t) (table : KeyedList FibEntry.name) :
    OnlyFib s { t with fib := { t.fib with table } } := by
  rw [OnlyFib] at h ⊢
  rw [h]

theorem onlySent_foldl {α : Type*} {f : Nlsr → α → Nlsr} (hf : ∀ s a, OnlySent s (f s a))
    (l : List α) (s : Nlsr) : OnlySent s (l.foldl f s) := by
  induction l generalizing s with
  | nil => exact OnlySent.refl s
  | cons a l ih => exact (hf s a).trans (ih (f s a))

theorem onlySent_registerPrefix (s : Nlsr) (name : Name) (faceUri : String) (cost : Nat)
    (timeout : Duration) (times : UInt8) :
    OnlySent s (s.registerPrefix name faceUri cost timeout times) := by
  unfold registerPrefix
  dsimp only
  split_ifs
  · rfl
  · exact OnlySent.refl s

theorem onlySent_unregisterPrefix (s : Nlsr) (name : Name) (faceUri : String) :
    OnlySent s (s.unregisterPrefix name faceUri) := by
  unfold unregisterPrefix
  dsimp only
  split_ifs
  · rfl
  · exact OnlySent.refl s

theorem onlySent_unregisterIfUpdatable (s : Nlsr) (name : Name) (faceUri : String) :
    OnlySent s (s.unregisterIfUpdatable name faceUri) := by
  unfold unregisterIfUpdatable
  split_ifs
  · exact onlySent_unregisterPrefix s name faceUri
  · exact OnlySent.refl s

theorem onlySent_addNextHops (s : Nlsr) (entry : FibEntry) (hops : NexthopList) :
    OnlySent s (s.addNextHopsToFibEntryAndNfd entry hops).1 := by
  refine onlySent_foldl (fun s nh => ?_) _ s
  split_ifs
  · exact onlySent_registerPrefix ..
  · exact OnlySent.refl s

/-- The hops that are left when those without an installed face are removed one by one. -/
def keepInstalled (installed : NexthopList) (hops : List NextHop) (l : NexthopList) :
    NexthopList :=
  hops.foldl (fun l nh =>
    if installed.contains nh.connectingFaceUri then l else l.removeNextHop nh) l

/-- Removing the old hops sends commands and changes the hops of the entry, nothing else. -/
theorem removeOldNextHops_frame (installed : NexthopList) (s : Nlsr) (entry : FibEntry) :
    let r := s.removeOldNextHopsFromFibEntryAndNfd entry installed
    let kept := keepInstalled installed entry.nexthopList.toList entry.nexthopList
    OnlySent s r.1 ∧ r.2 = { entry with nexthopList := kept } := by
  have hgen : ∀ (hops : List NextHop) (s : Nlsr) (entry : FibEntry),
      let r := hops.foldl (fun (p : Nlsr × FibEntry) nh =>
        if installed.contains nh.connectingFaceUri then (p.1, p.2)
        else (p.1.unregisterIfUpdatable p.2.name nh.connectingFaceUri,
          { p.2 with nexthopList := p.2.nexthopList.removeNextHop nh })) (s, entry)
      OnlySent s r.1 ∧
        r.2 = { entry with nexthopList := keepInstalled installed hops entry.nexthopList } := by
    intro hops
    induction hops with
    | nil => exact fun s entry => ⟨OnlySent.refl s, rfl⟩
    | cons nh hops ih =>
      intro s entry
      dsimp only [keepInstalled]
      rw [List.foldl_cons, List.foldl_cons]
      by_cases hc : installed.contains nh.connectingFaceUri
      · rw [if_pos hc, if_pos hc]
        exact ih s entry
      · rw [if_neg hc, if_neg hc]
        obtain ⟨hsent, heq⟩ := ih (s.unregisterIfUpdatable entry.name nh.connectingFaceUri)
          { entry with nexthopList := entry.nexthopList.removeNextHop nh }
        exact ⟨(onlySent_unregisterIfUpdatable ..).trans hsent, heq⟩
  exact hgen _ s entry

/-! ## Removal -/

theorem fibRemove_frame (s : Nlsr) (name : Name) :
    OnlyFib s (s.fibRemove name) ∧ (s.fibRemove name).fib.table = s.fib.table.erase name := by
  unfold fibRemove
  cases h : s.fib.table.find? name with
  | none => exact ⟨OnlyFib.refl s, (KeyedList.erase_of_none h).symm⟩
  | some entry =>
    have hsent := onlySent_foldl (fun s (nh : NextHop) =>
      onlySent_unregisterIfUpdatable s entry.name nh.connectingFaceUri) entry.nexthopList.toList s
    refine ⟨?_, congrArg (fun t => KeyedList.erase t name) hsent.table⟩
    rw [OnlySent] at hsent
    dsimp only [OnlyFib, cancelEvent]
    rw [hsent]

theorem onlyFib_fibRemove (s : Nlsr) (name : Name) : OnlyFib s (s.fibRemove name) :=
  (fibRemove_frame s name).1

theorem find?_fibRemove (s : Nlsr) (name n : Name) :
    (s.fibRemove name).fib.table.find? n = if n = name then none else s.fib.table.find? n := by
  rw [(fibRemove_frame s name).2, KeyedList.find?_erase]

/-! ## Updates -/

/-- The hops an entry keeps when the old ones are removed are those with an installed face. -/
theorem contains_keepInstalled (installed : NexthopList) {hops : List NextHop}
    {l : NexthopList} (hnd : (hops.map NextHop.connectingFaceUri).Nodup)
    (hsub : ∀ nh ∈ hops, nh ∈ l) (f : String) :
    (keepInstalled installed hops l).contains f ↔
      l.contains f ∧ ((∃ nh ∈ hops, nh.connectingFaceUri = f) → installed.contains f) := by
  induction hops generalizing l with
  | nil => simp [keepInstalled]
  | cons nh hops ih =>
    rw [List.map_cons, List.nodup_cons] at hnd
    rw [keepInstalled, List.foldl_cons]
    by_cases hc : installed.contains nh.connectingFaceUri
    · rw [if_pos hc, ← keepInstalled, ih hnd.2 fun x hx => hsub x (List.mem_cons_of_mem _ hx)]
      refine and_congr_right fun _ => ⟨?_, ?_⟩
      · rintro h ⟨x, hx, rfl⟩
        rcases List.mem_cons.1 hx with rfl | hx
        · exact hc
        · exact h ⟨x, hx, rfl⟩
      · exact fun h hx => h (hx.imp fun x hx => ⟨List.mem_cons_of_mem _ hx.1, hx.2⟩)
    · have herase : l.removeNextHop nh = l.erase nh.connectingFaceUri := by
        unfold NexthopList.removeNextHop
        rw [KeyedList.find?_of_mem (hsub nh List.mem_cons_self)]
        exact if_pos rfl
      have hother : ∀ x ∈ hops, x.connectingFaceUri ≠ nh.connectingFaceUri := fun x hx heq =>
        hnd.1 (heq ▸ List.mem_map_of_mem hx)
      have hsub' : ∀ x ∈ hops, x ∈ l.removeNextHop nh := fun x hx => by
        rw [herase, KeyedList.mem_erase]
        exact ⟨hsub x (List.mem_cons_of_mem _ hx), hother x hx⟩
      rw [if_neg hc, ← keepInstalled, ih hnd.2 hsub', herase]
      have hface : (l.erase nh.connectingFaceUri).contains f ↔
          l.contains f ∧ f ≠ nh.connectingFaceUri := by
        rw [KeyedList.contains, KeyedList.find?_erase]
        by_cases hf : f = nh.connectingFaceUri <;> simp [hf, KeyedList.contains]
      rw [hface]
      constructor
      · rintro ⟨⟨hl, hf⟩, h⟩
        refine ⟨hl, ?_⟩
        rintro ⟨x, hx, rfl⟩
        rcases List.mem_cons.1 hx with rfl | hx
        · exact absurd rfl hf
        · exact h ⟨x, hx, rfl⟩
      · rintro ⟨hl, h⟩
        refine ⟨⟨hl, ?_⟩, fun hx => h (hx.imp fun x hx => ⟨List.mem_cons_of_mem _ hx.1, hx.2⟩)⟩
        rintro rfl
        exact hc (h ⟨nh, List.mem_cons_self, rfl⟩)

/-- Adding hops to an entry adds their faces. -/
theorem contains_addNextHops (s : Nlsr) (entry : FibEntry) (hops : NexthopList) (f : String) :
    (s.addNextHopsToFibEntryAndNfd entry hops).2.nexthopList.contains f ↔
      hops.contains f ∨ entry.nexthopList.contains f := by
  have h : (s.addNextHopsToFibEntryAndNfd entry hops).2.nexthopList.contains f =
      (hops.toList.foldl NexthopList.addNextHop entry.nexthopList).contains f := by
    simp [addNextHopsToFibEntryAndNfd, NexthopList.sortHops, KeyedList.contains]
  rw [h, NexthopList.contains_foldl_addNextHop, NexthopList.contains_iff_exists_mem (l := hops)]
  rfl

/-- Removing the old hops leaves the installed faces. -/
theorem contains_removeOldNextHops (s : Nlsr) (entry : FibEntry) (hops : NexthopList)
    (f : String) :
    (s.removeOldNextHopsFromFibEntryAndNfd entry hops).2.nexthopList.contains f ↔
      entry.nexthopList.contains f ∧ hops.contains f := by
  have h := contains_keepInstalled hops entry.nexthopList.nodup
    (fun _ h => h) f
  rw [(removeOldNextHops_frame hops s entry).2]
  refine h.trans (and_congr_right fun hf => ⟨fun h => ?_, fun h _ => h⟩)
  exact h (NexthopList.contains_iff_exists_mem.1 hf)

/-- The hops to install are the first ones in the order of rank. -/
theorem toList_hopsToInstall (s : Nlsr) (l : NexthopList) :
    (s.hopsToInstall l).toList =
      l.sortHops.toList.take (s.getNumberOfFacesForName l.sortHops) := by
  refine (NexthopList.toList_foldl_addNextHop ?_).trans (List.nil_append _)
  simpa [KeyedList.empty] using l.sortHops.nodup.sublist ((List.take_sublist _ _).map _)

/-- Without hops nothing is installed. -/
theorem size_hopsToInstall_of_empty {s : Nlsr} {l : NexthopList} (h : l.size = 0) :
    (s.hopsToInstall l).size = 0 := by
  have hsort : l.sortHops.size = 0 := (KeyedList.size_sort l).trans h
  have hnil : l.sortHops.toList = [] := List.length_eq_zero_iff.1 hsort
  rw [KeyedList.size, toList_hopsToInstall, hnil, List.take_nil, List.length_nil]

theorem hopsToInstall_congr {s t : Nlsr} (h : t.confParam = s.confParam) (l : NexthopList) :
    t.hopsToInstall l = s.hopsToInstall l := by
  unfold hopsToInstall getNumberOfFacesForName
  rw [h]

/-- An empty request leaves no entry, another one an entry with exactly the faces asked for. -/
def Installed (s : Nlsr) (name : Name) (hops : NexthopList) : Prop :=
  match s.fib.table.find? name with
  | none => hops.size = 0
  | some entry => hops.size ≠ 0 ∧ ∀ f, entry.nexthopList.contains f ↔ hops.contains f

theorem installed_of_none {s : Nlsr} {name : Name} {hops : NexthopList}
    (h : s.fib.table.find? name = none) (hempty : hops.size = 0) : s.Installed name hops := by
  rw [Installed, h]
  exact hempty

theorem installed_of_some {s : Nlsr} {name : Name} {hops : NexthopList} {entry : FibEntry}
    (h : s.fib.table.find? name = some entry) (hempty : hops.size ≠ 0)
    (hfaces : ∀ f, entry.nexthopList.contains f ↔ hops.contains f) : s.Installed name hops := by
  rw [Installed, h]
  exact ⟨hempty, hfaces⟩

/-! ### The two cases of an update -/

/-- Without hops to install the entry is removed. -/
theorem fibUpdate_of_size_eq_zero {s : Nlsr} {allHops : NexthopList}
    (h : (s.hopsToInstall allHops).size = 0) (name : Name) :
    s.fibUpdate name allHops = s.fibRemove name := by
  unfold fibUpdate
  cases hfind : s.fib.table.find? name with
  | none => simp [h, fibRemove, hfind]
  | some entry => simp [h]

/-- The entry of a name, a new one if there is none. -/
def fibEntry (s : Nlsr) (name : Name) : FibEntry := (s.fib.table.find? name).getD { name }

theorem name_fibEntry (s : Nlsr) (name : Name) : (s.fibEntry name).name = name := by
  unfold fibEntry
  cases h : s.fib.table.find? name with
  | none => rfl
  | some entry => exact KeyedList.key_of_find? h

theorem OnlySent.fibEntry {s t : Nlsr} (h : OnlySent s t) (name : Name) :
    t.fibEntry name = s.fibEntry name := by
  rw [Nlsr.fibEntry, h.table, ← Nlsr.fibEntry]

/-- The hops to install are put in the place of those of the entry. -/
def replaceHops (s : Nlsr) (entry : FibEntry) (hops : NexthopList) : Nlsr × FibEntry :=
  let r := s.addNextHopsToFibEntryAndNfd entry hops
  r.1.removeOldNextHopsFromFibEntryAndNfd r.2 hops

theorem onlySent_replaceHops (s : Nlsr) (entry : FibEntry) (hops : NexthopList) :
    OnlySent s (s.replaceHops entry hops).1 :=
  (onlySent_addNextHops s entry hops).trans (removeOldNextHops_frame hops _ _).1

/-- Nothing but the hops of the entry has changed. -/
theorem replaceHops_snd (s : Nlsr) (entry : FibEntry) (hops : NexthopList) :
    (s.replaceHops entry hops).2 =
      { entry with nexthopList := (s.replaceHops entry hops).2.nexthopList } := by
  have h := (removeOldNextHops_frame hops (s.addNextHopsToFibEntryAndNfd entry hops).1
    (s.addNextHopsToFibEntryAndNfd entry hops).2).2
  rw [replaceHops, h]
  rfl

theorem contains_replaceHops (s : Nlsr) (entry : FibEntry) (hops : NexthopList) (f : String) :
    (s.replaceHops entry hops).2.nexthopList.contains f ↔ hops.contains f := by
  rw [replaceHops, contains_removeOldNextHops, contains_addNextHops]
  exact and_iff_right_of_imp Or.inl

/-- A new entry has no old hops. -/
theorem replaceHops_new (s : Nlsr) (name : Name) (hops : NexthopList) :
    s.replaceHops { name } hops = s.addNextHopsToFibEntryAndNfd { name } hops := by
  have hfaces := contains_addNextHops s { name } hops
  rw [replaceHops]
  generalize s.addNextHopsToFibEntryAndNfd { name } hops = r at hfaces ⊢
  have hall : ∀ nh ∈ r.2.nexthopList.toList, hops.contains nh.connectingFaceUri := fun nh hnh =>
    ((hfaces _).1 (NexthopList.contains_iff_exists_mem.2 ⟨nh, hnh, rfl⟩)).resolve_right
      Bool.false_ne_true
  refine List.foldlRecOn (motive := fun p => p = r) _ _ rfl ?_
  rintro p rfl nh hnh
  exact if_pos (hall nh hnh)

theorem cancelEvent_none (s : Nlsr) : s.cancelEvent none = s := by
  have h : (s.scheduler.events.filter fun e => none ≠ some e.id) = s.scheduler.events :=
    KeyedList.ext (List.filter_eq_self.2 fun _ _ => decide_eq_true nofun)
  have hsch : s.scheduler.cancelEvent none = s.scheduler := by
    unfold Scheduler.cancelEvent
    congr
  rw [cancelEvent, hsch]

/-- **An update with hops to install.** The hops of the entry are replaced and its expiration is
scheduled anew. -/
theorem exists_fibUpdate {s : Nlsr} {allHops : NexthopList}
    (hsize : (s.hopsToInstall allHops).size ≠ 0) (name : Name) :
    let r := s.replaceHops (s.fibEntry name) (s.hopsToInstall allHops)
    ∃ seqNo table,
      let r' := (r.1.cancelEvent (s.fibEntry name).expiringEventId).refreshFibEntry r.2 seqNo
      s.fibUpdate name allHops = { r'.1 with fib := { r'.1.fib with table } } ∧
        ∀ n, table.find? n = if n = name then some r'.2 else s.fib.table.find? n := by
  intro r
  have hsent : OnlySent s r.1 := onlySent_replaceHops ..
  have hentry := replaceHops_snd s (s.fibEntry name) (s.hopsToInstall allHops)
  have hname : r.2.name = name := (congrArg FibEntry.name hentry).trans (name_fibEntry s name)
  have heid : r.2.expiringEventId = (s.fibEntry name).expiringEventId := by
    show (s.replaceHops (s.fibEntry name) (s.hopsToInstall allHops)).2.expiringEventId = _
    rw [hentry]
  rw [← heid]
  unfold fibUpdate
  cases h : s.fib.table.find? name with
  | none =>
    have hnew : s.fibEntry name = { name } := by rw [fibEntry, h]; rfl
    have hr : s.addNextHopsToFibEntryAndNfd { name } (s.hopsToInstall allHops) = r := by
      rw [← replaceHops_new, ← hnew]
    have hnone : r.1.cancelEvent r.2.expiringEventId = r.1 := by
      rw [heid, hnew]
      exact cancelEvent_none r.1
    dsimp only
    rw [if_neg hsize, hr, hnone]
    clear_value r
    refine ⟨1, _, rfl, fun n => ?_⟩
    have hkey : (r.1.refreshFibEntry r.2 1).2.name = name := hname
    show (r.1.fib.table.insert _).find? n = _
    rw [hsent.table, KeyedList.find?_insert, hkey]
    simp only [h, and_true]
  | some entry =>
    have hold : s.fibEntry name = entry := by rw [fibEntry, h]; rfl
    have hr : s.replaceHops entry (s.hopsToInstall allHops) = r := by rw [← hold]
    rw [replaceHops] at hr
    dsimp only at hr ⊢
    rw [if_neg hsize, hr]
    clear_value r
    refine ⟨r.2.seqNo + 1, _, rfl, fun n => ?_⟩
    have hkey : ((r.1.cancelEvent r.2.expiringEventId).refreshFibEntry r.2
      (r.2.seqNo + 1)).2.name = name := hname
    show (r.1.fib.table.replace _).find? n = _
    rw [hsent.table, KeyedList.find?_replace, hkey]
    split_ifs with hn
    · rw [hn, h]
      rfl
    · rfl

/-- The same, with the state after the commands and the entry left open. -/
theorem exists_fibUpdate_sent {s : Nlsr} {allHops : NexthopList}
    (hsize : (s.hopsToInstall allHops).size ≠ 0) (name : Name) :
    ∃ (t : Nlsr) (entry : FibEntry) (seqNo : Int) (table : KeyedList FibEntry.name),
      OnlySent s t ∧ entry.name = name ∧
      s.fibUpdate name allHops =
        (let r := (t.cancelEvent (s.fibEntry name).expiringEventId).refreshFibEntry entry seqNo
        { r.1 with fib := { r.1.fib with table } }) ∧
      ∀ n, table.find? n = if n = name then
          some ((t.cancelEvent (s.fibEntry name).expiringEventId).refreshFibEntry entry seqNo).2
        else s.fib.table.find? n := by
  obtain ⟨seqNo, table, heq, htable⟩ := exists_fibUpdate hsize name
  have hname : (s.replaceHops (s.fibEntry name) (s.hopsToInstall allHops)).2.name = name := by
    rw [replaceHops_snd]
    exact name_fibEntry s name
  exact ⟨_, _, seqNo, table, onlySent_replaceHops .., hname, heq, htable⟩

/-- **An update installs what it was asked to install**, and leaves other names alone. -/
theorem fibUpdate_spec (s : Nlsr) (name : Name) (allHops : NexthopList) :
    OnlyFib s (s.fibUpdate name allHops) ∧
      (∀ n, n ≠ name → (s.fibUpdate name allHops).fib.table.find? n = s.fib.table.find? n) ∧
      (s.fibUpdate name allHops).Installed name (s.hopsToInstall allHops) := by
  by_cases hsize : (s.hopsToInstall allHops).size = 0
  · rw [fibUpdate_of_size_eq_zero hsize]
    refine ⟨onlyFib_fibRemove s name, fun n hn => ?_, installed_of_none ?_ hsize⟩
    · rw [find?_fibRemove, if_neg hn]
    · rw [find?_fibRemove, if_pos rfl]
  · obtain ⟨seqNo, table, heq, htable⟩ := exists_fibUpdate hsize name
    have hsent := onlySent_replaceHops s (s.fibEntry name) (s.hopsToInstall allHops)
    have hfaces := contains_replaceHops s (s.fibEntry name) (s.hopsToInstall allHops)
    generalize s.replaceHops (s.fibEntry name) (s.hopsToInstall allHops) = r
      at heq htable hsent hfaces
    have hrefresh : OnlyFib r.1 ((r.1.cancelEvent (s.fibEntry name).expiringEventId).refreshFibEntry
      r.2 seqNo).1 := rfl
    rw [heq]
    refine ⟨(hsent.onlyFib.trans hrefresh).setTable table, fun n hn => ?_, ?_⟩
    · exact (htable n).trans (if_neg hn)
    · exact installed_of_some ((htable name).trans (if_pos rfl)) hsize hfaces

end Nlsr

end LinkState
