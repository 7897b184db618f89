import LinkState.FibUpdate
import LinkState.LiveLinks

/-!
# Next hops in any order

Hops are merged by their exact costs and sorted by their adjusted ones, so hops that were kept for
different costs may tie. The face then decides, and there is one hop for each face: the sorted list
is a function of the hops that were offered (`sortHops_foldl_addNextHop`).

An entry of the name prefix table merges the hops of its origins after every change of an origin.
What it holds in the end depends on the last change of every origin only
(`find?_foldl_edit`). The hops of one entry are all of one kind in every state of a run
(`OneKind`).
-/

namespace LinkState

namespace NexthopList

/-- One hop for each face of the offers, with the smallest cost offered for it, in the strict order
of rank. -/
structure IsMerge (hops : List NextHop) (l : NexthopList) : Prop where
  one : ∀ nh ∈ hops, ∃! x, x ∈ l ∧ x.connectingFaceUri = nh.connectingFaceUri
  least : ∀ nh ∈ l, nh ∈ hops ∧ ∀ x ∈ hops, x.connectingFaceUri = nh.connectingFaceUri →
    nh.routeCost ≤ x.routeCost
  sorted : l.toList.Pairwise fun a b => a.rank < b.rank

theorem isMerge_sortHops {hops : List NextHop} {b : Bool} (h : ∀ nh ∈ hops, nh.isHyperbolic = b) :
    IsMerge hops (sortHops (hops.foldl addNextHop KeyedList.empty)) where
  one nh hnh := by
    have hface : (hops.foldl addNextHop KeyedList.empty).contains nh.connectingFaceUri :=
      (contains_foldl_addNextHop hops KeyedList.empty nh.connectingFaceUri).2 (Or.inl ⟨nh, hnh, rfl⟩)
    obtain ⟨x, hx, hxface⟩ := contains_iff_exists_mem.1 hface
    refine ⟨x, ⟨by simpa [sortHops] using hx, hxface⟩, fun y hy => ?_⟩
    have hy' : y ∈ hops.foldl addNextHop KeyedList.empty := by simpa [sortHops] using hy.1
    have hfind := KeyedList.find?_of_mem hy'
    rw [hy.2, ← hxface, KeyedList.find?_of_mem hx] at hfind
    exact (Option.some.inj hfind).symm
  least nh hnh := by
    refine (mem_foldl_addNextHop_empty h nh).1 ?_
    simpa [sortHops] using hnh
  sorted := pairwise_sortHops _

/-- **The sorted list is a function of the offers.** -/
theorem sortHops_foldl_addNextHop {hops hops' : List NextHop} {b : Bool}
    (h : ∀ nh ∈ hops, nh.isHyperbolic = b) (hmem : ∀ nh, nh ∈ hops ↔ nh ∈ hops') :
    sortHops (hops.foldl addNextHop KeyedList.empty) =
      sortHops (hops'.foldl addNextHop KeyedList.empty) := by
  have h' : ∀ nh ∈ hops', nh.isHyperbolic = b := fun nh hnh => h nh ((hmem nh).2 hnh)
  ext1
  refine eq_of_mem_iff (pairwise_sortHops _) (pairwise_sortHops _) fun nh => ?_
  rw [← KeyedList.mem_def, ← KeyedList.mem_def, sortHops, sortHops, KeyedList.mem_sort,
    KeyedList.mem_sort, mem_foldl_addNextHop_empty h, mem_foldl_addNextHop_empty h']
  simp only [hmem]

end NexthopList

/-! ## The origins of an entry -/

namespace NamePrefixTableEntry

/-- A change of the origins of an entry, or a merge of their hops. -/
inductive Edit
  | add (rte : RoutingTableEntry)
  | remove (rte : RoutingTableEntry)
  | merge

def edit (entry : NamePrefixTableEntry) : Edit → NamePrefixTableEntry
  | .add rte => entry.addRoutingTableEntry rte
  | .remove rte => entry.removeRoutingTableEntry rte
  | .merge => entry.mergeHops

/-- What an edit leaves of an origin. -/
def Edit.after (o : Name) (kept : Option RoutingTableEntry) : Edit → Option RoutingTableEntry
  | .add rte => if o = rte.destination then some rte else kept
  | .remove rte => if o = rte.destination then none else kept
  | .merge => kept

/-- What the edits of a new entry leave of an origin: what the last one about it says. -/
def lastEdit (edits : List Edit) (o : Name) : Option RoutingTableEntry :=
  edits.foldl (Edit.after o) none

/-- A new entry after edits. -/
def edited (name : Name) (edits : List Edit) : NamePrefixTableEntry :=
  edits.foldl edit { namePrefix := name }

theorem find?_edit (entry : NamePrefixTableEntry) (e : Edit) (o : Name) :
    (entry.edit e).rteList.find? o = e.after o (entry.rteList.find? o) := by
  cases e with
  | add rte => exact find?_addRoutingTableEntry entry rte o
  | remove rte => exact find?_removeRoutingTableEntry entry rte o
  | merge => rfl

theorem find?_foldl_edit (entry : NamePrefixTableEntry) (edits : List Edit) (o : Name) :
    (edits.foldl edit entry).rteList.find? o =
      edits.foldl (Edit.after o) (entry.rteList.find? o) := by
  induction edits generalizing entry with
  | nil => rfl
  | cons e edits ih => rw [List.foldl_cons, ih, find?_edit, List.foldl_cons]

theorem find?_edited (name : Name) (edits : List Edit) (o : Name) :
    (edited name edits).rteList.find? o = lastEdit edits o :=
  find?_foldl_edit _ edits o

/-- The hops of all origins. -/
def offered (entry : NamePrefixTableEntry) : List NextHop :=
  entry.rteList.toList.flatMap fun rte => rte.nexthopList.toList

theorem mem_offered {entry : NamePrefixTableEntry} {nh : NextHop} :
    nh ∈ entry.offered ↔ ∃ o rte, entry.rteList.find? o = some rte ∧ nh ∈ rte.nexthopList := by
  rw [offered, List.mem_flatMap]
  constructor
  · rintro ⟨rte, hrte, hnh⟩
    exact ⟨rte.destination, rte, KeyedList.find?_of_mem hrte, hnh⟩
  · rintro ⟨o, rte, hrte, hnh⟩
    exact ⟨rte, KeyedList.mem_of_find? hrte, hnh⟩

theorem nexthopList_mergeHops (entry : NamePrefixTableEntry) :
    entry.mergeHops.nexthopList =
      (entry.offered.foldl NexthopList.addNextHop KeyedList.empty).sortHops :=
  congrArg NexthopList.sortHops List.foldl_flatMap.symm

/-- All hops of the entry are of one kind. -/
def OneKind (entry : NamePrefixTableEntry) (b : Bool) : Prop :=
  ∀ o rte, entry.rteList.find? o = some rte → rte.nexthopList.Uniform b

/-- **Entries with the same origins have the same next hops.** -/
theorem nexthopList_mergeHops_congr {entry entry' : NamePrefixTableEntry} {b : Bool}
    (h : entry.OneKind b) (hrte : ∀ o, entry.rteList.find? o = entry'.rteList.find? o) :
    entry.mergeHops.nexthopList = entry'.mergeHops.nexthopList := by
  rw [nexthopList_mergeHops, nexthopList_mergeHops]
  refine NexthopList.sortHops_foldl_addNextHop (b := b) (fun nh hnh => ?_) fun nh => ?_
  · obtain ⟨o, rte, hfind, hmem⟩ := mem_offered.1 hnh
    exact h o rte hfind nh hmem
  · simp only [mem_offered, hrte]

end NamePrefixTableEntry

/-! ## The entries of a router -/

namespace Nlsr

/-- The hops of the routing table and of its copies are all of one kind. -/
structure OneKind (s : Nlsr) : Prop where
  copies : ∀ n o rte, (s.origins n).find? o = some rte → rte.nexthopList.Uniform s.hyperbolicTable
  table : s.routingTable.rTable.Uniform s.hyperbolicTable

theorem OneKind.congr {s t : Nlsr} (hs : s.OneKind) (hconf : t.confParam = s.confParam)
    (hnpt : t.namePrefixTable = s.namePrefixTable) (hrt : t.routingTable = s.routingTable) :
    t.OneKind where
  copies n := by
    rw [origins, hnpt, ← origins, hyperbolicTable, hconf]
    exact hs.copies n
  table := by
    rw [hyperbolicTable, hconf, hrt]
    exact hs.table

theorem SameTables.oneKind {s t : Nlsr} (h : SameTables s t) (hs : s.OneKind) : t.OneKind :=
  hs.congr h.confParam h.namePrefixTable h.routingTable

theorem oneKind_addEntry {s : Nlsr} (hs : s.OneKind) (name dest : Name) :
    (s.addEntry name dest).OneKind := by
  have honly := onlyTables_addEntry s name dest
  refine ⟨fun n o rte hrte => ?_, ?_⟩
  · rw [hyperbolicTable, honly.confParam, ← hyperbolicTable]
    rw [origins_addEntry] at hrte
    split_ifs at hrte
    · obtain rfl := Option.some.inj hrte
      intro nh hnh
      rw [nexthopList_routingTableEntryOf] at hnh
      exact hs.table dest nh hnh
    · exact hs.copies n o rte hrte
  · rw [hyperbolicTable, honly.confParam, honly.routingTable]
    exact hs.table

theorem oneKind_removeEntry {s : Nlsr} (hs : s.OneKind) (name dest : Name) :
    (s.removeEntry name dest).OneKind := by
  have honly := onlyTables_removeEntry s name dest
  refine ⟨fun n o rte hrte => ?_, ?_⟩
  · rw [hyperbolicTable, honly.confParam, ← hyperbolicTable]
    rw [origins_removeEntry] at hrte
    split_ifs at hrte
    exact hs.copies n o rte hrte
  · rw [hyperbolicTable, honly.confParam, honly.routingTable]
    exact hs.table

theorem Edits.oneKind {s t : Nlsr} {added removed : List (Name × Name)}
    (h : Edits s t added removed) (hs : s.OneKind) : t.OneKind := by
  refine h.induction (fun _ _ hsame => hsame.oneKind) (fun s pairs hs => ?_)
    (fun s pairs hs => ?_) hs
  · exact List.foldlRecOn pairs _ hs fun s hs p _ => oneKind_addEntry hs p.1 p.2
  · exact List.foldlRecOn pairs _ hs fun s hs p _ => oneKind_removeEntry hs p.1 p.2

theorem oneKind_useRoutingTable {s : Nlsr} {rt : RoutingTable}
    (hrt : rt.rTable.Uniform s.hyperbolicTable) : (s.useRoutingTable rt).OneKind := by
  obtain ⟨hframe, hnpt, hrTable, -, -⟩ := useRoutingTable_spec s rt
  let s' : Nlsr := { s with routingTable := rt }
  have hconf : (s.useRoutingTable rt).confParam = s.confParam := by
    rw [OnlyRouting] at hframe
    rw [hframe]
  refine ⟨fun n o rte hrte => ?_, fun d nh hnh => ?_⟩
  · -- The copies are taken anew
    have hcopy : (s'.updateWithNewRoute.origins n).find? o = some rte := by
      rw [origins, ← hnpt, ← origins]
      exact hrte
    rw [origins_updateWithNewRoute] at hcopy
    obtain ⟨-, -, rfl⟩ := Option.map_eq_some_iff.1 hcopy
    intro nh hnh
    rw [nexthopList_routingTableEntryOf] at hnh
    rw [hyperbolicTable, hconf]
    exact hrt o nh hnh
  · rw [hrTable, mem_hops_sortAllHops] at hnh
    rw [hyperbolicTable, hconf]
    exact hrt d nh hnh

theorem oneKind_calculate (math : MathLib) {s : Nlsr} (hs : s.OneKind) :
    (s.calculate math).OneKind := by
  rcases calculate_cases math s with h | h | h
  · let s' : Nlsr := { s with isRoutingTableCalculating := true }
    have huse := oneKind_useRoutingTable (s := s') (uniform_newRoutingTable math s')
    rw [calculate_of_canCalculate h]
    exact huse.congr rfl rfl rfl
  · rw [h]
    exact hs.congr rfl rfl rfl
  · rw [h]
    exact (sameTables_scheduleRoutingTableCalculation s).oneKind hs

theorem oneKind_apply (math : MathLib) {s : Nlsr} (hs : s.OneKind) (op : Op) :
    (s.apply math op).OneKind := by
  by_cases hcalculate : op = .calculate
  · subst hcalculate
    exact oneKind_calculate math hs
  · by_cases hfib : ∃ name, op = .fibRemove name
    · obtain ⟨name, rfl⟩ := hfib
      have honly := onlyFib_fibRemove s name
      exact hs.congr honly.onlyTables.confParam honly.namePrefixTable honly.onlyTables.routingTable
    · obtain ⟨added, removed, h⟩ := exists_edits_apply math s hcalculate
        fun name hname => hfib ⟨name, hname⟩
      exact h.oneKind hs

theorem oneKind_step (math : MathLib) (s : Nlsr) (e : Event) (hs : s.OneKind) :
    (s.step math e).OneKind := by
  obtain ⟨s₁, h₁, h₂⟩ := step_spec math s e
  exact h₂.sameTables.oneKind (oneKind_apply math (h₁.sameTables.oneKind hs) _)

theorem oneKind_of_blank {s : Nlsr} (h : Blank s) : s.OneKind where
  copies n o rte hrte := by
    rw [origins, h.namePrefixTable] at hrte
    exact absurd hrte (Option.some_ne_none rte).symm
  table := (tablesAgree_of_blank h).uniform

/-- In every state of a run the hops of an entry are of one kind. -/
theorem oneKind_run (math : MathLib) (confParam : ConfParameter) (adjacencyList : AdjacencyList)
    (namePrefixList : NamePrefixList) (seqFile : Option UInt64) (now : TimePoint)
    (es : List Event) :
    (run (step math) (start confParam adjacencyList namePrefixList seqFile now).initializeNlsr
      es).OneKind := by
  refine run_induction (oneKind_step math) ?_ es
  exact initializeNlsr_induction
    (fun _ h => oneKind_of_blank h)
    (fun _ _ hq => hq.sameTables.oneKind)
    (fun s l _ hs => (exists_edits_install s l).elim fun _ ⟨_, h⟩ => h.oneKind hs)
    confParam adjacencyList namePrefixList seqFile now

theorem OneKind.entry {s : Nlsr} (hs : s.OneKind) {name : Name} {entry : NamePrefixTableEntry}
    (h : s.namePrefixTable.find? name = some entry) : entry.OneKind s.hyperbolicTable := by
  have horigins : s.origins name = entry.rteList := by rw [origins, h]
  rw [NamePrefixTableEntry.OneKind, ← horigins]
  exact hs.copies name

open NamePrefixTableEntry in
/-- **Next hops do not depend on the order of arrival.** Hops of one kind that are offered in any
order leave the same sorted list. Hence the next hops of an entry do not depend on the order in
which its origins were added, updated and removed; and the entries of a router have the next hops
that any edits with the same outcome would have given them. -/
theorem next_hops_of_any_order :
    (∀ (b : Bool) (hops hops' : List NextHop), (∀ nh ∈ hops, nh.isHyperbolic = b) →
      hops.Perm hops' →
        let l := (hops.foldl NexthopList.addNextHop KeyedList.empty).sortHops
        (hops'.foldl NexthopList.addNextHop KeyedList.empty).sortHops = l ∧ l.IsMerge hops) ∧
    (∀ (b : Bool) (name : Name) (edits edits' : List Edit),
      (∀ o rte, lastEdit edits o = some rte → rte.nexthopList.Uniform b) →
      (∀ o, lastEdit edits o = lastEdit edits' o) →
        (edited name edits).mergeHops.nexthopList = (edited name edits').mergeHops.nexthopList) ∧
    ∀ (math : MathLib) (confParam : ConfParameter) (adjacencyList : AdjacencyList)
      (namePrefixList : NamePrefixList) (seqFile : Option UInt64) (now : TimePoint)
      (es : List Event),
      let s := run (step math)
        (start confParam adjacencyList namePrefixList seqFile now).initializeNlsr es
      ∀ name entry, s.namePrefixTable.find? name = some entry → ∀ edits : List Edit,
        (∀ o, lastEdit edits o = entry.rteList.find? o) →
          (edited name edits).mergeHops.nexthopList = entry.mergeHops.nexthopList := by
  refine ⟨fun b hops hops' h hperm => ?_, fun b name edits edits' h hlast => ?_, ?_⟩
  · exact ⟨(NexthopList.sortHops_foldl_addNextHop h fun nh => hperm.mem_iff).symm,
      NexthopList.isMerge_sortHops h⟩
  · refine nexthopList_mergeHops_congr (b := b) (fun o rte hrte => ?_) fun o => ?_
    · exact h o rte ((find?_edited name edits o).symm.trans hrte)
    · rw [find?_edited, find?_edited, hlast]
  · intro math confParam adjacencyList namePrefixList seqFile now es s name entry h edits hlast
    have hone : entry.OneKind s.hyperbolicTable :=
      (oneKind_run math confParam adjacencyList namePrefixList seqFile now es).entry h
    refine (nexthopList_mergeHops_congr hone fun o => ?_).symm
    rw [find?_edited, hlast]

section threeOrigins

/-- An origin with one hop over its own face. -/
def originOver (name faceUri : String) (cost : Double) : RoutingTableEntry where
  destination := [⟨name⟩]
  nexthopList :=
    KeyedList.insert KeyedList.empty { connectingFaceUri := faceUri, routeCost := cost }

theorem uniform_originOver (name faceUri : String) (cost : Double) :
    (originOver name faceUri cost).nexthopList.Uniform false := by
  intro nh hnh
  obtain hnh | ⟨rfl, -⟩ := KeyedList.mem_insert.1 hnh
  · exact absurd hnh (KeyedList.not_mem_empty nh)
  · rfl

/-- The last word on `a` is its second cost. -/
def editsOnce : List NamePrefixTableEntry.Edit :=
  [.add (originOver "a" "ua" 20), .add (originOver "c" "uc" 10), .merge,
    .add (originOver "a" "ua" 5)]

/-- Here `a` comes last, and `b` comes and goes. -/
def editsAgain : List NamePrefixTableEntry.Edit :=
  [.add (originOver "b" "ub" 7), .add (originOver "c" "uc" 10), .remove (originOver "b" "ub" 7),
    .merge, .add (originOver "a" "ua" 5)]

theorem lastEdit_editsOnce (o : Name) :
    NamePrefixTableEntry.lastEdit editsOnce o = NamePrefixTableEntry.lastEdit editsAgain o := by
  simp only [NamePrefixTableEntry.lastEdit, NamePrefixTableEntry.Edit.after, editsOnce, editsAgain,
    List.foldl_cons, List.foldl_nil]
  by_cases ha : o = (originOver "a" "ua" 5).destination
  · rw [if_pos ha, if_pos ha]
  · rw [if_neg ha, if_neg ha, if_neg (show ¬ o = (originOver "a" "ua" 20).destination from ha)]
    by_cases hb : o = (originOver "b" "ub" 7).destination
    · rw [if_pos hb, hb]
      rfl
    · rw [if_neg hb, if_neg hb]

/-- Face `f` is offered twice. -/
def hopsOnce : List NextHop := [⟨"f", 20, false⟩, ⟨"g", 10, false⟩, ⟨"f", 5, false⟩]

theorem next_hops_of_any_order_edits :
    ((hopsOnce.reverse.foldl NexthopList.addNextHop KeyedList.empty).sortHops =
        (hopsOnce.foldl NexthopList.addNextHop KeyedList.empty).sortHops ∧
      (hopsOnce.foldl NexthopList.addNextHop KeyedList.empty).sortHops.IsMerge hopsOnce) ∧
    (NamePrefixTableEntry.edited [⟨"p"⟩] editsOnce).mergeHops.nexthopList =
      (NamePrefixTableEntry.edited [⟨"p"⟩] editsAgain).mergeHops.nexthopList ∧
    ∃ entry rte, (run (step ⟨0, id, id, id, id⟩) flappingStart
        (linked ++ [.fire 3])).namePrefixTable.find? [⟨"n"⟩] = some entry ∧
      entry.rteList.toList = [rte] ∧
      (NamePrefixTableEntry.edited [⟨"n"⟩]
        [.add rte, .remove rte, .merge, .add rte]).mergeHops.nexthopList =
          entry.mergeHops.nexthopList := by
  obtain ⟨hhops, hedits, hentry⟩ := next_hops_of_any_order
  refine ⟨hhops false _ _ ?_ hopsOnce.reverse_perm.symm, hedits false _ _ _ ?_ lastEdit_editsOnce,
    ?_⟩
  · decide
  · intro o rte hrte
    simp only [NamePrefixTableEntry.lastEdit, NamePrefixTableEntry.Edit.after, editsOnce,
      List.foldl_cons, List.foldl_nil] at hrte
    split_ifs at hrte
    all_goals
      obtain rfl := Option.some.inj hrte
      exact uniform_originOver _ _ _
  · have hone : ((run (step ⟨0, id, id, id, id⟩) flappingStart
        (linked ++ [.fire 3])).namePrefixTable.find? [⟨"n"⟩]).map
          (fun entry => entry.rteList.toList.length) = some 1 := by decide +kernel
    obtain ⟨entry, hfind, hlength⟩ := Option.map_eq_some_iff.1 hone
    obtain ⟨rte, hrte⟩ := List.length_eq_one_iff.1 hlength
    have hreached := hentry ⟨0, id, id, id, id⟩ impatient silentNeighbors KeyedList.empty none 0
      (linked ++ [.fire 3])
    replace hreached := hreached [⟨"n"⟩] entry hfind
    refine ⟨entry, rte, hfind, hrte, hreached _ fun o => ?_⟩
    have hlist : entry.rteList.find? o = [rte].find? fun e => e.destination = o :=
      congrArg (List.find? fun e : RoutingTableEntry => e.destination = o) hrte
    rw [hlist]
    by_cases ho : o = rte.destination
    · simp [NamePrefixTableEntry.lastEdit, NamePrefixTableEntry.Edit.after, ho]
    · simp [NamePrefixTableEntry.lastEdit, NamePrefixTableEntry.Edit.after, ho, Ne.symm ho]

end threeOrigins

end Nlsr

end LinkState
