import LinkState.Adjacency
import LinkState.Library.Least

/-!
# Next hops and route tables

A next hop is a face and a cost. A `NexthopList` has one hop for each face and keeps the
smallest cost offered for it; a route table has one such list for each destination. Both are
searched lists, so both are keyed lists.

What the calculators and the name prefix table rely on:

* `hasHop_foldl_addNextHop`: after a list of offers each face has its least offer.
* `hasRoute_foldl_addNextHop`: the same for the offers to every destination of a table.
-/

namespace LinkState

structure NextHop where
  connectingFaceUri : String := ""
  routeCost : Double := 0
  isHyperbolic : Bool := false
  deriving DecidableEq

namespace NextHop

/-- `HYPERBOLIC_COST_ADJUSTMENT_FACTOR`. -/
def hyperbolicCostAdjustmentFactor : Nat := 1000

/-- Rounded thousandths of a hyperbolic cost, the integer part of a link-state cost. -/
def getRouteCostAsAdjustedInteger (nh : NextHop) : Nat :=
  if nh.isHyperbolic then
    ⌊nh.routeCost * hyperbolicCostAdjustmentFactor + 1 / 2⌋.toNat
  else ⌊nh.routeCost⌋.toNat

/-- What `nextHopSortingComparator` compares: the adjusted cost, then the face URI. -/
def rank (nh : NextHop) : Nat ×ₗ String :=
  toLex (nh.getRouteCostAsAdjustedInteger, nh.connectingFaceUri)

end NextHop

/-- At most one hop per face. -/
abbrev NexthopList := KeyedList NextHop.connectingFaceUri

namespace NexthopList

/-- Add a hop on a new face; on a known face keep the lower cost. -/
def addNextHop (l : NexthopList) (nh : NextHop) : NexthopList :=
  match l.find? nh.connectingFaceUri with
  | none => l.insert nh
  | some it =>
    if it.routeCost > nh.routeCost then l.replace { it with routeCost := nh.routeCost } else l

/-- Remove a hop only if both its face and its adjusted cost are the same. -/
def removeNextHop (l : NexthopList) (nh : NextHop) : NexthopList :=
  match l.find? nh.connectingFaceUri with
  | none => l
  | some it =>
    if it.getRouteCostAsAdjustedInteger = nh.getRouteCostAsAdjustedInteger then
      l.erase nh.connectingFaceUri
    else l

def sortHops (l : NexthopList) : NexthopList := l.sort fun a b => a.rank ≤ b.rank

/-- The list has a hop with this face and this cost. -/
def HasHop (l : NexthopList) (faceUri : String) (cost : Double) : Prop :=
  ∃ nh ∈ l, nh.connectingFaceUri = faceUri ∧ nh.routeCost = cost

/-- A list of hops offers this cost for this face. -/
def Offers (hops : List NextHop) (faceUri : String) (cost : Double) : Prop :=
  ∃ nh ∈ hops, nh.connectingFaceUri = faceUri ∧ nh.routeCost = cost

/-- Every hop of the list carries this flag. -/
def Uniform (l : NexthopList) (isHyperbolic : Bool) : Prop :=
  ∀ nh ∈ l, nh.isHyperbolic = isHyperbolic

/-! ## Adding hops -/

theorem hasHop_iff {l : NexthopList} {f : String} {c : Double} :
    HasHop l f c ↔ (l.find? f).map NextHop.routeCost = some c := by
  rw [Option.map_eq_some_iff]
  constructor
  · rintro ⟨nh, hmem, rfl, rfl⟩
    exact ⟨nh, KeyedList.find?_of_mem hmem, rfl⟩
  · rintro ⟨nh, hfind, rfl⟩
    exact ⟨nh, KeyedList.mem_of_find? hfind, KeyedList.key_of_find? hfind, rfl⟩

theorem hasHop_subsingleton (l : NexthopList) (f : String) : {c | HasHop l f c}.Subsingleton := by
  intro a ha b hb
  have ha' := hasHop_iff.1 ha
  rw [hasHop_iff.1 hb] at ha'
  exact (Option.some.inj ha').symm

theorem not_hasHop_empty (f : String) (c : Double) : ¬ HasHop KeyedList.empty f c := by
  rintro ⟨nh, hmem, -⟩
  exact KeyedList.not_mem_empty nh hmem

@[simp] theorem hasHop_sortHops {l : NexthopList} {f : String} {c : Double} :
    HasHop l.sortHops f c ↔ HasHop l f c := by
  simp [HasHop, sortHops]

theorem find?_addNextHop (l : NexthopList) (nh : NextHop) (f : String) :
    (l.addNextHop nh).find? f =
      if f = nh.connectingFaceUri then
        some (match l.find? f with
          | none => nh
          | some it => if it.routeCost > nh.routeCost then { it with routeCost := nh.routeCost }
            else it)
      else l.find? f := by
  unfold addNextHop
  cases h : l.find? nh.connectingFaceUri with
  | none =>
    simp only [KeyedList.find?_insert, h, and_true]
    by_cases hf : f = nh.connectingFaceUri
    · subst hf; simp [h]
    · simp [hf]
  | some it =>
    have hface : it.connectingFaceUri = nh.connectingFaceUri := KeyedList.key_of_find? h
    by_cases hlt : it.routeCost > nh.routeCost
    · simp only [if_pos hlt, KeyedList.find?_replace, hface]
      by_cases hf : f = nh.connectingFaceUri
      · subst hf; simp [h, hlt, hface]
      · simp [hf]
    · simp only [if_neg hlt]
      by_cases hf : f = nh.connectingFaceUri
      · subst hf; simp [h, hlt]
      · simp [hf]

/-- One offer: each face has the smaller of its cost and the offer. -/
theorem hasHop_addNextHop {l : NexthopList} {nh : NextHop} {f : String} {c : Double} :
    HasHop (l.addNextHop nh) f c ↔
      IsLeast ({c | HasHop l f c} ∪ {c | nh.connectingFaceUri = f ∧ nh.routeCost = c}) c := by
  rw [hasHop_iff, find?_addNextHop]
  by_cases hf : f = nh.connectingFaceUri
  · subst hf
    rw [if_pos rfl]
    cases h : l.find? nh.connectingFaceUri with
    | none =>
      have hset : ({c | HasHop l nh.connectingFaceUri c} ∪
          {c | nh.connectingFaceUri = nh.connectingFaceUri ∧ nh.routeCost = c} : Set Double) =
            {nh.routeCost} := by
        ext x; simp [hasHop_iff, h, eq_comm]
      rw [hset, isLeast_iff_of_subsingleton Set.subsingleton_singleton, Set.mem_singleton_iff,
        Option.map_some, Option.some.injEq, eq_comm]
    | some it =>
      have hset : ({c | HasHop l nh.connectingFaceUri c} ∪
          {c | nh.connectingFaceUri = nh.connectingFaceUri ∧ nh.routeCost = c} : Set Double) =
            {it.routeCost, nh.routeCost} := by
        ext x; simp [hasHop_iff, h, eq_comm, or_comm]
      have hmin : IsLeast {it.routeCost, nh.routeCost} (min it.routeCost nh.routeCost) :=
        isLeast_pair
      have hval : (some (if it.routeCost > nh.routeCost then { it with routeCost := nh.routeCost }
          else it)).map NextHop.routeCost = some (min it.routeCost nh.routeCost) := by
        by_cases hlt : it.routeCost > nh.routeCost
        · simp [hlt, min_eq_right (le_of_lt hlt)]
        · simp [hlt, min_eq_left (not_lt.1 hlt)]
      rw [hset]
      show Option.map NextHop.routeCost (some (if it.routeCost > nh.routeCost then
        { it with routeCost := nh.routeCost } else it)) = some c ↔ _
      rw [hval, Option.some.injEq]
      exact ⟨fun h => h ▸ hmin, fun h => hmin.unique h⟩
  · rw [if_neg hf, ← hasHop_iff]
    have hset : {c | nh.connectingFaceUri = f ∧ nh.routeCost = c} = (∅ : Set Double) := by
      ext x; simp [Ne.symm hf]
    rw [hset, Set.union_empty]
    exact (isLeast_iff_of_subsingleton (hasHop_subsingleton l f) c).symm

/-- **After a list of offers each face has its least offer**, what the list had before
included. -/
theorem hasHop_foldl_addNextHop (hops : List NextHop) (l : NexthopList) (f : String)
    (c : Double) :
    HasHop (hops.foldl addNextHop l) f c ↔
      IsLeast ({c | HasHop l f c} ∪ {c | Offers hops f c}) c := by
  induction hops generalizing l with
  | nil =>
    have hset : {c | Offers [] f c} = (∅ : Set Double) := by
      ext x; simp [Offers]
    rw [hset, Set.union_empty]
    exact (isLeast_iff_of_subsingleton (hasHop_subsingleton l f) c).symm
  | cons nh hops ih =>
    have hone : {c | nh.connectingFaceUri = f ∧ nh.routeCost = c}.Subsingleton :=
      fun a ha b hb => ha.2.symm.trans hb.2
    have hset : {c | Offers (nh :: hops) f c} =
        {c | nh.connectingFaceUri = f ∧ nh.routeCost = c} ∪ {c | Offers hops f c} := by
      ext x; simp [Offers]
    have hstep : {c | HasHop (l.addNextHop nh) f c} =
        {c | IsLeast ({c | HasHop l f c} ∪
          {c | nh.connectingFaceUri = f ∧ nh.routeCost = c}) c} := by
      ext x; exact hasHop_addNextHop
    rw [List.foldl_cons, ih, hset, ← Set.union_assoc, hstep]
    exact least_union_least
      (exists_isLeast_of_subsingleton_union (hasHop_subsingleton l f) hone) c

theorem uniform_addNextHop {l : NexthopList} {nh : NextHop} {b : Bool} (h : Uniform l b)
    (hnh : nh.isHyperbolic = b) : Uniform (l.addNextHop nh) b := by
  intro x hx
  have hx' := KeyedList.find?_of_mem hx
  rw [find?_addNextHop] at hx'
  by_cases hf : x.connectingFaceUri = nh.connectingFaceUri
  · rw [if_pos hf, Option.some.injEq] at hx'
    cases hfind : l.find? x.connectingFaceUri with
    | none => rw [hfind] at hx'; rw [← hx']; exact hnh
    | some it =>
      have hit : it.isHyperbolic = b := h it (KeyedList.mem_of_find? hfind)
      rw [hfind] at hx'
      rw [← hx']
      by_cases hlt : it.routeCost > nh.routeCost
      · simpa [hlt] using hit
      · simpa [hlt] using hit
  · rw [if_neg hf] at hx'
    exact h x (KeyedList.mem_of_find? hx')

theorem uniform_foldl_addNextHop {hops : List NextHop} {l : NexthopList} {b : Bool}
    (h : Uniform l b) (hhops : ∀ nh ∈ hops, nh.isHyperbolic = b) :
    Uniform (hops.foldl addNextHop l) b := by
  induction hops generalizing l with
  | nil => exact h
  | cons nh hops ih =>
    exact ih (uniform_addNextHop h (hhops nh List.mem_cons_self))
      fun x hx => hhops x (List.mem_cons_of_mem _ hx)

/-- The faces of a list grow by the face of the offer. -/
theorem contains_addNextHop (l : NexthopList) (nh : NextHop) (f : String) :
    (l.addNextHop nh).contains f ↔ f = nh.connectingFaceUri ∨ l.contains f := by
  rw [KeyedList.contains, find?_addNextHop]
  by_cases hf : f = nh.connectingFaceUri
  · simp [hf]
  · simp [hf, KeyedList.contains]

/-- After a list of offers the faces are those of the offers and those the list had. -/
theorem contains_foldl_addNextHop (hops : List NextHop) (l : NexthopList) (f : String) :
    (hops.foldl addNextHop l).contains f ↔
      (∃ nh ∈ hops, nh.connectingFaceUri = f) ∨ l.contains f := by
  induction hops generalizing l with
  | nil => simp
  | cons nh hops ih =>
    rw [List.foldl_cons, ih, contains_addNextHop, List.exists_mem_cons_iff, eq_comm,
      or_left_comm, or_assoc]

/-- Hops with new faces are appended. -/
theorem toList_foldl_addNextHop {hops : List NextHop} {l : NexthopList}
    (h : (l.toList.map NextHop.connectingFaceUri ++
      hops.map NextHop.connectingFaceUri).Nodup) :
    (hops.foldl addNextHop l).toList = l.toList ++ hops := by
  induction hops generalizing l with
  | nil => simp
  | cons nh hops ih =>
    have hnone : l.find? nh.connectingFaceUri = none := by
      refine KeyedList.find?_eq_none.2 fun x hx heq => ?_
      exact List.disjoint_of_nodup_append h (List.mem_map_of_mem hx) (heq ▸ List.mem_cons_self)
    have hadd : (l.addNextHop nh).toList = l.toList ++ [nh] := by
      rw [addNextHop, hnone]
      exact KeyedList.toList_insert_of_none hnone
    rw [List.foldl_cons, ih, hadd, List.append_assoc, List.singleton_append]
    simpa [hadd] using h

/-- Adding the hops of a list one by one copies it. -/
theorem foldl_addNextHop_empty (l : NexthopList) :
    l.toList.foldl addNextHop KeyedList.empty = l := by
  ext1
  have h : (l.toList.foldl addNextHop KeyedList.empty).toList =
      (KeyedList.empty : NexthopList).toList ++ l.toList :=
    toList_foldl_addNextHop (by simpa [KeyedList.empty] using l.nodup)
  simpa [KeyedList.empty] using h

theorem contains_iff_exists_mem {l : NexthopList} {f : String} :
    l.contains f ↔ ∃ nh ∈ l, nh.connectingFaceUri = f :=
  KeyedList.find?_isSome

/-- **Merging hops of one kind** keeps of each face the cheapest. -/
theorem mem_foldl_addNextHop_empty {hops : List NextHop} {b : Bool}
    (h : ∀ nh ∈ hops, nh.isHyperbolic = b) (nh : NextHop) :
    nh ∈ hops.foldl addNextHop KeyedList.empty ↔
      nh ∈ hops ∧ ∀ nh' ∈ hops, nh'.connectingFaceUri = nh.connectingFaceUri →
        nh.routeCost ≤ nh'.routeCost := by
  have huniform : Uniform (hops.foldl addNextHop KeyedList.empty) b :=
    uniform_foldl_addNextHop (fun nh h => absurd h (KeyedList.not_mem_empty nh)) h
  have hleast : HasHop (hops.foldl addNextHop KeyedList.empty) nh.connectingFaceUri nh.routeCost ↔
      IsLeast {c | Offers hops nh.connectingFaceUri c} nh.routeCost := by
    have hempty : {c | HasHop KeyedList.empty nh.connectingFaceUri c} = ∅ := by
      ext c
      exact iff_of_false (not_hasHop_empty _ c) (Set.notMem_empty c)
    rw [hasHop_foldl_addNextHop, hempty, Set.empty_union]
  -- A hop of one kind is its face and its cost
  have hext : ∀ x : NextHop, x.isHyperbolic = b → nh.isHyperbolic = b →
      x.connectingFaceUri = nh.connectingFaceUri → x.routeCost = nh.routeCost → x = nh := by
    rintro ⟨_, _, _⟩ rfl rfl rfl hcost
    cases nh
    exact congrArg (NextHop.mk _ · _) hcost
  constructor
  · intro hmem
    obtain ⟨⟨x, hx, hface, hcost⟩, hlow⟩ := hleast.1 ⟨nh, hmem, rfl, rfl⟩
    obtain rfl := hext x (h x hx) (huniform nh hmem) hface hcost
    exact ⟨hx, fun nh' hnh' hface' => hlow ⟨nh', hnh', hface', rfl⟩⟩
  · rintro ⟨hmem, hlow⟩
    obtain ⟨x, hx, hface, hcost⟩ := hleast.2 ⟨⟨nh, hmem, rfl, rfl⟩, fun c ⟨nh', hnh', hface', hc⟩ =>
      hc ▸ hlow nh' hnh' hface'⟩
    obtain rfl := hext x (huniform x hx) (h nh hmem) hface hcost
    exact hx

/-- Offers of one hop leave that hop. -/
theorem toList_foldl_addNextHop_of_forall_eq {hops : List NextHop} {nh : NextHop}
    (hmem : nh ∈ hops) (h : ∀ nh' ∈ hops, nh' = nh) :
    (hops.foldl addNextHop KeyedList.empty).toList = [nh] := by
  have hkind : ∀ nh' ∈ hops, nh'.isHyperbolic = nh.isHyperbolic := fun nh' hnh' => by
    rw [h nh' hnh']
  refine KeyedList.toList_eq_singleton ?_ fun nh' hnh' => ?_
  · refine (mem_foldl_addNextHop_empty hkind nh).2 ⟨hmem, fun nh' hnh' _ => ?_⟩
    rw [h nh' hnh']
  · exact h nh' ((mem_foldl_addNextHop_empty hkind nh').1 hnh').1

/-- Sorted hops are in the strict order of rank: no two have the same face. -/
theorem pairwise_sortHops (l : NexthopList) :
    l.sortHops.toList.Pairwise fun a b => a.rank < b.rank := by
  have hle : l.sortHops.toList.Pairwise fun a b => a.rank ≤ b.rank := by
    have : Std.Total fun a b : NextHop => a.rank ≤ b.rank := ⟨fun a b => le_total a.rank b.rank⟩
    have : IsTrans NextHop fun a b => a.rank ≤ b.rank := ⟨fun _ _ _ => le_trans⟩
    exact List.pairwise_insertionSort _ _
  have hne : l.sortHops.toList.Pairwise fun a b => a.connectingFaceUri ≠ b.connectingFaceUri :=
    List.pairwise_map.1 l.sortHops.nodup
  refine (hle.and hne).imp fun ⟨hle, hne⟩ => lt_of_le_of_ne hle fun heq => hne ?_
  exact congrArg (fun r => (ofLex r).2) heq

end NexthopList

/-! ## Routing tables -/

structure RoutingTableEntry where
  destination : Name
  nexthopList : NexthopList := KeyedList.empty
  deriving DecidableEq

/-- The entries of a routing table, one per destination. -/
abbrev RouteTable := KeyedList RoutingTableEntry.destination

namespace RouteTable

/-- `RoutingTable::addNextHop` and `addNextHopToDryTable`, each on its own table. -/
def addNextHop (t : RouteTable) (destRouter : Name) (nh : NextHop) : RouteTable :=
  match t.find? destRouter with
  | none =>
    t.insert { destination := destRouter, nexthopList := NexthopList.addNextHop KeyedList.empty nh }
  | some rteChk => t.replace { rteChk with nexthopList := rteChk.nexthopList.addNextHop nh }

/-- The hops of a destination; none when it has no entry. -/
def hops (t : RouteTable) (dest : Name) : NexthopList :=
  match t.find? dest with
  | none => KeyedList.empty
  | some rte => rte.nexthopList

/-- The table has a next hop with this face and this cost for the destination. -/
def HasRoute (t : RouteTable) (dest : Name) (faceUri : String) (cost : Double) : Prop :=
  NexthopList.HasHop (t.hops dest) faceUri cost

theorem find?_addNextHop (t : RouteTable) (dest : Name) (nh : NextHop) (d : Name) :
    (t.addNextHop dest nh).find? d =
      if d = dest then
        some { destination := dest, nexthopList := (t.hops dest).addNextHop nh }
      else t.find? d := by
  unfold addNextHop hops
  cases h : t.find? dest with
  | none =>
    simp only [KeyedList.find?_insert, h, and_true]
  | some rte =>
    have hdest : rte.destination = dest := KeyedList.key_of_find? h
    simp only [KeyedList.find?_replace, hdest]
    by_cases hd : d = dest
    · subst hd; rw [if_pos rfl, if_pos rfl, h]; rfl
    · simp [hd]

theorem hops_addNextHop (t : RouteTable) (dest : Name) (nh : NextHop) (d : Name) :
    (t.addNextHop dest nh).hops d =
      if d = dest then (t.hops dest).addNextHop nh else t.hops d := by
  rw [hops, find?_addNextHop]
  by_cases hd : d = dest
  · simp [hd]
  · simp [hd, hops]

/-- Offers of hops to destinations, taken one after another. -/
theorem hops_foldl_addNextHop (offers : List (Name × NextHop)) (t : RouteTable) (d : Name) :
    (offers.foldl (fun t o => t.addNextHop o.1 o.2) t).hops d =
      ((offers.filter fun o => o.1 = d).map Prod.snd).foldl NexthopList.addNextHop (t.hops d) := by
  induction offers generalizing t with
  | nil => rfl
  | cons o offers ih =>
    rw [List.foldl_cons, ih, hops_addNextHop]
    by_cases hd : o.1 = d
    · subst hd; simp
    · simp [hd, Ne.symm hd]

/-- After a list of offers to an empty table the destinations are those of the offers. -/
theorem contains_foldl_addNextHop (offers : List (Name × NextHop)) (t : RouteTable) (d : Name) :
    (offers.foldl (fun t o => t.addNextHop o.1 o.2) t).contains d ↔
      (∃ nh, (d, nh) ∈ offers) ∨ t.contains d := by
  induction offers generalizing t with
  | nil => simp
  | cons o offers ih =>
    have hone : (t.addNextHop o.1 o.2).contains d ↔ d = o.1 ∨ t.contains d := by
      rw [KeyedList.contains, find?_addNextHop]
      by_cases hd : d = o.1
      · simp [hd]
      · simp [hd, KeyedList.contains]
    obtain ⟨d', nh'⟩ := o
    rw [List.foldl_cons, ih, hone]
    constructor
    · rintro (⟨nh, h⟩ | rfl | h)
      · exact Or.inl ⟨nh, List.mem_cons_of_mem _ h⟩
      · exact Or.inl ⟨nh', List.mem_cons_self⟩
      · exact Or.inr h
    · rintro (⟨nh, h⟩ | h)
      · rcases List.mem_cons.1 h with h | h
        · exact Or.inr (Or.inl (congrArg Prod.fst h))
        · exact Or.inl ⟨nh, h⟩
      · exact Or.inr (Or.inr h)

/-- After a list of offers to an empty table a destination has the faces it was offered. -/
theorem exists_mem_hops_foldl_addNextHop (offers : List (Name × NextHop)) (d : Name)
    (f : String) :
    (∃ nh ∈ hops (offers.foldl (fun t o => addNextHop t o.1 o.2) KeyedList.empty) d,
        nh.connectingFaceUri = f) ↔ ∃ nh, (d, nh) ∈ offers ∧ nh.connectingFaceUri = f := by
  rw [hops_foldl_addNextHop, ← NexthopList.contains_iff_exists_mem,
    NexthopList.contains_foldl_addNextHop]
  have hempty : ¬ (hops KeyedList.empty d).contains f := Bool.false_ne_true
  simp [hempty]

/-- **After a list of offers every destination has for each face its least offer.** -/
theorem hasRoute_foldl_addNextHop (offers : List (Name × NextHop)) (d : Name) (f : String)
    (c : Double) :
    HasRoute (offers.foldl (fun t o => t.addNextHop o.1 o.2) KeyedList.empty) d f c ↔
      IsLeast {c | ∃ nh, (d, nh) ∈ offers ∧ nh.connectingFaceUri = f ∧ nh.routeCost = c} c := by
  have hempty : {c | NexthopList.HasHop (hops KeyedList.empty d) f c} = ∅ := by
    ext x
    exact iff_of_false (NexthopList.not_hasHop_empty f x) (Set.notMem_empty x)
  have hset : {c | NexthopList.Offers ((offers.filter fun o => o.1 = d).map Prod.snd) f c} =
      {c | ∃ nh, (d, nh) ∈ offers ∧ nh.connectingFaceUri = f ∧ nh.routeCost = c} := by
    ext x
    simp [NexthopList.Offers]
  rw [HasRoute, hops_foldl_addNextHop, NexthopList.hasHop_foldl_addNextHop, hempty, hset,
    Set.empty_union]

/-- A destination with a hop has an entry. -/
theorem contains_of_mem_hops {t : RouteTable} {d : Name} {nh : NextHop} (h : nh ∈ t.hops d) :
    t.contains d := by
  unfold hops at h
  cases hfind : t.find? d with
  | none =>
    rw [hfind] at h
    exact absurd h (KeyedList.not_mem_empty nh)
  | some rte => rw [KeyedList.contains, hfind]; rfl

/-- A destination that is offered one hop has this one hop. -/
theorem toList_hops_foldl_addNextHop {offers : List (Name × NextHop)} {d : Name} {nh : NextHop}
    (hmem : (d, nh) ∈ offers) (h : ∀ nh', (d, nh') ∈ offers → nh' = nh) :
    (hops (offers.foldl (fun t o => addNextHop t o.1 o.2) KeyedList.empty) d).toList = [nh] := by
  rw [hops_foldl_addNextHop]
  refine NexthopList.toList_foldl_addNextHop_of_forall_eq ?_ fun nh' hnh' => ?_
  · exact List.mem_map.2 ⟨_, List.mem_filter.2 ⟨hmem, by simp⟩, rfl⟩
  · obtain ⟨⟨d', nh''⟩, hfilter, rfl⟩ := List.mem_map.1 hnh'
    obtain ⟨ho, hd⟩ := List.mem_filter.1 hfilter
    obtain rfl : d' = d := of_decide_eq_true hd
    exact h nh'' ho

/-- Every hop of the table carries this flag. -/
def Uniform (t : RouteTable) (isHyperbolic : Bool) : Prop :=
  ∀ d, (t.hops d).Uniform isHyperbolic

theorem uniform_empty (b : Bool) : Uniform KeyedList.empty b :=
  fun _ nh h => absurd h (KeyedList.not_mem_empty nh)

theorem uniform_addNextHop {t : RouteTable} {dest : Name} {nh : NextHop} {b : Bool}
    (h : Uniform t b) (hnh : nh.isHyperbolic = b) : Uniform (t.addNextHop dest nh) b := by
  intro d
  rw [hops_addNextHop]
  split_ifs
  · exact NexthopList.uniform_addNextHop (h dest) hnh
  · exact h d

end RouteTable

end LinkState
