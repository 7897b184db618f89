import LinkState.Registrations

/-!
# What an update of the FIB installs

An update merges the new hops into the old entry, where the smaller cost of a face wins, and then
takes out the faces that are not wanted. The commands it sends are those of the new hops. Its
entry is not always: a hop that has become more expensive keeps its old cost.

`fibUpdate_installsBest_iff`: an update leaves exactly the best hops if and only if no face it is
to install is in the old entry with a smaller cost or as a hop of the other kind.
-/

namespace LinkState

namespace NexthopList

/-- What becomes of the hop of a face when a hop is offered for it. -/
def mergeHop (old : Option NextHop) (nh : NextHop) : NextHop :=
  match old with
  | none => nh
  | some it => if it.routeCost > nh.routeCost then { it with routeCost := nh.routeCost } else it

/-- The new hop takes the place of the old one exactly if it is of its kind and costs no more. -/
theorem mergeHop_eq_iff {old : Option NextHop} {nh : NextHop}
    (hface : ∀ it, old = some it → it.connectingFaceUri = nh.connectingFaceUri) :
    mergeHop old nh = nh ↔
      ∀ it, old = some it → it.isHyperbolic = nh.isHyperbolic ∧ nh.routeCost ≤ it.routeCost := by
  cases old with
  | none => simp [mergeHop]
  | some it =>
    obtain ⟨face, cost, kind⟩ := nh
    obtain ⟨face', cost', kind'⟩ := it
    obtain rfl : face' = face := hface _ rfl
    simp only [mergeHop, Option.some.injEq, forall_eq']
    by_cases hlt : cost' > cost
    · simp [hlt, hlt.le]
    · have hle := not_lt.1 hlt
      simp only [if_neg hlt, NextHop.mk.injEq, true_and]
      exact ⟨fun ⟨hcost, hkind⟩ => ⟨hkind, hcost.ge⟩,
        fun ⟨hkind, hcost⟩ => ⟨hle.antisymm hcost, hkind⟩⟩

theorem find?_foldl_addNextHop_of_ne {hops : List NextHop} {l : NexthopList} {f : String}
    (h : ∀ nh ∈ hops, nh.connectingFaceUri ≠ f) :
    (hops.foldl addNextHop l).find? f = l.find? f := by
  induction hops generalizing l with
  | nil => rfl
  | cons nh hops ih =>
    rw [List.foldl_cons, ih fun x hx => h x (List.mem_cons_of_mem _ hx), find?_addNextHop,
      if_neg (h nh List.mem_cons_self).symm]

/-- Each hop of a list with one hop for each face meets the old hop of its face. -/
theorem find?_foldl_addNextHop_of_mem {hops : List NextHop} {l : NexthopList} {nh : NextHop}
    (hnd : (hops.map NextHop.connectingFaceUri).Nodup) (hmem : nh ∈ hops) :
    (hops.foldl addNextHop l).find? nh.connectingFaceUri =
      some (mergeHop (l.find? nh.connectingFaceUri) nh) := by
  induction hops generalizing l with
  | nil => exact absurd hmem List.not_mem_nil
  | cons a hops ih =>
    rw [List.map_cons, List.nodup_cons] at hnd
    rw [List.foldl_cons]
    have hrest : ∀ x ∈ hops, x.connectingFaceUri ≠ a.connectingFaceUri := fun x hx heq =>
      hnd.1 (heq ▸ List.mem_map_of_mem hx)
    rcases List.mem_cons.1 hmem with rfl | hmem
    · rw [find?_foldl_addNextHop_of_ne hrest, find?_addNextHop, if_pos rfl]
      rfl
    · rw [ih hnd.2 hmem, find?_addNextHop, if_neg (hrest nh hmem)]

/-- Two lists in the order of rank with the same hops are the same. -/
theorem eq_of_mem_iff {l l' : List NextHop} (hl : l.Pairwise fun a b => a.rank < b.rank)
    (hl' : l'.Pairwise fun a b => a.rank < b.rank) (h : ∀ nh, nh ∈ l ↔ nh ∈ l') : l = l' := by
  have : Std.Irrefl fun a b : NextHop => a.rank < b.rank := ⟨fun a => lt_irrefl a.rank⟩
  have : Std.Antisymm fun a b : NextHop => a.rank < b.rank :=
    ⟨fun _ _ hab hba => absurd hba (lt_asymm hab)⟩
  exact hl.eq_of_mem_iff hl' h

end NexthopList

namespace Nlsr

/-- The hops the name is to have: the first ones in the order of adjusted cost and face URI. -/
def bestHops (s : Nlsr) (allHops : NexthopList) : List NextHop :=
  let maxFaces := s.confParam.maxFacesPerPrefix.toNat
  allHops.sortHops.toList.take
    (if maxFaces = 0 then allHops.size else min maxFaces allHops.size)

theorem toList_hopsToInstall_eq (s : Nlsr) (allHops : NexthopList) :
    (s.hopsToInstall allHops).toList = s.bestHops allHops := by
  rw [toList_hopsToInstall]
  unfold bestHops getNumberOfFacesForName
  dsimp only
  rw [min_comm, NexthopList.sortHops, KeyedList.size_sort]

/-- From `s` to `t` the entry of the name has become the best hops, and the forwarder was told:
one registration for each of them, one removal for each face that is gone. -/
structure InstallsBest (s t : Nlsr) (name : Name) (allHops : NexthopList) : Prop where
  entry : (t.fib.table.find? name).map (fun entry => entry.nexthopList.toList) =
    if s.bestHops allHops = [] then none else some (s.bestHops allHops)
  others : ∀ n, n ≠ name → t.fib.table.find? n = s.fib.table.find? n
  commands : ∃ sent, t.fib.commands = s.fib.commands ++ sent ∧
    sent.Perm ((s.bestHops allHops).flatMap (s.registration name) ++
      ((s.fibHops name).toList.filter fun nh => ∀ nh' ∈ s.bestHops allHops,
        nh'.connectingFaceUri ≠ nh.connectingFaceUri).flatMap (s.unregistration name))
  neighbour : s.adjacencyList.isNeighbor name = true → t.fib.commands = s.fib.commands

/-- No face to install is in the old entry with a smaller cost or as a hop of the other kind. -/
def NoneDearer (s : Nlsr) (name : Name) (allHops : NexthopList) : Prop :=
  ∀ nh ∈ s.bestHops allHops, ∀ old ∈ s.fibHops name,
    old.connectingFaceUri = nh.connectingFaceUri →
      old.isHyperbolic = nh.isHyperbolic ∧ nh.routeCost ≤ old.routeCost

/-! ## The entry -/

/-- Taking out hops one by one leaves those that stay, in their order. -/
theorem toList_keepInstalled (installed : NexthopList) {hops : List NextHop} {l : NexthopList}
    (hnd : (hops.map NextHop.connectingFaceUri).Nodup) (hsub : ∀ nh ∈ hops, nh ∈ l) :
    (keepInstalled installed hops l).toList = l.toList.filter fun nh =>
      installed.contains nh.connectingFaceUri ∨
        nh.connectingFaceUri ∉ hops.map NextHop.connectingFaceUri := by
  induction hops generalizing l with
  | nil => simp [keepInstalled]
  | cons nh hops ih =>
    rw [List.map_cons, List.nodup_cons] at hnd
    rw [keepInstalled, List.foldl_cons]
    by_cases hc : installed.contains nh.connectingFaceUri
    · rw [if_pos hc, ← keepInstalled, ih hnd.2 fun x hx => hsub x (List.mem_cons_of_mem _ hx)]
      refine List.filter_congr fun x _ => decide_eq_decide.2 ?_
      rw [List.map_cons, List.mem_cons, not_or]
      refine or_congr_right' fun hx => (and_iff_right ?_).symm
      rintro heq
      exact hx (heq ▸ hc)
    · have herase : l.removeNextHop nh = l.erase nh.connectingFaceUri := by
        unfold NexthopList.removeNextHop
        rw [KeyedList.find?_of_mem (hsub nh List.mem_cons_self)]
        exact if_pos rfl
      have hsub' : ∀ x ∈ hops, x ∈ l.removeNextHop nh := fun x hx => by
        rw [herase, KeyedList.mem_erase]
        exact ⟨hsub x (List.mem_cons_of_mem _ hx), fun heq =>
          hnd.1 (heq ▸ List.mem_map_of_mem hx)⟩
      rw [if_neg hc, ← keepInstalled, ih hnd.2 hsub', herase]
      show (l.toList.filter _).filter _ = _
      rw [List.filter_filter]
      refine List.filter_congr fun x _ => ?_
      rw [← Bool.decide_and, decide_eq_decide, List.map_cons, List.mem_cons, not_or]
      constructor
      · rintro ⟨hx, hne⟩
        exact hx.imp_right fun hx => ⟨hne, hx⟩
      · rintro (hx | ⟨hne, hx⟩)
        · exact ⟨Or.inl hx, fun heq => hc (heq ▸ hx)⟩
        · exact ⟨Or.inr hx, hne⟩

/-- The hops of the entry before the old ones are taken out. -/
def mergedHops (s : Nlsr) (name : Name) (allHops : NexthopList) : NexthopList :=
  (s.bestHops allHops).foldl NexthopList.addNextHop (s.fibHops name)

theorem nodup_bestHops (s : Nlsr) (allHops : NexthopList) :
    ((s.bestHops allHops).map NextHop.connectingFaceUri).Nodup :=
  allHops.sortHops.nodup.sublist ((List.take_sublist _ _).map _)

theorem pairwise_bestHops (s : Nlsr) (allHops : NexthopList) :
    (s.bestHops allHops).Pairwise fun a b => a.rank < b.rank :=
  (NexthopList.pairwise_sortHops allHops).sublist (List.take_sublist _ _)

theorem find?_mergedHops {s : Nlsr} (name : Name) {allHops : NexthopList} {nh : NextHop}
    (h : nh ∈ s.bestHops allHops) :
    (s.mergedHops name allHops).find? nh.connectingFaceUri =
      some (NexthopList.mergeHop ((s.fibHops name).find? nh.connectingFaceUri) nh) :=
  NexthopList.find?_foldl_addNextHop_of_mem (s.nodup_bestHops allHops) h

/-- The hops an update leaves: of the merged ones in the order of rank those whose face is to be
installed. -/
def keptHops (s : Nlsr) (name : Name) (allHops : NexthopList) : List NextHop :=
  (s.mergedHops name allHops).sortHops.toList.filter fun nh =>
    ∃ nh' ∈ s.bestHops allHops, nh'.connectingFaceUri = nh.connectingFaceUri

theorem mem_keptHops {s : Nlsr} {name : Name} {allHops : NexthopList} {x : NextHop} :
    x ∈ s.keptHops name allHops ↔ ∃ nh ∈ s.bestHops allHops,
      x = NexthopList.mergeHop ((s.fibHops name).find? nh.connectingFaceUri) nh := by
  unfold keptHops
  rw [List.mem_filter, ← KeyedList.mem_def, NexthopList.sortHops, KeyedList.mem_sort,
    decide_eq_true_iff]
  constructor
  · rintro ⟨hx, nh, hnh, hface⟩
    have hfind := KeyedList.find?_of_mem hx
    rw [← hface, find?_mergedHops name hnh] at hfind
    exact ⟨nh, hnh, (Option.some.inj hfind).symm⟩
  · rintro ⟨nh, hnh, rfl⟩
    have hfind := find?_mergedHops name hnh
    exact ⟨KeyedList.mem_of_find? hfind, nh, hnh, (KeyedList.key_of_find? hfind).symm⟩

/-- **The kept hops are the best ones exactly if none of these has become dearer.** -/
theorem keptHops_eq_iff (s : Nlsr) (name : Name) (allHops : NexthopList) :
    s.keptHops name allHops = s.bestHops allHops ↔ s.NoneDearer name allHops := by
  have hmerge : ∀ nh : NextHop,
      NexthopList.mergeHop ((s.fibHops name).find? nh.connectingFaceUri) nh = nh ↔
        ∀ old ∈ s.fibHops name, old.connectingFaceUri = nh.connectingFaceUri →
          old.isHyperbolic = nh.isHyperbolic ∧ nh.routeCost ≤ old.routeCost := by
    intro nh
    rw [NexthopList.mergeHop_eq_iff fun it h => KeyedList.key_of_find? h]
    simp only [KeyedList.find?_eq_some, and_imp]
  constructor
  · intro heq nh hnh
    refine (hmerge nh).1 ?_
    -- The merged hop of this face is among the best ones, which have one hop for each face
    have hface := KeyedList.key_of_find? (find?_mergedHops name hnh)
    have hkept := heq ▸ mem_keptHops.2 ⟨nh, hnh, rfl⟩
    exact List.inj_on_of_nodup_map (s.nodup_bestHops allHops) hkept hnh hface
  · intro h
    refine NexthopList.eq_of_mem_iff ?_ (s.pairwise_bestHops allHops) fun x => ?_
    · exact (NexthopList.pairwise_sortHops _).sublist List.filter_sublist
    · rw [mem_keptHops]
      constructor
      · rintro ⟨nh, hnh, rfl⟩
        rwa [(hmerge nh).2 (h nh hnh)]
      · exact fun hx => ⟨x, hx, ((hmerge x).2 (h x hx)).symm⟩

theorem contains_hopsToInstall {s : Nlsr} {allHops : NexthopList} {f : String} :
    (s.hopsToInstall allHops).contains f ↔
      ∃ nh ∈ s.bestHops allHops, nh.connectingFaceUri = f := by
  rw [NexthopList.contains_iff_exists_mem]
  simp only [KeyedList.mem_def, toList_hopsToInstall_eq]

theorem size_hopsToInstall_eq_zero {s : Nlsr} {allHops : NexthopList} :
    (s.hopsToInstall allHops).size = 0 ↔ s.bestHops allHops = [] := by
  rw [KeyedList.size, toList_hopsToInstall_eq, List.length_eq_zero_iff]

/-- Adding the new hops makes the merged list. -/
theorem nexthopList_addNextHops (s : Nlsr) (name : Name) (allHops : NexthopList) :
    (s.addNextHopsToFibEntryAndNfd (s.fibEntry name) (s.hopsToInstall allHops)).2.nexthopList =
      (s.mergedHops name allHops).sortHops := by
  show NexthopList.sortHops ((s.hopsToInstall allHops).toList.foldl _ _) = _
  rw [toList_hopsToInstall_eq, nexthopList_fibEntry, mergedHops]

/-- Taking out the hops of a sorted list that are not to be installed. -/
theorem toList_keepInstalled_self (s : Nlsr) (allHops l : NexthopList) :
    (keepInstalled (s.hopsToInstall allHops) l.toList l).toList =
      l.toList.filter fun nh =>
        ∃ nh' ∈ s.bestHops allHops, nh'.connectingFaceUri = nh.connectingFaceUri := by
  rw [toList_keepInstalled _ l.nodup fun _ h => h]
  refine List.filter_congr fun x hx => decide_eq_decide.2 ?_
  rw [contains_hopsToInstall]
  exact or_iff_left (not_not.2 (List.mem_map_of_mem hx))

/-- **The entry an update leaves.** -/
theorem entry_fibUpdate (s : Nlsr) (name : Name) (allHops : NexthopList) :
    ((s.fibUpdate name allHops).fib.table.find? name).map
        (fun entry => entry.nexthopList.toList) =
      if s.bestHops allHops = [] then none else some (s.keptHops name allHops) := by
  by_cases hbest : s.bestHops allHops = []
  · rw [fibUpdate_of_size_eq_zero (size_hopsToInstall_eq_zero.2 hbest), find?_fibRemove, if_pos rfl,
      if_pos hbest]
    rfl
  · obtain ⟨seqNo, table, heq, htable⟩ :=
      exists_fibUpdate (mt size_hopsToInstall_eq_zero.1 hbest) name
    rw [heq, if_neg hbest]
    refine (congrArg _ ((htable name).trans (if_pos rfl))).trans (congrArg some ?_)
    show (s.replaceHops (s.fibEntry name) (s.hopsToInstall allHops)).2.nexthopList.toList = _
    rw [replaceHops, (removeOldNextHops_frame ..).2]
    show (keepInstalled _ _ _).toList = _
    rw [toList_keepInstalled_self, nexthopList_addNextHops, keptHops]

/-! ## The commands -/

/-- The merged hops that are not to be installed are the old ones that are not. -/
theorem gone_perm (s : Nlsr) (name : Name) (allHops : NexthopList) :
    ((s.mergedHops name allHops).sortHops.toList.filter fun nh =>
        !(s.hopsToInstall allHops).contains nh.connectingFaceUri).Perm
      ((s.fibHops name).toList.filter fun nh => ∀ nh' ∈ s.bestHops allHops,
        nh'.connectingFaceUri ≠ nh.connectingFaceUri) := by
  have hnd : ∀ l : NexthopList, l.toList.Nodup := fun l => List.Nodup.of_map _ l.nodup
  refine (List.perm_ext_iff_of_nodup ((hnd _).filter _) ((hnd _).filter _)).2 fun x => ?_
  rw [List.mem_filter, List.mem_filter, Bool.not_eq_true', ← Bool.not_eq_true,
    contains_hopsToInstall, decide_eq_true_iff]
  simp only [not_exists, not_and]
  refine and_congr_left fun hx => ?_
  show x ∈ (s.mergedHops name allHops).sortHops ↔ x ∈ s.fibHops name
  rw [NexthopList.sortHops, KeyedList.mem_sort, mergedHops]
  have hfind := NexthopList.find?_foldl_addNextHop_of_ne (l := s.fibHops name) hx
  constructor
  · intro hmem
    exact KeyedList.mem_of_find? (hfind ▸ KeyedList.find?_of_mem hmem)
  · intro hmem
    exact KeyedList.mem_of_find? (hfind.symm ▸ KeyedList.find?_of_mem hmem)

/-- **The commands an update sends**, whatever was there before. -/
theorem exists_sent_fibUpdate (s : Nlsr) (name : Name) (allHops : NexthopList) :
    ∃ sent, (s.fibUpdate name allHops).fib.commands = s.fib.commands ++ sent ∧
      sent.Perm ((s.bestHops allHops).flatMap (s.registration name) ++
        ((s.fibHops name).toList.filter fun nh => ∀ nh' ∈ s.bestHops allHops,
          nh'.connectingFaceUri ≠ nh.connectingFaceUri).flatMap (s.unregistration name)) := by
  by_cases hbest : s.bestHops allHops = []
  · refine ⟨_, ?_, List.Perm.refl _⟩
    rw [fibUpdate_of_size_eq_zero (size_hopsToInstall_eq_zero.2 hbest),
      (fibChange_fibRemove s name).commands, hbest]
    simp
  · have hsize := mt size_hopsToInstall_eq_zero.1 hbest
    refine ⟨_, commands_fibUpdate s name allHops hsize, ?_⟩
    rw [toList_hopsToInstall_eq, nexthopList_addNextHops]
    exact ((gone_perm s name allHops).flatMap_right _).append_left _

theorem commands_of_isNeighbor {s : Nlsr} {name : Name}
    (h : s.adjacencyList.isNeighbor name = true) (allHops : NexthopList) :
    (s.fibUpdate name allHops).fib.commands = s.fib.commands := by
  have hupd : s.isPrefixUpdatable name = false := by
    rw [isPrefixUpdatable, h]
    rfl
  obtain ⟨sent, hsent, hperm⟩ := exists_sent_fibUpdate s name allHops
  have hnil : sent = [] := by
    refine List.perm_nil.1 (hperm.trans (List.Perm.of_eq ?_))
    simp [registration, unregistration, hupd]
  rw [hsent, hnil, List.append_nil]

/-! ## The result -/

/-- **An update installs exactly the best hops if and only if none of them has become dearer.** -/
theorem fibUpdate_installsBest_iff (s : Nlsr) (name : Name) (allHops : NexthopList) :
    InstallsBest s (s.fibUpdate name allHops) name allHops ↔ s.NoneDearer name allHops := by
  rw [← keptHops_eq_iff]
  have hentry := entry_fibUpdate s name allHops
  constructor
  · intro h
    have hsame := hentry.symm.trans h.entry
    by_cases hbest : s.bestHops allHops = []
    · rw [keptHops, hbest]
      simp
    · rw [if_neg hbest, if_neg hbest] at hsame
      exact Option.some.inj hsame
  · intro h
    exact {
      entry := by rw [hentry, h]
      others := (fibUpdate_spec s name allHops).2.1
      commands := exists_sent_fibUpdate s name allHops
      neighbour := fun hn => commands_of_isNeighbor hn allHops }

/-- A hop of the cost on a face of its own. -/
def hopOfCost (cost : Double) : NexthopList :=
  KeyedList.empty.insert { connectingFaceUri := "udp4://10.0.0.1", routeCost := cost }

/-- A router that has installed a hop of cost 10. -/
def cheapRoute : Nlsr :=
  ({ confParam := {} } : Nlsr).fibUpdate [Component.mk "ndn"] (hopOfCost 10)

/-- When the cost of the hop grows to 20 the entry keeps the cost 10. -/
theorem not_installsBest_cheapRoute :
    ¬ InstallsBest cheapRoute (cheapRoute.fibUpdate [Component.mk "ndn"] (hopOfCost 20))
      [Component.mk "ndn"] (hopOfCost 20) := by
  intro h
  have hentry := h.entry
  revert hentry
  decide +kernel

end Nlsr

end LinkState
