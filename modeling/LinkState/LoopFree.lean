import LinkState.SinglePath

/-!
# Forwarding across routers

Routers that hold the same Adjacency LSAs number them each in the order of its own list, and each
breaks ties its own way. What they share is the graph of the LSAs. A single-path hop leads over a
neighbour that comes first on a shortest path, and the rest of that path is a path of the
neighbour, at a lower cost because every link costs something.

* `nearer_of_hop`: the neighbour is the destination or has a cheaper entry for it.
* `singlePath_loopFree`: **following the next hops leads to the destination.**
-/

namespace LinkState

open LinkStateRoutingTableCalculator RoutingTableCalculator

/-! ## Routers with the same LSAs -/

/-- Two LSDBs hold the same Adjacency LSAs, in whatever order: the same origins, and for each of
them the same adjacents at the same costs. -/
structure SameAdjLsas (adjLsdb adjLsdb' : KeyedList AdjLsa.getKey) : Prop where
  origins : ∀ x, adjLsdb.contains (AdjLsa.key x) = adjLsdb'.contains (AdjLsa.key x)
  adjacents : ∀ lsa ∈ adjLsdb, ∀ lsa' ∈ adjLsdb', lsa.origRouter = lsa'.origRouter →
    lsa.adl.Agree Adjacent.getLinkCost lsa'.adl

/-- The same LSAs in another order. -/
theorem sameAdjLsas_of_perm {adjLsdb adjLsdb' : KeyedList AdjLsa.getKey}
    (h : adjLsdb.toList.Perm adjLsdb'.toList) : SameAdjLsas adjLsdb adjLsdb' := by
  refine ⟨fun x => ?_, fun lsa hlsa lsa' hlsa' horigin => ?_⟩
  · rw [KeyedList.contains, KeyedList.find?_congr (fun lsa => h.mem_iff), KeyedList.contains]
  · obtain rfl := KeyedList.eq_of_key_eq (h.mem_iff.1 hlsa) hlsa' (congrArg AdjLsa.key horigin)
    exact KeyedList.Agree.refl _ _

/-- **The same LSAs are the same graph.** -/
theorem SameAdjLsas.linkCost_eq {adjLsdb adjLsdb' : KeyedList AdjLsa.getKey}
    (h : SameAdjLsas adjLsdb adjLsdb') : linkCost adjLsdb = linkCost adjLsdb' := by
  have hcost : ∀ x y, advertisedCost adjLsdb x y = advertisedCost adjLsdb' x y := by
    intro x y
    have horigin := h.origins x
    rw [advertisedCost_eq, advertisedCost_eq]
    unfold KeyedList.contains at horigin
    cases hlsa : adjLsdb.find? (AdjLsa.key x) with
    | none =>
      rw [hlsa] at horigin
      rw [Option.isSome_eq_false_iff.1 horigin.symm |> Option.isNone_iff_eq_none.1]
    | some lsa =>
      rw [hlsa] at horigin
      obtain ⟨lsa', hlsa'⟩ := Option.isSome_iff_exists.1 horigin.symm
      have hx : lsa.getKey = AdjLsa.key x := KeyedList.key_of_find? hlsa
      have hx' : lsa'.getKey = AdjLsa.key x := KeyedList.key_of_find? hlsa'
      have hagree := h.adjacents lsa (KeyedList.mem_of_find? hlsa) lsa'
        (KeyedList.mem_of_find? hlsa')
        ((AdjLsa.key_injective hx).trans (AdjLsa.key_injective hx').symm)
      rw [hlsa', Option.bind_some, Option.bind_some, hagree y]
  funext x y
  rw [linkCost, linkCost, hcost, hcost]

namespace Nlsr

/-- A router that calculates single paths: its own LSA is in its LSDB, and each adjacent in there
is a configured neighbour with a face of its own. -/
structure RunsSinglePath (s : Nlsr) : Prop where
  maxFacesPerPrefix : s.confParam.maxFacesPerPrefix = 1
  ownAdjLsaExists : s.ownAdjLsaExists
  ownFace : ∀ lsa, s.lsdb.adjLsdb.find? (AdjLsa.key s.routerPrefix) = some lsa →
    ∀ a ∈ lsa.adl, ∃ neighbor ∈ s.adjacencyList, neighbor.name = a.name ∧
      ∀ b ∈ s.adjacencyList, b.connectingFaceUri = neighbor.connectingFaceUri → b = neighbor

/-- The neighbour whose face is the next hop toward a destination. -/
def nextRouter (s : Nlsr) (dest : Name) : Option Name := do
  let nh ← (s.linkStateTable.hops dest).toList.head?
  let neighbor ← s.adjacencyList.toList.find? fun a => a.connectingFaceUri = nh.connectingFaceUri
  return neighbor.name

/-- A linked router is a configured neighbour with a face of its own. -/
theorem RunsSinglePath.neighbor {s : Nlsr} (hs : s.RunsSinglePath) {nbr : Name}
    (h : 0 < linkCost s.lsdb.adjLsdb s.routerPrefix nbr) :
    ∃ neighbor ∈ s.adjacencyList, neighbor.name = nbr ∧
      s.adjacencyList.getAdjacent nbr = neighbor ∧
      ∀ b ∈ s.adjacencyList, b.connectingFaceUri = neighbor.connectingFaceUri → b = neighbor := by
  obtain ⟨lsa, a, hlsa, ha⟩ := exists_adjacent_of_linkCost h
  obtain ⟨neighbor, hmem, hname, hface⟩ := hs.ownFace lsa hlsa a (KeyedList.mem_of_find? ha)
  obtain rfl : neighbor.name = nbr := hname.trans (KeyedList.key_of_find? ha)
  refine ⟨neighbor, hmem, rfl, ?_, hface⟩
  rw [AdjacencyList.getAdjacent, KeyedList.find?_of_mem hmem]
  rfl

/-- The least cost at which a destination can be reached. -/
noncomputable def leastCost (s : Nlsr) (dest : Name) : Nat :=
  sInf (reachCosts s.lsdb.adjLsdb s.routerPrefix dest)

/-- **The entry of a single-path router**: its one hop is the face of a neighbour that comes
first on a shortest path. -/
theorem RunsSinglePath.entry {s : Nlsr} (hs : s.RunsSinglePath) {dest : Name}
    (h : s.linkStateTable.contains dest) :
    ∃ nh, ∃ neighbor ∈ s.adjacencyList, (s.linkStateTable.hops dest).toList = [nh] ∧
      nh.connectingFaceUri = neighbor.connectingFaceUri ∧
      nh.routeCost = (s.leastCost dest : Double) ∧
      (∀ b ∈ s.adjacencyList, b.connectingFaceUri = neighbor.connectingFaceUri → b = neighbor) ∧
      s.leastCost dest < infDistance ∧
      ReachesOver s.lsdb.adjLsdb s.routerPrefix dest (s.leastCost dest) neighbor.name := by
  obtain ⟨nh, c, nbr, hnh, hleast, hover, hface, hcost⟩ :=
    (singlePath_spec hs.ownAdjLsaExists hs.maxFacesPerPrefix dest).2 h
  obtain rfl : c = s.leastCost dest :=
    hleast.unique ⟨Nat.sInf_mem ⟨c, hleast.1⟩, fun _ => Nat.sInf_le⟩
  obtain ⟨neighbor, hmem, rfl, hget, hown⟩ := hs.neighbor hover.link
  exact ⟨nh, neighbor, hmem, hnh, by rw [hface, hget], hcost, hown, hleast.1.1, hover⟩

/-- **One hop comes nearer**: the rest of a shortest path is a path of the neighbour. -/
theorem RunsSinglePath.nearer {s t : Nlsr} (ht : t.RunsSinglePath)
    (hsame : SameAdjLsas s.lsdb.adjLsdb t.lsdb.adjLsdb) {dest : Name} {c : Nat}
    (hc : c < infDistance)
    (hover : ReachesOver s.lsdb.adjLsdb s.routerPrefix dest c t.routerPrefix)
    (hne : dest ≠ t.routerPrefix) :
    t.linkStateTable.contains dest ∧ t.leastCost dest < c := by
  obtain ⟨k, hk, hck⟩ := hover.path
  have hlink := hover.link
  have hwalk : Walk (linkCost t.lsdb.adjLsdb) t.routerPrefix dest k := by
    refine Walk.map id (fun a b hab => ?_) hk
    rw [← hsame.linkCost_eq]
    rw [without] at hab ⊢
    split_ifs at hab ⊢ with h
    · exact absurd hab (Nat.lt_irrefl 0)
    · rfl
  obtain ⟨l, k', -, hl, hk', hle⟩ := Walk.leave (fun _ _ _ _ => rfl) hwalk hne
  have hreach : linkCost t.lsdb.adjLsdb t.routerPrefix l + k' ∈
      reachCosts t.lsdb.adjLsdb t.routerPrefix dest := ⟨by omega, l, hl, k', hk', rfl⟩
  refine ⟨((singlePath_spec ht.ownAdjLsaExists ht.maxFacesPerPrefix dest).1).2
    ⟨hne, _, hreach⟩, ?_⟩
  have : t.leastCost dest ≤ linkCost t.lsdb.adjLsdb t.routerPrefix l + k' := Nat.sInf_le hreach
  omega

/-! ## Following the next hops -/

/-- Routers that hold the same Adjacency LSAs and calculate single paths from them. -/
structure ShareLsas (network : KeyedList Nlsr.routerPrefix) : Prop where
  runs : ∀ s ∈ network, s.RunsSinglePath
  same : ∀ s ∈ network, ∀ t ∈ network, SameAdjLsas s.lsdb.adjLsdb t.lsdb.adjLsdb

/-- Where a router of the network sends what is for a destination. -/
def nextOf (network : KeyedList Nlsr.routerPrefix) (dest x : Name) : Option Name :=
  (network.find? x).bind fun s => s.nextRouter dest

/-- The one next hop belongs to a neighbour that is the destination, or that has an LSA and,
where it is a router of the network, a cheaper entry. -/
structure ComesNearer (network : KeyedList Nlsr.routerPrefix) (s : Nlsr) (dest : Name)
    (nh : NextHop) (neighbor : Adjacent) : Prop where
  hops : (s.linkStateTable.hops dest).toList = [nh]
  mem : neighbor ∈ s.adjacencyList
  face : neighbor.connectingFaceUri = nh.connectingFaceUri
  unique : ∀ b ∈ s.adjacencyList, b.connectingFaceUri = nh.connectingFaceUri → b = neighbor
  hasLsa : s.lsdb.adjLsdb.contains (AdjLsa.key neighbor.name)
  nearer : neighbor.name = dest ∨ ∀ t ∈ network, t.routerPrefix = neighbor.name →
    ∃ nh', (t.linkStateTable.hops dest).toList = [nh'] ∧ nh'.routeCost < nh.routeCost

/-- What the neighbour hears is sent to it. -/
theorem ComesNearer.nextRouter {network : KeyedList Nlsr.routerPrefix} {s : Nlsr} {dest : Name}
    {nh : NextHop} {neighbor : Adjacent} (h : ComesNearer network s dest nh neighbor) :
    s.nextRouter dest = some neighbor.name := by
  have hfind : (s.adjacencyList.toList.find? fun a =>
      a.connectingFaceUri = nh.connectingFaceUri) = some neighbor := by
    cases hfind : s.adjacencyList.toList.find? fun a =>
        a.connectingFaceUri = nh.connectingFaceUri with
    | none => exact absurd (decide_eq_true h.face) (List.find?_eq_none.1 hfind neighbor h.mem)
    | some b =>
      have hface : b.connectingFaceUri = nh.connectingFaceUri := by
        simpa using List.find?_some hfind
      rw [h.unique b (List.mem_of_find?_eq_some hfind) hface]
  simp [Nlsr.nextRouter, h.hops, hfind]

section Network

variable {network : KeyedList Nlsr.routerPrefix} {s : Nlsr} {dest : Name}

/-- **One step**: the next hop is a neighbour that is the destination or comes nearer. -/
theorem ShareLsas.step (h : ShareLsas network) (hs : s ∈ network)
    (hentry : s.linkStateTable.contains dest) :
    ∃ nh neighbor, ComesNearer network s dest nh neighbor ∧
      (neighbor.name = dest ∨ ∀ t ∈ network, t.routerPrefix = neighbor.name →
        t.linkStateTable.contains dest ∧ t.leastCost dest < s.leastCost dest) := by
  obtain ⟨nh, neighbor, hmem, hhops, hface, hcost, hunique, hinf, hover⟩ :=
    (h.runs s hs).entry hentry
  have hnearer : neighbor.name = dest ∨ ∀ t ∈ network, t.routerPrefix = neighbor.name →
      t.linkStateTable.contains dest ∧ t.leastCost dest < s.leastCost dest := by
    by_cases hdest : neighbor.name = dest
    · exact Or.inl hdest
    · refine Or.inr fun t ht hname => ?_
      rw [← hname] at hover hdest
      exact (h.runs t ht).nearer (h.same s hs t ht) hinf hover (Ne.symm hdest)
  refine ⟨nh, neighbor, ⟨hhops, hmem, hface.symm, by rw [hface]; exact hunique,
    contains_of_linkCost hover.link, ?_⟩, hnearer⟩
  refine hnearer.imp_right fun hall t ht hname => ?_
  obtain ⟨hentry', hlt⟩ := hall t ht hname
  obtain ⟨nh', -, -, hhops', -, hcost', -⟩ := (h.runs t ht).entry hentry'
  refine ⟨nh', hhops', ?_⟩
  rw [hcost, hcost']
  exact Nat.cast_lt.2 hlt

/-- **Following the next hops** ends at the destination or outside the network, at a router with
an LSA. -/
theorem ShareLsas.arrives (h : ShareLsas network) (hs : s ∈ network)
    (hentry : s.linkStateTable.contains dest) (hdest : network.contains dest) :
    ∃ n x, n < network.size ∧ follow (nextOf network dest) n s.routerPrefix = some x ∧
      (x = dest ∨ ¬ network.contains x ∧ s.lsdb.adjLsdb.contains (AdjLsa.key x)) := by
  let routers := (network.toList.map Nlsr.routerPrefix).toFinset
  have hrouters : ∀ {x}, x ∈ routers ↔ ∃ t ∈ network, t.routerPrefix = x := by
    intro x
    simp [routers, KeyedList.mem_def]
  have hcard : routers.card = network.size := by
    rw [List.toFinset_card_of_nodup network.nodup, List.length_map]
    rfl
  have hdest' : dest ∈ routers := hrouters.2 (KeyedList.find?_isSome.1 hdest)
  have hne : s.routerPrefix ≠ dest := fun heq =>
    ((singlePath_spec (h.runs s hs).ownAdjLsaExists (h.runs s hs).maxFacesPerPrefix dest).1.1
      hentry).1 heq.symm
  -- A router is as far from the destination as its entry says
  have hdist : ∀ t ∈ network, ((network.find? t.routerPrefix).elim 0 fun t => t.leastCost dest) =
      t.leastCost dest := by
    intro t ht
    rw [KeyedList.find?_of_mem ht, Option.elim_some]
  have harrives : ∃ n x, n ≤ (routers.erase dest).card ∧
      follow (nextOf network dest) n s.routerPrefix = some x ∧
      (x = dest ∨ ¬ network.contains x ∧ s.lsdb.adjLsdb.contains (AdjLsa.key x)) := by
    refine exists_follow (d := fun x => (network.find? x).elim 0 fun t => t.leastCost dest)
      (P := fun x => ∃ t ∈ network, t.routerPrefix = x ∧ t.linkStateTable.contains dest)
      ?_ (Finset.mem_erase.2 ⟨hne, hrouters.2 ⟨s, hs, rfl⟩⟩) ⟨s, hs, rfl, hentry⟩
    intro v _ hv
    obtain ⟨t, ht, rfl, hentry'⟩ := hv
    obtain ⟨nh, neighbor, hnearer, hcase⟩ := h.step ht hentry'
    refine ⟨neighbor.name, ?_, ?_⟩
    · rw [nextOf, KeyedList.find?_of_mem ht]
      exact hnearer.nextRouter
    · by_cases hend : neighbor.name = dest
      · exact Or.inl (Or.inl hend)
      · by_cases hmem : network.contains neighbor.name
        · obtain ⟨t', ht', hname⟩ := KeyedList.find?_isSome.1 hmem
          obtain ⟨hentry'', hlt⟩ := hcase.resolve_left hend t' ht' hname
          refine Or.inr ⟨Finset.mem_erase.2 ⟨hend, hrouters.2 ⟨t', ht', hname⟩⟩,
            ⟨t', ht', hname, hentry''⟩, ?_⟩
          rw [← hname, hdist t' ht', hdist t ht]
          exact hlt
        · refine Or.inl (Or.inr ⟨hmem, ?_⟩)
          rw [(h.same s hs t ht).origins]
          exact hnearer.hasLsa
  obtain ⟨n, x, hn, hx⟩ := harrives
  have := Finset.card_erase_add_one hdest'
  exact ⟨n, x, by omega, hx⟩

end Network

/-- **Single-path forwarding is loop free across routers.** For every router of the network and
every destination it has an entry for, the one next hop comes nearer. Following the next hops
takes fewer steps than there are routers: to the destination, where every router with an LSA
belongs to the network. -/
theorem singlePath_loopFree (network : KeyedList Nlsr.routerPrefix) (h : ShareLsas network)
    (s : Nlsr) (hs : s ∈ network) (dest : Name) (hentry : s.linkStateTable.contains dest) :
    (∃ nh neighbor, ComesNearer network s dest nh neighbor) ∧
      (network.contains dest →
        (∃ n x, n < network.size ∧ follow (nextOf network dest) n s.routerPrefix = some x ∧
          (x = dest ∨ ¬ network.contains x ∧ s.lsdb.adjLsdb.contains (AdjLsa.key x))) ∧
        ((∀ x, s.lsdb.adjLsdb.contains (AdjLsa.key x) → network.contains x) →
          ∃ n < network.size, follow (nextOf network dest) n s.routerPrefix = some dest)) := by
  obtain ⟨nh, neighbor, hnearer, -⟩ := h.step hs hentry
  refine ⟨⟨nh, neighbor, hnearer⟩, fun hdest => ?_⟩
  obtain ⟨n, x, hn, hx, hend⟩ := h.arrives hs hentry hdest
  refine ⟨⟨n, x, hn, hx, hend⟩, fun hcomplete => ⟨n, hn, ?_⟩⟩
  rcases hend with rfl | ⟨hout, hlsa⟩
  · exact hx
  · exact absurd (hcomplete x hlsa) hout

/-- Adjacents with these names and faces. -/
def lineAdjacents (names : List String) : AdjacencyList :=
  (names.map fun x => ({ name := [⟨x⟩], connectingFaceUri := x } : Adjacent)).foldl
    KeyedList.insert KeyedList.empty

def lineLsa (x : String) (names : List String) : AdjLsa :=
  { origRouter := [⟨x⟩], adl := lineAdjacents names }

def lineRouter (x : String) (names : List String) (lsas : List AdjLsa) : Nlsr :=
  { confParam := { network := [⟨x⟩], maxFacesPerPrefix := 1 }
    adjacencyList := lineAdjacents names
    lsdb := { adjLsdb := lsas.foldl KeyedList.insert KeyedList.empty } }

/-- Routers `/a`, `/b`, `/c` in a line, their LSAs in different orders. -/
def line : KeyedList Nlsr.routerPrefix :=
  ⟨[lineRouter "a" ["b"] [lineLsa "a" ["b"], lineLsa "b" ["a", "c"], lineLsa "c" ["b"]],
    lineRouter "b" ["c", "a"] [lineLsa "c" ["b"], lineLsa "b" ["a", "c"], lineLsa "a" ["b"]],
    lineRouter "c" ["b"] [lineLsa "b" ["a", "c"], lineLsa "a" ["b"], lineLsa "c" ["b"]]],
    by decide⟩

theorem shareLsas_line : ShareLsas line := by
  have hperm : ∀ s ∈ line.toList, ∀ t ∈ line.toList,
      s.lsdb.adjLsdb.toList.Perm t.lsdb.adjLsdb.toList := by decide +kernel
  refine ⟨fun s hs => ⟨?_, ?_, ?_⟩, fun s hs t ht => sameAdjLsas_of_perm (hperm s hs t ht)⟩
  · revert s
    decide +kernel
  · revert s
    decide +kernel
  · have hown : ∀ s ∈ line.toList, ∀ lsa ∈ s.lsdb.adjLsdb.find? (AdjLsa.key s.routerPrefix),
        ∀ a ∈ lsa.adl.toList, ∃ neighbor ∈ s.adjacencyList.toList, neighbor.name = a.name ∧
          ∀ b ∈ s.adjacencyList.toList, b.connectingFaceUri = neighbor.connectingFaceUri →
            b = neighbor := by decide +kernel
    exact hown s hs

theorem singlePath_loopFree_line :
    ∃ n < 3, follow (nextOf line [⟨"c"⟩]) n [⟨"a"⟩] = some [⟨"c"⟩] := by
  have hentry : (lineRouter "a" ["b"] [lineLsa "a" ["b"], lineLsa "b" ["a", "c"],
      lineLsa "c" ["b"]]).linkStateTable.contains [⟨"c"⟩] = true := by decide +kernel
  have h := singlePath_loopFree line shareLsas_line _ List.mem_cons_self [⟨"c"⟩] hentry
  refine (h.2 (by decide)).2 fun x hx => ?_
  obtain ⟨lsa, hlsa, hkey⟩ := KeyedList.find?_isSome.1 hx
  have horigins : ∀ lsa ∈ (lineRouter "a" ["b"] [lineLsa "a" ["b"], lineLsa "b" ["a", "c"],
      lineLsa "c" ["b"]]).lsdb.adjLsdb.toList, line.contains lsa.origRouter = true := by
    decide +kernel
  exact AdjLsa.key_injective hkey ▸ horigins lsa hlsa

end Nlsr

end LinkState
