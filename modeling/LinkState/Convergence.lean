import LinkState.LsdbSpec

/-!
# Convergence of the database

LSAs are installed in the order they happen to arrive, some of them more than once, and the
stored LSAs are patched and compared, never replaced. `install_converges`: if LSAs of one kind,
origin and sequence number say the same, then the database depends only on which LSAs arrived:
for each kind and origin it has the content of the one with the highest number.

What an LSA says: its number and expiration point, and the set of its names, the set of its
adjacents as triples of name, face URI and cost, or its coordinates.
-/

namespace LinkState

/-! ## What an LSA says -/

/-- The origin, the sequence number and the expiration point are the same. -/
def Lsa.SameHeader (a b : Lsa) : Prop :=
  a.origRouter = b.origRouter ∧ a.lsSeqNo = b.lsSeqNo ∧
    a.expirationTimePoint = b.expirationTimePoint

/-- What an adjacent in an LSA says. -/
def Adjacent.triple (a : Adjacent) : Name × String × Double :=
  (a.name, a.connectingFaceUri, a.linkCost)

def NameLsa.Same (a b : NameLsa) : Prop :=
  a.toLsa.SameHeader b.toLsa ∧ ∀ n, n ∈ a.npl ↔ n ∈ b.npl

def AdjLsa.Same (a b : AdjLsa) : Prop :=
  a.toLsa.SameHeader b.toLsa ∧
    ∀ p, (∃ x ∈ a.adl, x.triple = p) ↔ ∃ x ∈ b.adl, x.triple = p

def CoordinateLsa.Same (a b : CoordinateLsa) : Prop :=
  a.toLsa.SameHeader b.toLsa ∧ a.corRad = b.corRad ∧ a.corTheta = b.corTheta

namespace Lsa.SameHeader

theorem refl (a : Lsa) : a.SameHeader a := ⟨rfl, rfl, rfl⟩

theorem symm {a b : Lsa} (h : a.SameHeader b) : b.SameHeader a :=
  ⟨h.1.symm, h.2.1.symm, h.2.2.symm⟩

theorem trans {a b c : Lsa} (h : a.SameHeader b) (h' : b.SameHeader c) : a.SameHeader c :=
  ⟨h.1.trans h'.1, h.2.1.trans h'.2.1, h.2.2.trans h'.2.2⟩

end Lsa.SameHeader

theorem NameLsa.Same.refl (a : NameLsa) : a.Same a := ⟨.refl _, fun _ => Iff.rfl⟩

theorem NameLsa.Same.symm {a b : NameLsa} (h : a.Same b) : b.Same a :=
  ⟨h.1.symm, fun n => (h.2 n).symm⟩

theorem NameLsa.Same.trans {a b c : NameLsa} (h : a.Same b) (h' : b.Same c) : a.Same c :=
  ⟨h.1.trans h'.1, fun n => (h.2 n).trans (h'.2 n)⟩

theorem AdjLsa.Same.refl (a : AdjLsa) : a.Same a := ⟨.refl _, fun _ => Iff.rfl⟩

theorem AdjLsa.Same.symm {a b : AdjLsa} (h : a.Same b) : b.Same a :=
  ⟨h.1.symm, fun p => (h.2 p).symm⟩

theorem AdjLsa.Same.trans {a b c : AdjLsa} (h : a.Same b) (h' : b.Same c) : a.Same c :=
  ⟨h.1.trans h'.1, fun p => (h.2 p).trans (h'.2 p)⟩

theorem CoordinateLsa.Same.refl (a : CoordinateLsa) : a.Same a := ⟨.refl _, rfl, rfl⟩

theorem CoordinateLsa.Same.symm {a b : CoordinateLsa} (h : a.Same b) : b.Same a :=
  ⟨h.1.symm, h.2.1.symm, h.2.2.symm⟩

theorem CoordinateLsa.Same.trans {a b c : CoordinateLsa} (h : a.Same b) (h' : b.Same c) :
    a.Same c :=
  ⟨h.1.trans h'.1, h.2.1.trans h'.2.1, h.2.2.trans h'.2.2⟩

/-! ## An update says what the new LSA says -/

namespace Nlsr

/-- Near costs that are whole numbers are equal. -/
theorem eq_of_near_of_nat {m n : ℕ} (h : Double.near m n = true) : m = n := by
  have h' : |((m : ℚ) - n)| < Double.epsilon := by simpa [Double.near] using h
  have hone : Double.epsilon < 1 := by norm_num [Double.epsilon]
  have hint : |(m : ℤ) - n| < 1 := by exact_mod_cast h'.trans hone
  rw [Int.abs_lt_one_iff, sub_eq_zero] at hint
  exact_mod_cast hint

/-- Every adjacent costs a whole number. -/
def WholeCosts (l : AdjacencyList) : Prop := ∀ a ∈ l, ∃ n : ℕ, a.linkCost = n

/-- What is rounded up was whole. -/
theorem getLinkCost_of_whole {a : Adjacent} {n : ℕ} (h : a.linkCost = n) : a.getLinkCost = n := by
  simp [Adjacent.getLinkCost, h]

/-- Where the cost of a neighbour in one list is near the rounded one in the other, the costs are
equal. -/
def NearIsEqual (as bs : List Adjacent) : Prop :=
  ∀ a ∈ as, ∀ b ∈ bs, a.name = b.name → Double.near a.linkCost b.getLinkCost = true →
    a.linkCost = b.linkCost

theorem nearIsEqual_of_wholeCosts {l l' : AdjacencyList} (hl : WholeCosts l)
    (hl' : WholeCosts l') : NearIsEqual l.toList l'.toList := by
  intro a ha b hb _ hnear
  obtain ⟨m, hm⟩ := hl a ha
  obtain ⟨n, hn⟩ := hl' b hb
  rw [getLinkCost_of_whole hn, hm] at hnear
  rw [hm, hn, eq_of_near_of_nat hnear]

/-- Lists the comparison loop finds equal have the same triples. -/
theorem map_triple_eq_of_all {as bs : List Adjacent} (hlen : as.length = bs.length)
    (hcosts : NearIsEqual as bs) (h : ((as.zip bs).all fun p => p.1.eq p.2) = true) :
    as.map Adjacent.triple = bs.map Adjacent.triple := by
  induction as generalizing bs with
  | nil => cases bs with
    | nil => rfl
    | cons b bs => simp at hlen
  | cons a as ih => cases bs with
    | nil => simp at hlen
    | cons b bs =>
      rw [List.zip_cons_cons, List.all_cons, Bool.and_eq_true] at h
      obtain ⟨hname, hface, hcost⟩ : a.name = b.name ∧
          a.connectingFaceUri = b.connectingFaceUri ∧
            Double.near a.linkCost b.getLinkCost = true := by
        simpa [Adjacent.eq] using h.1
      have hcost' := hcosts a List.mem_cons_self b List.mem_cons_self hname hcost
      have htail := ih (Nat.succ.inj hlen) (fun x hx y hy => hcosts x (List.mem_cons_of_mem _ hx) y
        (List.mem_cons_of_mem _ hy)) h.2
      rw [List.map_cons, List.map_cons, htail, Adjacent.triple, Adjacent.triple, hname, hface,
        hcost']

/-- A comparison sorts at most, so it keeps the elements of both lists. -/
theorem mem_eqSorting (l l' : AdjacencyList) :
    (∀ a, a ∈ (l.eqSorting l').2.1 ↔ a ∈ l) ∧ ∀ a, a ∈ (l.eqSorting l').2.2 ↔ a ∈ l' := by
  unfold AdjacencyList.eqSorting
  split_ifs
  · exact ⟨fun _ => Iff.rfl, fun _ => Iff.rfl⟩
  · exact ⟨fun _ => KeyedList.mem_sort, fun _ => KeyedList.mem_sort⟩

/-- Lists that compare equal have the same triples. -/
theorem triples_of_eqSorting {l l' : AdjacencyList} (hcosts : NearIsEqual l.toList l'.toList)
    (h : (l.eqSorting l').1 = true) (p : Name × String × Double) :
    (∃ a ∈ l, a.triple = p) ↔ ∃ a ∈ l', a.triple = p := by
  unfold AdjacencyList.eqSorting at h
  split_ifs at h with hsize
  have hlen : l.sortByName.toList.length = l'.sortByName.toList.length := by
    have hsize' : l.size = l'.size := not_not.1 hsize
    have h₁ : l.sortByName.size = l.size := KeyedList.size_sort l
    have h₂ : l'.sortByName.size = l'.size := KeyedList.size_sort l'
    exact h₁.trans (hsize'.trans h₂.symm)
  have hmap := map_triple_eq_of_all hlen (fun a ha b hb => hcosts a (KeyedList.mem_sort.1 ha) b
    (KeyedList.mem_sort.1 hb)) h
  have hmem : ∀ m : AdjacencyList,
      (∃ a ∈ m, a.triple = p) ↔ p ∈ m.sortByName.toList.map Adjacent.triple := by
    intro m
    rw [List.mem_map]
    exact exists_congr fun a => and_congr_left fun _ => KeyedList.mem_sort.symm
  rw [hmem, hmem, hmap]

/-- An updated list has the triples of the new one. -/
theorem triples_updatedAdl {old new : AdjacencyList}
    (hcosts : NearIsEqual old.toList new.toList) (p : Name × String × Double) :
    (∃ a ∈ updatedAdl old new, a.triple = p) ↔ ∃ a ∈ new, a.triple = p := by
  have hmem := mem_eqSorting old new
  unfold updatedAdl
  split_ifs with h
  · rw [← triples_of_eqSorting hcosts h p]
    exact exists_congr fun a => and_congr_left fun _ => hmem.1 a
  · exact exists_congr fun a => and_congr_left fun _ => hmem.2 a

theorem same_updatedNameLsa {st l : NameLsa} (horig : st.origRouter = l.origRouter) (eid : Nat) :
    (updatedNameLsa st l eid).Same l :=
  ⟨⟨horig, rfl, rfl⟩, fun _ => mem_patchedNames⟩

theorem same_updatedAdjLsa {st l : AdjLsa} (horig : st.origRouter = l.origRouter)
    (hst : WholeCosts st.adl) (hl : WholeCosts l.adl) (eid : Nat) :
    (updatedAdjLsa st l eid).Same l :=
  ⟨⟨horig, rfl, rfl⟩, triples_updatedAdl (nearIsEqual_of_wholeCosts hst hl)⟩

/-- Coordinates are equal or at least the tolerance apart. -/
def Apart (a b : Double) : Prop := a = b ∨ Double.epsilon ≤ |a - b|

theorem eq_of_near_of_apart {a b : Double} (h : Apart a b) (hnear : Double.near a b = true) :
    a = b := by
  refine h.resolve_right fun hge => ?_
  have hlt : |a - b| < Double.epsilon := by simpa [Double.near] using hnear
  exact absurd hge (not_le.2 hlt)

theorem same_updatedCoordinateLsa {st l : CoordinateLsa} (horig : st.origRouter = l.origRouter)
    (hrad : Apart st.corRad l.corRad) (htheta : Apart st.corTheta l.corTheta) (eid : Nat) :
    (updatedCoordinateLsa st l eid).Same l := by
  refine ⟨⟨horig, rfl, rfl⟩, ?_⟩
  dsimp only [updatedCoordinateLsa]
  by_cases h : st.isEqualContent l = true
  · obtain ⟨h₁, h₂⟩ : Double.near st.corRad l.corRad = true ∧
        Double.near st.corTheta l.corTheta = true := by
      simpa [CoordinateLsa.isEqualContent] using h
    rw [if_pos h, if_pos h]
    exact ⟨eq_of_near_of_apart hrad h₁, eq_of_near_of_apart htheta h₂⟩
  · rw [if_neg h, if_neg h]
    exact ⟨rfl, rfl⟩

end Nlsr

/-! ## Sequences of installs -/

namespace AnyLsa

def nameLsas (ls : List AnyLsa) : List NameLsa :=
  ls.filterMap fun | .name l => some l | _ => none

def adjLsas (ls : List AnyLsa) : List AdjLsa :=
  ls.filterMap fun | .adj l => some l | _ => none

def coordinateLsas (ls : List AnyLsa) : List CoordinateLsa :=
  ls.filterMap fun | .coordinate l => some l | _ => none

/-- LSAs of one kind, origin and number say the same; costs are whole; the coordinates of an
origin are equal or at least the tolerance apart. -/
structure Consistent (ls : List AnyLsa) : Prop where
  nameLsa : ∀ a ∈ nameLsas ls, ∀ b ∈ nameLsas ls, a.origRouter = b.origRouter →
    a.lsSeqNo = b.lsSeqNo → a.Same b
  adjLsa : ∀ a ∈ adjLsas ls, ∀ b ∈ adjLsas ls, a.origRouter = b.origRouter →
    a.lsSeqNo = b.lsSeqNo → a.Same b
  coordinateLsa : ∀ a ∈ coordinateLsas ls, ∀ b ∈ coordinateLsas ls,
    a.origRouter = b.origRouter → a.lsSeqNo = b.lsSeqNo → a.Same b
  costs : ∀ a ∈ adjLsas ls, Nlsr.WholeCosts a.adl
  apart : ∀ a ∈ coordinateLsas ls, ∀ b ∈ coordinateLsas ls, a.origRouter = b.origRouter →
    Nlsr.Apart a.corRad b.corRad ∧ Nlsr.Apart a.corTheta b.corTheta

theorem mem_nameLsas {ls : List AnyLsa} {l : NameLsa} : l ∈ nameLsas ls ↔ .name l ∈ ls := by
  rw [nameLsas, List.mem_filterMap]
  constructor
  · rintro ⟨x, hx, heq⟩
    cases x <;> simp at heq
    exact heq ▸ hx
  · exact fun h => ⟨.name l, h, rfl⟩

theorem mem_adjLsas {ls : List AnyLsa} {l : AdjLsa} : l ∈ adjLsas ls ↔ .adj l ∈ ls := by
  rw [adjLsas, List.mem_filterMap]
  constructor
  · rintro ⟨x, hx, heq⟩
    cases x <;> simp at heq
    exact heq ▸ hx
  · exact fun h => ⟨.adj l, h, rfl⟩

theorem mem_coordinateLsas {ls : List AnyLsa} {l : CoordinateLsa} :
    l ∈ coordinateLsas ls ↔ .coordinate l ∈ ls := by
  rw [coordinateLsas, List.mem_filterMap]
  constructor
  · rintro ⟨x, hx, heq⟩
    cases x <;> simp at heq
    exact heq ▸ hx
  · exact fun h => ⟨.coordinate l, h, rfl⟩

/-- LSAs that are consistent together are consistent in any part. -/
theorem Consistent.mono {ls ls' : List AnyLsa} (h : Consistent ls')
    (hsub : ∀ l ∈ ls, l ∈ ls') : Consistent ls := by
  have hname : ∀ l ∈ nameLsas ls, l ∈ nameLsas ls' := fun l hl =>
    mem_nameLsas.2 (hsub _ (mem_nameLsas.1 hl))
  have hadj : ∀ l ∈ adjLsas ls, l ∈ adjLsas ls' := fun l hl =>
    mem_adjLsas.2 (hsub _ (mem_adjLsas.1 hl))
  have hcor : ∀ l ∈ coordinateLsas ls, l ∈ coordinateLsas ls' := fun l hl =>
    mem_coordinateLsas.2 (hsub _ (mem_coordinateLsas.1 hl))
  exact {
    nameLsa := fun a ha b hb => h.nameLsa a (hname a ha) b (hname b hb)
    adjLsa := fun a ha b hb => h.adjLsa a (hadj a ha) b (hadj b hb)
    coordinateLsa := fun a ha b hb => h.coordinateLsa a (hcor a ha) b (hcor b hb)
    costs := fun a ha => h.costs a (hadj a ha)
    apart := fun a ha b hb => h.apart a (hcor a ha) b (hcor b hb) }

end AnyLsa

namespace Nlsr

/-- No LSA is stored. -/
structure EmptyDatabase (s : Nlsr) : Prop where
  nameLsdb : s.lsdb.nameLsdb = KeyedList.empty
  adjLsdb : s.lsdb.adjLsdb = KeyedList.empty
  corLsdb : s.lsdb.corLsdb = KeyedList.empty

/-- The database keeps track of the LSAs of a list. -/
structure Follows (s : Nlsr) (ls : List AnyLsa) : Prop where
  nameLsdb : Tracks (fun l => l.lsSeqNo.toNat) NameLsa.Same (AnyLsa.nameLsas ls) s.lsdb.nameLsdb
  adjLsdb : Tracks (fun l => l.lsSeqNo.toNat) AdjLsa.Same (AnyLsa.adjLsas ls) s.lsdb.adjLsdb
  corLsdb : Tracks (fun l => l.lsSeqNo.toNat) CoordinateLsa.Same (AnyLsa.coordinateLsas ls)
    s.lsdb.corLsdb

theorem wholeCosts_of_same {a b : AdjLsa} (h : a.Same b) (hb : WholeCosts b.adl) :
    WholeCosts a.adl := by
  intro x hx
  obtain ⟨y, hy, heq⟩ := (h.2 x.triple).1 ⟨x, hx, rfl⟩
  obtain ⟨n, hn⟩ := hb y hy
  exact ⟨n, by rw [← hn]; exact (congrArg (fun p => p.2.2) heq).symm⟩

/-- **One install.** -/
theorem Follows.install {s : Nlsr} {ls : List AnyLsa} {l : AnyLsa} (h : s.Follows ls)
    (hc : AnyLsa.Consistent (ls ++ [l])) : (s.install l).Follows (ls ++ [l]) := by
  cases l with
  | name l =>
    obtain ⟨hdb, eid, hinst⟩ := lsdb_installNameLsa s l
    have hname : AnyLsa.nameLsas (ls ++ [.name l]) = AnyLsa.nameLsas ls ++ [l] := by
      simp [AnyLsa.nameLsas]
    have hadj : AnyLsa.adjLsas (ls ++ [.name l]) = AnyLsa.adjLsas ls := by simp [AnyLsa.adjLsas]
    have hcor : AnyLsa.coordinateLsas (ls ++ [.name l]) = AnyLsa.coordinateLsas ls := by
      simp [AnyLsa.coordinateLsas]
    refine ⟨?_, ?_, ?_⟩
    · rw [hname]
      refine h.nameLsdb.installs hinst (fun st m hs => congrArg UInt32.toNat hs.1.2.1) (.refl l)
        fun st m _ hs hkey _ => same_updatedNameLsa ?_ eid
      exact hs.1.1.trans (NameLsa.key_injective hkey)
    · rw [hadj, Nlsr.install, hdb]; exact h.adjLsdb
    · rw [hcor, Nlsr.install, hdb]; exact h.corLsdb
  | adj l =>
    obtain ⟨hdb, eid, hinst⟩ := lsdb_installAdjLsa s l
    have hname : AnyLsa.nameLsas (ls ++ [.adj l]) = AnyLsa.nameLsas ls := by
      simp [AnyLsa.nameLsas]
    have hadj : AnyLsa.adjLsas (ls ++ [.adj l]) = AnyLsa.adjLsas ls ++ [l] := by
      simp [AnyLsa.adjLsas]
    have hcor : AnyLsa.coordinateLsas (ls ++ [.adj l]) = AnyLsa.coordinateLsas ls := by
      simp [AnyLsa.coordinateLsas]
    have hcosts := hc.costs
    rw [hadj] at hcosts
    refine ⟨?_, ?_, ?_⟩
    · rw [hname, Nlsr.install, hdb]; exact h.nameLsdb
    · rw [hadj]
      refine h.adjLsdb.installs hinst (fun st m hs => congrArg UInt32.toNat hs.1.2.1) (.refl l)
        fun st m hm hs hkey _ => same_updatedAdjLsa ?_ ?_ ?_ eid
      · exact hs.1.1.trans (AdjLsa.key_injective hkey)
      · exact wholeCosts_of_same hs (hcosts m (List.mem_append_left _ hm))
      · exact hcosts l (List.mem_append_right _ List.mem_cons_self)
    · rw [hcor, Nlsr.install, hdb]; exact h.corLsdb
  | coordinate l =>
    obtain ⟨hdb, eid, hinst⟩ := lsdb_installCoordinateLsa s l
    have hname : AnyLsa.nameLsas (ls ++ [.coordinate l]) = AnyLsa.nameLsas ls := by
      simp [AnyLsa.nameLsas]
    have hadj : AnyLsa.adjLsas (ls ++ [.coordinate l]) = AnyLsa.adjLsas ls := by
      simp [AnyLsa.adjLsas]
    have hcor : AnyLsa.coordinateLsas (ls ++ [.coordinate l]) =
        AnyLsa.coordinateLsas ls ++ [l] := by
      simp [AnyLsa.coordinateLsas]
    have hapart := hc.apart
    rw [hcor] at hapart
    refine ⟨?_, ?_, ?_⟩
    · rw [hname, Nlsr.install, hdb]; exact h.nameLsdb
    · rw [hadj, Nlsr.install, hdb]; exact h.adjLsdb
    · rw [hcor]
      refine h.corLsdb.installs hinst (fun st m hs => congrArg UInt32.toNat hs.1.2.1) (.refl l)
        fun st m hm hs hkey _ => ?_
      have horig := CoordinateLsa.key_injective hkey
      obtain ⟨hrad, htheta⟩ := hapart m (List.mem_append_left _ hm) l
        (List.mem_append_right _ List.mem_cons_self) horig
      exact same_updatedCoordinateLsa (hs.1.1.trans horig) (hs.2.1 ▸ hrad) (hs.2.2 ▸ htheta) eid

/-- **A sequence of installs.** The database keeps track of what was installed. -/
theorem Follows.foldl_install {s : Nlsr} {done : List AnyLsa} (h : s.Follows done)
    (ls : List AnyLsa) (hc : AnyLsa.Consistent (done ++ ls)) :
    (ls.foldl Nlsr.install s).Follows (done ++ ls) := by
  induction ls generalizing s done with
  | nil => rwa [List.append_nil]
  | cons l ls ih =>
    have hsplit : done ++ l :: ls = (done ++ [l]) ++ ls := by simp
    rw [hsplit] at hc ⊢
    exact ih (h.install (hc.mono fun x hx => List.mem_append_left _ hx)) hc

theorem follows_nil {s : Nlsr} (h : s.EmptyDatabase) : s.Follows [] where
  nameLsdb := tracks_nil fun k => by rw [h.nameLsdb, KeyedList.find?_empty]
  adjLsdb := tracks_nil fun k => by rw [h.adjLsdb, KeyedList.find?_empty]
  corLsdb := tracks_nil fun k => by rw [h.corLsdb, KeyedList.find?_empty]

/-! ## The database depends only on what arrived -/

/-- For each kind and origin the database has the content of the LSA with the highest number,
and one LSA at most. -/
structure Converged (db : Lsdb) (ls : List AnyLsa) : Prop where
  nameLsa : ∀ o, LatestContent NameLsa.Same (fun l => l.lsSeqNo.toNat) NameLsa.getKey
    (AnyLsa.nameLsas ls) (NameLsa.key o) (db.findNameLsa (NameLsa.key o))
  adjLsa : ∀ o, LatestContent AdjLsa.Same (fun l => l.lsSeqNo.toNat) AdjLsa.getKey
    (AnyLsa.adjLsas ls) (AdjLsa.key o) (db.findAdjLsa (AdjLsa.key o))
  coordinateLsa : ∀ o, LatestContent CoordinateLsa.Same (fun l => l.lsSeqNo.toNat)
    CoordinateLsa.getKey (AnyLsa.coordinateLsas ls) (CoordinateLsa.key o)
    (db.findCoordinateLsa (CoordinateLsa.key o))
  oneNameLsa : ∀ a ∈ db.nameLsdb, ∀ b ∈ db.nameLsdb, a.origRouter = b.origRouter → a = b
  oneAdjLsa : ∀ a ∈ db.adjLsdb, ∀ b ∈ db.adjLsdb, a.origRouter = b.origRouter → a = b
  oneCoordinateLsa : ∀ a ∈ db.corLsdb, ∀ b ∈ db.corLsdb, a.origRouter = b.origRouter → a = b

/-- Two databases that say the same. -/
structure SameDatabase (db db' : Lsdb) : Prop where
  nameLsa : ∀ k, Option.Rel NameLsa.Same (db.findNameLsa k) (db'.findNameLsa k)
  adjLsa : ∀ k, Option.Rel AdjLsa.Same (db.findAdjLsa k) (db'.findAdjLsa k)
  coordinateLsa : ∀ k,
    Option.Rel CoordinateLsa.Same (db.findCoordinateLsa k) (db'.findCoordinateLsa k)

/-- **Convergence.** Installing consistent LSAs into an empty database leaves for each kind and
origin the content of the one with the highest number; another order, with other repetitions,
leaves a database that says the same. -/
theorem install_converges {s : Nlsr} (hs : s.EmptyDatabase) {ls : List AnyLsa}
    (hc : AnyLsa.Consistent ls) :
    Converged (ls.foldl install s).lsdb ls ∧
      ∀ (s' : Nlsr) (ls' : List AnyLsa), s'.EmptyDatabase → (∀ l, l ∈ ls' ↔ l ∈ ls) →
        SameDatabase (ls.foldl install s).lsdb (ls'.foldl install s').lsdb := by
  have hname : ∀ a ∈ AnyLsa.nameLsas ls, ∀ b ∈ AnyLsa.nameLsas ls, a.getKey = b.getKey →
      a.lsSeqNo.toNat = b.lsSeqNo.toNat → a.Same b := fun a ha b hb hk hv =>
    hc.nameLsa a ha b hb (NameLsa.key_injective hk) (UInt32.toNat_inj.1 hv)
  have hadj : ∀ a ∈ AnyLsa.adjLsas ls, ∀ b ∈ AnyLsa.adjLsas ls, a.getKey = b.getKey →
      a.lsSeqNo.toNat = b.lsSeqNo.toNat → a.Same b := fun a ha b hb hk hv =>
    hc.adjLsa a ha b hb (AdjLsa.key_injective hk) (UInt32.toNat_inj.1 hv)
  have hcor : ∀ a ∈ AnyLsa.coordinateLsas ls, ∀ b ∈ AnyLsa.coordinateLsas ls,
      a.getKey = b.getKey → a.lsSeqNo.toNat = b.lsSeqNo.toNat → a.Same b := fun a ha b hb hk hv =>
    hc.coordinateLsa a ha b hb (CoordinateLsa.key_injective hk) (UInt32.toNat_inj.1 hv)
  have h := (follows_nil hs).foldl_install ls hc
  rw [List.nil_append] at h
  constructor
  · exact {
      nameLsa := fun o =>
        h.nameLsdb.latestContent (fun _ _ _ => .trans) hname (NameLsa.key o)
      adjLsa := fun o =>
        h.adjLsdb.latestContent (fun _ _ _ => .trans) hadj (AdjLsa.key o)
      coordinateLsa := fun o =>
        h.corLsdb.latestContent (fun _ _ _ => .trans) hcor (CoordinateLsa.key o)
      oneNameLsa := fun a ha b hb ho => KeyedList.eq_of_key_eq ha hb (congrArg NameLsa.key ho)
      oneAdjLsa := fun a ha b hb ho => KeyedList.eq_of_key_eq ha hb (congrArg AdjLsa.key ho)
      oneCoordinateLsa := fun a ha b hb ho =>
        KeyedList.eq_of_key_eq ha hb (congrArg CoordinateLsa.key ho) }
  · intro s' ls' hs' hmem
    have h' := (follows_nil hs').foldl_install ls' (hc.mono fun l hl => (hmem l).1 hl)
    rw [List.nil_append] at h'
    exact {
      nameLsa := h.nameLsdb.rel h'.nameLsdb
        (fun l => by rw [AnyLsa.mem_nameLsas, hmem, AnyLsa.mem_nameLsas])
        (fun _ _ => .symm) (fun _ _ _ => .trans) hname
      adjLsa := h.adjLsdb.rel h'.adjLsdb
        (fun l => by rw [AnyLsa.mem_adjLsas, hmem, AnyLsa.mem_adjLsas])
        (fun _ _ => .symm) (fun _ _ _ => .trans) hadj
      coordinateLsa := h.corLsdb.rel h'.corLsdb
        (fun l => by rw [AnyLsa.mem_coordinateLsas, hmem, AnyLsa.mem_coordinateLsas])
        (fun _ _ => .symm) (fun _ _ _ => .trans) hcor }

section twoVersions

def routerB : Nlsr := { confParam := {} }

/-- The list with the neighbour `b` alone. -/
def onlyB (linkCost : Double) : AdjacencyList :=
  KeyedList.insert KeyedList.empty { name := [⟨"b"⟩], connectingFaceUri := "ub", linkCost }

/-- The second versions of three LSAs, and the first ones, which arrive late. -/
def versions : List AnyLsa :=
  [.name { origRouter := [⟨"a"⟩], lsSeqNo := 2, npl := KeyedList.insert KeyedList.empty [⟨"p"⟩] },
    .name { origRouter := [⟨"a"⟩], lsSeqNo := 1, npl := KeyedList.insert KeyedList.empty [⟨"q"⟩] },
    .adj { origRouter := [⟨"a"⟩], lsSeqNo := 2, adl := onlyB 20 },
    .adj { origRouter := [⟨"a"⟩], lsSeqNo := 1, adl := onlyB 10 },
    .coordinate { origRouter := [⟨"a"⟩], lsSeqNo := 2, corRad := 1, corTheta := 3 },
    .coordinate { origRouter := [⟨"a"⟩], lsSeqNo := 1, corRad := 1, corTheta := 2 }]

theorem wholeCosts_onlyB (n : ℕ) : WholeCosts (onlyB n) := by
  intro a ha
  obtain ha | ⟨rfl, -⟩ := KeyedList.mem_insert.1 ha
  · exact absurd ha (KeyedList.not_mem_empty a)
  · exact ⟨n, rfl⟩

/-- Two versions with different numbers need not say the same. -/
theorem same_of_two {α : Type*} {same : α → α → Prop} {n : α → UInt32} {x y : α}
    (hx : same x x) (hy : same y y) (hne : n x ≠ n y) :
    ∀ a ∈ [x, y], ∀ b ∈ [x, y], n a = n b → same a b := by
  intro a ha b hb hn
  simp only [List.mem_cons, List.not_mem_nil, or_false] at ha hb
  rcases ha with rfl | rfl <;> rcases hb with rfl | rfl
  · exact hx
  · exact absurd hn hne
  · exact absurd hn.symm hne
  · exact hy

theorem consistent_versions : AnyLsa.Consistent versions where
  nameLsa a ha b hb _ := same_of_two (n := fun l : NameLsa => l.lsSeqNo) (.refl _) (.refl _)
    (by decide) a ha b hb
  adjLsa a ha b hb _ := same_of_two (n := fun l : AdjLsa => l.lsSeqNo) (.refl _) (.refl _)
    (by decide) a ha b hb
  coordinateLsa a ha b hb _ := same_of_two (n := fun l : CoordinateLsa => l.lsSeqNo) (.refl _)
    (.refl _) (by decide) a ha b hb
  costs := by
    intro a ha
    simp only [AnyLsa.adjLsas, versions, List.filterMap_cons, List.filterMap_nil, List.mem_cons,
      List.not_mem_nil, or_false] at ha
    rcases ha with rfl | rfl
    · exact wholeCosts_onlyB 20
    · exact wholeCosts_onlyB 10
  apart := by
    intro a ha b hb _
    simp only [AnyLsa.coordinateLsas, versions, List.filterMap_cons, List.filterMap_nil,
      List.mem_cons, List.not_mem_nil, or_false] at ha hb
    rcases ha with rfl | rfl <;> rcases hb with rfl | rfl
    · exact ⟨.inl rfl, .inl rfl⟩
    · exact ⟨.inl rfl, .inr (by norm_num [Double.epsilon])⟩
    · exact ⟨.inl rfl, .inr (by norm_num [Double.epsilon])⟩
    · exact ⟨.inl rfl, .inl rfl⟩

theorem install_converges_versions :
    Converged (versions.foldl install routerB).lsdb versions ∧
      SameDatabase (versions.foldl install routerB).lsdb
        (versions.reverse.foldl install routerB).lsdb :=
  have h := install_converges (s := routerB) ⟨rfl, rfl, rfl⟩ consistent_versions
  ⟨h.1, h.2 routerB versions.reverse ⟨rfl, rfl, rfl⟩ fun _ => List.mem_reverse⟩

end twoVersions

end Nlsr

end LinkState
