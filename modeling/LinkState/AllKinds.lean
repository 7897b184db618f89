import LinkState.Operations
import LinkState.SequenceTrip

/-!
# The stored LSA of a kind and an origin

The three tables of the database as one map, from a kind and an origin to an LSA of any kind.
There is one lemma for each operation that says what it leaves in the map; `lsaOf_apply` puts
them together for every `Op`.
-/

namespace LinkState

open SequencingManager

/-- The kind of an LSA. -/
def AnyLsa.counter : AnyLsa → Counter
  | .name _ => .name
  | .adj _ => .adj
  | .coordinate _ => .cor

def AnyLsa.lsSeqNo : AnyLsa → UInt32
  | .name l => l.lsSeqNo
  | .adj l => l.lsSeqNo
  | .coordinate l => l.lsSeqNo

def AnyLsa.toLsa : AnyLsa → Lsa
  | .name l => l.toLsa
  | .adj l => l.toLsa
  | .coordinate l => l.toLsa

/-- The stored LSA after an update of the first by the second, which is of the same kind. -/
def AnyLsa.updated (chk l : AnyLsa) (eid : Nat) : AnyLsa :=
  match chk, l with
  | .name chk, .name l => .name (Nlsr.updatedNameLsa chk l eid)
  | .adj chk, .adj l => .adj (Nlsr.updatedAdjLsa chk l eid)
  | .coordinate chk, .coordinate l => .coordinate (Nlsr.updatedCoordinateLsa chk l eid)
  | chk, _ => chk

/-- The key of a kind and an origin. -/
def SequencingManager.Counter.key : Counter → Name → Name
  | .name => NameLsa.key
  | .adj => AdjLsa.key
  | .cor => CoordinateLsa.key

theorem AnyLsa.lsSeqNo_updated {chk l : AnyLsa} (h : l.counter = chk.counter) (eid : Nat) :
    (chk.updated l eid).lsSeqNo = l.lsSeqNo := by
  cases chk <;> cases l <;> first | rfl | simp [AnyLsa.counter] at h

namespace Nlsr

/-- The stored LSA of a kind and an origin. -/
def lsaOf (s : Nlsr) : Counter → Name → Option AnyLsa
  | .name, o => (s.lsdb.findNameLsa (NameLsa.key o)).map .name
  | .adj, o => (s.lsdb.findAdjLsa (AdjLsa.key o)).map .adj
  | .cor, o => (s.lsdb.findCoordinateLsa (CoordinateLsa.key o)).map .coordinate

theorem lsaOf_congr {s t : Nlsr} (hname : t.lsdb.nameLsdb = s.lsdb.nameLsdb)
    (hadj : t.lsdb.adjLsdb = s.lsdb.adjLsdb) (hcor : t.lsdb.corLsdb = s.lsdb.corLsdb) :
    t.lsaOf = s.lsaOf := by
  funext c o
  cases c <;> simp only [lsaOf, Lsdb.findNameLsa, Lsdb.findAdjLsa, Lsdb.findCoordinateLsa, hname,
    hadj, hcor]

theorem Quiet.lsaOf {s t : Nlsr} (h : Quiet s t) : t.lsaOf = s.lsaOf :=
  lsaOf_congr h.nameLsdb h.adjLsdb h.corLsdb

theorem counter_of_lsaOf {s : Nlsr} {c : Counter} {o : Name} {l : AnyLsa}
    (h : s.lsaOf c o = some l) : l.counter = c := by
  cases c <;>
  · simp only [lsaOf, Option.map_eq_some_iff] at h
    obtain ⟨l', -, rfl⟩ := h
    rfl

theorem origRouter_of_lsaOf {s : Nlsr} {c : Counter} {o : Name} {l : AnyLsa}
    (h : s.lsaOf c o = some l) : l.origRouter = o := by
  cases c with
  | name =>
    obtain ⟨l', hl', rfl⟩ := Option.map_eq_some_iff.1 h
    have hkey : l'.getKey = NameLsa.key o :=
      KeyedList.key_of_find? (l := s.lsdb.nameLsdb) hl'
    exact NameLsa.key_inj.1 hkey
  | adj =>
    obtain ⟨l', hl', rfl⟩ := Option.map_eq_some_iff.1 h
    have hkey : l'.getKey = AdjLsa.key o :=
      KeyedList.key_of_find? (l := s.lsdb.adjLsdb) hl'
    exact AdjLsa.key_inj.1 hkey
  | cor =>
    obtain ⟨l', hl', rfl⟩ := Option.map_eq_some_iff.1 h
    have hkey : l'.getKey = CoordinateLsa.key o :=
      KeyedList.key_of_find? (l := s.lsdb.corLsdb) hl'
    exact CoordinateLsa.key_inj.1 hkey

/-! ## Installs -/

/-- What an install leaves: the new LSA if there was none, an update if it is newer. -/
def LsaOfInstall (s t : Nlsr) (l : AnyLsa) (eid : Nat) : Prop :=
  ∀ c o, t.lsaOf c o =
    if c = l.counter ∧ o = l.origRouter then
      some (afterOffer (fun l => l.lsSeqNo.toNat) (fun chk => chk.updated l eid) l (s.lsaOf c o))
    else s.lsaOf c o

theorem lsaOf_install (s : Nlsr) (l : AnyLsa) : ∃ eid, LsaOfInstall s (s.install l) l eid := by
  cases l with
  | name l =>
    obtain ⟨hdb, eid, hinst⟩ := lsdb_installNameLsa s l
    have hadj : (s.installNameLsa l).lsdb.adjLsdb = s.lsdb.adjLsdb := by rw [hdb]
    have hcor : (s.installNameLsa l).lsdb.corLsdb = s.lsdb.corLsdb := by rw [hdb]
    refine ⟨eid, fun c o => ?_⟩
    cases c with
    | name =>
      have hfind := hinst.find?_map AnyLsa.name (fun chk => chk.updated (.name l) eid)
        (fun chk => chk.lsSeqNo.toNat) (fun _ => rfl) (fun _ => rfl) (NameLsa.key o)
      simp only [NameLsa.getKey, NameLsa.key_inj] at hfind
      simpa [lsaOf, install, AnyLsa.counter, AnyLsa.origRouter, Lsdb.findNameLsa] using hfind
    | adj => simp [lsaOf, install, Lsdb.findAdjLsa, hadj, AnyLsa.counter]
    | cor => simp [lsaOf, install, Lsdb.findCoordinateLsa, hcor, AnyLsa.counter]
  | adj l =>
    obtain ⟨hdb, eid, hinst⟩ := lsdb_installAdjLsa s l
    have hname : (s.installAdjLsa l).lsdb.nameLsdb = s.lsdb.nameLsdb := by rw [hdb]
    have hcor : (s.installAdjLsa l).lsdb.corLsdb = s.lsdb.corLsdb := by rw [hdb]
    refine ⟨eid, fun c o => ?_⟩
    cases c with
    | name => simp [lsaOf, install, Lsdb.findNameLsa, hname, AnyLsa.counter]
    | adj =>
      have hfind := hinst.find?_map AnyLsa.adj (fun chk => chk.updated (.adj l) eid)
        (fun chk => chk.lsSeqNo.toNat) (fun _ => rfl) (fun _ => rfl) (AdjLsa.key o)
      simp only [AdjLsa.getKey, AdjLsa.key_inj] at hfind
      simpa [lsaOf, install, AnyLsa.counter, AnyLsa.origRouter, Lsdb.findAdjLsa] using hfind
    | cor => simp [lsaOf, install, Lsdb.findCoordinateLsa, hcor, AnyLsa.counter]
  | coordinate l =>
    obtain ⟨hdb, eid, hinst⟩ := lsdb_installCoordinateLsa s l
    have hname : (s.installCoordinateLsa l).lsdb.nameLsdb = s.lsdb.nameLsdb := by rw [hdb]
    have hadj : (s.installCoordinateLsa l).lsdb.adjLsdb = s.lsdb.adjLsdb := by rw [hdb]
    refine ⟨eid, fun c o => ?_⟩
    cases c with
    | name => simp [lsaOf, install, Lsdb.findNameLsa, hname, AnyLsa.counter]
    | adj => simp [lsaOf, install, Lsdb.findAdjLsa, hadj, AnyLsa.counter]
    | cor =>
      have hfind := hinst.find?_map AnyLsa.coordinate (fun chk => chk.updated (.coordinate l) eid)
        (fun chk => chk.lsSeqNo.toNat) (fun _ => rfl) (fun _ => rfl) (CoordinateLsa.key o)
      simp only [CoordinateLsa.getKey, CoordinateLsa.key_inj] at hfind
      simpa [lsaOf, install, AnyLsa.counter, AnyLsa.origRouter, Lsdb.findCoordinateLsa] using hfind

/-! ## Removals -/

/-- What a removal leaves: all but the LSA of the kind with the key. -/
def LsaOfRemove (s t : Nlsr) (kind : Counter) (key : Name) : Prop :=
  ∀ c o, t.lsaOf c o = if c = kind ∧ Counter.key c o = key then none else s.lsaOf c o

theorem lsaOf_removeNameLsa (s : Nlsr) (key : Name) :
    LsaOfRemove s (s.removeNameLsa key) .name key := by
  intro c o
  cases h : s.lsdb.findNameLsa key with
  | none =>
    rw [removeNameLsa_of_none h]
    split_ifs with hk
    · obtain ⟨rfl, rfl⟩ := hk
      show (s.lsdb.findNameLsa (NameLsa.key o)).map _ = none
      rw [show s.lsdb.findNameLsa (NameLsa.key o) = none from h]
      rfl
    · rfl
  | some l =>
    have hdb := lsdb_removeNameLsa_of_some h
    cases c with
    | name =>
      simp only [lsaOf, hdb, Lsdb.findNameLsa, Lsdb.onLsdbChange, KeyedList.find?_erase,
        Counter.key, true_and]
      split_ifs <;> simp_all
    | adj => simp [lsaOf, hdb, Lsdb.findAdjLsa, Lsdb.onLsdbChange]
    | cor => simp [lsaOf, hdb, Lsdb.findCoordinateLsa, Lsdb.onLsdbChange]

theorem lsaOf_removeAdjLsa (s : Nlsr) (key : Name) :
    LsaOfRemove s (s.removeAdjLsa key) .adj key := by
  intro c o
  cases h : s.lsdb.findAdjLsa key with
  | none =>
    rw [removeAdjLsa_of_none h]
    split_ifs with hk
    · obtain ⟨rfl, rfl⟩ := hk
      show (s.lsdb.findAdjLsa (AdjLsa.key o)).map _ = none
      rw [show s.lsdb.findAdjLsa (AdjLsa.key o) = none from h]
      rfl
    · rfl
  | some l =>
    have hdb := lsdb_removeAdjLsa_of_some h
    cases c with
    | name => simp [lsaOf, hdb, Lsdb.findNameLsa, Lsdb.onLsdbChange]
    | adj =>
      simp only [lsaOf, hdb, Lsdb.findAdjLsa, Lsdb.onLsdbChange, KeyedList.find?_erase, Counter.key,
        true_and]
      split_ifs <;> simp_all
    | cor => simp [lsaOf, hdb, Lsdb.findCoordinateLsa, Lsdb.onLsdbChange]

theorem lsaOf_removeCoordinateLsa (s : Nlsr) (key : Name) :
    LsaOfRemove s (s.removeCoordinateLsa key) .cor key := by
  intro c o
  cases h : s.lsdb.findCoordinateLsa key with
  | none =>
    rw [removeCoordinateLsa_of_none h]
    split_ifs with hk
    · obtain ⟨rfl, rfl⟩ := hk
      show (s.lsdb.findCoordinateLsa (CoordinateLsa.key o)).map _ = none
      rw [show s.lsdb.findCoordinateLsa (CoordinateLsa.key o) = none from h]
      rfl
    · rfl
  | some l =>
    have hdb := lsdb_removeCoordinateLsa_of_some h
    cases c with
    | name => simp [lsaOf, hdb, Lsdb.findNameLsa, Lsdb.onLsdbChange]
    | adj => simp [lsaOf, hdb, Lsdb.findAdjLsa, Lsdb.onLsdbChange]
    | cor =>
      simp only [lsaOf, hdb, Lsdb.findCoordinateLsa, Lsdb.onLsdbChange, KeyedList.find?_erase,
        Counter.key, true_and]
      split_ifs <;> simp_all

/-! ## Refreshes -/

end Nlsr

/-- The header after a refresh: the next number, a new expiration point and event. -/
def Lsa.refreshed (l : Lsa) (expirationTimePoint : TimePoint) (eid : Nat) : Lsa :=
  { l with lsSeqNo := l.lsSeqNo + 1, expirationTimePoint, expiringEventId := some eid }

def AnyLsa.refreshed (l : AnyLsa) (expirationTimePoint : TimePoint) (eid : Nat) : AnyLsa :=
  match l with
  | .name l => .name { l with toLsa := l.toLsa.refreshed expirationTimePoint eid }
  | .adj l => .adj { l with toLsa := l.toLsa.refreshed expirationTimePoint eid }
  | .coordinate l => .coordinate { l with toLsa := l.toLsa.refreshed expirationTimePoint eid }

theorem AnyLsa.lsSeqNo_refreshed (l : AnyLsa) (t : TimePoint) (eid : Nat) :
    (l.refreshed t eid).lsSeqNo = l.lsSeqNo + 1 := by
  cases l <;> rfl

namespace Nlsr

/-- What a refresh leaves: the LSA of the kind with the key is refreshed. -/
def LsaOfRefresh (s t : Nlsr) (kind : Counter) (key : Name) : Prop :=
  ∀ c o, t.lsaOf c o =
    if c = kind ∧ Counter.key c o = key then
      (s.lsaOf c o).map fun l => l.refreshed s.getLsaExpirationTimePoint s.scheduler.nextId
    else s.lsaOf c o

theorem lsaOf_refreshNameLsa {s : Nlsr} {key : Name} {chk : NameLsa}
    (h : s.lsdb.findNameLsa key = some chk) :
    LsaOfRefresh s (s.refreshNameLsa chk) .name key := by
  have hkey : chk.getKey = key := KeyedList.key_of_find? h
  let l' : NameLsa :=
    { chk with toLsa := chk.toLsa.refreshed s.getLsaExpirationTimePoint s.scheduler.nextId }
  have hkey' : l'.getKey = key := hkey
  intro c o
  cases c with
  | name =>
    show ((s.lsdb.nameLsdb.replace l').find? (NameLsa.key o)).map _ = _
    rw [KeyedList.find?_replace, hkey']
    by_cases ho : NameLsa.key o = key
    · rw [if_pos ho, if_pos ⟨rfl, ho⟩, ho]
      show ((s.lsdb.findNameLsa key).map _).map _ = ((s.lsdb.findNameLsa _).map _).map _
      rw [ho, h]
      rfl
    · rw [if_neg ho, if_neg fun hc => ho hc.2]
      rfl
  | adj => rfl
  | cor => rfl

theorem lsaOf_refreshAdjLsa {s : Nlsr} {key : Name} {chk : AdjLsa}
    (h : s.lsdb.findAdjLsa key = some chk) :
    LsaOfRefresh s (s.refreshAdjLsa chk) .adj key := by
  have hkey : chk.getKey = key := KeyedList.key_of_find? h
  let l' : AdjLsa :=
    { chk with toLsa := chk.toLsa.refreshed s.getLsaExpirationTimePoint s.scheduler.nextId }
  have hkey' : l'.getKey = key := hkey
  intro c o
  cases c with
  | name => rfl
  | adj =>
    show ((s.lsdb.adjLsdb.replace l').find? (AdjLsa.key o)).map _ = _
    rw [KeyedList.find?_replace, hkey']
    by_cases ho : AdjLsa.key o = key
    · rw [if_pos ho, if_pos ⟨rfl, ho⟩, ho]
      show ((s.lsdb.findAdjLsa key).map _).map _ = ((s.lsdb.findAdjLsa _).map _).map _
      rw [ho, h]
      rfl
    · rw [if_neg ho, if_neg fun hc => ho hc.2]
      rfl
  | cor => rfl

theorem lsaOf_refreshCoordinateLsa {s : Nlsr} {key : Name} {chk : CoordinateLsa}
    (h : s.lsdb.findCoordinateLsa key = some chk) :
    LsaOfRefresh s (s.refreshCoordinateLsa chk) .cor key := by
  have hkey : chk.getKey = key := KeyedList.key_of_find? h
  let l' : CoordinateLsa :=
    { chk with toLsa := chk.toLsa.refreshed s.getLsaExpirationTimePoint s.scheduler.nextId }
  have hkey' : l'.getKey = key := hkey
  intro c o
  cases c with
  | name => rfl
  | adj => rfl
  | cor =>
    show ((s.lsdb.corLsdb.replace l').find? (CoordinateLsa.key o)).map _ = _
    rw [KeyedList.find?_replace, hkey']
    by_cases ho : CoordinateLsa.key o = key
    · rw [if_pos ho, if_pos ⟨rfl, ho⟩, ho]
      show ((s.lsdb.findCoordinateLsa key).map _).map _ = ((s.lsdb.findCoordinateLsa _).map _).map _
      rw [ho, h]
      rfl
    · rw [if_neg ho, if_neg fun hc => ho hc.2]
      rfl

/-! ## Every operation -/

theorem lsaOf_calculate (math : MathLib) (s : Nlsr) : (s.calculate math).lsaOf = s.lsaOf := by
  have h := onlyRouting_calculate math s
  rw [OnlyRouting] at h
  rw [h]
  exact lsaOf_congr rfl rfl rfl

theorem lsaOf_fibRemove (s : Nlsr) (name : Name) : (s.fibRemove name).lsaOf = s.lsaOf := by
  have h := onlyFib_fibRemove s name
  rw [OnlyFib] at h
  rw [h]
  exact lsaOf_congr rfl rfl rfl

/-- No operation changes the configuration. -/
theorem confParam_apply (math : MathLib) (s : Nlsr) (op : Op) :
    (s.apply math op).confParam = s.confParam := by
  cases op with
  | none => rfl
  | install l =>
    obtain ⟨_, _, h⟩ := exists_edits_install s l
    exact h.confParam
  | removeNameLsa key =>
    obtain ⟨_, _, h⟩ := exists_edits_removeNameLsa s key
    exact h.confParam
  | removeAdjLsa key =>
    obtain ⟨_, _, h⟩ := exists_edits_removeAdjLsa s key
    exact h.confParam
  | removeCoordinateLsa key =>
    obtain ⟨_, _, h⟩ := exists_edits_removeCoordinateLsa s key
    exact h.confParam
  | refreshNameLsa key =>
    simp only [apply]
    split <;> rfl
  | refreshAdjLsa key =>
    simp only [apply]
    split <;> rfl
  | refreshCoordinateLsa key =>
    simp only [apply]
    split <;> rfl
  | calculate =>
    have h := onlyRouting_calculate math s
    rw [OnlyRouting] at h
    show (s.calculate math).confParam = _
    rw [h]
  | fibRemove name =>
    have h := onlyFib_fibRemove s name
    rw [OnlyFib] at h
    show (s.fibRemove name).confParam = _
    rw [h]

theorem confParam_step (math : MathLib) (s : Nlsr) (e : Event) :
    (s.step math e).confParam = s.confParam := by
  obtain ⟨s₁, h₁, h₂⟩ := step_spec math s e
  rw [h₂.confParam, confParam_apply, h₁.confParam]

theorem confParam_initializeNlsr (confParam : ConfParameter) (adjacencyList : AdjacencyList)
    (namePrefixList : NamePrefixList) (seqFile : Option UInt64) (now : TimePoint) :
    (start confParam adjacencyList namePrefixList seqFile now).initializeNlsr.confParam =
      confParam :=
  initializeNlsr_of_step (P := fun s => s.confParam = confParam) ⟨0, id, id, id, id⟩
    (fun s h => (confParam_step _ s .buildAndInstallOwnNameLsa).trans h)
    (fun s h => (confParam_step _ s .buildAndInstallOwnCoordinateLsa).trans h) (fun _ h => h) rfl

/-- No operation changes where the prefix of this router is kept a second time. -/
theorem thisRouterPrefix_apply (math : MathLib) (s : Nlsr) (op : Op) :
    (s.apply math op).lsdb.thisRouterPrefix = s.lsdb.thisRouterPrefix := by
  cases op with
  | none => rfl
  | install l =>
    cases l with
    | name l => simp only [apply, install]; rw [(lsdb_installNameLsa s l).1]
    | adj l => simp only [apply, install]; rw [(lsdb_installAdjLsa s l).1]
    | coordinate l => simp only [apply, install]; rw [(lsdb_installCoordinateLsa s l).1]
  | removeNameLsa key =>
    simp only [apply]
    cases h : s.lsdb.findNameLsa key with
    | none => rw [removeNameLsa_of_none h]
    | some l => rw [removeNameLsa_of_some h]; rfl
  | removeAdjLsa key =>
    simp only [apply]
    cases h : s.lsdb.findAdjLsa key with
    | none => rw [removeAdjLsa_of_none h]
    | some l => rw [removeAdjLsa_of_some h]; rfl
  | removeCoordinateLsa key =>
    simp only [apply]
    cases h : s.lsdb.findCoordinateLsa key with
    | none => rw [removeCoordinateLsa_of_none h]
    | some l => rw [removeCoordinateLsa_of_some h]; rfl
  | refreshNameLsa key =>
    simp only [apply]
    split <;> rfl
  | refreshAdjLsa key =>
    simp only [apply]
    split <;> rfl
  | refreshCoordinateLsa key =>
    simp only [apply]
    split <;> rfl
  | calculate =>
    have h := onlyRouting_calculate math s
    rw [OnlyRouting] at h
    show (s.calculate math).lsdb.thisRouterPrefix = _
    rw [h]
  | fibRemove name =>
    have h := onlyFib_fibRemove s name
    rw [OnlyFib] at h
    show (s.fibRemove name).lsdb.thisRouterPrefix = _
    rw [h]

theorem thisRouterPrefix_step (math : MathLib) (s : Nlsr) (e : Event) :
    (s.step math e).lsdb.thisRouterPrefix = s.lsdb.thisRouterPrefix := by
  obtain ⟨s₁, h₁, h₂⟩ := step_spec math s e
  rw [h₂.thisRouterPrefix, thisRouterPrefix_apply, h₁.thisRouterPrefix]

/-- How an operation can come to leave an LSA of a kind and an origin. -/
inductive LsaChange (s : Nlsr) (c : Counter) (o : Name) (op : Op) (l' : AnyLsa) : Prop
  | kept (h : s.lsaOf c o = some l')
  | installed (hop : op = .install l') (hc : c = l'.counter) (ho : o = l'.origRouter)
      (h : s.lsaOf c o = none)
  | updated (l chk : AnyLsa) (eid : Nat) (hop : op = .install l) (hc : c = l.counter)
      (ho : o = l.origRouter) (h : s.lsaOf c o = some chk) (hlt : chk.lsSeqNo < l.lsSeqNo)
      (hl' : l' = chk.updated l eid)
  | refreshed (chk : AnyLsa) (t : TimePoint) (eid : Nat) (h : s.lsaOf c o = some chk)
      (hop : op = .refreshNameLsa (NameLsa.key o) ∨ op = .refreshAdjLsa (AdjLsa.key o) ∨
        op = .refreshCoordinateLsa (CoordinateLsa.key o))
      (hl' : l' = chk.refreshed t eid)

theorem LsaOfInstall.change {s t : Nlsr} {l : AnyLsa} {eid : Nat} (h : LsaOfInstall s t l eid)
    {c : Counter} {o : Name} {l' : AnyLsa} (hl' : t.lsaOf c o = some l') :
    LsaChange s c o (.install l) l' := by
  rw [h c o] at hl'
  split_ifs at hl' with hco
  · obtain ⟨hc, ho⟩ := hco
    cases hs : s.lsaOf c o with
    | none =>
      rw [hs] at hl'
      obtain rfl : l = l' := Option.some.inj hl'
      exact .installed rfl hc ho hs
    | some chk =>
      rw [hs] at hl'
      have hl'' : l' = if chk.lsSeqNo.toNat < l.lsSeqNo.toNat then chk.updated l eid else chk :=
        (Option.some.inj hl').symm
      split_ifs at hl'' with hlt
      · exact .updated l chk eid rfl hc ho hs (UInt32.lt_iff_toNat_lt.2 hlt) hl''
      · exact .kept (hl'' ▸ hs)
  · exact .kept hl'

theorem LsaOfRemove.change {s t : Nlsr} {kind : Counter} {key : Name}
    (h : LsaOfRemove s t kind key) {c : Counter} {o : Name} {l' : AnyLsa} {op : Op}
    (hl' : t.lsaOf c o = some l') : LsaChange s c o op l' := by
  rw [h c o] at hl'
  split_ifs at hl'
  exact .kept hl'

theorem LsaOfRefresh.change {s t : Nlsr} {kind : Counter} {key : Name}
    (h : LsaOfRefresh s t kind key) {c : Counter} {o : Name} {l' : AnyLsa} {op : Op}
    (hop : c = kind → Counter.key c o = key →
      op = .refreshNameLsa (NameLsa.key o) ∨ op = .refreshAdjLsa (AdjLsa.key o) ∨
        op = .refreshCoordinateLsa (CoordinateLsa.key o))
    (hl' : t.lsaOf c o = some l') : LsaChange s c o op l' := by
  rw [h c o] at hl'
  split_ifs at hl' with hco
  · obtain ⟨chk, hchk, hl'⟩ := Option.map_eq_some_iff.1 hl'
    exact .refreshed chk _ _ hchk (hop hco.1 hco.2) hl'.symm
  · exact .kept hl'

/-- **Where a stored LSA comes from**: it was there, it was installed, it is an update or a
refresh of one that was there. -/
theorem lsaChange_apply (math : MathLib) (s : Nlsr) (op : Op) {c : Counter} {o : Name}
    {l' : AnyLsa} (hl' : (s.apply math op).lsaOf c o = some l') : LsaChange s c o op l' := by
  cases op with
  | none => exact .kept hl'
  | install l =>
    obtain ⟨eid, h⟩ := lsaOf_install s l
    exact h.change hl'
  | removeNameLsa key => exact (lsaOf_removeNameLsa s key).change hl'
  | removeAdjLsa key => exact (lsaOf_removeAdjLsa s key).change hl'
  | removeCoordinateLsa key => exact (lsaOf_removeCoordinateLsa s key).change hl'
  | refreshNameLsa key =>
    simp only [apply] at hl'
    cases h : s.lsdb.findNameLsa key with
    | none => rw [h] at hl'; exact .kept hl'
    | some chk =>
      rw [h] at hl'
      refine (lsaOf_refreshNameLsa h).change (fun hc hkey => ?_) hl'
      subst hc hkey
      exact Or.inl rfl
  | refreshAdjLsa key =>
    simp only [apply] at hl'
    cases h : s.lsdb.findAdjLsa key with
    | none => rw [h] at hl'; exact .kept hl'
    | some chk =>
      rw [h] at hl'
      refine (lsaOf_refreshAdjLsa h).change (fun hc hkey => ?_) hl'
      subst hc hkey
      exact Or.inr (Or.inl rfl)
  | refreshCoordinateLsa key =>
    simp only [apply] at hl'
    cases h : s.lsdb.findCoordinateLsa key with
    | none => rw [h] at hl'; exact .kept hl'
    | some chk =>
      rw [h] at hl'
      refine (lsaOf_refreshCoordinateLsa h).change (fun hc hkey => ?_) hl'
      subst hc hkey
      exact Or.inr (Or.inr rfl)
  | calculate => exact .kept (by rwa [apply, lsaOf_calculate] at hl')
  | fibRemove name => exact .kept (by rwa [apply, lsaOf_fibRemove] at hl')

theorem LsaChange.congr {s s₁ : Nlsr} (hs : s₁.lsaOf = s.lsaOf) {c : Counter} {o : Name} {op : Op}
    {l' : AnyLsa} (h : LsaChange s₁ c o op l') : LsaChange s c o op l' := by
  cases h with
  | kept h => exact .kept (hs ▸ h)
  | installed hop hc ho h => exact .installed hop hc ho (hs ▸ h)
  | updated l chk eid hop hc ho h hlt hl' =>
    exact .updated l chk eid hop hc ho (hs ▸ h) hlt hl'
  | refreshed chk t eid h hop hl' => exact .refreshed chk t eid (hs ▸ h) hop hl'

theorem lsaChange_step (math : MathLib) (s : Nlsr) (e : Event) {c : Counter} {o : Name}
    {l' : AnyLsa} (hl' : (s.step math e).lsaOf c o = some l') :
    LsaChange s c o (s.opOf e) l' := by
  obtain ⟨s₁, h₁, h₂⟩ := step_spec math s e
  rw [h₂.lsaOf] at hl'
  exact (lsaChange_apply math s₁ _ hl').congr h₁.lsaOf

/-- An event refreshes only LSAs of this router. -/
theorem origin_of_refresh {s : Nlsr} {e : Event} {o : Name}
    (hop : s.opOf e = .refreshNameLsa (NameLsa.key o) ∨
      s.opOf e = .refreshAdjLsa (AdjLsa.key o) ∨
      s.opOf e = .refreshCoordinateLsa (CoordinateLsa.key o)) : o = s.lsdb.thisRouterPrefix := by
  have haction : ∀ action, (s.actionOp action = .refreshNameLsa (NameLsa.key o) ∨
      s.actionOp action = .refreshAdjLsa (AdjLsa.key o) ∨
      s.actionOp action = .refreshCoordinateLsa (CoordinateLsa.key o)) →
      o = s.lsdb.thisRouterPrefix := by
    intro action hop
    have hspec := s.actionOp_spec action
    rcases hop with hop | hop | hop
    · rw [hop] at hspec
      cases hspec with
      | @refreshNameLsa _ _ chk hfind hseq horig =>
        have hkey : chk.getKey = NameLsa.key o := KeyedList.key_of_find? hfind
        exact (NameLsa.key_inj.1 hkey).symm.trans horig
    · rw [hop] at hspec
      cases hspec with
      | @refreshAdjLsa _ _ chk hfind hseq horig =>
        have hkey : chk.getKey = AdjLsa.key o := KeyedList.key_of_find? hfind
        exact (AdjLsa.key_inj.1 hkey).symm.trans horig
    · rw [hop] at hspec
      cases hspec with
      | @refreshCoordinateLsa _ _ chk hfind hseq horig =>
        have hkey : chk.getKey = CoordinateLsa.key o := KeyedList.key_of_find? hfind
        exact (CoordinateLsa.key_inj.1 hkey).symm.trans horig
  cases e with
  | fire id =>
    simp only [opOf, fireOp] at hop
    cases h : s.pendingAction id with
    | none => simp [h] at hop
    | some action => rw [h] at hop; exact haction action hop
  | advertise name =>
    simp only [opOf, advertiseOp] at hop
    split_ifs at hop <;> simp at hop
  | withdraw name =>
    simp only [opOf, withdrawOp] at hop
    split_ifs at hop <;> simp at hop
  | _ => simp [opOf] at hop

/-- No LSA of an origin arrives. -/
def NotFrom (o : Name) : Event → Prop
  | .installNameLsa nlsa => nlsa.origRouter ≠ o
  | .installAdjLsa alsa => alsa.origRouter ≠ o
  | .installCoordinateLsa clsa => clsa.origRouter ≠ o
  | _ => True

/-- The LSA is one this router builds now. -/
def Builds (s : Nlsr) : AnyLsa → Prop
  | .name l => l.origRouter = s.routerPrefix
  | .adj l => l = s.ownAdjLsa
  | .coordinate l => l = s.ownCoordinateLsa

theorem origRouter_of_builds {s : Nlsr} {l : AnyLsa} (h : s.Builds l) :
    l.origRouter = s.routerPrefix := by
  cases l with
  | name l => exact h
  | adj l =>
    obtain rfl : l = s.ownAdjLsa := h
    show (AdjLsa.make ..).origRouter = _
    rw [AdjLsa.make_eq]
  | coordinate l =>
    obtain rfl : l = s.ownCoordinateLsa := h
    rfl

theorem builds_ownNameLsa {s s' : Nlsr} (h : s'.routerPrefix = s.routerPrefix) :
    s.Builds (.name s'.ownNameLsa) := by
  show (NameLsa.make ..).origRouter = _
  rw [NameLsa.make_eq]
  exact h

/-- **An LSA that is installed arrives, or this router builds it.** -/
theorem builds_of_opOf {s : Nlsr} {e : Event} {l : AnyLsa} (hop : s.opOf e = .install l)
    (he : NotFrom l.origRouter e) : s.Builds l := by
  have haction : ∀ action, s.actionOp action = .install l → s.Builds l := by
    intro action hop
    have hspec := s.actionOp_spec action
    rw [hop] at hspec
    cases hspec with
    | installOwn => rfl
  cases e with
  | installNameLsa nlsa =>
    cases hop
    exact absurd rfl he
  | installAdjLsa alsa =>
    cases hop
    exact absurd rfl he
  | installCoordinateLsa clsa =>
    cases hop
    exact absurd rfl he
  | fire id =>
    simp only [opOf, fireOp] at hop
    cases h : s.pendingAction id with
    | none => simp [h] at hop
    | some action => rw [h] at hop; exact haction action hop
  | buildAndInstallOwnNameLsa =>
    cases hop
    exact builds_ownNameLsa rfl
  | buildAndInstallOwnCoordinateLsa =>
    cases hop
    rfl
  | advertise name =>
    simp only [opOf, advertiseOp] at hop
    split_ifs at hop
    cases hop
    exact builds_ownNameLsa rfl
  | withdraw name =>
    simp only [opOf, withdrawOp] at hop
    split_ifs at hop
    cases hop
    exact builds_ownNameLsa rfl
  | _ => simp [opOf] at hop

end Nlsr

end LinkState
