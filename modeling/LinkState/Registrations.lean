import LinkState.Library.Writes
import LinkState.Router

/-!
# The routes in the forwarder

The FIB sends a command for each hop it installs and for each hop it takes out. The forwarder
carries the commands out later, and answers them later still, in any order.

`routes_follow_fib`: as long as

* the face map has the id of every face whose hop is taken out,
* a registration that failed is tried again only while its hop is in the FIB, and
* no unregistration overtakes a registration of the same name and face,

every route left in the forwarder when nothing is outstanding is one of a next hop in the FIB.
The face map is filled by answers, so a hop that is taken out before the first answer leaves its
route behind (`not_routes_follow_fib`).
-/

namespace LinkState

/-! ## Commands as writes -/

namespace RibCommand

/-- What a command does to the routes. -/
def write : RibCommand → Write (Name × UInt64) Bool
  | .register name faceId .. => ⟨(name, faceId), true⟩
  | .unregister name faceId => ⟨(name, faceId.toUInt64), false⟩

end RibCommand

namespace Nlsr

/-- The hops of the FIB entry of a name. -/
def fibHops (s : Nlsr) (name : Name) : NexthopList :=
  match s.fib.table.find? name with
  | some entry => entry.nexthopList
  | none => KeyedList.empty

theorem nexthopList_fibEntry (s : Nlsr) (name : Name) :
    (s.fibEntry name).nexthopList = s.fibHops name := by
  unfold fibEntry fibHops
  cases s.fib.table.find? name <;> rfl

/-- Has the FIB entry of a name a hop on the face with this id? -/
def HasHop (s : Nlsr) (name : Name) (faceId : UInt64) : Prop :=
  ∃ nh ∈ (s.fibHops name).toList, s.adjacencyList.getFaceId nh.connectingFaceUri = faceId

instance (s : Nlsr) (name : Name) (faceId : UInt64) : Decidable (s.HasHop name faceId) :=
  inferInstanceAs (Decidable (∃ nh ∈ _, _))

/-- The face map has the id the face is registered with. -/
def Mapped (s : Nlsr) (faceUri : String) : Prop :=
  (s.fib.getFaceId faceUri).toUInt64 = s.adjacencyList.getFaceId faceUri

instance (s : Nlsr) (faceUri : String) : Decidable (s.Mapped faceUri) :=
  inferInstanceAs (Decidable (_ = _))

/-- `Fib::onRegistration`; the answer repeats the face id of the command. -/
def onRegistration (s : Nlsr) (faceUri : String) (faceId : UInt64) : Nlsr :=
  { s with fib := s.fib.updateFaceMap faceUri faceId.toUInt32 }

/-- `Fib::onRegistrationFailure`. -/
def onFibRegistrationFailure (s : Nlsr) (name : Name) (cost : Nat) (expirationPeriod : Duration)
    (faceUri : String) (times : UInt8) : Nlsr :=
  if times < 3 then s.registerPrefix name faceUri cost expirationPeriod (times + 1) else s

end Nlsr

/-! ## The router and the forwarder -/

/-- A router beside the forwarder. -/
structure WithNfd where
  nlsr : Nlsr
  /-- The commands carried out and not yet answered. -/
  answers : List RibCommand := []
  routes : Name × UInt64 → Bool := fun _ => false

inductive RibEvent
  | update (name : Name) (allHops : NexthopList)
  | remove (name : Name)
  /-- The pending expiration with this id fires. -/
  | expire (id : Nat)
  /-- The forwarder carries out the `i`-th command it has been sent. -/
  | process (i : Nat)
  /-- The answer to the `i`-th command carried out arrives. -/
  | answer (i : Nat) (success : Bool)

namespace WithNfd

/-- Run the handler of an answer. An unregistration is only logged. -/
def handleAnswer (s : Nlsr) (success : Bool) : RibCommand → Nlsr
  | .register name faceId cost expirationPeriod faceUri times =>
    if success then s.onRegistration faceUri faceId
    else s.onFibRegistrationFailure name cost expirationPeriod faceUri times
  | .unregister .. => s

/-- The name an expiration event removes. -/
def expiringName (s : Nlsr) (id : Nat) : Option Name :=
  match s.pendingAction id with
  | some (.removeFibEntry name) => some name
  | _ => none

def expire (s : WithNfd) (id : Nat) : WithNfd :=
  match expiringName s.nlsr id with
  | some name => { s with nlsr := (s.nlsr.cancelEvent (some id)).fibRemove name }
  | none => s

def process (s : WithNfd) (i : Nat) : WithNfd :=
  match s.nlsr.fib.commands[i]? with
  | some command =>
    { nlsr := { s.nlsr with fib := { s.nlsr.fib with commands := s.nlsr.fib.commands.eraseIdx i } }
      answers := s.answers ++ [command]
      routes := command.write.apply s.routes }
  | none => s

def answer (s : WithNfd) (i : Nat) (success : Bool) : WithNfd :=
  match s.answers[i]? with
  | some command =>
    { s with
      nlsr := handleAnswer s.nlsr success command
      answers := s.answers.eraseIdx i }
  | none => s

def step (s : WithNfd) : RibEvent → WithNfd
  | .update name allHops => { s with nlsr := s.nlsr.fibUpdate name allHops }
  | .remove name => { s with nlsr := s.nlsr.fibRemove name }
  | .expire id => s.expire id
  | .process i => s.process i
  | .answer i success => s.answer i success

/-- Once nothing is outstanding, every route is one of a hop in the FIB. -/
def RoutesFollow (s : WithNfd) : Prop :=
  s.nlsr.fib.commands = [] → s.answers = [] →
    ∀ name faceId, s.routes (name, faceId) = true → s.nlsr.HasHop name faceId

/-- The event leaves no route behind. -/
def Clean (s : WithNfd) : RibEvent → Prop
  | .update name allHops => ∀ nh ∈ s.nlsr.fibHops name,
      ¬ (s.nlsr.hopsToInstall allHops).contains nh.connectingFaceUri →
        s.nlsr.Mapped nh.connectingFaceUri
  | .remove name => ∀ nh ∈ s.nlsr.fibHops name, s.nlsr.Mapped nh.connectingFaceUri
  | .expire id => ∀ name, expiringName s.nlsr id = some name →
      ∀ nh ∈ s.nlsr.fibHops name, s.nlsr.Mapped nh.connectingFaceUri
  | .process i => InTurn true (s.nlsr.fib.commands.map RibCommand.write) i
  | .answer i success => ∀ name faceId cost expirationPeriod faceUri times,
      s.answers[i]? = some (.register name faceId cost expirationPeriod faceUri times) →
        success = false → times < 3 → s.nlsr.HasHop name faceId

end WithNfd

/-! ## What is sent -/

namespace Nlsr

def send (s : Nlsr) (commands : List RibCommand) : Nlsr :=
  { s with fib := { s.fib with commands := s.fib.commands ++ commands } }

theorem send_nil (s : Nlsr) : s.send [] = s := by
  simp [send]

theorem send_send (s : Nlsr) (cs cs' : List RibCommand) :
    (s.send cs).send cs' = s.send (cs ++ cs') := by
  simp [send]

/-- A loop that sends. -/
theorem foldl_send {α : Type*} {s : Nlsr} {f : Nlsr → α → Nlsr} {g : α → List RibCommand}
    (hf : ∀ cs a, f (s.send cs) a = (s.send cs).send (g a)) (l : List α) :
    l.foldl f s = s.send (l.flatMap g) := by
  have hgen : ∀ (l : List α) (cs : List RibCommand),
      l.foldl f (s.send cs) = s.send (cs ++ l.flatMap g) := by
    intro l
    induction l with
    | nil => simp
    | cons a l ih =>
      intro cs
      rw [List.foldl_cons, hf, send_send, ih, List.flatMap_cons, List.append_assoc]
  simpa [send_nil] using hgen l []

/-- The command for a hop that is installed. -/
def registration (s : Nlsr) (name : Name) (nh : NextHop) : List RibCommand :=
  let faceId := s.adjacencyList.getFaceId nh.connectingFaceUri
  if s.isPrefixUpdatable name ∧ faceId ≠ 0 then
    [.register name faceId nh.getRouteCostAsAdjustedInteger
      (seconds (s.fib.refreshTime + Fib.gracePeriod)) nh.connectingFaceUri 0]
  else []

/-- The command for a hop that is taken out. -/
def unregistration (s : Nlsr) (name : Name) (nh : NextHop) : List RibCommand :=
  let faceId := s.fib.getFaceId nh.connectingFaceUri
  if s.isPrefixUpdatable name ∧ faceId > 0 then [.unregister name faceId] else []

theorem registerPrefix_eq (s : Nlsr) (name : Name) (faceUri : String) (cost : Nat)
    (timeout : Duration) (times : UInt8) :
    s.registerPrefix name faceUri cost timeout times =
      if s.adjacencyList.getFaceId faceUri ≠ 0 then
        s.send [.register name (s.adjacencyList.getFaceId faceUri) cost timeout faceUri times]
      else s := rfl

theorem unregisterIfUpdatable_eq (s : Nlsr) (name : Name) (nh : NextHop) :
    s.unregisterIfUpdatable name nh.connectingFaceUri = s.send (s.unregistration name nh) := by
  unfold unregisterIfUpdatable unregisterPrefix unregistration
  by_cases hname : s.isPrefixUpdatable name
  · by_cases hface : s.fib.getFaceId nh.connectingFaceUri > 0
    · simp [hname, hface, send, sendCommand]
    · simp [hname, hface, send_nil]
  · simp [hname, send_nil]

theorem foldl_unregisterIfUpdatable (s : Nlsr) (name : Name) (hops : List NextHop) :
    hops.foldl (fun s nh => s.unregisterIfUpdatable name nh.connectingFaceUri) s =
      s.send (hops.flatMap (s.unregistration name)) :=
  foldl_send (fun cs nh => unregisterIfUpdatable_eq (s.send cs) name nh) hops

theorem addNextHops_fst (s : Nlsr) (entry : FibEntry) (hops : NexthopList) :
    (s.addNextHopsToFibEntryAndNfd entry hops).1 =
      s.send (hops.toList.flatMap (s.registration entry.name)) := by
  refine foldl_send (fun cs nh => ?_) _
  rw [registerPrefix_eq]
  unfold registration
  by_cases hname : s.isPrefixUpdatable entry.name
  · have hname' : (s.send cs).isPrefixUpdatable entry.name = true := hname
    by_cases hface : s.adjacencyList.getFaceId nh.connectingFaceUri = 0
    · have hface' : (s.send cs).adjacencyList.getFaceId nh.connectingFaceUri = 0 := hface
      simp [hface, hface', send_nil]
    · have hface' : ¬ (s.send cs).adjacencyList.getFaceId nh.connectingFaceUri = 0 := hface
      simp only [hname, hname', hface, hface', ne_eq, not_false_eq_true, and_self, if_true]
      rfl
  · have hname' : ¬ (s.send cs).isPrefixUpdatable entry.name = true := hname
    simp [hname, hname', send_nil]

theorem removeOldNextHops_fst (s : Nlsr) (entry : FibEntry) (installed : NexthopList) :
    (s.removeOldNextHopsFromFibEntryAndNfd entry installed).1 =
      s.send ((entry.nexthopList.toList.filter fun nh =>
        !installed.contains nh.connectingFaceUri).flatMap (s.unregistration entry.name)) := by
  have hgen : ∀ (hops : List NextHop) (s : Nlsr) (entry : FibEntry),
      (hops.foldl (fun (p : Nlsr × FibEntry) nh =>
        if installed.contains nh.connectingFaceUri then (p.1, p.2)
        else (p.1.unregisterIfUpdatable p.2.name nh.connectingFaceUri,
          { p.2 with nexthopList := p.2.nexthopList.removeNextHop nh })) (s, entry)).1 =
      s.send ((hops.filter fun nh => !installed.contains nh.connectingFaceUri).flatMap
        (s.unregistration entry.name)) := by
    intro hops
    induction hops with
    | nil => exact fun s entry => (send_nil s).symm
    | cons nh hops ih =>
      intro s entry
      rw [List.foldl_cons]
      by_cases hc : installed.contains nh.connectingFaceUri
      · rw [if_pos hc, ih, List.filter_cons_of_neg (by simpa using hc)]
      · rw [if_neg hc, ih, List.filter_cons_of_pos (by simpa using hc), List.flatMap_cons,
          unregisterIfUpdatable_eq, send_send]
        rfl
  exact hgen _ s entry

/-- What a change of the entry of one name sends: a registration for hops of the new entry only,
and for each face that is taken out what the face map knows of it. -/
structure FibChange (s t : Nlsr) (name : Name) (news : List RibCommand) : Prop where
  adjacencyList : t.adjacencyList = s.adjacencyList
  commands : t.fib.commands = s.fib.commands ++ news
  others : ∀ n, n ≠ name → t.fibHops n = s.fibHops n
  names : ∀ c ∈ news, c.write.key.1 = name
  registers : ∀ c ∈ news, c.write.value = true →
    ∃ nh, c ∈ s.registration name nh ∧ (t.fibHops name).contains nh.connectingFaceUri
  unregisters : ∀ nh ∈ s.fibHops name, ¬ (t.fibHops name).contains nh.connectingFaceUri →
    ∀ c ∈ s.unregistration name nh, c ∈ news

theorem fibHops_congr {s t : Nlsr} {n : Name}
    (h : t.fib.table.find? n = s.fib.table.find? n) : t.fibHops n = s.fibHops n := by
  unfold fibHops
  rw [h]

theorem mem_registration {s : Nlsr} {name : Name} {nh : NextHop} {c : RibCommand} :
    c ∈ s.registration name nh ↔
      s.isPrefixUpdatable name = true ∧ s.adjacencyList.getFaceId nh.connectingFaceUri ≠ 0 ∧
        c = .register name (s.adjacencyList.getFaceId nh.connectingFaceUri)
          nh.getRouteCostAsAdjustedInteger (seconds (s.fib.refreshTime + Fib.gracePeriod))
          nh.connectingFaceUri 0 := by
  simp only [registration]
  split_ifs with h
  · simp [h.1, h.2]
  · simpa using fun h₁ h₂ => absurd ⟨h₁, h₂⟩ h

theorem mem_unregistration {s : Nlsr} {name : Name} {nh : NextHop} {c : RibCommand} :
    c ∈ s.unregistration name nh ↔
      s.isPrefixUpdatable name = true ∧ s.fib.getFaceId nh.connectingFaceUri > 0 ∧
        c = .unregister name (s.fib.getFaceId nh.connectingFaceUri) := by
  simp only [unregistration]
  split_ifs with h
  · simp [h.1, h.2]
  · simpa using fun h₁ h₂ => absurd ⟨h₁, h₂⟩ h

theorem fibChange_fibRemove (s : Nlsr) (name : Name) :
    FibChange s (s.fibRemove name) name
      ((s.fibHops name).toList.flatMap (s.unregistration name)) where
  adjacencyList := by
    have h := onlyFib_fibRemove s name
    rw [OnlyFib] at h
    rw [h]
  commands := by
    unfold fibRemove fibHops
    cases h : s.fib.table.find? name with
    | none => simp [KeyedList.empty]
    | some entry =>
      obtain rfl := KeyedList.key_of_find? h
      dsimp only
      rw [foldl_unregisterIfUpdatable]
      rfl
  others n hn := fibHops_congr ((find?_fibRemove s name n).trans (if_neg hn))
  names c hc := by
    obtain ⟨nh, -, hc⟩ := List.mem_flatMap.1 hc
    obtain ⟨-, -, rfl⟩ := mem_unregistration.1 hc
    rfl
  registers c hc hvalue := by
    obtain ⟨nh, -, hc⟩ := List.mem_flatMap.1 hc
    obtain ⟨-, -, rfl⟩ := mem_unregistration.1 hc
    exact absurd hvalue Bool.false_ne_true
  unregisters nh hnh _ c hc := List.mem_flatMap.2 ⟨nh, hnh, hc⟩

/-- An update leaves a hop for each face it was asked to install. -/
theorem contains_fibHops_fibUpdate (s : Nlsr) (name : Name) (allHops : NexthopList) (f : String) :
    ((s.fibUpdate name allHops).fibHops name).contains f ↔
      (s.hopsToInstall allHops).contains f := by
  obtain ⟨-, -, h⟩ := fibUpdate_spec s name allHops
  unfold Installed at h
  unfold fibHops
  cases hfind : (s.fibUpdate name allHops).fib.table.find? name with
  | none =>
    rw [hfind] at h
    have hnil : (s.hopsToInstall allHops).toList = [] := List.length_eq_zero_iff.1 h
    simp [NexthopList.contains_iff_exists_mem, KeyedList.mem_def, hnil, KeyedList.empty]
  | some entry =>
    rw [hfind] at h
    exact h.2 f

/-- The commands of an update: one for each hop to install, and one for each face of the old entry
that is not among them. -/
theorem commands_fibUpdate (s : Nlsr) (name : Name) (allHops : NexthopList)
    (hsize : (s.hopsToInstall allHops).size ≠ 0) :
    (s.fibUpdate name allHops).fib.commands = s.fib.commands ++
      ((s.hopsToInstall allHops).toList.flatMap (s.registration name) ++
        ((s.addNextHopsToFibEntryAndNfd (s.fibEntry name)
          (s.hopsToInstall allHops)).2.nexthopList.toList.filter fun nh =>
            !(s.hopsToInstall allHops).contains nh.connectingFaceUri).flatMap
          (s.unregistration name)) := by
  obtain ⟨seqNo, table, heq, -⟩ := exists_fibUpdate hsize name
  rw [heq]
  show (s.replaceHops (s.fibEntry name) (s.hopsToInstall allHops)).1.fib.commands = _
  have hname := name_fibEntry s name
  generalize s.fibEntry name = entry at hname ⊢
  obtain rfl := hname
  rw [replaceHops, removeOldNextHops_fst, addNextHops_fst, send_send]
  rfl

theorem exists_fibChange_fibUpdate (s : Nlsr) (name : Name) (allHops : NexthopList) :
    ∃ news, FibChange s (s.fibUpdate name allHops) name news := by
  obtain ⟨honly, hothers, -⟩ := fibUpdate_spec s name allHops
  have hadj : (s.fibUpdate name allHops).adjacencyList = s.adjacencyList := by
    rw [OnlyFib] at honly
    rw [honly]
  have hcontains := contains_fibHops_fibUpdate s name allHops
  by_cases hsize : (s.hopsToInstall allHops).size = 0
  · rw [fibUpdate_of_size_eq_zero hsize]
    exact ⟨_, fibChange_fibRemove s name⟩
  · have hcommands := commands_fibUpdate s name allHops hsize
    refine ⟨_, hadj, hcommands, fun n hn => fibHops_congr (hothers n hn), ?_, ?_, ?_⟩
    · intro c hc
      rcases List.mem_append.1 hc with hc | hc
      · obtain ⟨nh, -, hc⟩ := List.mem_flatMap.1 hc
        obtain ⟨-, -, rfl⟩ := mem_registration.1 hc
        rfl
      · obtain ⟨nh, -, hc⟩ := List.mem_flatMap.1 hc
        obtain ⟨-, -, rfl⟩ := mem_unregistration.1 hc
        rfl
    · intro c hc hvalue
      rcases List.mem_append.1 hc with hc | hc
      · obtain ⟨nh, hnh, hc⟩ := List.mem_flatMap.1 hc
        exact ⟨nh, hc, (hcontains _).2 (NexthopList.contains_iff_exists_mem.2 ⟨nh, hnh, rfl⟩)⟩
      · obtain ⟨nh, -, hc⟩ := List.mem_flatMap.1 hc
        obtain ⟨-, -, rfl⟩ := mem_unregistration.1 hc
        exact absurd hvalue Bool.false_ne_true
    · intro nh hnh hout c hc
      rw [hcontains] at hout
      have hold : (s.fibEntry name).nexthopList.contains nh.connectingFaceUri := by
        rw [nexthopList_fibEntry]
        exact NexthopList.contains_iff_exists_mem.2 ⟨nh, hnh, rfl⟩
      -- The face is still in the entry when the new hops have been added
      obtain ⟨nh', hnh', hface⟩ := NexthopList.contains_iff_exists_mem.1
        ((contains_addNextHops s _ (s.hopsToInstall allHops) _).2 (Or.inr hold))
      refine List.mem_append_right _ (List.mem_flatMap.2 ⟨nh', List.mem_filter.2 ⟨hnh', ?_⟩, ?_⟩)
      · simpa [hface] using hout
      · unfold unregistration at hc ⊢
        rw [hface]
        exact hc

/-- What is true of every command sent. -/
def Issued (s : Nlsr) : RibCommand → Prop
  | .register name faceId _ _ faceUri _ =>
    faceId = s.adjacencyList.getFaceId faceUri ∧ faceId ≠ 0 ∧ s.isPrefixUpdatable name = true
  | .unregister .. => True

theorem Issued.congr {s t : Nlsr} (h : t.adjacencyList = s.adjacencyList) {c : RibCommand}
    (hc : s.Issued c) : t.Issued c := by
  unfold Issued isPrefixUpdatable at *
  rwa [h]

namespace FibChange

variable {s t : Nlsr} {name : Name} {news : List RibCommand}

theorem issued (h : FibChange s t name news) {c : RibCommand} (hc : c ∈ news) : t.Issued c := by
  cases c with
  | unregister => trivial
  | register n faceId cost period faceUri times =>
    obtain ⟨nh, hreg, -⟩ := h.registers _ hc rfl
    obtain ⟨hname, hface, heq⟩ := mem_registration.1 hreg
    cases heq
    exact Issued.congr h.adjacencyList ⟨rfl, hface, hname⟩

theorem hasHop_of_contains (h : FibChange s t name news) {n : Name} {f : String}
    (hf : (t.fibHops n).contains f) : t.HasHop n (s.adjacencyList.getFaceId f) := by
  obtain ⟨nh, hnh, rfl⟩ := NexthopList.contains_iff_exists_mem.1 hf
  refine ⟨nh, hnh, ?_⟩
  rw [h.adjacencyList]

/-- A route that is registered by the change has a hop after it. -/
theorem hasHop_of_registered (h : FibChange s t name news) {c : RibCommand} (hc : c ∈ news)
    {n : Name} {faceId : UInt64} (hkey : c.write.key = (n, faceId)) (hvalue : c.write.value = true) :
    faceId ≠ 0 ∧ s.isPrefixUpdatable n = true ∧ t.HasHop n faceId := by
  obtain rfl : name = n := (h.names c hc).symm.trans (congrArg Prod.fst hkey)
  obtain ⟨nh, hnews, hcontains⟩ := h.registers c hc hvalue
  obtain ⟨hname, hface, rfl⟩ := mem_registration.1 hnews
  obtain rfl : s.adjacencyList.getFaceId nh.connectingFaceUri = faceId := congrArg Prod.snd hkey
  exact ⟨hface, hname, h.hasHop_of_contains hcontains⟩

/-- A hop that is taken out has its route unregistered, if the face map has its id. -/
theorem hasHop_of_not_unregistered (h : FibChange s t name news)
    (hmapped : ∀ nh ∈ s.fibHops name,
      ¬ (t.fibHops name).contains nh.connectingFaceUri → s.Mapped nh.connectingFaceUri)
    {n : Name} {faceId : UInt64} (hface : faceId ≠ 0) (hname : s.isPrefixUpdatable n = true)
    (hkept : ∀ c ∈ news, c.write.key ≠ (n, faceId)) (hhop : s.HasHop n faceId) :
    t.HasHop n faceId := by
  obtain ⟨nh, hnh, rfl⟩ := hhop
  refine h.hasHop_of_contains ?_
  by_contra hout
  by_cases hn : n = name
  · obtain rfl := hn
    have hmap : (s.fib.getFaceId nh.connectingFaceUri).toUInt64 =
        s.adjacencyList.getFaceId nh.connectingFaceUri := hmapped nh hnh hout
    have hpos : s.fib.getFaceId nh.connectingFaceUri > 0 := by
      refine UInt32.pos_iff_ne_zero.2 fun h0 => hface ?_
      rw [← hmap, h0]
      rfl
    have hnews := h.unregisters nh hnh hout _ (mem_unregistration.2 ⟨hname, hpos, rfl⟩)
    exact hkept _ hnews (congrArg (Prod.mk n) hmap)
  · rw [h.others n hn] at hout
    exact hout (NexthopList.contains_iff_exists_mem.2 ⟨nh, hnh, rfl⟩)

end FibChange

end Nlsr

/-! ## The routes once everything is carried out -/

namespace WithNfd

open Nlsr

/-- The routes when all commands sent have been carried out. -/
def settled (s : WithNfd) : Name × UInt64 → Bool :=
  settle s.routes (s.nlsr.fib.commands.map RibCommand.write)

/-- The invariant: the commands under way leave no route without a hop. -/
structure Settles (s : WithNfd) : Prop where
  hasHop : ∀ name faceId, s.settled (name, faceId) = true →
    faceId ≠ 0 ∧ s.nlsr.isPrefixUpdatable name = true ∧ s.nlsr.HasHop name faceId
  issued : ∀ c, c ∈ s.nlsr.fib.commands ∨ c ∈ s.answers → s.nlsr.Issued c

theorem Settles.routesFollow {s : WithNfd} (h : s.Settles) : s.RoutesFollow := by
  intro hcommands _ name faceId hroute
  refine (h.hasHop name faceId ?_).2.2
  rw [settled, hcommands]
  exact hroute

/-- A change of the FIB that unregisters every face it takes out. -/
theorem Settles.fibChange {s : WithNfd} (hs : s.Settles) {t : Nlsr} {name : Name}
    {news : List RibCommand} (h : FibChange s.nlsr t name news)
    (hmapped : ∀ nh ∈ s.nlsr.fibHops name,
      ¬ (t.fibHops name).contains nh.connectingFaceUri → s.nlsr.Mapped nh.connectingFaceUri) :
    Settles { s with nlsr := t } where
  hasHop n faceId hsettled := by
    have hupd : t.isPrefixUpdatable n = s.nlsr.isPrefixUpdatable n := by
      unfold isPrefixUpdatable
      rw [h.adjacencyList]
    rw [hupd]
    rw [settled, h.commands, List.map_append, settle_append] at hsettled
    by_cases hreg : ∃ c ∈ news, c.write.key = (n, faceId) ∧ c.write.value = true
    · obtain ⟨c, hc, hkey, hvalue⟩ := hreg
      exact h.hasHop_of_registered hc hkey hvalue
    · -- The route was there before, and no command of the change is about it
      have hne : ∀ w ∈ news.map RibCommand.write, w.key = (n, faceId) → w.value ≠ true := by
        intro w hw hkey hvalue
        obtain ⟨c, hc, rfl⟩ := List.mem_map.1 hw
        exact hreg ⟨c, hc, hkey, hvalue⟩
      obtain ⟨hold, hkept⟩ := settle_eq hne hsettled
      obtain ⟨hface, hname, hhop⟩ := hs.hasHop n faceId hold
      exact ⟨hface, hname, h.hasHop_of_not_unregistered hmapped hface hname
        (fun c hc => hkept _ (List.mem_map_of_mem hc)) hhop⟩
  issued c hc := by
    rw [h.commands, List.mem_append, or_assoc, or_comm (a := c ∈ news), ← or_assoc] at hc
    rcases hc with hc | hc
    · exact Issued.congr h.adjacencyList (hs.issued c hc)
    · exact h.issued hc

/-- An unregistration that overtakes no registration of its route is carried out. -/
theorem Settles.process {s : WithNfd} (hs : s.Settles) {i : Nat}
    (hturn : InTurn true (s.nlsr.fib.commands.map RibCommand.write) i) : (s.process i).Settles := by
  unfold WithNfd.process
  cases h : s.nlsr.fib.commands[i]? with
  | none => exact hs
  | some command =>
    have hwrite : (s.nlsr.fib.commands.map RibCommand.write)[i]? = some command.write := by
      rw [List.getElem?_map, h]
      rfl
    refine ⟨fun name faceId hsettled => hs.hasHop name faceId ?_, fun c hc => hs.issued c ?_⟩
    · refine settle_eraseIdx hwrite hturn ?_
      rw [List.eraseIdx_map]
      exact hsettled
    · rcases hc with hc | hc
      · exact Or.inl (List.mem_of_mem_eraseIdx hc)
      · rcases List.mem_append.1 hc with hc | hc
        · exact Or.inr hc
        · rw [List.mem_singleton.1 hc]
          exact Or.inl (List.mem_of_getElem? h)

/-- A successful answer is only noted in the face map. -/
theorem Settles.onRegistration {s : WithNfd} (hs : s.Settles) (faceUri : String)
    (faceId : UInt64) : Settles { s with nlsr := s.nlsr.onRegistration faceUri faceId } := by
  unfold Nlsr.onRegistration Fib.updateFaceMap
  split_ifs <;> exact ⟨hs.hasHop, hs.issued⟩

/-- A registration that failed is tried again for a hop that is still there. -/
theorem Settles.retry {s : WithNfd} (hs : s.Settles) {name : Name} {faceId : UInt64} {cost : Nat}
    {expirationPeriod : Duration} {faceUri : String} {times : UInt8}
    (hissued : s.nlsr.Issued (.register name faceId cost expirationPeriod faceUri times))
    (hhop : times < 3 → s.nlsr.HasHop name faceId) :
    Settles { s with
      nlsr := s.nlsr.onFibRegistrationFailure name cost expirationPeriod faceUri times } := by
  unfold onFibRegistrationFailure
  split_ifs with htimes
  · obtain ⟨rfl, hface, hname⟩ := hissued
    rw [registerPrefix_eq, if_pos hface]
    refine ⟨fun n faceId hsettled => ?_, fun c hc => ?_⟩
    · rw [settled, send, List.map_append, settle_append] at hsettled
      by_cases hkey : (name, s.nlsr.adjacencyList.getFaceId faceUri) = (n, faceId)
      · cases hkey
        exact ⟨hface, hname, hhop htimes⟩
      · refine hs.hasHop n faceId (settle_eq (fun w hw hkey' => ?_) hsettled).1
        rw [List.map_singleton, List.mem_singleton] at hw
        subst hw
        exact absurd hkey' hkey
    · rcases hc with hc | hc
      · rcases List.mem_append.1 hc with hc | hc
        · exact hs.issued c (Or.inl hc)
        · rw [List.mem_singleton.1 hc]
          exact ⟨rfl, hface, hname⟩
      · exact hs.issued c (Or.inr hc)
  · exact hs

theorem Settles.answer {s : WithNfd} (hs : s.Settles) {i : Nat} {success : Bool}
    (hclean : s.Clean (.answer i success)) : (s.answer i success).Settles := by
  unfold WithNfd.answer
  cases h : s.answers[i]? with
  | none => exact hs
  | some command =>
    have hrest : Settles { s with answers := s.answers.eraseIdx i } :=
      ⟨hs.hasHop, fun c hc => hs.issued c (hc.imp_right List.mem_of_mem_eraseIdx)⟩
    cases command with
    | unregister => exact hrest
    | register name faceId cost expirationPeriod faceUri times =>
      cases success with
      | true => exact hrest.onRegistration faceUri faceId
      | false =>
        exact hrest.retry (hs.issued _ (Or.inr (List.mem_of_getElem? h)))
          (hclean name faceId cost expirationPeriod faceUri times h rfl)

/-- Every clean event keeps the invariant. -/
theorem settles_step {s : WithNfd} (e : RibEvent) (hs : s.Settles) (hclean : s.Clean e) :
    (s.step e).Settles := by
  cases e with
  | update name allHops =>
    obtain ⟨news, hchange⟩ := exists_fibChange_fibUpdate s.nlsr name allHops
    refine hs.fibChange hchange fun nh hnh hout => hclean nh hnh ?_
    rwa [contains_fibHops_fibUpdate] at hout
  | remove name =>
    exact hs.fibChange (fibChange_fibRemove s.nlsr name) fun nh hnh _ => hclean nh hnh
  | expire id =>
    show (s.expire id).Settles
    unfold expire
    cases h : expiringName s.nlsr id with
    | none => exact hs
    | some name =>
      have hcancel : Settles { s with nlsr := s.nlsr.cancelEvent (some id) } :=
        ⟨hs.hasHop, hs.issued⟩
      exact hcancel.fibChange (fibChange_fibRemove _ name) fun nh hnh _ => hclean name h nh hnh
  | process i => exact hs.process hclean
  | answer i success => exact hs.answer hclean

/-- **The routes follow the FIB** in every run of clean events. -/
theorem routes_follow_fib (nlsr : Nlsr) (hcommands : nlsr.fib.commands = []) (es : List RibEvent)
    (hclean : Meets step Clean { nlsr } es) : Along step RoutesFollow { nlsr } es := by
  have hstart : Settles { nlsr } := by
    refine ⟨fun name faceId hsettled => ?_, fun c hc => ?_⟩
    · rw [settled, hcommands] at hsettled
      exact absurd hsettled Bool.false_ne_true
    · simp [hcommands] at hc
  exact (along_of_meets (fun s e hs he => settles_step e hs he) hstart hclean).imp
    fun s hs => hs.routesFollow

/-- A router with one neighbour, whose face has the id 5. -/
def oneFace : Nlsr :=
  { confParam := {}
    adjacencyList := KeyedList.empty.insert
      { name := [⟨"n"⟩], connectingFaceUri := "un", status := .active, faceId := 5 } }

def hopOverN : NexthopList := KeyedList.empty.insert { connectingFaceUri := "un", routeCost := 10 }

/-- The name is withdrawn after the answer: the face map has the id of the face. -/
def withdrawnLate : List RibEvent :=
  [.update [⟨"p"⟩] hopOverN, .process 0, .answer 0 true, .remove [⟨"p"⟩], .process 0,
    .answer 0 true]

theorem routes_follow_fib_withdrawnLate :
    Along step RoutesFollow { nlsr := oneFace } withdrawnLate := by
  refine routes_follow_fib oneFace rfl withdrawnLate ⟨?_, ?_, ?_, ?_, ?_, ?_, trivial⟩
  · have hempty : ∀ nh ∈ (oneFace.fibHops [⟨"p"⟩]).toList, False := by decide
    exact fun nh hnh => (hempty nh hnh).elim
  · exact fun _ _ _ hw' => absurd hw' List.not_mem_nil
  · exact fun _ _ _ _ _ _ _ h => absurd h (by decide)
  · have hmapped : ∀ nh ∈ ((run step { nlsr := oneFace } (withdrawnLate.take 3)).nlsr.fibHops
        [⟨"p"⟩]).toList, (run step { nlsr := oneFace } (withdrawnLate.take 3)).nlsr.Mapped
          nh.connectingFaceUri := by decide
    exact hmapped
  · exact fun _ _ _ hw' => absurd hw' List.not_mem_nil
  · exact fun _ _ _ _ _ _ _ h => absurd h (by decide)

/-! ## A hop that is taken out before the first answer -/

/-- The name is withdrawn before the forwarder has answered: the face map is empty. -/
def withdrawnEarly : List RibEvent :=
  [.update [⟨"p"⟩] hopOverN, .remove [⟨"p"⟩], .process 0, .answer 0 true]

/-- The event is about a name that is no configured neighbour. -/
def OnOtherNames (s : WithNfd) : RibEvent → Prop
  | .update name _ => s.nlsr.isPrefixUpdatable name = true
  | .remove name => s.nlsr.isPrefixUpdatable name = true
  | .expire id => ∀ name, expiringName s.nlsr id = some name →
      s.nlsr.isPrefixUpdatable name = true
  | _ => True

/-- **A hop that is taken out before the first answer leaves its route behind.** -/
theorem not_routes_follow_fib :
    ¬ ∀ (nlsr : Nlsr) (es : List RibEvent), nlsr.fib = {} →
      (∀ a ∈ nlsr.adjacencyList, a.faceId ≠ 0) → Meets step OnOtherNames { nlsr } es →
        Along step RoutesFollow { nlsr } es := by
  intro h
  have hfaces : ∀ a ∈ oneFace.adjacencyList.toList, a.faceId ≠ 0 := by decide
  have hnames : Meets step OnOtherNames { nlsr := oneFace } withdrawnEarly :=
    ⟨rfl, rfl, trivial, trivial, trivial⟩
  have hlast := (h oneFace withdrawnEarly rfl hfaces hnames).last
  have hroute : ¬ (run step { nlsr := oneFace } withdrawnEarly).nlsr.HasHop [⟨"p"⟩] 5 := by
    decide
  exact hroute (hlast (by decide) (by decide) _ _ (by decide))

end WithNfd

end LinkState
