import LinkState.Announced
import LinkState.PlainText
import LinkState.Sync.Agreement
import LinkState.SyncLogicHandler

/-!
# A routing domain

Any number of routers with all that passes between them. A router announces its combined number
through its sync socket; the sync protocol spreads it; the handler of another router asks for the
LSAs that are new to it; their origin answers, and the content is installed.

What is sent may arrive at anybody, any number of times, in any order, or never. LSA Interests may
come from outside too, but an LSA arrives only as Data that a router of the domain has served.

`network_after`: the sync logics in a domain are a network of parties after a run of its own, so
what holds of every network holds of them.
-/

namespace LinkState

open Sync

variable {ι : Type*} {H : HashFunction}

/-- What is given of a router when it starts. -/
structure Setup where
  confParam : ConfParameter
  adjacencyList : AdjacencyList := KeyedList.empty
  namePrefixList : NamePrefixList := KeyedList.empty
  seqFile : Option UInt64 := none
  now : TimePoint := 0
  lsaInterestLifetime : LsaInterestLifetime := ⟨4, by decide⟩

/-- The routers of a network, each with a name of its own that no other name extends. -/
structure WellConfigured (lib : TextLib) (setup : ι → Setup) : Prop where
  network : ∀ i j, (setup i).confParam.network = (setup j).confParam.network
  noNLSR : ∀ i, (⟨"NLSR"⟩ : Component) ∉ (setup i).confParam.network
  noLSA : ∀ i, (⟨"LSA"⟩ : Component) ∉ (setup i).confParam.network
  apart : ∀ i j, (setup i).confParam.routerPrefix <+: (setup j).confParam.routerPrefix → i = j
  /-- Nobody publishes under the prefix with which the sync logic counts removals. -/
  notForwarder : ∀ i, uriOf lib (setup i).confParam.updatePrefix ≠ forwarderPrefix
  urisAreFields : ∀ i, (setup i).adjacencyList.UrisAreFields

theorem WellConfigured.routerPrefix_injective {lib : TextLib} {setup : ι → Setup}
    (h : WellConfigured lib setup) :
    Function.Injective fun i => (setup i).confParam.routerPrefix := by
  intro i j hij
  apply h.apart i j
  rw [show (setup i).confParam.routerPrefix = _ from hij]

theorem WellConfigured.updatePrefix_apart {lib : TextLib} {setup : ι → Setup}
    (h : WellConfigured lib setup) {i j : ι}
    (hpre : (setup i).confParam.updatePrefix <+: (setup j).confParam.updatePrefix) : i = j := by
  rw [updatePrefix_eq, updatePrefix_eq, h.network i j, List.prefix_append_right_inj,
    List.cons_prefix_cons, List.cons_prefix_cons] at hpre
  apply h.apart i j
  unfold ConfParameter.routerPrefix
  rw [h.network i j, List.append_assoc, List.append_assoc, List.prefix_append_right_inj]
  exact hpre.2.2

theorem WellConfigured.updatePrefix_injective {lib : TextLib} {setup : ι → Setup}
    (h : WellConfigured lib setup) :
    Function.Injective fun i => (setup i).confParam.updatePrefix := by
  intro i j hij
  apply h.updatePrefix_apart
  rw [show (setup i).confParam.updatePrefix = _ from hij]

/-- Three routers of a network. -/
inductive Three
  | a | b | c
  deriving DecidableEq

instance : Fintype Three := ⟨{.a, .b, .c}, fun i => by cases i <;> simp⟩

def Three.routerName : Three → String
  | .a => "a"
  | .b => "b"
  | .c => "c"

def threeRouters (i : Three) : Setup :=
  { confParam := { network := [⟨"net"⟩], routerName := [⟨i.routerName⟩] } }

theorem wellConfigured_threeRouters : WellConfigured plainText threeRouters where
  network i j := rfl
  noNLSR i := by simp [threeRouters]
  noLSA i := by simp [threeRouters]
  apart := by decide
  notForwarder := by decide
  urisAreFields i := by
    intro a ha
    cases ha

/-! ## A node -/

/-- A router with its sync socket and its fetcher. -/
structure Node (H : HashFunction) where
  server : Server
  socket : SyncSocket H
  fetcher : LsaFetcher
  /-- Has an exception left the event loop? The daemon ends then; here it goes on. -/
  threw : Bool

/-- What happens to a node. -/
inductive NodeEvent
  | turn (e : Event)
  | lsaInterest (interestName : Name)
  | lsaData (dataName : Name) (dataContent : Text)
  | fetch (e : FetchEvent)
  /-- The event loop runs what the sync socket has posted. -/
  | posted
  | sync (e : SyncLogic.Event)

namespace Node

def first (H : HashFunction) (setup : Setup) : Node H where
  server := Server.first setup.confParam setup.adjacencyList setup.namePrefixList setup.seqFile
    setup.now
  socket := SyncSocket.init H
  fetcher := LsaFetcher.start setup.now setup.lsaInterestLifetime
  threw := false

def router (n : Node H) : Nlsr := n.server.router

/-- The prefix that `createSyncSocket` builds. -/
def updatePrefix (n : Node H) : Name := n.router.confParam.updatePrefix

variable (math : MathLib) (lib : TextLib) (pb : Protobuf)

/-- Hand a number to the sync socket. -/
def publish (n : Node H) (seqNo : UInt64) : Node H :=
  match SyncLogicHandler.publishSyncUpdate lib n.socket n.updatePrefix seqNo with
  | some socket => { n with socket := socket }
  | none => { n with threw := true }

/-- The router is another, and what it has announced on the way is published. -/
def goTo (n : Node H) (router : Nlsr) : Node H :=
  (router.published.drop n.router.published.length).foldl (publish lib)
    { n with server := { n.server with router := router } }

/-- The filter that `setLsaInterestFilter` sets lets Interests under the update prefix in. -/
def onLsaInterest (n : Node H) (interestName : Name) : Node H :=
  if n.updatePrefix <+: interestName then
    { n with server := n.server.step math lib (.interest interestName) }
  else n

/-- What the callbacks make of one output of the sync logic. -/
def hearOne (n : Node H) : Output → Node H
  | .onUpdate v =>
    match SyncLogicHandler.onNsyncUpdate lib n.router n.fetcher v with
    | some fetcher => { n with fetcher := fetcher }
    | none => { n with threw := true }
  | _ => n

/-- The callbacks run. -/
def hear (n : Node H) (out : List Output) : Node H := out.foldl (hearOne lib) n

/-- The socket has made a step. -/
def setSocket (n : Node H) (r : SyncSocket H × List Output) : Node H × List Output :=
  (hear lib { n with socket := r.1 } r.2, r.2)

def turn (n : Node H) : NodeEvent → Node H × List Output
  | .turn e => (n.goTo lib (n.router.step math e), [])
  | .lsaInterest interestName => (n.onLsaInterest math lib interestName, [])
  | .lsaData dataName dataContent =>
    (n.goTo lib (n.router.onContentValidated lib dataName dataContent), [])
  | .fetch e => ({ n with fetcher := n.fetcher.step e }, [])
  | .posted => n.setSocket lib (n.socket.runPosted lib pb)
  | .sync e => n.setSocket lib (n.socket.logicTurn pb e)

def step (n : Node H) (e : NodeEvent) : Node H := (n.turn math lib pb e).1

end Node

/-! ## A domain -/

/-- The nodes, and all that their sync logics ever sent. -/
structure Domain (ι : Type*) (H : HashFunction) where
  node : ι → Node H
  interests : List SyncName
  data : List (SyncName × Bytes)

inductive DomainEvent (ι : Type*)
  | turn (i : ι) (e : Event)
  | lsaInterest (i : ι) (interestName : Name)
  /-- The Data that `k` has served as number `n` arrives with a version behind its name, if it
  satisfies an Interest of `i`; what is behind its content in memory is read too. -/
  | lsaData (i k : ι) (n : Nat) (version : Component) (rest : Text)
  | fetch (i : ι) (e : FetchEvent)
  | posted (i : ι)
  | due (i : ι) (id : Nat) (now : Int)
  | expireInterests (i : ι) (now : Int)
  /-- The sync Interest that was sent as number `k` arrives. -/
  | syncInterest (i : ι) (k : Nat) (now : Int)
  /-- The sync Data that was sent as number `k` arrives. -/
  | syncData (i : ι) (k : Nat)

/-- LSAs arrive as Data only. -/
def Event.isLocal : Event → Bool
  | .installNameLsa _ | .installAdjLsa _ | .installCoordinateLsa _ => false
  | _ => true

/-- Only the handler begins a fetch. -/
def FetchEvent.isLater : FetchEvent → Bool
  | .syncUpdate _ _ => false
  | _ => true

namespace Domain

def first (H : HashFunction) (setup : ι → Setup) : Domain ι H :=
  ⟨fun i => Node.first H (setup i), [], []⟩

/-- Who is concerned by an event, and what it is to him; `none` where nothing happens. -/
def locate (d : Domain ι H) : DomainEvent ι → Option (ι × NodeEvent)
  | .turn i e => if e.isLocal then some (i, .turn e) else none
  | .lsaInterest i interestName => some (i, .lsaInterest interestName)
  | .lsaData i k n version rest =>
    match (d.node k).server.served[n]? with
    | none => none
    | some s =>
      let dataName := s.interestName ++ [version]
      if ∃ x ∈ (d.node i).fetcher.sent, x.name <+: dataName then
        some (i, .lsaData dataName (s.content ++ rest))
      else none
  | .fetch i e => if e.isLater then some (i, .fetch e) else none
  | .posted i => some (i, .posted)
  | .due i id now => some (i, .sync (.due id now))
  | .expireInterests i now => some (i, .sync (.expireInterests now))
  | .syncInterest i k now => d.interests[k]?.map fun name => (i, .sync (.syncInterest name now))
  | .syncData i k => d.data[k]?.map fun x => (i, .sync (.syncData x.1 x.2))

/-- What can happen to whom. -/
inductive Located (d : Domain ι H) : DomainEvent ι → ι → NodeEvent → Prop
  | turn {i e} (he : e.isLocal) : Located d (.turn i e) i (.turn e)
  | lsaInterest {i interestName} :
    Located d (.lsaInterest i interestName) i (.lsaInterest interestName)
  | lsaData {i k n version rest s x} (hserved : (d.node k).server.served[n]? = some s)
    (hx : x ∈ (d.node i).fetcher.sent) (hunder : x.name <+: s.interestName ++ [version]) :
    Located d (.lsaData i k n version rest) i
      (.lsaData (s.interestName ++ [version]) (s.content ++ rest))
  | fetch {i e} (he : e.isLater) : Located d (.fetch i e) i (.fetch e)
  | posted {i} : Located d (.posted i) i .posted
  | due {i id now} : Located d (.due i id now) i (.sync (.due id now))
  | expireInterests {i now} : Located d (.expireInterests i now) i (.sync (.expireInterests now))
  | syncInterest {i k now name} (hname : d.interests[k]? = some name) :
    Located d (.syncInterest i k now) i (.sync (.syncInterest name now))
  | syncData {i k x} (hx : d.data[k]? = some x) :
    Located d (.syncData i k) i (.sync (.syncData x.1 x.2))

theorem located_of_locate {d : Domain ι H} {e : DomainEvent ι} {i : ι} {f : NodeEvent}
    (h : d.locate e = some (i, f)) : Located d e i f := by
  cases e with
  | turn j e =>
    simp only [locate, Option.ite_none_right_eq_some, Option.some.injEq, Prod.mk.injEq] at h
    obtain ⟨he, rfl, rfl⟩ := h
    exact .turn he
  | lsaInterest j interestName => cases h; exact .lsaInterest
  | lsaData j k n version rest =>
    cases hserved : (d.node k).server.served[n]? with
    | none => simp [locate, hserved] at h
    | some s =>
      simp only [locate, hserved, Option.ite_none_right_eq_some, Option.some.injEq,
        Prod.mk.injEq] at h
      obtain ⟨⟨x, hx, hunder⟩, rfl, rfl⟩ := h
      exact .lsaData hserved hx hunder
  | fetch j e =>
    simp only [locate, Option.ite_none_right_eq_some, Option.some.injEq, Prod.mk.injEq] at h
    obtain ⟨he, rfl, rfl⟩ := h
    exact .fetch he
  | posted j => cases h; exact .posted
  | due j id now => cases h; exact .due
  | expireInterests j now => cases h; exact .expireInterests
  | syncInterest j k now =>
    obtain ⟨name, hname, hi⟩ := Option.map_eq_some_iff.1 h
    cases hi
    exact .syncInterest hname
  | syncData j k =>
    obtain ⟨x, hx, hi⟩ := Option.map_eq_some_iff.1 h
    cases hi
    exact .syncData hx

variable [DecidableEq ι] (math : MathLib) (lib : TextLib) (pb : Protobuf)

/-- A node takes a step. -/
def act (d : Domain ι H) (i : ι) (f : NodeEvent) : Domain ι H where
  node := Function.update d.node i ((d.node i).step math lib pb f)
  interests := d.interests ++ Network.interestsOf ((d.node i).turn math lib pb f).2
  data := d.data ++ Network.dataOf ((d.node i).turn math lib pb f).2

@[simp] theorem node_act_self (d : Domain ι H) (i : ι) (f : NodeEvent) :
    (d.act math lib pb i f).node i = (d.node i).step math lib pb f :=
  Function.update_self ..

theorem node_act_of_ne (d : Domain ι H) {i j : ι} (h : j ≠ i) (f : NodeEvent) :
    (d.act math lib pb i f).node j = d.node j :=
  Function.update_of_ne h ..

def step (d : Domain ι H) (e : DomainEvent ι) : Domain ι H :=
  match d.locate e with
  | none => d
  | some (i, f) => d.act math lib pb i f

/-- A step is that of one node, or nothing happens. -/
theorem step_cases (d : Domain ι H) (e : DomainEvent ι) :
    (d.locate e = none ∧ d.step math lib pb e = d) ∨
      ∃ i f, Located d e i f ∧ d.step math lib pb e = d.act math lib pb i f := by
  unfold step
  cases h : d.locate e with
  | none => exact Or.inl ⟨rfl, rfl⟩
  | some r => exact Or.inr ⟨r.1, r.2, located_of_locate h, rfl⟩

/-- The domain after a run. -/
def after (H : HashFunction) (setup : ι → Setup) (es : List (DomainEvent ι)) : Domain ι H :=
  run (step math lib pb) (first H setup) es

theorem after_concat (setup : ι → Setup) (es : List (DomainEvent ι)) (e : DomainEvent ι) :
    after math lib pb H setup (es ++ [e]) =
      (after math lib pb H setup es).step math lib pb e :=
  run_append _ _ _ _

end Domain

/-! ## The sync logics of a domain -/

namespace Node

variable (math : MathLib) (lib : TextLib) (pb : Protobuf)

/-- The callbacks ask for LSAs. -/
theorem hear_frame (n : Node H) (out : List Output) :
    ∃ fetcher threw, n.hear lib out = { n with fetcher := fetcher, threw := threw } := by
  induction out generalizing n with
  | nil => exact ⟨n.fetcher, n.threw, rfl⟩
  | cons o out ih =>
    have hone : ∃ fetcher threw, n.hearOne lib o = { n with fetcher := fetcher, threw := threw } := by
      cases o with
      | onUpdate v =>
        unfold hearOne
        dsimp only
        cases SyncLogicHandler.onNsyncUpdate lib n.router n.fetcher v with
        | none => exact ⟨n.fetcher, true, rfl⟩
        | some fetcher => exact ⟨fetcher, n.threw, rfl⟩
      | _ => exact ⟨n.fetcher, n.threw, rfl⟩
    obtain ⟨fetcher, threw, hone⟩ := hone
    obtain ⟨fetcher', threw', hrest⟩ := ih (n.hearOne lib o)
    refine ⟨fetcher', threw', ?_⟩
    show hear lib (n.hearOne lib o) out = _
    rw [hrest, hone]

theorem publish_frame (n : Node H) (seqNo : UInt64) :
    ∃ posted threw, n.publish lib seqNo =
      { n with socket := { n.socket with posted := posted }, threw := threw } := by
  unfold publish SyncLogicHandler.publishSyncUpdate
  cases nameOf lib (uriOf lib n.updatePrefix) with
  | none => exact ⟨n.socket.posted, true, rfl⟩
  | some name => exact ⟨_, n.threw, rfl⟩

/-- A new router has something posted. -/
theorem goTo_frame (n : Node H) (router : Nlsr) :
    ∃ posted threw, n.goTo lib router =
      { n with
        server := { n.server with router := router }
        socket := { n.socket with posted := posted }
        threw := threw } := by
  unfold goTo
  generalize router.published.drop n.router.published.length = seqNos
  induction seqNos using List.reverseRecOn with
  | nil => exact ⟨n.socket.posted, n.threw, rfl⟩
  | append_singleton seqNos seqNo ih =>
    obtain ⟨posted, threw, ih⟩ := ih
    rw [List.foldl_append, List.foldl_cons, List.foldl_nil, ih]
    obtain ⟨posted', threw', hone⟩ := publish_frame lib
      { n with
        server := { n.server with router := router }
        socket := { n.socket with posted := posted }
        threw := threw } seqNo
    exact ⟨posted', threw', hone⟩

@[simp] theorem socket_hear (n : Node H) (out : List Output) : (n.hear lib out).socket = n.socket := by
  obtain ⟨fetcher, threw, h⟩ := n.hear_frame lib out
  rw [h]

@[simp] theorem syncLogic_goTo (n : Node H) (router : Nlsr) :
    (n.goTo lib router).socket.syncLogic = n.socket.syncLogic := by
  obtain ⟨posted, threw, h⟩ := n.goTo_frame lib router
  rw [h]

/-- What an event of a node is to its sync logic. -/
def syncEvent (n : Node H) : NodeEvent → Option SyncLogic.Event
  | .posted => n.socket.posted.head?.map fun p =>
      .addLocalNames (uriOf lib p.namePrefix) p.session p.seq
  | .sync e => some e
  | _ => none

/-- **The sync logic of a node takes the steps of a party**, and what the node sends is what the
party sends. -/
theorem syncLogic_turn (n : Node H) (f : NodeEvent) :
    ((n.turn math lib pb f).1.socket.syncLogic, (n.turn math lib pb f).2) =
      match n.syncEvent lib f with
      | none => (n.socket.syncLogic, [])
      | some e => n.socket.syncLogic.turn pb e := by
  cases f with
  | turn e => simp [turn, syncEvent]
  | lsaInterest interestName =>
    simp only [turn, syncEvent, onLsaInterest]
    split_ifs <;> rfl
  | lsaData dataName dataContent => simp [turn, syncEvent]
  | fetch e => rfl
  | posted =>
    simp only [turn, syncEvent, setSocket, socket_hear, SyncSocket.runPosted]
    cases n.socket.posted with
    | nil => rfl
    | cons p posted => rfl
  | sync e =>
    simp only [turn, syncEvent, setSocket, socket_hear]
    rfl

end Node

namespace Domain

/-- The sync logics as a network of parties. -/
def network (d : Domain ι H) : Network ι H where
  party i := (d.node i).socket.syncLogic
  interests := d.interests
  data := d.data

/-- What an event of a domain is to its network. -/
def networkEvents (lib : TextLib) (d : Domain ι H) : DomainEvent ι → List (NetworkEvent ι)
  | .posted i => (d.node i).socket.posted.head?.toList.map fun p =>
      .addLocalNames i (uriOf lib p.namePrefix) p.session p.seq
  | .due i id now => [.due i id now]
  | .expireInterests i now => [.expireInterests i now]
  | .syncInterest i k now => [.interest i k now]
  | .syncData i k => [.data i k]
  | _ => []

/-- What arrives at a sync logic arrives in the network. -/
theorem network_locate {d : Domain ι H} {e : DomainEvent ι} {i : ι} {f : SyncLogic.Event}
    (h : Located d e i (.sync f)) (lib : TextLib) :
    ∃ ne, d.networkEvents lib e = [ne] ∧ d.network.locate ne = some (i, f) := by
  cases h with
  | due => exact ⟨_, rfl, rfl⟩
  | expireInterests => exact ⟨_, rfl, rfl⟩
  | syncInterest hname => exact ⟨_, rfl, by simp [Network.locate, network, hname]⟩
  | syncData hx => exact ⟨_, rfl, by simp [Network.locate, network, hx]⟩

variable [DecidableEq ι] (math : MathLib) (lib : TextLib) (pb : Protobuf)

theorem network_act (d : Domain ι H) (i : ι) (f : NodeEvent) :
    (d.act math lib pb i f).network =
      match (d.node i).syncEvent lib f with
      | none => d.network
      | some e => d.network.act pb i e := by
  have hturn := (d.node i).syncLogic_turn math lib pb f
  have hparty : (d.act math lib pb i f).network.party =
      Function.update d.network.party i ((d.node i).turn math lib pb f).1.socket.syncLogic := by
    funext j
    by_cases hj : j = i
    · subst hj
      rw [Function.update_self]
      show ((d.act math lib pb j f).node j).socket.syncLogic = _
      rw [node_act_self]
      rfl
    · rw [Function.update_of_ne hj]
      show ((d.act math lib pb i f).node j).socket.syncLogic = _
      rw [node_act_of_ne math lib pb d hj]
      rfl
  have hnetwork : (d.act math lib pb i f).network =
      ⟨(d.act math lib pb i f).network.party,
        d.interests ++ Network.interestsOf ((d.node i).turn math lib pb f).2,
        d.data ++ Network.dataOf ((d.node i).turn math lib pb f).2⟩ := rfl
  rw [hnetwork, hparty]
  cases he : (d.node i).syncEvent lib f with
  | none =>
    rw [he] at hturn
    obtain ⟨hlogic, hout⟩ := Prod.mk.inj hturn
    have hself : d.network.party i = (d.node i).socket.syncLogic := rfl
    rw [hlogic, hout, ← hself, Function.update_eq_self]
    simp [network, Network.interestsOf, Network.dataOf]
  | some e =>
    rw [he] at hturn
    obtain ⟨hlogic, hout⟩ := Prod.mk.inj hturn
    rw [hlogic, hout]
    rfl

/-- **A step of a domain is steps of its network.** -/
theorem network_step (d : Domain ι H) (e : DomainEvent ι) :
    (d.step math lib pb e).network = run (Network.step pb) d.network (d.networkEvents lib e) := by
  have hact : ∀ i f, d.locate e = some (i, f) →
      (d.step math lib pb e).network =
        match (d.node i).syncEvent lib f with
        | none => d.network
        | some e => d.network.act pb i e := by
    intro i f hlocate
    rw [← network_act math lib pb d i f]
    unfold step
    rw [hlocate]
  have hnone : d.locate e = none → (d.step math lib pb e).network = d.network := by
    intro hlocate
    unfold step
    rw [hlocate]
  cases e with
  | turn i e =>
    by_cases he : e.isLocal
    · exact hact i (.turn e) (if_pos he)
    · exact hnone (if_neg he)
  | lsaInterest i interestName => exact hact i _ rfl
  | lsaData i k n version rest =>
    cases hserved : (d.node k).server.served[n]? with
    | none => exact hnone (by simp [locate, hserved])
    | some s =>
      by_cases hasked : ∃ x ∈ (d.node i).fetcher.sent, x.name <+: s.interestName ++ [version]
      · exact hact i (.lsaData (s.interestName ++ [version]) (s.content ++ rest))
          (by simp only [locate, hserved, hasked, if_true])
      · exact hnone (by simp only [locate, hserved, hasked, if_false])
  | fetch i e =>
    by_cases he : e.isLater
    · exact hact i (.fetch e) (if_pos he)
    · exact hnone (if_neg he)
  | posted i =>
    rw [hact i .posted rfl]
    cases hposted : (d.node i).socket.posted with
    | nil => simp [Node.syncEvent, networkEvents, hposted]
    | cons p posted =>
      simp [Node.syncEvent, networkEvents, hposted, Network.step, Network.locate]
  | due i id now => exact hact i _ rfl
  | expireInterests i now => exact hact i _ rfl
  | syncInterest i k now =>
    have hlocated : d.network.interests[k]? = d.interests[k]? := rfl
    cases hk : d.interests[k]? with
    | none =>
      rw [hnone (by simp [locate, hk])]
      simp [networkEvents, Network.step, Network.locate, hlocated, hk]
    | some name =>
      rw [hact i (.sync (.syncInterest name now)) (by simp [locate, hk])]
      simp [networkEvents, Node.syncEvent, Network.step, Network.locate, hlocated, hk]
  | syncData i k =>
    have hlocated : d.network.data[k]? = d.data[k]? := rfl
    cases hk : d.data[k]? with
    | none =>
      rw [hnone (by simp [locate, hk])]
      simp [networkEvents, Network.step, Network.locate, hlocated, hk]
    | some x =>
      rw [hact i (.sync (.syncData x.1 x.2)) (by simp [locate, hk])]
      simp [networkEvents, Node.syncEvent, Network.step, Network.locate, hlocated, hk]

/-- What a run of a domain is to its network. -/
def trace (d : Domain ι H) : List (DomainEvent ι) → List (NetworkEvent ι)
  | [] => []
  | e :: es => d.networkEvents lib e ++ trace (d.step math lib pb e) es

theorem trace_append (d : Domain ι H) (es es' : List (DomainEvent ι)) :
    d.trace math lib pb (es ++ es') =
      d.trace math lib pb es ++ (run (step math lib pb) d es).trace math lib pb es' := by
  induction es generalizing d with
  | nil => rfl
  | cons e es ih => simp [trace, ih]

/-- The network's run in a run of a domain from its start. -/
abbrev netTrace (H : HashFunction) (setup : ι → Setup) (es : List (DomainEvent ι)) :
    List (NetworkEvent ι) :=
  (first H setup).trace math lib pb es

theorem netTrace_concat (setup : ι → Setup) (es : List (DomainEvent ι)) (e : DomainEvent ι) :
    netTrace math lib pb H setup (es ++ [e]) = netTrace math lib pb H setup es ++
      (after math lib pb H setup es).networkEvents lib e := by
  rw [netTrace, trace_append]
  simp [trace, after]

/-- **The sync logics of a domain are a network of parties** after a run of its own. -/
theorem network_after (setup : ι → Setup) (es : List (DomainEvent ι)) :
    (after math lib pb H setup es).network =
      Network.after pb false H (netTrace math lib pb H setup es) := by
  induction es using List.reverseRecOn with
  | nil => rfl
  | append_singleton es e ih =>
    rw [after_concat, network_step, ih, netTrace_concat]
    exact (run_append _ _ _ _).symm

end Domain

end LinkState
