import LinkState.Sync.Answers

/-!
# A network of parties

Any number of parties. What is sent may arrive at anybody, any number of times, in any order, or
never. A run is a list of events: a publication or a removal at a party, an event of a party's
scheduler, or the arrival of something that was sent before.

* `party_after`: a party of the network is a party after a run of its own.
* `no_invention`: whatever is delivered when, a number that a party has for a prefix was published
  for it somewhere.
-/

namespace LinkState.Sync

variable {ι : Type*} {H : HashFunction}

/-- The parties, and all that was ever sent. -/
structure Network (ι : Type*) (H : HashFunction) where
  party : ι → SyncLogic H
  interests : List SyncName
  data : List (SyncName × Bytes)

/-- What happens in a network, and to whom. -/
inductive NetworkEvent (ι : Type*)
  | addLocalNames (i : ι) (namePrefix : String) (session seq : UInt64)
  | remove (i : ι) (namePrefix : String)
  | due (i : ι) (id : Nat) (now : Int)
  | expireInterests (i : ι) (now : Int)
  /-- The Interest that was sent as number `k` arrives. -/
  | interest (i : ι) (k : Nat) (now : Int)
  /-- The Data that was sent as number `k` arrives. -/
  | data (i : ι) (k : Nat)

namespace Network

open SyncLogic

def init (ι : Type*) (H : HashFunction) (perBranch : Bool) : Network ι H :=
  ⟨fun _ => SyncLogic.init H perBranch, [], []⟩

/-- The Interests among what was put out. -/
def interestsOf (out : List Output) : List SyncName :=
  out.filterMap fun
    | .interest name => some name
    | _ => none

def dataOf (out : List Output) : List (SyncName × Bytes) :=
  out.filterMap fun
    | .data name content => some (name, content)
    | _ => none

/-- Who is concerned by an event, and what it is to him; `none` where nothing was sent that could
arrive. -/
def locate (net : Network ι H) : NetworkEvent ι → Option (ι × SyncLogic.Event)
  | .addLocalNames i namePrefix session seq => some (i, .addLocalNames namePrefix session seq)
  | .remove i namePrefix => some (i, .remove namePrefix)
  | .due i id now => some (i, .due id now)
  | .expireInterests i now => some (i, .expireInterests now)
  | .interest i k now => net.interests[k]?.map fun name => (i, .syncInterest name now)
  | .data i k => net.data[k]?.map fun d => (i, .syncData d.1 d.2)

/-! ## What was published -/

/-- A change was made at a party: it published the number or removed the prefix, or, for the
forwarder, removed something. -/
def Published (es : List (NetworkEvent ι)) (info : String) (c : Change SeqNo) : Prop :=
  ∃ i, (∃ session seq, .addLocalNames i info session seq ∈ es ∧ c = .set ⟨session, seq⟩) ∨
    (.remove i info ∈ es ∧ c = .drop) ∨
    (info = forwarderPrefix ∧ (∃ namePrefix, .remove i namePrefix ∈ es) ∧ ∃ v, c = .set v)

theorem Published.append {es : List (NetworkEvent ι)} {info : String} {c : Change SeqNo}
    (h : Published es info c) (es' : List (NetworkEvent ι)) : Published (es ++ es') info c := by
  obtain ⟨i, h⟩ := h
  refine ⟨i, ?_⟩
  rcases h with ⟨session, seq, hmem, hc⟩ | ⟨hmem, hc⟩ | ⟨hinfo, ⟨namePrefix, hmem⟩, hc⟩
  · exact Or.inl ⟨session, seq, List.mem_append_left _ hmem, hc⟩
  · exact Or.inr (Or.inl ⟨List.mem_append_left _ hmem, hc⟩)
  · exact Or.inr (Or.inr ⟨hinfo, ⟨namePrefix, List.mem_append_left _ hmem⟩, hc⟩)

variable (pb : Protobuf)

/-- All that the parties know and all that was sent is in `K`. -/
structure Sound (K : String → Change SeqNo → Prop) (net : Network ι H) : Prop where
  known : ∀ i info c, Known (net.party i) info c → K info c
  carries : ∀ d ∈ net.data, Carries pb K d.2

theorem carries_mono {K K' : String → Change SeqNo → Prop} (hK : ∀ info c, K info c → K' info c)
    {content : Bytes} (h : Carries pb K content) : Carries pb K' content := by
  obtain ⟨msg, hmsg, hdelta⟩ := h
  exact ⟨msg, hmsg, fun info c hc => hK info c (hdelta info c hc)⟩

theorem Sound.mono {K K' : String → Change SeqNo → Prop} (hK : ∀ info c, K info c → K' info c)
    {net : Network ι H} (h : Sound pb K net) : Sound pb K' net where
  known i info c hc := hK info c (h.known i info c hc)
  carries d hd := carries_mono pb hK (h.carries d hd)

/-- What an event brings to a party was published before, or is now. -/
theorem published_of_brings {es : List (NetworkEvent ι)} {net : Network ι H}
    (h : Sound pb (Published es) net) {e : NetworkEvent ι} {i : ι} {f : SyncLogic.Event}
    (hlocate : net.locate e = some (i, f)) {info : String} {c : Change SeqNo}
    (hf : Brings pb f info c) : Published (es ++ [e]) info c := by
  cases e with
  | addLocalNames j namePrefix session seq =>
    cases hlocate
    obtain ⟨rfl, rfl⟩ := hf
    exact ⟨i, Or.inl ⟨session, seq, by simp, rfl⟩⟩
  | remove j namePrefix =>
    cases hlocate
    rcases hf with ⟨rfl, rfl⟩ | ⟨rfl, hset⟩
    · exact ⟨i, Or.inr (Or.inl ⟨by simp, rfl⟩)⟩
    · exact ⟨i, Or.inr (Or.inr ⟨rfl, ⟨namePrefix, by simp⟩, hset⟩)⟩
  | due j id now =>
    cases hlocate
    cases hf
  | expireInterests j now =>
    cases hlocate
    cases hf
  | interest j k now =>
    obtain ⟨name, -, hname⟩ := Option.map_eq_some_iff.1 hlocate
    cases hname
    cases hf
  | data j k =>
    obtain ⟨d, hd, hname⟩ := Option.map_eq_some_iff.1 hlocate
    cases hname
    obtain ⟨msg, hmsg, hc⟩ := hf
    obtain ⟨msg', hmsg', hall⟩ := h.carries d (List.mem_of_getElem? hd)
    rw [hmsg] at hmsg'
    obtain rfl := Option.some.inj hmsg'
    exact (hall info c hc).append _

/-! ## Steps -/

variable [DecidableEq ι]

/-- A party takes a step. -/
def act (net : Network ι H) (i : ι) (e : SyncLogic.Event) : Network ι H where
  party := Function.update net.party i ((net.party i).step pb e)
  interests := net.interests ++ interestsOf ((net.party i).turn pb e).2
  data := net.data ++ dataOf ((net.party i).turn pb e).2

@[simp] theorem party_act_self (net : Network ι H) (i : ι) (e : SyncLogic.Event) :
    (net.act pb i e).party i = (net.party i).step pb e :=
  Function.update_self ..

theorem party_act_of_ne (net : Network ι H) {i j : ι} (h : j ≠ i) (e : SyncLogic.Event) :
    (net.act pb i e).party j = net.party j :=
  Function.update_of_ne h ..

def step (net : Network ι H) (e : NetworkEvent ι) : Network ι H :=
  match net.locate e with
  | none => net
  | some (i, e) => net.act pb i e

/-- A step is that of one party, or nothing arrives. -/
theorem step_cases (net : Network ι H) (e : NetworkEvent ι) :
    (net.locate e = none ∧ net.step pb e = net) ∨
      ∃ i f, net.locate e = some (i, f) ∧ net.step pb e = net.act pb i f := by
  unfold step
  cases net.locate e with
  | none => exact Or.inl ⟨rfl, rfl⟩
  | some r => exact Or.inr ⟨r.1, r.2, rfl, rfl⟩

/-- The network after a run. -/
def after (perBranch : Bool) (H : HashFunction) (es : List (NetworkEvent ι)) : Network ι H :=
  run (step pb) (init ι H perBranch) es

theorem after_concat (perBranch : Bool) (es : List (NetworkEvent ι)) (e : NetworkEvent ι) :
    after pb perBranch H (es ++ [e]) = (after pb perBranch H es).step pb e :=
  run_append _ _ _ _

/-! ## One party of a network -/

/-- What an event of the network is to a party. -/
def ownEvent (net : Network ι H) (i : ι) (e : NetworkEvent ι) : List SyncLogic.Event :=
  match net.locate e with
  | none => []
  | some (j, f) => if j = i then [f] else []

/-- The events of a party in a run of the network. -/
def own (net : Network ι H) (i : ι) : List (NetworkEvent ι) → List SyncLogic.Event
  | [] => []
  | e :: es => net.ownEvent i e ++ own (net.step pb e) i es

theorem own_append (net : Network ι H) (i : ι) (es es' : List (NetworkEvent ι)) :
    net.own pb i (es ++ es') = net.own pb i es ++ (run (step pb) net es).own pb i es' := by
  induction es generalizing net with
  | nil => rfl
  | cons e es ih => simp [own, ih]

theorem party_step (net : Network ι H) (i : ι) (e : NetworkEvent ι) :
    (net.step pb e).party i = run (SyncLogic.step pb) (net.party i) (net.ownEvent i e) := by
  unfold step ownEvent
  cases net.locate e with
  | none => rfl
  | some r =>
    obtain ⟨j, f⟩ := r
    dsimp only
    split_ifs with h
    · subst h
      rw [party_act_self]
      rfl
    · rw [party_act_of_ne pb net (Ne.symm h)]
      rfl

/-- **A party of a network is a party after a run of its own.** -/
theorem party_after (perBranch : Bool) (es : List (NetworkEvent ι)) (i : ι) :
    (after pb perBranch H es).party i =
      SyncLogic.after pb perBranch H ((init ι H perBranch).own pb i es) := by
  induction es using List.reverseRecOn with
  | nil => rfl
  | append_singleton es e ih =>
    rw [after_concat, party_step, ih, own_append, SyncLogic.after_append]
    simp [own, after]

/-! ## Nothing is invented -/

theorem asked_true (s : SyncLogic H) : Asked (fun _ => True) s :=
  ⟨fun _ _ => trivial, fun _ _ _ _ _ => trivial⟩

theorem mem_dataOf {out : List Output} {d : SyncName × Bytes} :
    d ∈ dataOf out ↔ .data d.1 d.2 ∈ out := by
  unfold dataOf
  rw [List.mem_filterMap]
  constructor
  · intro h
    obtain ⟨o, ho, hd⟩ := h
    cases o <;> simp at hd
    rw [← hd]
    exact ho
  · intro h
    exact ⟨_, h, rfl⟩

/-- **A step invents nothing**, given that what the event brings is in `K`. -/
theorem Sound.act {K : String → Change SeqNo → Prop} {net : Network ι H} (h : Sound pb K net)
    (i : ι) {e : SyncLogic.Event} (he : ∀ info c, Brings pb e info c → K info c) :
    Sound pb K (net.act pb i e) := by
  have hstep : ∀ info c, Known ((net.party i).step pb e) info c → K info c := by
    intro info c hc
    rcases known_step pb hc with hold | hnew
    · exact h.known i info c hold
    · exact he info c hnew
  constructor
  · intro j info c hc
    by_cases hj : j = i
    · subst hj
      rw [party_act_self] at hc
      exact hstep info c hc
    · rw [party_act_of_ne pb net hj] at hc
      exact h.known j info c hc
  · intro d hd
    rcases List.mem_append.1 hd with hd | hd
    · exact h.carries d hd
    · have hserves := turn_answers pb (asked_true (net.party i)) e fun _ _ _ _ => trivial
      exact carries_mono pb hstep (hserves.answers d.1 d.2 (mem_dataOf.1 hd)).2

theorem sound_after (perBranch : Bool) (es : List (NetworkEvent ι)) :
    Sound pb (Published es) (after pb perBranch H es) := by
  induction es using List.reverseRecOn with
  | nil =>
    constructor
    · intro i info c hc
      rcases hc with ⟨v, -, hv⟩ | ⟨d, hd, -⟩
      · exact absurd hv WithBot.bot_ne_coe
      · exact absurd hd List.not_mem_nil
    · intro d hd
      exact absurd hd List.not_mem_nil
  | append_singleton es e ih =>
    have hmono := ih.mono pb fun info c hc => Published.append hc [e]
    rw [after_concat]
    rcases step_cases pb (after pb perBranch H es) e with ⟨-, hstep⟩ | ⟨i, f, hlocate, hstep⟩ <;>
      rw [hstep]
    · exact hmono
    · exact hmono.act pb i fun info c hc => published_of_brings pb ih hlocate hc

/-- **Nothing is invented.** However Interests and Data are lost, repeated and mixed up, the number
that a party has for a prefix was published for this prefix at some party; that of the forwarder
was, or something has been removed at some party. -/
theorem no_invention (perBranch : Bool) (es : List (NetworkEvent ι)) (i : ι) (info : String)
    (v : SeqNo) (h : ((after pb perBranch H es).party i).view info = v) :
    ∃ j, .addLocalNames j info v.session v.seq ∈ es ∨
      (info = forwarderPrefix ∧ ∃ namePrefix, .remove j namePrefix ∈ es) := by
  obtain ⟨j, hj⟩ := (sound_after pb perBranch es).known i info (.set v) (Or.inl ⟨v, rfl, h⟩)
  refine ⟨j, ?_⟩
  rcases hj with ⟨session, seq, hmem, hc⟩ | ⟨-, hc⟩ | ⟨hinfo, hremove, -⟩
  · cases hc
    exact Or.inl hmem
  · cases hc
  · exact Or.inr ⟨hinfo, hremove⟩

/-- The number that a party published itself. -/
theorem no_invention_own :
    let es := [NetworkEvent.addLocalNames true "/ndn/router" 0 1]
    ∃ j, NetworkEvent.addLocalNames j "/ndn/router" 0 1 ∈ es ∨
      ("/ndn/router" = forwarderPrefix ∧ ∃ namePrefix, NetworkEvent.remove j namePrefix ∈ es) := by
  refine no_invention (H := checksum) wire false _ true "/ndn/router" ⟨0, 1⟩ ?_
  show (SyncLogic.addLocalNames wire _ "/ndn/router" 0 1).1.view _ = _
  rw [view_addLocalNames, Function.update_self]
  exact bot_sup_eq _

end Network

end LinkState.Sync
