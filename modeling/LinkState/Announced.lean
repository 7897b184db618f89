import LinkState.Serving
import Mathlib.Data.UInt

/-!
# What is announced is what is served

A combined number is announced with the counters in it; the other routers take it apart and ask
for the LSA of each kind by its number. `announced_is_served`: while no field overflows, they
get the LSA they were told of, until its counter moves on.

Two things can go wrong. A counter that has outgrown its field comes out of the combined number
as another number; and the origin is looked for behind the first component `LSA` of the name,
which is in the wrong place if the network has such a component.
-/

namespace LinkState

namespace Nlsr

open SequencingManager

/-- Own numbers are counters, in every state of a regular run. -/
theorem numbered_run (math : MathLib) {s : Nlsr} (hs : s.Numbered) {es : List Event}
    (h : Meets (step math) (Regular math) s es) : Along (step math) Numbered s es :=
  along_of_meets (fun _ e hs he => (turn_step math hs e he.1).numbered hs he.2) hs h

theorem packed_run (math : MathLib) {s : Nlsr} (hs : s.Numbered)
    (hp : Packed s.sequencingManager) {es : List Event}
    (h : Meets (step math) (Regular math) s es) :
    (run (step math) s es).Numbered ∧ Packed (run (step math) s es).sequencingManager := by
  refine (along_of_meets (P := fun s => s.Numbered ∧ Packed s.sequencingManager)
    (fun s e hs he => ?_) ⟨hs, hp⟩ h).last
  have hturn := turn_step math hs.1 e he.1
  exact ⟨hturn.numbered hs.1 he.2, hturn.packed he.2 hs.2⟩

theorem Turn.announced {s t : Nlsr} (h : Turn s t) {p : UInt64}
    (hp : t.published = s.published ++ [p]) : p = t.sequencingManager.combinedSeqNo := by
  rcases h.announces with h | h
  · rw [h.published] at hp
    simp at hp
  · rw [h.published] at hp
    simpa using hp.symm

/-- What the other routers read is the counter, if no field overflows. -/
theorem announcedSeqNo_combinedSeqNo {sm : SequencingManager} (hp : Packed sm) (h : Fits sm)
    (c : Counter) : announcedSeqNo sm.combinedSeqNo c = sm.counter c :=
  (trips_iff_fits hp).2 h c

theorem Numbered.lsSeqNo {s : Nlsr} (hs : s.Numbered) {c : Counter} {l : AnyLsa}
    (hl : s.lsaOf c s.routerPrefix = some l) :
    l.lsSeqNo.toUInt64 = s.sequencingManager.counter c := by
  apply UInt64.toNat_inj.1
  rw [UInt32.toNat_toUInt64]
  exact hs.own c _ (by rw [ownSeqNo_eq, hl]; rfl)

/-- **An Interest for the number of the counter is answered with the own LSA.** -/
theorem Numbered.processInterest {s : Nlsr} (hs : s.Numbered) (lib : TextLib)
    (hLSA : (⟨"LSA"⟩ : Component) ∉ s.confParam.network) (c : Counter) :
    s.processInterest lib (s.confParam.updatePrefix ++
        [c.component, Component.fromNumber (s.sequencingManager.counter c)]) =
      (s.lsaOf c s.routerPrefix).map (AnyLsa.getData lib) := by
  let router := s.confParam.siteName ++ s.confParam.routerName
  have hname : s.confParam.updatePrefix ++
      [c.component, Component.fromNumber (s.sequencingManager.counter c)] =
      lsaName s.confParam router c.component
        (Component.fromNumber (s.sequencingManager.counter c)) [] := by
    simp [lsaName, ConfParameter.updatePrefix, router]
  have hrp : s.confParam.network ++ router = s.routerPrefix := by
    simp [router, routerPrefix, ConfParameter.routerPrefix]
  rw [processInterest_eq, hname, show (2 : Nat) = ([] : Name).length + 2 from rfl,
    lsaIdOf_lsaName hLSA, Component.toNumber_fromNumber, hrp, Option.bind_some,
    Counter.ofComponent_component, Option.map_some, Option.bind_some]
  unfold answer
  cases hl : s.lsaOf c s.routerPrefix with
  | none => rfl
  | some l => simp [Option.filter, hs.lsSeqNo hl]

/-- The run is at the end of an event that announces a number, and what happens next. -/
structure Announcement (math : MathLib) (s : Nlsr) (es : List Event) (p : UInt64)
    (t v : Nlsr) : Prop where
  split : ∃ before e during, es = before ++ e :: during ∧
    t = (run (step math) s before).step math e ∧ v = run (step math) t during ∧
    t.published = (run (step math) s before).published ++ [p]

/-- **What is announced is what is served.** In every state the own LSAs have the numbers of the
counters. After a combined number is announced with all counters inside their fields, an Interest
for its number of a kind is answered with the own LSA of that kind, if there is one, until the
counter of that kind moves. -/
theorem announced_is_served (math : MathLib) (lib : TextLib) (confParam : ConfParameter)
    (adjacencyList : AdjacencyList) (namePrefixList : NamePrefixList) (seqFile : Option UInt64)
    (now : TimePoint) (es : List Event)
    (h : Meets (step math) (Regular math)
      (start confParam adjacencyList namePrefixList seqFile now).initializeNlsr es) :
    let s := (start confParam adjacencyList namePrefixList seqFile now).initializeNlsr
    Along (step math) (fun s => ∀ c l, s.lsaOf c s.routerPrefix = some l →
        l.lsSeqNo.toUInt64 = s.sequencingManager.counter c) s es ∧
      ∀ p t v, Announcement math s es p t v → Fits t.sequencingManager →
        (⟨"LSA"⟩ : Component) ∉ v.confParam.network →
        ∀ c, v.sequencingManager.counter c = t.sequencingManager.counter c →
          v.processInterest lib (v.confParam.updatePrefix ++
              [c.component, Component.fromNumber (announcedSeqNo p c)]) =
            (v.lsaOf c v.routerPrefix).map (AnyLsa.getData lib) := by
  have hs := numbered_initializeNlsr confParam adjacencyList namePrefixList seqFile now
  have hp : Packed (start confParam adjacencyList namePrefixList seqFile
      now).initializeNlsr.sequencingManager := by
    rw [sequencingManager_initializeNlsr]
    exact packed_seqStep _ (.increase .cor)
  refine ⟨(numbered_run math hs h).imp ?_, ?_⟩
  · intro s hs c l hl
    exact hs.lsSeqNo hl
  intro p t v hann hfits hLSA c hc
  obtain ⟨before, e, during, rfl, ht, hv, hpub⟩ := hann.split
  have hbefore := meets_append.1 h
  obtain ⟨hu, hpu⟩ := packed_run math hs hp hbefore.1
  have he := hbefore.2.1
  have hturn := turn_step math hu e he.1
  have htn : t.Numbered := ht ▸ hturn.numbered hu he.2
  have htp : Packed t.sequencingManager := ht ▸ hturn.packed he.2 hpu
  have hvn : v.Numbered := hv ▸ (numbered_run math htn (ht ▸ hbefore.2.2)).last
  have hannounced : announcedSeqNo p c = v.sequencingManager.counter c := by
    have hlast : Turn (run (step math) _ before) t := ht ▸ hturn
    rw [hlast.announced hpub, announcedSeqNo_combinedSeqNo htp hfits, hc]
  rw [hannounced]
  exact hvn.processInterest lib hLSA c

/-- A prefix is advertised; then the clock runs. -/
def advertisedOnce : List Event := [.advertise [⟨"b"⟩], .clock 5000000000]

theorem announced_is_served_advertisedOnce :
    let s := (start { network := [⟨"a"⟩] } KeyedList.empty KeyedList.empty none 0).initializeNlsr
    let v := run (step ⟨0, id, id, id, id⟩) s advertisedOnce
    v.processInterest plainText [⟨"a"⟩, ⟨"NLSR"⟩, ⟨"LSA"⟩, ⟨"name"⟩, Component.fromNumber 2] =
      some "/a|name|2|19700101T010000|1|/b|".toList := by
  obtain ⟨-, h⟩ := announced_is_served ⟨0, id, id, id, id⟩ plainText { network := [⟨"a"⟩] }
    KeyedList.empty KeyedList.empty none 0 advertisedOnce
    ⟨⟨trivial, keepsRoom_of_fits (by decide +kernel) _⟩,
      ⟨trivial, keepsRoom_of_fits (by decide +kernel) _⟩, trivial⟩
  have hname := h 2199024304128 _ _ ⟨[], _, _, rfl, rfl, rfl, by decide +kernel⟩
    (by decide +kernel) (by decide +kernel) .name (by decide +kernel)
  refine Eq.trans ?_ (hname.trans ?_)
  · rfl
  · decide +kernel

/-- A file in which the Coordinate field is nearly full. -/
def nearlyFull : UInt64 := 0xFFFF600000

/-- The Coordinate LSA is not served under the number that was announced. -/
theorem not_announced_is_served :
    let s := (start { network := [⟨"a"⟩] } KeyedList.empty KeyedList.empty (some nearlyFull)
      0).initializeNlsr
    let t := s.step ⟨0, id, id, id, id⟩ .publishRoutingUpdate
    s.Regular ⟨0, id, id, id, id⟩ .publishRoutingUpdate ∧
      ∃ p, t.published = s.published ++ [p] ∧
        (t.lsaOf .cor t.routerPrefix).map AnyLsa.lsSeqNo = some (2 ^ 20 + 1) ∧
        announcedSeqNo p .cor = 1 ∧
        t.processInterest plainText (t.confParam.updatePrefix ++
          [Counter.component .cor, Component.fromNumber (announcedSeqNo p .cor)]) = none := by
  refine ⟨⟨trivial, fun c => Or.inr rfl⟩, 12094628954122, ?_, ?_, ?_, ?_⟩
  · decide +kernel
  · decide +kernel
  · decide +kernel
  · decide +kernel

end Nlsr

end LinkState
