import LinkState.Fetching
import LinkState.Naming
import LinkState.Restart
import LinkState.Sync.Socket

/-!
# What a router makes of sync updates

A sync update is the update prefix of a router and its combined number. The number is split, and
each kind of LSA that is newer than the one in the LSDB is asked for by the name
`<update prefix>/<kind>/<number>`. Updates whose name has no origin are left alone, and so are the
own ones.

* `publishSyncUpdate_eq`: a router publishes under its update prefix.
* `onNsyncUpdate_eq`: what is asked for, update by update and kind by kind.
* `mem_requestsFor`: of an update of a configured router exactly the newer kinds are asked for, by
  the names that this router serves.
-/

namespace LinkState

open Sync SequencingManager

structure SyncUpdate where
  name : Name
  seqManager : SequencingManager

namespace SyncUpdate

def ofSeqNo (name : Name) (seqNo : UInt64) : SyncUpdate := ⟨name, SequencingManager.ofCombined seqNo⟩

/-- `none` where it throws. -/
def getOriginRouter (update : SyncUpdate) : Option Name := LinkState.getOriginRouter update.name

def getNameLsaSeqNo (update : SyncUpdate) : UInt64 := update.seqManager.nameLsaSeq
def getAdjLsaSeqNo (update : SyncUpdate) : UInt64 := update.seqManager.adjLsaSeq
def getCorLsaSeqNo (update : SyncUpdate) : UInt64 := update.seqManager.corLsaSeq

/-- The number of a kind. -/
def seqNoOf (update : SyncUpdate) (c : Counter) : UInt64 := update.seqManager.counter c

@[simp] theorem seqNoOf_ofSeqNo (name : Name) (seqNo : UInt64) (c : Counter) :
    (ofSeqNo name seqNo).seqNoOf c = announcedSeqNo seqNo c := rfl

end SyncUpdate

namespace SyncLogicHandler

/-! ## Updates from others -/

def isLsaNew (s : Nlsr) (originRouter : Name) (lsaType : String) (seqNo : UInt64) : Bool :=
  let lsaKey := originRouter ++ [⟨lsaType⟩]
  if lsaType = NameLsa.typeString then s.lsdb.isNameLsaNew lsaKey seqNo
  else if lsaType = AdjLsa.typeString then s.lsdb.isAdjLsaNew lsaKey seqNo
  else if lsaType = CoordinateLsa.typeString then s.lsdb.isCoordinateLsaNew lsaKey seqNo
  else false

def expressInterestForLsa (f : LsaFetcher) (update : SyncUpdate) (lsaType : String)
    (seqNo : UInt64) : LsaFetcher :=
  f.expressInterestForLsa (update.name ++ [⟨lsaType⟩]) seqNo

/-- Neither an update without an origin nor one of this router itself is looked at. -/
def processUpdateFromSync (s : Nlsr) (f : LsaFetcher) (update : SyncUpdate) : LsaFetcher :=
  match update.getOriginRouter with
  | none => f
  | some originRouter =>
    if originRouter ≠ s.confParam.routerPrefix then
      let f :=
        if isLsaNew s originRouter NameLsa.typeString update.getNameLsaSeqNo then
          expressInterestForLsa f update NameLsa.typeString update.getNameLsaSeqNo
        else f
      let f :=
        if isLsaNew s originRouter AdjLsa.typeString update.getAdjLsaSeqNo then
          expressInterestForLsa f update AdjLsa.typeString update.getAdjLsaSeqNo
        else f
      if isLsaNew s originRouter CoordinateLsa.typeString update.getCorLsaSeqNo then
        expressInterestForLsa f update CoordinateLsa.typeString update.getCorLsaSeqNo
      else f
    else f

/-- Update by update; `none` where an exception escapes, because a prefix is no name. -/
def onNsyncUpdate (lib : TextLib) (s : Nlsr) (f : LsaFetcher) (v : List MissingDataInfo) :
    Option LsaFetcher :=
  v.foldlM (fun f mdi => do
    let name ← nameOf lib mdi.namePrefix
    return processUpdateFromSync s f (SyncUpdate.ofSeqNo name mdi.high.seq)) f

/-! ## Updates of this router -/

/-- `none` where the URI of the update prefix is no name. -/
def publishSyncUpdate (lib : TextLib) {H : HashFunction} (socket : SyncSocket H)
    (updatePrefix : Name) (seqNo : UInt64) : Option (SyncSocket H) :=
  (nameOf lib (uriOf lib updatePrefix)).map fun name =>
    socket.publishData name 0 "NoData".toList seqNo

theorem publishSyncUpdate_eq {lib : TextLib} (h : lib.RoundTrips) {H : HashFunction}
    (socket : SyncSocket H) (updatePrefix : Name) (seqNo : UInt64) :
    publishSyncUpdate lib socket updatePrefix seqNo =
      some (socket.publishData updatePrefix 0 "NoData".toList seqNo) := by
  simp [publishSyncUpdate, nameOf_uriOf h]

/-! ## What is asked for -/

/-- The kinds, in the order in which they are asked for. -/
def kinds : List Counter := [.name, .adj, .cor]

theorem mem_kinds (c : Counter) : c ∈ kinds := by cases c <;> simp [kinds]

/-- The LSAs that are asked for on an update: the name of each and its number. -/
def requestsFor (s : Nlsr) (update : SyncUpdate) : List (Name × UInt64) :=
  match update.getOriginRouter with
  | none => []
  | some originRouter =>
    if originRouter = s.confParam.routerPrefix then []
    else
      (kinds.filter fun c => s.isLsaNew ⟨originRouter, c, update.seqNoOf c⟩).map fun c =>
        (update.name ++ [c.component], update.seqNoOf c)

theorem isLsaNew_eq (s : Nlsr) (originRouter : Name) (c : Counter) (seqNo : UInt64) :
    isLsaNew s originRouter c.typeString seqNo = s.isLsaNew ⟨originRouter, c, seqNo⟩ := by
  have hadj : AdjLsa.typeString ≠ NameLsa.typeString := by decide
  have hcor : CoordinateLsa.typeString ≠ NameLsa.typeString := by decide
  have hcor' : CoordinateLsa.typeString ≠ AdjLsa.typeString := by decide
  cases c with
  | name =>
    simp [isLsaNew, Nlsr.isLsaNew, Counter.typeString, Lsdb.isNameLsaNew, Nlsr.lsaOf,
      Function.comp_def, AnyLsa.lsSeqNo, NameLsa.key]
  | adj =>
    simp [isLsaNew, Nlsr.isLsaNew, Counter.typeString, hadj, Lsdb.isAdjLsaNew, Nlsr.lsaOf,
      Function.comp_def, AnyLsa.lsSeqNo, AdjLsa.key]
  | cor =>
    simp [isLsaNew, Nlsr.isLsaNew, Counter.typeString, hcor, hcor', Lsdb.isCoordinateLsaNew,
      Nlsr.lsaOf, Function.comp_def, AnyLsa.lsSeqNo, CoordinateLsa.key]

/-- Ask for one LSA after the other. -/
def ask (f : LsaFetcher) (requests : List (Name × UInt64)) : LsaFetcher :=
  run LsaFetcher.step f (requests.map fun r => .syncUpdate r.1 r.2)

theorem ask_append (f : LsaFetcher) (rs rs' : List (Name × UInt64)) :
    ask f (rs ++ rs') = ask (ask f rs) rs' := by
  simp [ask, run_append]

theorem passed_ask {f : LsaFetcher} (h : f.Inv) (requests : List (Name × UInt64)) :
    (ask f requests).passed = f.passed ++ requests := by
  induction requests generalizing f with
  | nil => exact (List.append_nil _).symm
  | cons r requests ih =>
    have hone : (f.step (.syncUpdate r.1 r.2)).passed = f.passed ++ [r] := by
      have hframe := (LsaFetcher.expresses_expressInterestForLsa h r.1 r.2).frame
      exact congrArg LsaFetcher.passed hframe
    show (ask (f.step (.syncUpdate r.1 r.2)) requests).passed = _
    rw [ih (LsaFetcher.inv_step h _), hone, List.append_assoc, List.singleton_append]

theorem processUpdateFromSync_eq (s : Nlsr) (f : LsaFetcher) (update : SyncUpdate) :
    processUpdateFromSync s f update = ask f (requestsFor s update) := by
  unfold processUpdateFromSync requestsFor
  cases update.getOriginRouter with
  | none => rfl
  | some o =>
    have hname : isLsaNew s o NameLsa.typeString update.getNameLsaSeqNo =
        s.isLsaNew ⟨o, .name, update.seqNoOf .name⟩ := isLsaNew_eq s o .name _
    have hadj : isLsaNew s o AdjLsa.typeString update.getAdjLsaSeqNo =
        s.isLsaNew ⟨o, .adj, update.seqNoOf .adj⟩ := isLsaNew_eq s o .adj _
    have hcor : isLsaNew s o CoordinateLsa.typeString update.getCorLsaSeqNo =
        s.isLsaNew ⟨o, .cor, update.seqNoOf .cor⟩ := isLsaNew_eq s o .cor _
    by_cases ho : o = s.confParam.routerPrefix
    · simp [ho, ask]
    · simp only [ne_eq, ho, not_false_eq_true, if_true, if_false, hname, hadj, hcor, kinds,
        List.filter_cons, List.filter_nil]
      cases s.isLsaNew ⟨o, .name, update.seqNoOf .name⟩ <;>
        cases s.isLsaNew ⟨o, .adj, update.seqNoOf .adj⟩ <;>
        cases s.isLsaNew ⟨o, .cor, update.seqNoOf .cor⟩ <;> rfl

/-- The updates in what the sync socket reports. -/
def updatesOf (lib : TextLib) (v : List MissingDataInfo) : Option (List SyncUpdate) :=
  v.mapM fun mdi => (nameOf lib mdi.namePrefix).map fun name => .ofSeqNo name mdi.high.seq

theorem updatesOf_cons (lib : TextLib) (mdi : MissingDataInfo) (v : List MissingDataInfo) :
    updatesOf lib (mdi :: v) = (nameOf lib mdi.namePrefix).bind fun name =>
      (updatesOf lib v).map fun updates => .ofSeqNo name mdi.high.seq :: updates := by
  unfold updatesOf
  rw [List.mapM_cons]
  cases nameOf lib mdi.namePrefix with
  | none => rfl
  | some name => simp [Option.map_eq_bind]

/-- **What is asked for on a report**, update by update. -/
theorem onNsyncUpdate_eq (lib : TextLib) (s : Nlsr) (f : LsaFetcher) (v : List MissingDataInfo) :
    onNsyncUpdate lib s f v =
      (updatesOf lib v).map fun updates => ask f (updates.flatMap (requestsFor s)) := by
  induction v generalizing f with
  | nil => rfl
  | cons mdi v ih =>
    rw [updatesOf_cons]
    unfold onNsyncUpdate at *
    rw [List.foldlM_cons]
    cases nameOf lib mdi.namePrefix with
    | none => rfl
    | some name =>
      simp only [Option.bind_eq_bind, Option.bind_some, Option.pure_def]
      refine (ih _).trans ?_
      rw [processUpdateFromSync_eq, Option.map_map]
      congr 1
      funext updates
      rw [Function.comp_apply, List.flatMap_cons, ask_append]

/-! ## Updates of configured routers -/

/-- An update of the router with this configuration. -/
def updateOf (conf : ConfParameter) (seqNo : UInt64) : SyncUpdate :=
  .ofSeqNo conf.updatePrefix seqNo

/-- A report of configured routers is one of their updates. -/
theorem updatesOf_eq {lib : TextLib} (h : lib.RoundTrips) {conf : MissingDataInfo → ConfParameter}
    {v : List MissingDataInfo}
    (hv : ∀ mdi ∈ v, mdi.namePrefix = uriOf lib (conf mdi).updatePrefix) :
    updatesOf lib v = some (v.map fun mdi => updateOf (conf mdi) mdi.high.seq) := by
  induction v with
  | nil => rfl
  | cons mdi v ih =>
    rw [updatesOf_cons, hv mdi List.mem_cons_self, nameOf_uriOf h,
      ih fun mdi' hmdi => hv mdi' (List.mem_cons_of_mem _ hmdi)]
    rfl

/-- **Of an update of another router the newer kinds are asked for**, by the names that this
router serves. -/
theorem mem_requestsFor {s : Nlsr} {conf : ConfParameter}
    (hNLSR : (⟨"NLSR"⟩ : Component) ∉ conf.network) (hLSA : (⟨"LSA"⟩ : Component) ∉ conf.network)
    {seqNo : UInt64} {r : Name × UInt64} :
    r ∈ requestsFor s (updateOf conf seqNo) ↔
      conf.routerPrefix ≠ s.confParam.routerPrefix ∧
        ∃ c, s.isLsaNew (conf.lsaId c (announcedSeqNo seqNo c)) ∧
          r = (conf.updatePrefix ++ [c.component], announcedSeqNo seqNo c) := by
  have horigin : (updateOf conf seqNo).getOriginRouter = some conf.routerPrefix :=
    getOriginRouter_updatePrefix hNLSR hLSA
  unfold requestsFor
  rw [horigin]
  by_cases ho : conf.routerPrefix = s.confParam.routerPrefix
  · simp [ho]
  · simp only [ho, if_false, List.mem_map, List.mem_filter, mem_kinds, true_and, ne_eq,
      not_false_eq_true]
    constructor
    · intro h
      obtain ⟨c, hc, rfl⟩ := h
      exact ⟨c, hc, rfl⟩
    · intro h
      obtain ⟨c, hc, rfl⟩ := h
      exact ⟨c, hc, rfl⟩

end SyncLogicHandler

end LinkState
