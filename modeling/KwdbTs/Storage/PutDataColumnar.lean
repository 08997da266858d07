import KwdbTs.Storage.Basic
import KwdbTs.Storage.PayloadSlice

/-!
# The write loop of `putDataColumnar`

`TsEntityGroup::putDataColumnar` (ts_table.cpp) cuts a payload with `payloadNextSlice`, takes the
partition of each slice with `GetPartitionTable`, writes the slice with `push_back_payload`,
records the reserved spans per partition with `recordPutAfterProInfo`, and after the loop hands
them to `publish_payload_space` through `putAfterProcess`. The partition-table calls are not in
the sources: their outcomes are chosen per call by a `WriteEnv`.
-/

namespace KwdbTs.Storage

/-- What one `GetPartitionTable(last_p_time, group_id, err_info, true)` call does. -/
inductive GetPartitionOutcome
  /-- It fails with the negative code `code` in `err_info` and takes no reference. -/
  | fail (code : Int) (neg : code < 0)
  /-- It returns `part` with a new reference; `valid` is `p_bt->isValid()`, and `clearsError`
  says whether it resets `err_info.errcode` to `0`. -/
  | ok (part : PartitionId) (valid : Bool) (clearsError : Bool)

/-- What one `push_back_payload` call returns: its code and what it reports in `cur_alloc_spans`
and `to_deleted_real_rows`, which it fills also when it fails. -/
structure PushOutcome where
  errcode : Int
  allocSpans : List BlockSpan
  deletedRows : List MetricRowID

/-- The outcomes of the calls `putDataColumnar` makes; the `n`-th call of a kind gets the outcome
at `n`, so every sequence of outcomes is covered. -/
structure WriteEnv where
  getPartitionTable : Nat → Int → GetPartitionOutcome
  pushBackPayload : Nat → PartitionId → Nat → Nat → PushOutcome

structure PutAfterProcessInfo where
  spans : List BlockSpan
  delRealRows : List MetricRowID

/-- A slice handed to `push_back_payload` on `part`, with what the call reported. -/
structure PushCall where
  part : PartitionId
  run : RowRun
  outcome : PushOutcome

/-- One `publish_payload_space(spans, del_real_rows, entity_id, success)` call on `part`. -/
structure PublishCall where
  part : PartitionId
  spans : List BlockSpan
  delRealRows : List MetricRowID
  success : Bool

/-- The `after_process_info` map, as its entries in insertion order. -/
abbrev AfterProcessMap := List (PartitionId × PutAfterProcessInfo)

/-- The map update of `recordPutAfterProInfo`: the spans and rows are appended to the entry of
`part`, which is created when missing. -/
def mergeAfterProcessInfo (info : AfterProcessMap) (part : PartitionId) (spans : List BlockSpan)
    (rows : List MetricRowID) : AfterProcessMap :=
  if info.any (·.1 = part) then
    info.map fun e => if e.1 = part then (part, ⟨e.2.spans ++ spans, e.2.delRealRows ++ rows⟩) else e
  else info ++ [(part, ⟨spans, rows⟩)]

/-- `recordPutAfterProInfo`: a partition already in the map gives back the reference just taken. -/
def recordPutAfterProInfo (info : AfterProcessMap) (refs : List PartitionRef) (part : PartitionId)
    (spans : List BlockSpan) (rows : List MetricRowID) : AfterProcessMap × List PartitionRef :=
  (mergeAfterProcessInfo info part spans rows,
    if info.any (·.1 = part) then refs ++ [.release part] else refs)

/-- `putAfterProcess`: one publish call and one release per entry of the map. The iteration order
of the `unordered_map` is unspecified; the model takes insertion order, and every statement
below is about one partition at a time. -/
def putAfterProcess (info : AfterProcessMap) (allSuccess : Bool) (refs : List PartitionRef) :
    List PublishCall × List PartitionRef :=
  (info.map fun e => ⟨e.1, e.2.spans, e.2.delRealRows, allSuccess⟩,
    refs ++ info.map fun e => .release e.1)

/-- The variables of the loop, with logs of the calls it made. `getCalls` holds, per
`GetPartitionTable` call, the partition time asked for and `err_info.errcode` right after. -/
structure PutState where
  lastPTime : Int
  batchStart : Nat
  allSuccess : Bool
  errcode : Int
  rootMinTs : Int
  rootMaxTs : Int
  afterProcessInfo : AfterProcessMap
  getCalls : List (Int × Int)
  pushCalls : List PushCall
  refs : List PartitionRef

/-- How one pass of the `while` loop ends. -/
inductive PutStep
  | exit (st : PutState)
  | next (st : PutState)

section Loop

variable (env : WriteEnv) (pt : Nat → Int) (rowCount : Nat) (dedupReject : Int)

/-- The root table's bounds after a slice whose next partition time is `pTime`. -/
def updateRootBounds (st : PutState) (pTime : Int) : PutState :=
  { st with
    rootMinTs := if st.rootMinTs = 0 ∨ st.rootMinTs > pTime then pTime else st.rootMinTs
    rootMaxTs := if st.rootMaxTs < pTime then pTime else st.rootMaxTs }

/-- The write of one slice `[batch_start, rowId)` on a valid partition `part`. -/
def writeSlice (st : PutState) (part : PartitionId) (rowId : Nat) (pTime : Int) : PutStep :=
  let out := env.pushBackPayload st.pushCalls.length part st.batchStart (rowId - st.batchStart)
  let recorded := recordPutAfterProInfo st.afterProcessInfo st.refs part out.allocSpans
    out.deletedRows
  let st' := { updateRootBounds st pTime with
    lastPTime := pTime
    errcode := out.errcode
    afterProcessInfo := recorded.1
    refs := recorded.2
    pushCalls := st.pushCalls ++ [PushCall.mk part ⟨st.lastPTime, st.batchStart, rowId⟩ out] }
  if out.errcode < 0 then .exit { st' with allSuccess := false }
  else .next { st' with batchStart := rowId }

/-- One pass of the `while (payloadNextSlice(...))` loop. -/
def putStep (st : PutState) : PutStep :=
  match nextSlice pt rowCount st.lastPTime st.batchStart with
  | none => .exit st
  | some (rowId, pTime) =>
    match env.getPartitionTable st.getCalls.length st.lastPTime with
    | .fail code _ =>
      .exit { st with
        errcode := code
        allSuccess := false
        getCalls := st.getCalls ++ [(st.lastPTime, code)] }
    | .ok part valid clearsError =>
      let err := if clearsError then 0 else st.errcode
      let st := { st with
        errcode := err
        getCalls := st.getCalls ++ [(st.lastPTime, err)]
        refs := st.refs ++ [.acquire part] }
      if err < 0 then .exit { st with allSuccess := false }
      else if !valid then .next { st with errcode := dedupReject }
      else writeSlice env st part rowId pTime

/-- The loop, with `fuel` passes; `none` when the fuel runs out. -/
def putLoop : Nat → PutState → Option PutState
  | 0, _ => none
  | fuel + 1, st =>
    match putStep env pt rowCount dedupReject st with
    | .exit st => some st
    | .next st => putLoop fuel st

end Loop

/-- What `putDataColumnar` leaves behind: its status, the publish calls and the reference log of
`putAfterProcess`, and the loop's final variables. -/
structure PutResult where
  status : KStatus
  publishes : List PublishCall
  refs : List PartitionRef
  final : PutState

/-- The loop's variables before the first pass: `last_p_time` is the partition time of the first
row, and `err_info` starts clear. -/
def putInit (pt : Nat → Int) (payload : Payload) (rootMinTs rootMaxTs : Int) : PutState :=
  { lastPTime := pt payload.startRowId, batchStart := payload.startRowId, allSuccess := true,
    errcode := 0, rootMinTs := rootMinTs, rootMaxTs := rootMaxTs, afterProcessInfo := [],
    getCalls := [], pushCalls := [], refs := [] }

/--
`putDataColumnar` after `GetSubGroup` succeeded, run with `fuel` passes of its loop; `none` when
the fuel runs out. `DEDUPREJECT`, a constant not in the sources, is `dedupReject`.
-/
def putDataColumnar (env : WriteEnv) (partitionTime : Int → Int) (dedupReject : Int)
    (payload : Payload) (rootMinTs rootMaxTs : Int) (fuel : Nat) : Option PutResult :=
  let pt := rowPartitionTime partitionTime payload
  (putLoop env pt payload.getRowCount dedupReject fuel
      (putInit pt payload rootMinTs rootMaxTs)).map fun st =>
    let after := putAfterProcess st.afterProcessInfo st.allSuccess st.refs
    { status := if !st.allSuccess && st.errcode ≠ dedupReject then .fail else .success,
      publishes := after.1, refs := after.2, final := st }

/-- `info` holds, for each partition in it, the spans and rows the slices written there
reported, and it holds every partition a slice was written to. -/
structure Tracks (info : AfterProcessMap) (pushes : List PushCall) : Prop where
  nodup : (info.map (·.1)).Nodup
  spans : ∀ e ∈ info,
    e.2.spans = (pushes.filter (·.part = e.1)).flatMap (·.outcome.allocSpans)
  rows : ∀ e ∈ info,
    e.2.delRealRows = (pushes.filter (·.part = e.1)).flatMap (·.outcome.deletedRows)
  covered : ∀ c ∈ pushes, c.part ∈ info.map (·.1)

namespace Tracks

variable {info : AfterProcessMap} {pushes : List PushCall}

theorem nil : Tracks [] [] := ⟨List.nodup_nil, by simp, by simp, by simp⟩

theorem filter_eq_nil (h : Tracks info pushes)
    {part : PartitionId} (hpart : part ∉ info.map (·.1)) : pushes.filter (·.part = part) = [] :=
  List.filter_eq_nil_iff.mpr fun c hc heq => hpart (of_decide_eq_true heq ▸ h.covered c hc)

/-- `recordPutAfterProInfo` keeps the map in step with the slices written. -/
theorem merge (h : Tracks info pushes)
    (c : PushCall) :
    Tracks (mergeAfterProcessInfo info c.part c.outcome.allocSpans c.outcome.deletedRows)
      (pushes ++ [c]) := by
  unfold mergeAfterProcessInfo
  split_ifs with hin
  · have hkeys : ∀ e : PartitionId × PutAfterProcessInfo,
        (if e.1 = c.part then (c.part, (⟨e.2.spans ++ c.outcome.allocSpans,
          e.2.delRealRows ++ c.outcome.deletedRows⟩ : PutAfterProcessInfo)) else e).1 = e.1 := by
      intro e; split_ifs with he <;> simp [he]
    have hin' : c.part ∈ info.map (·.1) := by
      obtain ⟨e, he, hpe⟩ := List.any_eq_true.mp hin
      exact List.mem_map.mpr ⟨e, he, of_decide_eq_true hpe⟩
    refine ⟨by simpa [List.map_map, Function.comp_def, hkeys] using h.nodup, ?_, ?_, ?_⟩
    · simp only [List.mem_map]
      rintro _ ⟨e, he, rfl⟩
      split_ifs with hpart
      · simp [List.filter_append, hpart, h.spans e he]
      · simp [List.filter_append, Ne.symm hpart, h.spans e he]
    · simp only [List.mem_map]
      rintro _ ⟨e, he, rfl⟩
      split_ifs with hpart
      · simp [List.filter_append, hpart, h.rows e he]
      · simp [List.filter_append, Ne.symm hpart, h.rows e he]
    · intro c' hc'
      simp only [List.map_map, Function.comp_def, hkeys]
      rcases List.mem_append.mp hc' with hc' | hc'
      · exact h.covered c' hc'
      · exact List.mem_singleton.mp hc' ▸ hin'
  · have hout : c.part ∉ info.map (·.1) := fun hm => hin <| by
      obtain ⟨e, he, hpe⟩ := List.mem_map.mp hm
      exact List.any_eq_true.mpr ⟨e, he, decide_eq_true hpe⟩
    have hnil := h.filter_eq_nil hout
    have hne : ∀ e ∈ info, c.part ≠ e.1 := fun e he heq => hout (heq ▸ List.mem_map_of_mem _ he)
    refine ⟨?_, ?_, ?_, ?_⟩
    · rw [List.map_append]
      exact List.nodup_append.mpr ⟨h.nodup, List.nodup_singleton _,
        List.disjoint_singleton.mpr hout⟩
    · intro e he
      rcases List.mem_append.mp he with he | he
      · simp [List.filter_append, hne e he, h.spans e he]
      · simp [List.mem_singleton.mp he, List.filter_append, hnil]
    · intro e he
      rcases List.mem_append.mp he with he | he
      · simp [List.filter_append, hne e he, h.rows e he]
      · simp [List.mem_singleton.mp he, List.filter_append, hnil]
    · intro c' hc'
      rw [List.map_append]
      rcases List.mem_append.mp hc' with hc' | hc'
      · exact List.mem_append_left _ (h.covered c' hc')
      · exact List.mem_append_right _ (by simp [List.mem_singleton.mp hc'])

/-- A map with distinct keys has at most one entry for a partition. -/
theorem filter_key_eq {info : AfterProcessMap} (hnd : (info.map (·.1)).Nodup)
    (part : PartitionId) :
    info.filter (·.1 = part) = [] ∨ ∃ e ∈ info, e.1 = part ∧ info.filter (·.1 = part) = [e] := by
  induction info with
  | nil => exact Or.inl rfl
  | cons x info ih =>
    rw [List.map_cons, List.nodup_cons] at hnd
    by_cases hx : x.1 = part
    · refine Or.inr ⟨x, List.mem_cons_self _ _, hx, ?_⟩
      rw [List.filter_cons_of_pos (by simpa using hx), List.filter_eq_nil_iff.mpr]
      exact fun e he hep => hnd.1 (hx ▸ of_decide_eq_true hep ▸ List.mem_map_of_mem _ he)
    · rw [List.filter_cons_of_neg (by simpa using hx)]
      exact (ih hnd.2).imp_right fun ⟨e, he, hep, hf⟩ => ⟨e, List.mem_cons_of_mem _ he, hep, hf⟩

/-- `putAfterProcess` hands each partition's tracked spans and rows to one publish call. -/
theorem publish (h : Tracks info pushes) (success : Bool) (refs : List PartitionRef)
    (part : PartitionId) :
    ((putAfterProcess info success refs).1.filter (·.part = part)).length ≤ 1 ∧
    ((putAfterProcess info success refs).1.filter (·.part = part)).flatMap (·.spans) =
      (pushes.filter (·.part = part)).flatMap (·.outcome.allocSpans) ∧
    ((putAfterProcess info success refs).1.filter (·.part = part)).flatMap (·.delRealRows) =
      (pushes.filter (·.part = part)).flatMap (·.outcome.deletedRows) := by
  simp only [putAfterProcess, List.filter_map, Function.comp_def]
  rcases filter_key_eq h.nodup part with hf | ⟨e, he, rfl, hf⟩
  · have hout : part ∉ info.map (·.1) := fun hm => by
      obtain ⟨e, he, rfl⟩ := List.mem_map.mp hm
      exact List.filter_eq_nil_iff.mp hf e he (decide_eq_true rfl)
    simp [hf, h.filter_eq_nil hout]
  · simp [hf, h.spans e he, h.rows e he]

end Tracks

/-- The reading of a pass's outcome. -/
def PutStep.state : PutStep → PutState
  | .exit st => st
  | .next st => st

section LoopInvariants

variable {env : WriteEnv} {pt : Nat → Int} {rowCount : Nat} {dedupReject : Int}

/-- What holds of every state the loop can exit with, given an invariant of its passes. -/
theorem putLoop_invariant {P Q : PutState → Prop}
    (hnext : ∀ st st', P st → putStep env pt rowCount dedupReject st = .next st' → P st')
    (hexit : ∀ st st', P st → putStep env pt rowCount dedupReject st = .exit st' → Q st') :
    ∀ {fuel : Nat} {st r : PutState}, P st → putLoop env pt rowCount dedupReject fuel st = some r →
      Q r := by
  intro fuel
  induction fuel with
  | zero => intro st r _ h; simp [putLoop] at h
  | succ fuel ih =>
    intro st r hP h
    simp only [putLoop] at h
    split at h
    · next st' hs => exact Option.some.inj h ▸ hexit st st' hP hs
    · next st' hs => exact ih (hnext st st' hP hs) h

/-- A slice write appends its push call and merges what the call reported into the map. -/
theorem writeSlice_push (st : PutState) (part : PartitionId) (rowId : Nat) (pTime : Int) :
    ∃ c, (writeSlice env st part rowId pTime).state.pushCalls = st.pushCalls ++ [c] ∧
      (writeSlice env st part rowId pTime).state.afterProcessInfo =
        mergeAfterProcessInfo st.afterProcessInfo c.part c.outcome.allocSpans
          c.outcome.deletedRows := by
  unfold writeSlice
  dsimp only
  split <;> exact ⟨_, rfl, rfl⟩

/-- A pass either writes no slice and keeps the map, or writes one slice and merges what it
reported into the map. -/
theorem putStep_push_shape {st : PutState} :
    ((putStep env pt rowCount dedupReject st).state.pushCalls = st.pushCalls ∧
      (putStep env pt rowCount dedupReject st).state.afterProcessInfo = st.afterProcessInfo) ∨
    ∃ c, (putStep env pt rowCount dedupReject st).state.pushCalls = st.pushCalls ++ [c] ∧
      (putStep env pt rowCount dedupReject st).state.afterProcessInfo =
        mergeAfterProcessInfo st.afterProcessInfo c.part c.outcome.allocSpans
          c.outcome.deletedRows := by
  unfold putStep
  split
  · exact Or.inl ⟨rfl, rfl⟩
  · split
    · exact Or.inl ⟨rfl, rfl⟩
    · rename_i clearsError _
      dsimp only
      generalize (if clearsError then (0 : Int) else st.errcode) = err
      split_ifs
      · exact Or.inl ⟨rfl, rfl⟩
      · exact Or.inl ⟨rfl, rfl⟩
      · exact Or.inr (writeSlice_push _ _ _ _)

theorem putStep_tracks {st : PutState} (h : Tracks st.afterProcessInfo st.pushCalls) :
    Tracks (putStep env pt rowCount dedupReject st).state.afterProcessInfo
      (putStep env pt rowCount dedupReject st).state.pushCalls := by
  rcases (putStep_push_shape : _ ∨ ∃ c, (putStep env pt rowCount dedupReject st).state.pushCalls =
      _ ∧ _) with ⟨hp, hi⟩ | ⟨c, hp, hi⟩
  · rw [hp, hi]; exact h
  · rw [hp, hi]; exact h.merge c

/-- No check of the loop has failed: each `GetPartitionTable` call left a non-negative
`err_info.errcode`, and each `push_back_payload` call returned a non-negative code. -/
def ChecksPassed (st : PutState) : Prop :=
  (∀ g ∈ st.getCalls, 0 ≤ g.2) ∧ ∀ c ∈ st.pushCalls, 0 ≤ c.outcome.errcode

/-- The success flag agrees with the checks: while the loop runs they have all passed, and when
it exits the flag says whether they did. -/
def FlagAgrees : PutStep → Prop
  | .next st => st.allSuccess = true ∧ ChecksPassed st
  | .exit st => st.allSuccess = true ↔ ChecksPassed st

/-- A slice write keeps the flag in step with the checks: it clears the flag exactly when
`push_back_payload` fails. -/
theorem writeSlice_flagAgrees {st : PutState} (hs : st.allSuccess = true)
    (hc : ChecksPassed st) (part : PartitionId) (rowId : Nat) (pTime : Int) :
    FlagAgrees (writeSlice env st part rowId pTime) := by
  unfold writeSlice
  dsimp only
  split_ifs with h
  · simp only [FlagAgrees, ChecksPassed, updateRootBounds, List.forall_mem_append,
      List.forall_mem_singleton, Bool.false_eq_true, false_iff, not_and, not_le]
    exact fun _ _ => h
  · simp only [FlagAgrees, ChecksPassed, updateRootBounds, List.forall_mem_append,
      List.forall_mem_singleton]
    exact ⟨hs, hc.1, hc.2, not_lt.mp h⟩

theorem putStep_flagAgrees {st : PutState} (hs : st.allSuccess = true) (hc : ChecksPassed st) :
    FlagAgrees (putStep env pt rowCount dedupReject st) := by
  obtain ⟨hg, hp⟩ := hc
  unfold putStep
  split
  · exact iff_of_true hs ⟨hg, hp⟩
  · split
    · simp only [FlagAgrees, ChecksPassed, List.forall_mem_append, List.forall_mem_singleton,
        Bool.false_eq_true, false_iff, not_and, not_le]
      exact fun _ _ => by omega
    · rename_i clearsError _
      dsimp only
      generalize (if clearsError then (0 : Int) else st.errcode) = err
      have hget : ¬err < 0 → ∀ g ∈ st.getCalls ++ [(st.lastPTime, err)], 0 ≤ g.2 := fun h =>
        List.forall_mem_append.mpr ⟨hg, List.forall_mem_singleton.mpr (not_lt.mp h)⟩
      split_ifs with herr
      · exact iff_of_false (fun h => Bool.noConfusion h) fun h =>
          absurd (h.1 _ (List.mem_append_right _ (List.mem_singleton_self _))) (not_le.mpr herr)
      · exact ⟨hs, hget herr, hp⟩
      · refine writeSlice_flagAgrees ?_ ?_ _ _ _
        exacts [hs, ⟨hget herr, hp⟩]

/-- The invariant of the loop's passes: the flag is still set, no check has failed, and the map
tracks the slices written. -/
def PassInvariant (st : PutState) : Prop :=
  st.allSuccess = true ∧ ChecksPassed st ∧ Tracks st.afterProcessInfo st.pushCalls

/-- What holds when the loop exits. -/
def ExitInvariant (st : PutState) : Prop :=
  (st.allSuccess = true ↔ ChecksPassed st) ∧ Tracks st.afterProcessInfo st.pushCalls

theorem putLoop_exitInvariant {fuel : Nat} {st r : PutState} (h : PassInvariant st)
    (hr : putLoop env pt rowCount dedupReject fuel st = some r) : ExitInvariant r := by
  refine putLoop_invariant (fun st st' hP hs => ?_) (fun st st' hP hs => ?_) h hr
  all_goals
    have hf : FlagAgrees (putStep env pt rowCount dedupReject st) := putStep_flagAgrees hP.1 hP.2.1
    have ht : Tracks (putStep env pt rowCount dedupReject st).state.afterProcessInfo
      (putStep env pt rowCount dedupReject st).state.pushCalls := putStep_tracks hP.2.2
    rw [hs] at hf ht
  · exact ⟨hf.1, hf.2, ht⟩
  · exact ⟨hf, ht⟩

end LoopInvariants

/-- Every span and row the slices reported reaches exactly one publish call, on the partition that
reported it, and each call's `success` flag says whether every check of the loop passed. -/
def PublishesEachReservationOnce (r : PutResult) : Prop :=
  (∀ part, (r.publishes.filter (·.part = part)).length ≤ 1 ∧
    (r.publishes.filter (·.part = part)).flatMap (·.spans) =
      (r.final.pushCalls.filter (·.part = part)).flatMap (·.outcome.allocSpans) ∧
    (r.publishes.filter (·.part = part)).flatMap (·.delRealRows) =
      (r.final.pushCalls.filter (·.part = part)).flatMap (·.outcome.deletedRows)) ∧
  ∀ c ∈ r.publishes, c.success = true ↔ ChecksPassed r.final

/--
Every span and row a slice reports, the failing slice's included, reaches exactly one
`publish_payload_space` call, on the partition that reported it; and every publish call is told
`success` exactly when no check of the loop failed.
-/
theorem putDataColumnar_publishes_each_reservation_once {env : WriteEnv}
    {partitionTime : Int → Int} {dedupReject : Int} {payload : Payload} {rootMinTs rootMaxTs : Int}
    {fuel : Nat} {r : PutResult}
    (h : putDataColumnar env partitionTime dedupReject payload rootMinTs rootMaxTs fuel = some r) :
    PublishesEachReservationOnce r := by
  simp only [putDataColumnar, Option.map_eq_some'] at h
  obtain ⟨st, hst, rfl⟩ := h
  have hinit : PassInvariant (putInit (rowPartitionTime partitionTime payload) payload rootMinTs
      rootMaxTs) := ⟨rfl, ⟨by simp [putInit], by simp [putInit]⟩, by simpa [putInit] using Tracks.nil⟩
  obtain ⟨hflag, htracks⟩ := putLoop_exitInvariant hinit hst
  refine ⟨htracks.publish st.allSuccess st.refs, fun c hc => ?_⟩
  obtain ⟨e, -, rfl⟩ := List.mem_map.mp hc
  exact hflag

section AllValid

variable {env : WriteEnv} {pt : Nat → Int} {rowCount : Nat} {dedupReject : Int}
  {partOf : Int → PartitionId}

/-- Every `GetPartitionTable` call returns the valid partition `partOf pTime` of the partition
time asked for, and every `push_back_payload` call succeeds. -/
def AllValid (env : WriteEnv) (partOf : Int → PartitionId) : Prop :=
  (∀ n pTime, ∃ clearsError, env.getPartitionTable n pTime = .ok (partOf pTime) true clearsError) ∧
  ∀ n part start count, 0 ≤ (env.pushBackPayload n part start count).errcode

/-- A pass over valid partitions writes the slice `payloadNextSlice` found and moves on. -/
theorem putStep_allValid (h : AllValid env partOf) {st : PutState} (herr : 0 ≤ st.errcode)
    {e : Nat} {p : Int} (hslice : nextSlice pt rowCount st.lastPTime st.batchStart = some (e, p)) :
    ∃ out st', putStep env pt rowCount dedupReject st = .next st' ∧ 0 ≤ st'.errcode ∧
      st'.allSuccess = st.allSuccess ∧ st'.lastPTime = p ∧ st'.batchStart = e ∧
      st'.pushCalls = st.pushCalls ++
        [⟨partOf st.lastPTime, ⟨st.lastPTime, st.batchStart, e⟩, out⟩] ∧
      st'.afterProcessInfo = mergeAfterProcessInfo st.afterProcessInfo (partOf st.lastPTime)
        out.allocSpans out.deletedRows ∧
      st'.refs = (recordPutAfterProInfo st.afterProcessInfo
        (st.refs ++ [.acquire (partOf st.lastPTime)]) (partOf st.lastPTime) out.allocSpans
        out.deletedRows).2 := by
  obtain ⟨clearsError, hget⟩ := h.1 st.getCalls.length st.lastPTime
  have hpush := h.2 st.pushCalls.length (partOf st.lastPTime) st.batchStart (e - st.batchStart)
  have herr' : ¬ (if clearsError = true then (0 : Int) else st.errcode) < 0 := by
    split_ifs <;> omega
  simp only [putStep, hslice, hget, if_neg herr', Bool.not_true, Bool.false_eq_true, if_false,
    writeSlice, if_neg (not_lt.mpr hpush)]
  exact ⟨_, _, rfl, hpush, rfl, rfl, rfl, rfl, rfl, rfl⟩

/-- The references the loop holds: one for each partition in the map. -/
def RefsHeld (st : PutState) : Prop :=
  ∀ part, st.refs.count (.acquire part) =
    st.refs.count (.release part) + if part ∈ st.afterProcessInfo.map (·.1) then 1 else 0

theorem keys_mergeAfterProcessInfo (info : AfterProcessMap) (part : PartitionId)
    (spans : List BlockSpan) (rows : List MetricRowID) :
    (mergeAfterProcessInfo info part spans rows).map (·.1) =
      if info.any (·.1 = part) then info.map (·.1) else info.map (·.1) ++ [part] := by
  unfold mergeAfterProcessInfo
  split_ifs
  · simp only [List.map_map, Function.comp_def]
    congr 1; funext e; split_ifs with he <;> simp [he]
  · simp

/-- `recordPutAfterProInfo` keeps one reference per partition of the map: a partition seen again
gives back the reference just taken. -/
theorem refsHeld_record {info : AfterProcessMap} {refs : List PartitionRef}
    (h : ∀ q, refs.count (.acquire q) = refs.count (.release q) +
      if q ∈ info.map (·.1) then 1 else 0)
    (part : PartitionId) (spans : List BlockSpan) (rows : List MetricRowID) (q : PartitionId) :
    (recordPutAfterProInfo info (refs ++ [.acquire part]) part spans rows).2.count (.acquire q) =
      (recordPutAfterProInfo info (refs ++ [.acquire part]) part spans rows).2.count (.release q) +
      if q ∈ (mergeAfterProcessInfo info part spans rows).map (·.1) then 1 else 0 := by
  have hany : info.any (·.1 = part) = true ↔ part ∈ info.map (·.1) := by simp
  rw [keys_mergeAfterProcessInfo]
  simp only [recordPutAfterProInfo]
  by_cases hin : info.any (·.1 = part) = true
  · have hmem := hany.mp hin
    simp only [hin, if_true, List.count_append, h q]
    by_cases hq : q = part <;> simp [hq, hmem]
  · have hmem : part ∉ info.map (·.1) := fun hm => hin (hany.mpr hm)
    simp only [hin, if_false, Bool.false_eq_true, List.count_append, h q, List.mem_append,
      List.mem_singleton]
    by_cases hq : q = part
    · simp [hq, hmem]
    · simp only [hq, or_false]
      simp [List.count_cons, Ne.symm hq]

/-- The invariant of a run over valid partitions. -/
structure ValidRun (pt : Nat → Int) (rowCount : Nat) (partOf : Int → PartitionId)
    (st : PutState) : Prop where
  errcode_nonneg : 0 ≤ st.errcode
  allSuccess : st.allSuccess = true
  atRunStart : st.batchStart < rowCount → pt st.batchStart = st.lastPTime
  tracks : Tracks st.afterProcessInfo st.pushCalls
  refsHeld : RefsHeld st
  parts : ∀ c ∈ st.pushCalls, c.part = partOf c.run.pTime

theorem nextSlice_eq_none {lastPTime : Int} {startRow : Nat} (h : rowCount ≤ startRow) :
    nextSlice pt rowCount lastPTime startRow = none := if_pos h

/-- Over valid partitions the loop writes the slices of `sliceRuns` and ends with the flag set. -/
theorem putLoop_allValid (h : AllValid env partOf) :
    ∀ (f : Nat) (st : PutState), ValidRun pt rowCount partOf st → rowCount - st.batchStart ≤ f →
      ∃ st', putLoop env pt rowCount dedupReject (f + 1) st = some st' ∧
        ValidRun pt rowCount partOf st' ∧
        st'.pushCalls.map (·.run) =
          st.pushCalls.map (·.run) ++ sliceRuns pt rowCount f st.lastPTime st.batchStart := by
  intro f
  induction f with
  | zero =>
    intro st hv hfuel
    refine ⟨st, ?_, hv, by simp [sliceRuns]⟩
    simp [putLoop, putStep, nextSlice_eq_none (show rowCount ≤ st.batchStart by omega)]
  | succ f ih =>
    intro st hv hfuel
    by_cases hlt : st.batchStart < rowCount
    · obtain ⟨e, p, hslice, hbe, -, -, hnext, -⟩ := nextSlice_spec hlt (hv.atRunStart hlt)
      obtain ⟨out, st1, hstep, herr, hflag, hl, hb, hpush, hinfo, hrefs⟩ :=
        @putStep_allValid env pt rowCount dedupReject partOf h st hv.errcode_nonneg e p hslice
      have hv1 : ValidRun pt rowCount partOf st1 := by
        refine ⟨herr, hflag.trans hv.allSuccess, fun h1 => ?_, ?_, ?_, ?_⟩
        · rw [hb, hl]; exact ((hnext (hb ▸ h1)).2).symm
        · rw [hpush, hinfo]
          exact hv.tracks.merge ⟨partOf st.lastPTime, ⟨st.lastPTime, st.batchStart, e⟩, out⟩
        · intro q; rw [hrefs, hinfo]; exact refsHeld_record hv.refsHeld _ _ _ q
        · rw [hpush]; intro c hc
          rcases List.mem_append.mp hc with hc | hc
          · exact hv.parts c hc
          · rw [List.mem_singleton.mp hc]
      obtain ⟨st', hloop, hv', hruns⟩ := ih st1 hv1 (by omega)
      refine ⟨st', ?_, hv', ?_⟩
      · rw [putLoop, hstep]; exact hloop
      · rw [hruns, hpush, hl, hb]; simp [sliceRuns, hslice]
    · refine ⟨st, ?_, hv, by simp [sliceRuns, nextSlice_eq_none (Nat.not_lt.mp hlt)]⟩
      simp [putLoop, putStep, nextSlice_eq_none (Nat.not_lt.mp hlt)]

/-- `putAfterProcess` gives back the one reference held per partition of the map. -/
theorem refsBalanced_putAfterProcess {st : PutState} (hr : RefsHeld st)
    (hnd : (st.afterProcessInfo.map (·.1)).Nodup) (success : Bool) :
    RefsBalanced (putAfterProcess st.afterProcessInfo success st.refs).2 := by
  intro part
  have hmap : (st.afterProcessInfo.map fun e => PartitionRef.release e.1) =
      (st.afterProcessInfo.map (·.1)).map PartitionRef.release := by simp [Function.comp_def]
  simp only [putAfterProcess, List.count_append, hmap, hr part,
    List.count_map_of_injective _ _ (fun _ _ h => PartitionRef.release.inj h)]
  have hacq : List.count (PartitionRef.acquire part)
      ((st.afterProcessInfo.map (·.1)).map PartitionRef.release) = 0 :=
    List.count_eq_zero.mpr (by simp)
  rw [hacq]
  split_ifs with hin
  · rw [List.count_eq_one_of_mem hnd hin]
  · rw [List.count_eq_zero_of_not_mem hin]

/--
When every partition is valid and every write succeeds, `putDataColumnar` writes exactly the
maximal runs of rows sharing a partition time, each once, in row order and on the partition of
its time, gives back every partition reference it took, and reports success.
-/
theorem putDataColumnar_writes_maximal_runs (h : AllValid env partOf)
    (partitionTime : Int → Int) (rootMinTs rootMaxTs : Int) {payload : Payload} {fuel : Nat}
    (hfuel : payload.getRowCount - payload.startRowId < fuel) :
    ∃ r, putDataColumnar env partitionTime dedupReject payload rootMinTs rootMaxTs fuel = some r ∧
      (∀ run, run ∈ r.final.pushCalls.map (·.run) ↔
        IsMaximalRun (rowPartitionTime partitionTime payload) payload.startRowId
          payload.getRowCount run) ∧
      (r.final.pushCalls.map (·.run)).Pairwise (fun x y => x.endRow ≤ y.startRow) ∧
      (∀ c ∈ r.final.pushCalls, c.part = partOf c.run.pTime) ∧
      RefsBalanced r.refs ∧ r.status = .success := by
  obtain ⟨f, rfl⟩ : ∃ f, fuel = f + 1 := ⟨fuel - 1, by omega⟩
  set pt := rowPartitionTime partitionTime payload
  have hinit : ValidRun pt payload.getRowCount partOf (putInit pt payload rootMinTs rootMaxTs) :=
    ⟨le_refl 0, rfl, fun _ => rfl, by simpa [putInit] using Tracks.nil, fun _ => by simp [putInit],
      by simp [putInit]⟩
  obtain ⟨st, hloop, hv, hruns⟩ :=
    @putLoop_allValid env pt payload.getRowCount dedupReject partOf h f _ hinit (by simp [putInit]; omega)
  refine ⟨_, by simp only [putDataColumnar]; rw [hloop]; rfl, ?_, ?_, hv.parts,
    refsBalanced_putAfterProcess hv.refsHeld hv.tracks.nodup st.allSuccess, by simp [hv.allSuccess]⟩
  · intro run
    simp only [hruns, putInit, List.map_nil, List.nil_append]
    rw [mem_sliceRuns (le_refl _) (by omega) (fun _ => rfl) (fun _ => Or.inl rfl)]
    exact ⟨And.left, fun hr => ⟨hr, hr.first_le⟩⟩
  · simp only [hruns, putInit, List.map_nil, List.nil_append]
    exact sliceRuns_pairwise

end AllValid

section RootBounds

/-- The root table's interval `[minTimestamp(), maxTimestamp()]` holds `p`. -/
def RootCovers (st : PutState) (p : Int) : Prop := st.rootMinTs ≤ p ∧ p ≤ st.rootMaxTs

instance (st : PutState) (p : Int) : Decidable (RootCovers st p) :=
  inferInstanceAs (Decidable (_ ∧ _))

theorem updateRootBounds_covers (st : PutState) (p : Int) :
    RootCovers (updateRootBounds st p) p := by
  simp only [RootCovers, updateRootBounds]
  constructor <;> split_ifs <;> omega

/-- An update keeps what the interval held, unless its minimum is the `0` that reads as unset. -/
theorem updateRootBounds_keeps {st : PutState} {q : Int} (h : RootCovers st q)
    (hmin : st.rootMinTs ≠ 0) (p : Int) : RootCovers (updateRootBounds st p) q := by
  simp only [RootCovers, updateRootBounds] at h ⊢
  constructor <;> split_ifs <;> omega

theorem updateRootBounds_min_ne_zero (st : PutState) {p : Int} (hp : p ≠ 0) :
    (updateRootBounds st p).rootMinTs ≠ 0 := by
  simp only [updateRootBounds]
  split_ifs <;> omega

variable {env : WriteEnv} {pt : Nat → Int} {rowCount : Nat} {dedupReject : Int}

/-- A slice write records the next partition time `pTime` in the root bounds and as
`last_p_time`, and logs the slice under the old `last_p_time`. -/
theorem writeSlice_root (st : PutState) (part : PartitionId) (rowId : Nat) (pTime : Int) :
    (writeSlice env st part rowId pTime).state.lastPTime = pTime ∧
      (writeSlice env st part rowId pTime).state.rootMinTs = (updateRootBounds st pTime).rootMinTs ∧
      (writeSlice env st part rowId pTime).state.rootMaxTs = (updateRootBounds st pTime).rootMaxTs ∧
      ∃ c, (writeSlice env st part rowId pTime).state.pushCalls = st.pushCalls ++ [c] ∧
        c.run.pTime = st.lastPTime := by
  unfold writeSlice
  dsimp only
  split <;> exact ⟨rfl, rfl, rfl, _, rfl, rfl⟩

/-- What the loop keeps of the root bounds: `last_p_time` is not `0` while rows are left; once a
slice is written, the minimum is not the `0` that reads as unset and the interval holds
`last_p_time`; and it holds the partition time of every slice written after the first. -/
structure RootBoundsInv (rowCount : Nat) (st : PutState) : Prop where
  lastNonzero : st.batchStart < rowCount → st.lastPTime ≠ 0
  written : st.pushCalls ≠ [] → st.rootMinTs ≠ 0 ∧ RootCovers st st.lastPTime
  later : ∀ c ∈ st.pushCalls.tail, RootCovers st c.run.pTime

theorem writeSlice_rootBoundsInv {st : PutState} (h : RootBoundsInv rowCount st) {pTime : Int}
    (hp : pTime ≠ 0) (part : PartitionId) (rowId : Nat) :
    RootBoundsInv rowCount (writeSlice env st part rowId pTime).state := by
  obtain ⟨hlast, hmin, hmax, c, hcalls, hc⟩ := @writeSlice_root env st part rowId pTime
  have hcov : ∀ q, RootCovers (updateRootBounds st pTime) q →
      RootCovers (writeSlice env st part rowId pTime).state q := fun q hq => by
    simpa only [RootCovers, hmin, hmax] using hq
  refine ⟨fun _ => by rw [hlast]; exact hp, fun _ => ⟨hmin ▸ updateRootBounds_min_ne_zero st hp,
    hcov _ (by rw [hlast]; exact updateRootBounds_covers st pTime)⟩, ?_⟩
  rw [hcalls]
  cases hpc : st.pushCalls with
  | nil => simp
  | cons c₀ cs =>
    obtain ⟨hm, hl⟩ := h.written (hpc ▸ List.cons_ne_nil c₀ cs)
    intro c' hc'
    rw [List.cons_append, List.tail_cons, List.mem_append, List.mem_singleton] at hc'
    refine hcov _ (updateRootBounds_keeps ?_ hm pTime)
    rcases hc' with hc' | rfl
    · exact h.later c' (by rw [hpc]; exact hc')
    · exact hc ▸ hl

/-- A pass keeps the invariant when no row of the payload has partition time `0`. -/
theorem putStep_rootBoundsInv (hpt : ∀ r < rowCount, pt r ≠ 0) {st : PutState}
    (h : RootBoundsInv rowCount st) :
    RootBoundsInv rowCount (putStep env pt rowCount dedupReject st).state := by
  unfold putStep
  split
  · exact h
  · rename_i rowId pTime hslice
    obtain ⟨hlt, hle, hend, hstop⟩ := nextSlice_pTime hslice
    have hp : pTime ≠ 0 := by
      rcases Nat.lt_or_ge rowId rowCount with he | he
      · exact hend he ▸ hpt rowId he
      · exact hstop (by omega) ▸ h.lastNonzero hlt
    split
    · exact ⟨h.1, h.2, h.3⟩
    · rename_i clearsError _
      dsimp only
      generalize (if clearsError then (0 : Int) else st.errcode) = err
      split_ifs
      · exact ⟨h.1, h.2, h.3⟩
      · exact ⟨h.1, h.2, h.3⟩
      · refine writeSlice_rootBoundsInv ?_ hp _ _
        exact ⟨h.1, h.2, h.3⟩

/-- Over a whole run, the final root bounds hold the partition time of every slice but the first,
provided no row of the payload has partition time `0`. -/
theorem putDataColumnar_root_covers_later_slices {partitionTime : Int → Int} {payload : Payload}
    {rootMinTs rootMaxTs : Int} {fuel : Nat} {r : PutResult}
    (hpt : ∀ row < payload.getRowCount, rowPartitionTime partitionTime payload row ≠ 0)
    (hr : putDataColumnar env partitionTime dedupReject payload rootMinTs rootMaxTs fuel = some r) :
    ∀ c ∈ r.final.pushCalls.tail, RootCovers r.final c.run.pTime := by
  simp only [putDataColumnar, Option.map_eq_some'] at hr
  obtain ⟨st, hst, rfl⟩ := hr
  have hinit : RootBoundsInv payload.getRowCount
      (putInit (rowPartitionTime partitionTime payload) payload rootMinTs rootMaxTs) :=
    ⟨hpt _, fun h => absurd rfl h, fun c h => absurd h (List.not_mem_nil c)⟩
  refine (putLoop_invariant (Q := RootBoundsInv payload.getRowCount) (fun st st' hP hs => ?_)
    (fun st st' hP hs => ?_) hinit hst).later
  all_goals
    have h' : RootBoundsInv _ (putStep env _ _ dedupReject st).state := putStep_rootBoundsInv hpt hP
    rwa [hs] at h'

end RootBounds

/-- Every partition valid; every write reserves one span holding its rows. -/
def reservingEnv : WriteEnv where
  getPartitionTable _ pTime := .ok pTime.toNat true false
  pushBackPayload _ part start n := ⟨0, [⟨part, start, n⟩], []⟩

theorem putDataColumnar_publishes_each_reservation_once_two_partitions :
    ∃ r, putDataColumnar reservingEnv id 0 ⟨[0, 1000], 0⟩ 0 0 3 = some r ∧
      PublishesEachReservationOnce r := by
  obtain ⟨r, hr⟩ : ∃ r, putDataColumnar reservingEnv id 0 ⟨[0, 1000], 0⟩ 0 0 3 = some r := ⟨_, rfl⟩
  exact ⟨r, hr, putDataColumnar_publishes_each_reservation_once hr⟩

/-- The root bounds are set from `p_time`, the partition time of the next slice. On a root table
that holds nothing yet (`minTimestamp() = maxTimestamp() = 0`), a payload in partitions `5` and
`7` leaves the bounds at `[7, 7]`, missing its first slice; one in partitions `3`, `0` and `5`
records the `0` of its second slice, which the next update reads as unset and overwrites. -/
theorem putDataColumnar_root_bounds_miss_written_slices :
    (∃ r, putDataColumnar reservingEnv id 0 ⟨[5000, 7000], 0⟩ 0 0 3 = some r ∧
      r.final.pushCalls.map (·.run.pTime) = [5, 7] ∧ ¬RootCovers r.final 5) ∧
    (∃ r, putDataColumnar reservingEnv id 0 ⟨[3000, 0, 5000], 0⟩ 0 0 4 = some r ∧
      r.final.pushCalls.map (·.run.pTime) = [3, 0, 5] ∧ ¬RootCovers r.final 0) :=
  ⟨⟨_, rfl, rfl, by decide⟩, ⟨_, rfl, rfl, by decide⟩⟩

/-- Rows in partitions `0` then `1`, where partition `0` is not valid and every other call
succeeds. -/
def invalidFirstEnv : WriteEnv where
  getPartitionTable _ pTime := .ok pTime.toNat (pTime ≠ 0) false
  pushBackPayload _ _ _ _ := ⟨0, [], []⟩

theorem nextSlice_invalidFirst :
    nextSlice (rowPartitionTime id ⟨[0, 1000], 0⟩) 2 0 0 = some (1, 1) := by decide

/-- A pass over `invalidFirstEnv` before the first slice is written takes a reference to partition
`0` and either stops, when `err_info` already holds a negative code, or retries. -/
theorem putStep_invalidFirst {dedupReject : Int} {st : PutState} (hl : st.lastPTime = 0)
    (hb : st.batchStart = 0) :
    putStep invalidFirstEnv (rowPartitionTime id ⟨[0, 1000], 0⟩) 2 dedupReject st =
      if st.errcode < 0 then .exit { st with
        getCalls := st.getCalls ++ [(0, st.errcode)], refs := st.refs ++ [.acquire 0],
        allSuccess := false }
      else .next { st with
        getCalls := st.getCalls ++ [(0, st.errcode)], refs := st.refs ++ [.acquire 0],
        errcode := dedupReject } := by
  simp only [putStep, hl, hb, nextSlice_invalidFirst, invalidFirstEnv]
  rfl

/-- Before the first slice is written, the loop over `invalidFirstEnv` either retries the slice
of partition `0` or stops without writing. -/
theorem putLoop_invalidFirst (dedupReject : Int) :
    ∀ (fuel : Nat) (st : PutState), st.lastPTime = 0 → st.batchStart = 0 → st.pushCalls = [] →
      (∀ r, putLoop invalidFirstEnv (rowPartitionTime id ⟨[0, 1000], 0⟩) 2 dedupReject fuel st =
        some r → r.pushCalls = []) ∧
      (0 ≤ st.errcode → 0 ≤ dedupReject →
        putLoop invalidFirstEnv (rowPartitionTime id ⟨[0, 1000], 0⟩) 2 dedupReject fuel st = none) := by
  intro fuel
  induction fuel with
  | zero => intro st _ _ _; simp [putLoop]
  | succ fuel ih =>
    intro st hl hb hp
    simp only [putLoop, putStep_invalidFirst hl hb]
    split_ifs with herr
    · exact ⟨fun r hr => by cases hr; exact hp, fun h => absurd h (not_le.mpr herr)⟩
    · obtain ⟨ih1, ih2⟩ := ih { st with
        getCalls := st.getCalls ++ [(0, st.errcode)], refs := st.refs ++ [.acquire 0],
        errcode := dedupReject } hl hb hp
      exact ⟨ih1, fun _ hd => ih2 hd hd⟩

/--
Rows in partitions `0` then `1` with partition `0` not valid: whatever `DEDUPREJECT` is, the loop
either never ends or ends without writing the row of the valid partition `1`.
-/
theorem putDataColumnar_invalid_partition_stalls (dedupReject : Int) (fuel : Nat) :
    (0 ≤ dedupReject →
      putDataColumnar invalidFirstEnv id dedupReject ⟨[0, 1000], 0⟩ 0 0 fuel = none) ∧
    ∀ r, putDataColumnar invalidFirstEnv id dedupReject ⟨[0, 1000], 0⟩ 0 0 fuel = some r →
      r.final.pushCalls = [] := by
  obtain ⟨h1, h2⟩ := putLoop_invalidFirst dedupReject fuel
    (putInit (rowPartitionTime id ⟨[0, 1000], 0⟩) ⟨[0, 1000], 0⟩ 0 0) rfl rfl rfl
  refine ⟨fun hd => by simp only [putDataColumnar, Option.map_eq_none']; exact h2 (le_refl 0) hd,
    fun r hr => ?_⟩
  simp only [putDataColumnar, Option.map_eq_some'] at hr
  obtain ⟨st, hst, rfl⟩ := hr
  exact h1 st hst

/-- With a negative `DEDUPREJECT` the same run ends, holding two references to partition `0`
that nothing releases. -/
theorem putDataColumnar_invalid_partition_keeps_references {dedupReject : Int}
    (hd : dedupReject < 0) :
    ∃ r, putDataColumnar invalidFirstEnv id dedupReject ⟨[0, 1000], 0⟩ 0 0 2 = some r ∧
      r.refs = [.acquire 0, .acquire 0] := by
  have hcount : (⟨[0, 1000], 0⟩ : Payload).getRowCount = 2 := rfl
  simp only [putDataColumnar, hcount, putLoop]
  rw [putStep_invalidFirst rfl rfl]
  simp only [putInit, lt_self_iff_false, if_false]
  rw [putStep_invalidFirst rfl rfl]
  simp [hd, putAfterProcess]

end KwdbTs.Storage
