import KwdbTs.Engine.TsIterator

/-!
# TsRawDataIterator::Next over every run of calls

`Next` (engine/iterator.cpp) called again and again with `ts = INVALID_TS`. Each call loops: with
no current block item it asks `nextBlockItem` for one, and moves to the next entity when the
current one has none left; with a block item it takes the whole block by the fast path, or the
next run of live rows inside the spans, and returns it as a batch.

`remainingBatches` is what the calls still to come return, read off the state; `rawIterCost`
bounds the passes they make. Every pass keeps the first and lowers the second
(`rawNextPass_spec`), so each call returns within `rawIterCost + 1` passes, and the calls return
`remainingBatches` of the initial state, which is `expectedBatches`.
-/

namespace KwdbTs.Engine

/-- A batch of `Next`: rows of one block, tagged with the entity (`res->entity_index`). -/
structure RawBatch where
  entityId : Nat
  block : Block
  rows : List Nat

/-- The rows of a batch, each with its entity and block. -/
def RawBatch.entries (bt : RawBatch) : List (Nat × Block × Nat) :=
  bt.rows.map (bt.entityId, bt.block, ·)

/-- Modelled from the spec: `MMapSegmentTableIterator::Next` (not among the sources) scans row
by row from the offset, skipping tombstoned rows and rows outside `ts_spans`, and returns one
batch: the next run of such rows, as `traverseAllBlocks`' own row loop does. -/
def segmentIterNext (tsSpans : List KwTsSpan) (b : Block) (offset : Nat) : List Nat × Nat :=
  scanRun (rowQualifies tsSpans b) (b.publishRowCount + 1) false
    (List.range' offset (b.publishRowCount + 1 - offset))

/-- The deleted-row loop of the fast path: `cur_row` stops at the first deleted row, and passes
`publish_row_count` when there is none. -/
def noDeletedRow (b : Block) : Bool :=
  ((List.range' 1 b.publishRowCount).find? b.deleted).isNone

/-- The rows one pass takes from the current block item and the offset after it: the whole
block by the fast path, else `segment_iter_->Next`. -/
def rawBlockRows (tsSpans : List KwTsSpan) (b : Block) (offset : Nat) : List Nat × Nat :=
  if b.isAggResAvailable ∧ 0 < b.publishRowCount ∧ offset = 1 ∧
      isTimestampWithinSpans tsSpans b.minTs b.maxTs ∧ noDeletedRow b then
    (List.range' 1 b.publishRowCount, b.publishRowCount + 1)
  else segmentIterNext tsSpans b offset

/-- How one pass of the loop in `Next` ends. -/
inductive RawPass
  /-- `*is_finished = true`: the entities are exhausted. -/
  | finished (st : IterState)
  /-- `continue`. -/
  | next (st : IterState)
  /-- `return SUCCESS` with `*count > 0`. -/
  | batch (bt : RawBatch) (st : IterState)

/-- One pass of the `while (true)` loop of `TsRawDataIterator::Next` with `ts = INVALID_TS`. -/
def rawNextPass (ctx : IterCtx) (st : IterState) : RawPass :=
  match st.curBlockItem with
  | none =>
    let st := nextBlockItem ctx st.curEntityId st
    match st.curBlockItem with
    | some _ => .next st
    | none =>
      if ctx.entityIds.length ≤ st.curEntityIdx + 1 then
        .finished { st with curEntityIdx := st.curEntityIdx + 1 }
      else
        .next { st with curEntityIdx := st.curEntityIdx + 1,
                        curEntityId := ctx.entityIds.getD (st.curEntityIdx + 1) 0,
                        curPBtsIdx := -1 }
  | some b =>
    let rows := (rawBlockRows ctx.tsSpans b st.curBlockdataOffset).1
    let offset := (rawBlockRows ctx.tsSpans b st.curBlockdataOffset).2
    let st := if b.publishRowCount < offset then
        nextBlockItem ctx st.curEntityId { st with curBlockdataOffset := 1 }
      else { st with curBlockdataOffset := offset }
    if 0 < rows.length then .batch ⟨st.curEntityId, b, rows⟩ st else .next st

/-- `TsRawDataIterator::Next`, allowed `fuel` passes of its loop: `none` if they do not suffice,
else the batch (`none` once finished) and the state after the call. -/
def rawNext (ctx : IterCtx) : Nat → IterState → Option (Option RawBatch × IterState)
  | 0, _ => none
  | fuel + 1, st =>
    match rawNextPass ctx st with
    | .finished st => some (none, st)
    | .batch bt st => some (some bt, st)
    | .next st => rawNext ctx fuel st

/-- Calling `Next` at most `calls` times, each allowed `fuel` passes, until it reports
`is_finished`: the batches returned, or `none` if a call ran out of passes or the calls ran out
first. -/
def rawScan (ctx : IterCtx) (fuel : Nat) : Nat → IterState → Option (List RawBatch)
  | 0, _ => none
  | calls + 1, st =>
    match rawNext ctx fuel st with
    | none => none
    | some (none, _) => some []
    | some (some bt, st) => (rawScan ctx fuel calls st).map (bt :: ·)

/-! ## What the calls return -/

section Expected

variable (ctx : IterCtx)

/-- The batches of a block for an entity: its runs of live rows inside the spans. -/
def blockBatches (entityId : Nat) (b : Block) : List RawBatch :=
  (runsOf (rowQualifies ctx.tsSpans b) [] (List.range' 1 b.publishRowCount)).map
    (⟨entityId, b, ·⟩)

/-- The batches of an entity: partition by partition, block item by block item. -/
def entityBatches (entityId : Nat) : List RawBatch :=
  (partitionsBlocks ctx entityId ctx.pBts).flatMap (blockBatches ctx entityId)

/-- What the calls should return: entity by entity. -/
def expectedBatches : List RawBatch := ctx.entityIds.flatMap (entityBatches ctx)

/-- The batches the current block item still gives from its offset. -/
def currentBatches (st : IterState) : List RawBatch :=
  match st.curBlockItem with
  | none => []
  | some b =>
    (runsOf (rowQualifies ctx.tsSpans b) []
      (List.range' st.curBlockdataOffset (b.publishRowCount + 1 - st.curBlockdataOffset))).map
      (⟨st.curEntityId, b, ·⟩)

/-- The batches of the entities after the current one. -/
def laterBatches (st : IterState) : List RawBatch :=
  (ctx.entityIds.drop (st.curEntityIdx + 1)).flatMap (entityBatches ctx)

/-- What the calls still to come return, read off the state. -/
def remainingBatches (st : IterState) : List RawBatch :=
  currentBatches ctx st ++
    (pendingBlocks ctx st.curEntityId st).flatMap (blockBatches ctx st.curEntityId) ++
    laterBatches ctx st

/-- The cost of the entities after the current one. -/
def laterCost (st : IterState) : Nat :=
  ((ctx.entityIds.drop (st.curEntityIdx + 1)).map fun e => 1 + partitionsCost ctx e ctx.pBts).sum

/-- A bound on the passes the calls still to come make. -/
def rawIterCost (st : IterState) : Nat :=
  (match st.curBlockItem with
   | none => 0
   | some b => b.publishRowCount + 2 - st.curBlockdataOffset) +
    pendingCost ctx st.curEntityId st + laterCost ctx st

end Expected

/-- The invariant of the iterator state between passes. -/
structure RawIterInv (st : IterState) : Prop where
  idx : -1 ≤ st.curPBtsIdx
  offsetOfNone : st.curBlockItem = none → st.curBlockdataOffset = 1
  offsetLe : ∀ b, st.curBlockItem = some b → st.curBlockdataOffset ≤ b.publishRowCount + 1

/-- What a pass may do: finish with nothing left, or move on (returning a batch or not) to a
state that keeps the invariant, has the same batches to come once the returned one is taken off,
and costs less. -/
def PassSpec (ctx : IterCtx) (st : IterState) : RawPass → Prop
  | .finished _ => remainingBatches ctx st = []
  | .next st' => RawIterInv st' ∧ remainingBatches ctx st' = remainingBatches ctx st ∧
      rawIterCost ctx st' < rawIterCost ctx st
  | .batch bt st' => RawIterInv st' ∧ remainingBatches ctx st = bt :: remainingBatches ctx st' ∧
      rawIterCost ctx st' < rawIterCost ctx st

section Pass

variable {ctx : IterCtx}

/-- The fast path takes exactly what the row loop would: when it applies, every row of the
block is live and inside the one span that holds the block's bounds. -/
theorem rawBlockRows_eq (tsSpans : List KwTsSpan) (b : Block) (offset : Nat) :
    rawBlockRows tsSpans b offset = segmentIterNext tsSpans b offset := by
  unfold rawBlockRows
  split_ifs with h
  · obtain ⟨-, -, rfl, hwithin, hdel⟩ := h
    have hnone : (List.range' 1 b.publishRowCount).find? b.deleted = none :=
      Option.isNone_iff_eq_none.mp hdel
    have hall : ∀ r ∈ List.range' 1 b.publishRowCount, rowQualifies tsSpans b r = true := by
      intro r hr
      have hd := List.find?_eq_none.mp hnone r hr
      rw [List.mem_range'_1] at hr
      simp [rowQualifies, hd, checkIfTsInSpan_of_within hwithin hr.1 (by omega)]
    unfold segmentIterNext
    rw [Nat.add_sub_cancel, scanRun_of_all _ _ _ hall]
  · rfl

/-- Moving to the next block item once the current one is done: the new state keeps the
invariant, what it has to come is what came after the old block item, and it costs less (one
less when a block item was found). -/
theorem remaining_nextBlockItem {st : IterState} (hidx : -1 ≤ st.curPBtsIdx)
    (hoff : st.curBlockdataOffset = 1) :
    RawIterInv (nextBlockItem ctx st.curEntityId st) ∧
      remainingBatches ctx (nextBlockItem ctx st.curEntityId st) =
        (pendingBlocks ctx st.curEntityId st).flatMap (blockBatches ctx st.curEntityId) ++
          laterBatches ctx st ∧
      rawIterCost ctx (nextBlockItem ctx st.curEntityId st) +
          (if (nextBlockItem ctx st.curEntityId st).curBlockItem.isSome then 1 else 0) ≤
        pendingCost ctx st.curEntityId st + laterCost ctx st := by
  obtain ⟨hidx', hspec⟩ := @nextBlockItem_spec ctx st.curEntityId st hidx
  revert hspec
  cases hcur : (nextBlockItem ctx st.curEntityId st).curBlockItem with
  | some b =>
    rintro ⟨h1, h2⟩
    refine ⟨⟨hidx', fun h => by simp [hcur] at h, fun b' hb => ?_⟩, ?_, ?_⟩
    · simp [hoff]
    · simp only [remainingBatches, currentBatches, hcur, nextBlockItem_curEntityId,
        nextBlockItem_curBlockdataOffset, hoff, Nat.add_sub_cancel, h1, List.flatMap_cons,
        laterBatches, nextBlockItem_curEntityIdx, blockBatches, List.append_assoc]
    · simp only [rawIterCost, hcur, nextBlockItem_curBlockdataOffset, hoff,
        nextBlockItem_curEntityId, laterCost, nextBlockItem_curEntityIdx, Option.isSome_some,
        if_true, entryCost] at h2 ⊢
      omega
  | none =>
    rintro ⟨h1, -, h3, h4⟩
    refine ⟨⟨hidx', fun _ => by simp [hoff], fun b' hb => by simp [hcur] at hb⟩, ?_, ?_⟩
    · simp [remainingBatches, currentBatches, hcur, h1, h3, laterBatches]
    · simp only [rawIterCost, hcur, nextBlockItem_curEntityId, h4, laterCost,
        nextBlockItem_curEntityIdx, Option.isSome_none]
      simp

/-- A pass with no current block item: it fetches the next one, moves to the next entity, or
finishes. -/
theorem rawNextPass_spec_fetch {st : IterState} (hinv : RawIterInv st)
    (hcur : st.curBlockItem = none) : PassSpec ctx st (rawNextPass ctx st) := by
  have hoff := hinv.offsetOfNone hcur
  obtain ⟨hinv1, hrem1, hcost1⟩ := @remaining_nextBlockItem ctx st hinv.idx hoff
  have hrem : remainingBatches ctx st = (pendingBlocks ctx st.curEntityId st).flatMap
      (blockBatches ctx st.curEntityId) ++ laterBatches ctx st := by
    simp [remainingBatches, currentBatches, hcur]
  have hcost : rawIterCost ctx st = pendingCost ctx st.curEntityId st + laterCost ctx st := by
    simp [rawIterCost, hcur]
  simp only [rawNextPass, hcur]
  cases hnext : (nextBlockItem ctx st.curEntityId st).curBlockItem with
  | some b =>
    simp only [hnext, Option.isSome_some, if_true] at hcost1
    exact ⟨hinv1, hrem1.trans hrem.symm, by omega⟩
  | none =>
    obtain ⟨-, hspec⟩ :=
      @nextBlockItem_spec ctx st.curEntityId st hinv.idx
    simp only [hnext] at hspec
    obtain ⟨hpend, hq, -, -⟩ := hspec
    simp only [nextBlockItem_curEntityIdx]
    split_ifs with hlen
    · show remainingBatches ctx st = []
      rw [hrem, hpend, laterBatches, List.drop_eq_nil_of_le (by omega)]
      rfl
    · -- the next entity, from its first partition
      have hlt : st.curEntityIdx + 1 < ctx.entityIds.length := by omega
      have hdrop := List.drop_eq_getElem_cons hlt
      have hget : ctx.entityIds.getD (st.curEntityIdx + 1) 0 = ctx.entityIds[st.curEntityIdx + 1] := by
        simp [List.getD_eq_getElem?_getD, List.getElem?_eq_getElem hlt]
      refine ⟨⟨by simp, fun _ => by simp [hoff], fun b hb => by simp [hnext] at hb⟩, ?_, ?_⟩
      · rw [hrem, hpend]
        simp only [remainingBatches, currentBatches, hnext, pendingBlocks, hq, hget,
          laterBatches, hdrop, List.flatMap_cons, entityBatches, queueBlocks,
          List.filterMap_nil, List.nil_append, List.flatMap_nil]
        simp
      · simp only [rawIterCost, hnext, pendingCost, hq, hget, laterCost, hcost, hdrop,
          List.map_cons, List.sum_cons, queueCost, List.map_nil, List.sum_nil]
        simp only [Int.reduceNeg, Int.reduceAdd, Int.toNat_zero, List.drop_zero, hdrop]
        omega

/-- A pass over the current block item: it takes the next run, and moves to the next block item
once the block is done. -/
theorem rawNextPass_spec_block {st : IterState} (hinv : RawIterInv st) {b : Block}
    (hcur : st.curBlockItem = some b) : PassSpec ctx st (rawNextPass ctx st) := by
  have hle := hinv.offsetLe b hcur
  have hok : st.curBlockdataOffset + (b.publishRowCount + 1 - st.curBlockdataOffset) =
      b.publishRowCount + 1 := by omega
  have hoff := @scanRun_offset (rowQualifies ctx.tsSpans b) false st.curBlockdataOffset
    (b.publishRowCount + 1 - st.curBlockdataOffset)
  have hruns := @runsOf_scanRun (rowQualifies ctx.tsSpans b) st.curBlockdataOffset
    (b.publishRowCount + 1 - st.curBlockdataOffset)
  rw [hok] at hoff hruns
  rcases hscan : scanRun (rowQualifies ctx.tsSpans b) (b.publishRowCount + 1) false
    (List.range' st.curBlockdataOffset (b.publishRowCount + 1 - st.curBlockdataOffset))
    with ⟨rows, o'⟩
  rw [hscan] at hoff hruns
  simp only at hoff hruns
  obtain ⟨ho1, ho2, ho3⟩ := hoff
  -- the state after the pass, and what it has to come
  have hafter : ∃ st', RawIterInv st' ∧ st'.curEntityId = st.curEntityId ∧
      remainingBatches ctx st =
        (if rows = [] then [] else [⟨st.curEntityId, b, rows⟩]) ++ remainingBatches ctx st' ∧
      rawIterCost ctx st' < rawIterCost ctx st ∧
      (if b.publishRowCount < o' then
          nextBlockItem ctx st.curEntityId { st with curBlockdataOffset := 1 }
        else { st with curBlockdataOffset := o' }) = st' := by
    have hcurB : currentBatches ctx st =
        (if rows = [] then [] else [⟨st.curEntityId, b, rows⟩]) ++
          (runsOf (rowQualifies ctx.tsSpans b) [] (List.range' o' (b.publishRowCount + 1 - o'))).map
            (⟨st.curEntityId, b, ·⟩) := by
      simp only [currentBatches, hcur, hruns, List.map_append]
      split_ifs <;> simp
    by_cases hfin : b.publishRowCount < o'
    · -- the block is done: on to the next block item
      obtain ⟨hinv', hrem', hcost'⟩ := @remaining_nextBlockItem
        ctx { st with curBlockdataOffset := 1 } hinv.idx rfl
      refine ⟨_, hinv', rfl, ?_, ?_, if_pos hfin⟩
      · rw [hrem', remainingBatches, hcurB, show b.publishRowCount + 1 - o' = 0 by omega]
        simp [pendingBlocks, laterBatches, runsOf]
      · have : rawIterCost ctx st = (b.publishRowCount + 2 - st.curBlockdataOffset) +
            pendingCost ctx st.curEntityId st + laterCost ctx st := by
          simp [rawIterCost, hcur]
        simp only [pendingCost, laterCost] at hcost' this ⊢
        split_ifs at hcost' <;> omega
    · -- more rows of the block to come
      refine ⟨{ st with curBlockdataOffset := o' }, ⟨hinv.idx, by simp [hcur], fun b' hb => ?_⟩,
        rfl, ?_, ?_, if_neg hfin⟩
      · simp only [hcur, Option.some.injEq] at hb
        subst hb
        show o' ≤ _
        omega
      · rw [remainingBatches, hcurB, remainingBatches]
        simp [currentBatches, hcur, pendingBlocks, laterBatches]
      · have := ho3 (by omega)
        simp only [rawIterCost, hcur, pendingCost, laterCost]
        omega
  obtain ⟨st', hinv', hid, hrem, hcost, hst'⟩ := hafter
  simp only [hcur] at hst'
  simp only [rawNextPass, hcur, rawBlockRows_eq, segmentIterNext, hscan, hst', hid]
  split_ifs with hrows
  · refine ⟨hinv', ?_, hcost⟩
    rw [hrem, if_neg (List.ne_nil_of_length_pos hrows)]
    rfl
  · refine ⟨hinv', ?_, hcost⟩
    rw [hrem, if_pos (List.eq_nil_of_length_eq_zero (by omega))]
    rfl

/-- Every pass keeps the invariant and what is to come, and costs less. -/
theorem rawNextPass_spec {st : IterState} (hinv : RawIterInv st) :
    PassSpec ctx st (rawNextPass ctx st) := by
  cases hcur : st.curBlockItem with
  | none => exact rawNextPass_spec_fetch hinv hcur
  | some b => exact rawNextPass_spec_block hinv hcur

/-- A call of `Next` allowed more passes than the cost: it finishes with nothing left, or
returns the first batch to come and leaves a state that keeps the invariant, has the rest to
come, and costs less. -/
theorem rawNext_spec {st : IterState} (hinv : RawIterInv st) {fuel : Nat}
    (hfuel : rawIterCost ctx st < fuel) :
    ∃ r, rawNext ctx fuel st = some r ∧
      match r with
      | (none, _) => remainingBatches ctx st = []
      | (some bt, st') => RawIterInv st' ∧
          remainingBatches ctx st = bt :: remainingBatches ctx st' ∧
          rawIterCost ctx st' < rawIterCost ctx st := by
  induction fuel generalizing st with
  | zero => omega
  | succ fuel ih =>
    have hpass := @rawNextPass_spec ctx st hinv
    rw [rawNext]
    cases hp : rawNextPass ctx st with
    | finished st' => rw [hp] at hpass; exact ⟨_, rfl, hpass⟩
    | batch bt st' => rw [hp] at hpass; exact ⟨_, rfl, hpass⟩
    | next st' =>
      rw [hp] at hpass
      obtain ⟨hinv', hrem, hcost⟩ := hpass
      obtain ⟨r, hr, hspec⟩ := ih hinv' (by omega)
      refine ⟨r, hr, ?_⟩
      rcases r with ⟨_ | bt, st''⟩
      · rw [← hrem]; exact hspec
      · obtain ⟨h1, h2, h3⟩ := hspec
        exact ⟨h1, hrem ▸ h2, by omega⟩

/-- Calls of `Next`, each allowed more passes than the cost, and more calls than batches to
come: they return exactly the batches to come, then report `is_finished`. -/
theorem rawScan_spec {st : IterState} (hinv : RawIterInv st) {fuel : Nat}
    (hfuel : rawIterCost ctx st < fuel) {calls : Nat}
    (hcalls : (remainingBatches ctx st).length < calls) :
    rawScan ctx fuel calls st = some (remainingBatches ctx st) := by
  induction calls generalizing st with
  | zero => omega
  | succ calls ih =>
    obtain ⟨r, hr, hspec⟩ := rawNext_spec hinv hfuel
    rw [rawScan, hr]
    rcases r with ⟨_ | bt, st'⟩
    · exact congrArg some hspec.symm
    · obtain ⟨h1, h2, h3⟩ := hspec
      rw [h2] at hcalls ⊢
      dsimp only
      rw [ih h1 (by omega) (by simp only [List.length_cons] at hcalls; omega)]
      rfl

end Pass

/-! ## From `Init` -/

/-- No partition holds a block of entity 0. -/
@[simp] theorem partitionsBlocks_zero (ctx : IterCtx) (ps : List PartitionTable) :
    partitionsBlocks ctx 0 ps = [] := by
  simp [partitionsBlocks, queueBlocks]

theorem rawIterInv_init (ctx : IterCtx) : RawIterInv (TsIterator.init ctx) := by
  obtain ⟨-, -, hidx, hcur, hoff⟩ := TsIterator.init_fields ctx
  exact ⟨by omega, fun _ => hoff, fun b hb => by simp [hcur] at hb⟩

/-- After `Init`, the calls still to come should return every entity's batches. -/
theorem remainingBatches_init (ctx : IterCtx) :
    remainingBatches ctx (TsIterator.init ctx) = expectedBatches ctx := by
  rcases ctx with ⟨entityIds, pBts, rev, spans⟩
  cases entityIds with
  | nil =>
    simp [TsIterator.init, IterState.initial, remainingBatches, currentBatches, pendingBlocks,
      queueBlocks, laterBatches, expectedBatches]
  | cons e es =>
    cases pBts with
    | nil =>
      simp [TsIterator.init, IterState.initial, remainingBatches, currentBatches, pendingBlocks,
        queueBlocks, laterBatches, expectedBatches, entityBatches, partitionsBlocks]
    | cons p ps =>
      by_cases he : e = 0
      · subst he
        simp [TsIterator.init, IterState.initial, remainingBatches, currentBatches,
          pendingBlocks, queueBlocks, laterBatches, expectedBatches, entityBatches]
      · simp [TsIterator.init, IterState.initial, fetchBlockItems, he, remainingBatches,
          currentBatches, pendingBlocks, laterBatches, expectedBatches, entityBatches,
          partitionsBlocks]

/-- Each batch's rows, spread out: the live rows inside the spans of the blocks, in order. -/
theorem flatMap_entries_blockBatches (ctx : IterCtx) (e : Nat) (b : Block) :
    (blockBatches ctx e b).flatMap RawBatch.entries =
      ((List.range' 1 b.publishRowCount).filter (rowQualifies ctx.tsSpans b)).map (e, b, ·) := by
  have h : ∀ rs : List (List Nat),
      (rs.map (⟨e, b, ·⟩ : List Nat → RawBatch)).flatMap RawBatch.entries =
        rs.flatten.map (e, b, ·) := by
    intro rs
    induction rs with
    | nil => rfl
    | cons r rs ih => simp [RawBatch.entries, ih]
  rw [blockBatches, h, flatten_runsOf]
  rfl

/-- The live rows inside the spans of the entities' blocks: entity by entity, partition by
partition, block item by block item. -/
def qualifyingRows (ctx : IterCtx) : List (Nat × Block × Nat) :=
  ctx.entityIds.flatMap fun e => (partitionsBlocks ctx e ctx.pBts).flatMap fun b =>
    ((List.range' 1 b.publishRowCount).filter (rowQualifies ctx.tsSpans b)).map (e, b, ·)

/-- The batches' rows, spread out, are the qualifying rows. -/
theorem flatMap_entries_expectedBatches (ctx : IterCtx) :
    (expectedBatches ctx).flatMap RawBatch.entries = qualifyingRows ctx := by
  simp only [expectedBatches, entityBatches, qualifyingRows, List.flatMap_assoc,
    flatMap_entries_blockBatches]

/-- Every batch to come is a non-empty run of rows of one block item of one of the entities. -/
theorem mem_expectedBatches {ctx : IterCtx} {bt : RawBatch} (h : bt ∈ expectedBatches ctx) :
    bt.rows ≠ [] ∧ bt.entityId ∈ ctx.entityIds ∧
      ∃ p ∈ ctx.pBts, some bt.block ∈ p.getAllBlockItems bt.entityId ctx.isReversed := by
  simp only [expectedBatches, entityBatches, partitionsBlocks, blockBatches, queueBlocks,
    List.mem_flatMap, List.mem_map, List.mem_filterMap, id] at h
  obtain ⟨e, he, b, ⟨p, hp, _, hb, rfl⟩, run, hrun, rfl⟩ := h
  exact ⟨ne_nil_of_mem_runsOf hrun, he, p, hp, hb⟩

/-- Calling `TsRawDataIterator::Next` again and again with `ts = INVALID_TS` from `Init`: every
call returns within `rawIterCost + 1` passes of its loop, and after one call more than there
are batches it reports `is_finished`. The batches come entity by entity, partition by partition
of `p_bts_` (reversed when `is_reversed`), block item by block item as `GetAllBlockItems` queued
them; each is a non-empty run of one block item of its entity; and together they hold every
live row inside the spans of those blocks once, and no other row. -/
theorem rawNext_returns_each_qualifying_row_once (entityIds : List Nat)
    (pBts : List PartitionTable) (isReversed : Bool) (tsSpans : List KwTsSpan) (fuel calls : Nat)
    (hfuel : rawIterCost (IterCtx.ofInit entityIds pBts isReversed tsSpans)
      (TsIterator.init (IterCtx.ofInit entityIds pBts isReversed tsSpans)) < fuel)
    (hcalls : (expectedBatches (IterCtx.ofInit entityIds pBts isReversed tsSpans)).length <
      calls) :
    rawScan (IterCtx.ofInit entityIds pBts isReversed tsSpans) fuel calls
        (TsIterator.init (IterCtx.ofInit entityIds pBts isReversed tsSpans)) =
      some (expectedBatches (IterCtx.ofInit entityIds pBts isReversed tsSpans)) ∧
    (expectedBatches (IterCtx.ofInit entityIds pBts isReversed tsSpans)).flatMap
        RawBatch.entries =
      entityIds.flatMap (fun e =>
        ((if isReversed then pBts.reverse else pBts).flatMap fun p =>
          (p.getAllBlockItems e isReversed).filterMap id).flatMap fun b =>
            ((List.range' 1 b.publishRowCount).filter (rowQualifies tsSpans b)).map (e, b, ·)) ∧
    ∀ bt ∈ expectedBatches (IterCtx.ofInit entityIds pBts isReversed tsSpans),
      bt.rows ≠ [] ∧ bt.entityId ∈ entityIds ∧
        ∃ p ∈ (if isReversed then pBts.reverse else pBts),
          some bt.block ∈ p.getAllBlockItems bt.entityId isReversed := by
  refine ⟨?_, ?_, fun bt hbt => mem_expectedBatches hbt⟩
  · rw [← remainingBatches_init] at hcalls ⊢
    exact rawScan_spec (rawIterInv_init _) hfuel hcalls
  · rw [flatMap_entries_expectedBatches]
    rfl

/-- A block of two live rows stamped 1 and 2. -/
def twoRowBlock : Block where
  blockId := 1
  publishRowCount := 2
  isAggResAvailable := true
  isOverflow := false
  deleted _ := false
  ts r := r
  value _ _ := none
  minTs := 1
  maxTs := 2
  aggCount _ := 0
  aggMin _ := none
  aggMax _ := none
  aggSum _ := 0
  tsBounds r h1 h2 := ⟨by simp only; omega, by simp only; omega⟩

/-- A partition whose queue for entity 1 is a null entry and then the block. -/
def twoRowPartition : PartitionTable where
  getAllBlockItems e _ := if e = 1 then [none, some twoRowBlock] else []
  entityMinTs _ := 1
  entityMaxTs _ := 2
  noBlocksOfEntityZero _ := rfl

theorem rawNext_returns_each_qualifying_row_once_two_rows :
    rawIterCost (IterCtx.ofInit [1] [twoRowPartition] false [⟨0, 10⟩])
        (TsIterator.init (IterCtx.ofInit [1] [twoRowPartition] false [⟨0, 10⟩])) < 10 ∧
      (expectedBatches (IterCtx.ofInit [1] [twoRowPartition] false [⟨0, 10⟩])).length < 3 ∧
      rawScan (IterCtx.ofInit [1] [twoRowPartition] false [⟨0, 10⟩]) 10 3
          (TsIterator.init (IterCtx.ofInit [1] [twoRowPartition] false [⟨0, 10⟩])) =
        some (expectedBatches (IterCtx.ofInit [1] [twoRowPartition] false [⟨0, 10⟩])) ∧
      (expectedBatches (IterCtx.ofInit [1] [twoRowPartition] false [⟨0, 10⟩])).flatMap
          RawBatch.entries =
        [1].flatMap (fun e =>
          ((if false then [twoRowPartition].reverse else [twoRowPartition]).flatMap fun p =>
            (p.getAllBlockItems e false).filterMap id).flatMap fun b =>
              ((List.range' 1 b.publishRowCount).filter (rowQualifies [⟨0, 10⟩] b)).map
                (e, b, ·)) ∧
      ∀ bt ∈ expectedBatches (IterCtx.ofInit [1] [twoRowPartition] false [⟨0, 10⟩]),
        bt.rows ≠ [] ∧ bt.entityId ∈ [1] ∧
          ∃ p ∈ (if false then [twoRowPartition].reverse else [twoRowPartition]),
            some bt.block ∈ p.getAllBlockItems bt.entityId false :=
  have h1 : rawIterCost (IterCtx.ofInit [1] [twoRowPartition] false [⟨0, 10⟩])
      (TsIterator.init (IterCtx.ofInit [1] [twoRowPartition] false [⟨0, 10⟩])) < 10 := by
    decide
  have h2 : (expectedBatches (IterCtx.ofInit [1] [twoRowPartition] false [⟨0, 10⟩])).length <
      3 := by
    decide
  ⟨h1, h2, rawNext_returns_each_qualifying_row_once [1] [twoRowPartition] false [⟨0, 10⟩] 10 3
    h1 h2⟩

end KwdbTs.Engine
