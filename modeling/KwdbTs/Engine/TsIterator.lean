import KwdbTs.Engine.Block

/-!
# What the two iterators share

`TsIterator` (engine/iterator.cpp) holds the state that survives between calls of `Next`: the
current entity, the current partition `cur_p_bts_idx_`, the queue of block items fetched from it,
the current block item and the row offset inside it. `nextBlockItem` moves to the next non-null
block item, fetching the next partition's queue whenever the current one runs dry. The row loop
of `TsAggIterator::traverseAllBlocks` (`scanRun`) takes the next run of consecutive qualifying
rows; its runs over a whole block are `runsOf`.
-/

namespace KwdbTs.Engine

/-- What an iterator works over once `Init` has run: `entity_ids_`, `p_bts_` and `ts_spans_`. -/
structure IterCtx where
  entityIds : List Nat
  pBts : List PartitionTable
  isReversed : Bool
  tsSpans : List KwTsSpan

/-- The first part of `TsIterator::Init`: `p_bts_` takes the partitions, reversed when
`is_reversed`. -/
def IterCtx.ofInit (entityIds : List Nat) (pBts : List PartitionTable) (isReversed : Bool)
    (tsSpans : List KwTsSpan) : IterCtx :=
  ⟨entityIds, if isReversed then pBts.reverse else pBts, isReversed, tsSpans⟩

/-- The members `Next` keeps between calls. -/
structure IterState where
  curEntityIdx : Nat
  curEntityId : Nat
  curPBtsIdx : Int
  blockItemQueue : List (Option Block)
  curBlockItem : Option Block
  curBlockdataOffset : Nat

/-- Modelled from the spec: the members' initial values (iterator.h is not among the sources):
the first entity and partition, an empty queue, no block item, row offset 1. -/
def IterState.initial : IterState := ⟨0, 0, 0, [], none, 1⟩

/-- `fetchBlockItems(entity_id)`: the queue of `p_bts_[cur_p_bts_idx_]` for the entity. -/
def fetchBlockItems (ctx : IterCtx) (st : IterState) (entityId : Nat) : IterState :=
  match ctx.pBts[st.curPBtsIdx.toNat]? with
  | some p => { st with blockItemQueue := p.getAllBlockItems entityId ctx.isReversed }
  | none => st

/-- The rest of `TsIterator::Init`: the first entity's id, and its queue in the first partition
unless that id is 0. -/
def TsIterator.init (ctx : IterCtx) : IterState :=
  let st := IterState.initial
  let st := if st.curEntityIdx < ctx.entityIds.length then
    { st with curEntityId := ctx.entityIds.getD st.curEntityIdx 0 } else st
  if st.curPBtsIdx < ctx.pBts.length ∧ st.curEntityId ≠ 0 then
    fetchBlockItems ctx st st.curEntityId else st

@[simp] theorem fetchBlockItems_curEntityIdx (ctx : IterCtx) (st : IterState) (e : Nat) :
    (fetchBlockItems ctx st e).curEntityIdx = st.curEntityIdx := by
  unfold fetchBlockItems; split <;> rfl

@[simp] theorem fetchBlockItems_curEntityId (ctx : IterCtx) (st : IterState) (e : Nat) :
    (fetchBlockItems ctx st e).curEntityId = st.curEntityId := by
  unfold fetchBlockItems; split <;> rfl

@[simp] theorem fetchBlockItems_curPBtsIdx (ctx : IterCtx) (st : IterState) (e : Nat) :
    (fetchBlockItems ctx st e).curPBtsIdx = st.curPBtsIdx := by
  unfold fetchBlockItems; split <;> rfl

@[simp] theorem fetchBlockItems_curBlockItem (ctx : IterCtx) (st : IterState) (e : Nat) :
    (fetchBlockItems ctx st e).curBlockItem = st.curBlockItem := by
  unfold fetchBlockItems; split <;> rfl

@[simp] theorem fetchBlockItems_curBlockdataOffset (ctx : IterCtx) (st : IterState) (e : Nat) :
    (fetchBlockItems ctx st e).curBlockdataOffset = st.curBlockdataOffset := by
  unfold fetchBlockItems; split <;> rfl

/-- `Init` positions the iterator at the first entity and partition, with no block item. -/
theorem TsIterator.init_fields (ctx : IterCtx) :
    (TsIterator.init ctx).curEntityIdx = 0 ∧
      (TsIterator.init ctx).curEntityId = ctx.entityIds.getD 0 0 ∧
      (TsIterator.init ctx).curPBtsIdx = 0 ∧ (TsIterator.init ctx).curBlockItem = none ∧
      (TsIterator.init ctx).curBlockdataOffset = 1 := by
  simp only [TsIterator.init, IterState.initial]
  split_ifs <;> simp_all

/-! ## nextBlockItem -/

/-- The queue part of `nextBlockItem`: pop from the front, skipping null entries; `none` once
the queue is empty. -/
def popBlockItem : List (Option Block) → Option (Block × List (Option Block))
  | [] => none
  | none :: rest => popBlockItem rest
  | some b :: rest => some (b, rest)

/-- The partition part of `nextBlockItem`, once the queue is empty: `++cur_p_bts_idx_`, give up
(`-1`) past the last partition, else fetch that partition's queue and pop from it. `rest` are the
partitions after `cur_p_bts_idx_`. Returns the new index, queue and block item. -/
def advancePartition (entityId : Nat) (isReversed : Bool) :
    Int → List PartitionTable → Int × List (Option Block) × Option Block
  | idx, [] => (idx + 1, [], none)
  | idx, p :: ps =>
    match popBlockItem (p.getAllBlockItems entityId isReversed) with
    | some (b, q) => (idx + 1, q, some b)
    | none => advancePartition entityId isReversed (idx + 1) ps

/-- `TsIterator::nextBlockItem(entity_id)`; it returned `-1` when `curBlockItem` is `none`. -/
def nextBlockItem (ctx : IterCtx) (entityId : Nat) (st : IterState) : IterState :=
  let (idx, q, b) :=
    match popBlockItem st.blockItemQueue with
    | some (b, q) => (st.curPBtsIdx, q, some b)
    | none => advancePartition entityId ctx.isReversed st.curPBtsIdx
        (ctx.pBts.drop (st.curPBtsIdx + 1).toNat)
  { st with curPBtsIdx := idx, blockItemQueue := q, curBlockItem := b }

@[simp] theorem nextBlockItem_curEntityIdx (ctx : IterCtx) (e : Nat) (st : IterState) :
    (nextBlockItem ctx e st).curEntityIdx = st.curEntityIdx := rfl

@[simp] theorem nextBlockItem_curEntityId (ctx : IterCtx) (e : Nat) (st : IterState) :
    (nextBlockItem ctx e st).curEntityId = st.curEntityId := rfl

@[simp] theorem nextBlockItem_curBlockdataOffset (ctx : IterCtx) (e : Nat) (st : IterState) :
    (nextBlockItem ctx e st).curBlockdataOffset = st.curBlockdataOffset := rfl

/-! ## What is still to come, and what it costs

The block items still to visit for the current entity: the queue, then the partitions after
`cur_p_bts_idx_`. Each block item is charged its rows plus two, each null entry and each
partition one, so that every pass of a scanning loop pays at least one. -/

section Pending

variable (ctx : IterCtx) (entityId : Nat)

/-- The non-null block items of a queue, in order. -/
def queueBlocks (q : List (Option Block)) : List Block := q.filterMap id

/-- The non-null block items of a run of partitions for the entity, in order. -/
def partitionsBlocks (ps : List PartitionTable) : List Block :=
  ps.flatMap fun p => queueBlocks (p.getAllBlockItems entityId ctx.isReversed)

/-- The block items `nextBlockItem` will still hand out for the entity. -/
def pendingBlocks (st : IterState) : List Block :=
  queueBlocks st.blockItemQueue ++
    partitionsBlocks ctx entityId (ctx.pBts.drop (st.curPBtsIdx + 1).toNat)

/-- The cost of a queue entry. -/
def entryCost : Option Block → Nat
  | none => 1
  | some b => b.publishRowCount + 2

/-- The cost of a queue. -/
def queueCost (q : List (Option Block)) : Nat := (q.map entryCost).sum

/-- The cost of a run of partitions for the entity. -/
def partitionsCost (ps : List PartitionTable) : Nat :=
  (ps.map fun p => 1 + queueCost (p.getAllBlockItems entityId ctx.isReversed)).sum

/-- The cost of what `nextBlockItem` will still hand out for the entity. -/
def pendingCost (st : IterState) : Nat :=
  queueCost st.blockItemQueue +
    partitionsCost ctx entityId (ctx.pBts.drop (st.curPBtsIdx + 1).toNat)

end Pending

section NextBlockItem

variable {ctx : IterCtx} {entityId : Nat}

theorem popBlockItem_some {q : List (Option Block)} {b : Block} {q' : List (Option Block)}
    (h : popBlockItem q = some (b, q')) :
    queueBlocks q = b :: queueBlocks q' ∧ entryCost (some b) + queueCost q' ≤ queueCost q := by
  induction q with
  | nil => cases h
  | cons x q ih =>
    cases x with
    | none =>
      obtain ⟨h1, h2⟩ := ih h
      simp only [queueBlocks, queueCost, List.filterMap_cons, id, List.map_cons,
        List.sum_cons] at h1 h2 ⊢
      exact ⟨h1, by omega⟩
    | some x =>
      cases h
      simp [queueBlocks, queueCost]

theorem popBlockItem_none {q : List (Option Block)} (h : popBlockItem q = none) :
    queueBlocks q = [] := by
  induction q with
  | nil => rfl
  | cons x q ih =>
    cases x with
    | none => simpa [queueBlocks] using ih h
    | some x => cases h

/-- `advancePartition` moves past `k` empty partitions and either hands out the first block
item of the next one or runs off the end. -/
theorem advancePartition_spec (idx : Int) (ps : List PartitionTable) :
    ∃ k : Nat, (advancePartition entityId ctx.isReversed idx ps).1 = idx + 1 + k ∧
      match (advancePartition entityId ctx.isReversed idx ps).2 with
      | (q, some b) =>
        partitionsBlocks ctx entityId ps =
            b :: (queueBlocks q ++ partitionsBlocks ctx entityId (ps.drop (k + 1))) ∧
          entryCost (some b) + queueCost q + partitionsCost ctx entityId (ps.drop (k + 1)) <
            partitionsCost ctx entityId ps
      | (q, none) => partitionsBlocks ctx entityId ps = [] ∧ q = [] ∧ ps.length ≤ k := by
  induction ps generalizing idx with
  | nil => exact ⟨0, by simp [advancePartition], by simp [advancePartition, partitionsBlocks]⟩
  | cons p ps ih =>
    simp only [advancePartition]
    split
    · rename_i b q hpop
      obtain ⟨h1, h2⟩ := popBlockItem_some hpop
      refine ⟨0, by simp, ?_⟩
      simp only [partitionsBlocks, List.flatMap_cons, h1, partitionsCost, List.map_cons,
        List.sum_cons, Nat.zero_add, List.drop_one, List.tail_cons, List.cons_append,
        true_and] at h2 ⊢
      omega
    · rename_i hpop
      obtain ⟨k, hk, hrest⟩ := ih (idx + 1)
      refine ⟨k + 1, by rw [hk]; omega, ?_⟩
      have hp := popBlockItem_none hpop
      split at hrest
      · obtain ⟨h1, h2⟩ := hrest
        simp only [partitionsBlocks, List.flatMap_cons, hp, List.nil_append, partitionsCost,
          List.map_cons, List.sum_cons, List.drop_succ_cons] at h1 h2 ⊢
        exact ⟨h1, by omega⟩
      · obtain ⟨h1, h2, h3⟩ := hrest
        simp only [partitionsBlocks, List.flatMap_cons, hp, List.nil_append,
          List.length_cons] at h1 ⊢
        exact ⟨h1, h2, by omega⟩

/-- What `nextBlockItem` does to what is still to come: it hands out the next pending block item
and pays for it, or finds nothing left. -/
theorem nextBlockItem_spec (st : IterState) (hidx : -1 ≤ st.curPBtsIdx) :
    -1 ≤ (nextBlockItem ctx entityId st).curPBtsIdx ∧
      match (nextBlockItem ctx entityId st).curBlockItem with
      | some b =>
        pendingBlocks ctx entityId st = b :: pendingBlocks ctx entityId (nextBlockItem ctx entityId st) ∧
          entryCost (some b) + pendingCost ctx entityId (nextBlockItem ctx entityId st) ≤
            pendingCost ctx entityId st
      | none =>
        pendingBlocks ctx entityId st = [] ∧ (nextBlockItem ctx entityId st).blockItemQueue = [] ∧
          pendingBlocks ctx entityId (nextBlockItem ctx entityId st) = [] ∧
          pendingCost ctx entityId (nextBlockItem ctx entityId st) = 0 := by
  cases hpop : popBlockItem st.blockItemQueue with
  | some bq =>
    obtain ⟨h1, h2⟩ := popBlockItem_some hpop
    simp only [nextBlockItem, hpop, pendingBlocks, pendingCost, h1, List.cons_append, true_and]
    exact ⟨hidx, by omega⟩
  | none =>
    have hq := popBlockItem_none hpop
    obtain ⟨k, hk, hrest⟩ :=
      @advancePartition_spec ctx entityId st.curPBtsIdx
        (ctx.pBts.drop (st.curPBtsIdx + 1).toNat)
    have hdrop : ((ctx.pBts.drop (st.curPBtsIdx + 1).toNat).drop (k + 1)) =
        ctx.pBts.drop (st.curPBtsIdx + 1 + k + 1).toNat := by
      rw [List.drop_drop]; congr 1; omega
    rcases hadv : advancePartition entityId ctx.isReversed st.curPBtsIdx
      (ctx.pBts.drop (st.curPBtsIdx + 1).toNat) with ⟨idx', q', cur⟩
    rw [hadv] at hk hrest
    simp only at hk
    simp only [nextBlockItem, hpop, hadv, hk]
    refine ⟨by omega, ?_⟩
    cases cur with
    | some b =>
      obtain ⟨h1, h2⟩ := hrest
      simp only [pendingBlocks, pendingCost, hq, List.nil_append, h1, ← hdrop, true_and]
      omega
    | none =>
      obtain ⟨h1, rfl, h3⟩ := hrest
      have hnil : ctx.pBts.drop (st.curPBtsIdx + 1 + k + 1).toNat = [] :=
        List.drop_eq_nil_of_le (by simp only [List.length_drop] at h3; omega)
      subst hk
      simp only [pendingBlocks, pendingCost, hq, h1, hnil, List.nil_append, true_and]
      simp [queueBlocks, queueCost, partitionsBlocks, partitionsCost]

end NextBlockItem

/-! ## The row loop -/

section RowLoop

variable (q : Nat → Bool) (endRow : Nat)

/-- The row loop of `traverseAllBlocks` over the rows left in the block: skip rows that do not
qualify; once one does (`has_data`), take rows while they qualify and stop just past the first
that does not. Returns the rows taken and the new offset, `endRow` (`publish_row_count + 1`)
when the rows run out. -/
def scanRun (hasData : Bool) : List Nat → List Nat × Nat
  | [] => ([], endRow)
  | r :: rs =>
    if q r then Prod.map (r :: ·) id (scanRun true rs)
    else if hasData then ([], r + 1) else scanRun false rs

/-- The runs of consecutive qualifying rows of a list of rows, in order; `cur` is the run being
built, newest row first. -/
def runsOf (cur : List Nat) : List Nat → List (List Nat)
  | [] => if cur = [] then [] else [cur.reverse]
  | r :: rs =>
    if q r then runsOf (r :: cur) rs
    else if cur = [] then runsOf [] rs else cur.reverse :: runsOf [] rs

end RowLoop

section RowLoopSpec

variable {q : Nat → Bool}

/-- The loop moves the offset forward, by at least one row when any row is left. -/
theorem scanRun_offset (hasData : Bool) (o k : Nat) :
    o ≤ (scanRun q (o + k) hasData (List.range' o k)).2 ∧
      (scanRun q (o + k) hasData (List.range' o k)).2 ≤ o + k ∧
      (0 < k → o < (scanRun q (o + k) hasData (List.range' o k)).2) := by
  induction k generalizing o hasData with
  | zero => simp [scanRun]
  | succ k ih =>
    rw [List.range'_succ, show o + (k + 1) = o + 1 + k by omega]
    simp only [scanRun]
    split_ifs
    · simp only [Prod.map_snd, id]; have := ih true (o + 1); omega
    · simp only; omega
    · have := ih false (o + 1); omega

/-- Once a run has started, `runsOf` closes it where the loop stops, and carries on from the
new offset. -/
theorem runsOf_scanRun_of_ne_nil (o k : Nat) {cur : List Nat} (hcur : cur ≠ []) :
    runsOf q cur (List.range' o k) =
      (cur.reverse ++ (scanRun q (o + k) true (List.range' o k)).1) ::
        runsOf q [] (List.range' (scanRun q (o + k) true (List.range' o k)).2
          (o + k - (scanRun q (o + k) true (List.range' o k)).2)) := by
  induction k generalizing o cur with
  | zero => simp [runsOf, scanRun, hcur]
  | succ k ih =>
    rw [List.range'_succ, show o + (k + 1) = o + 1 + k by omega]
    by_cases hq : q o
    · simp only [runsOf, scanRun, hq, if_true, Prod.map_fst, Prod.map_snd, id]
      rw [ih (o + 1) (List.cons_ne_nil o cur)]
      simp
    · simp [runsOf, scanRun, hq, hcur, Nat.add_sub_cancel_left]

/-- One pass of the loop from the offset yields the next run, if any, and the runs after it
start at the new offset. -/
theorem runsOf_scanRun (o k : Nat) :
    runsOf q [] (List.range' o k) =
      (if (scanRun q (o + k) false (List.range' o k)).1 = [] then []
        else [(scanRun q (o + k) false (List.range' o k)).1]) ++
        runsOf q [] (List.range' (scanRun q (o + k) false (List.range' o k)).2
          (o + k - (scanRun q (o + k) false (List.range' o k)).2)) := by
  induction k generalizing o with
  | zero => simp [runsOf, scanRun]
  | succ k ih =>
    rw [List.range'_succ, show o + (k + 1) = o + 1 + k by omega]
    by_cases hq : q o
    · simp only [runsOf, scanRun, hq, if_true, Prod.map_fst, Prod.map_snd, id]
      rw [runsOf_scanRun_of_ne_nil (o + 1) k (List.cons_ne_nil o [])]
      simp
    · simp only [runsOf, scanRun, hq, if_false, Bool.false_eq_true]
      exact ih (o + 1)

/-- When every row qualifies, the loop takes them all. -/
theorem scanRun_of_all (endRow : Nat) (hasData : Bool) (l : List Nat) (h : ∀ r ∈ l, q r = true) :
    scanRun q endRow hasData l = (l, endRow) := by
  induction l generalizing hasData with
  | nil => rfl
  | cons r l ih =>
    simp only [List.mem_cons, forall_eq_or_imp] at h
    simp [scanRun, h.1, ih true h.2]

/-- The runs hold exactly the qualifying rows, in order. -/
theorem flatten_runsOf (cur l : List Nat) :
    (runsOf q cur l).flatten = cur.reverse ++ l.filter q := by
  induction l generalizing cur with
  | nil => by_cases h : cur = [] <;> simp [runsOf, h]
  | cons r l ih =>
    by_cases hq : q r
    · simp [runsOf, hq, ih]
    · by_cases h : cur = [] <;> simp [runsOf, hq, h, ih]

/-- No run is empty. -/
theorem ne_nil_of_mem_runsOf {cur l run : List Nat} (h : run ∈ runsOf q cur l) : run ≠ [] := by
  induction l generalizing cur with
  | nil =>
    by_cases hc : cur = [] <;> simp_all [runsOf]
  | cons r l ih =>
    simp only [runsOf] at h
    split_ifs at h with hq hc
    · exact ih h
    · exact ih h
    · rcases List.mem_cons.mp h with rfl | h
      · simpa using hc
      · exact ih h

end RowLoopSpec

end KwdbTs.Engine
