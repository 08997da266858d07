import KwdbTs.Engine.TsIterator

/-!
# The aggregate iterator

`TsAggIterator` (engine/iterator.cpp) returns one row of aggregates per entity. When every
requested aggregate is of the first family, the last family or both, `Next` takes the
short-circuit (`findFirstData`, `findLastData`, `findFirstLastData`): it walks partitions, block
items and rows from the near end and stops at a row stamped with the entity's recorded
`min_ts` / `max_ts` once every requested column has a candidate. Otherwise it calls
`traverseAllBlocks` until it returns no rows: each call takes the whole block (when the stored
aggregates can stand for it) or the next run of live rows inside the spans, records the
first/last candidates row by row, and pushes per-run partial aggregates that `Next` then
combines.

Values are integers: floats, and the double that SUM turns into on overflow, are not modelled.
-/

namespace KwdbTs.Engine

/-- `Sumfunctype`: the aggregate a scan column asks for. -/
inductive Sumfunctype
  | max | min | sum | count
  | first | firstts | firstRow | firstrowts
  | last | lastts | lastRow | lastrowts
  deriving Repr, DecidableEq, Inhabited

/-- The two ends the first/last aggregates look for. -/
inductive Edge
  | first
  | last
  deriving Repr, DecidableEq, Inhabited

/-- The edge an aggregate of the first or last family looks for. -/
def Sumfunctype.edge : Sumfunctype → Option Edge
  | .first | .firstts | .firstRow | .firstrowts => some .first
  | .last | .lastts | .lastRow | .lastrowts => some .last
  | _ => none

/-- `FIRST_ROW`, `FIRSTROWTS`, `LAST_ROW`, `LASTROWTS`: the row pair, not a column's pair. -/
def Sumfunctype.isRowType : Sumfunctype → Bool
  | .firstRow | .firstrowts | .lastRow | .lastrowts => true
  | _ => false

/-- An aggregate iterator: a `TsIterator` and its scan columns, `ts_scan_cols_` with
`scan_agg_types_`. `actualColMatches b col` says whether the segment of `b` stores `col` with the
table's type and width (`GetActualCol` against `attrs_`). -/
structure AggCtx extends IterCtx where
  scanCols : List (Nat × Sumfunctype)
  actualColMatches : Block → Nat → Bool

section Flags

variable (ctx : AggCtx)

/-- Modelled from the spec: `onlyHasFirstAggType`, `onlyHasLastAggType`,
`onlyHasFirstLastAggType` and the `no_*_type_` flags (iterator.h is not among the sources). -/
def onlyHasEdgeAggType (edge : Edge) : Bool :=
  ctx.scanCols.all fun c => c.2.edge = some edge

def onlyHasFirstLastAggType : Bool :=
  ctx.scanCols.all fun c => c.2.edge.isSome

def noFirstLastType : Bool :=
  ctx.scanCols.all fun c => c.2.edge.isNone

def noEdgeRowType (edge : Edge) : Bool :=
  ctx.scanCols.all fun c => !(c.2.edge = some edge && c.2.isRowType)

end Flags

/-! ## First and last candidates -/

/-- A candidate of `first_pairs_` and the like: the partition index, the row's timestamp and
the row. A column with no candidate (`pt_idx < 0`) holds `none`. -/
structure RowPick where
  ptIdx : Int
  ts : Int
  block : Block
  row : Nat

/-- `first_pairs_`, `last_pairs_` (one candidate per column asked with `FIRST`/`FIRSTTS`,
`LAST`/`LASTTS`), `first_row_pair_` and `last_row_pair_`. -/
structure PickRecords where
  firstPairs : List (Nat × Option RowPick)
  lastPairs : List (Nat × Option RowPick)
  firstRowPair : Option RowPick
  lastRowPair : Option RowPick

/-- The records with no candidate, keyed by the columns asked for. -/
def PickRecords.empty (ctx : AggCtx) : PickRecords :=
  ⟨(ctx.scanCols.filter fun c => c.2 = .first ∨ c.2 = .firstts).map (·.1, none),
   (ctx.scanCols.filter fun c => c.2 = .last ∨ c.2 = .lastts).map (·.1, none), none, none⟩

def PickRecords.pairs (recs : PickRecords) : Edge → List (Nat × Option RowPick)
  | .first => recs.firstPairs
  | .last => recs.lastPairs

def PickRecords.rowPair (recs : PickRecords) : Edge → Option RowPick
  | .first => recs.firstRowPair
  | .last => recs.lastRowPair

/-- A row stamped `ts` beats a candidate stamped `cand`: earlier for first, later for last. -/
def Edge.beats : Edge → Int → Int → Bool
  | .first, ts, cand => decide (ts < cand)
  | .last, ts, cand => decide (cand < ts)

/-- One candidate's update: `(cand_ts == INVALID_TS || beats) && !isNullValue(row, col)`. -/
def pickRow (edge : Edge) (idx ts : Int) (b : Block) (r : Nat) (notNull : Bool) :
    Option RowPick → Option RowPick
  | none => if notNull then some ⟨idx, ts, b, r⟩ else none
  | some c => if edge.beats ts c.ts && notNull then some ⟨idx, ts, b, r⟩ else some c

/-- The update of one edge's records by row `r` of `b`, stamped `ts`, in partition `idx`. -/
def updateEdgeCols (edge : Edge) (idx ts : Int) (b : Block) (r : Nat) (recs : PickRecords) :
    PickRecords :=
  match edge with
  | .first =>
    { recs with
      firstPairs := recs.firstPairs.map fun c =>
        (c.1, pickRow .first idx ts b r (b.value c.1 r).isSome c.2)
      firstRowPair := pickRow .first idx ts b r true recs.firstRowPair }
  | .last =>
    { recs with
      lastPairs := recs.lastPairs.map fun c =>
        (c.1, pickRow .last idx ts b r (b.value c.1 r).isSome c.2)
      lastRowPair := pickRow .last idx ts b r true recs.lastRowPair }

@[simp] theorem updateEdgeCols_pairs (edge : Edge) (idx ts : Int) (b : Block) (r : Nat)
    (recs : PickRecords) :
    (updateEdgeCols edge idx ts b r recs).pairs edge =
      (recs.pairs edge).map fun c => (c.1, pickRow edge idx ts b r (b.value c.1 r).isSome c.2) := by
  cases edge <;> rfl

@[simp] theorem updateEdgeCols_rowPair (edge : Edge) (idx ts : Int) (b : Block) (r : Nat)
    (recs : PickRecords) :
    (updateEdgeCols edge idx ts b r recs).rowPair edge =
      pickRow edge idx ts b r true (recs.rowPair edge) := by
  cases edge <;> rfl

/-- The update of one edge's records leaves the other edge's. -/
theorem updateEdgeCols_of_ne {edge edge' : Edge} (h : edge ≠ edge') (idx ts : Int) (b : Block)
    (r : Nat) (recs : PickRecords) :
    (updateEdgeCols edge idx ts b r recs).pairs edge' = recs.pairs edge' ∧
      (updateEdgeCols edge idx ts b r recs).rowPair edge' = recs.rowPair edge' := by
  cases edge <;> cases edge' <;> first | exact absurd rfl h | exact ⟨rfl, rfl⟩

/-- `updateFirstCols(ts, row_id)`, with `cur_first_idx_`. -/
def updateFirstCols (idx ts : Int) (b : Block) (r : Nat) (recs : PickRecords) : PickRecords :=
  updateEdgeCols .first idx ts b r recs

/-- `updateLastCols(ts, row_id)`, with `cur_last_idx_`. -/
def updateLastCols (idx ts : Int) (b : Block) (r : Nat) (recs : PickRecords) : PickRecords :=
  updateEdgeCols .last idx ts b r recs

/-- `updateFirstLastCols(ts, row_id)`, with `cur_p_bts_idx_`. -/
def updateFirstLastCols (idx ts : Int) (b : Block) (r : Nat) (recs : PickRecords) :
    PickRecords :=
  updateEdgeCols .last idx ts b r (updateEdgeCols .first idx ts b r recs)

/-- `updateFirstLastCols` on each row of a run of `b`, in order. -/
def updateRunCols (idx : Int) (b : Block) (rows : List Nat) (recs : PickRecords) : PickRecords :=
  rows.foldl (fun recs r => updateFirstLastCols idx (b.ts r) b r recs) recs

/-- Modelled from the spec: `hasFoundFirstAggData` / `hasFoundLastAggData` hold once every
requested column has a candidate, and the row pair has one when a `*_ROW` aggregate is asked
for. -/
def hasFoundEdgeAggData (edge : Edge) (noRowType : Bool) (recs : PickRecords) : Bool :=
  (recs.pairs edge).all (·.2.isSome) && (noRowType || (recs.rowPair edge).isSome)

/-- `isAllNullValue(block_id, count, cols)`: every listed column is NULL on rows `1..count`. -/
def isAllNullValue (b : Block) (count : Nat) (cols : List Nat) : Bool :=
  cols.all fun col => (List.range' 1 count).all fun r => (b.value col r).isNone

/-! ## The short-circuit: findFirstData, findLastData -/

/-- What `findFirstData` and `findLastData` take from their edge: the order of partitions,
block items and rows, and the entity's recorded bound. -/
def Edge.partitionOrder : Edge → List PartitionTable → List (Nat × PartitionTable)
  | .first, ps => ps.enum
  | .last, ps => ps.enum.reverse

def Edge.queueOrder : Edge → List (Option Block) → List (Option Block)
  | .first, q => q
  | .last, q => q.reverse

def Edge.rowOrder : Edge → Block → List Nat
  | .first, b => List.range' 1 b.publishRowCount
  | .last, b => (List.range' 1 b.publishRowCount).reverse

def Edge.entityBound : Edge → PartitionTable → Nat → Int
  | .first, p, e => p.entityMinTs e
  | .last, p, e => p.entityMaxTs e

section Find

variable (ctx : AggCtx) (edge : Edge) (entityId : Nat)

/-- The row loop of the short-circuit over one block: skip deleted rows and rows outside the
spans, update the candidates, and stop (`has_found`) at a row stamped with the entity's bound
once every requested column has a candidate. -/
def findEdgeRows (idx : Int) (bound : Int) (b : Block) : List Nat → PickRecords →
    PickRecords × Bool
  | [], recs => (recs, false)
  | r :: rs, recs =>
    if b.deleted r || !checkIfTsInSpan ctx.tsSpans (b.ts r) then
      findEdgeRows idx bound b rs recs
    else
      let recs := updateEdgeCols edge idx (b.ts r) b r recs
      if hasFoundEdgeAggData edge (noEdgeRowType ctx edge) recs && decide (b.ts r = bound) then
        (recs, true)
      else findEdgeRows idx bound b rs recs

/-- The block loop of the short-circuit over one partition's queue: skip null and empty block
items, blocks all NULL in the scan columns (when no `*_ROW` aggregate is asked for), and blocks
whose bounds miss every span. -/
def findEdgeBlocks (idx : Int) (bound : Int) : List (Option Block) → PickRecords →
    PickRecords × Bool
  | [], recs => (recs, false)
  | none :: q, recs => findEdgeBlocks idx bound q recs
  | some b :: q, recs =>
    if b.publishRowCount = 0 then findEdgeBlocks idx bound q recs
    else if noEdgeRowType ctx edge &&
        isAllNullValue b b.publishRowCount (ctx.scanCols.map (·.1)) then
      findEdgeBlocks idx bound q recs
    else if !isTimestampInSpans ctx.tsSpans b.minTs b.maxTs then
      findEdgeBlocks idx bound q recs
    else
      match findEdgeRows ctx edge idx bound b (edge.rowOrder b) recs with
      | (recs, true) => (recs, true)
      | (recs, false) => findEdgeBlocks idx bound q recs

/-- The partition loop of the short-circuit: stop after the first partition that leaves every
requested column with a candidate. -/
def findEdgePartitions : List (Nat × PartitionTable) → PickRecords → PickRecords
  | [], recs => recs
  | (i, p) :: ps, recs =>
    let recs := (findEdgeBlocks ctx edge i (edge.entityBound p entityId)
      (edge.queueOrder (p.getAllBlockItems entityId false)) recs).1
    if hasFoundEdgeAggData edge (noEdgeRowType ctx edge) recs then recs
    else findEdgePartitions ps recs

/-- `findFirstData` / `findLastData` from fresh records: the candidates it leaves. -/
def findEdgeData (recs : PickRecords) : PickRecords :=
  if hasFoundEdgeAggData edge (noEdgeRowType ctx edge) recs then recs
  else findEdgePartitions ctx edge entityId (edge.partitionOrder ctx.pBts) recs

end Find

/-- The batch of one scan column from the candidates: the value of the picked row (NULL when it
is NULL there), or its timestamp; `none` for no candidate or an aggregate of the other kind. -/
def edgeResult (edge : Edge) (recs : PickRecords) (col : Nat) (agg : Sumfunctype) :
    Option Int :=
  if agg.edge ≠ some edge then none
  else
    let pick := if agg.isRowType then recs.rowPair edge
      else ((recs.pairs edge).find? (·.1 = col)).bind (·.2)
    match agg with
    | .firstts | .firstrowts | .lastts | .lastrowts => pick.map (·.ts)
    | _ => pick.bind fun p => p.block.value col p.row

/-- The results of all scan columns for an edge. -/
def edgeResults (ctx : AggCtx) (edge : Edge) (recs : PickRecords) : List (Option Int) :=
  ctx.scanCols.map fun c => edgeResult edge recs c.1 c.2

/-- `findFirstData(res, count, INVALID_TS)` for the entity. -/
def findFirstData (ctx : AggCtx) (entityId : Nat) : List (Option Int) :=
  edgeResults ctx .first (findEdgeData ctx .first entityId (PickRecords.empty ctx))

/-- `findLastData(res, count, INVALID_TS)` for the entity. -/
def findLastData (ctx : AggCtx) (entityId : Nat) : List (Option Int) :=
  edgeResults ctx .last (findEdgeData ctx .last entityId (PickRecords.empty ctx))

/-- `findFirstLastData`: each column gets the batch of its own edge. -/
def findFirstLastData (ctx : AggCtx) (entityId : Nat) : List (Option Int) :=
  List.zipWith (fun a b => a <|> b) (findFirstData ctx entityId) (findLastData ctx entityId)

/-! ## The general path: traverseAllBlocks -/

/-- The iterator state with the candidates `traverseAllBlocks` records. -/
structure AggState extends IterState where
  recs : PickRecords

/-- Modelled from the spec: what `AggCalculator` computes over the non-NULL values of a run:
MIN, MAX and SUM (none without a value), and COUNT. -/
def calcAggregate (agg : Sumfunctype) (vals : List Int) : Option Int :=
  match agg with
  | .max => vals.max?
  | .min => vals.min?
  | .sum => if vals = [] then none else some vals.sum
  | .count => some vals.length
  | _ => none

/-- The partial aggregate `traverseAllBlocks` pushes for one scan column and a run of rows:
`none` when the column is NULL on the whole run (`hasValue`) or the aggregate has no partial.
The stored aggregates stand for the run only when it is the whole published block, they are
available and the segment stores the column as the table does; SUM is recomputed when the block
overflowed. -/
def runPartial (ctx : AggCtx) (b : Block) (rows : List Nat) (col : Nat) (agg : Sumfunctype) :
    Option Int :=
  let vals := rows.filterMap (b.value col)
  if vals = [] then none
  else if rows.length < b.publishRowCount || !b.isAggResAvailable ||
      !ctx.actualColMatches b col then
    calcAggregate agg vals
  else
    match agg with
    | .sum => if b.isOverflow then calcAggregate .sum vals else some (b.aggSum col)
    | .max => b.aggMax col
    | .min => b.aggMin col
    | .count => some (b.aggCount col)
    | _ => none

/-- The fast path of `traverseAllBlocks`: no first/last aggregate, stored aggregates available,
a non-empty block at offset 1 whose stored MAX and MIN timestamps each pass `checkIfTsInSpan`,
and no deleted row. -/
def aggFastPath (ctx : AggCtx) (b : Block) (offset : Nat) : Bool :=
  noFirstLastType ctx && b.isAggResAvailable && decide (0 < b.publishRowCount) &&
    decide (offset = 1) && checkIfTsInSpan ctx.tsSpans b.maxTs &&
    checkIfTsInSpan ctx.tsSpans b.minTs &&
    ((List.range' 1 b.publishRowCount).find? b.deleted).isNone

/-- How one pass of the loop in `traverseAllBlocks` ends. -/
inductive TraversePass
  /-- `nextBlockItem` returned -1: `break` with `*count = 0`. -/
  | done (st : AggState)
  | next (st : AggState)
  /-- `return SUCCESS` with the run's partials, one per scan column. -/
  | run (partials : List (Option Int)) (st : AggState)

/-- One pass of the `while (true)` loop of `traverseAllBlocks` with `ts = INVALID_TS`. -/
def traversePass (ctx : AggCtx) (st : AggState) : TraversePass :=
  match st.curBlockItem with
  | none =>
    let it := nextBlockItem ctx.toIterCtx st.curEntityId st.toIterState
    match it.curBlockItem with
    | some _ => .next { st with toIterState := it }
    | none => .done { st with toIterState := it }
  | some b =>
    let o := st.curBlockdataOffset
    let fast := aggFastPath ctx b o
    let taken := if fast then (List.range' 1 b.publishRowCount, b.publishRowCount + 1)
      else scanRun (rowQualifies ctx.tsSpans b) (b.publishRowCount + 1) false
        (List.range' o (b.publishRowCount + 1 - o))
    let recs := if fast then st.recs else updateRunCols st.curPBtsIdx b taken.1 st.recs
    let it := { st.toIterState with curBlockdataOffset := taken.2 }
    let it := if b.publishRowCount < taken.2 then
        nextBlockItem ctx.toIterCtx it.curEntityId { it with curBlockdataOffset := 1 }
      else it
    if taken.1 = [] then .next ⟨it, recs⟩
    else .run (ctx.scanCols.map fun c => runPartial ctx b taken.1 c.1 c.2) ⟨it, recs⟩

/-- `traverseAllBlocks`, allowed `fuel` passes: `none` if they do not suffice, else the run's
partials (`none` when it returned no rows) and the state after. -/
def traverseAllBlocks (ctx : AggCtx) : Nat → AggState →
    Option (Option (List (Option Int)) × AggState)
  | 0, _ => none
  | fuel + 1, st =>
    match traversePass ctx st with
    | .done st => some (none, st)
    | .run ps st => some (some ps, st)
    | .next st => traverseAllBlocks ctx fuel st

/-- The `do ... while (*count != 0)` loop of `Next` over `traverseAllBlocks`, allowed `calls`
calls of `fuel` passes each: the partials of every run, in order, and the state after. -/
def collectRuns (ctx : AggCtx) (fuel : Nat) : Nat → AggState →
    Option (List (List (Option Int)) × AggState)
  | 0, _ => none
  | calls + 1, st =>
    match traverseAllBlocks ctx fuel st with
    | none => none
    | some (none, st) => some ([], st)
    | some (some ps, st) => (collectRuns ctx fuel calls st).map fun r => (ps :: r.1, r.2)

/-- How `Next` combines one column's partials: the extremum, the sum (NULL with no partial),
or the total count. The first/last aggregates come from the candidates instead. -/
def combinePartials (agg : Sumfunctype) (ps : List Int) : Option Int :=
  match agg with
  | .max => ps.max?
  | .min => ps.min?
  | .sum => if ps = [] then none else some ps.sum
  | .count => some ps.sum
  | _ => none

/-- The general path of `Next` for the current entity once the runs are collected: no row when
no run pushed anything and no first/last aggregate is asked for; otherwise one result per scan
column, and no row when all of them are NULL (`isAllAggResNull`). -/
def generalResults (ctx : AggCtx) (runs : List (List (Option Int))) (recs : PickRecords) :
    Option (List (Option Int)) :=
  if (runs.all fun ps => ps.all Option.isNone) && noFirstLastType ctx then none
  else
    let res := ctx.scanCols.enum.map fun (i, col, agg) =>
      match agg.edge with
      | some edge => edgeResult edge recs col agg
      | none => combinePartials agg (runs.filterMap fun ps => ps.getD i none)
    if res.all Option.isNone then none else some res

/-- The general path of `Next`: collect the runs of `traverseAllBlocks`, then combine. -/
def aggNextGeneral (ctx : AggCtx) (fuel calls : Nat) (st : AggState) :
    Option (Option (List (Option Int))) :=
  (collectRuns ctx fuel calls st).map fun r => generalResults ctx r.1 r.2.recs

/-- `TsAggIterator::Next` with `ts = INVALID_TS`, from the state positioned at an entity:
`none` for `*is_finished`, `some none` for a call that returns no row, and `some (some r)` for
the row `r`. The general path is allowed `calls` calls of `traverseAllBlocks` of `fuel` passes
each, and yields `none` (inside the `some`) if they do not suffice. `reset()` (iterator.h) is
not modelled: the state after the call is not returned. -/
def aggNext (ctx : AggCtx) (fuel calls : Nat) (st : AggState) :
    Option (Option (Option (List (Option Int)))) :=
  if ctx.entityIds.length ≤ st.curEntityIdx then none
  else if ctx.pBts.isEmpty then some (some none)
  else
    let e := ctx.entityIds.getD st.curEntityIdx 0
    let st := { st with curEntityId := e }
    if onlyHasEdgeAggType ctx .first then some (some (allNullToNone (findFirstData ctx e)))
    else if onlyHasEdgeAggType ctx .last then some (some (allNullToNone (findLastData ctx e)))
    else if onlyHasFirstLastAggType ctx then
      some (some (allNullToNone (findFirstLastData ctx e)))
    else some (aggNextGeneral ctx fuel calls st)
where
  /-- `isAllAggResNull(res)`: no row when every result is NULL. -/
  allNullToNone (res : List (Option Int)) : Option (List (Option Int)) :=
    if res.all Option.isNone then none else some res

/-- `TsAggIterator::Init` after `TsIterator::Init`: no candidates yet. -/
def AggState.init (ctx : AggCtx) : AggState := ⟨TsIterator.init ctx.toIterCtx, .empty ctx⟩

end KwdbTs.Engine
