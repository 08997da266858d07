import Mathlib

/-!
# Blocks, partitions and timestamp spans as the iterators read them

A `Block` joins a block item (`publish_row_count`, `is_agg_res_available`, the deleted bitmap)
with what the iterators read of its rows in the segment: column 0's timestamps, the other
columns' values (`none` for NULL) and the stored per-block aggregates. A `PartitionTable` is
what `GetAllBlockItems` and `getEntityItem` return. The span tests live in iterator.h, which is
not among the sources; they follow the spec's words.
-/

namespace KwdbTs.Engine

/-- `KwTsSpan`: a range of timestamps, both ends included. -/
structure KwTsSpan where
  begin : Int
  «end» : Int
  deriving Repr, DecidableEq

/-- Modelled from the spec: `checkIfTsInSpan(ts)` holds when some span of `ts_spans_` holds
`ts`. -/
def checkIfTsInSpan (tsSpans : List KwTsSpan) (ts : Int) : Bool :=
  tsSpans.any fun s => decide (s.begin ≤ ts) && decide (ts ≤ s.«end»)

/-- Modelled from the spec: `isTimestampWithinSpans(ts_spans, min, max)` holds when one span
holds all of `[min, max]`. -/
def isTimestampWithinSpans (tsSpans : List KwTsSpan) (minTs maxTs : Int) : Bool :=
  tsSpans.any fun s => decide (s.begin ≤ minTs) && decide (maxTs ≤ s.«end»)

/-- Modelled from the spec: `isTimestampInSpans(ts_spans, min, max)` holds when some span meets
`[min, max]`. -/
def isTimestampInSpans (tsSpans : List KwTsSpan) (minTs maxTs : Int) : Bool :=
  tsSpans.any fun s => decide (s.begin ≤ maxTs) && decide (minTs ≤ s.«end»)

/-- A block: its item and the segment data of its rows `1..publish_row_count`. The stored
timestamp bounds of column 0 bound every row's timestamp. -/
structure Block where
  blockId : Nat
  publishRowCount : Nat
  isAggResAvailable : Bool
  isOverflow : Bool
  /-- `isDeleted(row)`. -/
  deleted : Nat → Bool
  /-- Column 0 at each row. -/
  ts : Nat → Int
  /-- `value col row`; `none` when the row is NULL in `col`. -/
  value : Nat → Nat → Option Int
  /-- Column 0's stored MIN and MAX: `getBlockMinTs`, `getBlockMaxTs`. -/
  minTs : Int
  maxTs : Int
  /-- The stored COUNT, MIN, MAX and SUM of each other column. -/
  aggCount : Nat → Nat
  aggMin : Nat → Option Int
  aggMax : Nat → Option Int
  aggSum : Nat → Int
  tsBounds : ∀ r, 1 ≤ r → r ≤ publishRowCount → minTs ≤ ts r ∧ ts r ≤ maxTs

/-- What the iterators ask of a partition: `GetAllBlockItems(entity_id, queue, reverse)`,
whose queue may hold null entries, and the entity's recorded `min_ts` and `max_ts`. Entity ids
start at 1: `TsIterator::Init` takes 0 for "no entity", and no block belongs to it. -/
structure PartitionTable where
  getAllBlockItems : Nat → Bool → List (Option Block)
  entityMinTs : Nat → Int
  entityMaxTs : Nat → Int
  noBlocksOfEntityZero : ∀ reverse, getAllBlockItems 0 reverse = []

attribute [simp] PartitionTable.noBlocksOfEntityZero

/-- A row that the scans take: not deleted, and inside some span. -/
def rowQualifies (tsSpans : List KwTsSpan) (b : Block) (r : Nat) : Bool :=
  !b.deleted r && checkIfTsInSpan tsSpans (b.ts r)

/-- One span holding the stored bounds holds every row of the block. -/
theorem checkIfTsInSpan_of_within {tsSpans : List KwTsSpan} {b : Block}
    (h : isTimestampWithinSpans tsSpans b.minTs b.maxTs = true) {r : Nat} (h1 : 1 ≤ r)
    (h2 : r ≤ b.publishRowCount) : checkIfTsInSpan tsSpans (b.ts r) = true := by
  obtain ⟨s, hs, hin⟩ := List.any_eq_true.mp h
  have := b.tsBounds r h1 h2
  simp only [Bool.and_eq_true, decide_eq_true_eq] at hin
  exact List.any_eq_true.mpr ⟨s, hs, by simp only [Bool.and_eq_true, decide_eq_true_eq]; omega⟩

end KwdbTs.Engine
