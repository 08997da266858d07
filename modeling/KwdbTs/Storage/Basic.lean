import Mathlib.Tactic.Common
import Mathlib.Data.List.Nodup
import Mathlib.Data.List.Count

/-!
# Shared vocabulary of the storage layer

Status codes, the row and span handles the write path passes around, and the ledger of
partition-table references: `GetPartitionTable` and `GetPartitionTables` take a reference that
`ReleasePartitionTable` gives back (ts_table.cpp, iterator.cpp).
-/

namespace KwdbTs.Storage

inductive KStatus
  | success
  | fail
  deriving Repr, DecidableEq

/-- A `MetricRowID`: a block and a 1-based row in it. -/
structure MetricRowID where
  blockId : Nat
  offsetRow : Nat
  deriving Repr, DecidableEq

/-- A `BlockSpan`: `rowNum` rows of a block from `startRow` on, reserved by a write. -/
structure BlockSpan where
  blockId : Nat
  startRow : Nat
  rowNum : Nat
  deriving Repr, DecidableEq

/-- A partition table, named by its address (`MMapPartitionTable*`). -/
def PartitionId := Nat
  deriving Repr, DecidableEq

instance : OfNat PartitionId n := ⟨(n : Nat)⟩

/-- One change of a partition table's reference count. -/
inductive PartitionRef
  | acquire (part : PartitionId)
  | release (part : PartitionId)
  deriving Repr, DecidableEq

/-- Every partition table is released exactly as many times as it was acquired. -/
def RefsBalanced (refs : List PartitionRef) : Prop :=
  ∀ part, refs.count (.acquire part) = refs.count (.release part)

theorem refsBalanced_append {a b : List PartitionRef} (ha : RefsBalanced a) (hb : RefsBalanced b) :
    RefsBalanced (a ++ b) := fun part => by
  simp only [List.count_append, ha part, hb part]

end KwdbTs.Storage
