import Mathlib.Tactic.Common

/-! Reading a column through the table schema when the segment stored it with another type
or width: TsAggIterator::getActualColMem (engine/iterator.cpp). traverseAllBlocks calls it for
MIN and MAX on a run of count rows starting at the 1-based block row first_row, and builds an
AggCalculator over the returned buffer with that first_row, so cell j stands for block row
first_row + j. The copy loop of the same-type, different-width branch indexes both the buffer
and the segment from start_row - 1 instead of mapping cell idx to row start_row + idx. -/
namespace KwdbTs.Engine

/-- A byte buffer, addressed from its start. -/
abbrev Buffer := Nat → UInt8

/-- memcpy(value + dst, src, len). -/
def memcpy (value : Buffer) (dst : Nat) (src : Nat → UInt8) (len : Nat) : Buffer :=
  fun a => if dst ≤ a ∧ a < dst + len then src (a - dst) else value a

@[simp] theorem memcpy_apply (value : Buffer) (dst : Nat) (src : Nat → UInt8) (len a : Nat) :
    memcpy value dst src len a = if dst ≤ a ∧ a < dst + len then src (a - dst) else value a :=
  rfl

/-- Cell j of a buffer of size-byte cells. -/
def cell (value : Buffer) (size j : Nat) : List UInt8 :=
  (List.range size).map fun k => value (j * size + k)

/-- The column types getActualColMem tells apart: the two variable-length ones, and every
fixed-length type by its code. -/
inductive DataType
  | fixedLen (code : Nat)
  | varstring
  | varbinary
  deriving DecidableEq, Repr

/-- The type and width of a column: schema_info[ts_col] for the segment, attrs_[ts_col] for
the table. -/
structure AttributeInfo where
  type : DataType
  size : Nat
  deriving DecidableEq, Repr

/-- What getActualColMem reads of the current block through code outside the modelled files:
the segment's bytes, ConvertToFixedLen, VarColumnBatch::isNull and ConvertVarLen. -/
structure ConvertEnv where
  /-- Byte k at segment_tbl->columnAddrByBlk(block_id, r, ts_col): r counts from 0. -/
  columnByte : Nat → Nat → UInt8
  /-- ConvertToFixedLen for count rows from start_row: the filled buffer, none on failure. -/
  convertToFixedLen : Nat → Nat → Option Buffer
  /-- VarColumnBatch(count, bitmap, start_row, ...).isNull(j): none when the call fails. -/
  isNull : Nat → Nat → Option Bool
  /-- ConvertVarLen(..., row, ts_col). -/
  convertVarLen : Nat → List UInt8

/-- What getActualColMem leaves in *mem and var_mem. -/
structure ActualColMem where
  mem : Option Buffer
  varMem : List (List UInt8)

section Widened

variable (columnByte : Nat → Nat → UInt8) (oldSize newSize : Nat)

/-- The copy loop body for each idx in turn:
memcpy(value + idx * newSize, columnAddrByBlk(block_id, idx, ts_col), oldSize). -/
def copyRows (value : Buffer) : List Nat → Buffer
  | [] => value
  | idx :: rest => copyRows (memcpy value (idx * newSize) (columnByte idx) oldSize) rest

/-- The same-type, different-width branch: a zeroed buffer of count cells, then
for (k_uint32 idx = start_row - 1; idx < count; ++idx) the copy. start_row is a block row,
at least 1, so start_row - 1 does not wrap. -/
def copyWidened (startRow count : Nat) : Buffer :=
  copyRows columnByte oldSize newSize (fun _ => 0)
    (List.range' (startRow - 1) (count - (startRow - 1)))

/-- The value of 0-based segment row r copied into a newSize-byte cell: its oldSize bytes,
then the zeros of the memset. -/
def widen (r : Nat) : List UInt8 :=
  (List.range newSize).map fun k => if k < oldSize then columnByte r k else 0

/-- What the AggCalculator over the buffer should see for a run of count rows from the
1-based block row startRow: cell j holds block row startRow + j, which is 0-based segment row
startRow + j - 1. -/
def runValues (startRow count : Nat) : List (List UInt8) :=
  (List.range count).map fun j => widen columnByte oldSize newSize (startRow + j - 1)

end Widened

/-- The var-length branch: for j < count, skip null rows and push
ConvertVarLen(..., start_row + j - 1, ts_col); a failing isNull returns -1. -/
def collectVarValues (env : ConvertEnv) (startRow : Nat) : List Nat → Option (List (List UInt8))
  | [] => some []
  | j :: js =>
    match env.isNull startRow j with
    | none => none
    | some true => collectVarValues env startRow js
    | some false =>
      (collectVarValues env startRow js).map (env.convertVarLen (startRow + j - 1) :: ·)

/-- TsAggIterator::getActualColMem: none for the -1 return. -/
def getActualColMem (env : ConvertEnv) (schemaCol attr : AttributeInfo)
    (startRow count : Nat) : Option ActualColMem :=
  if attr.type ≠ .varstring ∧ attr.type ≠ .varbinary then
    if schemaCol.type ≠ attr.type then
      (env.convertToFixedLen startRow count).map fun value => ⟨some value, []⟩
    else if schemaCol.size ≠ attr.size then
      some ⟨some (copyWidened env.columnByte schemaCol.size attr.size startRow count), []⟩
    else some ⟨none, []⟩
  else
    (collectVarValues env startRow (List.range count)).map fun varMem => ⟨none, varMem⟩

/-- The cells an AggCalculator over *mem reads for count rows. -/
def ActualColMem.cells (m : ActualColMem) (size count : Nat) : Option (List (List UInt8)) :=
  m.mem.map fun value => (List.range count).map (cell value size)

section WidenedCells

variable {columnByte : Nat → Nat → UInt8} {oldSize newSize : Nat}

/-- With cells at least as wide as the copied values, the memcpy for row idx reaches byte k
of cell j exactly when idx = j and k < oldSize. -/
theorem mem_copy_region_iff {idx j k : Nat} (hw : oldSize ≤ newSize) (hk : k < newSize) :
    (idx * newSize ≤ j * newSize + k ∧ j * newSize + k < idx * newSize + oldSize) ↔
      (idx = j ∧ k < oldSize) := by
  constructor
  · rintro ⟨h1, h2⟩
    rcases Nat.lt_trichotomy idx j with h | rfl | h
    · have := Nat.mul_le_mul_right newSize (Nat.succ_le_of_lt h)
      rw [Nat.succ_mul] at this
      omega
    · omega
    · have := Nat.mul_le_mul_right newSize (Nat.succ_le_of_lt h)
      rw [Nat.succ_mul] at this
      omega
  · rintro ⟨rfl, h⟩
    omega

/-- Byte k of cell j after the copy loop over idxs: the row's byte if row j was copied and
k < oldSize, the buffer's old byte otherwise. -/
theorem copyRows_byte (hw : oldSize ≤ newSize) {j k : Nat} (hk : k < newSize)
    (idxs : List Nat) (value : Buffer) :
    copyRows columnByte oldSize newSize value idxs (j * newSize + k) =
      if j ∈ idxs ∧ k < oldSize then columnByte j k else value (j * newSize + k) := by
  induction idxs generalizing value with
  | nil => simp [copyRows]
  | cons idx rest ih =>
    simp only [copyRows, ih, memcpy_apply, mem_copy_region_iff hw hk, List.mem_cons]
    by_cases hi : idx = j
    · subst hi
      by_cases ho : k < oldSize <;> simp [ho, Nat.add_sub_cancel_left]
    · simp [hi, Ne.symm hi]

/-- Cell j of the widened copy: row j of the segment (0-based) when start_row - 1 ≤ j < count,
zeros otherwise. Cell j stands for block row start_row + j, so the two agree only when
start_row = 1. -/
theorem cell_copyWidened (hw : oldSize ≤ newSize) (startRow count j : Nat) :
    cell (copyWidened columnByte oldSize newSize startRow count) newSize j =
      if startRow - 1 ≤ j ∧ j < count then widen columnByte oldSize newSize j
      else List.replicate newSize 0 := by
  have hmem : j ∈ List.range' (startRow - 1) (count - (startRow - 1)) ↔
      startRow - 1 ≤ j ∧ j < count := by
    rw [List.mem_range'_1]
    omega
  unfold cell widen copyWidened
  split_ifs with hj
  · refine List.map_congr_left fun k hk => ?_
    rw [copyRows_byte hw (List.mem_range.mp hk)]
    simp only [hmem.mpr hj, true_and]
  · refine List.eq_replicate_iff.mpr ⟨by simp, ?_⟩
    simp only [List.mem_map, List.mem_range]
    rintro _ ⟨k, hk, rfl⟩
    rw [copyRows_byte hw hk, if_neg fun h => hj (hmem.mp h.1)]

/-- A run starting at block row 1 is copied right: cell j holds block row 1 + j. -/
theorem cells_copyWidened_from_first_row (hw : oldSize ≤ newSize) (count : Nat) :
    (List.range count).map (cell (copyWidened columnByte oldSize newSize 1 count) newSize) =
      runValues columnByte oldSize newSize 1 count := by
  refine List.map_congr_left fun j hj => ?_
  rw [cell_copyWidened hw, if_pos ⟨Nat.zero_le j, List.mem_range.mp hj⟩, Nat.add_sub_cancel_left]

end WidenedCells

/-- The var-length branch when no isNull call fails: the converted values of the non-null
entries, in order. -/
theorem collectVarValues_eq (env : ConvertEnv) (startRow : Nat) (js : List Nat)
    (h : ∀ j ∈ js, env.isNull startRow j ≠ none) :
    collectVarValues env startRow js =
      some ((js.filter fun j => env.isNull startRow j = some false).map
        fun j => env.convertVarLen (startRow + j - 1)) := by
  induction js with
  | nil => rfl
  | cons j js ih =>
    have ih := ih fun i hi => h i (List.mem_cons_of_mem j hi)
    rcases hnull : env.isNull startRow j with _ | _ | _
    · exact absurd hnull (h j (List.mem_cons_self j js))
    · simp [collectVarValues, hnull, ih]
    · simp [collectVarValues, hnull, ih]

/-- The same-type, wider branch of getActualColMem as a whole: cell j holds 0-based segment
row j for start_row - 1 ≤ j, and zeros before. -/
theorem getActualColMem_widened_cells (env : ConvertEnv) {schemaCol attr : AttributeInfo}
    (hfixed : attr.type ≠ .varstring ∧ attr.type ≠ .varbinary)
    (htype : schemaCol.type = attr.type) (hwider : schemaCol.size < attr.size)
    (startRow count : Nat) :
    (getActualColMem env schemaCol attr startRow count).bind (·.cells attr.size count) =
      some ((List.range count).map fun j =>
        if startRow - 1 ≤ j then widen env.columnByte schemaCol.size attr.size j
        else List.replicate attr.size 0) := by
  simp only [getActualColMem, if_pos hfixed, htype, ne_eq, not_true_eq_false, if_false,
    Nat.ne_of_lt hwider, not_false_eq_true, if_true, Option.some_bind, ActualColMem.cells,
    Option.map_some']
  refine congrArg some (List.map_congr_left fun j hj => ?_)
  rw [cell_copyWidened (Nat.le_of_lt hwider)]
  simp [List.mem_range.mp hj]

/-- The var-length branch of getActualColMem when no isNull call fails: var_mem lists the
converted values of the non-null entries j < count, in order, entry j read from 0-based row
start_row + j - 1. -/
theorem getActualColMem_varMem (env : ConvertEnv) {schemaCol attr : AttributeInfo}
    (hvar : attr.type = .varstring ∨ attr.type = .varbinary) (startRow count : Nat)
    (h : ∀ j < count, env.isNull startRow j ≠ none) :
    (getActualColMem env schemaCol attr startRow count).map (·.varMem) =
      some (((List.range count).filter fun j => env.isNull startRow j = some false).map
        fun j => env.convertVarLen (startRow + j - 1)) := by
  have hnot : ¬ (attr.type ≠ .varstring ∧ attr.type ≠ .varbinary) := by tauto
  rw [getActualColMem, if_neg hnot,
    collectVarValues_eq env startRow _ fun j hj => h j (List.mem_range.mp hj)]
  rfl

/-- A column of one-byte values whose 1-based block row i holds the byte i. -/
def rowNumberColumn : ConvertEnv where
  columnByte r k := if k = 0 then (r + 1).toUInt8 else 0
  convertToFixedLen _ _ := none
  isNull _ _ := some false
  convertVarLen _ := []

theorem getActualColMem_widened_run_reads_zeros :
    ((getActualColMem rowNumberColumn ⟨.fixedLen 0, 1⟩ ⟨.fixedLen 0, 2⟩ 3 2).bind
        fun m => m.cells 2 2) = some [[0, 0], [0, 0]] ∧
      runValues rowNumberColumn.columnByte 1 2 3 2 = [[3, 0], [4, 0]] := by
  decide

end KwdbTs.Engine
