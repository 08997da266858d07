import KwdbTs.Engine.AggIterator

/-!
# Null bitmaps and `hasValue`

`MMapSegmentTable` (mmap/MMapSegmentTable.h) keeps, per block and column, a null bitmap: row `r`
is NULL when bit `(r - 1) & 7` of byte `(r - 1) >> 3` is set (`isNullValue`). `isAllNullValue`
reads the bitmaps a byte at a time, whole bytes against `0xFF` and the last partial byte bit by
bit; it holds exactly when every listed column with a file is NULL on every row `1 … count`
(`isAllNullValue_iff`), which is the test the first/last short-circuit skips blocks by
(`isAllNullValue_eq_block`).

`hasValue` asserts `start_row.offset_row - 1 + count < getBlockMaxRows()` on the run it is
handed. The runs `traverseAllBlocks` hands it end at most at the block's last published row
(`passRows_bounds`), so the bound is one too tight: the run of a full block, which ends at row
`getBlockMaxRows()`, fails it.
-/

namespace KwdbTs.Engine

/-- What `isNullValue`, `isAllNullValue` and `hasValue` read of one block of a segment: which
columns have a file (`isColExist`), and byte `i` of each column's null bitmap. -/
structure NullBitmaps where
  isColExist : Nat → Bool
  bitmap : Nat → Nat → UInt8

namespace NullBitmaps

variable (seg : NullBitmaps)

/-- `isNullValue(row_id, c)`: a column without a file reads as NULL. -/
def isNullValue (offsetRow col : Nat) : Bool :=
  if !seg.isColExist col then true
  else
    let row := offsetRow - 1
    let byte := row >>> 3
    let bit := 1 <<< (row &&& 7)
    (seg.bitmap col byte).toNat &&& bit != 0

/-- `isAllNullValue(block_id, count, c)`: `null_size` bytes per column, the last one read bit by
bit when `count % 8` is not zero. Every caller passes `publish_row_count > 0`. -/
def isAllNullValue (count : Nat) (c : List Nat) : Bool :=
  let nullSize := (count - 1) / 8 + 1
  c.all fun col => !seg.isColExist col || (List.range nullSize).all fun i =>
    if i = nullSize - 1 ∧ count % 8 ≠ 0 then
      (List.range (count % 8)).all fun j =>
        (seg.bitmap col i).toNat &&& 1 <<< (j &&& 7) != 0
    else !decide ((seg.bitmap col i).toNat < 0xFF)

end NullBitmaps

/-! ## Reading the bitmap bytes -/

theorem and_one_shiftLeft_ne_zero (x k : Nat) : (x &&& 1 <<< k != 0) = x.testBit k := by
  rw [Nat.one_shiftLeft, Nat.and_two_pow]
  cases x.testBit k <;> simp

/-- A byte is `0xFF` exactly when its eight bits are set. -/
theorem not_lt_0xFF_iff {x : Nat} (hx : x < 256) :
    ¬x < 0xFF ↔ ∀ j < 8, x.testBit j = true := by
  constructor
  · intro h j hj
    rw [show x = 2 ^ 8 - 1 by omega, Nat.testBit_two_pow_sub_one]
    exact decide_eq_true hj
  · intro h
    have : x = 2 ^ 8 - 1 := Nat.eq_of_testBit_eq fun i => by
      rw [Nat.testBit_two_pow_sub_one]
      by_cases hi : i < 8
      · rw [h i hi, decide_eq_true hi]
      · have hx' : x < 2 ^ 8 := hx
        rw [Nat.testBit_lt_two_pow (lt_of_lt_of_le hx' (Nat.pow_le_pow_right two_pos (not_lt.mp hi))),
          decide_eq_false hi]
    omega

/-- The null bit `isNullValue` reads for a row of a column with a file. -/
theorem isNullValue_eq_testBit (seg : NullBitmaps) {col : Nat} (hcol : seg.isColExist col = true)
    (offsetRow : Nat) :
    seg.isNullValue offsetRow col =
      (seg.bitmap col ((offsetRow - 1) / 8)).toNat.testBit ((offsetRow - 1) % 8) := by
  simp only [NullBitmaps.isNullValue, hcol, Bool.not_true, Bool.false_eq_true, if_false,
    Nat.shiftRight_eq_div_pow, show (7 : Nat) = 2 ^ 3 - 1 from rfl, Nat.and_pow_two_sub_one_eq_mod,
    and_one_shiftLeft_ne_zero]

/-- The byte loop of `isAllNullValue` over one column checks the bit of every row `1 … count`:
whole bytes first, then the first `count % 8` bits of the last byte. -/
theorem bytes_all_iff_rows (bit : Nat → Nat → Bool) {count : Nat} (hcount : 1 ≤ count) :
    ((List.range ((count - 1) / 8 + 1)).all fun i =>
      if i = (count - 1) / 8 + 1 - 1 ∧ count % 8 ≠ 0 then (List.range (count % 8)).all (bit i)
      else (List.range 8).all (bit i)) = true ↔
      ∀ r, 1 ≤ r → r ≤ count → bit ((r - 1) / 8) ((r - 1) % 8) = true := by
  simp only [List.all_eq_true, List.mem_range]
  constructor
  · intro h r hr1 hr2
    have hi := h ((r - 1) / 8) (by omega)
    split_ifs at hi with hlast
    · exact List.all_eq_true.mp hi _ (List.mem_range.mpr (by omega))
    · exact List.all_eq_true.mp hi _ (List.mem_range.mpr (by omega))
  · intro h i hi
    have hrow : ∀ j < 8, 8 * i + j + 1 ≤ count → bit i j = true := fun j hj8 hj => by
      simpa [show (8 * i + j) / 8 = i by omega, show (8 * i + j) % 8 = j by omega] using
        h (8 * i + j + 1) (by omega) hj
    split_ifs with hlast
    · refine List.all_eq_true.mpr fun j hj => ?_
      have := List.mem_range.mp hj
      exact hrow j (by omega) (by omega)
    · refine List.all_eq_true.mpr fun j hj => ?_
      have := List.mem_range.mp hj
      exact hrow j this (by omega)

/-- `isAllNullValue(block, count, cols)` holds exactly when every column of `cols` that has a
file has the null bit of every row `1 … count` set, as `isNullValue` reads it. -/
theorem isAllNullValue_iff (seg : NullBitmaps) {count : Nat} (hcount : 1 ≤ count)
    (cols : List Nat) :
    seg.isAllNullValue count cols = true ↔
      ∀ col ∈ cols, seg.isColExist col = true →
        ∀ r, 1 ≤ r → r ≤ count → seg.isNullValue r col = true := by
  simp only [NullBitmaps.isAllNullValue, List.all_eq_true, Bool.or_eq_true, Bool.not_eq_true']
  refine forall₂_congr fun col _ => ?_
  by_cases hcol : seg.isColExist col = true
  · have hbyte : ∀ i, (!decide ((seg.bitmap col i).toNat < 0xFF)) =
        (List.range 8).all fun j => (seg.bitmap col i).toNat &&& 1 <<< (j &&& 7) != 0 := by
      intro i
      rw [Bool.eq_iff_iff, Bool.not_eq_true', decide_eq_false_iff_not,
        not_lt_0xFF_iff (seg.bitmap col i).toNat_lt, List.all_eq_true]
      refine forall_congr' fun j => ⟨fun h hj => ?_, fun h hj => ?_⟩
      · rw [Nat.and_pow_two_sub_one_eq_mod j 3, Nat.mod_eq_of_lt (List.mem_range.mp hj),
          and_one_shiftLeft_ne_zero]
        exact h (List.mem_range.mp hj)
      · have := h (List.mem_range.mpr hj)
        rwa [Nat.and_pow_two_sub_one_eq_mod j 3, Nat.mod_eq_of_lt hj,
          and_one_shiftLeft_ne_zero] at this
    simp only [hcol, Bool.true_eq_false, false_or, true_implies, hbyte]
    have := bytes_all_iff_rows
      (fun i j => (seg.bitmap col i).toNat &&& 1 <<< (j &&& 7) != 0) hcount
    simp only [List.all_eq_true] at this
    rw [this]
    refine forall_congr' fun r => forall_congr' fun hr => forall_congr' fun _ => ?_
    rw [isNullValue_eq_testBit seg hcol, Nat.and_pow_two_sub_one_eq_mod _ 3,
      Nat.mod_eq_of_lt (Nat.mod_lt _ (by omega)), and_one_shiftLeft_ne_zero]
  · simp [hcol]

/-- Rows 1 to 3 NULL in column 1, the only column with a file. -/
def threeNullRows : NullBitmaps where
  isColExist col := col = 1
  bitmap _ i := if i = 0 then 0b111 else 0

theorem isAllNullValue_iff_three_rows :
    1 ≤ 3 ∧ (threeNullRows.isAllNullValue 3 [1, 2] = true ↔
      ∀ col ∈ [1, 2], threeNullRows.isColExist col = true →
        ∀ r, 1 ≤ r → r ≤ 3 → threeNullRows.isNullValue r col = true) :=
  ⟨by decide, isAllNullValue_iff threeNullRows (by decide) [1, 2]⟩

/-! ## The block skip of the short-circuit -/

/-- The null bits of a segment block agree with a block's values on its published rows. -/
def NullBitmaps.Agrees (seg : NullBitmaps) (b : Block) : Prop :=
  ∀ col r, 1 ≤ r → r ≤ b.publishRowCount → seg.isNullValue r col = (b.value col r).isNone

/-- On a non-empty block whose bitmaps agree with its values, `isAllNullValue` is the test the
short-circuit is modelled with: every scan column NULL on every published row. So
`findFirstData` and `findLastData` skip a block by it only when no scan column has a value in
it. -/
theorem isAllNullValue_eq_block {seg : NullBitmaps} {b : Block} (h : seg.Agrees b)
    (hpos : 0 < b.publishRowCount) (cols : List Nat) :
    seg.isAllNullValue b.publishRowCount cols = isAllNullValue b b.publishRowCount cols := by
  rw [Bool.eq_iff_iff, isAllNullValue_iff seg hpos, isAllNullValue]
  simp only [List.all_eq_true, List.mem_range'_1]
  refine forall₂_congr fun col _ => ⟨fun hc r hr => ?_, fun hc _ r h1 h2 => ?_⟩
  · rw [← h col r hr.1 (by omega)]
    by_cases hcol : seg.isColExist col = true
    · exact hc hcol r hr.1 (by omega)
    · simp [NullBitmaps.isNullValue, hcol]
  · rw [h col r h1 h2]
    exact hc r ⟨h1, by omega⟩

/-! ## The runs handed to `hasValue` -/

/-- Modelled from the spec: `isAllDeleted(bitmap, start_row, count)` (not among the sources)
holds when the null bit of every row of the run is set. -/
def NullBitmaps.isAllDeleted (seg : NullBitmaps) (col start count : Nat) : Bool :=
  (List.range' start count).all fun r => seg.isNullValue r col

/-- `hasValue(start_row, count, c)` with `getBlockMaxRows()` as `blockMaxRows`: `none` when one
of its assertions fails, else whether some row of the run is not NULL. -/
def NullBitmaps.hasValue (seg : NullBitmaps) (blockMaxRows offsetRow count col : Nat) :
    Option Bool :=
  if !seg.isColExist col then some false
  else if !(decide (offsetRow > 0) && decide (offsetRow - 1 + count < blockMaxRows)) then none
  else some !(seg.isAllDeleted col offsetRow count)

/-- The rows of the run one pass of `traverseAllBlocks` takes from block item `b` at offset `o`:
the whole block on the fast path, else the next run of qualifying rows. Its first row is
`first_row` (`first_real_row.offset_row`) and its length `*count`. -/
def passRows (ctx : AggCtx) (b : Block) (o : Nat) : List Nat :=
  if aggFastPath ctx b o then List.range' 1 b.publishRowCount
  else (scanRun (rowQualifies ctx.tsSpans b) (b.publishRowCount + 1) false
    (List.range' o (b.publishRowCount + 1 - o))).1

/-- A pass over a block item whose run is not empty returns that run's partials. -/
theorem traversePass_run {ctx : AggCtx} {st : AggState} {b : Block}
    (hcur : st.curBlockItem = some b) (hrows : passRows ctx b st.curBlockdataOffset ≠ []) :
    ∃ st', traversePass ctx st = .run (ctx.scanCols.map fun c =>
      runPartial ctx b (passRows ctx b st.curBlockdataOffset) c.1 c.2) st' := by
  have htaken : (if aggFastPath ctx b st.curBlockdataOffset then
      (List.range' 1 b.publishRowCount, b.publishRowCount + 1)
    else scanRun (rowQualifies ctx.tsSpans b) (b.publishRowCount + 1) false
      (List.range' st.curBlockdataOffset (b.publishRowCount + 1 - st.curBlockdataOffset))).1 =
      passRows ctx b st.curBlockdataOffset := by
    unfold passRows
    split_ifs <;> rfl
  simp only [traversePass, hcur, htaken, if_neg hrows]
  exact ⟨_, rfl⟩

/-- The rows the row loop takes are consecutive: some stretch of the rows left, which starts at
the first of them once a run has started. -/
theorem scanRun_eq_range' (q : Nat → Bool) (endRow : Nat) :
    ∀ (k o : Nat) (hasData : Bool), ∃ s n, o ≤ s ∧ s + n ≤ o + k ∧ (hasData = true → n = 0 ∨ s = o) ∧
      (scanRun q endRow hasData (List.range' o k)).1 = List.range' s n
  | 0, o, _ => ⟨o, 0, le_rfl, by omega, fun _ => Or.inl rfl, rfl⟩
  | k + 1, o, hasData => by
    rw [List.range'_succ]
    by_cases hq : q o = true
    · obtain ⟨s, n, h1, h2, h3, h4⟩ := scanRun_eq_range' q endRow k (o + 1) true
      refine ⟨o, n + 1, le_rfl, by omega, fun _ => Or.inr rfl, ?_⟩
      simp only [scanRun, hq, if_true, Prod.map_fst, h4]
      rcases h3 rfl with rfl | rfl <;> rfl
    · cases hasData
      · obtain ⟨s, n, h1, h2, -, h4⟩ := scanRun_eq_range' q endRow k (o + 1) false
        refine ⟨s, n, by omega, by omega, fun h => absurd h Bool.false_ne_true, ?_⟩
        simp only [scanRun, hq, if_false, Bool.false_eq_true, h4]
      · refine ⟨o, 0, le_rfl, by omega, fun _ => Or.inl rfl, ?_⟩
        simp only [scanRun, hq, if_false, if_true]
        rfl

/-- The run of a pass over a block item at an offset from 1 on is a stretch `s … s + n - 1` of
rows that, when not empty, starts at `s ≥ 1` and ends at most at the block's last published row:
`s - 1 + n ≤ publish_row_count`. -/
theorem passRows_bounds (ctx : AggCtx) (b : Block) {o : Nat} (ho : 1 ≤ o) :
    ∃ s n, passRows ctx b o = List.range' s n ∧
      (n ≠ 0 → 1 ≤ s ∧ s - 1 + n ≤ b.publishRowCount) := by
  unfold passRows
  split_ifs
  · exact ⟨1, b.publishRowCount, rfl, fun _ => ⟨le_rfl, by omega⟩⟩
  · obtain ⟨s, n, h1, h2, -, h4⟩ := scanRun_eq_range' (rowQualifies ctx.tsSpans b)
      (b.publishRowCount + 1) (b.publishRowCount + 1 - o) o false
    exact ⟨s, n, h4, fun hn => ⟨by omega, by omega⟩⟩

/-- On a block that is not full, every run a pass hands to `hasValue` passes its assertions. -/
theorem hasValue_asserts_of_not_full (ctx : AggCtx) (b : Block) {o blockMaxRows : Nat}
    (ho : 1 ≤ o) (hfull : b.publishRowCount < blockMaxRows) (hrows : passRows ctx b o ≠ []) :
    0 < (passRows ctx b o).head hrows ∧
      (passRows ctx b o).head hrows - 1 + (passRows ctx b o).length < blockMaxRows := by
  obtain ⟨s, n, h, hb⟩ := passRows_bounds ctx b ho
  simp only [h] at hrows ⊢
  obtain ⟨n, rfl⟩ := Nat.exists_eq_succ_of_ne_zero (by simpa using hrows)
  have := hb (Nat.succ_ne_zero n)
  simp only [List.range'_succ, List.head_cons, List.length_cons, List.length_range']
  omega

/-- When every published row qualifies, the pass from offset 1 takes the whole block. -/
theorem passRows_of_all_qualify (ctx : AggCtx) (b : Block)
    (h : ∀ r, 1 ≤ r → r ≤ b.publishRowCount → rowQualifies ctx.tsSpans b r = true) :
    passRows ctx b 1 = List.range' 1 b.publishRowCount := by
  unfold passRows
  split_ifs
  · rfl
  · rw [Nat.add_sub_cancel, scanRun_of_all]
    exact fun r hr => h r (List.mem_range'_1.mp hr).1 (by have := List.mem_range'_1.mp hr; omega)

/-- On a full block whose rows all qualify, the pass from offset 1 hands `hasValue` the run
`(1, getBlockMaxRows())`, and for a column with a file its second assertion fails. -/
theorem hasValue_fails_on_full_block (ctx : AggCtx) (seg : NullBitmaps) (b : Block) {col : Nat}
    (hcol : seg.isColExist col = true)
    (h : ∀ r, 1 ≤ r → r ≤ b.publishRowCount → rowQualifies ctx.tsSpans b r = true) :
    passRows ctx b 1 = List.range' 1 b.publishRowCount ∧
      seg.hasValue b.publishRowCount 1 b.publishRowCount col = none := by
  refine ⟨passRows_of_all_qualify ctx b h, ?_⟩
  simp [NullBitmaps.hasValue, hcol]

/-- A full block of a segment whose blocks hold two rows: both live, stamped 1 and 2, with
column 1 holding 10 and 20. -/
def fullBlock : Block where
  blockId := 1
  publishRowCount := 2
  isAggResAvailable := false
  isOverflow := false
  deleted _ := false
  ts r := r
  value col r := if col = 1 then some (10 * r) else none
  minTs := 1
  maxTs := 2
  aggCount _ := 0
  aggMin _ := none
  aggMax _ := none
  aggSum _ := 0
  tsBounds _ h1 h2 := ⟨by simp only; omega, by simp only; omega⟩

/-- Column 1 has a file and no null bit set. -/
def fullSegment : NullBitmaps where
  isColExist col := col = 1
  bitmap _ _ := 0

/-- Entity 1's one block item. -/
def fullPartition : PartitionTable where
  getAllBlockItems e _ := if e = 1 then [some fullBlock] else []
  entityMinTs _ := 1
  entityMaxTs _ := 2
  noBlocksOfEntityZero _ := rfl

/-- MAX of column 1 over the span `[0, 10]`. -/
def fullBlockCtx : AggCtx where
  entityIds := [1]
  pBts := [fullPartition]
  isReversed := false
  tsSpans := [⟨0, 10⟩]
  scanCols := [(1, .max)]
  actualColMatches _ _ := true

theorem hasValue_assert_fails_on_full_block :
    ∃ st, traversePass fullBlockCtx (AggState.init fullBlockCtx) = .next st ∧
      st.curBlockItem = some fullBlock ∧ st.curBlockdataOffset = 1 ∧
      passRows fullBlockCtx fullBlock st.curBlockdataOffset = [1, 2] ∧
      fullBlock.publishRowCount ≤ 2 ∧
      fullSegment.hasValue 2 1 [1, 2].length 1 = none :=
  ⟨_, rfl, rfl, rfl, by decide, by decide, by decide⟩

end KwdbTs.Engine
