import Mathlib.Tactic.Common

/-!
# The distinct operator

`DistinctOperator::Next` (ee_distinct_op.cpp) reads one batch of its input per call and adds to
the output chunk each row whose key, built by `encodeDistinctCols` from the distinct columns, is
not in the set `seen`; `OFFSET` and `LIMIT` are applied on the way with the counters
`cur_offset_` and `examined_rows_`. The consumer calls `Next` until it reports the end of the
records.

Over any split of the input into batches, the whole run emits the first occurrence of each key
among the input rows after the first `OFFSET` of them, at most `LIMIT` of those
(`distinctRun_eq_distinctSpec_drop`): the skipped rows never enter `seen`, and nothing enters it
before the offset is used up, so the offset counts input rows, not distinct ones.
-/

namespace KwdbTs.Exec

/-- `encodeDistinctCols`: a row's key is its values in the distinct columns in order, `none` for
NULL (the `std::monostate` part), so NULLs compare equal; `row.getD col none` is what
`GetData(line, col)` and `IsNull(line, col)` read. -/
def encodeDistinctCols {Val : Type} (distinctCols : List Nat) (row : List (Option Val)) :
    List (Option Val) :=
  distinctCols.map fun col => row.getD col none

variable {Row Key : Type} [DecidableEq Key]

/-- The members of `DistinctOperator` that `Next` reads and updates across calls. -/
structure DistinctState (Key : Type) where
  seen : List Key
  curOffset : Nat
  examinedRows : Nat
  deriving Repr, DecidableEq

/-- Modelled from the spec: the header declaring these members is not among the sources; the set
starts empty, `cur_offset_` at the operator's `offset_` and `examined_rows_` at `0`. -/
def DistinctState.init (offset : Nat) : DistinctState Key := ⟨[], offset, 0⟩

/-- One row of the loop of `Next`: `none` when the limit ends the scan (`EE_END_OF_RECORD`), else
the new state and whether the row is added to the chunk. -/
def distinctRow (limit : Nat) (st : DistinctState Key) (key : Key) :
    Option (DistinctState Key × Bool) :=
  if key ∈ st.seen then some (st, false)
  else if limit ≠ 0 ∧ limit ≤ st.examinedRows then none
  else if 0 < st.curOffset then some ({ st with curOffset := st.curOffset - 1 }, false)
  else some ({ st with examinedRows := st.examinedRows + 1, seen := key :: st.seen }, true)

/-- The `while (i < data_chunk->Count())` loop of `Next` over one batch of `count` rows, `i`
counting the rows added to the chunk; an exhausted batch is `NextLine() < 0`. It returns the
state, the rows added, and whether the limit ended the scan. -/
def distinctBatch (encode : Row → Key) (limit count : Nat) :
    Nat → DistinctState Key → List Row → DistinctState Key × List Row × Bool
  | _, st, [] => (st, [], false)
  | i, st, row :: rest =>
    if i < count then
      match distinctRow limit st (encode row) with
      | none => (st, [], true)
      | some (st', false) => distinctBatch encode limit count i st' rest
      | some (st', true) =>
        let r := distinctBatch encode limit count (i + 1) st' rest
        (r.1, row :: r.2.1, r.2.2)
    else (st, [], false)

/-- The consumer's loop over `Next`: each call takes the next batch of the input and runs the row
loop over it; the end of the input, which `Next` passes on, or the limit ends the loop. An empty
batch adds nothing and the loop goes on. The result is every row added to a chunk. -/
def distinctRun (encode : Row → Key) (limit : Nat) :
    DistinctState Key → List (List Row) → List Row
  | _, [] => []
  | st, batch :: rest =>
    let r := distinctBatch encode limit batch.length 0 st batch
    r.2.1 ++ if r.2.2 then [] else distinctRun encode limit r.1 rest

/-- The row steps over a whole stream, with no batch boundary. -/
def distinctScan (encode : Row → Key) (limit : Nat) :
    DistinctState Key → List Row → DistinctState Key × List Row × Bool
  | st, [] => (st, [], false)
  | st, row :: rest =>
    match distinctRow limit st (encode row) with
    | none => (st, [], true)
    | some (st', added) =>
      let r := distinctScan encode limit st' rest
      (r.1, (if added then [row] else []) ++ r.2.1, r.2.2)

/-- Modelled from the spec: the rows whose key occurs in no earlier row, in input order; `seen`
holds the keys of the rows before. -/
def firstOccurrences (encode : Row → Key) : List Key → List Row → List Row
  | _, [] => []
  | seen, row :: rest =>
    if encode row ∈ seen then firstOccurrences encode seen rest
    else row :: firstOccurrences encode (encode row :: seen) rest

/-- Modelled from the spec: the first occurrences of the keys, minus the first `offset` of them,
then at most `limit` of the rest (`0` meaning no limit). -/
def distinctSpec (encode : Row → Key) (offset limit : Nat) (rows : List Row) : List Row :=
  let kept := (firstOccurrences encode [] rows).drop offset
  if limit = 0 then kept else kept.take limit

section Run

variable (encode : Row → Key) (limit : Nat)

/-- The guard `i < data_chunk->Count()` never ends a batch early: `i` counts rows added, which
are among the rows read. -/
theorem distinctBatch_eq_distinctScan (count : Nat) :
    ∀ (rows : List Row) (i : Nat) (st : DistinctState Key), i + rows.length ≤ count →
      distinctBatch encode limit count i st rows = distinctScan encode limit st rows
  | [], _, _, _ => rfl
  | row :: rest, i, st, h => by
    simp only [List.length_cons] at h
    simp only [distinctBatch, if_pos (show i < count by omega), distinctScan]
    rcases distinctRow limit st (encode row) with _ | ⟨st', _ | _⟩
    · rfl
    · simpa using distinctBatch_eq_distinctScan count rest i st' (by omega)
    · simp [distinctBatch_eq_distinctScan count rest (i + 1) st' (by omega)]

/-- What a stream emits is what its first part emits, then, unless the limit ended the scan
there, what the rest emits from the state the first part left. -/
theorem distinctScan_append :
    ∀ (xs ys : List Row) (st : DistinctState Key),
      (distinctScan encode limit st (xs ++ ys)).2.1 =
        (distinctScan encode limit st xs).2.1 ++
          if (distinctScan encode limit st xs).2.2 then []
          else (distinctScan encode limit (distinctScan encode limit st xs).1 ys).2.1
  | [], _, _ => by simp [distinctScan]
  | row :: rest, ys, st => by
    simp only [List.cons_append, distinctScan]
    rcases distinctRow limit st (encode row) with _ | ⟨st', added⟩
    · simp
    · simp [distinctScan_append rest ys st']

/-- The batch boundaries do not matter: a run emits what the row steps emit over the batches
joined. -/
theorem distinctRun_eq_distinctScan :
    ∀ (batches : List (List Row)) (st : DistinctState Key),
      distinctRun encode limit st batches = (distinctScan encode limit st batches.flatten).2.1
  | [], _ => rfl
  | batch :: rest, st => by
    simp only [distinctRun, distinctBatch_eq_distinctScan encode limit batch.length batch 0 st
      (by omega), List.flatten_cons, distinctScan_append, distinctRun_eq_distinctScan rest]

/-- While the offset lasts nothing is added to `seen`, so every row is new and skipped: the offset
counts input rows. -/
theorem distinctScan_skip_offset :
    ∀ (offset : Nat) (rows : List Row),
      (distinctScan encode limit ⟨[], offset, 0⟩ rows).2.1 =
        (distinctScan encode limit ⟨[], 0, 0⟩ (rows.drop offset)).2.1
  | 0, _ => rfl
  | _ + 1, [] => rfl
  | offset + 1, row :: rest => by
    have hrow : distinctRow limit ⟨[], offset + 1, 0⟩ (encode row) =
        some (⟨[], offset, 0⟩, false) := by
      simp [distinctRow]
    simpa [distinctScan, hrow] using distinctScan_skip_offset offset rest

/-- With the offset used up, the row steps emit the first occurrences of the keys not in `seen`,
at most `limit - examined_rows_` of them. -/
theorem distinctScan_no_offset :
    ∀ (rows : List Row) (seen : List Key) (examined : Nat),
      (distinctScan encode limit ⟨seen, 0, examined⟩ rows).2.1 =
        if limit = 0 then firstOccurrences encode seen rows
        else (firstOccurrences encode seen rows).take (limit - examined)
  | [], _, _ => by simp [distinctScan, firstOccurrences]
  | row :: rest, seen, examined => by
    by_cases hk : encode row ∈ seen
    · have hrow : distinctRow limit ⟨seen, 0, examined⟩ (encode row) =
          some (⟨seen, 0, examined⟩, false) := by
        simp [distinctRow, hk]
      simpa [distinctScan, firstOccurrences, hrow, hk] using
        distinctScan_no_offset rest seen examined
    · by_cases hl : limit ≠ 0 ∧ limit ≤ examined
      · have hrow : distinctRow limit ⟨seen, 0, examined⟩ (encode row) = none := by
          simp only [distinctRow, hk, if_false, if_pos hl]
        simp [distinctScan, firstOccurrences, hrow, hk, hl.1, Nat.sub_eq_zero_of_le hl.2]
      · have hrow : distinctRow limit ⟨seen, 0, examined⟩ (encode row) =
            some (⟨encode row :: seen, 0, examined + 1⟩, true) := by
          simp only [distinctRow, hk, if_false, if_neg hl, if_neg (Nat.lt_irrefl 0)]
        rw [distinctScan, hrow]
        simp only [distinctScan_no_offset rest, firstOccurrences, if_neg hk, if_true,
          List.singleton_append]
        split_ifs with h0
        · rfl
        · obtain ⟨n, hn⟩ : ∃ n, limit - examined = n + 1 := ⟨limit - examined - 1, by omega⟩
          rw [hn, List.take_succ_cons, show limit - (examined + 1) = n by omega]

/-- What the whole run emits, for every input, batch split, offset and limit: the first
occurrence of each key among the input rows after the first `offset` of them, at most `limit` of
those. -/
theorem distinctRun_eq_distinctSpec_drop (offset : Nat) (batches : List (List Row)) :
    distinctRun encode limit (DistinctState.init offset) batches =
      distinctSpec encode 0 limit (batches.flatten.drop offset) := by
  rw [distinctRun_eq_distinctScan, DistinctState.init, distinctScan_skip_offset,
    distinctScan_no_offset, distinctSpec, List.drop_zero, Nat.sub_zero]

/-- Without an offset the run emits exactly what the spec asks, whatever the batch split. -/
theorem distinctRun_no_offset (batches : List (List Row)) :
    distinctRun encode limit (DistinctState.init 0) batches =
      distinctSpec encode 0 limit batches.flatten := by
  rw [distinctRun_eq_distinctSpec_drop, List.drop_zero]

theorem firstOccurrences_keys_nodup :
    ∀ (rows : List Row) (seen : List Key),
      ((firstOccurrences encode seen rows).map encode).Nodup ∧
        ∀ r ∈ firstOccurrences encode seen rows, encode r ∉ seen
  | [], _ => by simp [firstOccurrences]
  | row :: rest, seen => by
    obtain ⟨hnd, hout⟩ := firstOccurrences_keys_nodup rest seen
    obtain ⟨hnd', hout'⟩ := firstOccurrences_keys_nodup rest (encode row :: seen)
    by_cases hk : encode row ∈ seen
    · simpa [firstOccurrences, hk] using ⟨hnd, hout⟩
    · simp only [List.mem_cons, not_or] at hout'
      simp only [firstOccurrences, if_neg hk, List.map_cons, List.nodup_cons, List.mem_map,
        List.forall_mem_cons]
      exact ⟨⟨fun ⟨r, hr, he⟩ => (hout' r hr).1 he, hnd'⟩, hk, fun r hr => (hout' r hr).2⟩

/-- Whatever the offset, no two emitted rows share a key. -/
theorem distinctRun_keys_nodup (offset : Nat) (batches : List (List Row)) :
    ((distinctRun encode limit (DistinctState.init offset) batches).map encode).Nodup := by
  have hnd := (firstOccurrences_keys_nodup encode (batches.flatten.drop offset) []).1
  rw [distinctRun_eq_distinctSpec_drop, distinctSpec, List.drop_zero]
  split_ifs
  · exact hnd
  · exact hnd.sublist ((List.take_sublist _ _).map encode)

end Run

/-- With one distinct column, input rows `a, a, b` and `OFFSET 1`, the run emits `a, b` where the
spec asks for `b`: the skipped `a` is not recorded, so its repeat is emitted as new. -/
theorem distinctRun_offset_counts_input_rows :
    distinctRun (encodeDistinctCols [0]) 0 (DistinctState.init 1)
        [[[some (1 : Int)], [some 1], [some 2]]] = [[some 1], [some 2]] ∧
      distinctSpec (encodeDistinctCols [0]) 1 0 [[some (1 : Int)], [some 1], [some 2]] =
        [[some 2]] :=
  ⟨rfl, rfl⟩

end KwdbTs.Exec
