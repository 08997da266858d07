import Mathlib
import KwdbTs.Storage.PartitionRefs

/-!
# Hash ranges of primary tags

A table's entities are spread over range groups by the hash id of their primary tag:
`TsTable::GetConsistentHashId` (ts_table.cpp 1100-1111) is FNV-1 over the tag's bytes in 32-bit
arithmetic, reduced to the 65535 ids `0 … 65534`. `TsEntityGroup::DeleteRangeData` and
`DeleteRangeEntities` (ts_table.cpp 385-421, 534-561) walk the valid rows of `tag_bt_` and take
the primary tags whose id falls inside a `HashIdSpan`.

Every id is below 65535 (`getConsistentHashId_lt`), so spans that cover `0 … 65534` once each
select every valid tag row exactly once (`rangeRows_tile`): a table split over range groups
loses no entity and duplicates none. `DeleteRangeData` deletes the selected tags in row order
and stops at the first `DeleteData` that fails, with the deletions before it kept
(`deleteRangeData_of_fail`).
-/

namespace KwdbTs.Storage

/-- `TsTable::GetConsistentHashId`: `hash_val *= prime; hash_val ^= b` over the bytes, from the
FNV offset basis, then `hash_val % range_num`. -/
def getConsistentHashId (data : List UInt8) : UInt32 :=
  let offsetBasis : UInt32 := 2166136261
  let prime : UInt32 := 16777619
  let hashVal := data.foldl (fun hashVal b => hashVal * prime ^^^ b.toUInt32) offsetBasis
  let rangeNum : UInt32 := 65535
  hashVal % rangeNum

/-- Every hash id is one of `0 … 65534`. -/
theorem getConsistentHashId_lt (data : List UInt8) : (getConsistentHashId data).toNat < 65535 :=
  UInt32.toNat_mod_lt _ (by decide)

/-- FNV-1 of `"a"` is `0x050c5d7e`, whose hash id is 25226. -/
example : getConsistentHashId [0x61] = 25226 := by decide

/-- `HashIdSpan`: the hash ids `begin … end`, both included. -/
structure HashIdSpan where
  begin : Nat
  «end» : Nat
  deriving Repr, DecidableEq

/-- `hash_id >= hash_span.begin && hash_id <= hash_span.end`. -/
def HashIdSpan.contains (hashSpan : HashIdSpan) (hashId : Nat) : Bool :=
  decide (hashSpan.begin ≤ hashId) && decide (hashId ≤ hashSpan.end)

/-- What the range loops read of `tag_bt_`: its size, which rows are valid, and each row's
primary tag (`record(row)` over `primaryTagSize()` bytes). -/
structure TagRows where
  size : Nat
  isValidRow : Nat → Bool
  primaryTag : Nat → List UInt8

namespace TagRows

variable (tags : TagRows)

/-- The hash id of a row's primary tag. -/
def hashId (row : Nat) : Nat := (getConsistentHashId (tags.primaryTag row)).toNat

/-- The valid rows `1 … size`, in row order. -/
def validRows : List Nat := (List.range' 1 tags.size).filter tags.isValidRow

/-- The loop over `tag_bt_` in `DeleteRangeData` and `DeleteRangeEntities`: the valid rows whose
primary tag hashes into `hashSpan`, in row order. -/
def rangeRows (hashSpan : HashIdSpan) : List Nat :=
  (List.range' 1 tags.size).filter fun row =>
    tags.isValidRow row && hashSpan.contains (tags.hashId row)

/-- The `primary_tags` the loop collects. -/
def rangePrimaryTags (hashSpan : HashIdSpan) : List (List UInt8) :=
  (tags.rangeRows hashSpan).map tags.primaryTag

variable {tags}

theorem mem_validRows {row : Nat} :
    row ∈ tags.validRows ↔ (1 ≤ row ∧ row ≤ tags.size) ∧ tags.isValidRow row = true := by
  rw [validRows, List.mem_filter, List.mem_range'_1]
  exact and_congr_left' (and_congr_right' (by omega))

theorem nodup_validRows : tags.validRows.Nodup := (List.nodup_range' 1 tags.size).filter _

/-- The loop takes the valid rows whose primary tag hashes into the span. -/
theorem rangeRows_eq_filter (hashSpan : HashIdSpan) :
    tags.rangeRows hashSpan = tags.validRows.filter fun row => hashSpan.contains (tags.hashId row) := by
  simp only [rangeRows, validRows, List.filter_filter, Bool.and_comm]

theorem mem_rangeRows {hashSpan : HashIdSpan} {row : Nat} :
    row ∈ tags.rangeRows hashSpan ↔
      row ∈ tags.validRows ∧ hashSpan.contains (tags.hashId row) = true := by
  rw [rangeRows_eq_filter, List.mem_filter]

theorem nodup_rangeRows (hashSpan : HashIdSpan) : (tags.rangeRows hashSpan).Nodup := by
  rw [rangeRows_eq_filter]
  exact nodup_validRows.filter _

end TagRows

/-! ## Spans that cover the hash ids once -/

/-- How many of `spans` hold the id. -/
def coverCount (spans : List HashIdSpan) (hashId : Nat) : Nat :=
  (spans.filter (·.contains hashId)).length

/-- Spans `[start, e₀], [e₀ + 1, e₁], …`, none empty, the last reaching past 65534. -/
def ChainFrom : Nat → List HashIdSpan → Prop
  | start, [] => 65535 ≤ start
  | start, s :: rest => s.begin = start ∧ start ≤ s.end ∧ ChainFrom (s.end + 1) rest

instance ChainFrom.decidable : ∀ start spans, Decidable (ChainFrom start spans)
  | start, [] => inferInstanceAs (Decidable (65535 ≤ start))
  | start, s :: rest =>
    have := ChainFrom.decidable (s.end + 1) rest
    inferInstanceAs (Decidable (s.begin = start ∧ start ≤ s.end ∧ ChainFrom (s.end + 1) rest))

example : ChainFrom 0 [⟨0, 32767⟩, ⟨32768, 65535⟩] := by decide

theorem ChainFrom.le_begin :
    ∀ {start : Nat} {spans : List HashIdSpan}, ChainFrom start spans →
      ∀ {s : HashIdSpan}, s ∈ spans → start ≤ s.begin
  | _, [], _, _, hs => nomatch hs
  | _, _ :: _, ⟨hb, hle, hrest⟩, _, hs => by
    rcases List.mem_cons.mp hs with rfl | hs
    · exact hb.ge
    · exact (hrest.le_begin hs).trans' (by omega)

/-- A chain from `start` holds each id from `start` to 65534 once. -/
theorem coverCount_of_chainFrom :
    ∀ {start : Nat} {spans : List HashIdSpan}, ChainFrom start spans →
      ∀ {hashId : Nat}, start ≤ hashId → hashId < 65535 → coverCount spans hashId = 1
  | _, [], h, _, hle, hlt => by simp only [ChainFrom] at h; omega
  | _, s :: rest, ⟨hb, _, hrest⟩, hashId, hle, hlt => by
    by_cases hin : hashId ≤ s.end
    · have hnone : rest.filter (·.contains hashId) = [] :=
        List.filter_eq_nil_iff.mpr fun s' hs' h' => by
          have := hrest.le_begin hs'
          simp [HashIdSpan.contains] at h'
          omega
      have hs : s.contains hashId = true := by simp [HashIdSpan.contains]; omega
      simp [coverCount, List.filter_cons, hs, hnone]
    · have hs : s.contains hashId = false := by simp [HashIdSpan.contains]; omega
      simpa [coverCount, List.filter_cons, hs] using coverCount_of_chainFrom hrest (by omega) hlt

/-- Over any list of spans, a row turns up once per span that holds its hash id. -/
theorem count_flatMap_rangeRows (tags : TagRows) (row : Nat) (spans : List HashIdSpan) :
    (spans.flatMap tags.rangeRows).count row =
      if row ∈ tags.validRows then coverCount spans (tags.hashId row) else 0 := by
  induction spans with
  | nil => split_ifs <;> rfl
  | cons s rest ih =>
    rw [List.flatMap_cons, List.count_append, ih, List.count_eq_of_nodup (tags.nodup_rangeRows s)]
    by_cases hv : row ∈ tags.validRows
    · cases hc : s.contains (tags.hashId row) <;>
        simp [TagRows.mem_rangeRows, hv, hc, coverCount, List.filter_cons, Nat.add_comm]
    · simp [TagRows.mem_rangeRows, hv]

/-- Spans that cover the hash ids from 0 on, one after the other, select every valid tag row
exactly once: the range groups of a table, between them, take each of its entities once. -/
theorem rangeRows_tile (tags : TagRows) {spans : List HashIdSpan} (hchain : ChainFrom 0 spans) :
    (spans.flatMap tags.rangeRows).Perm tags.validRows := by
  rw [List.perm_iff_count]
  intro row
  rw [count_flatMap_rangeRows, List.count_eq_of_nodup TagRows.nodup_validRows]
  split_ifs with hv
  · exact coverCount_of_chainFrom hchain (Nat.zero_le _) (getConsistentHashId_lt _)
  · rfl

/-! ## DeleteRangeData -/

/-- The outputs of `DeleteRangeData`: its status, `*count`, the `DelRowSpans` pushed to
`*del_rows` (a primary tag and its spans), and the reference log of the `DeleteData` calls. -/
structure RangeDeleteResult where
  status : KStatus
  count : Nat
  delRows : List (List UInt8 × List (Int × Nat))
  refs : List PartitionRef

section DeleteRange

variable (envOf : List UInt8 → DeleteEnv) (evaluateDel : Bool)

/-- The loop over `primary_tags`: `DeleteData` on each, adding its count and its spans, and
returning `FAIL` at the first that fails. Each call passes `&del_row_spans.spans`, so it keeps its
spans exactly when `evaluate_del`. -/
def deleteRangeDataLoop : List (List UInt8) → RangeDeleteResult → RangeDeleteResult
  | [], acc => acc
  | pTags :: rest, acc =>
    let out := deleteData (envOf pTags) evaluateDel
    let acc := { acc with refs := acc.refs ++ out.refs }
    if out.status = .fail then { acc with status := .fail }
    else
      deleteRangeDataLoop rest
        { acc with
          count := acc.count + out.count
          delRows := if !out.rows.isEmpty && evaluateDel then acc.delRows ++ [(pTags, out.rows)]
            else acc.delRows }

/-- `TsEntityGroup::DeleteRangeData`: `DeleteData` on each valid tag row whose primary tag
hashes into `hashSpan`; `envOf` gives the outcomes each call meets. -/
def deleteRangeData (tags : TagRows) (hashSpan : HashIdSpan) : RangeDeleteResult :=
  deleteRangeDataLoop envOf evaluateDel (tags.rangePrimaryTags hashSpan) ⟨.success, 0, [], []⟩

/-- What `DeleteData` reports for one primary tag, as `DeleteRangeData` keeps it. -/
def keptRows (pTags : List UInt8) : List (List UInt8 × List (Int × Nat)) :=
  let out := deleteData (envOf pTags) evaluateDel
  if !out.rows.isEmpty && evaluateDel then [(pTags, out.rows)] else []

variable {envOf evaluateDel}

/-- Tags whose `DeleteData` succeeds each add their count, keep their spans and log their
references, and the loop carries on with the tags after them. -/
theorem deleteRangeDataLoop_append {pre : List (List UInt8)}
    (hpre : ∀ p ∈ pre, (deleteData (envOf p) evaluateDel).status = .success)
    (rest : List (List UInt8)) (acc : RangeDeleteResult) :
    deleteRangeDataLoop envOf evaluateDel (pre ++ rest) acc =
      deleteRangeDataLoop envOf evaluateDel rest
        { acc with
          count := acc.count + (pre.map fun p => (deleteData (envOf p) evaluateDel).count).sum
          delRows := acc.delRows ++ pre.flatMap (keptRows envOf evaluateDel)
          refs := acc.refs ++ pre.flatMap fun p => (deleteData (envOf p) evaluateDel).refs } := by
  induction pre generalizing acc with
  | nil => simp
  | cons p pre ih =>
    have hp := hpre p (List.mem_cons_self _ _)
    rw [List.cons_append, deleteRangeDataLoop]
    simp only [hp, reduceCtorEq, if_false]
    rw [ih (fun q hq => hpre q (List.mem_cons_of_mem _ hq))]
    simp only [keptRows, List.map_cons, List.sum_cons, List.flatMap_cons, ← Nat.add_assoc,
      ← List.append_assoc]
    split_ifs <;> simp

/-- A range delete none of whose `DeleteData` calls fails returns `SUCCESS`, with every selected
tag's count added up, its spans kept and its references logged. -/
theorem deleteRangeData_of_success (tags : TagRows) (hashSpan : HashIdSpan)
    (h : ∀ p ∈ tags.rangePrimaryTags hashSpan, (deleteData (envOf p) evaluateDel).status = .success) :
    deleteRangeData envOf evaluateDel tags hashSpan =
      ⟨.success,
        ((tags.rangePrimaryTags hashSpan).map fun p => (deleteData (envOf p) evaluateDel).count).sum,
        (tags.rangePrimaryTags hashSpan).flatMap (keptRows envOf evaluateDel),
        (tags.rangePrimaryTags hashSpan).flatMap fun p => (deleteData (envOf p) evaluateDel).refs⟩ := by
  have hrun := deleteRangeDataLoop_append h [] ⟨.success, 0, [], []⟩
  rw [List.append_nil] at hrun
  rw [deleteRangeData, hrun]
  simp [deleteRangeDataLoop]

/-- At the first selected tag whose `DeleteData` fails, a range delete returns `FAIL` with the
counts and spans of the tags before it and the references of every call it made: the deletions
before it are kept, and the tags after it are not touched. -/
theorem deleteRangeData_of_fail (tags : TagRows) (hashSpan : HashIdSpan)
    {pre : List (List UInt8)} {p : List UInt8} {post : List (List UInt8)}
    (hsplit : tags.rangePrimaryTags hashSpan = pre ++ p :: post)
    (hpre : ∀ q ∈ pre, (deleteData (envOf q) evaluateDel).status = .success)
    (hp : (deleteData (envOf p) evaluateDel).status = .fail) :
    deleteRangeData envOf evaluateDel tags hashSpan =
      ⟨.fail, (pre.map fun q => (deleteData (envOf q) evaluateDel).count).sum,
        pre.flatMap (keptRows envOf evaluateDel),
        (pre ++ [p]).flatMap fun q => (deleteData (envOf q) evaluateDel).refs⟩ := by
  rw [deleteRangeData, hsplit, deleteRangeDataLoop_append hpre]
  simp [deleteRangeDataLoop, hp]

/-- The loop logs only the references of its `DeleteData` calls, so it keeps them balanced when
each call does. -/
theorem refsBalanced_deleteRangeDataLoop {ps : List (List UInt8)}
    (h : ∀ p ∈ ps, RefsBalanced (deleteData (envOf p) evaluateDel).refs) :
    ∀ {acc : RangeDeleteResult}, RefsBalanced acc.refs →
      RefsBalanced (deleteRangeDataLoop envOf evaluateDel ps acc).refs := by
  induction ps with
  | nil => exact fun hacc => hacc
  | cons p ps ih =>
    intro acc hacc
    have hstep := refsBalanced_append hacc (h p (List.mem_cons_self _ _))
    simp only [deleteRangeDataLoop]
    split
    · exact hstep
    · exact ih (fun q hq => h q (List.mem_cons_of_mem _ hq)) hstep

/-- When no selected tag meets a failing partition, a range delete gives back every partition
reference it takes. -/
theorem deleteRangeData_refsBalanced (tags : TagRows) (hashSpan : HashIdSpan)
    (h : ∀ p ∈ tags.rangePrimaryTags hashSpan, ∀ parts, (envOf p).getPartitionTables = some parts →
      ∀ part ∈ parts, 0 ≤ ((envOf p).partitionDeleteData part).res) :
    RefsBalanced (deleteRangeData envOf evaluateDel tags hashSpan).refs :=
  refsBalanced_deleteRangeDataLoop (fun p hp => deleteData_refsBalanced_of_no_failure (h p hp))
    fun _ => rfl

/-- Spans that cover the hash ids hand `DeleteData` every valid tag row's primary tag once. -/
theorem rangePrimaryTags_tile (tags : TagRows) {spans : List HashIdSpan}
    (hchain : ChainFrom 0 spans) :
    (spans.flatMap tags.rangePrimaryTags).Perm (tags.validRows.map tags.primaryTag) := by
  simpa only [TagRows.rangePrimaryTags, List.map_flatMap] using
    (rangeRows_tile tags hchain).map tags.primaryTag

/-- Range deletes over spans that cover the hash ids, none of whose `DeleteData` calls fails,
count between them what `DeleteData` on every valid tag row counts. -/
theorem deleteRangeData_tile_count (tags : TagRows) {spans : List HashIdSpan}
    (hchain : ChainFrom 0 spans)
    (h : ∀ row ∈ tags.validRows,
      (deleteData (envOf (tags.primaryTag row)) evaluateDel).status = .success) :
    (spans.map fun s => (deleteRangeData envOf evaluateDel tags s).count).sum =
      (tags.validRows.map fun row =>
        (deleteData (envOf (tags.primaryTag row)) evaluateDel).count).sum := by
  have hsucc : ∀ s, ∀ p ∈ tags.rangePrimaryTags s,
      (deleteData (envOf p) evaluateDel).status = .success := fun s p hp => by
    obtain ⟨row, hrow, rfl⟩ := List.mem_map.mp hp
    exact h row (TagRows.mem_rangeRows.mp hrow).1
  let count := fun p => (deleteData (envOf p) evaluateDel).count
  calc (spans.map fun s => (deleteRangeData envOf evaluateDel tags s).count).sum
      = ((spans.flatMap tags.rangePrimaryTags).map count).sum := by
        rw [List.map_flatMap, List.flatMap_def, List.sum_flatten, List.map_map]
        simp only [deleteRangeData_of_success _ _ (hsucc _)]
        rfl
    _ = ((tags.validRows.map tags.primaryTag).map count).sum :=
        ((rangePrimaryTags_tile tags hchain).map count).sum_eq
    _ = _ := by rw [List.map_map]; rfl

end DeleteRange

end KwdbTs.Storage
