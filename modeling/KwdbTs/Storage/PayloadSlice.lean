import Mathlib.Tactic.Common

/-!
# Cutting a payload into partition slices

`TsEntityGroup::payloadNextSlice` and `TsEntityGroup::findPartitionPayload` (ts_table.cpp) both
cut the rows `[GetStartRowId(), GetRowCount())` of a payload into slices that each fall in one
partition, the partition of a row being `PartitionTime(ts / 1000)` for its millisecond
timestamp `ts`. The loops only read the partition time of each row, so most of this module
works over an arbitrary row-to-partition map `pt`.
-/

namespace KwdbTs.Storage

/-- The fields of a `Payload` that the slicing reads: the millisecond timestamps of the rows
(`GetTimestamp`) and `GetStartRowId()`; `GetRowCount()` is the number of rows. -/
structure Payload where
  timestamps : List Int
  startRowId : Nat
  deriving Repr, DecidableEq

namespace Payload

def getRowCount (payload : Payload) : Nat := payload.timestamps.length

def getTimestamp (payload : Payload) (row : Nat) : Int := payload.timestamps.getD row 0

end Payload

/-- `sub_group->PartitionTime(cur_ts_ms / 1000, max_ts)` for one row; C++ division rounds toward
zero. -/
def rowPartitionTime (partitionTime : Int → Int) (payload : Payload) (row : Nat) : Int :=
  partitionTime ((payload.getTimestamp row).tdiv 1000)

/-- A slice `[startRow, endRow)` of rows filed under the partition time `pTime`; the entries of
`findPartitionPayload`'s multimap and the slices `putDataColumnar` writes are both of this
shape. -/
structure RowRun where
  pTime : Int
  startRow : Nat
  endRow : Nat
  deriving Repr, DecidableEq

/--
`run` is a maximal run of consecutive rows of `[first, stop)` that all have the partition time
`run.pTime`.
-/
structure IsMaximalRun (pt : Nat → Int) (first stop : Nat) (run : RowRun) : Prop where
  first_le : first ≤ run.startRow
  start_lt : run.startRow < run.endRow
  end_le : run.endRow ≤ stop
  uniform : ∀ r, run.startRow ≤ r → r < run.endRow → pt r = run.pTime
  leftEdge : run.startRow = first ∨ pt (run.startRow - 1) ≠ run.pTime
  rightEdge : run.endRow = stop ∨ pt run.endRow ≠ run.pTime

namespace IsMaximalRun

variable {pt : Nat → Int} {first stop : Nat}

/-- Two maximal runs that share a row are the same run. -/
theorem eq_of_common_row {x y : RowRun} (hx : IsMaximalRun pt first stop x)
    (hy : IsMaximalRun pt first stop y) {r : Nat} (hrx : x.startRow ≤ r ∧ r < x.endRow)
    (hry : y.startRow ≤ r ∧ r < y.endRow) : x = y := by
  have hp : x.pTime = y.pTime := (hx.uniform r hrx.1 hrx.2).symm.trans (hy.uniform r hry.1 hry.2)
  have hs : x.startRow = y.startRow := by
    by_contra hne
    rcases Nat.lt_or_gt_of_ne hne with h | h
    · rcases hy.leftEdge with h' | h'
      · exact absurd hx.first_le (by omega)
      · exact h' (by rw [hx.uniform _ (by omega) (by omega), hp])
    · rcases hx.leftEdge with h' | h'
      · exact absurd hy.first_le (by omega)
      · exact h' (by rw [hy.uniform _ (by omega) (by omega), hp])
  have he : x.endRow = y.endRow := by
    by_contra hne
    rcases Nat.lt_or_gt_of_ne hne with h | h
    · rcases hx.rightEdge with h' | h'
      · exact absurd hy.end_le (by omega)
      · exact h' (by rw [hy.uniform _ (by omega) h, hp])
    · rcases hy.rightEdge with h' | h'
      · exact absurd hx.end_le (by omega)
      · exact h' (by rw [hx.uniform _ (by omega) h, hp])
  cases x; cases y
  simp_all

end IsMaximalRun

section Slicing

variable (pt : Nat → Int) (stop : Nat)

/-- The search loop of `payloadNextSlice`: `rowsLeft` rows from `rowId` on remain, and `pTime` is
the partition time of the last row looked at. -/
def nextSliceScan (lastPTime : Int) : Nat → Nat → Int → Nat × Int
  | 0, _, pTime => (stop, pTime)
  | rowsLeft + 1, rowId, _ =>
      if pt rowId ≠ lastPTime then (rowId, pt rowId)
      else nextSliceScan lastPTime rowsLeft (rowId + 1) (pt rowId)

/-- `payloadNextSlice` over the rows `[0, stop)`: `none` when `start_row` is past them, else
`(end_row, cur_p_time)`; `p_time` starts at `0`. -/
def nextSlice (lastPTime : Int) (startRow : Nat) : Option (Nat × Int) :=
  if stop ≤ startRow then none
  else some (nextSliceScan pt stop lastPTime (stop - startRow) startRow 0)

variable {pt stop}

theorem nextSliceScan_spec {lastPTime pTime p : Int} {rowsLeft rowId e : Nat}
    (hstop : rowId + rowsLeft = stop)
    (h : nextSliceScan pt stop lastPTime rowsLeft rowId pTime = (e, p)) :
    rowId ≤ e ∧ e ≤ stop ∧ (∀ r, rowId ≤ r → r < e → pt r = lastPTime) ∧
      (e < stop → pt e ≠ lastPTime ∧ p = pt e) ∧
      (e = stop → p = lastPTime ∨ rowsLeft = 0 ∧ p = pTime) := by
  induction rowsLeft generalizing rowId pTime with
  | zero =>
      simp only [nextSliceScan, Prod.mk.injEq] at h
      obtain ⟨rfl, rfl⟩ := h
      refine ⟨by omega, Nat.le_refl _, fun r h1 h2 => absurd h2 (by omega), fun h => absurd h (by omega),
        fun _ => Or.inr ⟨rfl, rfl⟩⟩
  | succ rowsLeft ih =>
      simp only [nextSliceScan] at h
      split_ifs at h with hne
      · simp only [Prod.mk.injEq] at h
        obtain ⟨rfl, rfl⟩ := h
        exact ⟨Nat.le_refl _, by omega, fun r h1 h2 => absurd h2 (by omega), fun _ => ⟨hne, rfl⟩,
          fun h => absurd h (by omega)⟩
      · have heq : pt rowId = lastPTime := not_not.mp hne
        obtain ⟨h1, h2, h3, h4, h5⟩ := ih (by omega) h
        refine ⟨by omega, h2, fun r hr1 hr2 => ?_, h4, fun he => ?_⟩
        · rcases Nat.eq_or_lt_of_le hr1 with rfl | hr1
          · exact heq
          · exact h3 r hr1 hr2
        · rcases h5 he with hp | ⟨-, hp⟩
          · exact Or.inl hp
          · exact Or.inl (hp.trans heq)

/-- One slice: from a row whose partition time is `lastPTime`, `payloadNextSlice` returns the
end of the run of rows of that partition time and the partition time of the row after it. -/
theorem nextSlice_spec {lastPTime : Int} {startRow : Nat} (hlt : startRow < stop)
    (hfirst : pt startRow = lastPTime) :
    ∃ e p, nextSlice pt stop lastPTime startRow = some (e, p) ∧ startRow < e ∧ e ≤ stop ∧
      (∀ r, startRow ≤ r → r < e → pt r = lastPTime) ∧
      (e < stop → pt e ≠ lastPTime ∧ p = pt e) ∧ (e = stop → p = lastPTime) := by
  rcases hres : nextSliceScan pt stop lastPTime (stop - startRow) startRow 0 with ⟨e, p⟩
  obtain ⟨h1, h2, h3, h4, h5⟩ := nextSliceScan_spec (by omega) hres
  refine ⟨e, p, by simp [nextSlice, Nat.not_le.mpr hlt, hres], ?_, h2, h3, h4, fun he => ?_⟩
  · rcases Nat.eq_or_lt_of_le h1 with rfl | h
    · exact absurd hfirst (h4 hlt).1
    · exact h
  · rcases h5 he with hp | ⟨h0, -⟩
    · exact hp
    · omega

variable (pt stop)

/-- The slices that iterating `payloadNextSlice` yields when `putDataColumnar` writes every one:
`(last_p_time, batch_start, row_id)`, after which `last_p_time := p_time` and
`batch_start := row_id`. The fuel bounds the number of iterations. -/
def sliceRuns : Nat → Int → Nat → List RowRun
  | 0, _, _ => []
  | fuel + 1, lastPTime, batchStart =>
      match nextSlice pt stop lastPTime batchStart with
      | none => []
      | some (e, p) => ⟨lastPTime, batchStart, e⟩ :: sliceRuns fuel p e

variable {pt stop}

theorem not_isMaximalRun_of_le {first batchStart : Nat} {run : RowRun} (hle : stop ≤ batchStart)
    (h : IsMaximalRun pt first stop run) : ¬ batchStart ≤ run.startRow := by
  have := h.start_lt; have := h.end_le; omega

/-- The slices from `batchStart` on are the maximal runs of `[first, stop)` that start at or
after `batchStart`, provided `batchStart` starts a run of partition time `lastPTime`. -/
theorem mem_sliceRuns {first : Nat} :
    ∀ {fuel : Nat} {lastPTime : Int} {batchStart : Nat}, first ≤ batchStart →
      stop - batchStart ≤ fuel → (batchStart < stop → pt batchStart = lastPTime) →
      (batchStart < stop → batchStart = first ∨ pt (batchStart - 1) ≠ pt batchStart) →
      ∀ run, run ∈ sliceRuns pt stop fuel lastPTime batchStart ↔
        IsMaximalRun pt first stop run ∧ batchStart ≤ run.startRow := by
  intro fuel
  induction fuel with
  | zero =>
      intro lastPTime batchStart _ hfuel _ _ run
      simp only [sliceRuns, List.not_mem_nil, false_iff, not_and]
      exact fun h => not_isMaximalRun_of_le (by omega) h
  | succ fuel ih =>
      intro lastPTime batchStart hfirst hfuel hpt hedge run
      by_cases hlt : batchStart < stop
      · obtain ⟨e, p, hslice, hbe, hes, huni, hnext, hlast⟩ := nextSlice_spec hlt (hpt hlt)
        have hhead : IsMaximalRun pt first stop ⟨lastPTime, batchStart, e⟩ :=
          ⟨hfirst, hbe, hes, huni, by rw [← hpt hlt]; exact hedge hlt,
            (Nat.lt_or_eq_of_le hes).symm.imp id fun h => (hnext h).1⟩
        have hrest := @ih p e (by omega) (by omega)
          (fun h => (hnext h).2.symm)
          (fun h => Or.inr (by rw [huni (e - 1) (by omega) (by omega)]; exact (hnext h).1.symm))
        simp only [sliceRuns, hslice, List.mem_cons, hrest]
        constructor
        · rintro (rfl | ⟨hr, hle⟩)
          · exact ⟨hhead, Nat.le_refl _⟩
          · exact ⟨hr, by omega⟩
        · rintro ⟨hr, hle⟩
          by_cases hin : run.startRow < e
          · exact Or.inl (hr.eq_of_common_row hhead ⟨Nat.le_refl _, hr.start_lt⟩ ⟨hle, hin⟩)
          · exact Or.inr ⟨hr, by omega⟩
      · simp only [sliceRuns, nextSlice, if_pos (Nat.not_lt.mp hlt), List.not_mem_nil, false_iff,
          not_and]
        exact fun h => not_isMaximalRun_of_le (Nat.not_lt.mp hlt) h

theorem le_of_nextSlice_eq {lastPTime p : Int} {startRow e : Nat}
    (h : nextSlice pt stop lastPTime startRow = some (e, p)) : startRow ≤ e := by
  unfold nextSlice at h
  split_ifs at h with hle
  exact (nextSliceScan_spec (by omega) (Option.some.inj h)).1

/-- The partition time `payloadNextSlice` hands back is that of the row ending the slice, or
`last_p_time` when the slice runs to the last row. -/
theorem nextSlice_pTime {lastPTime p : Int} {startRow e : Nat}
    (h : nextSlice pt stop lastPTime startRow = some (e, p)) :
    startRow < stop ∧ e ≤ stop ∧ (e < stop → p = pt e) ∧ (e = stop → p = lastPTime) := by
  unfold nextSlice at h
  split_ifs at h with hle
  obtain ⟨-, h2, -, h4, h5⟩ := nextSliceScan_spec (by omega) (Option.some.inj h)
  refine ⟨by omega, h2, fun he => (h4 he).2, fun he => (h5 he).resolve_right ?_⟩
  omega

theorem le_startRow_of_mem_sliceRuns :
    ∀ {fuel : Nat} {lastPTime : Int} {batchStart : Nat},
      ∀ run ∈ sliceRuns pt stop fuel lastPTime batchStart, batchStart ≤ run.startRow := by
  intro fuel
  induction fuel with
  | zero => simp [sliceRuns]
  | succ fuel ih =>
      intro lastPTime batchStart run hrun
      simp only [sliceRuns] at hrun
      split at hrun
      · simp at hrun
      · rename_i e p hslice
        rcases List.mem_cons.mp hrun with rfl | hrun
        · exact Nat.le_refl _
        · exact Nat.le_trans (le_of_nextSlice_eq hslice) (ih run hrun)

/-- Each slice ends at or before the start of every later one. -/
theorem sliceRuns_pairwise :
    ∀ {fuel : Nat} {lastPTime : Int} {batchStart : Nat},
      (sliceRuns pt stop fuel lastPTime batchStart).Pairwise (fun x y => x.endRow ≤ y.startRow) := by
  intro fuel
  induction fuel with
  | zero => simp [sliceRuns]
  | succ fuel ih =>
      intro lastPTime batchStart
      simp only [sliceRuns]
      split
      · exact List.Pairwise.nil
      · exact List.Pairwise.cons (fun run hrun => le_startRow_of_mem_sliceRuns run hrun) ih

/--
Iterating `payloadNextSlice` from the first row yields exactly the maximal runs of rows sharing a
partition time, each once and in row order.
-/
theorem sliceRuns_eq_maximal_runs (first : Nat) :
    (∀ run, run ∈ sliceRuns pt stop (stop - first) (pt first) first ↔
      IsMaximalRun pt first stop run) ∧
    (sliceRuns pt stop (stop - first) (pt first) first).Pairwise
      (fun x y => x.endRow ≤ y.startRow) := by
  refine ⟨fun run => ?_, sliceRuns_pairwise⟩
  rw [mem_sliceRuns (Nat.le_refl _) (Nat.le_refl _) (fun _ => rfl) (fun _ => Or.inl rfl)]
  exact ⟨And.left, fun h => ⟨h, h.first_le⟩⟩

end Slicing

/-- `payloadNextSlice` on a payload, with `sub_group->PartitionTime` as `partitionTime`. -/
def payloadNextSlice (partitionTime : Int → Int) (payload : Payload) (lastPTime : Int)
    (startRow : Nat) : Option (Nat × Int) :=
  nextSlice (rowPartitionTime partitionTime payload) payload.getRowCount lastPTime startRow

section FindPartitionPayload

variable (pt : Nat → Int)

/-- The loop of `findPartitionPayload` over `rowsLeft` rows from `rowId` on: `startRow` starts the
pending entry, `pTime` is the partition time of the last row looked at, `entries` holds what was
inserted so far. `last_p_time` is never updated in the loop. -/
def findPartitionPayloadScan (lastPTime : Int) :
    Nat → Nat → Nat → Int → List RowRun → Nat × Int × List RowRun
  | 0, _, startRow, pTime, entries => (startRow, pTime, entries)
  | rowsLeft + 1, rowId, startRow, _, entries =>
      if pt rowId ≠ lastPTime then
        findPartitionPayloadScan lastPTime rowsLeft (rowId + 1) rowId (pt rowId)
          (entries ++ [⟨pt rowId, startRow, rowId⟩])
      else findPartitionPayloadScan lastPTime rowsLeft (rowId + 1) startRow (pt rowId) entries

end FindPartitionPayload

/--
`findPartitionPayload`: the `bool` it returns and the multimap it leaves, given as its entries
in insertion order (`std::multimap` keeps them sorted by key, equal keys in insertion order).
-/
def findPartitionPayload (partitionTime : Int → Int) (payload : Payload)
    (partitionMap : List RowRun) : Bool × List RowRun :=
  let pt := rowPartitionTime partitionTime payload
  let startRow := payload.startRowId
  if payload.getRowCount ≤ startRow then (false, partitionMap)
  else
    match findPartitionPayloadScan pt (pt startRow) (payload.getRowCount - startRow) startRow
        startRow 0 partitionMap with
    | (startRow', pTime, entries) => (true, entries ++ [⟨pTime, startRow', payload.getRowCount⟩])

/-- Three rows in partitions `0, 0, 1`: the map files the rows `[0, 2)` under partition `1`, so
the maximal run `(0, [0, 2))` gets no entry. -/
theorem findPartitionPayload_files_run_under_next_partition :
    findPartitionPayload id ⟨[0, 0, 1000], 0⟩ [] = (true, [⟨1, 0, 2⟩, ⟨1, 2, 3⟩]) ∧
      IsMaximalRun (rowPartitionTime id ⟨[0, 0, 1000], 0⟩) 0 3 ⟨0, 0, 2⟩ ∧
      ¬ IsMaximalRun (rowPartitionTime id ⟨[0, 0, 1000], 0⟩) 0 3 ⟨1, 0, 2⟩ := by
  refine ⟨by decide, ⟨by decide, by decide, by decide, ?_, Or.inl rfl, Or.inr (by decide)⟩,
    fun h => absurd (h.uniform 0 (by decide) (by decide)) (by decide)⟩
  intro r _ h2
  have hr : r = 0 ∨ r = 1 := by simp only at h2; omega
  rcases hr with rfl | rfl <;> decide

end KwdbTs.Storage
