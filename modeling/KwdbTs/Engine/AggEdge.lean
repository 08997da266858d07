import KwdbTs.Engine.AggGeneral

/-!
# First and last aggregates on the general path

`traverseAllBlocks` updates the first/last candidates on every live row inside the spans, and
never takes the fast path when such an aggregate is asked for. Over the entity's rows in scan
order, each candidate is then the edge row of the rows it counts (`RecsInv`): the first, in
that order, stamped with the earliest timestamp (first) or the latest (last), among the rows
non-NULL in the column (`FIRST`, `LAST` and their timestamps) or among all rows (`FIRST_ROW`,
`LAST_ROW`). So the general path returns what the aggregates stand for
(`aggNextGeneral_eq_directRowFirstLast`), over any spans, and so does `Next` when another
aggregate is asked beside them. The short-circuit `findFirstData` may stop before it has seen
the edge row.
-/

namespace KwdbTs.Engine

theorem Edge.beats_irrefl (edge : Edge) (t : Int) : edge.beats t t = false := by
  cases edge <;> simp [Edge.beats]

theorem Edge.not_beats_of_beats (edge : Edge) {a b : Int} (h : edge.beats a b = true) :
    edge.beats b a = false := by
  cases edge <;> simp only [Edge.beats, decide_eq_true_eq, decide_eq_false_iff_not] at * <;> omega

theorem Edge.beats_of_not_beats (edge : Edge) {a b c : Int} (h1 : edge.beats a b = true)
    (h2 : edge.beats c b = false) : edge.beats a c = true := by
  cases edge <;> simp only [Edge.beats, decide_eq_true_eq, decide_eq_false_iff_not] at * <;> omega

theorem Edge.not_beats_trans (edge : Edge) {a b c : Int} (h1 : edge.beats a b = false)
    (h2 : edge.beats b c = false) : edge.beats a c = false := by
  cases edge <;> simp only [Edge.beats, decide_eq_false_iff_not] at * <;> omega

/-- A candidate over the rows `rows`, in scan order, counting the rows `counted`: none when no
row counts; else a counted row, stamped with its own timestamp, strictly nearer the edge than
every counted row before it and no farther from it than every counted row after it. -/
def EdgePick (edge : Edge) (counted : Block → Nat → Bool) (rows : List (Block × Nat)) :
    Option RowPick → Prop
  | none => ∀ x ∈ rows, counted x.1 x.2 = false
  | some p => p.ts = p.block.ts p.row ∧ counted p.block p.row = true ∧
      ∃ pre post, rows = pre ++ (p.block, p.row) :: post ∧
        (∀ x ∈ pre, counted x.1 x.2 = true → edge.beats p.ts (x.1.ts x.2) = true) ∧
        (∀ x ∈ post, counted x.1 x.2 = true → edge.beats (x.1.ts x.2) p.ts = false)

section Pick

variable {edge : Edge} {counted : Block → Nat → Bool} {rows : List (Block × Nat)}

/-- The candidate is one of the rows, stamped with its own timestamp. -/
theorem EdgePick.mem {q : RowPick} (h : EdgePick edge counted rows (some q)) :
    (q.block, q.row) ∈ rows ∧ q.ts = q.block.ts q.row := by
  obtain ⟨hts, -, pre, post, rfl, -⟩ := h
  exact ⟨by simp, hts⟩

/-- No counted row beats the candidate. -/
theorem EdgePick.not_beats {q : RowPick} (h : EdgePick edge counted rows (some q))
    {x : Block × Nat} (hx : x ∈ rows) (hcx : counted x.1 x.2 = true) :
    edge.beats (x.1.ts x.2) q.ts = false := by
  obtain ⟨hts, -, pre, post, rfl, hpre, hpost⟩ := h
  rcases List.mem_append.mp hx with hx | hx
  · exact edge.not_beats_of_beats (hpre x hx hcx)
  · rcases List.mem_cons.mp hx with rfl | hx
    · rw [← hts]
      exact edge.beats_irrefl _
    · exact hpost x hx hcx

/-- Rows after the ones seen that beat no candidate leave it the edge row. -/
theorem EdgePick.append {p : Option RowPick} (h : EdgePick edge counted rows p)
    {more : List (Block × Nat)}
    (hmore : ∀ x ∈ more, counted x.1 x.2 = true →
      ∃ q, p = some q ∧ edge.beats (x.1.ts x.2) q.ts = false) :
    EdgePick edge counted (rows ++ more) p := by
  cases p with
  | none =>
    intro x hx
    rcases List.mem_append.mp hx with hx | hx
    · exact h x hx
    · cases hcx : counted x.1 x.2
      · rfl
      · obtain ⟨_, hq, -⟩ := hmore x hx hcx
        cases hq
  | some q =>
    obtain ⟨hts, hcc, pre, post, rfl, hpre, hpost⟩ := h
    refine ⟨hts, hcc, pre, post ++ more, by simp, hpre, fun x hx hcx => ?_⟩
    rcases List.mem_append.mp hx with hx | hx
    · exact hpost x hx hcx
    · obtain ⟨_, hq, hb⟩ := hmore x hx hcx
      cases hq
      exact hb

/-- One candidate's update by the next row keeps it the edge row of the rows seen. -/
theorem edgePick_pickRow {p : Option RowPick} (h : EdgePick edge counted rows p) (idx : Int)
    (b : Block) (r : Nat) :
    EdgePick edge counted (rows ++ [(b, r)]) (pickRow edge idx (b.ts r) b r (counted b r) p) := by
  by_cases hb : (p.all fun c => edge.beats (b.ts r) c.ts) ∧ counted b r = true
  · -- the new row takes over: it beats the old candidate, hence every counted row seen
    have hpick : pickRow edge idx (b.ts r) b r (counted b r) p = some ⟨idx, b.ts r, b, r⟩ := by
      cases p <;> simp_all [pickRow]
    rw [hpick]
    refine ⟨rfl, hb.2, rows, [], rfl, fun x hx hcx => ?_, by simp⟩
    cases p with
    | none => simp [h x hx] at hcx
    | some c => exact edge.beats_of_not_beats (by simpa using hb.1) (h.not_beats hx hcx)
  · -- the old candidate stays, and the new row, if counted, joins the rows after it
    have hpick : pickRow edge idx (b.ts r) b r (counted b r) p = p := by
      cases p <;> simp_all [pickRow]
    rw [hpick]
    refine h.append fun x hx hcx => ?_
    rw [List.mem_singleton] at hx
    subst hx
    cases p with
    | none => simp_all
    | some c => exact ⟨c, rfl, by simpa [hcx] using hb⟩

end Pick

/-- The candidates of one edge over the rows `rows` seen: one per column asked for, keyed as at
the start, and each the edge row of the rows it counts; the row pair too when `rowAsked`. -/
structure EdgeInv (ctx : AggCtx) (edge : Edge) (rowAsked : Bool) (rows : List (Block × Nat))
    (recs : PickRecords) : Prop where
  keys : (recs.pairs edge).map Prod.fst = ((PickRecords.empty ctx).pairs edge).map Prod.fst
  pairs : ∀ c ∈ recs.pairs edge, EdgePick edge (fun b r => (b.value c.1 r).isSome) rows c.2
  rowPair : rowAsked = true → EdgePick edge (fun _ _ => true) rows (recs.rowPair edge)

section EdgeInv

variable {ctx : AggCtx} {edge : Edge} {rowAsked : Bool} {rows : List (Block × Nat)}
  {recs : PickRecords}

theorem edgeInv_empty (ctx : AggCtx) (edge : Edge) (rowAsked : Bool) :
    EdgeInv ctx edge rowAsked [] (PickRecords.empty ctx) where
  keys := rfl
  pairs c hc := by
    cases edge <;>
    · simp only [PickRecords.empty, PickRecords.pairs, List.mem_map] at hc
      obtain ⟨_, -, rfl⟩ := hc
      exact fun _ h => nomatch h
  rowPair _ := by cases edge <;> exact fun _ h => nomatch h

/-- The update of the edge's records by the next row keeps the invariant over the rows seen. -/
theorem EdgeInv.update (h : EdgeInv ctx edge rowAsked rows recs) (idx : Int) (b : Block)
    (r : Nat) :
    EdgeInv ctx edge rowAsked (rows ++ [(b, r)]) (updateEdgeCols edge idx (b.ts r) b r recs) where
  keys := by simpa only [updateEdgeCols_pairs, List.map_map, Function.comp_def] using h.keys
  pairs c hc := by
    simp only [updateEdgeCols_pairs, List.mem_map] at hc
    obtain ⟨c, hc, rfl⟩ := hc
    exact edgePick_pickRow (h.pairs c hc) idx b r
  rowPair hr := by
    rw [updateEdgeCols_rowPair]
    exact edgePick_pickRow (h.rowPair hr) idx b r

/-- The update of the other edge's records leaves the invariant as it is. -/
theorem EdgeInv.update_of_ne (h : EdgeInv ctx edge rowAsked rows recs) (edge' : Edge)
    (hne : edge' ≠ edge) (idx ts : Int) (b : Block) (r : Nat) :
    EdgeInv ctx edge rowAsked rows (updateEdgeCols edge' idx ts b r recs) := by
  obtain ⟨hp, hr⟩ := updateEdgeCols_of_ne hne idx ts b r recs
  exact ⟨hp ▸ h.keys, hp ▸ h.pairs, hr ▸ h.rowPair⟩

end EdgeInv

/-- The candidates `traverseAllBlocks` keeps, over the rows `rows` seen: those of both edges,
the row pairs included. -/
structure RecsInv (ctx : AggCtx) (rows : List (Block × Nat)) (recs : PickRecords) : Prop where
  first : EdgeInv ctx .first true rows recs
  last : EdgeInv ctx .last true rows recs

theorem recsInv_empty (ctx : AggCtx) : RecsInv ctx [] (PickRecords.empty ctx) :=
  ⟨edgeInv_empty ctx .first true, edgeInv_empty ctx .last true⟩

/-- `updateFirstLastCols` on the next row keeps the invariant over the rows seen. -/
theorem RecsInv.updateFirstLast {ctx : AggCtx} {rows : List (Block × Nat)}
    {recs : PickRecords} (h : RecsInv ctx rows recs) (idx : Int) (b : Block) (r : Nat) :
    RecsInv ctx (rows ++ [(b, r)]) (updateFirstLastCols idx (b.ts r) b r recs) :=
  ⟨(h.first.update idx b r).update_of_ne .last (by decide) _ _ _ _,
    (h.last.update_of_ne .first (by decide) _ _ _ _).update idx b r⟩

/-- So does `updateFirstLastCols` on each row of a run. -/
theorem RecsInv.updateRun {ctx : AggCtx} {rows : List (Block × Nat)} {recs : PickRecords}
    (h : RecsInv ctx rows recs) (idx : Int) (b : Block) (rs : List Nat) :
    RecsInv ctx (rows ++ rs.map (b, ·)) (updateRunCols idx b rs recs) := by
  induction rs generalizing rows recs with
  | nil => simpa [updateRunCols] using h
  | cons r rs ih =>
    have := ih (h.updateFirstLast idx b r)
    simpa [updateRunCols] using this

theorem RecsInv.edge {ctx : AggCtx} {rows : List (Block × Nat)} {recs : PickRecords}
    (h : RecsInv ctx rows recs) : ∀ edge, EdgeInv ctx edge true rows recs
  | .first => h.first
  | .last => h.last

/-- `TsAggIterator::Next`'s general path from `Init` when a first/last aggregate is asked for:
allowed more passes than the cost and more calls than runs, it combines the entity's runs with
candidates that are, for each column and edge, the edge row of the entity's live rows inside the
spans. -/
theorem aggNextGeneral_edge_candidates (ctx : AggCtx) (e : Nat) (es : List Nat)
    (hids : ctx.entityIds = e :: es) (hno : noFirstLastType ctx = false) (fuel calls : Nat)
    (hfuel : rawIterCost ctx.toIterCtx (TsIterator.init ctx.toIterCtx) < fuel)
    (hcalls : (entityBatches ctx.toIterCtx e).length < calls) :
    ∃ recs, aggNextGeneral ctx fuel calls (AggState.init ctx) =
        some (generalResults ctx ((entityBatches ctx.toIterCtx e).map (runPartials ctx)) recs) ∧
      RecsInv ctx (entityRows ctx e) recs := by
  obtain ⟨st', h, hI⟩ := collectRuns_init (Or.inl hno) hids hfuel hcalls
  have hinv := hI (RecsInv ctx) hno (fun _ _ idx b rs h => h.updateRun idx b rs)
    (recsInv_empty ctx)
  exact ⟨st'.recs, by rw [aggNextGeneral, h]; rfl, hinv⟩

/-! ## What the first/last aggregates stand for -/

/-- The earliest (first) or latest (last) of a list of timestamps. -/
def Edge.extreme : Edge → List Int → Option Int
  | .first, l => l.min?
  | .last, l => l.max?

/-- The row a first/last aggregate stands for: among the rows counted, the first in scan order
stamped with the earliest (first) or latest (last) of their timestamps. -/
def edgeRow (edge : Edge) (counted : Block → Nat → Bool) (rows : List (Block × Nat)) :
    Option (Block × Nat) :=
  let cs := rows.filter fun x => counted x.1 x.2
  (edge.extreme (cs.map fun x => x.1.ts x.2)).bind fun m => cs.find? fun x => x.1.ts x.2 = m

/-- The earliest (latest) timestamp is one of them, and none beats it. -/
theorem Edge.extreme_eq_some_iff {edge : Edge} {l : List Int} {m : Int} :
    edge.extreme l = some m ↔ m ∈ l ∧ ∀ t ∈ l, edge.beats t m = false := by
  have : Std.Antisymm (α := Int) (· ≤ ·) := ⟨Int.le_antisymm⟩
  cases edge
  · simp only [Edge.extreme, Edge.beats, decide_eq_false_iff_not, not_lt]
    exact List.min?_eq_some_iff Int.le_refl min_choice fun _ _ _ => le_min_iff
  · simp only [Edge.extreme, Edge.beats, decide_eq_false_iff_not, not_lt]
    exact List.max?_eq_some_iff Int.le_refl max_choice fun _ _ _ => max_le_iff

/-- The candidate the invariant describes is the row the aggregate stands for. -/
theorem EdgePick.edgeRow_eq {edge : Edge} {counted : Block → Nat → Bool}
    {rows : List (Block × Nat)} {p : Option RowPick} (h : EdgePick edge counted rows p) :
    edgeRow edge counted rows = p.map fun q => (q.block, q.row) := by
  cases p with
  | none =>
    have : rows.filter (fun x => counted x.1 x.2) = [] :=
      List.filter_eq_nil_iff.mpr fun x hx => by simp [h x hx]
    cases edge <;> simp [edgeRow, this, Edge.extreme]
  | some c =>
    -- no counted row beats the candidate, so its timestamp is the edge of theirs
    have hext : edge.extreme ((rows.filter fun x => counted x.1 x.2).map fun x => x.1.ts x.2) =
        some c.ts := by
      refine Edge.extreme_eq_some_iff.mpr
        ⟨List.mem_map.mpr ⟨_, List.mem_filter.mpr ⟨h.mem.1, h.2.1⟩, h.mem.2.symm⟩, ?_⟩
      simp only [List.mem_map, List.mem_filter]
      rintro t ⟨x, ⟨hx, hcx⟩, rfl⟩
      exact h.not_beats hx hcx
    -- and every counted row before it is stamped with another timestamp
    obtain ⟨hts, hcc, pre, post, rfl, hpre, -⟩ := h
    have hnone : (pre.filter fun x => counted x.1 x.2).find? (fun x => x.1.ts x.2 = c.ts) = none := by
      simp only [List.find?_eq_none, List.mem_filter, decide_eq_true_eq, and_imp]
      intro x hx hcx heq
      have := hpre x hx hcx
      rw [heq, edge.beats_irrefl] at this
      exact Bool.false_ne_true this
    simp only [edgeRow]
    rw [hext, Option.some_bind, List.filter_append, List.find?_append, hnone, Option.none_or]
    simp [hcc, hts]

/-- What a first/last aggregate returns from the row it stands for: the row's timestamp, or the
column's value there (NULL when it is NULL). -/
def edgeValue (agg : Sumfunctype) (col : Nat) (row : Option (Block × Nat)) : Option Int :=
  match agg with
  | .firstts | .firstrowts | .lastts | .lastrowts => row.map fun x => x.1.ts x.2
  | _ => row.bind fun x => x.1.value col x.2

/-- The rows a first/last aggregate of a column counts: every row for `FIRST_ROW` and its kin,
the rows non-NULL in the column for the others. -/
def edgeCounted (col : Nat) (agg : Sumfunctype) : Block → Nat → Bool :=
  if agg.isRowType then fun _ _ => true else fun b r => (b.value col r).isSome

/-- What `Next` should return for a scan column: its direct aggregate, or for a first/last
aggregate the timestamp or value of the row it stands for among the entity's rows. -/
def directResult (ctx : AggCtx) (e col : Nat) (agg : Sumfunctype) : Option Int :=
  match agg.edge with
  | none => directAggregate ctx e col agg
  | some edge => edgeValue agg col (edgeRow edge (edgeCounted col agg) (entityRows ctx e))

/-- The row `Next` should return for the entity when a first/last aggregate is asked for: none
when every result is NULL. -/
def directRowFirstLast (ctx : AggCtx) (e : Nat) : Option (List (Option Int)) :=
  let res := ctx.scanCols.map fun c => directResult ctx e c.1 c.2
  if res.all Option.isNone then none else some res

section Results

variable {ctx : AggCtx} {edge : Edge} {rowAsked : Bool} {rows : List (Block × Nat)}
  {recs : PickRecords}

/-- A column asked with `FIRST`/`FIRSTTS` (or `LAST`/`LASTTS`) finds its own candidate among the
records, and it is the edge row of the rows non-NULL in the column. -/
theorem EdgeInv.find_pair (h : EdgeInv ctx edge rowAsked rows recs) {col : Nat}
    {agg : Sumfunctype} (hc : (col, agg) ∈ ctx.scanCols) (hedge : agg.edge = some edge)
    (hrow : agg.isRowType = false) :
    ∃ q, (recs.pairs edge).find? (·.1 = col) = some (col, q) ∧
      EdgePick edge (fun b r => (b.value col r).isSome) rows q := by
  have hmem : col ∈ (recs.pairs edge).map Prod.fst := by
    rw [h.keys]
    cases agg <;> cases hedge <;> cases hrow <;>
      exact List.mem_map.mpr ⟨_, List.mem_map.mpr ⟨_, List.mem_filter.mpr ⟨hc, by simp⟩, rfl⟩, rfl⟩
  obtain ⟨x, hx, hxcol⟩ := List.mem_map.mp hmem
  have hsome : ((recs.pairs edge).find? (·.1 = col)).isSome :=
    List.find?_isSome.mpr ⟨x, hx, decide_eq_true hxcol⟩
  obtain ⟨y, hy⟩ := Option.isSome_iff_exists.mp hsome
  have hycol : y.1 = col := by simpa using List.find?_some hy
  refine ⟨y.2, by rw [hy, ← hycol], ?_⟩
  simpa only [hycol] using h.pairs y (List.mem_of_find?_eq_some hy)

/-- A `*_ROW` aggregate of an edge among the scan columns asks for the edge's row pair. -/
theorem noEdgeRowType_eq_false {col : Nat} {agg : Sumfunctype} (hc : (col, agg) ∈ ctx.scanCols)
    (hedge : agg.edge = some edge) (hrow : agg.isRowType = true) :
    noEdgeRowType ctx edge = false :=
  List.all_eq_false.mpr ⟨_, hc, by simp [hedge, hrow]⟩

/-- Under the invariant, the batch of a first/last column is what it stands for over the rows
seen. -/
theorem EdgeInv.edgeResult_eq (h : EdgeInv ctx edge rowAsked rows recs)
    (hasked : noEdgeRowType ctx edge = false → rowAsked = true) {col : Nat} {agg : Sumfunctype}
    (hc : (col, agg) ∈ ctx.scanCols) (hedge : agg.edge = some edge) :
    edgeResult edge recs col agg = edgeValue agg col (edgeRow edge (edgeCounted col agg) rows) := by
  -- the candidate `edgeResult` reads is the edge row of the rows the aggregate counts
  have hpick : EdgePick edge (edgeCounted col agg) rows
      (if agg.isRowType then recs.rowPair edge
        else ((recs.pairs edge).find? (·.1 = col)).bind (·.2)) := by
    cases hrow : agg.isRowType
    · obtain ⟨q, hq, hpq⟩ := h.find_pair hc hedge hrow
      simpa [edgeCounted, hrow, hq] using hpq
    · simpa [edgeCounted, hrow] using
        h.rowPair (hasked (noEdgeRowType_eq_false hc hedge hrow))
  simp only [hpick.edgeRow_eq, edgeResult, hedge, ne_eq, not_true_eq_false, if_false]
  generalize (if agg.isRowType then recs.rowPair edge
    else ((recs.pairs edge).find? (·.1 = col)).bind (·.2)) = pick at hpick ⊢
  cases pick with
  | none => cases agg <;> rfl
  | some q => cases agg <;> simp [edgeValue, hpick.1]

/-- With a first/last aggregate asked for, `Next`'s combination of the entity's runs, with
candidates that keep the invariant, is the row the aggregates stand for. The pre-aggregates
matter only when another aggregate is asked for beside them. -/
theorem generalResults_of_recsInv {e : Nat} (hno : noFirstLastType ctx = false)
    (hvalid : ∀ c ∈ ctx.scanCols, c.2.edge = none →
      ∀ b ∈ partitionsBlocks ctx.toIterCtx e ctx.pBts, PreAggValid b)
    (h : RecsInv ctx (entityRows ctx e) recs) :
    generalResults ctx ((entityBatches ctx.toIterCtx e).map (runPartials ctx)) recs =
      directRowFirstLast ctx e := by
  unfold generalResults directRowFirstLast
  rw [hno, Bool.and_false, if_neg Bool.false_ne_true,
    map_enum_eq_map ctx.scanCols _ fun c => directResult ctx e c.1 c.2]
  rintro ⟨i, col, agg⟩ hmem
  obtain ⟨hi, hc⟩ := List.mem_enum hmem
  cases hedge : agg.edge with
  | none =>
    simpa only [hedge, directResult] using
      combinePartials_column (hvalid _ (hc ▸ List.getElem_mem hi) hedge) hi hc.symm
  | some edge =>
    simpa only [hedge, directResult] using
      (h.edge edge).edgeResult_eq (fun _ => rfl) (hc ▸ List.getElem_mem hi) hedge

end Results

/-- The general path of `Next` from `Init` with a first/last aggregate asked for: when every
block of the entity keeps the pre-aggregate invariant and the general path is allowed more
passes than the cost and more calls than runs, it returns the row the aggregates stand for. -/
theorem aggNextGeneral_eq_directRowFirstLast (ctx : AggCtx) (e : Nat) (es : List Nat)
    (hids : ctx.entityIds = e :: es) (hno : noFirstLastType ctx = false)
    (hvalid : ∀ b ∈ partitionsBlocks ctx.toIterCtx e ctx.pBts, PreAggValid b) (fuel calls : Nat)
    (hfuel : rawIterCost ctx.toIterCtx (TsIterator.init ctx.toIterCtx) < fuel)
    (hcalls : (entityBatches ctx.toIterCtx e).length < calls) :
    aggNextGeneral ctx fuel calls (AggState.init ctx) = some (directRowFirstLast ctx e) := by
  obtain ⟨recs, h, hinv⟩ := aggNextGeneral_edge_candidates ctx e es hids hno fuel calls hfuel hcalls
  rw [h, generalResults_of_recsInv hno (fun _ _ _ => hvalid) hinv]

/-- `TsAggIterator::Next` from `Init` with a first/last aggregate beside another: it takes the
general path and returns the row the aggregates stand for, over any spans. -/
theorem aggNext_eq_directRowFirstLast (ctx : AggCtx) (e : Nat) (es : List Nat)
    (hids : ctx.entityIds = e :: es) (hno : noFirstLastType ctx = false)
    {c : Nat × Sumfunctype} (hc : c ∈ ctx.scanCols) (hedge : c.2.edge = none)
    (hpbts : ctx.pBts ≠ [])
    (hvalid : ∀ b ∈ partitionsBlocks ctx.toIterCtx e ctx.pBts, PreAggValid b) (fuel calls : Nat)
    (hfuel : rawIterCost ctx.toIterCtx (TsIterator.init ctx.toIterCtx) < fuel)
    (hcalls : (entityBatches ctx.toIterCtx e).length < calls) :
    aggNext ctx fuel calls (AggState.init ctx) = some (some (directRowFirstLast ctx e)) := by
  rw [aggNext_init_general ctx hids hc hedge, if_neg (by simpa using hpbts),
    aggNextGeneral_eq_directRowFirstLast ctx e es hids hno hvalid fuel calls hfuel hcalls]

end KwdbTs.Engine
