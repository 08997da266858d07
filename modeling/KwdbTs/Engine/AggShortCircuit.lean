import KwdbTs.Engine.AggEdge

/-!
# The short-circuit of first and last

`findFirstData` and `findLastData` walk the entity's rows from the near end: partitions, block
items and rows in order for first, all three reversed for last. They skip the blocks that cannot
hold a candidate, and stop at a row stamped with the partition's recorded bound once every
column has a candidate, or after the first partition that leaves every column with one. What
they leave are the edge rows of the rows they went through (`findEdgeRows_spec` and the loops
above it), and both exits are honest when no partition met later beats a row of one met before,
the recorded bound bounds each partition's rows, and the rows stamped with it are non-NULL in
the scan columns: the candidates are then the edge rows of all the entity's rows in the order of
the walk (`findEdgeData_edgeInv`). So `Next` with first aggregates only returns what they stand
for (`aggNext_first_eq_directRowFirstLast`). For last the walk goes from the far end, so among
rows at the latest timestamp it keeps the last in scan order (`findLastData_eq`), where the
general path keeps the first; when no two rows share a timestamp the two agree, and every query
of first and last aggregates only gets from the short-circuit what the general path returns
(`aggNext_firstLast_eq_general`). A row at the bound that is NULL in a column lets the walk stop
before that column's edge row.
-/

namespace KwdbTs.Engine

/-! ## The rows the walk goes through -/

section Rows

variable (ctx : AggCtx) (edge : Edge)

/-- The rows of a block the walk may take: its live rows inside the spans, in the edge's
order. -/
def edgeBlockRows (b : Block) : List (Block × Nat) :=
  ((edge.rowOrder b).filter (rowQualifies ctx.tsSpans b)).map (b, ·)

/-- The rows of a queue of block items the walk may take, block item by block item. -/
def queueRows (q : List (Option Block)) : List (Block × Nat) :=
  (q.filterMap id).flatMap (edgeBlockRows ctx edge)

/-- The rows of a partition the walk may take for the entity. -/
def edgePartitionRows (entityId : Nat) (p : PartitionTable) : List (Block × Nat) :=
  queueRows ctx edge (edge.queueOrder (p.getAllBlockItems entityId false))

/-- The entity's rows in the order of the walk, partition by partition. -/
def edgeRows (entityId : Nat) : List (Block × Nat) :=
  (edge.partitionOrder ctx.pBts).flatMap fun ip => edgePartitionRows ctx edge entityId ip.2

end Rows

theorem Edge.mem_rowOrder {edge : Edge} {b : Block} {r : Nat} :
    r ∈ edge.rowOrder b ↔ 1 ≤ r ∧ r < 1 + b.publishRowCount := by
  cases edge <;> simp [Edge.rowOrder, List.mem_range'_1]

theorem mem_edgeBlockRows {ctx : AggCtx} {edge : Edge} {b : Block} {x : Block × Nat}
    (hx : x ∈ edgeBlockRows ctx edge b) :
    x.1 = b ∧ 1 ≤ x.2 ∧ x.2 ≤ b.publishRowCount ∧ rowQualifies ctx.tsSpans b x.2 = true := by
  simp only [edgeBlockRows, List.mem_map, List.mem_filter, Edge.mem_rowOrder] at hx
  obtain ⟨r, ⟨⟨h1, h2⟩, hq⟩, rfl⟩ := hx
  exact ⟨rfl, h1, by omega, hq⟩

/-- A block whose stored bounds meet no span has no row inside the spans. -/
theorem edgeBlockRows_eq_nil {ctx : AggCtx} {edge : Edge} {b : Block}
    (h : isTimestampInSpans ctx.tsSpans b.minTs b.maxTs = false) : edgeBlockRows ctx edge b = [] := by
  refine List.eq_nil_iff_forall_not_mem.mpr fun x hx => ?_
  obtain ⟨-, h1, h2, hq⟩ := mem_edgeBlockRows hx
  obtain ⟨s, hs, hin⟩ := List.any_eq_true.mp (Bool.and_eq_true _ _ ▸ hq).2
  have := b.tsBounds x.2 h1 h2
  have hmeet : isTimestampInSpans ctx.tsSpans b.minTs b.maxTs = true :=
    List.any_eq_true.mpr ⟨s, hs, by simp only [Bool.and_eq_true, decide_eq_true_eq] at hin ⊢; omega⟩
  rw [h] at hmeet
  cases hmeet

/-- No row of `later` beats a row of `earlier`: for first, none is stamped earlier. -/
def NeverBeats (edge : Edge) (earlier later : List (Block × Nat)) : Prop :=
  ∀ x ∈ earlier, ∀ y ∈ later, edge.beats (y.1.ts y.2) (x.1.ts x.2) = false

/-! ## Exits that keep the candidates the edge rows -/

section Append

variable {ctx : AggCtx} {edge : Edge} {ra : Bool} {rows : List (Block × Nat)}
  {recs : PickRecords}

/-- Every key of the records is a scan column. -/
theorem EdgeInv.key_mem (h : EdgeInv ctx edge ra rows recs) {c : Nat × Option RowPick}
    (hc : c ∈ recs.pairs edge) : ∃ agg, (c.1, agg) ∈ ctx.scanCols := by
  have hk : c.1 ∈ ((PickRecords.empty ctx).pairs edge).map Prod.fst :=
    h.keys ▸ List.mem_map_of_mem _ hc
  cases edge <;>
  · simp only [PickRecords.empty, PickRecords.pairs, List.map_map, List.mem_map,
      List.mem_filter] at hk
    obtain ⟨⟨col, agg⟩, ⟨hmem, -⟩, hcol⟩ := hk
    exact ⟨agg, by simpa [← hcol] using hmem⟩

/-- `hasFoundEdgeAggData`: every column's candidate is there, and the row pair's when a `*_ROW`
aggregate is asked for. -/
theorem exists_of_hasFoundEdgeAggData
    (h : hasFoundEdgeAggData edge (noEdgeRowType ctx edge) recs = true) :
    (∀ c ∈ recs.pairs edge, ∃ q, c.2 = some q) ∧
      (noEdgeRowType ctx edge = false → ∃ q, recs.rowPair edge = some q) := by
  simp only [hasFoundEdgeAggData, Bool.and_eq_true, List.all_eq_true, Bool.or_eq_true] at h
  refine ⟨fun c hc => Option.isSome_iff_exists.mp (h.1 c hc), fun hno => ?_⟩
  rcases h.2 with h2 | h2
  · rw [hno] at h2
    cases h2
  · exact Option.isSome_iff_exists.mp h2

/-- Rows after the ones seen that beat no candidate keep the invariant. -/
theorem EdgeInv.append (h : EdgeInv ctx edge ra rows recs) {more : List (Block × Nat)}
    (hpairs : ∀ c ∈ recs.pairs edge, ∀ x ∈ more, (x.1.value c.1 x.2).isSome = true →
      ∃ q, c.2 = some q ∧ edge.beats (x.1.ts x.2) q.ts = false)
    (hrow : ra = true → ∀ x ∈ more,
      ∃ q, recs.rowPair edge = some q ∧ edge.beats (x.1.ts x.2) q.ts = false) :
    EdgeInv ctx edge ra (rows ++ more) recs :=
  ⟨h.keys, fun c hc => (h.pairs c hc).append (hpairs c hc),
    fun hr => (h.rowPair hr).append fun x hx _ => hrow hr x hx⟩

/-- With every candidate found, rows that beat no row seen keep the invariant. -/
theorem EdgeInv.append_of_found (h : EdgeInv ctx edge ra rows recs)
    (hfound : hasFoundEdgeAggData edge (noEdgeRowType ctx edge) recs = true)
    (hra : ra = true → noEdgeRowType ctx edge = false) {more : List (Block × Nat)}
    (hmore : NeverBeats edge rows more) : EdgeInv ctx edge ra (rows ++ more) recs := by
  obtain ⟨hp, hr⟩ := exists_of_hasFoundEdgeAggData hfound
  refine h.append (fun c hc x hx _ => ?_) (fun hra' x hx => ?_)
  · obtain ⟨q, hq⟩ := hp c hc
    have hmem := (hq ▸ h.pairs c hc).mem
    exact ⟨q, hq, hmem.2 ▸ hmore _ hmem.1 x hx⟩
  · obtain ⟨q, hq⟩ := hr (hra hra')
    have hmem := (hq ▸ h.rowPair hra').mem
    exact ⟨q, hq, hmem.2 ▸ hmore _ hmem.1 x hx⟩

/-- With every candidate found and a row `s` seen that is non-NULL in every scan column, rows
that do not beat `s` keep the invariant. -/
theorem EdgeInv.append_after_stop (h : EdgeInv ctx edge ra rows recs)
    (hfound : hasFoundEdgeAggData edge (noEdgeRowType ctx edge) recs = true)
    (hra : ra = true → noEdgeRowType ctx edge = false) {s : Block × Nat} (hs : s ∈ rows)
    (hsnn : ∀ c ∈ ctx.scanCols, (s.1.value c.1 s.2).isSome = true) {more : List (Block × Nat)}
    (hmore : ∀ x ∈ more, edge.beats (x.1.ts x.2) (s.1.ts s.2) = false) :
    EdgeInv ctx edge ra (rows ++ more) recs := by
  obtain ⟨hp, hr⟩ := exists_of_hasFoundEdgeAggData hfound
  refine h.append (fun c hc x hx _ => ?_) (fun hra' x hx => ?_)
  · obtain ⟨q, hq⟩ := hp c hc
    obtain ⟨agg, hagg⟩ := h.key_mem hc
    exact ⟨q, hq, edge.not_beats_trans (hmore x hx)
      ((hq ▸ h.pairs c hc).not_beats hs (hsnn _ hagg))⟩
  · obtain ⟨q, hq⟩ := hr (hra hra')
    exact ⟨q, hq, edge.not_beats_trans (hmore x hx) ((hq ▸ h.rowPair hra').not_beats hs rfl)⟩

end Append

/-! ## The three loops -/

/-- What a loop of the walk leaves from records that keep the invariant over `seen`, going
through `rows`: records that keep it over the part it went through, which is all of `rows`
unless it stopped; and when it stopped, every candidate is found and a row it went through is
stamped with `bound`. -/
def LoopSpec (ctx : AggCtx) (edge : Edge) (ra : Bool) (seen rows : List (Block × Nat))
    (bound : Int) (res : PickRecords × Bool) : Prop :=
  ∃ vis rest, rows = vis ++ rest ∧ EdgeInv ctx edge ra (seen ++ vis) res.1 ∧
    (res.2 = false → rest = []) ∧
    (res.2 = true → hasFoundEdgeAggData edge (noEdgeRowType ctx edge) res.1 = true ∧
      ∃ s ∈ vis, s.1.ts s.2 = bound)

section Loops

variable {ctx : AggCtx} {edge : Edge} {ra : Bool}

theorem loopSpec_nil {seen : List (Block × Nat)} {recs : PickRecords}
    (h : EdgeInv ctx edge ra seen recs) (bound : Int) :
    LoopSpec ctx edge ra seen [] bound (recs, false) :=
  ⟨[], [], rfl, by simpa using h, fun _ => rfl, fun h => Bool.noConfusion h⟩

/-- Going through `rows` first: the loop over the rest from there covers both. -/
theorem LoopSpec.cons_rows {seen rows more : List (Block × Nat)} {bound : Int}
    {res : PickRecords × Bool} (h : LoopSpec ctx edge ra (seen ++ rows) more bound res) :
    LoopSpec ctx edge ra seen (rows ++ more) bound res := by
  obtain ⟨vis, rest, rfl, hinv, hfalse, htrue⟩ := h
  refine ⟨rows ++ vis, rest, by simp, by simpa using hinv, hfalse, fun ht => ?_⟩
  obtain ⟨hf, s, hs, hts⟩ := htrue ht
  exact ⟨hf, s, List.mem_append_right _ hs, hts⟩

/-- A loop that stopped in `rows` covers `rows ++ more`. -/
theorem LoopSpec.append_of_stop {seen rows more : List (Block × Nat)} {bound : Int}
    {recs : PickRecords} (h : LoopSpec ctx edge ra seen rows bound (recs, true)) :
    LoopSpec ctx edge ra seen (rows ++ more) bound (recs, true) := by
  obtain ⟨vis, rest, rfl, hinv, -, htrue⟩ := h
  exact ⟨vis, rest ++ more, by simp, hinv, fun h => Bool.noConfusion h, htrue⟩

/-- The row loop of the walk over one block. -/
theorem findEdgeRows_spec {seen : List (Block × Nat)} {recs : PickRecords}
    (h : EdgeInv ctx edge ra seen recs) (idx bound : Int) (b : Block) (rs : List Nat) :
    LoopSpec ctx edge ra seen ((rs.filter (rowQualifies ctx.tsSpans b)).map (b, ·)) bound
      (findEdgeRows ctx edge idx bound b rs recs) := by
  induction rs generalizing seen recs with
  | nil => exact loopSpec_nil h bound
  | cons r rs ih =>
    have hskip : (b.deleted r || !checkIfTsInSpan ctx.tsSpans (b.ts r)) =
        !rowQualifies ctx.tsSpans b r := by
      rw [rowQualifies]
      cases b.deleted r <;> rfl
    unfold findEdgeRows
    rw [hskip]
    cases hq : rowQualifies ctx.tsSpans b r
    · rw [List.filter_cons_of_neg (by simp [hq])]
      exact ih h
    · rw [List.filter_cons_of_pos hq, List.map_cons, if_neg (by decide)]
      have h1 := h.update idx b r
      dsimp only
      split_ifs with hstop
      · rw [Bool.and_eq_true, decide_eq_true_eq] at hstop
        exact ⟨[(b, r)], _, rfl, h1, fun h => Bool.noConfusion h,
          fun _ => ⟨hstop.1, (b, r), List.mem_singleton_self _, hstop.2⟩⟩
      · show LoopSpec ctx edge ra seen ([(b, r)] ++ _) bound _
        exact LoopSpec.cons_rows (ih h1)

/-- The block loop of the walk over a queue of block items. -/
theorem findEdgeBlocks_spec (hra : ra = true → noEdgeRowType ctx edge = false)
    {seen : List (Block × Nat)} {recs : PickRecords} (h : EdgeInv ctx edge ra seen recs)
    (idx bound : Int) (q : List (Option Block)) :
    LoopSpec ctx edge ra seen (queueRows ctx edge q) bound
      (findEdgeBlocks ctx edge idx bound q recs) := by
  induction q generalizing seen recs with
  | nil => exact loopSpec_nil h bound
  | cons o q ih =>
    cases o with
    | none => exact ih h
    | some b =>
      have hrows : queueRows ctx edge (some b :: q) =
          edgeBlockRows ctx edge b ++ queueRows ctx edge q := rfl
      rw [hrows]
      unfold findEdgeBlocks
      split_ifs with h0 hnull hspan
      · -- an empty block item has no rows
        have : edgeBlockRows ctx edge b = [] :=
          List.eq_nil_iff_forall_not_mem.mpr fun x hx => by
            have := mem_edgeBlockRows hx
            omega
        rw [this, List.nil_append]
        exact ih h
      · -- a block NULL in every scan column: its rows count for no column, and no row pair
        -- is asked for
        rw [Bool.and_eq_true] at hnull
        refine LoopSpec.cons_rows (ih (h.append (fun c hc x hx hnn => ?_) (fun hra' => ?_)))
        · obtain ⟨hb, h1, h2, -⟩ := mem_edgeBlockRows hx
          obtain ⟨agg, hagg⟩ := h.key_mem hc
          have := List.all_eq_true.mp (List.all_eq_true.mp hnull.2 c.1
            (List.mem_map_of_mem Prod.fst hagg)) x.2 (List.mem_range'_1.mpr ⟨h1, by omega⟩)
          rw [Option.isNone_iff_eq_none] at this
          rw [hb, this] at hnn
          cases hnn
        · rw [hra hra'] at hnull
          cases hnull.1
      · -- a block outside the spans has no rows
        rw [edgeBlockRows_eq_nil (by simpa using hspan), List.nil_append]
        exact ih h
      · -- the row loop
        have hr := findEdgeRows_spec h idx bound b (edge.rowOrder b)
        rcases hres : findEdgeRows ctx edge idx bound b (edge.rowOrder b) recs with
          ⟨recs1, _ | _⟩
        · rw [hres] at hr
          obtain ⟨vis, rest, hvis, hinv, hfalse, -⟩ := hr
          obtain rfl := hfalse rfl
          rw [List.append_nil] at hvis
          subst hvis
          exact LoopSpec.cons_rows (ih hinv)
        · rw [hres] at hr
          exact hr.append_of_stop

/-- The partition loop of the walk. When no partition met later beats a row of one met before
or a row seen, no row of a partition beats its recorded bound, and the rows at the bound are
non-NULL in the scan columns, the records it leaves are the edge rows of all the rows. -/
theorem findEdgePartitions_spec (hra : ra = true → noEdgeRowType ctx edge = false) (e : Nat)
    (ps : List (Nat × PartitionTable))
    (hsorted : (ps.map fun ip => edgePartitionRows ctx edge e ip.2).Pairwise (NeverBeats edge))
    (hbound : ∀ ip ∈ ps, ∀ x ∈ edgePartitionRows ctx edge e ip.2,
      edge.beats (x.1.ts x.2) (edge.entityBound ip.2 e) = false)
    (hstop : ∀ ip ∈ ps, ∀ x ∈ edgePartitionRows ctx edge e ip.2,
      x.1.ts x.2 = edge.entityBound ip.2 e →
        ∀ c ∈ ctx.scanCols, (x.1.value c.1 x.2).isSome = true)
    {seen : List (Block × Nat)} {recs : PickRecords} (h : EdgeInv ctx edge ra seen recs)
    (hseen : NeverBeats edge seen (ps.flatMap fun ip => edgePartitionRows ctx edge e ip.2)) :
    EdgeInv ctx edge ra (seen ++ ps.flatMap fun ip => edgePartitionRows ctx edge e ip.2)
      (findEdgePartitions ctx edge e ps recs) := by
  induction ps generalizing seen recs with
  | nil => simpa [findEdgePartitions] using h
  | cons ip ps ih =>
    obtain ⟨i, p⟩ := ip
    rw [List.map_cons, List.pairwise_cons] at hsorted
    -- the rows of later partitions beat no row of this one, nor a row seen
    have hnext : NeverBeats edge (seen ++ edgePartitionRows ctx edge e p)
        (ps.flatMap fun ip => edgePartitionRows ctx edge e ip.2) := by
      intro x hx y hy
      rcases List.mem_append.mp hx with hx | hx
      · exact hseen x hx y (List.mem_append_right _ hy)
      · obtain ⟨ip', hip', hy⟩ := List.mem_flatMap.mp hy
        exact hsorted.1 _ (List.mem_map_of_mem _ hip') x hx y hy
    have hblocks := findEdgeBlocks_spec hra h i (edge.entityBound p e)
      (edge.queueOrder (p.getAllBlockItems e false))
    rw [List.flatMap_cons, ← List.append_assoc]
    unfold findEdgePartitions
    dsimp only
    generalize findEdgeBlocks ctx edge i (edge.entityBound p e)
      (edge.queueOrder (p.getAllBlockItems e false)) recs = res at hblocks ⊢
    obtain ⟨vis, rest, hvis, hinv, hfalse, htrue⟩ := hblocks
    change edgePartitionRows ctx edge e p = vis ++ rest at hvis
    obtain ⟨recs1, found⟩ := res
    split_ifs with hfound
    · cases found
      · -- the partition was gone through whole
        obtain rfl := hfalse rfl
        rw [List.append_nil] at hvis
        subst hvis
        exact hinv.append_of_found hfound hra hnext
      · -- the walk stopped at a row `s` at the bound: no row left beats it
        obtain ⟨-, s, hs, hts⟩ := htrue rfl
        have hsp : s ∈ edgePartitionRows ctx edge e p := hvis ▸ List.mem_append_left _ hs
        rw [hvis, List.append_assoc, List.append_assoc, ← List.append_assoc seen]
        refine hinv.append_after_stop hfound hra (List.mem_append_right _ hs)
          (hstop _ (List.mem_cons_self _ _) s hsp hts) fun x hx => ?_
        rcases List.mem_append.mp hx with hx | hx
        · rw [hts]
          exact hbound _ (List.mem_cons_self _ _) x (hvis ▸ List.mem_append_right _ hx)
        · exact hnext s (List.mem_append_right _ hsp) x hx
    · -- no stop: the walk goes on with the next partition
      cases found
      · obtain rfl := hfalse rfl
        rw [List.append_nil] at hvis
        subst hvis
        exact ih hsorted.2 (fun ip hip => hbound ip (List.mem_cons_of_mem _ hip))
          (fun ip hip => hstop ip (List.mem_cons_of_mem _ hip)) hinv hnext
      · exact absurd (htrue rfl).1 hfound

end Loops

/-- `findFirstData` / `findLastData` from fresh records, under the conditions of the partition
loop: the candidates are the edge rows of all the entity's rows in the order of the walk. -/
theorem findEdgeData_edgeInv (ctx : AggCtx) (edge : Edge) (e : Nat)
    (hsorted : ((edge.partitionOrder ctx.pBts).map fun ip =>
      edgePartitionRows ctx edge e ip.2).Pairwise (NeverBeats edge))
    (hbound : ∀ ip ∈ edge.partitionOrder ctx.pBts, ∀ x ∈ edgePartitionRows ctx edge e ip.2,
      edge.beats (x.1.ts x.2) (edge.entityBound ip.2 e) = false)
    (hstop : ∀ ip ∈ edge.partitionOrder ctx.pBts, ∀ x ∈ edgePartitionRows ctx edge e ip.2,
      x.1.ts x.2 = edge.entityBound ip.2 e →
        ∀ c ∈ ctx.scanCols, (x.1.value c.1 x.2).isSome = true) :
    EdgeInv ctx edge (!noEdgeRowType ctx edge) (edgeRows ctx edge e)
      (findEdgeData ctx edge e (PickRecords.empty ctx)) := by
  have hra : (!noEdgeRowType ctx edge) = true → noEdgeRowType ctx edge = false := by simp
  unfold findEdgeData
  split_ifs with hfound
  · exact (edgeInv_empty ctx edge _).append_of_found hfound hra fun x hx => nomatch hx
  · exact findEdgePartitions_spec hra e _ hsorted hbound hstop (edgeInv_empty ctx edge _)
      fun x hx => nomatch hx

/-- With the invariant over `rows`, the batches of an edge are what its aggregates stand for
over `rows`, and NULL for the other columns. -/
theorem edgeResults_of_edgeInv {ctx : AggCtx} {edge : Edge} {rows : List (Block × Nat)}
    {recs : PickRecords} (h : EdgeInv ctx edge (!noEdgeRowType ctx edge) rows recs) :
    edgeResults ctx edge recs = ctx.scanCols.map fun c =>
      if c.2.edge = some edge then edgeValue c.2 c.1 (edgeRow edge (edgeCounted c.1 c.2) rows)
      else none := by
  refine List.map_congr_left fun c hc => ?_
  split_ifs with hedge
  · exact h.edgeResult_eq (by simp) hc hedge
  · simp [edgeResult, hedge]

/-! ## First -/

theorem map_enum_snd {α β : Type} (l : List α) (f : α → β) :
    (l.enum.map fun ip => f ip.2) = l.map f := by
  conv_rhs => rw [← List.enum_map_snd l, List.map_map]
  rfl

theorem flatMap_enum_snd {α β : Type} (l : List α) (f : α → List β) :
    (l.enum.flatMap fun ip => f ip.2) = l.flatMap f := by
  conv_rhs => rw [← List.enum_map_snd l, List.flatMap_map]

/-- Walked for first, the entity's rows are in the order the general path takes them. -/
theorem edgeRows_first (ctx : AggCtx) (e : Nat) (hrev : ctx.isReversed = false) :
    edgeRows ctx .first e = entityRows ctx e := by
  rw [edgeRows, Edge.partitionOrder, flatMap_enum_snd ctx.pBts (edgePartitionRows ctx .first e)]
  simp only [entityRows, partitionsBlocks, queueBlocks, hrev, List.flatMap_assoc]
  rfl

/-- `findFirstData` for the entity, when no partition holds a row stamped earlier than a row of
a partition before it, each partition's recorded `min_ts` bounds its rows, and its rows stamped
with it are non-NULL in the scan columns: the first aggregates are what they stand for, the
other columns NULL. -/
theorem findFirstData_eq (ctx : AggCtx) (e : Nat) (hrev : ctx.isReversed = false)
    (hsorted : (ctx.pBts.map (edgePartitionRows ctx .first e)).Pairwise
      fun A B => ∀ x ∈ A, ∀ y ∈ B, x.1.ts x.2 ≤ y.1.ts y.2)
    (hbound : ∀ p ∈ ctx.pBts, ∀ x ∈ edgePartitionRows ctx .first e p,
      p.entityMinTs e ≤ x.1.ts x.2)
    (hstop : ∀ p ∈ ctx.pBts, ∀ x ∈ edgePartitionRows ctx .first e p,
      x.1.ts x.2 = p.entityMinTs e → ∀ c ∈ ctx.scanCols, (x.1.value c.1 x.2).isSome = true) :
    findFirstData ctx e = ctx.scanCols.map fun c =>
      if c.2.edge = some .first then directResult ctx e c.1 c.2 else none := by
  have hinv := findEdgeData_edgeInv ctx .first e
    (by
      rw [Edge.partitionOrder, map_enum_snd ctx.pBts (edgePartitionRows ctx .first e)]
      exact hsorted.imp fun hAB x hx y hy => by simpa [Edge.beats] using hAB x hx y hy)
    (fun ip hip x hx => by
      simpa [Edge.beats, Edge.entityBound] using
        hbound ip.2 (List.snd_mem_of_mem_enum hip) x hx)
    (fun ip hip => hstop ip.2 (List.snd_mem_of_mem_enum hip))
  rw [findFirstData, edgeResults_of_edgeInv hinv, edgeRows_first ctx e hrev]
  refine List.map_congr_left fun c _ => ?_
  split_ifs with hedge
  · simp only [directResult, hedge]
  · rfl

/-- With no partition and first/last aggregates only, no row is due. -/
theorem directRowFirstLast_eq_none {ctx : AggCtx} {e : Nat} (hp : ctx.pBts = [])
    (hall : ∀ c ∈ ctx.scanCols, c.2.edge.isSome) : directRowFirstLast ctx e = none := by
  have hrows : entityRows ctx e = [] := by simp [entityRows, partitionsBlocks, hp]
  refine if_pos (List.all_eq_true.mpr fun x hx => ?_)
  obtain ⟨⟨col, agg⟩, hc, rfl⟩ := List.mem_map.mp hx
  obtain ⟨edge, hedge⟩ := Option.isSome_iff_exists.mp (hall _ hc)
  simp only [directResult, hedge, hrows]
  cases edge <;> cases agg <;> rfl

/-- `TsAggIterator::Next` from `Init` with first aggregates only, under the conditions of
`findFirstData_eq`: it returns the row the aggregates stand for. -/
theorem aggNext_first_eq_directRowFirstLast (ctx : AggCtx) (e : Nat) (es : List Nat)
    (hids : ctx.entityIds = e :: es) (hfirst : onlyHasEdgeAggType ctx .first = true)
    (hrev : ctx.isReversed = false)
    (hsorted : (ctx.pBts.map (edgePartitionRows ctx .first e)).Pairwise
      fun A B => ∀ x ∈ A, ∀ y ∈ B, x.1.ts x.2 ≤ y.1.ts y.2)
    (hbound : ∀ p ∈ ctx.pBts, ∀ x ∈ edgePartitionRows ctx .first e p,
      p.entityMinTs e ≤ x.1.ts x.2)
    (hstop : ∀ p ∈ ctx.pBts, ∀ x ∈ edgePartitionRows ctx .first e p,
      x.1.ts x.2 = p.entityMinTs e → ∀ c ∈ ctx.scanCols, (x.1.value c.1 x.2).isSome = true)
    (fuel calls : Nat) :
    aggNext ctx fuel calls (AggState.init ctx) = some (some (directRowFirstLast ctx e)) := by
  have hall : ∀ c ∈ ctx.scanCols, c.2.edge = some .first := fun c hc =>
    of_decide_eq_true (List.all_eq_true.mp hfirst c hc)
  have hres : findFirstData ctx e = ctx.scanCols.map fun c => directResult ctx e c.1 c.2 := by
    rw [findFirstData_eq ctx e hrev hsorted hbound hstop]
    exact List.map_congr_left fun c hc => if_pos (hall c hc)
  rw [aggNext_init ctx hids, hfirst, if_pos rfl]
  split_ifs with hp
  · rw [directRowFirstLast_eq_none (List.isEmpty_iff.mp hp) fun c hc => by simp [hall c hc]]
  · rw [hres]
    rfl

/-! ## Last -/

theorem edgePartitionRows_last (ctx : AggCtx) (e : Nat) (p : PartitionTable) :
    edgePartitionRows ctx .last e p = (edgePartitionRows ctx .first e p).reverse := by
  simp only [edgePartitionRows, queueRows, Edge.queueOrder, List.filterMap_reverse,
    List.flatMap_reverse, List.reverse_inj]
  congr 1
  funext b
  simp [edgeBlockRows, Edge.rowOrder]

/-- Walked for last, the entity's rows come in the reverse of the walk for first. -/
theorem edgeRows_last (ctx : AggCtx) (e : Nat) :
    edgeRows ctx .last e = (edgeRows ctx .first e).reverse := by
  simp only [edgeRows, Edge.partitionOrder, edgePartitionRows_last, List.reverse_flatMap]
  rfl

/-- `findLastData` for the entity, when no partition holds a row stamped earlier than a row of a
partition before it, each partition's recorded `max_ts` bounds its rows, and its rows stamped
with it are non-NULL in the scan columns: the last aggregates are what they stand for over the
rows taken from the far end, the other columns NULL. -/
theorem findLastData_eq (ctx : AggCtx) (e : Nat) (hrev : ctx.isReversed = false)
    (hsorted : (ctx.pBts.map (edgePartitionRows ctx .first e)).Pairwise
      fun A B => ∀ x ∈ A, ∀ y ∈ B, x.1.ts x.2 ≤ y.1.ts y.2)
    (hbound : ∀ p ∈ ctx.pBts, ∀ x ∈ edgePartitionRows ctx .first e p,
      x.1.ts x.2 ≤ p.entityMaxTs e)
    (hstop : ∀ p ∈ ctx.pBts, ∀ x ∈ edgePartitionRows ctx .first e p,
      x.1.ts x.2 = p.entityMaxTs e → ∀ c ∈ ctx.scanCols, (x.1.value c.1 x.2).isSome = true) :
    findLastData ctx e = ctx.scanCols.map fun c =>
      if c.2.edge = some .last then
        edgeValue c.2 c.1 (edgeRow .last (edgeCounted c.1 c.2) (entityRows ctx e).reverse)
      else none := by
  have hmem : ∀ {ip : Nat × PartitionTable} {x : Block × Nat},
      ip ∈ Edge.partitionOrder .last ctx.pBts → x ∈ edgePartitionRows ctx .last e ip.2 →
        ip.2 ∈ ctx.pBts ∧ x ∈ edgePartitionRows ctx .first e ip.2 := fun hip hx =>
    ⟨List.snd_mem_of_mem_enum (List.mem_reverse.mp hip),
      List.mem_reverse.mp (edgePartitionRows_last ctx e _ ▸ hx)⟩
  have hinv := findEdgeData_edgeInv ctx .last e
    (by
      rw [Edge.partitionOrder, List.map_reverse,
        map_enum_snd ctx.pBts (edgePartitionRows ctx .last e), List.pairwise_reverse,
        List.pairwise_map]
      rw [List.pairwise_map] at hsorted
      exact hsorted.imp fun h x hx y hy => by
        rw [edgePartitionRows_last, List.mem_reverse] at hx hy
        simpa [Edge.beats] using h y hy x hx)
    (fun ip hip x hx => by
      simpa [Edge.beats, Edge.entityBound] using
        hbound _ (hmem hip hx).1 x (hmem hip hx).2)
    (fun ip hip x hx => hstop _ (hmem hip hx).1 x (hmem hip hx).2)
  rw [findLastData, edgeResults_of_edgeInv hinv, edgeRows_last, edgeRows_first ctx e hrev]

/-- Reversing the timestamps leaves their earliest and latest alone. -/
theorem Edge.extreme_reverse (edge : Edge) (l : List Int) :
    edge.extreme l.reverse = edge.extreme l := by
  cases h : edge.extreme l with
  | none => cases edge <;> simp_all [Edge.extreme, List.min?_eq_none_iff, List.max?_eq_none_iff]
  | some m => exact Edge.extreme_eq_some_iff.mpr (by simpa using Edge.extreme_eq_some_iff.mp h)

theorem find?_reverse_of_pairwise {α : Type} {p : α → Bool} :
    ∀ {l : List α}, l.Pairwise (fun x y => ¬(p x = true ∧ p y = true)) →
      l.reverse.find? p = l.find? p
  | [], _ => rfl
  | a :: l, h => by
    rw [List.pairwise_cons] at h
    rw [List.reverse_cons, List.find?_append, find?_reverse_of_pairwise h.2]
    by_cases ha : p a = true
    · have hl : l.find? p = none := List.find?_eq_none.mpr fun x hx hpx => h.1 x hx ⟨ha, hpx⟩
      simp [hl, ha]
    · cases hl : l.find? p <;> simp [ha, hl]

/-- When no two rows share a timestamp, the row an aggregate stands for does not depend on the
order the rows are taken in. -/
theorem edgeRow_reverse (edge : Edge) (counted : Block → Nat → Bool) {rows : List (Block × Nat)}
    (hd : rows.Pairwise fun x y => x.1.ts x.2 ≠ y.1.ts y.2) :
    edgeRow edge counted rows.reverse = edgeRow edge counted rows := by
  simp only [edgeRow, List.filter_reverse, List.map_reverse, Edge.extreme_reverse]
  congr 1
  funext m
  exact find?_reverse_of_pairwise ((hd.filter _).imp fun hne h => hne <| by
    simp only [decide_eq_true_eq] at h
    exact h.1.trans h.2.symm)

/-- `findLastData` under the conditions of `findLastData_eq`, when no two rows of the entity
share a timestamp: the last aggregates are what they stand for. -/
theorem findLastData_eq_direct (ctx : AggCtx) (e : Nat) (hrev : ctx.isReversed = false)
    (hsorted : (ctx.pBts.map (edgePartitionRows ctx .first e)).Pairwise
      fun A B => ∀ x ∈ A, ∀ y ∈ B, x.1.ts x.2 ≤ y.1.ts y.2)
    (hbound : ∀ p ∈ ctx.pBts, ∀ x ∈ edgePartitionRows ctx .first e p,
      x.1.ts x.2 ≤ p.entityMaxTs e)
    (hstop : ∀ p ∈ ctx.pBts, ∀ x ∈ edgePartitionRows ctx .first e p,
      x.1.ts x.2 = p.entityMaxTs e → ∀ c ∈ ctx.scanCols, (x.1.value c.1 x.2).isSome = true)
    (hdistinct : (entityRows ctx e).Pairwise fun x y => x.1.ts x.2 ≠ y.1.ts y.2) :
    findLastData ctx e = ctx.scanCols.map fun c =>
      if c.2.edge = some .last then directResult ctx e c.1 c.2 else none := by
  rw [findLastData_eq ctx e hrev hsorted hbound hstop]
  refine List.map_congr_left fun c _ => ?_
  split_ifs with hedge
  · simp only [directResult, hedge, edgeRow_reverse _ _ hdistinct]
  · rfl

/-- `TsAggIterator::Next` from `Init` with first and last aggregates only, by whichever of
`findFirstData`, `findLastData` and `findFirstLastData` it takes, when the partitions are in
timestamp order, each partition's recorded `min_ts` and `max_ts` bound its rows, its rows
stamped with either are non-NULL in the scan columns, and no two rows of the entity share a
timestamp: it returns the row the aggregates stand for. -/
theorem aggNext_firstLast_eq_directRowFirstLast (ctx : AggCtx) (e : Nat) (es : List Nat)
    (hids : ctx.entityIds = e :: es) (hboth : onlyHasFirstLastAggType ctx = true)
    (hrev : ctx.isReversed = false)
    (hsorted : (ctx.pBts.map (edgePartitionRows ctx .first e)).Pairwise
      fun A B => ∀ x ∈ A, ∀ y ∈ B, x.1.ts x.2 ≤ y.1.ts y.2)
    (hbound : ∀ p ∈ ctx.pBts, ∀ x ∈ edgePartitionRows ctx .first e p,
      p.entityMinTs e ≤ x.1.ts x.2 ∧ x.1.ts x.2 ≤ p.entityMaxTs e)
    (hstop : ∀ p ∈ ctx.pBts, ∀ x ∈ edgePartitionRows ctx .first e p,
      x.1.ts x.2 = p.entityMinTs e ∨ x.1.ts x.2 = p.entityMaxTs e →
        ∀ c ∈ ctx.scanCols, (x.1.value c.1 x.2).isSome = true)
    (hdistinct : (entityRows ctx e).Pairwise fun x y => x.1.ts x.2 ≠ y.1.ts y.2)
    (fuel calls : Nat) :
    aggNext ctx fuel calls (AggState.init ctx) = some (some (directRowFirstLast ctx e)) := by
  have hF := findFirstData_eq ctx e hrev hsorted (fun p hp x hx => (hbound p hp x hx).1)
    fun p hp x hx h => hstop p hp x hx (Or.inl h)
  have hL := findLastData_eq_direct ctx e hrev hsorted (fun p hp x hx => (hbound p hp x hx).2)
    (fun p hp x hx h => hstop p hp x hx (Or.inr h)) hdistinct
  have hall : ∀ c ∈ ctx.scanCols, c.2.edge.isSome := fun c hc =>
    List.all_eq_true.mp hboth c hc
  have honly : ∀ {edge : Edge}, onlyHasEdgeAggType ctx edge = true →
      (ctx.scanCols.map fun c => if c.2.edge = some edge then directResult ctx e c.1 c.2
        else none) = ctx.scanCols.map fun c => directResult ctx e c.1 c.2 := fun h =>
    List.map_congr_left fun c hc => if_pos (of_decide_eq_true (List.all_eq_true.mp h c hc))
  have hFL : findFirstLastData ctx e = ctx.scanCols.map fun c => directResult ctx e c.1 c.2 := by
    rw [findFirstLastData, hF, hL, List.zipWith_map, List.zipWith_same]
    refine List.map_congr_left fun c hc => ?_
    obtain ⟨edge, hedge⟩ := Option.isSome_iff_exists.mp (hall c hc)
    cases edge <;> simp [hedge]
  rw [aggNext_init ctx hids]
  split_ifs with hp h1 h2
  · rw [directRowFirstLast_eq_none (List.isEmpty_iff.mp hp) hall]
  · rw [hF, honly h1]
    rfl
  · rw [hL, honly h2]
    rfl
  · rw [hFL]
    rfl

/-- Under the conditions of `aggNext_firstLast_eq_directRowFirstLast`, the short-circuit is an
optimisation that keeps the result: `Next` returns what its general path, which goes through
every row, returns when allowed more passes than the cost and more calls than runs. -/
theorem aggNext_firstLast_eq_general (ctx : AggCtx) (e : Nat) (es : List Nat)
    (hids : ctx.entityIds = e :: es) (hboth : onlyHasFirstLastAggType ctx = true)
    (hcols : ctx.scanCols ≠ []) (hrev : ctx.isReversed = false)
    (hsorted : (ctx.pBts.map (edgePartitionRows ctx .first e)).Pairwise
      fun A B => ∀ x ∈ A, ∀ y ∈ B, x.1.ts x.2 ≤ y.1.ts y.2)
    (hbound : ∀ p ∈ ctx.pBts, ∀ x ∈ edgePartitionRows ctx .first e p,
      p.entityMinTs e ≤ x.1.ts x.2 ∧ x.1.ts x.2 ≤ p.entityMaxTs e)
    (hstop : ∀ p ∈ ctx.pBts, ∀ x ∈ edgePartitionRows ctx .first e p,
      x.1.ts x.2 = p.entityMinTs e ∨ x.1.ts x.2 = p.entityMaxTs e →
        ∀ c ∈ ctx.scanCols, (x.1.value c.1 x.2).isSome = true)
    (hdistinct : (entityRows ctx e).Pairwise fun x y => x.1.ts x.2 ≠ y.1.ts y.2)
    (fuel calls : Nat) (hfuel : rawIterCost ctx.toIterCtx (TsIterator.init ctx.toIterCtx) < fuel)
    (hcalls : (entityBatches ctx.toIterCtx e).length < calls) :
    aggNext ctx fuel calls (AggState.init ctx) =
      (aggNextGeneral ctx fuel calls (AggState.init ctx)).map some := by
  have hedge : ∀ c ∈ ctx.scanCols, c.2.edge.isSome := fun c hc => List.all_eq_true.mp hboth c hc
  have hno : noFirstLastType ctx = false := by
    obtain ⟨c, hc⟩ := List.exists_mem_of_ne_nil _ hcols
    simpa [noFirstLastType] using ⟨c.1, c.2, hc, Option.ne_none_iff_isSome.mpr (hedge c hc)⟩
  obtain ⟨recs, h, hinv⟩ := aggNextGeneral_edge_candidates ctx e es hids hno fuel calls hfuel hcalls
  rw [aggNext_firstLast_eq_directRowFirstLast ctx e es hids hboth hrev hsorted hbound hstop
    hdistinct, h, generalResults_of_recsInv hno
      (fun c hc hnone => absurd (hedge c hc) (by simp [hnone])) hinv]
  rfl

/-! ## A NULL at the entity's min_ts

`findFirstData` stops at the row stamped with the entity's `min_ts` once every column has a
candidate, even when that row is NULL in the column and the candidate is a later row. -/

/-- Three rows stamped 3, 1 and 2 whose column 1 holds 30, NULL and 20. -/
def unorderedBlock : Block where
  blockId := 1
  publishRowCount := 3
  isAggResAvailable := false
  isOverflow := false
  deleted _ := false
  ts r := [3, 1, 2].getD (r - 1) 0
  value col r := if col = 1 then [some 30, none, some 20].getD (r - 1) none else none
  minTs := 1
  maxTs := 3
  aggCount _ := 0
  aggMin _ := none
  aggMax _ := none
  aggSum _ := 0
  tsBounds r h1 h2 := by
    rcases (by omega : r = 1 ∨ r = 2 ∨ r = 3) with rfl | rfl | rfl <;> decide

/-- Entity 1's one block item; the entity's recorded `min_ts` is 1, `max_ts` 3. -/
def unorderedPartition : PartitionTable where
  getAllBlockItems e _ := if e = 1 then [some unorderedBlock] else []
  entityMinTs _ := 1
  entityMaxTs _ := 3
  noBlocksOfEntityZero _ := rfl

/-- `FIRST` and `FIRSTTS` of column 1 over the span `[0, 10]`. -/
def firstCtx : AggCtx where
  entityIds := [1]
  pBts := [unorderedPartition]
  isReversed := false
  tsSpans := [⟨0, 10⟩]
  scanCols := [(1, .first), (1, .firstts)]
  actualColMatches _ _ := true

theorem findFirstData_stops_before_earlier_value :
    aggNext firstCtx 10 5 (AggState.init firstCtx) = some (some (some [some 30, some 3])) ∧
      aggNextGeneral firstCtx 10 5 (AggState.init firstCtx) = some (some [some 20, some 2]) := by
  decide

end KwdbTs.Engine
