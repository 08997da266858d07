import KwdbTs.Engine.RawIterator
import KwdbTs.Engine.AggIterator

/-!
# The general path of TsAggIterator::Next

What `Next` should return for an entity when no first/last aggregate is asked for: MIN, MAX, SUM
and COUNT of each scan column over the entity's live rows inside the spans (`directRow`). The
general path gets there in two steps. Each pass of `traverseAllBlocks` is a pass of the raw
iterator's `Next` over the same block item (`traversePass_block`), so the calls of
`traverseAllBlocks` take, once each, the runs the raw iterator returns for the entity
(`collectRuns_spec`). The partial aggregate of a run is the aggregate of its values
(`runPartial_eq_calcAggregate`), and the partials combine to the aggregate of all values
(`combinePartials_filterMap`).

The first step needs the fast path of `traverseAllBlocks` to take only rows inside the spans. Its
test looks for a span holding the stored MAX timestamp and one holding the stored MIN, where the
raw iterator asks for one span holding both; the two agree when the spans never split a range
(`SpansJoin`), one span for instance. Over two spans with a gap between them the fast path takes
a whole block, and its rows in the gap are aggregated with the others.
-/

namespace KwdbTs.Engine

/-! ## What Next stands for -/

section Direct

variable (ctx : AggCtx) (entityId : Nat)

/-- The entity's live rows inside the spans: block item by block item, partition by
partition. -/
def entityRows : List (Block × Nat) :=
  (partitionsBlocks ctx.toIterCtx entityId ctx.pBts).flatMap fun b =>
    ((List.range' 1 b.publishRowCount).filter (rowQualifies ctx.tsSpans b)).map (b, ·)

/-- The non-NULL values of a column on those rows. -/
def directValues (col : Nat) : List Int :=
  (entityRows ctx entityId).filterMap fun p => p.1.value col p.2

/-- MIN, MAX, SUM or COUNT of a column computed directly over its values. -/
def directAggregate (col : Nat) (agg : Sumfunctype) : Option Int :=
  calcAggregate agg (directValues ctx entityId col)

/-- The row `Next` should return for the entity: none when no scan column has a value. -/
def directRow : Option (List (Option Int)) :=
  if ctx.scanCols.all fun c => (directValues ctx entityId c.1).isEmpty then none
  else some (ctx.scanCols.map fun c => directAggregate ctx entityId c.1 c.2)

end Direct

/-- The pre-aggregate invariant of a block: when its stored aggregates are available, no
published row is deleted and they are the aggregates of the published rows. -/
def PreAggValid (b : Block) : Prop :=
  b.isAggResAvailable = true →
    (∀ r ∈ List.range' 1 b.publishRowCount, b.deleted r = false) ∧
    ∀ col, b.aggCount col = ((List.range' 1 b.publishRowCount).filterMap (b.value col)).length ∧
      b.aggMin col = ((List.range' 1 b.publishRowCount).filterMap (b.value col)).min? ∧
      b.aggMax col = ((List.range' 1 b.publishRowCount).filterMap (b.value col)).max? ∧
      b.aggSum col = ((List.range' 1 b.publishRowCount).filterMap (b.value col)).sum

/-- The spans never split a range: two timestamps that each lie in some span lie, with all
between them, in one span. -/
def SpansJoin (tsSpans : List KwTsSpan) : Prop :=
  ∀ lo hi, lo ≤ hi → checkIfTsInSpan tsSpans lo = true → checkIfTsInSpan tsSpans hi = true →
    isTimestampWithinSpans tsSpans lo hi = true

theorem spansJoin_of_length_le_one {tsSpans : List KwTsSpan} (h : tsSpans.length ≤ 1) :
    SpansJoin tsSpans := by
  intro lo hi hle hlo hhi
  match tsSpans, h with
  | [], _ => simp [checkIfTsInSpan] at hlo
  | [s], _ =>
    simp only [checkIfTsInSpan, isTimestampWithinSpans, List.any_cons, List.any_nil,
      Bool.or_false, Bool.and_eq_true, decide_eq_true_eq] at hlo hhi ⊢
    omega

/-! ## Partials combine to the aggregate of all values -/

instance intMaxAssociative : Std.Associative (α := Int) max := ⟨max_assoc⟩

instance intMinAssociative : Std.Associative (α := Int) min := ⟨min_assoc⟩

theorem max?_append (l₁ l₂ : List Int) :
    (l₁ ++ l₂).max? = Option.merge max l₁.max? l₂.max? := by
  induction l₁ with
  | nil => rw [List.nil_append]; cases l₂.max? <;> rfl
  | cons x xs ih =>
    rw [List.cons_append, List.max?_cons, List.max?_cons, ih]
    cases xs.max? <;> cases l₂.max? <;> first | rfl | exact congrArg some (max_assoc _ _ _).symm

theorem min?_append (l₁ l₂ : List Int) :
    (l₁ ++ l₂).min? = Option.merge min l₁.min? l₂.min? := by
  induction l₁ with
  | nil => rw [List.nil_append]; cases l₂.min? <;> rfl
  | cons x xs ih =>
    rw [List.cons_append, List.min?_cons, List.min?_cons, ih]
    cases xs.min? <;> cases l₂.min? <;> first | rfl | exact congrArg some (min_assoc _ _ _).symm

/-- The maximum of the runs' maxima is the maximum of all values. -/
theorem max?_filterMap_max? (vss : List (List Int)) :
    (vss.filterMap List.max?).max? = vss.flatten.max? := by
  induction vss with
  | nil => rfl
  | cons vs vss ih =>
    rw [List.flatten_cons, max?_append, ← ih, List.filterMap_cons]
    cases vs.max? with
    | none => cases (vss.filterMap List.max?).max? <;> rfl
    | some m => rw [List.max?_cons]; cases (vss.filterMap List.max?).max? <;> rfl

theorem min?_filterMap_min? (vss : List (List Int)) :
    (vss.filterMap List.min?).min? = vss.flatten.min? := by
  induction vss with
  | nil => rfl
  | cons vs vss ih =>
    rw [List.flatten_cons, min?_append, ← ih, List.filterMap_cons]
    cases vs.min? with
    | none => cases (vss.filterMap List.min?).min? <;> rfl
    | some m => rw [List.min?_cons]; cases (vss.filterMap List.min?).min? <;> rfl

/-- Runs with no value push nothing; the others push their sum (or count), and these add up. -/
theorem sum_filterMap_nonempty_runs {f : List Int → Int} (h0 : f [] = 0) (vss : List (List Int)) :
    (vss.filterMap fun vs => if vs = [] then none else some (f vs)).sum = (vss.map f).sum := by
  induction vss with
  | nil => rfl
  | cons vs vss ih => by_cases h : vs = [] <;> simp [h, h0, ih]

/-- A run's partial is missing exactly when the run has no value. -/
theorem filterMap_partial_eq_nil {β : Type} (f : List Int → β) (vss : List (List Int)) :
    (vss.filterMap fun vs => if vs = [] then none else some (f vs)) = [] ↔ vss.flatten = [] := by
  simp [List.filterMap_eq_nil_iff, List.flatten_eq_nil_iff]

/-- `Next`'s combination of the partials of the runs, one run's partial being `none` when it has
no value, is the aggregate of all values. -/
theorem combinePartials_filterMap (agg : Sumfunctype) (vss : List (List Int)) :
    combinePartials agg (vss.filterMap fun vs => if vs = [] then none else calcAggregate agg vs) =
      calcAggregate agg vss.flatten := by
  cases agg with
  | max =>
    have h : (fun vs : List Int => if vs = [] then none else calcAggregate .max vs) = List.max? :=
      funext fun vs => by by_cases h : vs = [] <;> simp [h, calcAggregate]
    rw [h]
    exact max?_filterMap_max? vss
  | min =>
    have h : (fun vs : List Int => if vs = [] then none else calcAggregate .min vs) = List.min? :=
      funext fun vs => by by_cases h : vs = [] <;> simp [h, calcAggregate]
    rw [h]
    exact min?_filterMap_min? vss
  | sum =>
    have h : (fun vs : List Int => if vs = [] then none else calcAggregate .sum vs) =
        fun vs => if vs = [] then none else some vs.sum :=
      funext fun vs => by by_cases h : vs = [] <;> simp [h, calcAggregate]
    rw [h]
    simp only [combinePartials, calcAggregate, filterMap_partial_eq_nil,
      sum_filterMap_nonempty_runs List.sum_nil, List.sum_flatten]
  | count =>
    have h : (fun vs : List Int => if vs = [] then none else calcAggregate .count vs) =
        fun vs => if vs = [] then none else some (vs.length : Int) :=
      funext fun vs => by by_cases h : vs = [] <;> simp [h, calcAggregate]
    rw [h]
    simp only [combinePartials, calcAggregate,
      @sum_filterMap_nonempty_runs (fun vs => vs.length) rfl, List.length_flatten, Option.some.injEq]
    induction vss <;> simp_all
  | _ => rfl

/-- An aggregate other than first/last of a non-empty run has a value. -/
theorem calcAggregate_isSome {agg : Sumfunctype} (hagg : agg.edge = none) {vals : List Int}
    (h : vals ≠ []) : (calcAggregate agg vals).isSome := by
  cases agg <;> simp_all [Sumfunctype.edge, calcAggregate, Option.isSome_iff_ne_none]

/-- Under the pre-aggregate invariant the stored aggregates stand for a whole block: the partial
of any run of the block's rows is the aggregate of the run's values. -/
theorem runPartial_eq_calcAggregate (ctx : AggCtx) {b : Block} (hvalid : PreAggValid b)
    {rows : List Nat} (hrows : rows.Sublist (List.range' 1 b.publishRowCount)) (col : Nat)
    (agg : Sumfunctype) :
    runPartial ctx b rows col agg =
      if rows.filterMap (b.value col) = [] then none
      else calcAggregate agg (rows.filterMap (b.value col)) := by
  simp only [runPartial]
  by_cases hnil : rows.filterMap (b.value col) = []
  · simp [hnil]
  rw [if_neg hnil, if_neg hnil]
  by_cases hraw : (decide (rows.length < b.publishRowCount) || !b.isAggResAvailable ||
      !ctx.actualColMatches b col) = true
  · rw [if_pos hraw]
  rw [if_neg hraw]
  simp only [Bool.or_eq_true, decide_eq_true_eq, Bool.not_eq_true', not_or,
    Bool.not_eq_false] at hraw
  obtain ⟨⟨hlen, havail⟩, -⟩ := hraw
  have hall : rows = List.range' 1 b.publishRowCount :=
    hrows.eq_of_length (by
      have := hrows.length_le
      simp only [List.length_range'] at this ⊢
      omega)
  obtain ⟨hc, hmin, hmax, hsum⟩ := (hvalid havail).2 col
  subst hall
  cases agg <;> simp only [calcAggregate, hc, hmin, hmax, hsum, hnil, if_false]
  -- SUM is recomputed when the block overflowed, and is the stored sum otherwise
  split <;> rfl

/-! ## traverseAllBlocks takes the raw iterator's runs -/

/-- The partials `traverseAllBlocks` pushes for a run: one per scan column. -/
def runPartials (ctx : AggCtx) (bt : RawBatch) : List (Option Int) :=
  ctx.scanCols.map fun c => runPartial ctx bt.block bt.rows c.1 c.2

/-- The state a pass of the raw iterator leaves. -/
def RawPass.state : RawPass → IterState
  | .finished st | .next st | .batch _ st => st

/-- A pass of the raw iterator as a pass of `traverseAllBlocks`: the candidates `recs` are kept,
or updated row by row over the run returned unless the fast path took it. -/
def RawPass.toTraverse (ctx : AggCtx) (fast : Bool) (idx : Int) (recs : PickRecords) :
    RawPass → TraversePass
  | .finished st => .done ⟨st, recs⟩
  | .next st => .next ⟨st, recs⟩
  | .batch bt st =>
    .run (runPartials ctx bt) ⟨st, if fast then recs else updateRunCols idx bt.block bt.rows recs⟩

/-- The fast path of `traverseAllBlocks` takes only rows the row loop would: it is off when a
first/last aggregate is asked for, and exact when the spans never split a range. -/
def FastPathExact (ctx : AggCtx) : Prop :=
  noFirstLastType ctx = false ∨ SpansJoin ctx.tsSpans

/-- Everything still to come for the current entity: the rest of the current block item, then
the block items `nextBlockItem` will still hand out. -/
def entityRemaining (ctx : IterCtx) (st : IterState) : List RawBatch :=
  currentBatches ctx st ++
    (pendingBlocks ctx st.curEntityId st).flatMap (blockBatches ctx st.curEntityId)

/-- What a pass of `traverseAllBlocks` may do: end the entity with nothing left for it, or move
on (pushing one run's partials or not) to a state that keeps the invariant, has the same runs
to come once the pushed one is taken off, and costs less. -/
def TraverseSpec (ctx : AggCtx) (st : AggState) : TraversePass → Prop
  | .done st' => entityRemaining ctx.toIterCtx st.toIterState = [] ∧ st'.recs = st.recs
  | .next st' => RawIterInv st'.toIterState ∧
      entityRemaining ctx.toIterCtx st'.toIterState =
        entityRemaining ctx.toIterCtx st.toIterState ∧ st'.recs = st.recs ∧
      rawIterCost ctx.toIterCtx st'.toIterState < rawIterCost ctx.toIterCtx st.toIterState
  | .run ps st' => RawIterInv st'.toIterState ∧
      (∃ bt, entityRemaining ctx.toIterCtx st.toIterState =
        bt :: entityRemaining ctx.toIterCtx st'.toIterState ∧ ps = runPartials ctx bt ∧
        (noFirstLastType ctx = false →
          ∃ idx, st'.recs = updateRunCols idx bt.block bt.rows st.recs)) ∧
      rawIterCost ctx.toIterCtx st'.toIterState < rawIterCost ctx.toIterCtx st.toIterState

section Traverse

variable {ctx : AggCtx}

theorem remainingBatches_eq_entityRemaining (ctx : IterCtx) (st : IterState) :
    remainingBatches ctx st = entityRemaining ctx st ++ laterBatches ctx st := by
  simp [remainingBatches, entityRemaining]

/-- When the fast path is exact, it takes what the row loop would. -/
theorem aggFastPath_takes_segment (hexact : FastPathExact ctx) (b : Block) (o : Nat) :
    (if aggFastPath ctx b o then (List.range' 1 b.publishRowCount, b.publishRowCount + 1)
      else segmentIterNext ctx.tsSpans b o) = segmentIterNext ctx.tsSpans b o := by
  split_ifs with hfast
  · simp only [aggFastPath, Bool.and_eq_true, decide_eq_true_eq] at hfast
    obtain ⟨⟨⟨⟨⟨⟨hno, havail⟩, hpos⟩, rfl⟩, hmax⟩, hmin⟩, hdel⟩ := hfast
    have hspans := hexact.resolve_left (by rw [hno]; decide)
    have hle := b.tsBounds 1 le_rfl hpos
    rw [← rawBlockRows_eq, rawBlockRows,
      if_pos ⟨havail, hpos, rfl, hspans _ _ (by omega) hmin hmax, hdel⟩]
  · rfl

/-- A pass of `traverseAllBlocks` over a block item is the raw iterator's pass over it: the same
rows and the same state after, the entity unchanged, and the candidates updated over the rows
taken unless the fast path took them. -/
theorem traversePass_block (hexact : FastPathExact ctx) {st : AggState} {b : Block}
    (hcur : st.curBlockItem = some b) :
    traversePass ctx st = (rawNextPass ctx.toIterCtx st.toIterState).toTraverse ctx
        (aggFastPath ctx b st.curBlockdataOffset) st.curPBtsIdx st.recs ∧
      (rawNextPass ctx.toIterCtx st.toIterState).state.curEntityIdx = st.curEntityIdx := by
  have htaken := aggFastPath_takes_segment hexact b st.curBlockdataOffset
  unfold segmentIterNext at htaken
  simp only [traversePass, rawNextPass, hcur, rawBlockRows_eq, segmentIterNext, htaken]
  rcases scanRun (rowQualifies ctx.tsSpans b) (b.publishRowCount + 1) false
    (List.range' st.curBlockdataOffset (b.publishRowCount + 1 - st.curBlockdataOffset))
    with ⟨rows, o'⟩
  constructor
  · cases rows <;> simp [RawPass.toTraverse, runPartials, updateRunCols]
  · split_ifs <;> rfl

/-- Every pass of `traverseAllBlocks` keeps the invariant and what is to come for the entity, and
costs less; the candidates change only over a run the row loop took. -/
theorem traversePass_spec (hexact : FastPathExact ctx) {st : AggState}
    (hinv : RawIterInv st.toIterState) : TraverseSpec ctx st (traversePass ctx st) := by
  cases hcur : st.curBlockItem with
  | none =>
    have hoff := hinv.offsetOfNone hcur
    obtain ⟨hinv1, hrem1, hcost1⟩ :=
      @remaining_nextBlockItem ctx.toIterCtx st.toIterState hinv.idx hoff
    have hent : entityRemaining ctx.toIterCtx st.toIterState =
        (pendingBlocks ctx.toIterCtx st.curEntityId st.toIterState).flatMap
          (blockBatches ctx.toIterCtx st.curEntityId) := by
      simp [entityRemaining, currentBatches, hcur]
    have hcost : rawIterCost ctx.toIterCtx st.toIterState =
        pendingCost ctx.toIterCtx st.curEntityId st.toIterState +
          laterCost ctx.toIterCtx st.toIterState := by
      simp [rawIterCost, hcur]
    simp only [traversePass, hcur]
    cases hnext : (nextBlockItem ctx.toIterCtx st.curEntityId st.toIterState).curBlockItem with
    | some b =>
      simp only [hnext, Option.isSome_some, if_true] at hcost1
      rw [remainingBatches_eq_entityRemaining, ← hent] at hrem1
      exact ⟨hinv1, List.append_cancel_right hrem1, rfl, by simp only; omega⟩
    | none =>
      obtain ⟨-, hspec⟩ := @nextBlockItem_spec ctx.toIterCtx st.curEntityId st.toIterState hinv.idx
      simp only [hnext] at hspec
      refine ⟨?_, rfl⟩
      show entityRemaining _ _ = []
      rw [hent, hspec.1]
      rfl
  | some b =>
    obtain ⟨heq, hidx⟩ := traversePass_block hexact hcur
    have hpass := @rawNextPass_spec_block ctx.toIterCtx st.toIterState hinv b hcur
    have hlater : ∀ it : IterState, it.curEntityIdx = st.curEntityIdx →
        laterBatches ctx.toIterCtx it = laterBatches ctx.toIterCtx st.toIterState := by
      intro it h
      simp only [laterBatches, h]
    rw [heq]
    cases hp : rawNextPass ctx.toIterCtx st.toIterState with
    | finished it =>
      rw [hp] at hpass
      change remainingBatches _ _ = [] at hpass
      rw [remainingBatches_eq_entityRemaining] at hpass
      exact ⟨(List.append_eq_nil.mp hpass).1, rfl⟩
    | next it =>
      rw [hp] at hpass hidx
      obtain ⟨hinv', hrem, hcost⟩ := hpass
      rw [remainingBatches_eq_entityRemaining, remainingBatches_eq_entityRemaining,
        hlater it hidx] at hrem
      exact ⟨hinv', List.append_cancel_right hrem, rfl, hcost⟩
    | batch bt it =>
      rw [hp] at hpass hidx
      obtain ⟨hinv', hrem, hcost⟩ := hpass
      rw [remainingBatches_eq_entityRemaining, remainingBatches_eq_entityRemaining,
        hlater it hidx, ← List.cons_append] at hrem
      refine ⟨hinv', ⟨bt, List.append_cancel_right hrem, rfl, fun hno => ⟨st.curPBtsIdx, ?_⟩⟩,
        hcost⟩
      simp [RawPass.toTraverse, aggFastPath, hno]

/-- A call of `traverseAllBlocks` allowed more passes than the cost: it ends the entity with
nothing left for it, or pushes the partials of the first run to come and leaves a state that
keeps the invariant, has the rest to come, and costs less. -/
theorem traverseAllBlocks_spec (hexact : FastPathExact ctx) {st : AggState}
    (hinv : RawIterInv st.toIterState) {fuel : Nat}
    (hfuel : rawIterCost ctx.toIterCtx st.toIterState < fuel) :
    ∃ r, traverseAllBlocks ctx fuel st = some r ∧
      match r with
      | (none, st') => entityRemaining ctx.toIterCtx st.toIterState = [] ∧ st'.recs = st.recs
      | (some ps, st') => RawIterInv st'.toIterState ∧
          (∃ bt, entityRemaining ctx.toIterCtx st.toIterState =
            bt :: entityRemaining ctx.toIterCtx st'.toIterState ∧ ps = runPartials ctx bt ∧
            (noFirstLastType ctx = false →
              ∃ idx, st'.recs = updateRunCols idx bt.block bt.rows st.recs)) ∧
          rawIterCost ctx.toIterCtx st'.toIterState < rawIterCost ctx.toIterCtx st.toIterState := by
  induction fuel generalizing st with
  | zero => omega
  | succ fuel ih =>
    have hpass := traversePass_spec hexact hinv
    rw [traverseAllBlocks]
    cases hp : traversePass ctx st with
    | done st' => rw [hp] at hpass; exact ⟨_, rfl, hpass⟩
    | run ps st' => rw [hp] at hpass; exact ⟨_, rfl, hpass⟩
    | next st' =>
      rw [hp] at hpass
      obtain ⟨hinv', hrem, hrecs, hcost⟩ := hpass
      obtain ⟨r, hr, hspec⟩ := ih hinv' (by omega)
      refine ⟨r, hr, ?_⟩
      rcases r with ⟨_ | ps, st''⟩
      · rw [← hrem, ← hrecs]; exact hspec
      · obtain ⟨h1, ⟨bt, h2, h3, h4⟩, h5⟩ := hspec
        exact ⟨h1, ⟨bt, hrem ▸ h2, h3, hrecs ▸ h4⟩, by omega⟩

/-- The calls of `traverseAllBlocks` in `Next`, each allowed more passes than the cost, and more
calls than runs to come: they push the partials of exactly the runs to come, in order. When a
first/last aggregate is asked for, the candidates are updated over the rows of every run: an
invariant that such updates keep holds of the candidates after, for the rows seen before and the
rows of the runs. -/
theorem collectRuns_spec (hexact : FastPathExact ctx) {st : AggState}
    (hinv : RawIterInv st.toIterState) {fuel : Nat}
    (hfuel : rawIterCost ctx.toIterCtx st.toIterState < fuel) {calls : Nat}
    (hcalls : (entityRemaining ctx.toIterCtx st.toIterState).length < calls) :
    ∃ st', collectRuns ctx fuel calls st =
      some ((entityRemaining ctx.toIterCtx st.toIterState).map (runPartials ctx), st') ∧
      ∀ I : List (Block × Nat) → PickRecords → Prop, noFirstLastType ctx = false →
        (∀ rows recs idx b rs, I rows recs → I (rows ++ rs.map (b, ·)) (updateRunCols idx b rs recs)) →
        ∀ rows, I rows st.recs →
          I (rows ++ (entityRemaining ctx.toIterCtx st.toIterState).flatMap fun bt =>
            bt.rows.map (bt.block, ·)) st'.recs := by
  induction calls generalizing st with
  | zero => omega
  | succ calls ih =>
    obtain ⟨r, hr, hspec⟩ := traverseAllBlocks_spec hexact hinv hfuel
    rw [collectRuns, hr]
    rcases r with ⟨_ | ps, st'⟩
    · obtain ⟨hrem, hrecs⟩ := hspec
      refine ⟨st', by rw [hrem]; rfl, fun I _ _ rows h => ?_⟩
      rwa [hrem, List.flatMap_nil, List.append_nil, hrecs]
    · obtain ⟨h1, ⟨bt, h2, rfl, h4⟩, h3⟩ := hspec
      rw [h2] at hcalls ⊢
      obtain ⟨st'', h, hI⟩ := ih h1 (by omega) (by simp only [List.length_cons] at hcalls; omega)
      refine ⟨st'', by dsimp only; rw [h]; rfl, fun I hno hstep rows hrows => ?_⟩
      obtain ⟨idx, hst'⟩ := h4 hno
      have := hI I hno hstep _ (hst' ▸ hstep rows st.recs idx bt.block bt.rows hrows)
      rwa [List.flatMap_cons, ← List.append_assoc]

end Traverse

/-! ## From Init to the row -/

/-- After `Init`, the runs to come for the first entity are its runs. -/
theorem entityRemaining_init {ctx : IterCtx} {e : Nat} {es : List Nat}
    (hids : ctx.entityIds = e :: es) :
    entityRemaining ctx (TsIterator.init ctx) = entityBatches ctx e := by
  have h := remainingBatches_init ctx
  rw [remainingBatches_eq_entityRemaining, expectedBatches, hids, List.flatMap_cons] at h
  have hlater : laterBatches ctx (TsIterator.init ctx) = es.flatMap (entityBatches ctx) := by
    simp [laterBatches, (TsIterator.init_fields ctx).1, hids]
  rw [hlater] at h
  exact List.append_cancel_right h

/-- Every run of an entity is a sublist of the rows of one of its block items. -/
theorem sublist_of_mem_runsOf {q : Nat → Bool} {cur l run : List Nat}
    (h : run ∈ runsOf q cur l) : run.Sublist (cur.reverse ++ l) := by
  induction l generalizing cur with
  | nil =>
    by_cases hc : cur = [] <;> simp_all [runsOf]
  | cons r l ih =>
    simp only [runsOf] at h
    split_ifs at h with hq hc
    · simpa using ih h
    · subst hc; exact (ih h).cons r
    · rcases List.mem_cons.mp h with rfl | h
      · exact List.sublist_append_left _ _
      · exact ((ih h).cons r).trans (List.sublist_append_right _ _)

theorem mem_entityBatches {ctx : IterCtx} {e : Nat} {bt : RawBatch}
    (h : bt ∈ entityBatches ctx e) :
    bt.block ∈ partitionsBlocks ctx e ctx.pBts ∧
      bt.rows.Sublist (List.range' 1 bt.block.publishRowCount) := by
  simp only [entityBatches, blockBatches, List.mem_flatMap, List.mem_map] at h
  obtain ⟨b, hb, run, hrun, rfl⟩ := h
  exact ⟨hb, by simpa using sublist_of_mem_runsOf hrun⟩

/-- The runs' rows, spread out, are the entity's live rows inside the spans. -/
theorem flatMap_batchRows (ctx : AggCtx) (e : Nat) :
    (entityBatches ctx.toIterCtx e).flatMap (fun bt => bt.rows.map (bt.block, ·)) =
      entityRows ctx e := by
  have hblock : ∀ b : Block,
      (blockBatches ctx.toIterCtx e b).flatMap (fun bt => bt.rows.map (bt.block, ·)) =
        ((List.range' 1 b.publishRowCount).filter (rowQualifies ctx.tsSpans b)).map (b, ·) := by
    intro b
    have h := congrArg (List.map Prod.snd) (flatMap_entries_blockBatches ctx.toIterCtx e b)
    simpa [List.map_flatMap, RawBatch.entries] using h
  simp only [entityBatches, List.flatMap_assoc, hblock]
  rfl

/-- The runs' values, spread out, are the column's values on the entity's qualifying rows. -/
theorem flatten_batchValues (ctx : AggCtx) (e col : Nat) :
    ((entityBatches ctx.toIterCtx e).map fun bt =>
        bt.rows.filterMap (bt.block.value col)).flatten = directValues ctx e col := by
  rw [directValues, ← flatMap_batchRows, List.filterMap_flatMap, List.flatMap_def]
  simp only [List.filterMap_map]
  rfl

theorem map_enum_eq_map {α β : Type} (l : List α) (f : Nat × α → β) (g : α → β)
    (h : ∀ x ∈ l.enum, f x = g x.2) : l.enum.map f = l.map g := by
  conv_rhs => rw [← List.enum_map_snd l, List.map_map]
  exact List.map_congr_left h

section Row

variable {ctx : AggCtx} {e : Nat}

theorem edge_eq_none_of_noFirstLastType (hno : noFirstLastType ctx = true) :
    ∀ c ∈ ctx.scanCols, c.2.edge = none := fun c hc =>
  Option.isNone_iff_eq_none.mp (List.all_eq_true.mp hno c hc)

/-- A column's partials over the entity's runs combine to its direct aggregate. -/
theorem combinePartials_entityBatches
    (hvalid : ∀ b ∈ partitionsBlocks ctx.toIterCtx e ctx.pBts, PreAggValid b)
    (col : Nat) (agg : Sumfunctype) :
    combinePartials agg ((entityBatches ctx.toIterCtx e).filterMap fun bt =>
        runPartial ctx bt.block bt.rows col agg) = directAggregate ctx e col agg := by
  have h : ∀ bt ∈ entityBatches ctx.toIterCtx e, runPartial ctx bt.block bt.rows col agg =
      (fun vs => if vs = [] then none else calcAggregate agg vs)
        (bt.rows.filterMap (bt.block.value col)) := fun bt hbt =>
    have ⟨hb, hsub⟩ := mem_entityBatches hbt
    runPartial_eq_calcAggregate ctx (hvalid _ hb) hsub col agg
  refine (congrArg (combinePartials agg) ((List.filterMap_congr h).trans
    (List.filterMap_map (fun bt : RawBatch => bt.rows.filterMap (bt.block.value col))
      (fun vs => if vs = [] then none else calcAggregate agg vs) _).symm)).trans ?_
  rw [combinePartials_filterMap, flatten_batchValues]
  rfl

/-- The partials of the scan column at index `i`, over the entity's runs, combine to its direct
aggregate. -/
theorem combinePartials_column
    (hvalid : ∀ b ∈ partitionsBlocks ctx.toIterCtx e ctx.pBts, PreAggValid b) {i col : Nat}
    {agg : Sumfunctype} (hi : i < ctx.scanCols.length) (hc : ctx.scanCols[i] = (col, agg)) :
    combinePartials agg (((entityBatches ctx.toIterCtx e).map (runPartials ctx)).filterMap
      fun ps => ps.getD i none) = directAggregate ctx e col agg := by
  have hget : ((fun ps => ps.getD i none) ∘ runPartials ctx) =
      fun bt => runPartial ctx bt.block bt.rows col agg := funext fun bt => by
    simp [runPartials, List.getD_eq_getElem?_getD, List.getElem?_eq_getElem hi, hc]
  rw [List.filterMap_map, hget]
  exact combinePartials_entityBatches hvalid col agg

/-- With no first/last aggregate asked for, the entity's runs have no partial exactly when no
scan column has a value. -/
theorem partials_allNone_iff (hedge : ∀ c ∈ ctx.scanCols, c.2.edge = none)
    (hvalid : ∀ b ∈ partitionsBlocks ctx.toIterCtx e ctx.pBts, PreAggValid b) :
    ((entityBatches ctx.toIterCtx e).map (runPartials ctx)).all (fun ps => ps.all Option.isNone) =
      ctx.scanCols.all fun c => (directValues ctx e c.1).isEmpty := by
  have hnone : ∀ bt ∈ entityBatches ctx.toIterCtx e, ∀ c ∈ ctx.scanCols,
      (runPartial ctx bt.block bt.rows c.1 c.2).isNone = (bt.rows.filterMap (bt.block.value c.1)).isEmpty := by
    intro bt hbt c hc
    obtain ⟨hb, hsub⟩ := mem_entityBatches hbt
    rw [runPartial_eq_calcAggregate ctx (hvalid _ hb) hsub]
    by_cases hv : bt.rows.filterMap (bt.block.value c.1) = []
    · rw [if_pos hv, hv]; rfl
    · have := calcAggregate_isSome (hedge c hc) hv
      rw [if_neg hv]
      cases h : calcAggregate c.2 (bt.rows.filterMap (bt.block.value c.1)) with
      | none => simp [h] at this
      | some _ => simp [List.isEmpty_iff, hv]
  rw [Bool.eq_iff_iff, List.all_eq_true, List.all_eq_true]
  constructor
  · intro h c hc
    rw [List.isEmpty_iff, ← flatten_batchValues, List.flatten_eq_nil_iff]
    intro vs hvs
    obtain ⟨bt, hbt, rfl⟩ := List.mem_map.mp hvs
    have := List.all_eq_true.mp (h _ (List.mem_map_of_mem _ hbt)) _ (List.mem_map_of_mem _ hc)
    rwa [hnone bt hbt c hc, List.isEmpty_iff] at this
  · intro h ps hps
    obtain ⟨bt, hbt, rfl⟩ := List.mem_map.mp hps
    refine List.all_eq_true.mpr fun p hp => ?_
    obtain ⟨c, hc, rfl⟩ := List.mem_map.mp hp
    rw [hnone bt hbt c hc, List.isEmpty_iff]
    have := h c hc
    rw [List.isEmpty_iff, ← flatten_batchValues, List.flatten_eq_nil_iff] at this
    exact this _ (List.mem_map_of_mem _ hbt)

/-- With no first/last aggregate asked for, `Next`'s combination of the entity's runs is the
direct row. -/
theorem generalResults_entityBatches (hno : noFirstLastType ctx = true)
    (hvalid : ∀ b ∈ partitionsBlocks ctx.toIterCtx e ctx.pBts, PreAggValid b)
    (recs : PickRecords) :
    generalResults ctx ((entityBatches ctx.toIterCtx e).map (runPartials ctx)) recs =
      directRow ctx e := by
  have hedge := edge_eq_none_of_noFirstLastType hno
  unfold generalResults directRow
  rw [partials_allNone_iff hedge hvalid, hno, Bool.and_true]
  split_ifs with h1
  · rfl
  rw [map_enum_eq_map ctx.scanCols _ (fun c => directAggregate ctx e c.1 c.2), if_neg]
  · simp only [Bool.not_eq_true, List.all_eq_false, List.isEmpty_iff] at h1 ⊢
    obtain ⟨c, hc, hv⟩ := h1
    have := calcAggregate_isSome (hedge c hc) (by simpa using hv)
    exact ⟨_, List.mem_map_of_mem _ hc, by simpa [directAggregate] using this⟩
  · rintro ⟨i, col, agg⟩ hmem
    obtain ⟨hi, hc⟩ := List.mem_enum hmem
    simp only [hedge _ (hc ▸ List.getElem_mem hi)]
    exact combinePartials_column hvalid hi hc.symm

end Row

/-- From `Init`, the calls of `traverseAllBlocks` return the first entity's runs, and leave
candidates that keep every invariant the updates of a run keep. -/
theorem collectRuns_init {ctx : AggCtx} (hexact : FastPathExact ctx) {e : Nat} {es : List Nat}
    (hids : ctx.entityIds = e :: es) {fuel calls : Nat}
    (hfuel : rawIterCost ctx.toIterCtx (TsIterator.init ctx.toIterCtx) < fuel)
    (hcalls : (entityBatches ctx.toIterCtx e).length < calls) :
    ∃ st', collectRuns ctx fuel calls (AggState.init ctx) =
        some ((entityBatches ctx.toIterCtx e).map (runPartials ctx), st') ∧
      ∀ I : List (Block × Nat) → PickRecords → Prop, noFirstLastType ctx = false →
        (∀ rows recs idx b rs, I rows recs → I (rows ++ rs.map (b, ·)) (updateRunCols idx b rs recs)) →
        I [] (PickRecords.empty ctx) → I (entityRows ctx e) st'.recs := by
  have hrem : entityRemaining ctx.toIterCtx (AggState.init ctx).toIterState =
      entityBatches ctx.toIterCtx e := @entityRemaining_init ctx.toIterCtx e es hids
  obtain ⟨st', h, hI⟩ := @collectRuns_spec ctx hexact (AggState.init ctx)
    (rawIterInv_init ctx.toIterCtx) fuel hfuel calls (by rw [hrem]; exact hcalls)
  refine ⟨st', by rw [h, hrem], fun I hno hstep h0 => ?_⟩
  have := hI I hno hstep [] h0
  rwa [hrem, List.nil_append, flatMap_batchRows] at this

/-- `Next` from `Init`: the first entity's row, by the path its scan columns select. -/
theorem aggNext_init (ctx : AggCtx) {e : Nat} {es : List Nat} (hids : ctx.entityIds = e :: es)
    (fuel calls : Nat) :
    aggNext ctx fuel calls (AggState.init ctx) =
      if ctx.pBts.isEmpty then some (some none)
      else if onlyHasEdgeAggType ctx .first then
        some (some (aggNext.allNullToNone (findFirstData ctx e)))
      else if onlyHasEdgeAggType ctx .last then
        some (some (aggNext.allNullToNone (findLastData ctx e)))
      else if onlyHasFirstLastAggType ctx then
        some (some (aggNext.allNullToNone (findFirstLastData ctx e)))
      else some (aggNextGeneral ctx fuel calls (AggState.init ctx)) := by
  obtain ⟨hidx0, hid, -⟩ := TsIterator.init_fields ctx.toIterCtx
  have hinit : ({ AggState.init ctx with curEntityId := ctx.entityIds.getD 0 0 } : AggState) =
      AggState.init ctx := by
    rw [← hid]
    rfl
  unfold aggNext
  dsimp only
  rw [if_neg (by simp [AggState.init, hidx0, hids])]
  simp only [AggState.init, hidx0] at hinit ⊢
  simp only [hinit]
  simp only [hids, List.getD_cons_zero]

/-- From `Init`, a scan column outside the first/last families sends `Next` down the general
path, or to no row when there is no partition. -/
theorem aggNext_init_general (ctx : AggCtx) {e : Nat} {es : List Nat}
    (hids : ctx.entityIds = e :: es) {c : Nat × Sumfunctype} (hc : c ∈ ctx.scanCols)
    (hedge : c.2.edge = none) (fuel calls : Nat) :
    aggNext ctx fuel calls (AggState.init ctx) =
      if ctx.pBts.isEmpty then some (some none)
      else some (aggNextGeneral ctx fuel calls (AggState.init ctx)) := by
  have hnotAll : ∀ p : Nat × Sumfunctype → Bool, p c = false → ctx.scanCols.all p = false :=
    fun p hp => List.all_eq_false.mpr ⟨c, hc, by rw [hp]; decide⟩
  have hfirst : onlyHasEdgeAggType ctx .first = false := hnotAll _ (by simp [hedge])
  have hlast : onlyHasEdgeAggType ctx .last = false := hnotAll _ (by simp [hedge])
  have hboth : onlyHasFirstLastAggType ctx = false := hnotAll _ (by simp [hedge])
  simp only [aggNext_init ctx hids, hfirst, hlast, hboth, Bool.false_eq_true, if_false]

/-- `TsAggIterator::Next` from `Init` with MIN, MAX, SUM and COUNT only: when the spans never
split a range and every block of the entity keeps the pre-aggregate invariant, and the general
path is allowed more passes than the cost and more calls than runs, it returns the direct row of
the first entity. -/
theorem aggNext_eq_directRow (ctx : AggCtx) (e : Nat) (es : List Nat)
    (hids : ctx.entityIds = e :: es) (hno : noFirstLastType ctx = true)
    (hcols : ctx.scanCols ≠ []) (hspans : SpansJoin ctx.tsSpans)
    (hvalid : ∀ b ∈ partitionsBlocks ctx.toIterCtx e ctx.pBts, PreAggValid b) (fuel calls : Nat)
    (hfuel : rawIterCost ctx.toIterCtx (TsIterator.init ctx.toIterCtx) < fuel)
    (hcalls : (entityBatches ctx.toIterCtx e).length < calls) :
    aggNext ctx fuel calls (AggState.init ctx) = some (some (directRow ctx e)) := by
  obtain ⟨c, hc⟩ := List.exists_mem_of_ne_nil _ hcols
  rw [aggNext_init_general ctx hids hc (edge_eq_none_of_noFirstLastType hno c hc)]
  split_ifs with hp
  · simp [directRow, directValues, entityRows, partitionsBlocks, List.isEmpty_iff.mp hp]
  · obtain ⟨st', h, -⟩ := collectRuns_init (Or.inr hspans) hids hfuel hcalls
    rw [aggNextGeneral, h, Option.map_some', generalResults_entityBatches hno hvalid]

/-! ## Two spans with a gap

Over the spans `[0, 10]` and `[20, 30]`, which split the range `[5, 25]`, the fast path takes a
block whose stored bounds 5 and 25 each lie in a span, and aggregates its row stamped 15 too. -/

/-- Three rows stamped 5, 15 and 25 with values 10, 1 and 20 in column 1; the stored
aggregates are those of the three rows. -/
def gapBlock : Block where
  blockId := 1
  publishRowCount := 3
  isAggResAvailable := true
  isOverflow := false
  deleted _ := false
  ts r := 10 * r - 5
  value col r := if col = 1 ∧ 1 ≤ r ∧ r ≤ 3 then some ([10, 1, 20].getD (r - 1) 0) else none
  minTs := 5
  maxTs := 25
  aggCount col := if col = 1 then 3 else 0
  aggMin col := if col = 1 then some 1 else none
  aggMax col := if col = 1 then some 20 else none
  aggSum col := if col = 1 then 31 else 0
  tsBounds r h1 h2 := ⟨by simp only; omega, by simp only; omega⟩

theorem preAggValid_gapBlock : PreAggValid gapBlock := by
  intro _
  refine ⟨by simp [gapBlock], fun col => ?_⟩
  by_cases h : col = 1
  · subst h; decide
  · simp only [gapBlock, h, false_and, if_false]; decide

/-- Entity 1's one block item. -/
def gapPartition : PartitionTable where
  getAllBlockItems e _ := if e = 1 then [some gapBlock] else []
  entityMinTs _ := 5
  entityMaxTs _ := 25
  noBlocksOfEntityZero _ := rfl

/-- MIN, MAX, SUM and COUNT of column 1 over the spans `[0, 10]` and `[20, 30]`. -/
def gapSpansCtx : AggCtx where
  entityIds := [1]
  pBts := [gapPartition]
  isReversed := false
  tsSpans := [⟨0, 10⟩, ⟨20, 30⟩]
  scanCols := [(1, .min), (1, .max), (1, .sum), (1, .count)]
  actualColMatches _ _ := true

theorem aggNext_counts_rows_between_spans :
    PreAggValid gapBlock ∧
      aggNext gapSpansCtx 10 5 (AggState.init gapSpansCtx) =
        some (some (some [some 1, some 20, some 31, some 3])) ∧
      directRow gapSpansCtx 1 = some [some 10, some 20, some 30, some 2] :=
  ⟨preAggValid_gapBlock, by decide, by decide⟩

end KwdbTs.Engine
