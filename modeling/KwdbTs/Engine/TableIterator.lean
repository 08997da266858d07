import KwdbTs.Engine.RawIterator

/-!
# The table iterator

`TsTable::GetIterator` gives a `TsTableIterator` one `TsRawDataIterator` per run of entities of
one entity group and sub-group. `TsTableIterator::Next` (engine/iterator.cpp) calls the current
one until it reports `is_finished`, then moves `current_iter_` on. Each group's iterator returns
the batches still to come in its state, once each (`rawNext_spec`); so the calls of the table
iterator return the groups' batches group after group, each tagged with its group, and then
no rows (`tableScan_init`).
-/

namespace KwdbTs.Engine

/-- A `TsRawDataIterator` of the table iterator: its `entity_group_id_` and `subgroup_id_`, what
`Init` gave it, and its state. -/
structure GroupIterator where
  entityGroupId : Nat
  subgroupId : Nat
  ctx : IterCtx
  st : IterState

/-- A batch as `TsTableIterator::Next` returns it: `res->entity_index` holds the entity group and
the sub-group of the iterator that read it, beside the batch's entity. -/
structure TableBatch where
  entityGroupId : Nat
  subgroupId : Nat
  batch : RawBatch

/-- A batch of a group's iterator, tagged with its group. -/
def GroupIterator.tag (g : GroupIterator) (bt : RawBatch) : TableBatch :=
  ⟨g.entityGroupId, g.subgroupId, bt⟩

/-- The rows of a table batch, each with the entity group and sub-group it was read under. -/
def TableBatch.entries (tb : TableBatch) : List (Nat × Nat × Nat × Block × Nat) :=
  tb.batch.entries.map (tb.entityGroupId, tb.subgroupId, ·)

/-- The iterator `AddEntityIterator` adds, after `Init`. -/
def GroupIterator.init (entityGroupId subgroupId : Nat) (ctx : IterCtx) : GroupIterator :=
  ⟨entityGroupId, subgroupId, ctx, TsIterator.init ctx⟩

/-- `TsTableIterator::Next` with `ts = INVALID_TS`, over the iterators from `current_iter_` on
(those before it are finished and never read again), each call of a group's `Next` allowed
`fuel` passes: `none` if one ran out, else the batch (`none` for `*count = 0` once every
iterator is finished) and the iterators from `current_iter_` on. -/
def tableNext (fuel : Nat) : List GroupIterator → Option (Option TableBatch × List GroupIterator)
  | [] => some (none, [])
  | g :: gs =>
    match rawNext g.ctx fuel g.st with
    | none => none
    | some (none, _) => tableNext fuel gs
    | some (some bt, st) => some (some (g.tag bt), { g with st := st } :: gs)

/-- Calling `TsTableIterator::Next` at most `calls` times, until it returns no rows. -/
def tableScan (fuel : Nat) : Nat → List GroupIterator → Option (List TableBatch)
  | 0, _ => none
  | calls + 1, gs =>
    match tableNext fuel gs with
    | none => none
    | some (none, _) => some []
    | some (some bt, gs) => (tableScan fuel calls gs).map (bt :: ·)

/-- The batches still to come from a group's iterator, tagged with its group. -/
def GroupIterator.remaining (g : GroupIterator) : List TableBatch :=
  (remainingBatches g.ctx g.st).map g.tag

/-- A group's iterator keeps the raw iterator's invariant and costs less than `fuel`. -/
def GroupIterator.Ready (fuel : Nat) (g : GroupIterator) : Prop :=
  RawIterInv g.st ∧ rawIterCost g.ctx g.st < fuel

section Table

variable {fuel : Nat}

/-- One call of the table iterator over ready iterators: it returns the first batch to come,
from the first group with one, and leaves ready iterators with the rest to come; or it returns
no rows, with nothing left to come. -/
theorem tableNext_spec {gs : List GroupIterator} (hready : ∀ g ∈ gs, g.Ready fuel) :
    ∃ r, tableNext fuel gs = some r ∧
      match r with
      | (none, _) => gs.flatMap GroupIterator.remaining = []
      | (some bt, gs') => (∀ g ∈ gs', g.Ready fuel) ∧
          gs.flatMap GroupIterator.remaining = bt :: gs'.flatMap GroupIterator.remaining := by
  induction gs with
  | nil => exact ⟨_, rfl, rfl⟩
  | cons g gs ih =>
    obtain ⟨hinv, hcost⟩ := hready g (List.mem_cons_self _ _)
    have hrest : ∀ g' ∈ gs, g'.Ready fuel := fun g' hg' => hready g' (List.mem_cons_of_mem _ hg')
    obtain ⟨r, hr, hspec⟩ := rawNext_spec hinv hcost
    rw [tableNext, hr]
    rcases r with ⟨_ | bt, st'⟩
    · -- the group is finished: the call moves on to the next one
      have hnil : g.remaining = [] := by rw [GroupIterator.remaining, hspec, List.map_nil]
      simpa only [List.flatMap_cons, hnil, List.nil_append] using ih hrest
    · obtain ⟨hinv', hrem, hcost'⟩ := hspec
      refine ⟨_, rfl, fun g' hg' => ?_, ?_⟩
      · rcases List.mem_cons.mp hg' with rfl | hg'
        · exact ⟨hinv', by simp only at hcost' ⊢; omega⟩
        · exact hrest g' hg'
      · simp [GroupIterator.remaining, hrem, GroupIterator.tag]

/-- Calls of the table iterator over ready iterators, more of them than batches to come: they
return exactly the batches to come, then no rows. -/
theorem tableScan_spec {gs : List GroupIterator} (hready : ∀ g ∈ gs, g.Ready fuel)
    {calls : Nat} (hcalls : (gs.flatMap GroupIterator.remaining).length < calls) :
    tableScan fuel calls gs = some (gs.flatMap GroupIterator.remaining) := by
  induction calls generalizing gs with
  | zero => omega
  | succ calls ih =>
    obtain ⟨r, hr, hspec⟩ := tableNext_spec hready
    rw [tableScan, hr]
    rcases r with ⟨_ | bt, gs'⟩
    · exact congrArg some hspec.symm
    · obtain ⟨hready', hrem⟩ := hspec
      rw [hrem] at hcalls ⊢
      dsimp only
      rw [ih hready' (by simp only [List.length_cons] at hcalls; omega)]
      rfl

end Table

/-- `TsTableIterator::Next` called again and again with `ts = INVALID_TS` over the iterators
`AddEntityIterator` added, fresh from `Init`: allowed more passes per call than any group's cost
and more calls than batches, it returns each group's batches in turn, in the order the iterators
were added, as the group's own iterator returns them and tagged with its entity group and
sub-group; then it returns no rows. Together the batches hold each group's qualifying rows once,
under that group. -/
theorem tableScan_init (groups : List (Nat × Nat × IterCtx)) (fuel calls : Nat)
    (hfuel : ∀ g ∈ groups, rawIterCost g.2.2 (TsIterator.init g.2.2) < fuel)
    (hcalls : (groups.flatMap fun g => expectedBatches g.2.2).length < calls) :
    tableScan fuel calls (groups.map fun g => GroupIterator.init g.1 g.2.1 g.2.2) =
      some (groups.flatMap fun g =>
        (expectedBatches g.2.2).map (GroupIterator.init g.1 g.2.1 g.2.2).tag) ∧
    (groups.flatMap fun g =>
        (expectedBatches g.2.2).map (GroupIterator.init g.1 g.2.1 g.2.2).tag).flatMap
        TableBatch.entries =
      groups.flatMap fun g => (qualifyingRows g.2.2).map (g.1, g.2.1, ·) := by
  have hrem : ∀ g : Nat × Nat × IterCtx, (GroupIterator.init g.1 g.2.1 g.2.2).remaining =
      (expectedBatches g.2.2).map (GroupIterator.init g.1 g.2.1 g.2.2).tag := fun g => by
    rw [GroupIterator.remaining, GroupIterator.init, remainingBatches_init]
  have hready : ∀ g ∈ groups.map fun g => GroupIterator.init g.1 g.2.1 g.2.2, g.Ready fuel := by
    simp only [List.mem_map]
    rintro _ ⟨g, hg, rfl⟩
    exact ⟨rawIterInv_init _, hfuel g hg⟩
  have hlen : ((groups.map fun g => GroupIterator.init g.1 g.2.1 g.2.2).flatMap
      GroupIterator.remaining).length < calls := by
    simpa [hrem, List.length_flatMap, Function.comp_def] using hcalls
  refine ⟨?_, ?_⟩
  · rw [tableScan_spec hready hlen, List.flatMap_map]
    simp only [hrem]
  · simp only [List.flatMap_assoc, List.flatMap_map, TableBatch.entries, GroupIterator.tag,
      GroupIterator.init,
      ← flatMap_entries_expectedBatches, List.map_flatMap]


/-! ## Building the table iterator -/

/-- The fields of an `EntityResultIndex` that `TsTable::GetIterator` reads. -/
structure EntityResultIndex where
  entityGroupId : Nat
  entityId : Nat
  subGroupId : Nat
  deriving Repr, DecidableEq

/-- An entity iterator as `TsTable::GetIterator` asks for it: the entity group whose `GetIterator`
builds it, by the id the group was fetched with, the sub-group and the entities. -/
structure EntityIter where
  entityGroupId : Nat
  subgroupId : Nat
  entities : List Nat
  deriving Repr, DecidableEq

/-- What the calls of `TsTable::GetIterator` return: whether `GetEntityGroup` finds the entity
group of an id, and whether that group's `GetIterator` succeeds for a sub-group and entities. -/
structure GetIteratorEnv where
  getEntityGroup : Nat → Bool
  groupGetIterator : Nat → Nat → List Nat → Bool

/-- The loop's variables: `entity_group_id`, `subgroup_id`, the entity group `entity_group` holds,
by the id it was fetched with (`none` while null), `entities`, and the iterators added. -/
structure GetIterState where
  entityGroupId : Nat
  subgroupId : Nat
  entityGroup : Option Nat
  entities : List Nat
  iters : List EntityIter

def GetIterState.init : GetIterState := ⟨0, 0, none, [], []⟩

/-- `ts_scan_cols`: `actual_cols[col]` for each scan column; `none` (`FAIL`) when a column is past
`actual_cols`. -/
def tsScanColsOf (actualCols scanCols : List Nat) : Option (List Nat) :=
  scanCols.mapM fun col => actualCols[col]?

/-- `entity_group->GetIterator(ctx, subgroup_id, entities, ...)` and `AddEntityIterator`: `none`
when the call fails, or when `entity_group` is null. -/
def addEntityIterator (env : GetIteratorEnv) (st : GetIterState) : Option (List EntityIter) :=
  match st.entityGroup with
  | none => none
  | some g =>
    if env.groupGetIterator g st.subgroupId st.entities then
      some (st.iters ++ [⟨g, st.subgroupId, st.entities⟩])
    else none

/-- The loop's first `if`: while both ids are `0`, take the entry's and fetch its entity group. -/
def takeFirstGroup (env : GetIteratorEnv) (st : GetIterState) (e : EntityResultIndex) :
    Option GetIterState :=
  if st.entityGroupId = 0 ∧ st.subgroupId = 0 then
    if env.getEntityGroup e.entityGroupId then
      some { st with
        entityGroupId := e.entityGroupId, subgroupId := e.subGroupId,
        entityGroup := some e.entityGroupId }
    else none
  else some st

/-- The second `if`: on a change of entity group or sub-group, the pending entities get their
iterator and the sub-group becomes the entry's. -/
def flushOnChange (env : GetIteratorEnv) (st : GetIterState) (e : EntityResultIndex) :
    Option GetIterState :=
  if e.entityGroupId ≠ st.entityGroupId ∨ e.subGroupId ≠ st.subgroupId then
    (addEntityIterator env st).map fun iters =>
      { st with iters := iters, subgroupId := e.subGroupId, entities := [] }
  else some st

/-- The third `if`: on a change of entity group, fetch the entry's. -/
def switchGroup (env : GetIteratorEnv) (st : GetIterState) (e : EntityResultIndex) :
    Option GetIterState :=
  if e.entityGroupId ≠ st.entityGroupId then
    if env.getEntityGroup e.entityGroupId then
      some { st with entityGroupId := e.entityGroupId, entityGroup := some e.entityGroupId }
    else none
  else some st

/-- One pass of the loop over `entity_ids`. -/
def getIteratorStep (env : GetIteratorEnv) (st : GetIterState) (e : EntityResultIndex) :
    Option GetIterState :=
  ((takeFirstGroup env st e).bind fun st => flushOnChange env st e).bind fun st =>
    (switchGroup env st e).map fun st => { st with entities := st.entities ++ [e.entityId] }

/-- After the loop: `if (!entities.empty())` the pending entities get their iterator. -/
def finishIters (env : GetIteratorEnv) (st : GetIterState) : Option (List EntityIter) :=
  if st.entities.isEmpty then some st.iters else addEntityIterator env st

/-- `TsTable::GetIterator`: `ts_scan_cols` and the iterators it adds, in order; `none` for
`FAIL`. -/
def getIterator (env : GetIteratorEnv) (actualCols scanCols : List Nat)
    (entityIds : List EntityResultIndex) : Option (List Nat × List EntityIter) :=
  (tsScanColsOf actualCols scanCols).bind fun tsScanCols =>
    ((entityIds.foldlM (getIteratorStep env) GetIterState.init).bind (finishIters env)).map
      fun iters => (tsScanCols, iters)

/-- Modelled from the spec: the maximal runs of consecutive entries of one entity group and
sub-group, after a pending run of group `g`, sub-group `s` and entities `ents`. -/
def runsFrom (g s : Nat) (ents : List Nat) : List EntityResultIndex → List EntityIter
  | [] => [⟨g, s, ents⟩]
  | e :: es =>
    if e.entityGroupId = g ∧ e.subGroupId = s then runsFrom g s (ents ++ [e.entityId]) es
    else ⟨g, s, ents⟩ :: runsFrom e.entityGroupId e.subGroupId [e.entityId] es

/-- Modelled from the spec: the maximal runs of consecutive entries sharing entity group and
sub-group, each with its entity ids in order. -/
def groupRuns : List EntityResultIndex → List EntityIter
  | [] => []
  | e :: es => runsFrom e.entityGroupId e.subGroupId [e.entityId] es

/-- The calls a run needs succeed: its entity group is found and builds the run's iterator. -/
def EntityIter.callsSucceed (env : GetIteratorEnv) (it : EntityIter) : Bool :=
  env.getEntityGroup it.entityGroupId && env.groupGetIterator it.entityGroupId it.subgroupId
    it.entities

/-- An entry as the entity, its entity group and its sub-group. -/
def EntityResultIndex.tagged (e : EntityResultIndex) : Nat × Nat × Nat :=
  (e.entityGroupId, e.subGroupId, e.entityId)

/-- The entities an iterator scans, each with the entity group and sub-group it is scanned
under. -/
def EntityIter.tagged (it : EntityIter) : List (Nat × Nat × Nat) :=
  it.entities.map (it.entityGroupId, it.subgroupId, ·)

section GroupRuns

/-- The first run continues the pending one. -/
theorem runsFrom_head (g s : Nat) :
    ∀ (es : List EntityResultIndex) (ents : List Nat),
      ∃ more tl, runsFrom g s ents es = ⟨g, s, ents ++ more⟩ :: tl
  | [], ents => ⟨[], [], by simp [runsFrom]⟩
  | e :: es, ents => by
    rw [runsFrom]
    split_ifs
    · obtain ⟨more, tl, h⟩ := runsFrom_head g s es (ents ++ [e.entityId])
      exact ⟨e.entityId :: more, tl, by simpa using h⟩
    · exact ⟨[], _, by rw [List.append_nil]⟩

theorem flatMap_tagged_runsFrom :
    ∀ (es : List EntityResultIndex) (g s : Nat) (ents : List Nat),
      (runsFrom g s ents es).flatMap EntityIter.tagged =
        ents.map (g, s, ·) ++ es.map EntityResultIndex.tagged
  | [], g, s, ents => by simp [runsFrom, EntityIter.tagged]
  | e :: es, g, s, ents => by
    rw [runsFrom]
    split_ifs with h
    · obtain ⟨rfl, rfl⟩ := h
      simp [flatMap_tagged_runsFrom es, EntityResultIndex.tagged]
    · simp [flatMap_tagged_runsFrom es, EntityIter.tagged, EntityResultIndex.tagged]

theorem runsFrom_ne_nil :
    ∀ (es : List EntityResultIndex) (g s : Nat) (ents : List Nat), ents ≠ [] →
      ∀ it ∈ runsFrom g s ents es, it.entities ≠ []
  | [], g, s, ents, h => by simpa [runsFrom] using h
  | e :: es, g, s, ents, h => by
    rw [runsFrom]
    split_ifs
    · exact runsFrom_ne_nil es g s _ (by simp)
    · rintro it (_ | ⟨_, hit⟩)
      · exact h
      · exact runsFrom_ne_nil es _ _ _ (List.cons_ne_nil _ _) it hit

theorem runsFrom_chain :
    ∀ (es : List EntityResultIndex) (g s : Nat) (ents : List Nat),
      (runsFrom g s ents es).Chain' fun a b =>
        (a.entityGroupId, a.subgroupId) ≠ (b.entityGroupId, b.subgroupId)
  | [], _, _, _ => List.chain'_singleton _
  | e :: es, g, s, ents => by
    rw [runsFrom]
    split_ifs with h
    · exact runsFrom_chain es g s _
    · obtain ⟨more, tl, htl⟩ := runsFrom_head e.entityGroupId e.subGroupId es [e.entityId]
      have hc := runsFrom_chain es e.entityGroupId e.subGroupId [e.entityId]
      rw [htl] at hc ⊢
      refine List.Chain'.cons (fun heq => h ?_) hc
      simp only [Prod.mk.injEq] at heq
      exact ⟨heq.1.symm, heq.2.symm⟩

/-- `groupRuns` is a grouping into maximal runs: its runs join to the entries, each with its
own entity group and sub-group; no run is empty; and adjacent runs differ in entity group or
sub-group, so each run is maximal. -/
theorem groupRuns_maximal (es : List EntityResultIndex) :
    (groupRuns es).flatMap EntityIter.tagged = es.map EntityResultIndex.tagged ∧
      (∀ it ∈ groupRuns es, it.entities ≠ []) ∧
      (groupRuns es).Chain' fun a b =>
        (a.entityGroupId, a.subgroupId) ≠ (b.entityGroupId, b.subgroupId) := by
  cases es with
  | nil => exact ⟨rfl, fun _ h => absurd h (List.not_mem_nil _), List.chain'_nil⟩
  | cons e es =>
    refine ⟨?_, runsFrom_ne_nil es _ _ _ (List.cons_ne_nil _ _), runsFrom_chain es _ _ _⟩
    simp [groupRuns, flatMap_tagged_runsFrom, EntityResultIndex.tagged]

/-- Whatever is done per entity, done run by run, is done entry by entry. -/
theorem flatMap_groupRuns {α : Type} (es : List EntityResultIndex) (f : Nat × Nat × Nat → List α) :
    (groupRuns es).flatMap (fun it => it.entities.flatMap fun id =>
      f (it.entityGroupId, it.subgroupId, id)) = es.flatMap fun e => f e.tagged := by
  have h := congrArg (List.flatMap · f) (groupRuns_maximal es).1
  simpa [List.flatMap_assoc, EntityIter.tagged, List.flatMap_map] using h

end GroupRuns

section GetIterator

variable {env : GetIteratorEnv}

/-- The first entry takes the ids of its entity group and sub-group and fetches its group. -/
theorem getIteratorStep_init (e : EntityResultIndex) :
    getIteratorStep env GetIterState.init e =
      if env.getEntityGroup e.entityGroupId then
        some ⟨e.entityGroupId, e.subGroupId, some e.entityGroupId, [e.entityId], []⟩
      else none := by
  simp only [getIteratorStep, takeFirstGroup, GetIterState.init, and_self, if_true]
  split <;> simp [flushOnChange, switchGroup]

/-- Inside a run of group `g` and sub-group `s`: an entry of the run joins it; any other entry
ends it with its iterator and, once its own group is fetched, starts the next run. -/
theorem getIteratorStep_inRun {g s : Nat} (h0 : ¬(g = 0 ∧ s = 0))
    (hfound : env.getEntityGroup g = true) (ents : List Nat) (iters : List EntityIter)
    (e : EntityResultIndex) :
    getIteratorStep env ⟨g, s, some g, ents, iters⟩ e =
      if e.entityGroupId = g ∧ e.subGroupId = s then
        some ⟨g, s, some g, ents ++ [e.entityId], iters⟩
      else if env.groupGetIterator g s ents && env.getEntityGroup e.entityGroupId then
        some ⟨e.entityGroupId, e.subGroupId, some e.entityGroupId, [e.entityId],
          iters ++ [⟨g, s, ents⟩]⟩
      else none := by
  simp only [getIteratorStep, takeFirstGroup, if_neg h0, Option.some_bind, flushOnChange,
    addEntityIterator]
  by_cases hrun : e.entityGroupId = g ∧ e.subGroupId = s
  · obtain ⟨hg, hs⟩ := hrun
    simp [hg, hs, switchGroup]
  · rw [if_pos (not_and_or.mp hrun), if_neg hrun]
    by_cases hgi : env.groupGetIterator g s ents <;> by_cases hg : e.entityGroupId = g <;>
      simp [hgi, hg, switchGroup, hfound]

/-- From inside a run, the rest of the loop and its finish add the maximal runs, provided every
call they need succeeds, and fail otherwise. -/
theorem foldlM_getIteratorStep_inRun :
    ∀ (es : List EntityResultIndex) (g s : Nat) (ents : List Nat) (iters : List EntityIter),
      ¬(g = 0 ∧ s = 0) → env.getEntityGroup g = true → ents ≠ [] →
      (∀ e ∈ es, ¬(e.entityGroupId = 0 ∧ e.subGroupId = 0)) →
      (es.foldlM (getIteratorStep env) ⟨g, s, some g, ents, iters⟩).bind (finishIters env) =
        if (runsFrom g s ents es).all (EntityIter.callsSucceed env) then
          some (iters ++ runsFrom g s ents es)
        else none
  | [], g, s, ents, iters, _, hfound, hents, _ => by
    simp [finishIters, hents, addEntityIterator, runsFrom, EntityIter.callsSucceed, hfound]
  | e :: es, g, s, ents, iters, h0, hfound, hents, h00 => by
    have h00' : ∀ e ∈ es, ¬(e.entityGroupId = 0 ∧ e.subGroupId = 0) := fun e' he' =>
      h00 e' (List.mem_cons_of_mem _ he')
    rw [List.foldlM_cons, getIteratorStep_inRun h0 hfound, runsFrom]
    by_cases hrun : e.entityGroupId = g ∧ e.subGroupId = s
    · rw [if_pos hrun, if_pos hrun, Option.bind_eq_bind, Option.some_bind]
      exact foldlM_getIteratorStep_inRun es g s (ents ++ [e.entityId]) iters h0 hfound (by simp) h00'
    · rw [if_neg hrun, if_neg hrun]
      by_cases hok : (env.groupGetIterator g s ents && env.getEntityGroup e.entityGroupId) = true
      · rw [if_pos hok, Option.bind_eq_bind, Option.some_bind,
          foldlM_getIteratorStep_inRun es _ _ _ _ (h00 e (List.mem_cons_self _ _))
            (Bool.and_eq_true _ _ ▸ hok).2 (List.cons_ne_nil _ _) h00']
        simp only [Bool.and_eq_true] at hok
        simp only [List.all_cons, EntityIter.callsSucceed, hfound, hok.1, Bool.true_and,
          List.append_assoc, List.singleton_append]
      · obtain ⟨more, tl, htl⟩ := runsFrom_head e.entityGroupId e.subGroupId es [e.entityId]
        rw [if_neg hok]
        simp only [Bool.and_eq_true, not_and_or, Bool.not_eq_true] at hok
        rcases hok with hok | hok <;> simp [htl, EntityIter.callsSucceed, hok]

/-- The loop and its finish, for entries none of which has both ids `0`: they add the maximal
runs when every call the runs need succeeds, and fail otherwise. -/
theorem foldlM_getIteratorStep_eq_groupRuns (entityIds : List EntityResultIndex)
    (h00 : ∀ e ∈ entityIds, ¬(e.entityGroupId = 0 ∧ e.subGroupId = 0)) :
    (entityIds.foldlM (getIteratorStep env) GetIterState.init).bind (finishIters env) =
      if (groupRuns entityIds).all (EntityIter.callsSucceed env) then some (groupRuns entityIds)
      else none := by
  cases entityIds with
  | nil => rfl
  | cons e es =>
    rw [List.foldlM_cons, getIteratorStep_init]
    by_cases hfound : env.getEntityGroup e.entityGroupId
    · rw [if_pos hfound, Option.bind_eq_bind, Option.some_bind,
        foldlM_getIteratorStep_inRun es _ _ _ [] (h00 e (List.mem_cons_self _ _)) hfound
          (List.cons_ne_nil _ _) fun e' he' => h00 e' (List.mem_cons_of_mem _ he')]
      rfl
    · obtain ⟨more, tl, htl⟩ := runsFrom_head e.entityGroupId e.subGroupId es [e.entityId]
      simp [hfound, groupRuns, htl, EntityIter.callsSucceed]

/-- `TsTable::GetIterator`, for entries none of which has both ids `0`: it succeeds exactly when
every scan column is in `actual_cols` and every call the runs need succeeds, and then it adds
one iterator per maximal run of entries sharing entity group and sub-group, in list order, built
by that run's entity group for its sub-group and its entities in order. -/
theorem getIterator_adds_group_runs (env : GetIteratorEnv) (actualCols scanCols : List Nat)
    (entityIds : List EntityResultIndex)
    (h00 : ∀ e ∈ entityIds, ¬(e.entityGroupId = 0 ∧ e.subGroupId = 0)) :
    getIterator env actualCols scanCols entityIds =
      if (groupRuns entityIds).all (EntityIter.callsSucceed env) then
        (tsScanColsOf actualCols scanCols).map (·, groupRuns entityIds)
      else none := by
  rw [getIterator, foldlM_getIteratorStep_eq_groupRuns entityIds h00]
  cases tsScanColsOf actualCols scanCols <;> split_ifs <;> rfl

/-- Every entity group found and every group iterator built. -/
def foundEnv : GetIteratorEnv := ⟨fun _ => true, fun _ _ _ => true⟩

/-- Entries of entity groups `1` and `2` and sub-groups `0` and `1`, interleaved. -/
def interleavedEntries : List EntityResultIndex :=
  [⟨1, 10, 0⟩, ⟨1, 11, 0⟩, ⟨1, 12, 1⟩, ⟨2, 13, 1⟩, ⟨1, 14, 1⟩]

theorem getIterator_adds_group_runs_interleaved :
    (∀ e ∈ interleavedEntries, ¬(e.entityGroupId = 0 ∧ e.subGroupId = 0)) ∧
      getIterator foundEnv [5, 6, 7] [0, 2] interleavedEntries =
        if (groupRuns interleavedEntries).all (EntityIter.callsSucceed foundEnv) then
          (tsScanColsOf [5, 6, 7] [0, 2]).map (·, groupRuns interleavedEntries)
        else none :=
  ⟨by decide, getIterator_adds_group_runs foundEnv [5, 6, 7] [0, 2] interleavedEntries (by decide)⟩

example : getIterator foundEnv [5, 6, 7] [0, 2] interleavedEntries =
    some ([5, 7], [⟨1, 0, [10, 11]⟩, ⟨1, 1, [12]⟩, ⟨2, 1, [13]⟩, ⟨1, 1, [14]⟩]) := rfl

/-- Without the hypothesis the grouping breaks: an entry with both ids `0` leaves both ids `0`,
so the next entry is taken for a first one, and the pending entity of group `0` is scanned by
the next entry's group `1`. -/
theorem getIterator_zero_entry_joins_next_run :
    getIterator foundEnv [] [] [⟨1, 10, 0⟩, ⟨0, 11, 0⟩, ⟨1, 12, 0⟩] =
      some ([], [⟨1, 0, [10]⟩, ⟨1, 0, [11, 12]⟩]) := rfl

/-- The context an entity group's `GetIterator` gives the iterator of a run: the run's entities,
and the partitions of its entity group and sub-group (`partitionsOf`) in the scan order. -/
def EntityIter.iterCtx (partitionsOf : Nat → Nat → List PartitionTable) (reverse : Bool)
    (tsSpans : List KwTsSpan) (it : EntityIter) : IterCtx :=
  IterCtx.ofInit it.entities (partitionsOf it.entityGroupId it.subgroupId) reverse tsSpans

/-- The qualifying rows of a run's iterator are those of its entities one by one. -/
theorem qualifyingRows_iterCtx (partitionsOf : Nat → Nat → List PartitionTable) (reverse : Bool)
    (tsSpans : List KwTsSpan) (it : EntityIter) :
    qualifyingRows (it.iterCtx partitionsOf reverse tsSpans) =
      it.entities.flatMap fun id => qualifyingRows
        (EntityIter.iterCtx partitionsOf reverse tsSpans ⟨it.entityGroupId, it.subgroupId, [id]⟩) := by
  simp [qualifyingRows, EntityIter.iterCtx, IterCtx.ofInit, partitionsBlocks]

/-- The whole scan: the table iterator `GetIterator` builds, called again and again (more passes
per call than any iterator costs, more calls than batches), returns for each listed entity in
turn, once, the rows its own entity group and sub-group hold for it, tagged with them. -/
theorem getIterator_tableScan_entries {actualCols scanCols : List Nat}
    {entityIds : List EntityResultIndex}
    (h00 : ∀ e ∈ entityIds, ¬(e.entityGroupId = 0 ∧ e.subGroupId = 0))
    {cols : List Nat} {iters : List EntityIter}
    (h : getIterator env actualCols scanCols entityIds = some (cols, iters))
    (partitionsOf : Nat → Nat → List PartitionTable) (reverse : Bool) (tsSpans : List KwTsSpan)
    {fuel calls : Nat}
    (hfuel : ∀ it ∈ iters, rawIterCost (it.iterCtx partitionsOf reverse tsSpans)
      (TsIterator.init (it.iterCtx partitionsOf reverse tsSpans)) < fuel)
    (hcalls : (iters.flatMap fun it => expectedBatches (it.iterCtx partitionsOf reverse tsSpans)).length
      < calls) :
    ∃ batches, tableScan fuel calls (iters.map fun it => GroupIterator.init it.entityGroupId
        it.subgroupId (it.iterCtx partitionsOf reverse tsSpans)) = some batches ∧
      batches.flatMap TableBatch.entries = entityIds.flatMap fun e =>
        (qualifyingRows (EntityIter.iterCtx partitionsOf reverse tsSpans
          ⟨e.entityGroupId, e.subGroupId, [e.entityId]⟩)).map (e.entityGroupId, e.subGroupId, ·) := by
  have hiters : iters = groupRuns entityIds := by
    rw [getIterator, foldlM_getIteratorStep_eq_groupRuns entityIds h00] at h
    obtain ⟨ts, -, hts⟩ := Option.bind_eq_some.mp h
    split_ifs at hts
    · exact (Prod.mk.inj (Option.some.inj hts)).2.symm
    · cases hts
  obtain ⟨hscan, hentries⟩ := tableScan_init (iters.map fun it =>
      (it.entityGroupId, it.subgroupId, it.iterCtx partitionsOf reverse tsSpans)) fuel calls
    (fun _ hg => by obtain ⟨it, hit, rfl⟩ := List.mem_map.mp hg; exact hfuel it hit)
    (by rw [List.flatMap_map]; exact hcalls)
  rw [List.map_map] at hscan
  refine ⟨_, hscan, ?_⟩
  rw [hentries, List.flatMap_map, hiters]
  refine (List.flatMap_congr fun it _ => ?_).trans (flatMap_groupRuns entityIds fun t =>
    (qualifyingRows (EntityIter.iterCtx partitionsOf reverse tsSpans ⟨t.1, t.2.1, [t.2.2]⟩)).map
      (t.1, t.2.1, ·))
  rw [qualifyingRows_iterCtx, List.map_flatMap]

end GetIterator

end KwdbTs.Engine
