import KwdbTs.Storage.Basic

/-!
# Partition references outside the write loop

`TsEntityGroup::DeleteData`, `TsEntityGroup::CheckAlterValid`, and `TsEntityGroup::GetIterator`
followed by `TsIterator::~TsIterator` (ts_table.cpp, iterator.cpp) take partition references
through `GetPartitionTables` and give them back through `ReleasePartitionTable`. The sub-group
manager and the partition tables are not in the sources: their outcomes are given by the
environments below, one per operation.
-/

namespace KwdbTs.Storage

/-- `GetPartitionTables` takes one reference per partition it returns. -/
def acquireAll (parts : List PartitionId) : List PartitionRef := parts.map .acquire

def releaseAll (parts : List PartitionId) : List PartitionRef := parts.map .release

theorem count_acquire_acquireAll (parts : List PartitionId) (part : PartitionId) :
    (acquireAll parts).count (.acquire part) = parts.count part :=
  List.count_map_of_injective _ _ (fun _ _ h => PartitionRef.acquire.inj h) _

theorem count_release_releaseAll (parts : List PartitionId) (part : PartitionId) :
    (releaseAll parts).count (.release part) = parts.count part :=
  List.count_map_of_injective _ _ (fun _ _ h => PartitionRef.release.inj h) _

@[simp] theorem count_release_acquireAll (parts : List PartitionId) (part : PartitionId) :
    (acquireAll parts).count (.release part) = 0 :=
  List.count_eq_zero.mpr (by simp [acquireAll])

@[simp] theorem count_acquire_releaseAll (parts : List PartitionId) (part : PartitionId) :
    (releaseAll parts).count (.acquire part) = 0 :=
  List.count_eq_zero.mpr (by simp [releaseAll])

/-- Taking references to some partitions and giving them all back is balanced. -/
theorem refsBalanced_acquire_release {parts parts' : List PartitionId}
    (h : ∀ part, parts.count part = parts'.count part) :
    RefsBalanced (acquireAll parts ++ releaseAll parts') := fun part => by
  simp [List.count_append, count_acquire_acquireAll, count_release_releaseAll, h part]

section DeleteData

/-- What one partition's `p_bt->DeleteData(...)` returns: its code, the rows it deleted, and the
`DelRowSpan`s it reports (as opaque ids). -/
structure PartitionDelete where
  res : Int
  cnt : Nat
  rows : List Nat

/-- The outcomes `TsEntityGroup::DeleteData` meets. -/
structure DeleteEnv where
  /-- `tag_bt_->getEntityIdGroupId(...)` found the primary tag. -/
  entityExists : Bool
  /-- `GetPartitionTables(...)`: `none` when it leaves a negative `err_info.errcode`. -/
  getPartitionTables : Option (List PartitionId)
  minTimestamp : PartitionId → Int
  partitionDeleteData : PartitionId → PartitionDelete

/-- The outputs of `DeleteData`: its status, `*count`, the spans added to `*rows`, and the
reference log. -/
structure DeleteResult where
  status : KStatus
  count : Nat
  rows : List (Int × Nat)
  refs : List PartitionRef

variable (env : DeleteEnv) (collectRows : Bool)

/-- The loop over `p_tables`, carrying `del_failed`; `collectRows` is `rows && evaluate_del`. -/
def deleteDataLoop : List PartitionId → Bool → DeleteResult → Bool × DeleteResult
  | [], delFailed, acc => (delFailed, acc)
  | part :: parts, delFailed, acc =>
    if delFailed then deleteDataLoop parts true { acc with refs := acc.refs ++ [.release part] }
    else
      let out := env.partitionDeleteData part
      let refs := if out.res < 0 then acc.refs ++ [.release part] else acc.refs
      deleteDataLoop parts (decide (out.res < 0))
        { acc with
          count := acc.count + out.cnt
          rows := if collectRows then acc.rows ++ out.rows.map (env.minTimestamp part, ·)
            else acc.rows
          refs := refs ++ [.release part] }

/-- `TsEntityGroup::DeleteData`. -/
def deleteData : DeleteResult :=
  if !env.entityExists then ⟨.success, 0, [], []⟩
  else
    match env.getPartitionTables with
    | none => ⟨.fail, 0, [], []⟩
    | some parts =>
      let (delFailed, acc) := deleteDataLoop env collectRows parts false ⟨.success, 0, [], acquireAll parts⟩
      { acc with status := if delFailed then .fail else .success }

variable {env collectRows}

/-- Without a failing partition the loop gives back each partition once. -/
theorem deleteDataLoop_of_no_failure {parts : List PartitionId}
    (h : ∀ part ∈ parts, 0 ≤ (env.partitionDeleteData part).res) (acc : DeleteResult) :
    (deleteDataLoop env collectRows parts false acc).2.refs = acc.refs ++ releaseAll parts ∧
      (deleteDataLoop env collectRows parts false acc).1 = false := by
  induction parts generalizing acc with
  | nil => simp [deleteDataLoop, releaseAll]
  | cons part parts ih =>
    have hres := h part (List.mem_cons_self _ _)
    simp only [deleteDataLoop, Bool.false_eq_true, if_false, not_lt.mpr hres, decide_False]
    obtain ⟨h1, h2⟩ := ih (fun p hp => h p (List.mem_cons_of_mem _ hp)) _
    exact ⟨by rw [h1]; simp [releaseAll], h2⟩

/-- When no partition's delete fails, `DeleteData` gives back every reference it took. -/
theorem deleteData_refsBalanced_of_no_failure
    (h : ∀ parts, env.getPartitionTables = some parts →
      ∀ part ∈ parts, 0 ≤ (env.partitionDeleteData part).res) :
    RefsBalanced (deleteData env collectRows).refs := by
  unfold deleteData
  split_ifs
  · exact fun _ => rfl
  · split
    · exact fun _ => rfl
    · next parts hparts =>
      rw [(deleteDataLoop_of_no_failure (h parts hparts) _).1]
      exact refsBalanced_acquire_release fun _ => rfl

/-- One partition whose own `DeleteData` fails. -/
def failingDeleteEnv : DeleteEnv where
  entityExists := true
  getPartitionTables := some [0]
  minTimestamp _ := 0
  partitionDeleteData _ := ⟨-1, 0, []⟩

/-- A partition whose delete fails is released in the `res < 0` branch and again at the end of
the loop body: one reference taken, two given back. -/
theorem deleteData_releases_failed_partition_twice :
    (deleteData failingDeleteEnv false).refs = [.acquire 0, .release 0, .release 0] ∧
      (deleteData failingDeleteEnv false).status = .fail ∧
      ¬ RefsBalanced (deleteData failingDeleteEnv false).refs := by
  refine ⟨rfl, rfl, fun h => absurd (h 0) (by decide)⟩

end DeleteData

section CheckAlterValid

/-- The outcomes `TsEntityGroup::CheckAlterValid` meets: the partitions `GetPartitionTables`
returns for each sub-group (its error code is not checked), and each partition's
`CheckAlterValid`, which returns a code and the new `is_valid`. -/
structure AlterCheckEnv where
  getPartitionTables : Nat → List PartitionId
  partitionCheckAlterValid : PartitionId → Bool → Int × Bool

variable (env : AlterCheckEnv)

/-- The inner loop over a sub-group's partitions: `true` when a check failed, and `is_valid`. -/
def checkAlterValidParts : List PartitionId → Bool → Bool × Bool
  | [], isValid => (false, isValid)
  | part :: parts, isValid =>
    let (res, isValid) := env.partitionCheckAlterValid part isValid
    if res < 0 then (true, isValid) else checkAlterValidParts parts isValid

/-- `TsEntityGroup::CheckAlterValid` over the sub-groups of `entities` in key order: the status,
`is_valid`, and the reference log. The `Defer` gives back a sub-group's partitions when its
iteration ends, the early return included. -/
def checkAlterValid : List Nat → Bool → KStatus × Bool × List PartitionRef
  | [], isValid => (.success, isValid, [])
  | subgroup :: rest, isValid =>
    let parts := env.getPartitionTables subgroup
    let refs := acquireAll parts ++ releaseAll parts
    match checkAlterValidParts env parts isValid with
    | (true, isValid) => (.fail, isValid, refs)
    | (false, isValid) =>
      let r := checkAlterValid rest isValid
      (r.1, r.2.1, refs ++ r.2.2)

/-- `CheckAlterValid` gives back every reference it takes, on every path. -/
theorem checkAlterValid_refsBalanced :
    ∀ (subgroups : List Nat) (isValid : Bool),
      RefsBalanced (checkAlterValid env subgroups isValid).2.2
  | [], _ => fun _ => rfl
  | subgroup :: rest, isValid => by
    have hsub : RefsBalanced (acquireAll (env.getPartitionTables subgroup) ++
        releaseAll (env.getPartitionTables subgroup)) := refsBalanced_acquire_release fun _ => rfl
    simp only [checkAlterValid]
    split
    · exact hsub
    · exact refsBalanced_append hsub (checkAlterValid_refsBalanced rest _)

end CheckAlterValid

section GetIterator

/-- The outcomes `TsEntityGroup::GetIterator` meets: `GetPartitionTables` (`none` when it leaves
a negative `err_info.errcode`), and whether a partition has data for the queried entities
(`!DeleteFlag()` and some entity with `row_written > 0`). -/
structure IteratorEnv where
  getPartitionTables : Option (List PartitionId)
  hasData : PartitionId → Bool

variable (env : IteratorEnv)

/-- `TsEntityGroup::GetIterator`: the status, the partitions handed to `TsIterator::Init` (reversed
when `reverse`), and the reference log. On failure the iterator is deleted before `Init`, so its
destructor releases nothing. -/
def getIterator (reverse : Bool) : KStatus × List PartitionId × List PartitionRef :=
  match env.getPartitionTables with
  | none => (.fail, [], [])
  | some parts =>
    let kept := parts.filter env.hasData
    (.success, if reverse then kept.reverse else kept,
      acquireAll parts ++ releaseAll (parts.filter (!env.hasData ·)))

/-- `TsIterator::~TsIterator` releases every partition of `p_bts_`. -/
def destroyIterator (pBts : List PartitionId) : List PartitionRef := releaseAll pBts

/-- `GetIterator` followed by the destruction of the iterator it returns gives back every
reference taken. -/
theorem getIterator_destroy_refsBalanced (reverse : Bool) :
    RefsBalanced ((getIterator env reverse).2.2 ++ destroyIterator (getIterator env reverse).2.1) := by
  unfold getIterator destroyIterator
  split
  · exact fun _ => rfl
  · next parts _ =>
    rw [List.append_assoc, releaseAll, releaseAll, ← List.map_append, ← releaseAll]
    refine refsBalanced_acquire_release fun part => ?_
    have hsplit : ∀ l : List PartitionId, (l.filter env.hasData).count part +
        (l.filter (!env.hasData ·)).count part = l.count part := fun l => by
      rw [← List.count_append]; exact (List.filter_append_perm _ _).count_eq _
    split_ifs <;> simp [List.count_append, ← hsplit parts, Nat.add_comm]

end GetIterator

end KwdbTs.Storage
