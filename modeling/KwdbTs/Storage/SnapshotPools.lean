import Mathlib
import KwdbTs.Storage.EntityGroups

/-!
# The snapshot pools of a table

`TsTable::CreateSnapshot`, `DropSnapshot`, `GetSnapshotData` and `ApplySnapshot` (ts_table.cpp)
keep a table's snapshots in `snapshot_manage_pool_`, keyed by snapshot id, and the size of each
snapshot's compressed data in `snapshot_get_size_pool_`: the first `GetSnapshotData` of an id
builds and compresses the snapshot and records the size, and later calls read with the recorded
size. `TsTableSnapshot` is not among the sources; what its methods return is given by
`SnapshotOps`, one for each request.

No request removes or changes an entry of the size pool (`runSnapshotReqs_getSizePool`):
`DropSnapshot` erases the snapshot but keeps its size. So once an id has been read, every later
`GetSnapshotData` of that id, whatever snapshot then holds the id, skips `BuildSnapshot` and
`CompressSnapshot` and reads with the first snapshot's size (`getSnapshotData_after_run`).
-/

namespace KwdbTs.Storage

variable {σ τ : Type}

/-- `SnapshotInfo`: the hash range, the type (`0` where the snapshot is made, `1` where it is
applied) and the id. -/
structure SnapshotInfo where
  beginHash : Nat
  endHash : Nat
  type : Nat
  id : Nat
  deriving DecidableEq, Repr

/-- What the methods of a `TsTableSnapshot` return, with the snapshot they leave: `make` is the
snapshot `std::make_shared` builds over the entity group and the info, `tagRows` the size of its
entity group's tag table, and `getData` its `GetSnapshotData` of the range group, offset, limit
and total. -/
structure SnapshotOps (σ τ : Type) where
  make : EntityGroup σ → SnapshotInfo → τ
  init : τ → KStatus × τ
  snapshotId : τ → Nat
  dropAll : τ → KStatus
  build : τ → KStatus × τ
  compress : τ → KStatus × Nat × τ
  tagRows : τ → Nat
  getData : τ → Nat → Nat → Nat → Nat → KStatus × List UInt8 × Nat
  apply : τ → KStatus × τ

/-- `snapshot_manage_pool_` and `snapshot_get_size_pool_`. -/
structure SnapshotPools (τ : Type) where
  managePool : Nat → Option τ
  getSizePool : Nat → Option Nat

/-- The pools with the snapshot of `id` set to `snap`. -/
def SnapshotPools.setSnapshot (p : SnapshotPools τ) (id : Nat) (snap : Option τ) : SnapshotPools τ :=
  { p with managePool := Function.update p.managePool id snap }

@[simp] theorem SnapshotPools.setSnapshot_getSizePool (p : SnapshotPools τ) (id : Nat) (snap : Option τ) :
    (p.setSnapshot id snap).getSizePool = p.getSizePool := rfl

@[simp] theorem SnapshotPools.setSnapshot_managePool (p : SnapshotPools τ) (id : Nat) (snap : Option τ) :
    (p.setSnapshot id snap).managePool = Function.update p.managePool id snap := rfl

/-! ## The requests -/

/-- `TsTable::CreateSnapshot`: `now` is the clock in milliseconds, which becomes the snapshot's
id; the id the new snapshot reports is handed back. -/
def createSnapshot (ops : SnapshotOps σ τ) (t : TsTable σ) (p : SnapshotPools τ)
    (rangeGroupId beginHash endHash now : Nat) : KStatus × Option Nat × SnapshotPools τ :=
  match TsTable.getEntityGroup t rangeGroupId with
  | (.success, some g) =>
    match ops.init (ops.make g ⟨beginHash, endHash, 0, now⟩) with
    | (.success, snap) => (.success, some (ops.snapshotId snap), p.setSnapshot (ops.snapshotId snap) (some snap))
    | (.fail, _) => (.fail, none, p)
  | _ => (.fail, none, p)

/-- `TsTable::DropSnapshot`: the snapshot is erased from `snapshot_manage_pool_` when its
`DropAll` succeeds; `snapshot_get_size_pool_` is not touched. -/
def dropSnapshot (ops : SnapshotOps σ τ) (p : SnapshotPools τ) (snapshotId : Nat) :
    KStatus × SnapshotPools τ :=
  match p.managePool snapshotId with
  | none => (.fail, p)
  | some snap =>
    match ops.dropAll snap with
    | .fail => (.fail, p)
    | .success => (.success, p.setSnapshot snapshotId none)

/-- The end of `GetSnapshotData`, once the size is recorded: an empty tag table reads as no data
of size `0`, and otherwise the snapshot is read with the recorded size. The status, the data
written, and `*total`. -/
def readSnapshot (ops : SnapshotOps σ τ) (p : SnapshotPools τ) (snap : τ)
    (rangeGroupId snapshotId offset limit : Nat) : KStatus × Option (List UInt8) × Nat :=
  if ops.tagRows snap = 0 then (.success, none, 0)
  else
    let r := ops.getData snap rangeGroupId offset limit ((p.getSizePool snapshotId).getD 0)
    (r.1, some r.2.1, r.2.2)

/-- `TsTable::GetSnapshotData`: `total` is `*total` on entry. The snapshot is built and
compressed, and its size recorded, only when the size pool has no entry for the id. -/
def getSnapshotData (ops : SnapshotOps σ τ) (p : SnapshotPools τ)
    (rangeGroupId snapshotId offset limit total : Nat) :
    (KStatus × Option (List UInt8) × Nat) × SnapshotPools τ :=
  match p.managePool snapshotId with
  | none => ((.fail, none, total), p)
  | some snap =>
    match p.getSizePool snapshotId with
    | some _ => (readSnapshot ops p snap rangeGroupId snapshotId offset limit, p)
    | none =>
      match ops.build snap with
      | (.fail, snap) => ((.fail, none, total), p.setSnapshot snapshotId (some snap))
      | (.success, snap) =>
        match ops.compress snap with
        | (.fail, size, snap) => ((.fail, none, size), p.setSnapshot snapshotId (some snap))
        | (.success, size, snap) =>
          let p := { p.setSnapshot snapshotId (some snap) with
            getSizePool := Function.update p.getSizePool snapshotId (some size) }
          (readSnapshot ops p snap rangeGroupId snapshotId offset limit, p)

/-- `TsTable::ApplySnapshot`: a snapshot of type `1` over the whole hash range is made for the
id, applied, and put in the pool; with `deleteAfterApply` it is dropped and erased again. -/
def applySnapshot (ops : SnapshotOps σ τ) (t : TsTable σ) (p : SnapshotPools τ)
    (rangeGroupId snapshotId : Nat) (deleteAfterApply : Bool) : KStatus × SnapshotPools τ :=
  match TsTable.getEntityGroup t rangeGroupId with
  | (.success, some g) =>
    match ops.init (ops.make g ⟨0, 2 ^ 64 - 1, 1, snapshotId⟩) with
    | (.fail, _) => (.fail, p)
    | (.success, snap) =>
      match ops.apply snap with
      | (.fail, _) => (.fail, p)
      | (.success, snap) =>
        let p := p.setSnapshot (ops.snapshotId snap) (some snap)
        if deleteAfterApply then
          match ops.dropAll snap with
          | .fail => (.fail, p)
          | .success => (.success, p.setSnapshot (ops.snapshotId snap) none)
        else (.success, p)
  | _ => (.fail, p)

/-- A request to the table's snapshots. -/
inductive SnapshotReq
  | create (rangeGroupId beginHash endHash now : Nat)
  | drop (snapshotId : Nat)
  | getData (rangeGroupId snapshotId offset limit total : Nat)
  | apply (rangeGroupId snapshotId : Nat) (deleteAfterApply : Bool)

/-- The pools after a request. -/
def SnapshotReq.step (ops : SnapshotOps σ τ) (t : TsTable σ) (p : SnapshotPools τ) :
    SnapshotReq → SnapshotPools τ
  | .create rangeGroupId beginHash endHash now => (createSnapshot ops t p rangeGroupId beginHash endHash now).2.2
  | .drop snapshotId => (dropSnapshot ops p snapshotId).2
  | .getData rangeGroupId snapshotId offset limit total =>
    (getSnapshotData ops p rangeGroupId snapshotId offset limit total).2
  | .apply rangeGroupId snapshotId deleteAfterApply =>
    (applySnapshot ops t p rangeGroupId snapshotId deleteAfterApply).2

/-- A run of requests, each with what the snapshot methods it calls return. -/
def runSnapshotReqs (t : TsTable σ) : SnapshotPools τ → List (SnapshotOps σ τ × SnapshotReq) → SnapshotPools τ
  | p, [] => p
  | p, (ops, r) :: rs => runSnapshotReqs t (r.step ops t p) rs

/-! ## The size pool only grows -/

@[simp] theorem createSnapshot_getSizePool (ops : SnapshotOps σ τ) (t : TsTable σ) (p : SnapshotPools τ)
    (rangeGroupId beginHash endHash now : Nat) :
    (createSnapshot ops t p rangeGroupId beginHash endHash now).2.2.getSizePool = p.getSizePool := by
  unfold createSnapshot
  split
  · split <;> rfl
  · rfl

@[simp] theorem dropSnapshot_getSizePool (ops : SnapshotOps σ τ) (p : SnapshotPools τ) (snapshotId : Nat) :
    (dropSnapshot ops p snapshotId).2.getSizePool = p.getSizePool := by
  unfold dropSnapshot
  split
  · rfl
  · split <;> rfl

@[simp] theorem applySnapshot_getSizePool (ops : SnapshotOps σ τ) (t : TsTable σ) (p : SnapshotPools τ)
    (rangeGroupId snapshotId : Nat) (deleteAfterApply : Bool) :
    (applySnapshot ops t p rangeGroupId snapshotId deleteAfterApply).2.getSizePool = p.getSizePool := by
  unfold applySnapshot
  split
  · split
    · rfl
    · split
      · rfl
      · dsimp only
        split
        · split <;> rfl
        · rfl
  · rfl

/-- `GetSnapshotData` records a size only for an id that had none. -/
theorem getSnapshotData_getSizePool (ops : SnapshotOps σ τ) (p : SnapshotPools τ)
    (rangeGroupId snapshotId offset limit total : Nat) {id n : Nat} (h : p.getSizePool id = some n) :
    (getSnapshotData ops p rangeGroupId snapshotId offset limit total).2.getSizePool id = some n := by
  unfold getSnapshotData
  split
  · exact h
  · rename_i hsize
    split
    · exact h
    · split
      · exact h
      · split
        · exact h
        · have hne : id ≠ snapshotId := by rintro rfl; simp_all
          simpa [Function.update_apply, hne] using h

theorem SnapshotReq.getSizePool_step (ops : SnapshotOps σ τ) (t : TsTable σ) (p : SnapshotPools τ)
    (r : SnapshotReq) {id n : Nat} (h : p.getSizePool id = some n) :
    (r.step ops t p).getSizePool id = some n := by
  cases r with
  | create => simpa [SnapshotReq.step] using h
  | drop => simpa [SnapshotReq.step] using h
  | getData => exact getSnapshotData_getSizePool ops p _ _ _ _ _ h
  | apply => simpa [SnapshotReq.step] using h

theorem getSizePool_runSnapshotReqs (t : TsTable σ) :
    ∀ {p : SnapshotPools τ} (reqs : List (SnapshotOps σ τ × SnapshotReq)) {id n : Nat},
      p.getSizePool id = some n → (runSnapshotReqs t p reqs).getSizePool id = some n
  | _, [], _, _, h => h
  | p, (ops, r) :: rs, _, _, h => getSizePool_runSnapshotReqs t rs (r.getSizePool_step ops t p h)

/-- Over any run of requests, a recorded size stays recorded and unchanged: no request frees or
updates an entry of `snapshot_get_size_pool_`, a `DropSnapshot` of the id included. -/
theorem runSnapshotReqs_getSizePool (t : TsTable σ) {p : SnapshotPools τ}
    (reqs : List (SnapshotOps σ τ × SnapshotReq)) {id n : Nat} (h : p.getSizePool id = some n) :
    (runSnapshotReqs t p reqs).getSizePool id = some n :=
  getSizePool_runSnapshotReqs t reqs h

/-- A table with the one range group `1`, and snapshots that are their own info: building
changes nothing, the compressed size is the width of the hash range, and a read hands back the
total it is given. -/
def infoSnapshotTable : TsTable Unit := ⟨true, [(1, ⟨⟨1, .leader⟩, ()⟩)]⟩

def infoSnapshotOps : SnapshotOps Unit SnapshotInfo where
  make _ info := info
  init snap := (.success, snap)
  snapshotId snap := snap.id
  dropAll _ := .success
  build snap := (.success, snap)
  compress snap := (.success, snap.endHash - snap.beginHash, snap)
  tagRows _ := 1
  getData _ _ _ _ total := (.success, [], total)
  apply snap := (.success, snap)

/-- The pools after a snapshot of hashes `0` to `100` made at millisecond `5` is read once. -/
def readOncePools : SnapshotPools SnapshotInfo :=
  runSnapshotReqs infoSnapshotTable ⟨fun _ => none, fun _ => none⟩
    [(infoSnapshotOps, .create 1 0 100 5), (infoSnapshotOps, .getData 1 5 0 10 0)]

theorem runSnapshotReqs_getSizePool_dropped :
    readOncePools.getSizePool 5 = some 100 ∧
      (runSnapshotReqs infoSnapshotTable readOncePools [(infoSnapshotOps, .drop 5)]).getSizePool 5 = some 100 :=
  have h : readOncePools.getSizePool 5 = some 100 := rfl
  ⟨h, runSnapshotReqs_getSizePool infoSnapshotTable _ h⟩

/-! ## A recorded size is never rebuilt -/

/-- With a size recorded for the id, `GetSnapshotData` runs neither `BuildSnapshot` nor
`CompressSnapshot`, changes no pool, and reads the snapshot the pool holds with that size. -/
theorem getSnapshotData_of_cached (ops : SnapshotOps σ τ) {p : SnapshotPools τ} {snapshotId n : Nat}
    (h : p.getSizePool snapshotId = some n) (rangeGroupId offset limit total : Nat) :
    getSnapshotData ops p rangeGroupId snapshotId offset limit total =
      match p.managePool snapshotId with
      | none => ((.fail, none, total), p)
      | some snap =>
        (if ops.tagRows snap = 0 then (.success, none, 0)
          else let r := ops.getData snap rangeGroupId offset limit n; (r.1, some r.2.1, r.2.2), p) := by
  unfold getSnapshotData
  split
  · rfl
  · simp only [h, readSnapshot, Option.getD_some]

/-- After any run of requests from pools that hold a size for the id, `GetSnapshotData` of the
id reads whatever snapshot the pool then holds under it, one made after a `DropSnapshot` by a new
`CreateSnapshot` or `ApplySnapshot` included, without building or compressing it, and with the
size recorded for the first. -/
theorem getSnapshotData_after_run (t : TsTable σ) {p : SnapshotPools τ} {snapshotId n : Nat}
    (h : p.getSizePool snapshotId = some n) (reqs : List (SnapshotOps σ τ × SnapshotReq))
    (ops : SnapshotOps σ τ) (rangeGroupId offset limit total : Nat) :
    getSnapshotData ops (runSnapshotReqs t p reqs) rangeGroupId snapshotId offset limit total =
      match (runSnapshotReqs t p reqs).managePool snapshotId with
      | none => ((.fail, none, total), runSnapshotReqs t p reqs)
      | some snap =>
        (if ops.tagRows snap = 0 then (.success, none, 0)
          else let r := ops.getData snap rangeGroupId offset limit n; (r.1, some r.2.1, r.2.2),
          runSnapshotReqs t p reqs) :=
  getSnapshotData_of_cached ops (getSizePool_runSnapshotReqs t reqs h) rangeGroupId offset limit total

/-- Dropped and made again in the same millisecond over hashes `0` to `7`, the snapshot of id `5`
is read with the size `100` of the first. -/
theorem getSnapshotData_after_run_recreated :
    readOncePools.getSizePool 5 = some 100 ∧
      getSnapshotData infoSnapshotOps
          (runSnapshotReqs infoSnapshotTable readOncePools
            [(infoSnapshotOps, .drop 5), (infoSnapshotOps, .create 1 0 7 5)]) 1 5 0 10 0 =
        ((.success, some [], 100), runSnapshotReqs infoSnapshotTable readOncePools
            [(infoSnapshotOps, .drop 5), (infoSnapshotOps, .create 1 0 7 5)]) :=
  have h : readOncePools.getSizePool 5 = some 100 := rfl
  ⟨h, (getSnapshotData_after_run infoSnapshotTable h _ infoSnapshotOps 1 0 10 0).trans rfl⟩

end KwdbTs.Storage
