import KwdbTs.Storage.Basic

/-!
# The tag table's reference count

`TsEntityGroup::getTagTable` opens the tag table when `tag_bt_` is null, refuses a table that is
not valid, and takes a reference; `releaseTagTable` gives one back (ts_table.cpp). The operations
of an entity group that use the tag table bracket their tag-table calls with the two. The table
object's `incRefCount`/`decRefCount` are not in the sources; they add and take one.
-/

namespace KwdbTs.Storage

/-- The tag table object as `getTagTable` and `releaseTagTable` see it. -/
structure TagTable where
  valid : Bool
  refCount : Int
  deriving Repr, DecidableEq

/-- The table an operation works on: `tag_bt_`, or what `OpenTagTable` returns when it is null. -/
def entryTable (openTagTable tagBt : Option TagTable) : Option TagTable :=
  match tagBt with
  | some t => some t
  | none => openTagTable

/-- `getTagTable`, with `openTagTable` the outcome of `OpenTagTable`: the status and the new
`tag_bt_`. -/
def getTagTable (openTagTable tagBt : Option TagTable) : KStatus × Option TagTable :=
  match entryTable openTagTable tagBt with
  | none => (.fail, none)
  | some t => if t.valid then (.success, some { t with refCount := t.refCount + 1 })
    else (.fail, some t)

/-- `releaseTagTable`: a null `tag_bt_` is only logged. -/
def releaseTagTable : Option TagTable → Option TagTable
  | none => none
  | some t => some { t with refCount := t.refCount - 1 }

/-- The reference count of a `tag_bt_`, `none` when it is null. -/
def refCountOf (tagBt : Option TagTable) : Option Int := tagBt.map (·.refCount)

theorem getTagTable_of_entry {openTagTable tagBt : Option TagTable} {t : TagTable}
    (he : entryTable openTagTable tagBt = some t) :
    getTagTable openTagTable tagBt =
      if t.valid then (.success, some { t with refCount := t.refCount + 1 }) else (.fail, some t) := by
  simp only [getTagTable, he]

theorem getTagTable_of_no_entry {openTagTable tagBt : Option TagTable}
    (he : entryTable openTagTable tagBt = none) : getTagTable openTagTable tagBt = (.fail, none) := by
  simp only [getTagTable, he]

/-- A failed `getTagTable` leaves the count as it was. -/
theorem refCountOf_getTagTable_fail {openTagTable tagBt t : Option TagTable}
    (h : getTagTable openTagTable tagBt = (.fail, t)) :
    refCountOf t = refCountOf (entryTable openTagTable tagBt) := by
  rcases he : entryTable openTagTable tagBt with _ | t'
  · rw [getTagTable_of_no_entry he] at h; cases h; rfl
  · rw [getTagTable_of_entry he] at h
    split_ifs at h <;> cases h
    rfl

/-- A successful `getTagTable` followed by one `releaseTagTable` leaves the count as it was. -/
theorem refCountOf_getTagTable_success {openTagTable tagBt t : Option TagTable}
    (h : getTagTable openTagTable tagBt = (.success, t)) :
    refCountOf (releaseTagTable t) = refCountOf (entryTable openTagTable tagBt) := by
  rcases he : entryTable openTagTable tagBt with _ | t'
  · rw [getTagTable_of_no_entry he] at h; cases h
  · rw [getTagTable_of_entry he] at h
    split_ifs at h <;> cases h
    simp [releaseTagTable, refCountOf]

/-- What an operation does when one of its tag-table calls fails. -/
inductive OnTagFailure
  /-- `releaseTagTable(); return KStatus::FAIL;` -/
  | releaseAndFail
  /-- The error is logged, or recorded in `status` when `setsFail`, and the operation goes on. -/
  | carryOn (setsFail : Bool)

/-- The body of an operation after a successful `getTagTable`: its tag-table calls, each with
whether it failed, then `releaseTagTable(); return status;`. -/
def tagCalls : List (OnTagFailure × Bool) → KStatus → Option TagTable → KStatus × Option TagTable
  | [], status, t => (status, releaseTagTable t)
  | (.releaseAndFail, true) :: _, _, t => (.fail, releaseTagTable t)
  | (.carryOn setsFail, true) :: calls, status, t =>
    tagCalls calls (if setsFail then .fail else status) t
  | (_, false) :: calls, status, t => tagCalls calls status t

/-- An operation that takes the tag table through `getTagTable` and returns `getFailStatus`,
without releasing, when that fails. -/
def withTagTable (getFailStatus : KStatus) (openTagTable : Option TagTable)
    (calls : List (OnTagFailure × Bool)) (tagBt : Option TagTable) : KStatus × Option TagTable :=
  match getTagTable openTagTable tagBt with
  | (.fail, t) => (getFailStatus, t)
  | (.success, t) => tagCalls calls .success t

theorem tagCalls_releases_once :
    ∀ (calls : List (OnTagFailure × Bool)) (status : KStatus) (t : Option TagTable),
      (tagCalls calls status t).2 = releaseTagTable t
  | [], _, _ => rfl
  | (.releaseAndFail, true) :: _, _, _ => rfl
  | (.carryOn _, true) :: calls, _, t => tagCalls_releases_once calls _ t
  | (.releaseAndFail, false) :: calls, _, t => tagCalls_releases_once calls _ t
  | (.carryOn _, false) :: calls, _, t => tagCalls_releases_once calls _ t

/-- Whatever its calls' outcomes, an operation of this shape leaves the tag table's reference
count as it found it. -/
theorem withTagTable_keeps_refCount (getFailStatus : KStatus) (openTagTable : Option TagTable)
    (calls : List (OnTagFailure × Bool)) (tagBt : Option TagTable) :
    refCountOf (withTagTable getFailStatus openTagTable calls tagBt).2 =
      refCountOf (entryTable openTagTable tagBt) := by
  unfold withTagTable
  split
  · next t h => exact refCountOf_getTagTable_fail h
  · next t h => rw [tagCalls_releases_once]; exact refCountOf_getTagTable_success h

section Operations

variable (openTagTable : Option TagTable)

/-- `PutEntity`: the update of the tag record runs only when the primary tag is found. -/
def putEntity (found updateFails : Bool) : Option TagTable → KStatus × Option TagTable :=
  withTagTable .fail openTagTable [(.releaseAndFail, found && updateFails)]

/-- `PutData` up to `putDataColumnar`, which runs after the tag table is released. -/
def putData (allocateFails : Bool) : Option TagTable → KStatus × Option TagTable :=
  withTagTable .fail openTagTable [(.releaseAndFail, allocateFails)]

def getEntityIdList (callFails : Bool) : Option TagTable → KStatus × Option TagTable :=
  withTagTable .fail openTagTable [(.carryOn true, callFails)]

/-- `AlterTagInfo`: the tag id may be missing from the schema, then `AlterTagType` may fail. -/
def alterTagInfo (notFound alterFails : Bool) : Option TagTable → KStatus × Option TagTable :=
  withTagTable .fail openTagTable [(.releaseAndFail, notFound), (.releaseAndFail, alterFails)]

def dropTagInfo (dropFails : Bool) : Option TagTable → KStatus × Option TagTable :=
  withTagTable .fail openTagTable [(.releaseAndFail, dropFails)]

/-- `RedoAddTagInfo`: a failed `getTagTable` returns `SUCCESS`, a failed redo is only logged. -/
def redoAddTagInfo (redoFails : Bool) : Option TagTable → KStatus × Option TagTable :=
  withTagTable .success openTagTable [(.carryOn false, redoFails)]

def redoDropTagInfo (redoFails : Bool) : Option TagTable → KStatus × Option TagTable :=
  withTagTable .success openTagTable [(.carryOn false, redoFails)]

/-- `AddTagInfo` calls `releaseTagTable` also after `getTagTable` failed. -/
def addTagInfo (addFails : Bool) (tagBt : Option TagTable) : KStatus × Option TagTable :=
  match getTagTable openTagTable tagBt with
  | (.fail, t) => (.fail, releaseTagTable t)
  | (.success, t) => if addFails then (.fail, releaseTagTable t) else (.success, releaseTagTable t)

/-- The body shared by `UndoAddTagInfo`, `UndoDropTagInfo` and `UndoAlterTagInfo`: a failed
`AlterTableForUndo` returns without `releaseTagTable`. -/
def undoTagInfo (undoFails : Bool) (tagBt : Option TagTable) : KStatus × Option TagTable :=
  match getTagTable openTagTable tagBt with
  | (.fail, t) => (.fail, t)
  | (.success, t) => if undoFails then (.fail, t) else (.success, releaseTagTable t)

/-- `AlterTableForUndo(0, 0, old, tag_schema, 3)`. -/
def undoAddTagInfo (undoFails : Bool) : Option TagTable → KStatus × Option TagTable :=
  undoTagInfo openTagTable undoFails

/-- `AlterTableForUndo(0, 0, tag_schema, info, 4)`. -/
def undoDropTagInfo (undoFails : Bool) : Option TagTable → KStatus × Option TagTable :=
  undoTagInfo openTagTable undoFails

/-- `AlterTableForUndo(0, 0, origin_tag_schema, info, 2)`, taken without the drop lock. -/
def undoAlterTagInfo (undoFails : Bool) : Option TagTable → KStatus × Option TagTable :=
  undoTagInfo openTagTable undoFails

variable {openTagTable}

/-- Where the table it finds is valid, or there is none, `AddTagInfo` keeps the count. -/
theorem addTagInfo_keeps_refCount {tagBt : Option TagTable} (addFails : Bool)
    (hvalid : ∀ t, entryTable openTagTable tagBt = some t → t.valid = true) :
    refCountOf (addTagInfo openTagTable addFails tagBt).2 =
      refCountOf (entryTable openTagTable tagBt) := by
  rcases he : entryTable openTagTable tagBt with _ | t
  · simp [addTagInfo, getTagTable_of_no_entry he, releaseTagTable, refCountOf]
  · simp only [addTagInfo, getTagTable_of_entry he, hvalid t he, if_true]
    split_ifs <;> simp [releaseTagTable, refCountOf]

/-- A table that is not valid makes `AddTagInfo` give back a reference it never took. -/
theorem addTagInfo_releases_invalid_table {tagBt : Option TagTable} {t : TagTable}
    (addFails : Bool) (he : entryTable openTagTable tagBt = some t) (hv : t.valid = false) :
    refCountOf (addTagInfo openTagTable addFails tagBt).2 = some (t.refCount - 1) := by
  simp [addTagInfo, getTagTable_of_entry he, hv, releaseTagTable, refCountOf]

/-- The `Undo*TagInfo` operations keep the count unless their `AlterTableForUndo` fails. -/
theorem undoTagInfo_keeps_refCount {tagBt : Option TagTable} :
    refCountOf (undoTagInfo openTagTable false tagBt).2 =
      refCountOf (entryTable openTagTable tagBt) := by
  unfold undoTagInfo
  split
  · next t h => exact refCountOf_getTagTable_fail h
  · next t h => exact refCountOf_getTagTable_success h

/-- A failed `AlterTableForUndo` on a valid table keeps the reference `getTagTable` took. -/
theorem undoTagInfo_keeps_reference_on_failure {tagBt : Option TagTable} {t : TagTable}
    (he : entryTable openTagTable tagBt = some t) (hv : t.valid = true) :
    refCountOf (undoTagInfo openTagTable true tagBt).2 = some (t.refCount + 1) := by
  simp [undoTagInfo, getTagTable_of_entry he, hv, refCountOf]

end Operations

/-- A tag table held once and not valid: `AddTagInfo` drops its count to `0`. A valid one:
`UndoAddTagInfo` with a failing `AlterTableForUndo` leaves it at `2`. -/
theorem tagTable_refCount_drifts_on_error_paths :
    (addTagInfo none false (some ⟨false, 1⟩)).2 = some ⟨false, 0⟩ ∧
      (undoAddTagInfo none true (some ⟨true, 1⟩)).2 = some ⟨true, 2⟩ := by
  decide

end KwdbTs.Storage
