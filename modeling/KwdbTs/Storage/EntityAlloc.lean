import KwdbTs.Storage.Basic

/-!
# Entity ids under concurrent writers

`TsEntityGroup::allocateEntityGroupId` (ts_table.cpp) looks the payload's primary tag up in the
tag table without a lock; on a miss it takes `mutex_`, looks again, and only then asks
`ebt_manager_->AllocateEntity` for fresh ids and calls `putTagData`, which inserts the tag row
for `DATA_AND_TAG` and `TAG_ONLY` payloads only. Each `PutData` call is a writer; a schedule
interleaves the writers' atomic steps in any order, with any outcome of `AllocateEntity` and of
the tag table's insert. Rows are never deleted.
-/

namespace KwdbTs.Storage

/-- `Payload::GetFlag`. -/
inductive PayloadFlag
  | dataAndTag
  | dataOnly
  | tagOnly
  deriving Repr, DecidableEq

/-- What `allocateEntityGroupId` reads of a payload: `GetPrimaryTag` and `GetFlag`. -/
structure TagPayload where
  primaryTag : List UInt8
  flag : PayloadFlag
  deriving Repr, DecidableEq

/-- `(entity_id, group_id)`. -/
structure EntityIds where
  entityId : Nat
  groupId : Nat
  deriving Repr, DecidableEq

/-- A row of the tag table as the id lookup sees it. -/
structure TagRow where
  primaryTag : List UInt8
  ids : EntityIds
  deriving Repr, DecidableEq

/-- `tag_bt_->getEntityIdGroupId`: the ids of the row the index finds for the primary tag. -/
def getEntityIdGroupId (rows : List TagRow) (primaryTag : List UInt8) : Option EntityIds :=
  (rows.find? fun r => decide (r.primaryTag = primaryTag)).map (·.ids)

/-- `TsEntityGroup::putTagData`; `insertOk` is the outcome of `tag_bt_->insert`. -/
def putTagData (rows : List TagRow) (payload : TagPayload) (ids : EntityIds)
    (insertOk : Bool) : KStatus × List TagRow :=
  if payload.flag = .dataAndTag ∨ payload.flag = .tagOnly then
    if insertOk then (.success, rows ++ [⟨payload.primaryTag, ids⟩]) else (.fail, rows)
  else (.success, rows)

/-- Where a writer is in `allocateEntityGroupId`. -/
inductive AllocPc
  /-- Before the unlocked lookup. -/
  | start
  /-- The unlocked lookup missed; waiting for `mutex_`. -/
  | waitLock
  /-- Holding `mutex_`, before the second lookup. -/
  | locked
  /-- The second lookup missed; before `AllocateEntity`. -/
  | allocate
  /-- `AllocateEntity` gave `ids`; before `putTagData`. -/
  | putTag (ids : EntityIds)
  /-- Returned `status`, with the ids written to `*entity_id`, `*group_id` on success. -/
  | done (status : KStatus) (ids : Option EntityIds)
  deriving Repr, DecidableEq

/-- The writer holds `mutex_`. -/
def AllocPc.holdsMutex : AllocPc → Bool
  | .locked | .allocate | .putTag _ => true
  | _ => false

/-- The writer's lookup under `mutex_` missed. -/
def AllocPc.afterMiss : AllocPc → Bool
  | .allocate | .putTag _ => true
  | _ => false

/-- The tag table, the owner of `mutex_`, and where each writer is. -/
structure AllocWorld where
  rows : List TagRow
  owner : Option Nat
  pc : Nat → AllocPc

/-- The outcomes a step may need from outside the tag table. -/
structure AllocOracle where
  /-- `AllocateEntity`: the ids, or `none` when it returns a negative code. -/
  allocateEntity : Option EntityIds
  insertOk : Bool

/-- Move writer `t` to `p`. -/
def AllocWorld.setPc (w : AllocWorld) (t : Nat) (p : AllocPc) : AllocWorld :=
  { w with pc := Function.update w.pc t p }

@[simp] theorem AllocWorld.setPc_rows (w : AllocWorld) (t : Nat) (p : AllocPc) :
    (w.setPc t p).rows = w.rows := rfl

@[simp] theorem AllocWorld.setPc_owner (w : AllocWorld) (t : Nat) (p : AllocPc) :
    (w.setPc t p).owner = w.owner := rfl

@[simp] theorem AllocWorld.setPc_pc (w : AllocWorld) (t t' : Nat) (p : AllocPc) :
    (w.setPc t p).pc t' = if t' = t then p else w.pc t' := by
  simp [setPc, Function.update_apply]

/-- One atomic step of writer `t`, whose payload is `payload`; `none` when it cannot move. -/
def allocStep (payload : TagPayload) (o : AllocOracle) (w : AllocWorld) (t : Nat) :
    Option AllocWorld :=
  match w.pc t with
  | .start =>
    match getEntityIdGroupId w.rows payload.primaryTag with
    | some ids => some (w.setPc t (.done .success (some ids)))
    | none => some (w.setPc t .waitLock)
  | .waitLock =>
    if w.owner = none then some { w.setPc t .locked with owner := some t } else none
  | .locked =>
    match getEntityIdGroupId w.rows payload.primaryTag with
    | some ids => some { w.setPc t (.done .success (some ids)) with owner := none }
    | none => some (w.setPc t .allocate)
  | .allocate =>
    match o.allocateEntity with
    | none => some { w.setPc t (.done .fail none) with owner := none }
    | some ids => some (w.setPc t (.putTag ids))
  | .putTag ids =>
    match putTagData w.rows payload ids o.insertOk with
    | (.success, rows) => some ⟨rows, none, Function.update w.pc t (.done .success (some ids))⟩
    | (.fail, rows) => some ⟨rows, none, Function.update w.pc t (.done .fail none)⟩
  | .done _ _ => none

/-- Every writer before its first step, over the tag table `rows`. -/
def initWorld (rows : List TagRow) : AllocWorld := ⟨rows, none, fun _ => .start⟩

/-- A schedule: which writer steps next, and with what outside outcomes. -/
def allocRun (payloadOf : Nat → TagPayload) : AllocWorld → List (Nat × AllocOracle) →
    Option AllocWorld
  | w, [] => some w
  | w, (t, o) :: rest => (allocStep (payloadOf t) o w t).bind fun w' => allocRun payloadOf w' rest

/-- A world whose tag rows are consistent, after a run from the rows `rows₀`: no primary tag has
two rows, and a writer that returned `SUCCESS` holds the ids of the one row of its primary tag
when its payload carries tags or its tag had a row in `rows₀`. -/
def TagRowsConsistent (payloadOf : Nat → TagPayload) (rows₀ : List TagRow) (w : AllocWorld) : Prop :=
  (w.rows.map (·.primaryTag)).Nodup ∧
    ∀ t ids, w.pc t = .done .success (some ids) →
      ((payloadOf t).flag ≠ .dataOnly ∨ (payloadOf t).primaryTag ∈ rows₀.map (·.primaryTag)) →
      w.rows.filter (fun r => decide (r.primaryTag = (payloadOf t).primaryTag)) =
        [⟨(payloadOf t).primaryTag, ids⟩]

section Lookup

variable {rows : List TagRow} {tag : List UInt8} {ids : EntityIds}

theorem getEntityIdGroupId_eq_none_iff :
    getEntityIdGroupId rows tag = none ↔ tag ∉ rows.map (·.primaryTag) := by
  simp [getEntityIdGroupId, List.find?_eq_none]

/-- A tag with a row in a prefix of the rows has a row in them. -/
theorem getEntityIdGroupId_ne_none_of_grows {rows₀ : List TagRow} (hpre : rows₀ <+: rows)
    (hmem : tag ∈ rows₀.map (·.primaryTag)) : getEntityIdGroupId rows tag ≠ none := by
  rw [Ne, getEntityIdGroupId_eq_none_iff, not_not]
  obtain ⟨r, hr, rfl⟩ := List.mem_map.mp hmem
  exact List.mem_map_of_mem _ (hpre.subset hr)

/-- Appending rows never changes a hit. -/
theorem getEntityIdGroupId_append_of_some (extra : List TagRow)
    (h : getEntityIdGroupId rows tag = some ids) :
    getEntityIdGroupId (rows ++ extra) tag = some ids := by
  obtain ⟨r, hr, rfl⟩ := Option.map_eq_some'.mp h
  simp [getEntityIdGroupId, List.find?_append, hr]

/-- A row appended for a tag with no row is what the lookup then finds. -/
theorem getEntityIdGroupId_append_new (h : getEntityIdGroupId rows tag = none) :
    getEntityIdGroupId (rows ++ [⟨tag, ids⟩]) tag = some ids := by
  have h' : (rows.find? fun r => decide (r.primaryTag = tag)) = none := by
    simpa [getEntityIdGroupId] using h
  simp [getEntityIdGroupId, List.find?_append, h']

/-- With one row per tag, the row found is the only one of its tag. -/
theorem filter_eq_of_getEntityIdGroupId (hnd : (rows.map (·.primaryTag)).Nodup)
    (h : getEntityIdGroupId rows tag = some ids) :
    rows.filter (fun r => decide (r.primaryTag = tag)) = [⟨tag, ids⟩] := by
  induction rows with
  | nil => simp [getEntityIdGroupId] at h
  | cons r rs ih =>
    rw [List.map_cons, List.nodup_cons] at hnd
    by_cases hr : r.primaryTag = tag
    · have hids : r.ids = ids := by simpa [getEntityIdGroupId, hr] using h
      have hrest : rs.filter (fun r => decide (r.primaryTag = tag)) = [] := by
        rw [List.filter_eq_nil_iff]
        intro r' hr'
        have : r'.primaryTag ∈ rs.map (·.primaryTag) := List.mem_map_of_mem _ hr'
        simp only [decide_eq_true_eq]
        rintro rfl
        exact hnd.1 (hr ▸ this)
      rw [List.filter_cons_of_pos (by simpa using hr), hrest, ← hr, ← hids]
    · rw [List.filter_cons_of_neg (by simpa using hr)]
      exact ih hnd.2 (by simpa [getEntityIdGroupId, hr] using h)

end Lookup

/-! ## The invariant -/

/-- What must hold of writer `t` at `p`, for its payload, the rows, the rows `rows₀` the run
started from and the owner of the lock. -/
def PcOk (rows₀ : List TagRow) (payload : TagPayload) (rows : List TagRow) (owner : Option Nat)
    (t : Nat) (p : AllocPc) : Prop :=
  (p.holdsMutex → owner = some t) ∧
    (p.afterMiss → getEntityIdGroupId rows payload.primaryTag = none) ∧
    ∀ ids, p = .done .success (some ids) →
      (payload.flag ≠ .dataOnly ∨ payload.primaryTag ∈ rows₀.map (·.primaryTag)) →
      getEntityIdGroupId rows payload.primaryTag = some ids

/-- Every writer is where `PcOk` allows, no tag has two rows, and the rows extend `rows₀`. -/
structure AllocInv (payloadOf : Nat → TagPayload) (rows₀ : List TagRow) (w : AllocWorld) : Prop where
  pcOk : ∀ t, PcOk rows₀ (payloadOf t) w.rows w.owner t (w.pc t)
  unique : (w.rows.map (·.primaryTag)).Nodup
  grows : rows₀ <+: w.rows

section Preservation

variable {payloadOf : Nat → TagPayload} {rows₀ : List TagRow} {w : AllocWorld} {t : Nat}

theorem allocInv_init (h : (rows₀.map (·.primaryTag)).Nodup) :
    AllocInv payloadOf rows₀ (initWorld rows₀) :=
  ⟨fun _ => ⟨by simp [AllocPc.holdsMutex, initWorld], by simp [AllocPc.afterMiss, initWorld],
    by simp [initWorld]⟩, h, List.prefix_refl _⟩

/-- Only the owner of the lock holds it. -/
theorem AllocInv.not_holdsMutex (hw : AllocInv payloadOf rows₀ w) {t' : Nat} (ho : w.owner = some t)
    (ht : t' ≠ t) : (w.pc t').holdsMutex = false := by
  by_contra h
  have := (hw.pcOk t').1 (by simpa using h)
  rw [ho] at this
  exact ht (Option.some.inj this).symm

/-- Moving one writer keeps the invariant when its new place is allowed. -/
theorem AllocInv.setPc (hw : AllocInv payloadOf rows₀ w) {p : AllocPc}
    (hp : PcOk rows₀ (payloadOf t) w.rows w.owner t p) : AllocInv payloadOf rows₀ (w.setPc t p) := by
  refine ⟨fun t' => ?_, hw.unique, hw.grows⟩
  by_cases h : t' = t
  · subst h; simpa using hp
  · simpa [h] using hw.pcOk t'

/-- The owner releasing the lock keeps the invariant when its new place is allowed. -/
theorem AllocInv.release (hw : AllocInv payloadOf rows₀ w) (ho : w.owner = some t) {p : AllocPc}
    (hp : PcOk rows₀ (payloadOf t) w.rows none t p) :
    AllocInv payloadOf rows₀ { w.setPc t p with owner := none } := by
  refine ⟨fun t' => ?_, hw.unique, hw.grows⟩
  by_cases h : t' = t
  · subst h; simpa using hp
  · have hok := hw.pcOk t'
    simp only [AllocWorld.setPc_pc, h, if_false]
    exact ⟨fun h' => by simp [hw.not_holdsMutex ho h] at h', hok.2⟩

/-- A writer taking the free lock keeps the invariant. -/
theorem AllocInv.acquire (hw : AllocInv payloadOf rows₀ w) (ho : w.owner = none) :
    AllocInv payloadOf rows₀ { w.setPc t .locked with owner := some t } := by
  refine ⟨fun t' => ?_, hw.unique, hw.grows⟩
  by_cases h : t' = t
  · subst h; simp [PcOk, AllocPc.holdsMutex, AllocPc.afterMiss]
  · have hok := hw.pcOk t'
    simp only [AllocWorld.setPc_pc, h, if_false]
    refine ⟨fun h' => ?_, hok.2⟩
    have := hok.1 h'
    rw [ho] at this
    cases this

/-- The owner inserting the row for a tag with no row keeps the invariant. -/
theorem AllocInv.insert (hw : AllocInv payloadOf rows₀ w) (ho : w.owner = some t) {ids : EntityIds}
    (hmiss : getEntityIdGroupId w.rows (payloadOf t).primaryTag = none) :
    AllocInv payloadOf rows₀ ⟨w.rows ++ [⟨(payloadOf t).primaryTag, ids⟩], none,
      Function.update w.pc t (.done .success (some ids))⟩ := by
  refine ⟨fun t' => ?_, ?_, hw.grows.trans (List.prefix_append _ _)⟩
  · by_cases h : t' = t
    · subst h
      simp [PcOk, AllocPc.holdsMutex, AllocPc.afterMiss, getEntityIdGroupId_append_new hmiss]
    · have hok := hw.pcOk t'
      have hnh := hw.not_holdsMutex ho h
      have hnm : (w.pc t').afterMiss = false := by
        cases hp : w.pc t' <;> simp_all [AllocPc.holdsMutex, AllocPc.afterMiss]
      simp only [Function.update_noteq h]
      exact ⟨by simp [hnh], by simp [hnm],
        fun ids' hd hf => getEntityIdGroupId_append_of_some _ (hok.2.2 ids' hd hf)⟩
  · rw [List.map_append, List.nodup_append]
    exact ⟨hw.unique, List.nodup_singleton _, by
      simpa [List.disjoint_singleton] using getEntityIdGroupId_eq_none_iff.mp hmiss⟩

/-- Each step keeps the invariant. -/
theorem allocInv_step (hw : AllocInv payloadOf rows₀ w) {o : AllocOracle} {w' : AllocWorld}
    (hs : allocStep (payloadOf t) o w t = some w') : AllocInv payloadOf rows₀ w' := by
  have hok := hw.pcOk t
  unfold allocStep at hs
  split at hs
  · -- start: the unlocked lookup
    split at hs <;> cases hs
    · exact hw.setPc ⟨by simp [AllocPc.holdsMutex], by simp [AllocPc.afterMiss], by simp_all⟩
    · exact hw.setPc ⟨by simp [AllocPc.holdsMutex], by simp [AllocPc.afterMiss], by simp⟩
  · -- waitLock: take the free lock
    split at hs <;> cases hs
    exact hw.acquire ‹_›
  · -- locked: the lookup under the lock
    rename_i hpc
    have ho := hok.1 (by simp [hpc, AllocPc.holdsMutex])
    split at hs <;> cases hs
    · exact hw.release ho ⟨by simp [AllocPc.holdsMutex], by simp [AllocPc.afterMiss], by simp_all⟩
    · exact hw.setPc ⟨fun _ => ho, fun _ => ‹_›, by simp⟩
  · -- allocate: AllocateEntity
    rename_i hpc
    have ho := hok.1 (by simp [hpc, AllocPc.holdsMutex])
    have hmiss := hok.2.1 (by simp [hpc, AllocPc.afterMiss])
    split at hs <;> cases hs
    · exact hw.release ho ⟨by simp [AllocPc.holdsMutex], by simp [AllocPc.afterMiss], by simp⟩
    · exact hw.setPc ⟨fun _ => ho, fun _ => hmiss, by simp⟩
  · -- putTag: putTagData, then unlock
    rename_i ids hpc
    have ho := hok.1 (by simp [hpc, AllocPc.holdsMutex])
    have hmiss := hok.2.1 (by simp [hpc, AllocPc.afterMiss])
    unfold putTagData at hs
    split_ifs at hs with hflag hins <;> cases hs
    · exact hw.insert ho hmiss
    · exact hw.release ho ⟨by simp [AllocPc.holdsMutex], by simp [AllocPc.afterMiss], by simp⟩
    · -- a `DATA_ONLY` payload: no row is inserted, and its tag had none in `rows₀` either
      refine hw.release ho ⟨by simp [AllocPc.holdsMutex], by simp [AllocPc.afterMiss], ?_⟩
      rintro _ _ (hf | hmem)
      · cases hp : (payloadOf t).flag <;> simp_all
      · exact absurd hmiss (getEntityIdGroupId_ne_none_of_grows hw.grows hmem)
  · cases hs

/-- `putTagData` at most appends a row. -/
theorem putTagData_appends_rows (rows : List TagRow) (payload : TagPayload) (ids : EntityIds)
    (insertOk : Bool) : rows <+: (putTagData rows payload ids insertOk).2 := by
  unfold putTagData
  split_ifs <;> simp

/-- A step at most appends a row. -/
theorem allocStep_appends_rows {payload : TagPayload} {o : AllocOracle} {w' : AllocWorld}
    (hs : allocStep payload o w t = some w') : w.rows <+: w'.rows := by
  unfold allocStep at hs
  split at hs
  case h_5 ids _ =>
    have := putTagData_appends_rows w.rows payload ids o.insertOk
    split at hs <;> cases hs <;> simp_all
  all_goals (repeat' split at hs) <;> cases hs <;> exact List.prefix_refl _

/-- Every run of the schedule keeps the invariant. -/
theorem allocInv_run (hw : AllocInv payloadOf rows₀ w) {sched : List (Nat × AllocOracle)}
    {w' : AllocWorld} (hrun : allocRun payloadOf w sched = some w') : AllocInv payloadOf rows₀ w' := by
  induction sched generalizing w with
  | nil => cases hrun; exact hw
  | cons step rest ih =>
    obtain ⟨t, o⟩ := step
    obtain ⟨w₁, hs, hrest⟩ := Option.bind_eq_some.mp hrun
    exact ih (allocInv_step hw hs) hrest

end Preservation

/-- Under any schedule of writers over a tag table with one row per primary tag, the rows are
only appended to, no primary tag gets a second row, and every writer that returned `SUCCESS`
holds the ids of the one row of its primary tag, whatever its payload's flag when that tag had a
row before the run, and for a `DATA_AND_TAG` or `TAG_ONLY` payload in any case. -/
theorem allocateEntityGroupId_single_tag_row {payloadOf : Nat → TagPayload}
    {rows₀ : List TagRow} {sched : List (Nat × AllocOracle)} {w : AllocWorld}
    (h0 : (rows₀.map (·.primaryTag)).Nodup)
    (hrun : allocRun payloadOf (initWorld rows₀) sched = some w) :
    rows₀ <+: w.rows ∧ TagRowsConsistent payloadOf rows₀ w := by
  have hw := allocInv_run (allocInv_init h0) hrun
  refine ⟨hw.grows, hw.unique, fun t ids hd hf => ?_⟩
  exact filter_eq_of_getEntityIdGroupId hw.unique ((hw.pcOk t).2.2 ids hd hf)

/-- Two writers of one new tag race: both miss without the lock, the first allocates and
inserts, the second finds its row under the lock. -/
def racingWriters : Nat → TagPayload := fun _ => ⟨[1], .dataAndTag⟩

/-- The schedule of the race; the outcomes only matter at the first writer's allocation. -/
def racingSchedule : List (Nat × AllocOracle) :=
  [(0, ⟨none, true⟩), (1, ⟨none, true⟩), (0, ⟨none, true⟩), (0, ⟨none, true⟩),
    (0, ⟨some ⟨5, 1⟩, true⟩), (0, ⟨none, true⟩), (1, ⟨none, true⟩), (1, ⟨none, true⟩)]

theorem allocateEntityGroupId_single_tag_row_racing :
    ∃ w, allocRun racingWriters (initWorld []) racingSchedule = some w ∧
      [] <+: w.rows ∧ TagRowsConsistent racingWriters [] w :=
  let ⟨w, hw⟩ : ∃ w, allocRun racingWriters (initWorld []) racingSchedule = some w := ⟨_, rfl⟩
  ⟨w, hw, allocateEntityGroupId_single_tag_row List.nodup_nil hw⟩

/-- Two `DATA_ONLY` writers of one tag that has no row. -/
def dataOnlyWriters : Nat → TagPayload := fun _ => ⟨[1], .dataOnly⟩

/-- Each writer in turn runs to its return; `AllocateEntity` gives each fresh ids. -/
def dataOnlySchedule : List (Nat × AllocOracle) :=
  [(0, ⟨none, true⟩), (0, ⟨none, true⟩), (0, ⟨none, true⟩), (0, ⟨some ⟨5, 1⟩, true⟩),
    (0, ⟨none, true⟩), (1, ⟨none, true⟩), (1, ⟨none, true⟩), (1, ⟨none, true⟩),
    (1, ⟨some ⟨6, 1⟩, true⟩), (1, ⟨none, true⟩)]

/-- A `DATA_ONLY` payload whose tag has no row gets fresh ids that `putTagData` stores nowhere: two
such writers in turn both return `SUCCESS`, with different ids, and the tag table stays empty. -/
theorem allocateEntityGroupId_data_only_returns_unstored_ids :
    ∃ w, allocRun dataOnlyWriters (initWorld []) dataOnlySchedule = some w ∧
      w.pc 0 = .done .success (some ⟨5, 1⟩) ∧ w.pc 1 = .done .success (some ⟨6, 1⟩) ∧
      w.rows = [] :=
  ⟨_, rfl, rfl, rfl, rfl⟩

end KwdbTs.Storage
