import Mathlib
import KwdbTs.Storage.Basic

/-!
# The entity groups of a table

A `TsTable` keeps the entity groups of its range groups in `entity_groups_`, an `unordered_map`
from a range group's id to the `TsEntityGroup` that stores the range's entities (ts_table.cpp).
The table's methods find a group by id (`GetEntityGroup`, and `PutData` and the deletes, which
hand the request on to the group), add one (`CreateEntityGroup`), change its type
(`UpdateEntityGroup`) or take it out (`DropEntityGroup`, which puts the group back when its
`Drop` fails).

The map is a list of entries in its iteration order. Two facts about it hold in every state the
methods reach (`WellKeyed`): no id has two entries, and each group sits under the id of its own
`HashRange()`. Every method keeps them (`createEntityGroup_wellKeyed` and the lemmas after it),
and on a map that has them each method acts on the lookups as the plain map operation it stands
for (`lookup_createEntityGroup`, `lookup_dropEntityGroup`, ...): a failed request leaves every
lookup as it was, a failed drop included.
-/

namespace KwdbTs.Storage

/-- The `EntityGroupType` of a range group on this node. -/
inductive EntityGroupType
  | leader
  | follower
  | uninitialized
  deriving Repr, DecidableEq

/-- A `RangeGroup`: the id of a range group and its type. -/
structure RangeGroup where
  rangeGroupId : Nat
  typ : EntityGroupType
  deriving Repr, DecidableEq

/-- A `TsEntityGroup` as its table sees it: its `HashRange()`, and the storage of its entities,
which only the group's own methods read and write. -/
structure EntityGroup (σ : Type) where
  hashRange : RangeGroup
  store : σ
  deriving Repr, DecidableEq

/-- The state of a `TsTable` its entity-group methods read and write: whether `entity_bt_` is
set, and the entries of `entity_groups_` in the map's iteration order. -/
structure TsTable (σ : Type) where
  entityBt : Bool
  entityGroups : List (Nat × EntityGroup σ)
  deriving Repr, DecidableEq

section Registry

variable {σ : Type}

/-! ## The map operations -/

/-- `entity_groups_.find(id)`: the group of the entry of `id`. -/
def findGroup (groups : List (Nat × EntityGroup σ)) (id : Nat) : Option (EntityGroup σ) :=
  groups.lookup id

/-- A change made through `it->second` to the group of the entry of `id`. -/
def modifyGroup (groups : List (Nat × EntityGroup σ)) (id : Nat)
    (f : EntityGroup σ → EntityGroup σ) : List (Nat × EntityGroup σ) :=
  groups.map fun e => if e.1 = id then (e.1, f e.2) else e

/-- `entity_groups_[id] = g`: the entry of `id` takes `g`, or a new entry is added. -/
def setGroup (groups : List (Nat × EntityGroup σ)) (id : Nat) (g : EntityGroup σ) :
    List (Nat × EntityGroup σ) :=
  if (findGroup groups id).isSome then modifyGroup groups id fun _ => g else groups ++ [(id, g)]

/-- `entity_groups_.erase(it)`, `it` the entry of `id`. -/
def eraseGroup (groups : List (Nat × EntityGroup σ)) (id : Nat) : List (Nat × EntityGroup σ) :=
  groups.eraseP fun e => e.1 == id

/-- The ids of the entries. -/
def groupIds (groups : List (Nat × EntityGroup σ)) : List Nat :=
  groups.map Prod.fst

theorem findGroup_cons (k id : Nat) (g : EntityGroup σ) (groups : List (Nat × EntityGroup σ)) :
    findGroup ((k, g) :: groups) id = if id = k then some g else findGroup groups id := by
  simp only [findGroup, List.lookup_cons]
  split <;> simp_all

theorem findGroup_eq_none {groups : List (Nat × EntityGroup σ)} {id : Nat} :
    findGroup groups id = none ↔ id ∉ groupIds groups := by
  simp only [findGroup, List.lookup_eq_none_iff, groupIds, List.mem_map, bne_iff_ne, ne_eq,
    not_exists, not_and]
  exact ⟨fun h p hp he => h p hp he.symm, fun h p hp he => h p hp he.symm⟩

theorem mem_findGroup {groups : List (Nat × EntityGroup σ)} {id : Nat} {g : EntityGroup σ}
    (h : findGroup groups id = some g) : (id, g) ∈ groups := by
  obtain ⟨l₁, l₂, rfl, -⟩ := List.lookup_eq_some_iff.mp h
  simp

theorem findGroup_modifyGroup (groups : List (Nat × EntityGroup σ)) (id k : Nat)
    (f : EntityGroup σ → EntityGroup σ) :
    findGroup (modifyGroup groups id f) k =
      if k = id then (findGroup groups id).map f else findGroup groups k := by
  induction groups with
  | nil => simp [modifyGroup, findGroup]
  | cons e es ih =>
    obtain ⟨k', g⟩ := e
    simp only [modifyGroup, List.map_cons] at ih ⊢
    by_cases hk : k' = id
    · subst hk
      simp only [if_true, findGroup_cons, ih]
      split_ifs <;> simp_all
    · simp only [hk, if_false, findGroup_cons, ih]
      split_ifs <;> simp_all

@[simp] theorem groupIds_modifyGroup (groups : List (Nat × EntityGroup σ)) (id : Nat)
    (f : EntityGroup σ → EntityGroup σ) : groupIds (modifyGroup groups id f) = groupIds groups := by
  simp only [groupIds, modifyGroup, List.map_map]
  congr 1
  funext e
  by_cases h : e.1 = id <;> simp [h]

theorem findGroup_setGroup (groups : List (Nat × EntityGroup σ)) (id k : Nat) (g : EntityGroup σ) :
    findGroup (setGroup groups id g) k = if k = id then some g else findGroup groups k := by
  unfold setGroup
  split_ifs with hin hk hk
  · obtain ⟨g', hg'⟩ := Option.isSome_iff_exists.mp hin
    simp [findGroup_modifyGroup, hk, hg']
  · simp [findGroup_modifyGroup, hk]
  · have hnone : groups.lookup id = none := Option.not_isSome_iff_eq_none.mp hin
    simp [findGroup, List.lookup_append, hk, hnone]
  · have hne : (k == id) = false := beq_eq_false_iff_ne.mpr hk
    simp [findGroup, List.lookup_append, List.lookup_cons, hne]

theorem groupIds_setGroup (groups : List (Nat × EntityGroup σ)) (id : Nat) (g : EntityGroup σ) :
    groupIds (setGroup groups id g) =
      if id ∈ groupIds groups then groupIds groups else groupIds groups ++ [id] := by
  have hin : (findGroup groups id).isSome ↔ id ∈ groupIds groups := by
    rw [← not_iff_not, Option.not_isSome_iff_eq_none, findGroup_eq_none]
  unfold setGroup
  by_cases h : id ∈ groupIds groups
  · simp [hin.mpr h, h]
  · rw [if_neg (hin.not.mpr h), if_neg h]
    simp [groupIds]

theorem findGroup_eraseGroup {groups : List (Nat × EntityGroup σ)} (h : (groupIds groups).Nodup)
    (id k : Nat) : findGroup (eraseGroup groups id) k = if k = id then none else findGroup groups k := by
  induction groups with
  | nil => simp [eraseGroup, findGroup]
  | cons e es ih =>
    obtain ⟨k', g⟩ := e
    simp only [groupIds, List.map_cons, List.nodup_cons] at h
    simp only [eraseGroup, List.eraseP_cons] at ih ⊢
    by_cases hk : k' = id
    · subst hk
      simp only [beq_self_eq_true, cond_true, findGroup_cons]
      split_ifs with hkk
      · exact findGroup_eq_none.mpr (hkk ▸ h.1)
      · rfl
    · have hne : (k' == id) = false := by simpa using hk
      simp only [hne, cond_false, findGroup_cons, ih h.2]
      split_ifs <;> first | rfl | (exfalso; omega)

theorem groupIds_eraseGroup (groups : List (Nat × EntityGroup σ)) (id : Nat) :
    groupIds (eraseGroup groups id) = (groupIds groups).erase id := by
  induction groups with
  | nil => rfl
  | cons e es ih =>
    simp only [eraseGroup, groupIds, List.eraseP_cons, List.map_cons, List.erase_cons] at ih ⊢
    by_cases hk : e.1 = id
    · simp [hk]
    · simp [beq_eq_false_iff_ne.mpr hk, hk, ih]

theorem mem_modifyGroup {groups : List (Nat × EntityGroup σ)} {id : Nat}
    {f : EntityGroup σ → EntityGroup σ} {e : Nat × EntityGroup σ} (he : e ∈ modifyGroup groups id f) :
    (∃ g, (id, g) ∈ groups ∧ e = (id, f g)) ∨ (e ∈ groups ∧ e.1 ≠ id) := by
  simp only [modifyGroup, List.mem_map] at he
  obtain ⟨e', he', rfl⟩ := he
  by_cases hk : e'.1 = id
  · exact .inl ⟨e'.2, hk ▸ he', by simp [hk]⟩
  · exact .inr (by simp [hk, he'])

theorem mem_setGroup {groups : List (Nat × EntityGroup σ)} {id : Nat} {g : EntityGroup σ}
    {e : Nat × EntityGroup σ} (he : e ∈ setGroup groups id g) : e = (id, g) ∨ e ∈ groups := by
  unfold setGroup at he
  split_ifs at he
  · rcases mem_modifyGroup he with ⟨_, _, rfl⟩ | ⟨he, -⟩
    · exact .inl rfl
    · exact .inr he
  · simpa [or_comm] using he

/-! ## The invariant of the map -/

/-- What holds of `entity_groups_` in every state: one entry per id, and each group under the
id of its own `HashRange()`. -/
structure WellKeyed (groups : List (Nat × EntityGroup σ)) : Prop where
  nodup : (groupIds groups).Nodup
  keyed : ∀ e ∈ groups, e.2.hashRange.rangeGroupId = e.1

theorem WellKeyed.nil : WellKeyed ([] : List (Nat × EntityGroup σ)) :=
  ⟨List.nodup_nil, by simp⟩

theorem WellKeyed.modifyGroup {groups : List (Nat × EntityGroup σ)} (h : WellKeyed groups)
    {id : Nat} {f : EntityGroup σ → EntityGroup σ}
    (hf : ∀ g, (f g).hashRange.rangeGroupId = g.hashRange.rangeGroupId) :
    WellKeyed (modifyGroup groups id f) := by
  refine ⟨by simpa using h.nodup, fun e he => ?_⟩
  rcases mem_modifyGroup he with ⟨g, hg, rfl⟩ | ⟨he, -⟩
  · rw [hf]; exact h.keyed _ hg
  · exact h.keyed e he

theorem WellKeyed.setGroup {groups : List (Nat × EntityGroup σ)} (h : WellKeyed groups)
    {id : Nat} {g : EntityGroup σ} (hg : g.hashRange.rangeGroupId = id) :
    WellKeyed (setGroup groups id g) := by
  refine ⟨?_, fun e he => ?_⟩
  · rw [groupIds_setGroup]
    split_ifs with hin
    · exact h.nodup
    · exact List.nodup_append.mpr ⟨h.nodup, List.nodup_singleton id, by simpa using hin⟩
  · rcases mem_setGroup he with rfl | he
    · exact hg
    · exact h.keyed e he

theorem WellKeyed.eraseGroup {groups : List (Nat × EntityGroup σ)} (h : WellKeyed groups)
    (id : Nat) : WellKeyed (eraseGroup groups id) :=
  ⟨by rw [groupIds_eraseGroup]; exact h.nodup.erase id,
    fun e he => h.keyed e (List.mem_of_mem_eraseP he)⟩

/-- The invariant reads only the ids and ranges of the entries. -/
theorem WellKeyed.of_ranges {groups groups' : List (Nat × EntityGroup σ)} (h : WellKeyed groups)
    (hr : groups'.map (fun e => (e.1, e.2.hashRange)) = groups.map fun e => (e.1, e.2.hashRange)) :
    WellKeyed groups' := by
  have hids : groupIds groups' = groupIds groups := by
    simpa [groupIds, List.map_map, Function.comp_def] using congrArg (List.map Prod.fst) hr
  refine ⟨hids ▸ h.nodup, fun e he => ?_⟩
  have hmem : (e.1, e.2.hashRange) ∈ groups.map fun e => (e.1, e.2.hashRange) :=
    hr ▸ List.mem_map_of_mem _ he
  obtain ⟨e', he', heq⟩ := List.mem_map.mp hmem
  simp only [Prod.mk.injEq] at heq
  rw [← heq.1, ← heq.2]
  exact h.keyed e' he'

/-! ## The methods -/

/-- `TsTable::CreateEntityGroup`: `mkdir` is what `MakeDirectory` returns for the group's
directory, and `create` what the new group's `Create` returns, with the storage it made. -/
def TsTable.createEntityGroup (t : TsTable σ) (range : RangeGroup) (mkdir : Bool) (groupCreate : KStatus × σ) :
    KStatus × TsTable σ :=
  if !t.entityBt then (.fail, t)
  else if (findGroup t.entityGroups range.rangeGroupId).isSome then (.fail, t)
  else if !mkdir then (.fail, t)
  else match groupCreate with
    | (.fail, _) => (.fail, t)
    | (.success, st) =>
      (.success, { t with entityGroups := setGroup t.entityGroups range.rangeGroupId ⟨range, st⟩ })

/-- `TsTable::UpdateEntityGroup`: the group of `range`'s id takes `range`'s type. -/
def TsTable.updateEntityGroup (t : TsTable σ) (range : RangeGroup) : KStatus × TsTable σ :=
  if !t.entityBt then (.fail, t)
  else if (findGroup t.entityGroups range.rangeGroupId).isNone then (.fail, t)
  else (.success, { t with entityGroups := modifyGroup t.entityGroups range.rangeGroupId
                              fun g => { g with hashRange := { g.hashRange with typ := range.typ } } })

/-- `TsTable::GetEntityGroup`: the group `*entity_group` is set to, if any. -/
def TsTable.getEntityGroup (t : TsTable σ) (id : Nat) : KStatus × Option (EntityGroup σ) :=
  if !t.entityBt then (.fail, none)
  else match findGroup t.entityGroups id with
    | some g => (.success, some g)
    | none => (.fail, none)

/-- `TsTable::DropEntityGroup`: the entry is erased before the group's `Drop` runs, and put back,
with the storage `Drop` left, when it fails. -/
def TsTable.dropEntityGroup (t : TsTable σ) (id : Nat) (drop : σ → KStatus × σ) : KStatus × TsTable σ :=
  if !t.entityBt then (.fail, t)
  else match findGroup t.entityGroups id with
    | none => (.fail, t)
    | some g =>
      match drop g.store with
      | (.fail, st) =>
        (.fail, { t with entityGroups := setGroup (eraseGroup t.entityGroups id) id { g with store := st } })
      | (.success, _) => (.success, { t with entityGroups := eraseGroup t.entityGroups id })

/-- The methods that hand a request on to the group of `id` and return what it returns:
`checkBt` says whether the method first checks `entity_bt_`, `act` is the group's method, with
the storage it leaves. -/
def TsTable.dispatchGroup (checkBt : Bool) (t : TsTable σ) (id : Nat) (act : σ → KStatus × σ) :
    KStatus × TsTable σ :=
  if checkBt && !t.entityBt then (.fail, t)
  else match findGroup t.entityGroups id with
    | none => (.fail, t)
    | some g =>
      let r := act g.store
      (r.1, { t with entityGroups := modifyGroup t.entityGroups id fun g => { g with store := r.2 } })

/-- `TsTable::PutData`: `put` is the group's `PutData` of the payloads. -/
def TsTable.putData (t : TsTable σ) (id : Nat) (put : σ → KStatus × σ) : KStatus × TsTable σ :=
  TsTable.dispatchGroup true t id put

/-- `TsTable::DeleteRangeEntities`, the one of these methods that does not check `entity_bt_`. -/
def TsTable.deleteRangeEntities (t : TsTable σ) (id : Nat) (del : σ → KStatus × σ) : KStatus × TsTable σ :=
  TsTable.dispatchGroup false t id del

/-- The body of `DeleteRangeData` and `DeleteData`: the group is found through `GetEntityGroup`,
and `FAIL` from its method is passed on, anything else returned as `SUCCESS`. -/
def TsTable.viaGetEntityGroup (t : TsTable σ) (id : Nat) (act : σ → KStatus × σ) : KStatus × TsTable σ :=
  match TsTable.getEntityGroup t id with
  | (.fail, _) => (.fail, t)
  | (.success, none) => (.fail, t)
  | (.success, some g) =>
    let r := act g.store
    (match r.1 with | .fail => .fail | .success => .success,
      { t with entityGroups := modifyGroup t.entityGroups id fun g => { g with store := r.2 } })

/-- `TsTable::DeleteRangeData`: `del` is the group's `DeleteRangeData` of the hash span. -/
def TsTable.deleteRangeData (t : TsTable σ) (id : Nat) (del : σ → KStatus × σ) : KStatus × TsTable σ :=
  TsTable.viaGetEntityGroup t id del

/-- `TsTable::DeleteData`: `del` is the group's `DeleteData` of the primary tag. -/
def TsTable.deleteData (t : TsTable σ) (id : Nat) (del : σ → KStatus × σ) : KStatus × TsTable σ :=
  TsTable.viaGetEntityGroup t id del

@[simp] theorem updateEntityGroup_entityBt (t : TsTable σ) (range : RangeGroup) :
    (TsTable.updateEntityGroup t range).2.entityBt = t.entityBt := by
  unfold TsTable.updateEntityGroup
  split_ifs <;> rfl

@[simp] theorem dropEntityGroup_entityBt (t : TsTable σ) (id : Nat) (drop : σ → KStatus × σ) :
    (TsTable.dropEntityGroup t id drop).2.entityBt = t.entityBt := by
  unfold TsTable.dropEntityGroup
  split_ifs
  · rfl
  · cases findGroup t.entityGroups id with
    | none => rfl
    | some g =>
      dsimp only
      split <;> rfl

@[simp] theorem dispatchGroup_entityBt (checkBt : Bool) (t : TsTable σ) (id : Nat)
    (act : σ → KStatus × σ) : (TsTable.dispatchGroup checkBt t id act).2.entityBt = t.entityBt := by
  unfold TsTable.dispatchGroup
  split_ifs
  · rfl
  · cases findGroup t.entityGroups id <;> rfl

theorem updateEntityGroup_of_not_entityBt {t : TsTable σ} (h : t.entityBt = false) (range : RangeGroup) :
    TsTable.updateEntityGroup t range = (.fail, t) := by
  simp [TsTable.updateEntityGroup, h]

theorem dropEntityGroup_of_not_entityBt {t : TsTable σ} (h : t.entityBt = false) (id : Nat)
    (drop : σ → KStatus × σ) : TsTable.dropEntityGroup t id drop = (.fail, t) := by
  simp [TsTable.dropEntityGroup, h]

theorem dispatchGroup_of_nil {t : TsTable σ} (h : t.entityGroups = []) (checkBt : Bool) (id : Nat)
    (act : σ → KStatus × σ) : TsTable.dispatchGroup checkBt t id act = (.fail, t) := by
  unfold TsTable.dispatchGroup
  split_ifs
  · rfl
  · simp [h, findGroup]

/-- Going through `GetEntityGroup` is the checked hand-on. -/
theorem viaGetEntityGroup_eq (t : TsTable σ) (id : Nat) (act : σ → KStatus × σ) :
    TsTable.viaGetEntityGroup t id act = TsTable.dispatchGroup true t id act := by
  unfold TsTable.viaGetEntityGroup TsTable.dispatchGroup TsTable.getEntityGroup
  cases t.entityBt
  · rfl
  · cases findGroup t.entityGroups id with
    | none => rfl
    | some g => rcases h : act g.store with ⟨_ | _, st⟩ <;> simp [h]

/-- The check of `entity_bt_` changes nothing on a table that holds no group without it. -/
theorem dispatchGroup_check_irrel {t : TsTable σ} (h : t.entityBt = false → t.entityGroups = [])
    (id : Nat) (act : σ → KStatus × σ) : TsTable.dispatchGroup false t id act = TsTable.dispatchGroup true t id act := by
  cases hbt : t.entityBt
  · rw [dispatchGroup_of_nil (h hbt), dispatchGroup_of_nil (h hbt)]
  · simp [TsTable.dispatchGroup, hbt]

/-- The lookups of a table: the group of each id. -/
def TsTable.lookup (t : TsTable σ) (id : Nat) : Option (EntityGroup σ) :=
  findGroup t.entityGroups id

/-- `CreateEntityGroup` fails, changing nothing, unless `entity_bt_` is set, the id has no group,
the directory is made and the new group's `Create` succeeds; then the group is added. -/
theorem createEntityGroup_eq (t : TsTable σ) (range : RangeGroup) (mkdir : Bool)
    (groupCreate : KStatus × σ) :
    TsTable.createEntityGroup t range mkdir groupCreate =
      if t.entityBt ∧ (t.lookup range.rangeGroupId).isNone ∧ mkdir ∧ groupCreate.1 = .success then
        (.success, { t with entityGroups := setGroup t.entityGroups range.rangeGroupId ⟨range, groupCreate.2⟩ })
      else (.fail, t) := by
  rcases groupCreate with ⟨_ | _, st⟩ <;> cases hbt : t.entityBt <;> cases mkdir <;>
    cases hg : findGroup t.entityGroups range.rangeGroupId <;>
    simp [TsTable.createEntityGroup, TsTable.lookup, hbt, hg]

/-! ## Every method keeps the invariant -/

section Invariant

variable {t : TsTable σ} (h : WellKeyed t.entityGroups)
include h

theorem createEntityGroup_wellKeyed (range : RangeGroup) (mkdir : Bool) (groupCreate : KStatus × σ) :
    WellKeyed (TsTable.createEntityGroup t range mkdir groupCreate).2.entityGroups := by
  rw [createEntityGroup_eq]
  split_ifs
  · exact h.setGroup rfl
  · exact h

theorem updateEntityGroup_wellKeyed (range : RangeGroup) :
    WellKeyed (TsTable.updateEntityGroup t range).2.entityGroups := by
  unfold TsTable.updateEntityGroup
  split_ifs
  · exact h
  · exact h
  · dsimp only
    exact h.modifyGroup fun _ => rfl

theorem dropEntityGroup_wellKeyed (id : Nat) (drop : σ → KStatus × σ) :
    WellKeyed (TsTable.dropEntityGroup t id drop).2.entityGroups := by
  unfold TsTable.dropEntityGroup
  split_ifs
  · exact h
  · split
    · exact h
    · rename_i g hg
      have hkey : g.hashRange.rangeGroupId = id := h.keyed _ (mem_findGroup hg)
      rcases drop g.store with ⟨_ | _, st⟩
      · exact h.eraseGroup id
      · exact (h.eraseGroup id).setGroup hkey

theorem dispatchGroup_wellKeyed (checkBt : Bool) (id : Nat) (act : σ → KStatus × σ) :
    WellKeyed (TsTable.dispatchGroup checkBt t id act).2.entityGroups := by
  unfold TsTable.dispatchGroup
  split_ifs
  · exact h
  · split
    · exact h
    · dsimp only
      exact h.modifyGroup fun _ => rfl

end Invariant

/-! ## What each method does to the lookups -/

/-- `CreateEntityGroup` adds the new group under its id when it returns `SUCCESS`, and changes no
lookup otherwise. -/
theorem lookup_createEntityGroup (t : TsTable σ) (range : RangeGroup) (mkdir : Bool)
    (groupCreate : KStatus × σ) :
    (TsTable.createEntityGroup t range mkdir groupCreate).2.lookup =
      if (TsTable.createEntityGroup t range mkdir groupCreate).1 = .success then
        Function.update t.lookup range.rangeGroupId (some ⟨range, groupCreate.2⟩)
      else t.lookup := by
  rw [createEntityGroup_eq]
  by_cases hc : t.entityBt ∧ (t.lookup range.rangeGroupId).isNone ∧ mkdir ∧ groupCreate.1 = .success
  · simp only [if_pos hc]
    funext k
    simp [TsTable.lookup, findGroup_setGroup, Function.update_apply]
  · simp [if_neg hc]

/-- `UpdateEntityGroup` changes the type of the group of `range`'s id, and nothing else. -/
theorem lookup_updateEntityGroup (t : TsTable σ) (range : RangeGroup) :
    (TsTable.updateEntityGroup t range).2.lookup =
      if !t.entityBt then t.lookup
      else Function.update t.lookup range.rangeGroupId ((t.lookup range.rangeGroupId).map
        fun g => { g with hashRange := { g.hashRange with typ := range.typ } }) := by
  unfold TsTable.updateEntityGroup
  split_ifs with hbt hnone
  · rfl
  · funext k
    by_cases hk : k = range.rangeGroupId
    · subst hk; simp_all [TsTable.lookup]
    · simp [Function.update_apply, hk]
  · funext k
    by_cases hk : k = range.rangeGroupId <;>
      simp [TsTable.lookup, findGroup_modifyGroup, Function.update_apply, hk]

/-- `DropEntityGroup` removes the group of `id` when its `Drop` succeeds; when it fails, every
lookup is as before, the dropped group back under its id with the storage its `Drop` left. -/
theorem lookup_dropEntityGroup {t : TsTable σ} (h : WellKeyed t.entityGroups) (id : Nat)
    (drop : σ → KStatus × σ) :
    (TsTable.dropEntityGroup t id drop).2.lookup =
      if !t.entityBt then t.lookup
      else match t.lookup id with
        | none => t.lookup
        | some g => Function.update t.lookup id
            (if (drop g.store).1 = .success then none else some { g with store := (drop g.store).2 }) := by
  unfold TsTable.dropEntityGroup
  split_ifs with hbt
  · rfl
  · simp only [TsTable.lookup]
    split
    · rfl
    · rename_i g hg
      funext k
      rcases drop g.store with ⟨_ | _, st⟩
      · simp [TsTable.lookup, findGroup_eraseGroup h.nodup, Function.update_apply]
      · by_cases hk : k = id <;>
          simp [TsTable.lookup, findGroup_setGroup, findGroup_eraseGroup h.nodup, Function.update_apply, hk]

/-- A hand-on to a group changes the storage of that group, whatever the group's method returns,
and nothing else. -/
theorem lookup_dispatchGroup (checkBt : Bool) (t : TsTable σ) (id : Nat) (act : σ → KStatus × σ) :
    (TsTable.dispatchGroup checkBt t id act).2.lookup =
      if checkBt && !t.entityBt then t.lookup
      else Function.update t.lookup id ((t.lookup id).map fun g => { g with store := (act g.store).2 }) := by
  unfold TsTable.dispatchGroup
  split_ifs with hbt
  · rfl
  · funext k
    cases hg : findGroup t.entityGroups id with
    | none => by_cases hk : k = id <;> simp_all [TsTable.lookup, Function.update_apply]
    | some g => by_cases hk : k = id <;> simp_all [TsTable.lookup, findGroup_modifyGroup, Function.update_apply]

end Registry

end KwdbTs.Storage
