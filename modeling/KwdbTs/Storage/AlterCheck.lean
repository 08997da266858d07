import Mathlib
import KwdbTs.Engine.TableIterator
import KwdbTs.Storage.TableWalks
import KwdbTs.Storage.ColumnInfo

/-!
# The data check of `AlterColumnType`

Before a `VARSTRING` metric column is changed to a numeric type, `TsTable::checkAlterValid`
(ts_table.cpp) asks `GetEntityIdList` for the table's entities, files them in
`table_entities`, a `std::map` from entity group id to a `std::map` from sub-group id to entity
ids, and hands each entity group's sub-groups to its `CheckAlterValid`, in key order, stopping at
the first failure.

The filing loop keeps every entity, once, under its own group and sub-group, in the order
`GetEntityIdList` gave them (`tableEntities_lookup`). Since `GetEntityIdList` asks the leaders
only, the check runs on leader groups alone, each at most once, and when it succeeds it has run
on every leader that reported an entity (`checkAlterValid_checks_leaders`).
-/

namespace KwdbTs.Storage

open KwdbTs.Engine (EntityResultIndex)

variable {σ β : Type}

/-! ## `std::map` with sorted keys -/

/-- `m[k]` set through `find` and `operator[]`: `f` receives the value found, if any, and its
result is stored under `k`, the keys kept in increasing order. -/
def mapUpsert (k : Nat) (f : Option β → β) : List (Nat × β) → List (Nat × β)
  | [] => [(k, f none)]
  | (k', v) :: rest =>
    if k < k' then (k, f none) :: (k', v) :: rest
    else if k = k' then (k', f (some v)) :: rest
    else (k', v) :: mapUpsert k f rest

/-- The keys of a map are strictly increasing. -/
def KeysSorted (m : List (Nat × β)) : Prop :=
  (m.map Prod.fst).Sorted (· < ·)

theorem keysSorted_cons {k : Nat} {v : β} {m : List (Nat × β)} :
    KeysSorted ((k, v) :: m) ↔ (∀ e ∈ m, k < e.1) ∧ KeysSorted m := by
  simp only [KeysSorted, List.map_cons, List.sorted_cons, List.forall_mem_map]

theorem lookup_eq_none_of_lt {k : Nat} {m : List (Nat × β)} (h : ∀ e ∈ m, k < e.1) :
    m.lookup k = none :=
  List.lookup_eq_none_iff.mpr fun e he => by simpa using (h e he).ne

/-- An entry after `m[k]` is set is an old one, or the new value under `k`. -/
theorem mem_mapUpsert {k : Nat} {f : Option β → β} {m : List (Nat × β)} {e : Nat × β}
    (he : e ∈ mapUpsert k f m) : e ∈ m ∨ e.1 = k ∧ (e.2 = f none ∨ ∃ v, (k, v) ∈ m ∧ e.2 = f (some v)) := by
  induction m with
  | nil =>
    simp only [mapUpsert, List.mem_singleton] at he
    exact .inr ⟨by rw [he], .inl (by rw [he])⟩
  | cons x m ih =>
    obtain ⟨k', v⟩ := x
    unfold mapUpsert at he
    split_ifs at he with hlt heq
    · rcases List.mem_cons.mp he with rfl | he
      · exact .inr ⟨rfl, .inl rfl⟩
      · exact .inl he
    · subst heq
      rcases List.mem_cons.mp he with rfl | he
      · exact .inr ⟨rfl, .inr ⟨v, List.mem_cons_self _ _, rfl⟩⟩
      · exact .inl (List.mem_cons_of_mem _ he)
    · rcases List.mem_cons.mp he with rfl | he
      · exact .inl (List.mem_cons_self _ _)
      · rcases ih he with he | ⟨hk, hv | ⟨v', hv', hv⟩⟩
        · exact .inl (List.mem_cons_of_mem _ he)
        · exact .inr ⟨hk, .inl hv⟩
        · exact .inr ⟨hk, .inr ⟨v', List.mem_cons_of_mem _ hv', hv⟩⟩

theorem keysSorted_mapUpsert (k : Nat) (f : Option β → β) {m : List (Nat × β)} (h : KeysSorted m) :
    KeysSorted (mapUpsert k f m) := by
  induction m with
  | nil => simp [mapUpsert, KeysSorted]
  | cons x m ih =>
    obtain ⟨k', v⟩ := x
    rw [keysSorted_cons] at h
    unfold mapUpsert
    split_ifs with hlt heq
    · refine keysSorted_cons.mpr ⟨?_, keysSorted_cons.mpr h⟩
      intro e he
      rcases List.mem_cons.mp he with rfl | he
      · exact hlt
      · exact hlt.trans (h.1 e he)
    · exact keysSorted_cons.mpr h
    · refine keysSorted_cons.mpr ⟨fun e he => ?_, ih h.2⟩
      rcases mem_mapUpsert he with he | ⟨hk, -⟩
      · exact h.1 e he
      · omega

theorem lookup_cons_ite (k j : Nat) (v : β) (m : List (Nat × β)) :
    ((k, v) :: m).lookup j = if j = k then some v else m.lookup j := by
  by_cases h : j = k
  · subst h; simp [List.lookup]
  · simp [List.lookup, beq_eq_false_iff_ne.mpr h, h]

/-- The value under `j` after `m[k]` is set: `f` of what was under `k` for `k`, the old one for
every other key. -/
theorem lookup_mapUpsert (k : Nat) (f : Option β → β) {m : List (Nat × β)} (h : KeysSorted m) (j : Nat) :
    (mapUpsert k f m).lookup j = if j = k then some (f (m.lookup k)) else m.lookup j := by
  induction m with
  | nil => simp [mapUpsert, lookup_cons_ite]
  | cons x m ih =>
    obtain ⟨k', v⟩ := x
    rw [keysSorted_cons] at h
    by_cases hlt : k < k'
    · have hnone : m.lookup k = none := lookup_eq_none_of_lt fun e he => hlt.trans (h.1 e he)
      simp only [mapUpsert, if_pos hlt, lookup_cons_ite, if_neg hlt.ne, hnone]
    · by_cases heq : k = k'
      · subst heq
        simp only [mapUpsert, lt_irrefl, if_false, if_true, lookup_cons_ite]
        by_cases hjk : j = k <;> simp [hjk]
      · simp only [mapUpsert, if_neg hlt, if_neg heq, lookup_cons_ite, ih h.2]
        by_cases hjk : j = k
        · subst hjk; simp [heq]
        · simp [hjk]

theorem keys_mapUpsert (k : Nat) (f : Option β → β) (m : List (Nat × β)) (j : Nat) :
    j ∈ (mapUpsert k f m).map Prod.fst ↔ j = k ∨ j ∈ m.map Prod.fst := by
  induction m with
  | nil => simp [mapUpsert]
  | cons x m ih =>
    obtain ⟨k', v⟩ := x
    unfold mapUpsert
    split_ifs with hlt heq
    · simp only [List.map_cons, List.mem_cons]
    · subst heq
      simp only [List.map_cons, List.mem_cons, or_self_left]
    · simp only [List.map_cons, List.mem_cons, ih]
      exact or_left_comm

theorem mem_of_lookup_eq_some {k : Nat} {v : β} {m : List (Nat × β)} (h : m.lookup k = some v) :
    (k, v) ∈ m := by
  obtain ⟨l₁, l₂, rfl, -⟩ := List.lookup_eq_some_iff.mp h
  simp

/-! ## The filing loop -/

/-- One pass of the loop over `entity_list`: a new group gets a map holding the entity's
sub-group, a new sub-group of a known group gets a vector of the entity, and a known sub-group's
vector has the entity appended. -/
def fileEntity (m : List (Nat × List (Nat × List Nat))) (e : EntityResultIndex) :
    List (Nat × List (Nat × List Nat)) :=
  mapUpsert e.entityGroupId
    (fun
      | none => [(e.subGroupId, [e.entityId])]
      | some subs => mapUpsert e.subGroupId (fun | none => [e.entityId] | some ids => ids ++ [e.entityId]) subs)
    m

/-- `table_entities` after the loop over `entity_list`. -/
def tableEntities (entityList : List EntityResultIndex) : List (Nat × List (Nat × List Nat)) :=
  entityList.foldl fileEntity []

/-- The entity ids filed under a group and a sub-group, none when either is missing. -/
def entitiesOf (m : List (Nat × List (Nat × List Nat))) (g s : Nat) : List Nat :=
  ((m.lookup g).bind fun subs => subs.lookup s).getD []

/-- The groups are in increasing order, and so are the sub-groups of each group. -/
structure FiledSorted (m : List (Nat × List (Nat × List Nat))) : Prop where
  groups : KeysSorted m
  subGroups : ∀ e ∈ m, KeysSorted e.2

theorem FiledSorted.fileEntity {m : List (Nat × List (Nat × List Nat))} (h : FiledSorted m)
    (e : EntityResultIndex) : FiledSorted (fileEntity m e) := by
  refine ⟨keysSorted_mapUpsert _ _ h.groups, fun x hx => ?_⟩
  rcases mem_mapUpsert hx with hx | ⟨-, hv | ⟨subs, hsubs, hv⟩⟩
  · exact h.subGroups x hx
  · rw [hv]; simp [KeysSorted]
  · rw [hv]; exact keysSorted_mapUpsert _ _ (h.subGroups _ hsubs)

/-- A pass files the entity under its group and sub-group, after the ids already there, and
changes no other vector. -/
theorem entitiesOf_fileEntity {m : List (Nat × List (Nat × List Nat))} (h : FiledSorted m)
    (e : EntityResultIndex) (g s : Nat) :
    entitiesOf (fileEntity m e) g s =
      entitiesOf m g s ++ if e.entityGroupId = g ∧ e.subGroupId = s then [e.entityId] else [] := by
  unfold entitiesOf fileEntity
  rw [lookup_mapUpsert _ _ h.groups]
  by_cases hg : g = e.entityGroupId
  · subst hg
    cases hlk : m.lookup e.entityGroupId with
    | none => by_cases hs : s = e.subGroupId <;> simp [lookup_cons_ite, hs, eq_comm]
    | some subs =>
      have hsorted : KeysSorted subs := h.subGroups _ (mem_of_lookup_eq_some hlk)
      by_cases hs : s = e.subGroupId
      · subst hs
        cases hsub : subs.lookup e.subGroupId <;> simp [lookup_mapUpsert _ _ hsorted, hsub]
      · simp [lookup_mapUpsert _ _ hsorted, hs, Ne.symm hs]
  · simp [hg, Ne.symm hg]

theorem entitiesOf_foldl_fileEntity (l : List EntityResultIndex) :
    ∀ {m : List (Nat × List (Nat × List Nat))}, FiledSorted m → ∀ g s : Nat,
      FiledSorted (l.foldl fileEntity m) ∧
        entitiesOf (l.foldl fileEntity m) g s =
          entitiesOf m g s ++ (l.filter fun e => e.entityGroupId = g ∧ e.subGroupId = s).map (·.entityId) := by
  induction l with
  | nil => intro m h g s; exact ⟨h, by simp⟩
  | cons e l ih =>
    intro m h g s
    obtain ⟨hs, heq⟩ := ih (h.fileEntity e) g s
    refine ⟨hs, ?_⟩
    rw [List.foldl_cons, heq, entitiesOf_fileEntity h]
    by_cases he : e.entityGroupId = g ∧ e.subGroupId = s <;> simp [he]

theorem keys_foldl_fileEntity (l : List EntityResultIndex) :
    ∀ (m : List (Nat × List (Nat × List Nat))) (g : Nat),
      g ∈ (l.foldl fileEntity m).map Prod.fst ↔ g ∈ m.map Prod.fst ∨ ∃ e ∈ l, e.entityGroupId = g := by
  induction l with
  | nil => simp
  | cons e l ih =>
    intro m g
    rw [List.foldl_cons, ih, fileEntity, keys_mapUpsert]
    simp only [List.mem_cons, exists_eq_or_imp, or_assoc, @eq_comm _ g]
    exact or_left_comm

/-- The filing loop keeps the groups in increasing order, files a group exactly when some entity
belongs to it, and under each group and sub-group holds the ids of its entities, each once, in
the order of `entity_list`. -/
theorem tableEntities_lookup (entityList : List EntityResultIndex) :
    KeysSorted (tableEntities entityList) ∧
      (∀ g, g ∈ (tableEntities entityList).map Prod.fst ↔ ∃ e ∈ entityList, e.entityGroupId = g) ∧
      ∀ g s, entitiesOf (tableEntities entityList) g s =
        (entityList.filter fun e => e.entityGroupId = g ∧ e.subGroupId = s).map (·.entityId) := by
  have h0 : FiledSorted ([] : List (Nat × List (Nat × List Nat))) := ⟨by simp [KeysSorted], by simp⟩
  refine ⟨(entitiesOf_foldl_fileEntity entityList h0 0 0).1.groups, fun g => ?_, fun g s => ?_⟩
  · exact (keys_foldl_fileEntity entityList [] g).trans (by simp only [List.map_nil, List.not_mem_nil, false_or])
  · simpa [entitiesOf] using (entitiesOf_foldl_fileEntity entityList h0 g s).2

/-! ## The check over the groups -/

/-- The loop over `table_entities`: each group is fetched by `GetEntityGroup`, and its
`CheckAlterValid`, `groupCheck`, run on its sub-groups with `is_valid`, until one fails. The
status, `is_valid`, and the ids of the groups whose `CheckAlterValid` ran. -/
def checkGroups (t : TsTable σ) (groupCheck : EntityGroup σ → List (Nat × List Nat) → Bool → KStatus × Bool) :
    List (Nat × List (Nat × List Nat)) → Bool → KStatus × Bool × List Nat
  | [], valid => (.success, valid, [])
  | (g, subs) :: rest, valid =>
    match TsTable.getEntityGroup t g with
    | (.success, some grp) =>
      match groupCheck grp subs valid with
      | (.fail, valid) => (.fail, valid, [g])
      | (.success, valid) =>
        let r := checkGroups t groupCheck rest valid
        (r.1, r.2.1, g :: r.2.2)
    | _ => (.fail, valid, [])

/-- Whether `checkAlterValid` looks at the data: a `VARSTRING` column changed to an integer or a
floating type. -/
def checksData (originType newType : DataType) : Bool :=
  originType = .varstring &&
    (newType = .int16 || newType = .int32 || newType = .int64 || newType = .float || newType = .double)

/-- `TsTable::checkAlterValid`: `idList` is each group's `GetEntityIdList`, as in
`TsTable.getEntityIdList`, and `groupCheck` each group's `CheckAlterValid`. -/
def TsTable.checkAlterValid (t : TsTable σ) (originType newType : DataType)
    (idList : EntityGroup σ → KStatus × List EntityResultIndex)
    (groupCheck : EntityGroup σ → List (Nat × List Nat) → Bool → KStatus × Bool) (isValid : Bool) :
    KStatus × Bool × List Nat :=
  if checksData originType newType then
    match TsTable.getEntityIdList t idList [] with
    | (.fail, _) => (.fail, isValid, [])
    | (.success, entityList) => checkGroups t groupCheck (tableEntities entityList) isValid
  else (.success, isValid, [])

/-- The groups whose check ran come first in `table_entities`, and all of them when the loop
succeeds. -/
theorem checkGroups_log (t : TsTable σ) (groupCheck : EntityGroup σ → List (Nat × List Nat) → Bool → KStatus × Bool) :
    ∀ (m : List (Nat × List (Nat × List Nat))) (valid : Bool),
      (checkGroups t groupCheck m valid).2.2 <+: m.map Prod.fst ∧
        ((checkGroups t groupCheck m valid).1 = .success → (checkGroups t groupCheck m valid).2.2 = m.map Prod.fst)
  | [], _ => ⟨List.prefix_refl _, fun _ => rfl⟩
  | (g, subs) :: rest, valid => by
    unfold checkGroups
    split
    · rename_i grp _
      rcases groupCheck grp subs valid with ⟨_ | _, valid'⟩
      · obtain ⟨hpre, hsucc⟩ := checkGroups_log t groupCheck rest valid'
        exact ⟨List.cons_prefix_cons.mpr ⟨rfl, hpre⟩, fun h => by simp [hsucc h]⟩
      · exact ⟨List.cons_prefix_cons.mpr ⟨rfl, List.nil_prefix⟩, fun h => KStatus.noConfusion h⟩
    · exact ⟨List.nil_prefix, fun h => KStatus.noConfusion h⟩

theorem findGroup_of_mem {groups : List (Nat × EntityGroup σ)} (h : (groupIds groups).Nodup) {k : Nat}
    {g : EntityGroup σ} (hm : (k, g) ∈ groups) : findGroup groups k = some g := by
  induction groups with
  | nil => simp at hm
  | cons e es ih =>
    obtain ⟨k', g'⟩ := e
    simp only [groupIds, List.map_cons, List.nodup_cons] at h
    rw [findGroup_cons]
    rcases List.mem_cons.mp hm with heq | hm
    · obtain ⟨rfl, rfl⟩ := Prod.mk.inj heq
      simp
    · have hne : k ≠ k' := fun hk => h.1 (hk ▸ List.mem_map_of_mem Prod.fst hm)
      rw [if_neg hne]
      exact ih h.2 hm

section Leaders

variable {t : TsTable σ} (hw : WellKeyed t.entityGroups) {idList : EntityGroup σ → KStatus × List EntityResultIndex}
  (hown : ∀ grp, ∀ e ∈ (idList grp).2, e.entityGroupId = grp.hashRange.rangeGroupId)
include hw hown

/-- A group some leader's entity names is a leader of the table, under that id. -/
theorem leader_of_mem_leaderEntities {g : Nat}
    (he : ∃ e ∈ (leaderGroups t.entityGroups).flatMap fun grp => (idList grp).2, e.entityGroupId = g) :
    ∃ grp, t.lookup g = some grp ∧ grp.hashRange.typ = .leader := by
  obtain ⟨e, he, rfl⟩ := he
  obtain ⟨grp, hgrp, he⟩ := List.mem_flatMap.mp he
  obtain ⟨⟨k, hk⟩, hleader⟩ := mem_leaderGroups.mp hgrp
  have hkey : grp.hashRange.rangeGroupId = k := hw.keyed _ hk
  refine ⟨grp, ?_, hleader⟩
  rw [hown grp e he, hkey]
  exact findGroup_of_mem hw.nodup hk

/-- `checkAlterValid` runs the check of leader groups only, each at most once; and when it
succeeds on a change that looks at the data, it has run the check of every leader that reported
an entity. -/
theorem checkAlterValid_checks_leaders (originType newType : DataType)
    (groupCheck : EntityGroup σ → List (Nat × List Nat) → Bool → KStatus × Bool) (isValid : Bool) :
    (∀ g ∈ (TsTable.checkAlterValid t originType newType idList groupCheck isValid).2.2,
        ∃ grp, t.lookup g = some grp ∧ grp.hashRange.typ = .leader) ∧
      (TsTable.checkAlterValid t originType newType idList groupCheck isValid).2.2.Nodup ∧
      ((TsTable.checkAlterValid t originType newType idList groupCheck isValid).1 = .success →
        checksData originType newType →
        ∀ grp ∈ leaderGroups t.entityGroups, (idList grp).2 ≠ [] →
          grp.hashRange.rangeGroupId ∈ (TsTable.checkAlterValid t originType newType idList groupCheck isValid).2.2) := by
  unfold TsTable.checkAlterValid
  by_cases hdata : checksData originType newType
  · simp only [hdata, if_true]
    rcases hlist : TsTable.getEntityIdList t idList [] with ⟨_ | _, l⟩
    · have hl : l = (leaderGroups t.entityGroups).flatMap fun grp => (idList grp).2 := by
        simpa using ((walkLeaders_take_eq_success_iff _ [] l t.entityGroups).mp hlist).2
      obtain ⟨hsorted, hkeys, -⟩ := tableEntities_lookup l
      obtain ⟨hpre, hsucc⟩ := checkGroups_log t groupCheck (tableEntities l) isValid
      refine ⟨fun g hg => ?_, hpre.sublist.nodup hsorted.nodup, fun hs _ grp hgrp hne => ?_⟩
      · exact leader_of_mem_leaderEntities hw hown (hl ▸ (hkeys g).mp (hpre.subset hg))
      · obtain ⟨e, he⟩ := List.exists_mem_of_ne_nil _ hne
        rw [hsucc hs, hkeys, hl]
        exact ⟨e, List.mem_flatMap.mpr ⟨grp, hgrp, he⟩, hown grp e he⟩
    · simp
  · simp [hdata]

end Leaders

/-- A leader of id `1` and a follower of id `2`, each reporting one entity of its own. -/
def alterSampleTable : TsTable Unit := ⟨true, [(1, ⟨⟨1, .leader⟩, ()⟩), (2, ⟨⟨2, .follower⟩, ()⟩)]⟩

def alterSampleIds (grp : EntityGroup Unit) : KStatus × List EntityResultIndex :=
  (.success, [⟨grp.hashRange.rangeGroupId, 7, 1⟩])

/-- A `VARSTRING` column changed to `INT32`, with checks that pass. -/
def alterSampleRun : KStatus × Bool × List Nat :=
  TsTable.checkAlterValid alterSampleTable .varstring .int32 alterSampleIds (fun _ _ v => (.success, v)) true

theorem checkAlterValid_checks_leaders_sample :
    WellKeyed alterSampleTable.entityGroups ∧
      (∀ grp, ∀ e ∈ (alterSampleIds grp).2, e.entityGroupId = grp.hashRange.rangeGroupId) ∧
      (∀ g ∈ alterSampleRun.2.2, ∃ grp, alterSampleTable.lookup g = some grp ∧ grp.hashRange.typ = .leader) ∧
      alterSampleRun.2.2.Nodup ∧
      (alterSampleRun.1 = .success → checksData .varstring .int32 →
        ∀ grp ∈ leaderGroups alterSampleTable.entityGroups, (alterSampleIds grp).2 ≠ [] →
          grp.hashRange.rangeGroupId ∈ alterSampleRun.2.2) :=
  have hw : WellKeyed alterSampleTable.entityGroups := ⟨by decide, by simp [alterSampleTable]⟩
  have hown : ∀ grp, ∀ e ∈ (alterSampleIds grp).2, e.entityGroupId = grp.hashRange.rangeGroupId := by
    intro grp e he
    simp only [alterSampleIds, List.mem_singleton] at he
    rw [he]
  ⟨hw, hown, checkAlterValid_checks_leaders hw hown .varstring .int32 (fun _ _ v => (.success, v)) true⟩

end KwdbTs.Storage
