import Mathlib
import KwdbTs.Storage.TableWalks

/-!
# The life of a table

A `TsTable` starts without an entity table and without groups. `Create` makes its entity table;
`Init` opens it from disk and loads a group from every directory of the table whose name is a
number, of the type the caller's `range_groups` gives the id, `UNINITIALIZED` otherwise;
`DropAll` drops every group and the entity table, and when a group's `Drop` fails it clears the
map and runs `Init` again with the types of the groups it came to (ts_table.cpp).

Every request a table serves keeps two facts (`TableInv`): the map is well keyed, and a table
without an entity table has no group. So they hold in every state a run of requests reaches
(`run_tableInv`), and there the missing check of `entity_bt_` in `DeleteRangeEntities` changes
nothing (`deleteRangeEntities_eq_checked`). A `DropAll` that fails loses the type of every group
its loop did not come to: `Init` loads them back `UNINITIALIZED` (`dropAll_fail_typ`).
-/

namespace KwdbTs.Storage

variable {σ : Type}

/-! ## `Create` and `Init` -/

/-- A table as the constructor leaves it. -/
def TsTable.new : TsTable σ := ⟨false, []⟩

/-- `TsTable::Create`: `created` is whether `MakeDirectory`, when the directory is missing, and
`CreateMMapEntityBigTable` succeed. -/
def TsTable.create (t : TsTable σ) (created : Bool) : KStatus × TsTable σ :=
  if t.entityBt then (.fail, t)
  else if !created then (.fail, t)
  else (.success, { t with entityBt := true })

/-- `IsNumber`: every byte of the directory's name is a decimal digit. -/
def isNumber (name : List UInt8) : Bool :=
  name.all fun c => 48 ≤ c.toNat && c.toNat ≤ 57

/-- `std::atol` of a name of digits: its decimal value, held at `LONG_MAX` as glibc's `strtol`
holds it. -/
def atol (name : List UInt8) : Nat :=
  min (name.foldl (fun n c => 10 * n + (c.toNat - 48)) 0) (2 ^ 63 - 1)

/-- An entry of the table's directory as `readdir` lists it: its name, and what `OpenInit` of a
group opened there returns, with the storage it opens. -/
structure GroupDir (σ : Type) where
  name : List UInt8
  openInit : KStatus × σ

/-- What `Init` finds on disk: whether the table's directory is there (`access`), whether
`OpenMMapEntityBigTable` opens the entity table, whether `opendir` succeeds, and the entries
`readdir` lists. -/
structure InitEnv (σ : Type) where
  pathExists : Bool
  btOpens : Bool
  dirOpens : Bool
  dirs : List (GroupDir σ)

/-- The loop of `Init` over the directory's entries: a numeric name is a range group's directory,
whose group, of the type `range_groups` gives its id or `UNINITIALIZED`, goes into the map under
that id when its `OpenInit` succeeds. -/
def loadEntityGroups (rangeGroups : List (Nat × EntityGroupType)) :
    List (Nat × EntityGroup σ) → List (GroupDir σ) → List (Nat × EntityGroup σ)
  | groups, [] => groups
  | groups, d :: ds =>
    if isNumber d.name then
      match d.openInit with
      | (.success, st) =>
        loadEntityGroups rangeGroups (setGroup groups (atol d.name)
          ⟨⟨atol d.name, (rangeGroups.lookup (atol d.name)).getD .uninitialized⟩, st⟩) ds
      | (.fail, _) => loadEntityGroups rangeGroups groups ds
    else loadEntityGroups rangeGroups groups ds

/-- `TsTable::Init`. -/
def TsTable.init (t : TsTable σ) (rangeGroups : List (Nat × EntityGroupType)) (env : InitEnv σ) :
    KStatus × TsTable σ :=
  if !env.pathExists then (.fail, t)
  else if !env.btOpens then (.fail, { t with entityBt := false })
  else if !env.dirOpens then (.fail, { t with entityBt := true })
  else (.success, ⟨true, loadEntityGroups rangeGroups t.entityGroups env.dirs⟩)

/-- What holds of every entry before the loop and of every group the loop can load holds of
every entry after it. -/
theorem loadEntityGroups_forall (P : Nat × EntityGroup σ → Prop)
    (rangeGroups : List (Nat × EntityGroupType))
    (hload : ∀ id st, P (id, ⟨⟨id, (rangeGroups.lookup id).getD .uninitialized⟩, st⟩)) :
    ∀ {groups : List (Nat × EntityGroup σ)} (dirs : List (GroupDir σ)), (∀ e ∈ groups, P e) →
      ∀ e ∈ loadEntityGroups rangeGroups groups dirs, P e
  | _, [], h => h
  | groups, d :: ds, h => by
    unfold loadEntityGroups
    split_ifs
    · rcases d.openInit with ⟨_ | _, st⟩
      · refine loadEntityGroups_forall P rangeGroups hload ds fun e he => ?_
        rcases mem_setGroup he with rfl | he
        · exact hload _ st
        · exact h e he
      · exact loadEntityGroups_forall P rangeGroups hload ds h
    · exact loadEntityGroups_forall P rangeGroups hload ds h

theorem WellKeyed.loadEntityGroups {groups : List (Nat × EntityGroup σ)} (h : WellKeyed groups)
    (rangeGroups : List (Nat × EntityGroupType)) (dirs : List (GroupDir σ)) :
    WellKeyed (loadEntityGroups rangeGroups groups dirs) := by
  induction dirs generalizing groups with
  | nil => exact h
  | cons d ds ih =>
    unfold KwdbTs.Storage.loadEntityGroups
    split_ifs
    · rcases d.openInit with ⟨_ | _, st⟩
      · exact ih (h.setGroup rfl)
      · exact ih h
    · exact ih h

/-! ## `DropAll` -/

/-- The id and type `DropAll` notes of each group it comes to, from the group's `HashRange()`. -/
def notedRanges (groups : List (Nat × EntityGroup σ)) : List (Nat × EntityGroupType) :=
  groups.map fun e => (e.2.hashRange.rangeGroupId, e.2.hashRange.typ)

/-- The loop of `DropAll`: the id and type of each group it comes to go into `range_groups`,
then the group's `Drop` runs; the loop stops at the first that fails. -/
def dropGroups (drop : σ → KStatus) (noted : List (Nat × EntityGroupType)) :
    List (Nat × EntityGroup σ) → KStatus × List (Nat × EntityGroupType)
  | [] => (.success, noted)
  | (_, g) :: gs =>
    match drop g.store with
    | .success => dropGroups drop (noted ++ [(g.hashRange.rangeGroupId, g.hashRange.typ)]) gs
    | .fail => (.fail, noted ++ [(g.hashRange.rangeGroupId, g.hashRange.typ)])

/-- `TsTable::DropAll`: `drop` is the group's `Drop`, and `env` what the `Init` it runs after a
failed drop finds on disk. -/
def TsTable.dropAll (t : TsTable σ) (drop : σ → KStatus) (env : InitEnv σ) : KStatus × TsTable σ :=
  if !t.entityBt then (.fail, t)
  else match dropGroups drop [] t.entityGroups with
    | (.success, _) => (.success, TsTable.new)
    | (.fail, noted) => (.fail, (TsTable.init TsTable.new noted env).2)

/-- A loop that comes to a failing group after groups that drop has noted exactly the groups it
came to. -/
theorem dropGroups_fail (drop : σ → KStatus) (noted : List (Nat × EntityGroupType))
    {pre : List (Nat × EntityGroup σ)} (hpre : ∀ e ∈ pre, drop e.2.store = .success)
    {k : Nat} {g : EntityGroup σ} (hg : drop g.store = .fail) (post : List (Nat × EntityGroup σ)) :
    dropGroups drop noted (pre ++ (k, g) :: post) = (.fail, noted ++ notedRanges (pre ++ [(k, g)])) := by
  induction pre generalizing noted with
  | nil => simp [dropGroups, hg, notedRanges]
  | cons e pre ih =>
    obtain ⟨k', g'⟩ := e
    have he : drop g'.store = .success := hpre _ (List.mem_cons_self _ _)
    rw [List.cons_append, dropGroups, he]
    dsimp only
    rw [ih _ fun e h => hpre e (List.mem_cons_of_mem _ h)]
    simp [notedRanges]

/-- A `DropAll` whose loop comes to a group whose `Drop` fails fails, and every group the `Init`
after it loads back has the type the loop noted for its id: a group the loop did not come to is
loaded `UNINITIALIZED`. -/
theorem dropAll_fail_typ {t : TsTable σ} (hbt : t.entityBt = true) {drop : σ → KStatus}
    (env : InitEnv σ) {pre post : List (Nat × EntityGroup σ)} {k : Nat} {g : EntityGroup σ}
    (ht : t.entityGroups = pre ++ (k, g) :: post) (hpre : ∀ e ∈ pre, drop e.2.store = .success)
    (hg : drop g.store = .fail) :
    (TsTable.dropAll t drop env).1 = .fail ∧ ∀ e ∈ (TsTable.dropAll t drop env).2.entityGroups,
      e.2.hashRange.typ = ((notedRanges (pre ++ [(k, g)])).lookup e.1).getD .uninitialized := by
  have hloop := dropGroups_fail drop [] hpre (k := k) hg post
  rw [← ht, List.nil_append] at hloop
  have hdrop : TsTable.dropAll t drop env = (.fail, (TsTable.init TsTable.new (notedRanges (pre ++ [(k, g)])) env).2) := by
    simp [TsTable.dropAll, hbt, hloop]
  rw [hdrop]
  refine ⟨rfl, fun e he => ?_⟩
  unfold TsTable.init at he
  split_ifs at he
  iterate 3 simp [TsTable.new] at he
  exact loadEntityGroups_forall
    (fun e => e.2.hashRange.typ = ((notedRanges (pre ++ [(k, g)])).lookup e.1).getD .uninitialized)
    _ (fun _ _ => rfl) _ (by simp [TsTable.new]) e he

/-- A table whose leader group 1 cannot be dropped, with a follower group 2 after it, and both
directories still on disk. -/
def sampleDropTable : TsTable Unit :=
  ⟨true, [(1, ⟨⟨1, .leader⟩, ()⟩), (2, ⟨⟨2, .follower⟩, ()⟩)]⟩

/-- The directories `1` and `2` of `sampleDropTable`. -/
def sampleDropEnv : InitEnv Unit :=
  ⟨true, true, true, [⟨[49], (.success, ())⟩, ⟨[50], (.success, ())⟩]⟩

theorem dropAll_fail_typ_sample :
    sampleDropTable.entityBt = true ∧
      sampleDropTable.entityGroups = [] ++ (1, ⟨⟨1, .leader⟩, ()⟩) :: [(2, ⟨⟨2, .follower⟩, ()⟩)] ∧
      (TsTable.dropAll sampleDropTable (fun _ => .fail) sampleDropEnv).1 = .fail ∧
      ∀ e ∈ (TsTable.dropAll sampleDropTable (fun _ => .fail) sampleDropEnv).2.entityGroups,
        e.2.hashRange.typ =
          ((notedRanges ([] ++ [(1, (⟨⟨1, .leader⟩, ()⟩ : EntityGroup Unit))])).lookup e.1).getD
            .uninitialized :=
  ⟨rfl, rfl, dropAll_fail_typ rfl sampleDropEnv rfl (by simp) rfl⟩

/-! ## Runs of requests -/

/-- The requests a table serves, each with what the calls it makes outside the table return. -/
inductive TableOp (σ : Type)
  | create (created : Bool)
  | createEntityGroup (range : RangeGroup) (mkdir : Bool) (c : KStatus × σ)
  | updateEntityGroup (range : RangeGroup)
  | dropEntityGroup (id : Nat) (drop : σ → KStatus × σ)
  | dropAll (drop : σ → KStatus) (env : InitEnv σ)
  | putData (id : Nat) (put : σ → KStatus × σ)
  | deleteRangeEntities (id : Nat) (del : σ → KStatus × σ)
  | deleteRangeData (id : Nat) (del : σ → KStatus × σ)
  | deleteData (id : Nat) (del : σ → KStatus × σ)
  | compress (act : σ → KStatus × σ)
  | deleteExpiredData (del : σ → KStatus × σ)
  | tsxClean (clean : σ → KStatus × σ)

/-- One request. -/
def TsTable.step (t : TsTable σ) : TableOp σ → KStatus × TsTable σ
  | .create created => TsTable.create t created
  | .createEntityGroup range mkdir c => TsTable.createEntityGroup t range mkdir c
  | .updateEntityGroup range => TsTable.updateEntityGroup t range
  | .dropEntityGroup id drop => TsTable.dropEntityGroup t id drop
  | .dropAll drop env => TsTable.dropAll t drop env
  | .putData id put => TsTable.putData t id put
  | .deleteRangeEntities id del => TsTable.deleteRangeEntities t id del
  | .deleteRangeData id del => TsTable.deleteRangeData t id del
  | .deleteData id del => TsTable.deleteData t id del
  | .compress act => TsTable.compress t act
  | .deleteExpiredData del => TsTable.deleteExpiredData t del
  | .tsxClean clean => TsTable.tsxClean t clean

/-- The tables the engine can hold: a new one, one it opened with `Init`, and whatever the
requests it serves make of them. -/
inductive Reachable : TsTable σ → Prop
  | new : Reachable TsTable.new
  | init (rangeGroups : List (Nat × EntityGroupType)) (env : InitEnv σ) :
      Reachable (TsTable.init TsTable.new rangeGroups env).2
  | step {t : TsTable σ} (op : TableOp σ) : Reachable t → Reachable (t.step op).2

/-- What holds of a table in every state: its map is well keyed, and without an entity table it
has no group. -/
structure TableInv (t : TsTable σ) : Prop where
  wellKeyed : WellKeyed t.entityGroups
  noGroups : t.entityBt = false → t.entityGroups = []

theorem TableInv.new : TableInv (TsTable.new : TsTable σ) :=
  ⟨WellKeyed.nil, fun _ => rfl⟩

theorem TableInv.init (rangeGroups : List (Nat × EntityGroupType)) (env : InitEnv σ) :
    TableInv (TsTable.init TsTable.new rangeGroups env).2 := by
  unfold KwdbTs.Storage.TsTable.init
  split_ifs
  · exact TableInv.new
  · exact ⟨WellKeyed.nil, fun _ => rfl⟩
  · exact ⟨WellKeyed.nil, fun _ => rfl⟩
  · exact ⟨WellKeyed.nil.loadEntityGroups _ _, fun h => nomatch h⟩

section Step

variable {t : TsTable σ} (h : TableInv t)
include h

/-- A request whose result keeps the entity table and the ids and ranges of the map keeps the
invariant. -/
theorem TableInv.of_ranges {t' : TsTable σ} (hbt : t'.entityBt = t.entityBt)
    (hr : t'.entityGroups.map (fun e => (e.1, e.2.hashRange)) =
      t.entityGroups.map fun e => (e.1, e.2.hashRange)) : TableInv t' := by
  refine ⟨h.wellKeyed.of_ranges hr, fun hf => ?_⟩
  have := congrArg List.length hr
  simp only [List.length_map, h.noGroups (hbt ▸ hf), List.length_nil] at this
  exact List.eq_nil_of_length_eq_zero this

theorem TableInv.walkGroups (act : σ → KStatus × σ) (s : KStatus) :
    TableInv { t with entityGroups := (walkGroups act s t.entityGroups).2 } :=
  h.of_ranges rfl (walkGroups_ranges act s t.entityGroups)

theorem TableInv.create (created : Bool) : TableInv (TsTable.create t created).2 := by
  unfold KwdbTs.Storage.TsTable.create
  split_ifs
  · exact h
  · exact h
  · exact ⟨h.wellKeyed, fun hf => nomatch hf⟩

theorem TableInv.createEntityGroup (range : RangeGroup) (mkdir : Bool) (c : KStatus × σ) :
    TableInv (TsTable.createEntityGroup t range mkdir c).2 := by
  refine ⟨createEntityGroup_wellKeyed h.wellKeyed range mkdir c, ?_⟩
  rw [createEntityGroup_eq]
  split_ifs with hc
  · exact fun hf => by simp_all
  · exact h.noGroups

theorem TableInv.updateEntityGroup (range : RangeGroup) :
    TableInv (TsTable.updateEntityGroup t range).2 := by
  refine ⟨updateEntityGroup_wellKeyed h.wellKeyed range, fun hf => ?_⟩
  rw [updateEntityGroup_entityBt] at hf
  rw [updateEntityGroup_of_not_entityBt hf]
  exact h.noGroups hf

theorem TableInv.dropEntityGroup (id : Nat) (drop : σ → KStatus × σ) :
    TableInv (TsTable.dropEntityGroup t id drop).2 := by
  refine ⟨dropEntityGroup_wellKeyed h.wellKeyed id drop, fun hf => ?_⟩
  rw [dropEntityGroup_entityBt] at hf
  rw [dropEntityGroup_of_not_entityBt hf]
  exact h.noGroups hf

theorem TableInv.dispatchGroup (checkBt : Bool) (id : Nat) (act : σ → KStatus × σ) :
    TableInv (TsTable.dispatchGroup checkBt t id act).2 := by
  refine ⟨dispatchGroup_wellKeyed h.wellKeyed checkBt id act, fun hf => ?_⟩
  rw [dispatchGroup_entityBt] at hf
  rw [dispatchGroup_of_nil (h.noGroups hf)]
  exact h.noGroups hf

theorem TableInv.dropAll (drop : σ → KStatus) (env : InitEnv σ) : TableInv (TsTable.dropAll t drop env).2 := by
  unfold KwdbTs.Storage.TsTable.dropAll
  split_ifs
  · exact h
  · rcases dropGroups drop [] t.entityGroups with ⟨_ | _, noted⟩
    · exact TableInv.new
    · exact TableInv.init _ env

/-- Every request keeps the invariant. -/
theorem TableInv.step (op : TableOp σ) : TableInv (t.step op).2 := by
  cases op with
  | create created => exact h.create created
  | createEntityGroup range mkdir c => exact h.createEntityGroup range mkdir c
  | updateEntityGroup range => exact h.updateEntityGroup range
  | dropEntityGroup id drop => exact h.dropEntityGroup id drop
  | dropAll drop env => exact h.dropAll drop env
  | putData id put => exact h.dispatchGroup true id put
  | deleteRangeEntities id del => exact h.dispatchGroup false id del
  | deleteRangeData id del =>
    show TableInv (TsTable.viaGetEntityGroup t id del).2
    rw [viaGetEntityGroup_eq]
    exact h.dispatchGroup true id del
  | deleteData id del =>
    show TableInv (TsTable.viaGetEntityGroup t id del).2
    rw [viaGetEntityGroup_eq]
    exact h.dispatchGroup true id del
  | compress act =>
    show TableInv (TsTable.compress t act).2
    unfold KwdbTs.Storage.TsTable.compress
    split_ifs
    · exact h
    · exact h.walkGroups act .success
  | deleteExpiredData del => exact h.walkGroups del .fail
  | tsxClean clean => exact h.walkGroups clean .success

end Step

theorem Reachable.tableInv {t : TsTable σ} (h : Reachable t) : TableInv t := by
  induction h with
  | new => exact TableInv.new
  | init rangeGroups env => exact TableInv.init rangeGroups env
  | step op _ ih => exact ih.step op

/-- In every state the engine can hold a table in, the map has one entry per id, each group is
under the id of its own range, and a table without an entity table has no group. -/
theorem reachable_tableInv {t : TsTable σ} (h : Reachable t) : TableInv t :=
  h.tableInv

/-- `DeleteRangeEntities` does not check `entity_bt_`; on every table the engine can hold it
does what it would do with the check. -/
theorem deleteRangeEntities_eq_checked {t : TsTable σ} (h : Reachable t) (id : Nat)
    (del : σ → KStatus × σ) : TsTable.deleteRangeEntities t id del = TsTable.dispatchGroup true t id del :=
  dispatchGroup_check_irrel h.tableInv.noGroups id del

/-- A new table on which `Create` and then `CreateEntityGroup` of the leader group 1 have run. -/
def sampleTable : TsTable Unit :=
  ((TsTable.new.step (.create true)).2.step (.createEntityGroup ⟨1, .leader⟩ true (.success, ()))).2

theorem reachable_tableInv_sampleTable : Reachable sampleTable ∧ TableInv sampleTable :=
  have h : Reachable sampleTable := .step _ (.step _ .new)
  ⟨h, reachable_tableInv h⟩

theorem deleteRangeEntities_eq_checked_sampleTable :
    Reachable sampleTable ∧
      TsTable.deleteRangeEntities sampleTable 1 (fun _ => (.success, ())) =
        TsTable.dispatchGroup true sampleTable 1 (fun _ => (.success, ())) :=
  have h : Reachable sampleTable := .step _ (.step _ .new)
  ⟨h, deleteRangeEntities_eq_checked h 1 _⟩

end KwdbTs.Storage
