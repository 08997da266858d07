import Mathlib
import KwdbTs.Storage.EntityGroups

/-!
# The latched sections of `CreateEntityGroup` and `DropEntityGroup`

`TsTable::CreateEntityGroup` looks for the range group's id under a shared latch of
`entity_groups_mtx_`, lets the latch go while it makes the group's directory and files, and takes
the latch again, exclusively, to put the group into `entity_groups_`. `DropEntityGroup` erases
the entry under the latch, runs the group's `Drop` without it, and takes the latch again to put
the group back when `Drop` fails (ts_table.cpp). Other callers' sections can run in between.

A call is a small state machine over these sections (`GroupCall`), and a run is any schedule of
the sections of several calls (`runSchedule`). Run back to back, a call's sections do what the
sequential method does (`create_sections`, `drop_sections`), and under any schedule each section
keeps the map well keyed (`runSchedule_wellKeyed`). But the sections do not make the methods
atomic: two creates of one id can both pass the check and both succeed, the second group
replacing the first (`createEntityGroup_race`), and a create that runs while a drop of its id is
in `Drop` is undone when that drop fails and puts its group back (`dropEntityGroup_restore_race`).
-/

namespace KwdbTs.Storage

variable {σ : Type}

/-- A `CreateEntityGroup` or a `DropEntityGroup` between its latched sections: not started, past
its first section, or returned with a status for its range group's id. -/
inductive GroupCall (σ : Type)
  | create (range : RangeGroup) (mkdir : Bool) (groupCreate : KStatus × σ)
  | createChecked (range : RangeGroup) (mkdir : Bool) (groupCreate : KStatus × σ)
  | drop (id : Nat) (groupDrop : σ → KStatus × σ)
  | dropErased (id : Nat) (g : EntityGroup σ) (groupDrop : σ → KStatus × σ)
  | done (id : Nat) (s : KStatus)

/-- The next section of a call. A create checks for its id, then makes the group and inserts it;
a drop erases the entry, then runs `Drop` and puts the group back when it fails. -/
def GroupCall.step (t : TsTable σ) : GroupCall σ → GroupCall σ × TsTable σ
  | .create range mkdir c =>
    if !t.entityBt then (.done range.rangeGroupId .fail, t)
    else if (findGroup t.entityGroups range.rangeGroupId).isSome then (.done range.rangeGroupId .fail, t)
    else (.createChecked range mkdir c, t)
  | .createChecked range mkdir c =>
    if !mkdir then (.done range.rangeGroupId .fail, t)
    else match c with
      | (.fail, _) => (.done range.rangeGroupId .fail, t)
      | (.success, st) =>
        (.done range.rangeGroupId .success,
          { t with entityGroups := setGroup t.entityGroups range.rangeGroupId ⟨range, st⟩ })
  | .drop id groupDrop =>
    if !t.entityBt then (.done id .fail, t)
    else match findGroup t.entityGroups id with
      | none => (.done id .fail, t)
      | some g => (.dropErased id g groupDrop, { t with entityGroups := eraseGroup t.entityGroups id })
  | .dropErased id g groupDrop =>
    match groupDrop g.store with
    | (.fail, st) => (.done id .fail, { t with entityGroups := setGroup t.entityGroups id { g with store := st } })
    | (.success, _) => (.done id .success, t)
  | .done id s => (.done id s, t)

/-- A run of the calls' sections in the order the schedule names the calls; a name past the
calls is passed over. -/
def runSchedule : TsTable σ → List (GroupCall σ) → List Nat → TsTable σ × List (GroupCall σ)
  | t, calls, [] => (t, calls)
  | t, calls, i :: is =>
    match calls[i]? with
    | none => runSchedule t calls is
    | some c => runSchedule (c.step t).2 (calls.set i (c.step t).1) is

/-! ## One call alone is the method -/

/-- A create's two sections run back to back are `CreateEntityGroup`. -/
theorem create_sections (t : TsTable σ) (range : RangeGroup) (mkdir : Bool) (c : KStatus × σ) :
    ((GroupCall.create range mkdir c).step t).1.step ((GroupCall.create range mkdir c).step t).2 =
      (.done range.rangeGroupId (TsTable.createEntityGroup t range mkdir c).1,
        (TsTable.createEntityGroup t range mkdir c).2) := by
  rcases c with ⟨_ | _, st⟩ <;> cases hbt : t.entityBt <;> cases mkdir <;>
    cases hg : findGroup t.entityGroups range.rangeGroupId <;>
    simp [GroupCall.step, TsTable.createEntityGroup, hbt, hg]

/-- A drop's two sections run back to back are `DropEntityGroup`. -/
theorem drop_sections (t : TsTable σ) (id : Nat) (groupDrop : σ → KStatus × σ) :
    ((GroupCall.drop id groupDrop).step t).1.step ((GroupCall.drop id groupDrop).step t).2 =
      (.done id (TsTable.dropEntityGroup t id groupDrop).1, (TsTable.dropEntityGroup t id groupDrop).2) := by
  cases hbt : t.entityBt
  · simp [GroupCall.step, TsTable.dropEntityGroup, hbt]
  · cases hg : findGroup t.entityGroups id with
    | none => simp [GroupCall.step, TsTable.dropEntityGroup, hbt, hg]
    | some g =>
      rcases hd : groupDrop g.store with ⟨_ | _, st⟩ <;>
        simp [GroupCall.step, TsTable.dropEntityGroup, hbt, hg, hd]

/-! ## The map stays well keyed under any schedule -/

/-- A call's saved state fits the map: a drop past its first section holds a group of its id. -/
def GroupCall.Ok : GroupCall σ → Prop
  | .dropErased id g _ => g.hashRange.rangeGroupId = id
  | _ => True

/-- Each section keeps the map well keyed and the call's saved state fitting. -/
theorem GroupCall.step_wellKeyed {t : TsTable σ} (h : WellKeyed t.entityGroups) {c : GroupCall σ}
    (hc : c.Ok) : WellKeyed (c.step t).2.entityGroups ∧ (c.step t).1.Ok := by
  cases c with
  | create range mkdir c =>
    dsimp only [GroupCall.step]
    split_ifs <;> exact ⟨h, trivial⟩
  | createChecked range mkdir c =>
    dsimp only [GroupCall.step]
    split_ifs
    · exact ⟨h, trivial⟩
    · rcases c with ⟨_ | _, st⟩
      · exact ⟨h.setGroup rfl, trivial⟩
      · exact ⟨h, trivial⟩
  | drop id groupDrop =>
    dsimp only [GroupCall.step]
    split_ifs
    · exact ⟨h, trivial⟩
    · cases hg : findGroup t.entityGroups id with
      | none => exact ⟨h, trivial⟩
      | some g => exact ⟨h.eraseGroup id, h.keyed _ (mem_findGroup hg)⟩
  | dropErased id g groupDrop =>
    dsimp only [GroupCall.step]
    rcases groupDrop g.store with ⟨_ | _, st⟩
    · exact ⟨h, trivial⟩
    · exact ⟨h.setGroup hc, trivial⟩
  | done id s => exact ⟨h, trivial⟩

/-- Under any schedule of the sections of calls whose saved states fit, the map stays well keyed:
one entry per id, each group under its own id. -/
theorem runSchedule_wellKeyed : ∀ {t : TsTable σ} {calls : List (GroupCall σ)} (sched : List Nat),
    WellKeyed t.entityGroups → (∀ c ∈ calls, c.Ok) →
      WellKeyed (runSchedule t calls sched).1.entityGroups
  | _, _, [], h, _ => h
  | t, calls, i :: is, h, hcs => by
    unfold runSchedule
    cases hget : calls[i]? with
    | none => exact runSchedule_wellKeyed is h hcs
    | some c =>
      have hc := GroupCall.step_wellKeyed h (hcs c (List.getElem?_mem hget))
      refine runSchedule_wellKeyed is hc.1 fun c' hc' => ?_
      rcases List.mem_or_eq_of_mem_set hc' with hc' | rfl
      · exact hcs c' hc'
      · exact hc.2

/-- Creates of ids 1 and 2 and a drop of id 1 whose `Drop` fails, on a table with no groups. -/
def latchSampleCalls : List (GroupCall Nat) :=
  [.create ⟨1, .leader⟩ true (.success, 0), .create ⟨2, .leader⟩ true (.success, 0),
    .drop 1 fun n => (.fail, n + 1)]

theorem latchSampleCalls_ok : ∀ c ∈ latchSampleCalls, c.Ok := by
  intro c hc
  simp only [latchSampleCalls, List.mem_cons, List.mem_singleton, List.not_mem_nil, or_false] at hc
  rcases hc with rfl | rfl | rfl <;> trivial

theorem runSchedule_wellKeyed_latchSample :
    WellKeyed (TsTable.mk true [] : TsTable Nat).entityGroups ∧ (∀ c ∈ latchSampleCalls, c.Ok) ∧
      WellKeyed (runSchedule (TsTable.mk true []) latchSampleCalls [0, 2, 1, 0, 2, 1, 2]).1.entityGroups :=
  ⟨WellKeyed.nil, latchSampleCalls_ok, runSchedule_wellKeyed _ WellKeyed.nil latchSampleCalls_ok⟩

/-! ## Calls on other ids do not reach an id's entry -/

/-- The range group's id a call works on. -/
def GroupCall.key : GroupCall σ → Nat
  | .create range _ _ | .createChecked range _ _ => range.rangeGroupId
  | .drop id _ | .dropErased id _ _ | .done id _ => id

/-- The call as seen from the entry of id `k`: a call on another id is taken out, as if it had
returned `FAIL` before it ran. -/
def GroupCall.onKey (k : Nat) (c : GroupCall σ) : GroupCall σ :=
  if c.key = k then c else .done c.key .fail

@[simp] theorem GroupCall.key_step (t : TsTable σ) (c : GroupCall σ) : (c.step t).1.key = c.key := by
  cases c with
  | create range mkdir c => dsimp only [GroupCall.step]; split_ifs <;> rfl
  | createChecked range mkdir c => dsimp only [GroupCall.step]; split_ifs <;> [rfl; split <;> rfl]
  | drop id groupDrop => dsimp only [GroupCall.step]; split_ifs <;> [rfl; split <;> rfl]
  | dropErased id g groupDrop => dsimp only [GroupCall.step]; split <;> rfl
  | done id s => rfl

@[simp] theorem GroupCall.step_entityBt (t : TsTable σ) (c : GroupCall σ) :
    (c.step t).2.entityBt = t.entityBt := by
  cases c with
  | create range mkdir c => dsimp only [GroupCall.step]; split_ifs <;> rfl
  | createChecked range mkdir c => dsimp only [GroupCall.step]; split_ifs <;> [rfl; split <;> rfl]
  | drop id groupDrop => dsimp only [GroupCall.step]; split_ifs <;> [rfl; split <;> rfl]
  | dropErased id g groupDrop => dsimp only [GroupCall.step]; split <;> rfl
  | done id s => rfl

theorem GroupCall.Ok.onKey {c : GroupCall σ} (hc : c.Ok) (k : Nat) : (c.onKey k).Ok := by
  unfold GroupCall.onKey
  split_ifs
  · exact hc
  · trivial

section Sections

variable {t t' : TsTable σ} (h : WellKeyed t.entityGroups)
include h

/-- A section of a call on another id leaves the entry of `k` as it was. -/
theorem GroupCall.lookup_step_of_ne {c : GroupCall σ} {k : Nat} (hk : c.key ≠ k) :
    (c.step t).2.lookup k = t.lookup k := by
  cases c <;> simp only [GroupCall.key] at hk
  case create range mkdir c => dsimp only [GroupCall.step]; split_ifs <;> rfl
  case createChecked range mkdir c =>
    dsimp only [GroupCall.step]
    split_ifs
    · rfl
    · rcases c with ⟨_ | _, st⟩
      · simp [TsTable.lookup, findGroup_setGroup, hk.symm]
      · rfl
  case drop id groupDrop =>
    dsimp only [GroupCall.step]
    split_ifs
    · rfl
    · split
      · rfl
      · simp [TsTable.lookup, findGroup_eraseGroup h.nodup, hk.symm]
  case dropErased id g groupDrop =>
    dsimp only [GroupCall.step]
    rcases groupDrop g.store with ⟨_ | _, st⟩
    · rfl
    · simp [TsTable.lookup, findGroup_setGroup, hk.symm]
  case done id s => rfl

variable (h' : WellKeyed t'.entityGroups) (hbt : t.entityBt = t'.entityBt)
include h' hbt

/-- A section of a call reads the table only through `entity_bt_` and the entry of its own id: on
two tables that agree there it goes on the same way and leaves the same entry. -/
theorem GroupCall.step_congr {c : GroupCall σ} (hl : t.lookup c.key = t'.lookup c.key) :
    (c.step t).1 = (c.step t').1 ∧ (c.step t).2.lookup c.key = (c.step t').2.lookup c.key := by
  simp only [TsTable.lookup] at hl
  cases c with
  | create range mkdir c =>
    simp only [GroupCall.key] at hl
    simp only [GroupCall.step, hbt, hl]
    split_ifs <;> exact ⟨rfl, hl⟩
  | createChecked range mkdir c =>
    simp only [GroupCall.key] at hl
    dsimp only [GroupCall.step]
    split_ifs
    · exact ⟨rfl, hl⟩
    · rcases c with ⟨_ | _, st⟩
      · simp [TsTable.lookup, findGroup_setGroup, GroupCall.key]
      · exact ⟨rfl, hl⟩
  | drop id groupDrop =>
    simp only [GroupCall.key] at hl
    simp only [GroupCall.step, hbt, hl]
    split_ifs
    · exact ⟨rfl, hl⟩
    · split
      · exact ⟨rfl, hl⟩
      · simp [TsTable.lookup, findGroup_eraseGroup h.nodup, findGroup_eraseGroup h'.nodup, GroupCall.key]
  | dropErased id g groupDrop =>
    simp only [GroupCall.key] at hl
    dsimp only [GroupCall.step]
    rcases groupDrop g.store with ⟨_ | _, st⟩
    · exact ⟨rfl, hl⟩
    · simp [TsTable.lookup, findGroup_setGroup, GroupCall.key]
  | done id s => exact ⟨rfl, hl⟩

/-- One section against its counterpart with the calls on other ids taken out: the call goes on
to the same state as seen from `k`, and the entry of `k` stays the same. -/
theorem GroupCall.step_onKey {k : Nat} (hl : t.lookup k = t'.lookup k) (c : GroupCall σ) :
    ((c.onKey k).step t').1 = (c.step t).1.onKey k ∧ ((c.onKey k).step t').2.lookup k = (c.step t).2.lookup k := by
  by_cases hk : c.key = k
  · subst hk
    have hc := GroupCall.step_congr h h' hbt hl
    simp only [GroupCall.onKey, if_pos rfl, GroupCall.key_step]
    exact ⟨hc.1.symm, hc.2.symm⟩
  · simp only [GroupCall.onKey, if_neg hk, GroupCall.key_step]
    exact ⟨rfl, hl.symm.trans (GroupCall.lookup_step_of_ne h hk).symm⟩

end Sections

/-- The two runs of `runSchedule_onKey`, from any two tables that agree at `k`. -/
theorem runSchedule_onKey_of_agree (k : Nat) : ∀ {t t' : TsTable σ} {calls : List (GroupCall σ)}
    (sched : List Nat), WellKeyed t.entityGroups → WellKeyed t'.entityGroups → (∀ c ∈ calls, c.Ok) →
      t.entityBt = t'.entityBt → t.lookup k = t'.lookup k →
      (runSchedule t' (calls.map (GroupCall.onKey k)) sched).1.lookup k = (runSchedule t calls sched).1.lookup k ∧
        (runSchedule t' (calls.map (GroupCall.onKey k)) sched).2 = (runSchedule t calls sched).2.map (GroupCall.onKey k)
  | _, _, _, [], _, _, _, _, hl => ⟨hl.symm, rfl⟩
  | t, t', calls, i :: is, h, h', hcs, hbt, hl => by
    unfold runSchedule
    rw [List.getElem?_map]
    cases hget : calls[i]? with
    | none => exact runSchedule_onKey_of_agree k is h h' hcs hbt hl
    | some c =>
      have hc : c.Ok := hcs c (List.getElem?_mem hget)
      obtain ⟨hcall, hlook⟩ := GroupCall.step_onKey h h' hbt hl c
      dsimp only [Option.map]
      rw [hcall, ← List.map_set]
      refine runSchedule_onKey_of_agree k is (GroupCall.step_wellKeyed h hc).1
        (GroupCall.step_wellKeyed h' (hc.onKey k)).1 ?_ (by simp [hbt]) hlook.symm
      intro c' hc'
      rcases List.mem_or_eq_of_mem_set hc' with hc' | rfl
      · exact hcs c' hc'
      · exact (GroupCall.step_wellKeyed h hc).2

/-- Under any schedule, the entry of a range group's id and what each call on that id returns come
out the same when every call on another id is taken out: sections on other ids never reach it. -/
theorem runSchedule_onKey {t : TsTable σ} (h : WellKeyed t.entityGroups) {calls : List (GroupCall σ)}
    (hcs : ∀ c ∈ calls, c.Ok) (k : Nat) (sched : List Nat) :
    (runSchedule t (calls.map (GroupCall.onKey k)) sched).1.lookup k = (runSchedule t calls sched).1.lookup k ∧
      (runSchedule t (calls.map (GroupCall.onKey k)) sched).2 = (runSchedule t calls sched).2.map (GroupCall.onKey k) :=
  runSchedule_onKey_of_agree k sched h h hcs rfl rfl

theorem runSchedule_onKey_latchSample :
    WellKeyed (TsTable.mk true [] : TsTable Nat).entityGroups ∧ (∀ c ∈ latchSampleCalls, c.Ok) ∧
      (runSchedule (TsTable.mk true []) (latchSampleCalls.map (GroupCall.onKey 2)) [0, 2, 1, 0, 2, 1, 2]).1.lookup 2 =
          (runSchedule (TsTable.mk true []) latchSampleCalls [0, 2, 1, 0, 2, 1, 2]).1.lookup 2 ∧
        (runSchedule (TsTable.mk true []) (latchSampleCalls.map (GroupCall.onKey 2)) [0, 2, 1, 0, 2, 1, 2]).2 =
          (runSchedule (TsTable.mk true []) latchSampleCalls [0, 2, 1, 0, 2, 1, 2]).2.map (GroupCall.onKey 2) :=
  ⟨WellKeyed.nil, latchSampleCalls_ok, runSchedule_onKey WellKeyed.nil latchSampleCalls_ok 2 _⟩

/-! ## Two calls on one id are not atomic -/

/-- Two creates of one free id, both with their directory made and `Create` succeeding. Run one
after the other, the second fails and the first group stays; with both checks before either
insert, both return `SUCCESS` and the first group is replaced by the second. -/
theorem createEntityGroup_race {t : TsTable σ} (hbt : t.entityBt = true) {r r' : RangeGroup}
    (hid : r'.rangeGroupId = r.rangeGroupId) (hfree : t.lookup r.rangeGroupId = none) (st st' : σ) :
    (runSchedule t [.create r true (.success, st), .create r' true (.success, st')] [0, 0, 1, 1]).2 =
        [.done r.rangeGroupId .success, .done r.rangeGroupId .fail] ∧
      (runSchedule t [.create r true (.success, st), .create r' true (.success, st')] [0, 0, 1, 1]).1.lookup
        r.rangeGroupId = some ⟨r, st⟩ ∧
      (runSchedule t [.create r true (.success, st), .create r' true (.success, st')] [0, 1, 0, 1]).2 =
        [.done r.rangeGroupId .success, .done r.rangeGroupId .success] ∧
      (runSchedule t [.create r true (.success, st), .create r' true (.success, st')] [0, 1, 0, 1]).1.lookup
        r.rangeGroupId = some ⟨r', st'⟩ := by
  simp only [TsTable.lookup] at hfree
  simp [runSchedule, GroupCall.step, hbt, hid, hfree, TsTable.lookup, findGroup_setGroup]

/-- A drop whose `Drop` fails and a create of the same id: when the create runs both its sections
while the drop is in `Drop`, it returns `SUCCESS`, but the drop then puts its old group back over
the new one. -/
theorem dropEntityGroup_restore_race {t : TsTable σ} (h : WellKeyed t.entityGroups)
    (hbt : t.entityBt = true) {id : Nat} {g : EntityGroup σ} (hg : t.lookup id = some g)
    {groupDrop : σ → KStatus × σ} {st : σ} (hdrop : groupDrop g.store = (.fail, st))
    {r : RangeGroup} (hr : r.rangeGroupId = id) (st' : σ) :
    (runSchedule t [.drop id groupDrop, .create r true (.success, st')] [0, 1, 1, 0]).2 =
        [.done id .fail, .done id .success] ∧
      (runSchedule t [.drop id groupDrop, .create r true (.success, st')] [0, 1, 1, 0]).1.lookup id =
        some { g with store := st } := by
  simp only [TsTable.lookup] at hg
  simp [runSchedule, GroupCall.step, hbt, hg, hr, hdrop, findGroup_eraseGroup h.nodup, TsTable.lookup,
    findGroup_setGroup]

end KwdbTs.Storage
