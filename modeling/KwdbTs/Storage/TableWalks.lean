import Mathlib
import KwdbTs.Storage.EntityGroups

/-!
# The walks of a table over its entity groups

Several `TsTable` methods run one loop over `entity_groups_` (ts_table.cpp). `Compress`,
`DeleteExpiredData` and `TSxClean` call the group's own method on every group and stop at the
first that fails (`walkGroups`); they differ in the status they return when there is no group,
which makes `DeleteExpiredData` fail on a table without groups (`groupWalks_success_iff`).
`GetAllLeaderEntityGroup`, `GetEntityIdList`, `GetTagIterator` and `GetMetaIterator` fail at an
uninitialized group, pass over followers and collect something from each leader
(`walkLeaders`); they differ in what a leader that cannot give it does: `GetTagIterator` fails,
`GetMetaIterator` leaves the leader out, `GetEntityIdList` does not look.

The map has no iteration order, so each result is stated as a function of the set of entries:
the status does not depend on the order, and what a leader walk collects is the same up to
order (`walkLeaders_perm`).
-/

namespace KwdbTs.Storage

variable {σ α : Type}

/-! ## The walk over every group -/

/-- The loop of `Compress`, `DeleteExpiredData` and `TSxClean`: the group's method `act` on each
group in turn, stopping at the first that fails; `s` is the status the method returns when there
is no group. -/
def walkGroups (act : σ → KStatus × σ) (s : KStatus) :
    List (Nat × EntityGroup σ) → KStatus × List (Nat × EntityGroup σ)
  | [] => (s, [])
  | (k, g) :: gs =>
    match act g.store with
    | (.success, st) =>
      let r := walkGroups act .success gs
      (r.1, (k, { g with store := st }) :: r.2)
    | (.fail, st) => (.fail, (k, { g with store := st }) :: gs)

/-- The walk succeeds when every group's method does and, with no group, when `s` is `SUCCESS`. -/
theorem walkGroups_success_iff (act : σ → KStatus × σ) (s : KStatus) (gs : List (Nat × EntityGroup σ)) :
    (walkGroups act s gs).1 = .success ↔
      (gs = [] → s = .success) ∧ ∀ e ∈ gs, (act e.2.store).1 = .success := by
  induction gs generalizing s with
  | nil => exact ⟨fun h => ⟨fun _ => h, fun _ he => absurd he (List.not_mem_nil _)⟩, fun h => h.1 rfl⟩
  | cons e gs ih =>
    obtain ⟨k, g⟩ := e
    rcases h : act g.store with ⟨_ | _, st⟩
    · simp only [walkGroups, h, ih, List.forall_mem_cons, reduceCtorEq, false_implies, true_and, implies_true]
    · simp only [walkGroups, h, List.forall_mem_cons, reduceCtorEq, false_and, and_false]

/-- The walk changes the storage of groups, never an id or a `HashRange()`. -/
theorem walkGroups_ranges (act : σ → KStatus × σ) (s : KStatus) (gs : List (Nat × EntityGroup σ)) :
    (walkGroups act s gs).2.map (fun e => (e.1, e.2.hashRange)) = gs.map fun e => (e.1, e.2.hashRange) := by
  induction gs generalizing s with
  | nil => rfl
  | cons e gs ih =>
    obtain ⟨k, g⟩ := e
    rcases h : act g.store with ⟨_ | _, st⟩ <;> simp [walkGroups, h, ih]

/-- `TsTable::TSxClean`: `clean` is the group's `TSxClean`. -/
def TsTable.tsxClean (t : TsTable σ) (clean : σ → KStatus × σ) : KStatus × TsTable σ :=
  let r := walkGroups clean .success t.entityGroups
  (r.1, { t with entityGroups := r.2 })

/-- `TsEntityGroup::TSxClean`: `CleanTagFiles` of the group's directory, then `SUCCESS`. -/
def entityGroupTSxClean (cleanTagFiles : σ → σ) (st : σ) : KStatus × σ :=
  (.success, cleanTagFiles st)

/-- `TsTable::Compress`: `compress` is the group's `Compress` up to the timestamp. -/
def TsTable.compress (t : TsTable σ) (compressGroup : σ → KStatus × σ) : KStatus × TsTable σ :=
  if !t.entityBt then (.fail, t)
  else
    let r := walkGroups compressGroup .success t.entityGroups
    (r.1, { t with entityGroups := r.2 })

/-- `TsTable::DeleteExpiredData`, whose status starts as `FAIL`: `del` is the group's
`DeleteExpiredData` up to `end_ts`. -/
def TsTable.deleteExpiredData (t : TsTable σ) (del : σ → KStatus × σ) : KStatus × TsTable σ :=
  let r := walkGroups del .fail t.entityGroups
  (r.1, { t with entityGroups := r.2 })

/-- `TSxClean` succeeds when every group's clean does, a table without groups included. -/
theorem tsxClean_success_iff (t : TsTable σ) (clean : σ → KStatus × σ) :
    (TsTable.tsxClean t clean).1 = .success ↔ ∀ e ∈ t.entityGroups, (clean e.2.store).1 = .success := by
  simp only [TsTable.tsxClean, walkGroups_success_iff, implies_true, true_and]

/-- With the groups' own `TSxClean`, which cannot fail, `TsTable::TSxClean` always succeeds. -/
theorem tsxClean_entityGroupTSxClean (t : TsTable σ) (cleanTagFiles : σ → σ) :
    (TsTable.tsxClean t (entityGroupTSxClean cleanTagFiles)).1 = .success :=
  (tsxClean_success_iff t _).mpr fun _ _ => rfl

/-- `Compress` succeeds when `entity_bt_` is set and every group's compress does. -/
theorem compress_success_iff (t : TsTable σ) (act : σ → KStatus × σ) :
    (TsTable.compress t act).1 = .success ↔
      t.entityBt ∧ ∀ e ∈ t.entityGroups, (act e.2.store).1 = .success := by
  cases h : t.entityBt
  · simp only [TsTable.compress, h, Bool.not_false, reduceIte, reduceCtorEq, Bool.false_eq_true, false_and]
  · simp only [TsTable.compress, h, Bool.not_true, Bool.false_eq_true, reduceIte, walkGroups_success_iff,
      implies_true, true_and]

/-- `DeleteExpiredData` succeeds when the table has a group and every group's delete succeeds:
on a table without groups it fails, where `TSxClean` and `Compress` succeed. -/
theorem deleteExpiredData_success_iff (t : TsTable σ) (del : σ → KStatus × σ) :
    (TsTable.deleteExpiredData t del).1 = .success ↔
      t.entityGroups ≠ [] ∧ ∀ e ∈ t.entityGroups, (del e.2.store).1 = .success := by
  simp only [TsTable.deleteExpiredData, walkGroups_success_iff, reduceCtorEq, imp_false, ne_eq]

/-- `TSxClean`, `Compress` and `DeleteExpiredData` end in `SUCCESS` exactly when every group's own
method does, `Compress` also needing `entity_bt_`; they part on a table without groups, where
`TSxClean` succeeds, `Compress` succeeds when `entity_bt_` is set, and `DeleteExpiredData`, whose
status starts as `FAIL`, fails. -/
theorem groupWalks_success_iff (t : TsTable σ) (clean compressGroup del : σ → KStatus × σ) :
    ((TsTable.tsxClean t clean).1 = .success ↔ ∀ e ∈ t.entityGroups, (clean e.2.store).1 = .success) ∧
      ((TsTable.compress t compressGroup).1 = .success ↔
        t.entityBt ∧ ∀ e ∈ t.entityGroups, (compressGroup e.2.store).1 = .success) ∧
      ((TsTable.deleteExpiredData t del).1 = .success ↔
        t.entityGroups ≠ [] ∧ ∀ e ∈ t.entityGroups, (del e.2.store).1 = .success) :=
  ⟨tsxClean_success_iff t clean, compress_success_iff t compressGroup, deleteExpiredData_success_iff t del⟩

/-! ## The walk over the leaders -/

/-- What a leader walk does with one leader: take what it yields, pass over it, or fail. -/
inductive LeaderStep (α : Type)
  | take (as : List α)
  | skip
  | fail

/-- What a step yields. -/
def LeaderStep.taken : LeaderStep α → List α
  | .take as => as
  | _ => []

/-- Whether a step fails. -/
def LeaderStep.failed : LeaderStep α → Bool
  | .fail => true
  | _ => false

/-- The loop of `GetAllLeaderEntityGroup`, `GetEntityIdList`, `GetTagIterator` and
`GetMetaIterator`: an uninitialized group fails the walk, a follower is passed over, and a
leader goes to `onLeader`; `out` is the vector the walk appends to. -/
def walkLeaders (onLeader : EntityGroup σ → LeaderStep α) (out : List α) :
    List (Nat × EntityGroup σ) → KStatus × List α
  | [] => (.success, out)
  | (_, g) :: gs =>
    match g.hashRange.typ with
    | .uninitialized => (.fail, out)
    | .follower => walkLeaders onLeader out gs
    | .leader =>
      match onLeader g with
      | .take as => walkLeaders onLeader (out ++ as) gs
      | .skip => walkLeaders onLeader out gs
      | .fail => (.fail, out)

/-- A leader walk gets through `gs`: no group is uninitialized, and no leader's step fails. -/
def LeadersOk (onLeader : EntityGroup σ → LeaderStep α) (gs : List (Nat × EntityGroup σ)) : Prop :=
  ∀ e ∈ gs, e.2.hashRange.typ ≠ .uninitialized ∧
    (e.2.hashRange.typ = .leader → (onLeader e.2).failed = false)

/-- What the leaders among `gs` yield, in order. -/
def leaderYield (onLeader : EntityGroup σ → LeaderStep α) (gs : List (Nat × EntityGroup σ)) :
    List α :=
  gs.flatMap fun e => if e.2.hashRange.typ = .leader then (onLeader e.2).taken else []

@[simp] theorem leaderYield_cons (onLeader : EntityGroup σ → LeaderStep α) (k : Nat) (g : EntityGroup σ)
    (gs : List (Nat × EntityGroup σ)) :
    leaderYield onLeader ((k, g) :: gs) =
      (if g.hashRange.typ = .leader then (onLeader g).taken else []) ++ leaderYield onLeader gs :=
  List.flatMap_cons _ _ _

theorem leadersOk_cons (onLeader : EntityGroup σ → LeaderStep α) (k : Nat) (g : EntityGroup σ)
    (gs : List (Nat × EntityGroup σ)) :
    LeadersOk onLeader ((k, g) :: gs) ↔
      (g.hashRange.typ ≠ .uninitialized ∧
        (g.hashRange.typ = .leader → (onLeader g).failed = false)) ∧ LeadersOk onLeader gs :=
  List.forall_mem_cons

/-- A leader walk succeeds exactly when it gets through `gs`. -/
theorem walkLeaders_success_iff (onLeader : EntityGroup σ → LeaderStep α) (out : List α)
    (gs : List (Nat × EntityGroup σ)) :
    (walkLeaders onLeader out gs).1 = .success ↔ LeadersOk onLeader gs := by
  induction gs generalizing out with
  | nil => simp [walkLeaders, LeadersOk]
  | cons e gs ih =>
    obtain ⟨k, g⟩ := e
    rw [leadersOk_cons]
    cases hty : g.hashRange.typ
    · cases hstep : onLeader g <;> simp [walkLeaders, hty, hstep, ih, LeaderStep.failed]
    · simp [walkLeaders, hty, ih]
    · simp [walkLeaders, hty]

/-- What a leader walk that gets through `gs` leaves in its vector. -/
theorem walkLeaders_of_ok {onLeader : EntityGroup σ → LeaderStep α} {gs : List (Nat × EntityGroup σ)}
    (h : LeadersOk onLeader gs) (out : List α) :
    walkLeaders onLeader out gs = (.success, out ++ leaderYield onLeader gs) := by
  induction gs generalizing out with
  | nil => simp [walkLeaders, leaderYield]
  | cons e gs ih =>
    obtain ⟨k, g⟩ := e
    obtain ⟨⟨hun, hfail⟩, hgs⟩ := (leadersOk_cons onLeader k g gs).mp h
    cases hty : g.hashRange.typ
    · have hnf := hfail hty
      cases hstep : onLeader g with
      | take as =>
        simp only [walkLeaders, hty, hstep, leaderYield_cons, reduceIte, LeaderStep.taken, ih hgs,
          List.append_assoc]
      | skip => simp only [walkLeaders, hty, hstep, leaderYield_cons, reduceIte, LeaderStep.taken, ih hgs,
          List.nil_append]
      | fail => simp only [hstep, LeaderStep.failed, Bool.true_eq_false] at hnf
    · simp only [walkLeaders, hty, leaderYield_cons, reduceCtorEq, reduceIte, ih hgs, List.nil_append]
    · exact absurd hty hun

/-- The iteration order of the map does not matter: over any reordering of the entries a leader
walk ends the same way, and what it collects is the same up to order. -/
theorem walkLeaders_perm (onLeader : EntityGroup σ → LeaderStep α) (out : List α)
    {gs gs' : List (Nat × EntityGroup σ)} (h : gs.Perm gs') :
    ((walkLeaders onLeader out gs).1 = .success ↔ (walkLeaders onLeader out gs').1 = .success) ∧
      ((walkLeaders onLeader out gs).1 = .success →
        (walkLeaders onLeader out gs).2.Perm (walkLeaders onLeader out gs').2) := by
  have hok : LeadersOk onLeader gs ↔ LeadersOk onLeader gs' := by
    simp only [LeadersOk, h.mem_iff]
  refine ⟨by rw [walkLeaders_success_iff, walkLeaders_success_iff, hok], fun hs => ?_⟩
  have hgs := (walkLeaders_success_iff onLeader out gs).mp hs
  rw [walkLeaders_of_ok hgs, walkLeaders_of_ok (hok.mp hgs)]
  exact (h.flatMap_right _).append_left out

/-- A leader and a follower, listed in either order. -/
def sampleGroups : List (Nat × EntityGroup Unit) :=
  [(1, ⟨⟨1, .leader⟩, ()⟩), (2, ⟨⟨2, .follower⟩, ()⟩), (3, ⟨⟨3, .leader⟩, ()⟩)]

theorem walkLeaders_perm_sampleGroups :
    sampleGroups.Perm sampleGroups.reverse ∧
      ((walkLeaders (fun g => .take [g.hashRange.rangeGroupId]) [] sampleGroups).1 = .success ↔
        (walkLeaders (fun g => .take [g.hashRange.rangeGroupId]) [] sampleGroups.reverse).1 = .success) ∧
      ((walkLeaders (fun g => .take [g.hashRange.rangeGroupId]) [] sampleGroups).1 = .success →
        (walkLeaders (fun g => .take [g.hashRange.rangeGroupId]) [] sampleGroups).2.Perm
          (walkLeaders (fun g => .take [g.hashRange.rangeGroupId]) [] sampleGroups.reverse).2) :=
  have h : sampleGroups.Perm sampleGroups.reverse := (List.reverse_perm _).symm
  ⟨h, walkLeaders_perm _ [] h⟩

/-! ## The methods -/

/-- `TsTable::GetAllLeaderEntityGroup`: `out` is the caller's vector, cleared once `entity_bt_`
is found set. -/
def TsTable.getAllLeaderEntityGroup (t : TsTable σ) (out : List (EntityGroup σ)) :
    KStatus × List (EntityGroup σ) :=
  if !t.entityBt then (.fail, out)
  else walkLeaders (fun g => .take [g]) [] t.entityGroups

/-- `TsTable::GetEntityIdList`: `idList` is the group's `GetEntityIdList`, with what it appends;
the status it returns is not looked at. -/
def TsTable.getEntityIdList (t : TsTable σ) (idList : EntityGroup σ → KStatus × List α) (out : List α) :
    KStatus × List α :=
  walkLeaders (fun g => .take (idList g).2) out t.entityGroups

/-- The end of `GetTagIterator` and `GetMetaIterator`: after a walk that gets through, the
iterator over the groups' iterators is made and its `Init` run; it is handed out, given by the
group iterators it is made of, when `Init` succeeds. -/
def handOutIterator {It : Type} (iterInit : List It → KStatus) : KStatus × List It → KStatus × Option (List It)
  | (.fail, _) => (.fail, none)
  | (.success, its) =>
    match iterInit its with
    | .success => (.success, some its)
    | .fail => (.fail, none)

/-- `TsTable::GetTagIterator`: `tagIter` is the group's `GetTagIterator`, `none` when it sets no
iterator, and `iterInit` is `TagIterator::Init`. -/
def TsTable.getTagIterator {It : Type} (t : TsTable σ) (tagIter : EntityGroup σ → Option It)
    (iterInit : List It → KStatus) : KStatus × Option (List It) :=
  handOutIterator iterInit (walkLeaders
    (fun g => match tagIter g with | some it => .take [it] | none => .fail) [] t.entityGroups)

/-- `TsTable::GetMetaIterator`: `metaIter` is the group's `GetMetaIterator`, `none` when it
fails, and `iterInit` is `MetaIterator::Init`. -/
def TsTable.getMetaIterator {It : Type} (t : TsTable σ) (metaIter : EntityGroup σ → Option It)
    (iterInit : List It → KStatus) : KStatus × Option (List It) :=
  handOutIterator iterInit (walkLeaders
    (fun g => match metaIter g with | some it => .take [it] | none => .skip) [] t.entityGroups)

theorem handOutIterator_eq_success_iff {It : Type} (iterInit : List It → KStatus) (r : KStatus × List It)
    (its : List It) :
    handOutIterator iterInit r = (.success, some its) ↔ r = (.success, its) ∧ iterInit its = .success := by
  rcases r with ⟨_ | _, rs⟩
  · cases hi : iterInit rs <;> simp [handOutIterator, hi]
    · rintro rfl; exact hi
    · rintro rfl; simp_all
  · simp [handOutIterator]

/-- The groups of the leaders, in the map's order. -/
def leaderGroups (gs : List (Nat × EntityGroup σ)) : List (EntityGroup σ) :=
  (gs.map Prod.snd).filter fun g => g.hashRange.typ = .leader

@[simp] theorem leaderGroups_cons (k : Nat) (g : EntityGroup σ) (gs : List (Nat × EntityGroup σ)) :
    leaderGroups ((k, g) :: gs) = if g.hashRange.typ = .leader then g :: leaderGroups gs else leaderGroups gs := by
  by_cases h : g.hashRange.typ = .leader <;> simp [leaderGroups, List.filter_cons, h]

/-- No group is uninitialized. -/
def NoneUninitialized (gs : List (Nat × EntityGroup σ)) : Prop :=
  ∀ e ∈ gs, e.2.hashRange.typ ≠ .uninitialized

theorem leadersOk_take {f : EntityGroup σ → List α} {gs : List (Nat × EntityGroup σ)} :
    LeadersOk (fun g => .take (f g)) gs ↔ NoneUninitialized gs := by
  simp only [LeadersOk, NoneUninitialized, LeaderStep.failed, implies_true, and_true]

/-- A leader walk succeeds exactly when it gets through `gs`, and then it has appended what the
leaders yield. -/
theorem walkLeaders_eq_success_iff (onLeader : EntityGroup σ → LeaderStep α) (out r : List α)
    (gs : List (Nat × EntityGroup σ)) :
    walkLeaders onLeader out gs = (.success, r) ↔
      LeadersOk onLeader gs ∧ r = out ++ leaderYield onLeader gs := by
  by_cases hok : LeadersOk onLeader gs
  · rw [walkLeaders_of_ok hok]
    simp [hok, eq_comm]
  · have hfail := mt (walkLeaders_success_iff onLeader out gs).mp hok
    simp only [hok, false_and, iff_false]
    exact fun heq => hfail (by rw [heq])

theorem leaderYield_take (f : EntityGroup σ → List α) (gs : List (Nat × EntityGroup σ)) :
    leaderYield (fun g => .take (f g)) gs = (leaderGroups gs).flatMap f := by
  induction gs with
  | nil => rfl
  | cons e gs ih =>
    by_cases h : e.2.hashRange.typ = .leader <;>
      simp_all [leaderYield, leaderGroups, LeaderStep.taken, List.filter_cons]

/-- A walk that takes `f` of every leader succeeds exactly when no group is uninitialized, and
then appends `f` of each leader. -/
theorem walkLeaders_take_eq_success_iff (f : EntityGroup σ → List α) (out r : List α)
    (gs : List (Nat × EntityGroup σ)) :
    walkLeaders (fun g => .take (f g)) out gs = (.success, r) ↔
      NoneUninitialized gs ∧ r = out ++ (leaderGroups gs).flatMap f := by
  rw [walkLeaders_eq_success_iff, leadersOk_take, leaderYield_take]

/-- `GetAllLeaderEntityGroup` succeeds exactly when `entity_bt_` is set and no group is
uninitialized, and then hands back the leader groups and nothing else. -/
theorem getAllLeaderEntityGroup_eq_success_iff (t : TsTable σ) (out leaders : List (EntityGroup σ)) :
    TsTable.getAllLeaderEntityGroup t out = (.success, leaders) ↔
      t.entityBt ∧ NoneUninitialized t.entityGroups ∧ leaders = leaderGroups t.entityGroups := by
  unfold TsTable.getAllLeaderEntityGroup
  cases t.entityBt
  · simp
  · simp [walkLeaders_take_eq_success_iff (fun g => [g])]

/-- `GetEntityIdList` succeeds exactly when no group is uninitialized, whatever the leaders' own
`GetEntityIdList` return, and then the caller's vector is followed by everything the leaders
appended: the failure of a leader's lookup is not reported. -/
theorem getEntityIdList_eq_success_iff (t : TsTable σ) (idList : EntityGroup σ → KStatus × List α)
    (out ids : List α) :
    TsTable.getEntityIdList t idList out = (.success, ids) ↔
      NoneUninitialized t.entityGroups ∧
        ids = out ++ (leaderGroups t.entityGroups).flatMap fun g => (idList g).2 :=
  walkLeaders_take_eq_success_iff _ out ids t.entityGroups

theorem mem_leaderGroups {g : EntityGroup σ} {gs : List (Nat × EntityGroup σ)} :
    g ∈ leaderGroups gs ↔ (∃ k, (k, g) ∈ gs) ∧ g.hashRange.typ = .leader := by
  simp only [leaderGroups, List.mem_filter, List.mem_map, decide_eq_true_eq, Prod.exists, exists_eq_right]

theorem leaderYield_option (f : EntityGroup σ → Option α) {s : LeaderStep α} (hs : s.taken = [])
    (gs : List (Nat × EntityGroup σ)) :
    leaderYield (fun g => match f g with | some a => .take [a] | none => s) gs =
      (leaderGroups gs).filterMap f := by
  induction gs with
  | nil => rfl
  | cons e gs ih =>
    obtain ⟨k, g⟩ := e
    rw [leaderYield_cons, leaderGroups_cons, ih]
    by_cases h : g.hashRange.typ = .leader
    · cases hf : f g with
      | none => simp only [h, hf, reduceIte, hs, List.filterMap_cons, List.nil_append]
      | some a => simp only [h, hf, reduceIte, LeaderStep.taken, List.filterMap_cons, List.singleton_append]
    · simp only [h, reduceIte, List.nil_append]

/-- `GetTagIterator` succeeds exactly when no group is uninitialized, every leader gives a tag
iterator and `TagIterator::Init` over them succeeds; the iterator handed out is made of the
leaders' iterators. -/
theorem getTagIterator_eq_success_iff {It : Type} (t : TsTable σ) (tagIter : EntityGroup σ → Option It)
    (iterInit : List It → KStatus) (its : List It) :
    TsTable.getTagIterator t tagIter iterInit = (.success, some its) ↔
      (NoneUninitialized t.entityGroups ∧ ∀ g ∈ leaderGroups t.entityGroups, (tagIter g).isSome) ∧
        its = (leaderGroups t.entityGroups).filterMap tagIter ∧ iterInit its = .success := by
  have hok : LeadersOk (fun g => match tagIter g with | some it => .take [it] | none => .fail)
      t.entityGroups ↔
      NoneUninitialized t.entityGroups ∧ ∀ g ∈ leaderGroups t.entityGroups, (tagIter g).isSome := by
    simp only [LeadersOk, NoneUninitialized, mem_leaderGroups]
    constructor
    · intro h
      refine ⟨fun e he => (h e he).1, fun g ⟨⟨k, hk⟩, hl⟩ => ?_⟩
      have hnf := (h _ hk).2 hl
      cases hg : tagIter g with
      | none => simp only [hg, LeaderStep.failed, Bool.true_eq_false] at hnf
      | some it => rfl
    · rintro ⟨hun, hsome⟩ e he
      refine ⟨hun e he, fun hl => ?_⟩
      obtain ⟨it, hit⟩ := Option.isSome_iff_exists.mp (hsome e.2 ⟨⟨e.1, he⟩, hl⟩)
      simp [hit, LeaderStep.failed]
  rw [TsTable.getTagIterator, handOutIterator_eq_success_iff, walkLeaders_eq_success_iff, hok,
    leaderYield_option tagIter (s := .fail) rfl, List.nil_append, and_assoc]

/-- `GetMetaIterator` passes over a leader whose meta iterator cannot be made: it succeeds
exactly when no group is uninitialized and `MetaIterator::Init` over the iterators the leaders
do give succeeds. -/
theorem getMetaIterator_eq_success_iff {It : Type} (t : TsTable σ) (metaIter : EntityGroup σ → Option It)
    (iterInit : List It → KStatus) (its : List It) :
    TsTable.getMetaIterator t metaIter iterInit = (.success, some its) ↔
      NoneUninitialized t.entityGroups ∧
        its = (leaderGroups t.entityGroups).filterMap metaIter ∧ iterInit its = .success := by
  have hok : LeadersOk (fun g => match metaIter g with | some it => .take [it] | none => .skip)
      t.entityGroups ↔ NoneUninitialized t.entityGroups := by
    refine ⟨fun h e he => (h e he).1, fun h e he => ⟨h e he, fun _ => ?_⟩⟩
    cases hm : metaIter e.2 <;> simp [hm, LeaderStep.failed]
  rw [TsTable.getMetaIterator, handOutIterator_eq_success_iff, walkLeaders_eq_success_iff, hok,
    leaderYield_option metaIter (s := .skip) rfl, List.nil_append, and_assoc]

end KwdbTs.Storage
