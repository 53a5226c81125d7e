import Mathlib
import MoltMesh.Tasks.Calls

/-!
# Deliveries

A task is offered to its assignee under the sequence number of its latest delivery.  Deliveries
are only ever added, under numbers that have not been given out before (`grows_step`), and
`ListDeliveries` returns a page of the offers above a cursor.
-/

namespace MoltMesh.Tasks

open MoltMesh.Lib MoltMesh.Tasks.Store

/-! ## The table of deliveries -/

/-- The sequence numbers of the deliveries have been given out. -/
def Store.Sequenced (s : Store) : Prop := ∀ d ∈ s.deliveries.rows, d.sequence ≤ s.lastSequence

/-- Task `id` has a delivery. -/
def Store.Delivered (s : Store) (id : String) : Prop := ∃ d ∈ s.deliveries.rows, d.taskId = id

/-- Deliveries are added with new sequence numbers. -/
structure Grows (s s' : Store) : Prop where
  rows : ∃ new, s'.deliveries.rows = s.deliveries.rows ++ new ∧
    ∀ d ∈ new, s.lastSequence < d.sequence ∧ d.sequence ≤ s'.lastSequence
  last : s.lastSequence ≤ s'.lastSequence

theorem sequenced_empty : Store.empty.Sequenced := fun _ hd => absurd hd List.not_mem_nil

namespace Grows

variable {s s' s'' : Store}

theorem refl (s : Store) : Grows s s := ⟨⟨[], by simp⟩, Nat.le_refl _⟩

/-- Nothing happens to the deliveries. -/
theorem of_eq (hrows : s'.deliveries = s.deliveries) (hlast : s'.lastSequence = s.lastSequence) : Grows s s' :=
  ⟨⟨[], by simp [hrows]⟩, by rw [hlast]⟩

theorem trans (h : Grows s s') (h' : Grows s' s'') : Grows s s'' := by
  obtain ⟨⟨new, hrows, hnew⟩, hlast⟩ := h
  obtain ⟨⟨new', hrows', hnew'⟩, hlast'⟩ := h'
  refine ⟨⟨new ++ new', by rw [hrows', hrows, List.append_assoc], fun d hd => ?_⟩, hlast.trans hlast'⟩
  rcases List.mem_append.mp hd with hd | hd
  · exact ⟨(hnew d hd).1, (hnew d hd).2.trans hlast'⟩
  · exact ⟨hlast.trans_lt (hnew' d hd).1, (hnew' d hd).2⟩

theorem mem {d : DeliveryRow} (h : Grows s s') (hd : d ∈ s.deliveries.rows) : d ∈ s'.deliveries.rows := by
  obtain ⟨new, hrows, -⟩ := h.rows
  rw [hrows]
  exact List.mem_append_left _ hd

theorem sequenced (h : Grows s s') (hs : s.Sequenced) : s'.Sequenced := by
  obtain ⟨⟨new, hrows, hnew⟩, hlast⟩ := h
  intro d hd
  rw [hrows] at hd
  rcases List.mem_append.mp hd with hd | hd
  · exact (hs d hd).trans hlast
  · exact (hnew d hd).2

end Grows

section Steps

variable {s : Store} (hs : s.Sequenced)
include hs

theorem rows_addDelivery (id : String) (now : Int) :
    (s.addDelivery id now).deliveries.rows = s.deliveries.rows ++ [⟨s.lastSequence + 1, id, now⟩] := by
  have hfree : s.lastSequence + 1 ∉ s.deliveries.rows.map DeliveryRow.sequence := by
    intro htaken
    obtain ⟨d, hd, hsequence⟩ := List.mem_map.mp htaken
    have hle := hs d hd
    omega
  simp only [addDelivery, Table.insertOrIgnore]
  rw [dif_neg hfree]

theorem grows_addDelivery (id : String) (now : Int) : Grows s (s.addDelivery id now) := by
  refine ⟨⟨_, rows_addDelivery hs id now, fun d hd => ?_⟩, Nat.le_succ _⟩
  obtain rfl := List.mem_singleton.mp hd
  exact ⟨Nat.lt_succ_self _, Nat.le_refl _⟩

theorem delivered_addDelivery (id : String) (now : Int) : (s.addDelivery id now).Delivered id := by
  refine ⟨⟨s.lastSequence + 1, id, now⟩, ?_, rfl⟩
  rw [rows_addDelivery hs]
  exact List.mem_append_right _ (List.mem_singleton_self _)

theorem grows_requeue (now : Int) (row : TaskRow) : Grows s (requeue now s row) := by
  unfold requeue
  split
  · exact .of_eq rfl rfl
  · have hsame : Grows s (s.update (fun r => r.id = row.id)
        (fun r => noLease { r with status := .submitted, updatedAt := now }) fun _ => rfl) := .of_eq rfl rfl
    exact hsame.trans (grows_addDelivery (hsame.sequenced hs) _ _)

theorem grows_foldl_requeue (now : Int) (rows : List TaskRow) : Grows s (rows.foldl (requeue now) s) := by
  induction rows generalizing s with
  | nil => exact .refl s
  | cons row rows ih =>
    have hgrows := grows_requeue hs now row
    exact hgrows.trans (ih (hgrows.sequenced hs))

theorem grows_requeueExpired (env : Env) : Grows s (s.requeueExpired env).2 := by
  unfold requeueExpired write
  split
  · exact .refl s
  split
  · exact .refl s
  · exact grows_foldl_requeue hs _ _

theorem grows_of_leaves {s' : Store} (h : Leaves s s') : Grows s s' := by
  rcases h with rfl | ⟨env, t, s₁, hinsert, h⟩
  · exact .refl _
  obtain ⟨-, tasks, -, rfl⟩ := insertTask_ok hinsert
  rcases h with rfl | ⟨now, rfl⟩
  · exact .of_eq rfl rfl
  · have hsame : Grows s { s with tasks } := .of_eq rfl rfl
    exact hsame.trans (grows_addDelivery (s := { s with tasks }) hs _ _)

omit hs in
/-- The other operations leave the deliveries alone. -/
theorem step_deliveries (i : Input) (hcreates : i.op.creates = false) (hrequeue : i.op ≠ .requeueExpired) :
    (step s i).2.deliveries = s.deliveries ∧ (step s i).2.lastSequence = s.lastSequence := by
  obtain ⟨env, op⟩ := i
  cases op with
  | createIdempotent | createFromRemote | insertTask | insertDelivery => cases hcreates
  | requeueExpired => exact absurd rfl hrequeue
  | updateStatus id status errMsg outputs =>
    simp only [step, Prod.map_snd, updateStatus]
    repeat' split
    all_goals exact ⟨rfl, rfl⟩
  | claim id worker lease =>
    simp only [step, Prod.map_snd, claim]
    repeat' split
    all_goals exact ⟨rfl, rfl⟩
  | setMaxAttempts id max =>
    simp only [step, Prod.map_snd, setMaxAttempts, write]
    repeat' split
    all_goals exact ⟨rfl, rfl⟩
  | setTimeout id timeout =>
    simp only [step, Prod.map_snd, setTimeout, write]
    repeat' split
    all_goals exact ⟨rfl, rfl⟩
  | renewLease id worker token lease =>
    simp only [step, Prod.map_snd, renewLease]
    repeat' split
    all_goals exact ⟨rfl, rfl⟩
  | finishLease id worker token status errMsg outputs =>
    simp only [step, Prod.map_snd, finishLease]
    repeat' split
    all_goals exact ⟨rfl, rfl⟩

/-- **Deliveries are only added**, with new sequence numbers. -/
theorem grows_step (i : Input) : Grows s (step s i).2 := by
  by_cases hcreates : i.op.creates = false
  · by_cases hrequeue : i.op = .requeueExpired
    · obtain ⟨env, op⟩ := i
      cases hrequeue
      exact grows_requeueExpired hs env
    · obtain ⟨hrows, hlast⟩ := step_deliveries i hcreates hrequeue
      exact .of_eq hrows hlast
  · obtain ⟨env, op⟩ := i
    cases op with
    | createIdempotent t => exact grows_of_leaves hs (leaves_createIdempotent s env t)
    | createFromRemote t => exact grows_of_leaves hs (leaves_createFromRemote s env t)
    | insertTask t =>
      simp only [step, settle]
      split
      · exact .refl s
      · rename_i s' hinsert
        exact grows_of_leaves hs (.inr ⟨env, t, s', hinsert, .inl rfl⟩)
    | insertDelivery id =>
      cases hfails : env.fails .insertDelivery with
      | some err =>
        simp only [step, settle, insertDelivery, hfails]
        exact .refl s
      | none =>
        simp only [step, settle, insertDelivery, hfails]
        exact grows_addDelivery hs _ _
    | _ => exact absurd rfl hcreates

theorem Store.Sequenced.runs (is : List Input) : (runs step s is).Sequenced :=
  turns_induction (motive := fun _ s => Sequenced s) hs (fun _ _ i h => (grows_step h i).sequenced h) is

end Steps

/-! ## ListDeliveries -/

/-- `pb.TaskDelivery`. -/
structure TaskDelivery where
  task : Task
  sequence : Nat
deriving DecidableEq

namespace Store

variable (s : Store) (env : Env)

/-- `SELECT MAX(latest.sequence) FROM task_deliveries latest WHERE latest.task_id=?`. -/
def latest (id : String) : Option Nat := ((s.deliveries.select fun d => d.taskId = id).map DeliveryRow.sequence).max?

/-- The condition on the task in the query of `ListDeliveries`; without skills there is none on its skill. -/
def available (worker : String) (skills : List String) (row : TaskRow) : Bool :=
  row.assignee = worker ∧ row.status = .submitted ∧ (skills = [] ∨ row.skill ∈ skills)

/-- One row of the join in the query of `ListDeliveries`. -/
def offer (worker : String) (skills : List String) (after : Nat) (d : DeliveryRow) : Option TaskDelivery :=
  match s.tasks.lookup d.taskId with
  | none => none
  | some row =>
    if available worker skills row ∧ after < d.sequence ∧ s.latest row.id = some d.sequence then
      some ⟨row.task, d.sequence⟩ else none

/-- What the query of `ListDeliveries` returns without a limit. -/
def offers (worker : String) (skills : List String) (after : Nat) : List TaskDelivery :=
  orderBy (fun d => (d.sequence : Int)) (s.deliveries.rows.filterMap (s.offer worker skills after))

/-- `LIMIT`, if it is positive. -/
def limited (limit : Int) (ds : List TaskDelivery) : List TaskDelivery := if 0 < limit then ds.take limit.toNat else ds

/-- `ListDeliveries`; a cursor with the highest bit of an `uint64` is not accepted as an argument of a query. -/
def listDeliveries (worker : String) (skills : List String) (after : Nat) (limit : Int) :
    Except TaskError (List TaskDelivery) × Store :=
  if worker = "" then (.error .leaseConflict, s)
  else match s.requeueExpired env with
    | (.error err, s) => (.error err, s)
    | (.ok _, s) =>
      if 2 ^ 63 ≤ after then
        (.error (.db "sql: converting argument $3 type: uint64 values with high bit set are not supported"), s)
      else match env.fails .get with
        | some err => (.error (.db err), s)
        | none => (.ok (limited limit (s.offers worker skills after)), s)

end Store

section Offers

variable {s : Store} {env : Env} {id worker : String} {skills : List String} {after q : Nat} {limit : Int}

theorem latest_eq_some : s.latest id = some q ↔ (∃ d ∈ s.deliveries.rows, d.taskId = id ∧ d.sequence = q) ∧
    ∀ d ∈ s.deliveries.rows, d.taskId = id → d.sequence ≤ q := by
  rw [latest, List.max?_eq_some_iff]
  simp only [List.mem_map, Table.mem_select, decide_eq_true_eq, forall_exists_index, and_imp, and_assoc]
  refine and_congr_right fun _ => ⟨fun hall d hd hid => hall _ d hd hid rfl, ?_⟩
  rintro hall _ d hd hid rfl
  exact hall d hd hid

theorem mem_offers {x : TaskDelivery} : x ∈ s.offers worker skills after ↔
    ∃ row, s.tasks.lookup x.task.id = some row ∧ x.task = row.task ∧ available worker skills row = true ∧
      after < x.sequence ∧ s.latest row.id = some x.sequence := by
  simp only [offers, mem_orderBy, List.mem_filterMap, offer]
  constructor
  · rintro ⟨d, hd, hoffer⟩
    split at hoffer
    · cases hoffer
    · rename_i row hrow
      obtain ⟨⟨havailable, hafter, hlatest⟩, heq⟩ := Option.ite_none_right_eq_some.mp hoffer
      obtain rfl := Option.some.inj heq
      have hid : row.task.id = d.taskId := id_of_lookup hrow
      exact ⟨row, by rw [hid, hrow], rfl, havailable, hafter, hlatest⟩
  · obtain ⟨task, sequence⟩ := x
    rintro ⟨row, hrow, rfl, havailable, hafter, hlatest⟩
    obtain ⟨⟨d, hd, hid, rfl⟩, -⟩ := latest_eq_some.mp hlatest
    refine ⟨d, hd, ?_⟩
    rw [hid, show s.tasks.lookup row.id = some row from hrow]
    exact if_pos ⟨havailable, hafter, hlatest⟩

/-- The offers come in strict order of their numbers. -/
theorem pairwise_offers (s : Store) (worker : String) (skills : List String) (after : Nat) :
    (s.offers worker skills after).Pairwise fun x y => x.sequence < y.sequence := by
  have hsequence {d : DeliveryRow} {x : TaskDelivery} (h : s.offer worker skills after d = some x) :
      x.sequence = d.sequence := by
    unfold offer at h
    split at h
    · cases h
    · rw [← Option.some.inj (Option.ite_none_right_eq_some.mp h).2]
  have hnodup : ((s.deliveries.rows.filterMap (s.offer worker skills after)).map
      fun x => (x.sequence : Int)).Nodup := by
    rw [List.nodup_iff_pairwise_ne, List.pairwise_map]
    refine List.Pairwise.filterMap _ ?_ (List.pairwise_map.mp (List.nodup_iff_pairwise_ne.mp s.deliveries.nodup))
    intro d d' hne x hx x' hx' heq
    rw [hsequence hx, hsequence hx'] at heq
    exact hne (Int.ofNat.inj heq)
  refine (pairwise_orderBy _ hnodup).imp ?_
  intro x y hlt
  exact Int.ofNat_lt.mp hlt

theorem limited_sublist (limit : Int) (ds : List TaskDelivery) : (limited limit ds).Sublist ds := by
  unfold limited
  split
  · exact List.take_sublist _ _
  · exact List.Sublist.refl _

/-- An offer is on the page, or the page is full of offers before it. -/
theorem mem_limited_or_lt {ds : List TaskDelivery} (hds : ds.Pairwise fun x y => x.sequence < y.sequence)
    {x : TaskDelivery} (hx : x ∈ ds) (limit : Int) :
    x ∈ limited limit ds ∨ limited limit ds ≠ [] ∧ ∀ y ∈ limited limit ds, y.sequence < x.sequence := by
  unfold limited
  split
  · rename_i hlimit
    rw [← List.take_append_drop limit.toNat ds] at hds hx
    obtain ⟨-, -, hbefore⟩ := List.pairwise_append.mp hds
    rcases List.mem_append.mp hx with hx | hx
    · exact .inl hx
    · refine .inr ⟨fun hnil => ?_, fun y hy => hbefore y hy x hx⟩
      rcases List.take_eq_nil_iff.mp hnil with hzero | rfl
      · omega
      · rw [List.drop_nil] at hx
        cases hx
  · exact .inl hx

end Offers

end MoltMesh.Tasks
