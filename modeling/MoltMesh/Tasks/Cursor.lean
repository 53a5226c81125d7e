import Mathlib.Data.List.Count
import MoltMesh.Tasks.Deliveries

/-!
# Following the deliveries

A worker calls `ListDeliveries` again and again, each time with the largest sequence number it has
been given, while tasks are created, claimed and offered again.  What it is given comes in
strict order (`pairwise_returned`).  A task that waits is not missed: a page without it
is a page of deliveries before it, and there are only so many of them.
-/

namespace MoltMesh.Tasks

open MoltMesh.Lib MoltMesh.Tasks.Store

variable {ds : List TaskDelivery}

/-- The store and the cursor of a worker, the largest sequence number it has been given. -/
structure Poll where
  store : Store
  cursor : Nat

namespace Poll

inductive Input
  /-- An operation of anyone. -/
  | op (i : Tasks.Input)
  /-- The worker calls `ListDeliveries`. -/
  | list (env : Env) (limit : Int)

/-- The largest sequence number returned so far. -/
def highest (cursor : Nat) : Except TaskError (List TaskDelivery) → Nat
  | .error _ => cursor
  | .ok ds => ds.foldl (fun cursor d => max cursor d.sequence) cursor

section Step

variable (worker : String) (skills : List String)

/-- One operation or one call. -/
def step (p : Poll) : Input → Option (Except TaskError (List TaskDelivery)) × Poll
  | .op i => (none, { p with store := (Tasks.step p.store i).2 })
  | .list env limit =>
    let listed := p.store.listDeliveries env worker skills p.cursor limit
    (some listed.1, ⟨listed.2, highest p.cursor listed.1⟩)

/-- Task `id` waits for the worker, and its latest delivery is `q`. -/
def Waiting (p : Poll) (id : String) (q : Nat) : Prop :=
  ∃ row, p.store.tasks.lookup id = some row ∧ available worker skills row = true ∧ p.store.latest id = some q

end Step

/-- What a call returns. -/
def returned (t : Turn Poll Input (Option (Except TaskError (List TaskDelivery)))) : List TaskDelivery :=
  match t.output with
  | some (.ok ds) => ds
  | _ => []

/-- The turn is a call of `ListDeliveries` that succeeds. -/
def answered (t : Turn Poll Input (Option (Except TaskError (List TaskDelivery)))) : Bool :=
  match t.output with
  | some (.ok _) => true
  | _ => false

/-! ## One call -/

section Call

variable {worker : String} {skills : List String} {p : Poll} {cursor q : Nat}

theorem le_highest (ds : List TaskDelivery) :
    cursor ≤ highest cursor (.ok ds) ∧ ∀ d ∈ ds, d.sequence ≤ highest cursor (.ok ds) := by
  unfold highest
  dsimp only
  induction ds generalizing cursor with
  | nil => exact ⟨Nat.le_refl _, fun d hd => absurd hd List.not_mem_nil⟩
  | cons d ds ih =>
    obtain ⟨hcursor, hds⟩ := @ih (max cursor d.sequence)
    refine ⟨(Nat.le_max_left _ _).trans hcursor, fun d' hd' => ?_⟩
    rcases List.mem_cons.mp hd' with rfl | hd'
    · exact (Nat.le_max_right _ _).trans hcursor
    · exact hds d' hd'

theorem highest_lt (hcursor : cursor < q) (hds : ∀ d ∈ ds, d.sequence < q) :
    highest cursor (.ok ds) < q := by
  unfold highest
  dsimp only
  induction ds generalizing cursor with
  | nil => exact hcursor
  | cons d ds ih =>
    refine ih (Nat.max_lt.mpr ⟨hcursor, hds d (by simp)⟩) fun d' hd' => hds d' (by simp [hd'])

/-- What `ListDeliveries` returns is a page of the offers in the store it leaves. -/
theorem listDeliveries_eq_ok {s : Store} {env : Env} {limit : Int}
    (h : (s.listDeliveries env worker skills cursor limit).1 = .ok ds) :
    ds = limited limit ((s.listDeliveries env worker skills cursor limit).2.offers worker skills cursor) := by
  unfold listDeliveries at h ⊢
  generalize s.requeueExpired env = requeued at h ⊢
  rcases requeued with ⟨err | _, s'⟩
  · split_ifs at h
  · dsimp only at h ⊢
    split_ifs at h ⊢
    cases hfails : env.fails .get with
    | some err =>
      rw [hfails] at h
      cases h
    | none =>
      rw [hfails] at h
      cases h
      rfl

theorem grows_listDeliveries {s : Store} (hs : s.Sequenced) (env : Env) (limit : Int) :
    Grows s (s.listDeliveries env worker skills cursor limit).2 := by
  have hgrows := grows_requeueExpired hs env
  unfold listDeliveries
  split
  · exact .refl s
  split
  · rename_i hrequeue
    rwa [hrequeue] at hgrows
  · rename_i hrequeue
    rw [hrequeue] at hgrows
    split
    · exact hgrows
    · split <;> exact hgrows

theorem grows_step (worker : String) (skills : List String) (hs : p.store.Sequenced) (i : Input) :
    Grows p.store (step worker skills p i).2.store := by
  cases i with
  | op i => exact Tasks.grows_step hs i
  | list env limit => exact grows_listDeliveries hs env limit

/-- The cursor does not go back, and what is returned lies between the cursors. -/
theorem returned_step (worker : String) (skills : List String) (p : Poll) (i : Input) :
    p.cursor ≤ (step worker skills p i).2.cursor ∧
      (returned (turn (step worker skills) p i)).Pairwise (fun x y => x.sequence < y.sequence) ∧
        ∀ d ∈ returned (turn (step worker skills) p i),
          p.cursor < d.sequence ∧ d.sequence ≤ (step worker skills p i).2.cursor := by
  have hnone : ([] : List TaskDelivery).Pairwise (fun x y => x.sequence < y.sequence) ∧ ∀ d ∈ ([] : List TaskDelivery),
      p.cursor < d.sequence ∧ d.sequence ≤ (step worker skills p i).2.cursor :=
    ⟨.nil, fun d hd => absurd hd List.not_mem_nil⟩
  cases i with
  | op i => exact ⟨Nat.le_refl _, hnone⟩
  | list env limit =>
    cases hlisted : (p.store.listDeliveries env worker skills p.cursor limit).1 with
    | error err =>
      simp only [returned, turn, step, hlisted, highest] at hnone ⊢
      exact ⟨Nat.le_refl _, hnone⟩
    | ok ds =>
      have hpage := listDeliveries_eq_ok hlisted
      have hsublist := limited_sublist limit
        ((p.store.listDeliveries env worker skills p.cursor limit).2.offers worker skills p.cursor)
      rw [← hpage] at hsublist
      obtain ⟨hcursor, hle⟩ := @le_highest p.cursor ds
      simp only [returned, turn, step, hlisted]
      refine ⟨hcursor, (pairwise_offers ..).sublist hsublist, fun d hd => ⟨?_, hle d hd⟩⟩
      obtain ⟨row, -, -, -, hafter, -⟩ := mem_offers.mp (hsublist.subset hd)
      exact hafter

/-! ## A chain of calls -/

/-- What has been returned comes in strict order, and the cursor is not below it. -/
theorem pairwise_returned (worker : String) (skills : List String) (p : Poll) (is : List Input) :
    ((turns (step worker skills) p is).flatMap returned).Pairwise (fun x y => x.sequence < y.sequence) ∧
      ∀ d ∈ (turns (step worker skills) p is).flatMap returned,
        d.sequence ≤ (runs (step worker skills) p is).cursor := by
  induction is using List.reverseRecOn with
  | nil => exact ⟨.nil, fun d hd => absurd hd List.not_mem_nil⟩
  | append_singleton is i ih =>
    obtain ⟨hpairwise, hle⟩ := ih
    obtain ⟨hcursor, hpage, hbetween⟩ := returned_step worker skills (runs (step worker skills) p is) i
    rw [turns_concat, runs_concat, List.flatMap_append, List.flatMap_singleton]
    refine ⟨List.pairwise_append.mpr ⟨hpairwise, hpage, fun x hx y hy => ?_⟩, fun d hd => ?_⟩
    · exact (hle x hx).trans_lt (hbetween y hy).1
    · rcases List.mem_append.mp hd with hd | hd
      · exact (hle d hd).trans hcursor
      · exact (hbetween d hd).2

/-- The number of deliveries above the cursor that are not above `q`. -/
def pending (p : Poll) (q : Nat) : Nat :=
  p.store.deliveries.rows.countP fun d => p.cursor < d.sequence ∧ d.sequence ≤ q

/-- New deliveries are above those that have been given out. -/
theorem countP_of_grows {s s' : Store} (h : Grows s s') (hq : q ≤ s.lastSequence) (cursor : Nat) :
    (s'.deliveries.rows.countP fun d => cursor < d.sequence ∧ d.sequence ≤ q) =
      s.deliveries.rows.countP fun d => cursor < d.sequence ∧ d.sequence ≤ q := by
  obtain ⟨new, hrows, hnew⟩ := h.rows
  rw [hrows, List.countP_append, Nat.add_eq_left, List.countP_eq_zero]
  intro d hd hle
  have hlt := (hnew d hd).1
  have hle := (of_decide_eq_true hle).2
  omega

/-- A page that ends before `q` leaves fewer deliveries. -/
theorem countP_lt_of_mem {rows : List DeliveryRow} {cursor' : Nat} {d : DeliveryRow} (hd : d ∈ rows)
    (hafter : cursor < d.sequence) (hle : d.sequence ≤ cursor') (hq : cursor' < q) :
    (rows.countP fun d => cursor' < d.sequence ∧ d.sequence ≤ q) <
      rows.countP fun d => cursor < d.sequence ∧ d.sequence ≤ q := by
  have hsplit : (rows.countP fun d => cursor' < d.sequence ∧ d.sequence ≤ q) =
      (rows.filter fun d => cursor < d.sequence ∧ d.sequence ≤ q).countP fun d => cursor' < d.sequence := by
    rw [List.countP_filter]
    refine List.countP_congr fun d' _ => ?_
    simp only [Bool.and_eq_true, decide_eq_true_eq]
    omega
  rw [hsplit, List.countP_eq_length_filter (p := fun d : DeliveryRow => decide (cursor < d.sequence ∧ d.sequence ≤ q)),
    List.countP_lt_length_iff]
  exact ⟨d, List.mem_filter.mpr ⟨hd, decide_eq_true ⟨hafter, by omega⟩⟩, decide_eq_false (by omega)⟩

/-- A waiting task is returned by the next call that succeeds, or the call returns deliveries before it. -/
theorem returned_or_lt {env : Env} {limit : Int} {id : String} (hcursor : p.cursor < q)
    (hlisted : (p.store.listDeliveries env worker skills p.cursor limit).1 = .ok ds)
    (hwaiting : Waiting worker skills (step worker skills p (.list env limit)).2 id q) :
    (∃ d ∈ ds, d.task.id = id ∧ d.sequence = q) ∨
      (step worker skills p (.list env limit)).2.cursor < q ∧
        pending (step worker skills p (.list env limit)).2 q <
          (step worker skills p (.list env limit)).2.store.deliveries.rows.countP fun d =>
            p.cursor < d.sequence ∧ d.sequence ≤ q := by
  have hpage := listDeliveries_eq_ok hlisted
  simp only [step, hlisted] at hwaiting ⊢
  generalize hs : (p.store.listDeliveries env worker skills p.cursor limit).2 = s at hwaiting hpage ⊢
  obtain ⟨row, hrow, havailable, hlatest⟩ := hwaiting
  obtain rfl := id_of_lookup hrow
  have hoffer : (⟨row.task, q⟩ : TaskDelivery) ∈ s.offers worker skills p.cursor :=
    mem_offers.mpr ⟨row, hrow, rfl, havailable, hcursor, hlatest⟩
  rcases mem_limited_or_lt (pairwise_offers ..) hoffer limit with hmem | ⟨hne, hlt⟩
  · exact .inl ⟨_, hpage ▸ hmem, rfl, rfl⟩
  · rw [← hpage] at hne hlt
    obtain ⟨d, hd⟩ := List.exists_mem_of_ne_nil _ hne
    have hbelow := highest_lt hcursor hlt
    refine .inr ⟨hbelow, ?_⟩
    have hsublist := limited_sublist limit (s.offers worker skills p.cursor)
    rw [← hpage] at hsublist
    obtain ⟨row', -, -, -, hafter, hlatest'⟩ := mem_offers.mp (hsublist.subset hd)
    obtain ⟨⟨d', hd', -, hsequence⟩, -⟩ := latest_eq_some.mp hlatest'
    refine countP_lt_of_mem hd' (hsequence ▸ hafter) ?_ hbelow
    rw [hsequence]
    exact (le_highest ds).2 d hd

/-- A waiting task is returned after as many calls as there are deliveries up to its own. -/
theorem returned_of_pending (hs : p.store.Sequenced) {id : String} (hcursor : p.cursor < q) {is : List Input}
    (hwaiting : ∀ m ∈ moments (step worker skills) p is, Waiting worker skills m id q)
    (hcalls : pending p q ≤ (turns (step worker skills) p is).countP answered) :
    ∃ d ∈ (turns (step worker skills) p is).flatMap returned, d.task.id = id ∧ d.sequence = q := by
  have hq : q ≤ p.store.lastSequence := by
    obtain ⟨row, -, -, hlatest⟩ := hwaiting p (by simp [moments])
    obtain ⟨⟨d, hd, -, rfl⟩, -⟩ := latest_eq_some.mp hlatest
    exact hs d hd
  induction is generalizing p with
  | nil =>
    obtain ⟨row, -, -, hlatest⟩ := hwaiting p (by simp [moments])
    obtain ⟨⟨d, hd, -, rfl⟩, -⟩ := latest_eq_some.mp hlatest
    have hpos : 0 < pending p d.sequence :=
      List.countP_pos_iff.mpr ⟨d, hd, decide_eq_true ⟨hcursor, Nat.le_refl _⟩⟩
    exact absurd hcalls (Nat.not_le.mpr hpos)
  | cons i is ih =>
    obtain ⟨-, hlater⟩ := List.forall_mem_cons.mp hwaiting
    have hgrows := grows_step worker skills hs i
    have hnext : ∀ m ∈ moments (step worker skills) (step worker skills p i).2 is, Waiting worker skills m id q := hlater
    have hrest (hcursor : (step worker skills p i).2.cursor < q)
        (hcalls : pending (step worker skills p i).2 q ≤
          (turns (step worker skills) (step worker skills p i).2 is).countP answered) :
        ∃ d ∈ (turns (step worker skills) p (i :: is)).flatMap returned, d.task.id = id ∧ d.sequence = q := by
      obtain ⟨d, hd, hfound⟩ := ih (hgrows.sequenced hs) hcursor hnext hcalls (hq.trans hgrows.last)
      exact ⟨d, List.mem_append_right _ hd, hfound⟩
    rw [turns, List.countP_cons] at hcalls
    -- A turn that returns nothing leaves the cursor and the deliveries up to `q` as they are.
    have hsilent (hcursor' : (step worker skills p i).2.cursor = p.cursor)
        (hanswered : answered (turn (step worker skills) p i) = false) :
        ∃ d ∈ (turns (step worker skills) p (i :: is)).flatMap returned, d.task.id = id ∧ d.sequence = q := by
      refine hrest (hcursor' ▸ hcursor) ?_
      rw [hanswered, if_neg (by decide), Nat.add_zero] at hcalls
      rw [pending, hcursor', countP_of_grows hgrows hq]
      exact hcalls
    cases i with
    | op i => exact hsilent rfl rfl
    | list env limit =>
      cases hlisted : (p.store.listDeliveries env worker skills p.cursor limit).1 with
      | error err =>
        refine hsilent ?_ ?_
        · simp only [step, hlisted, highest]
        · simp only [turn, step, hlisted, answered]
      | ok ds =>
        have hreturned : returned (turn (step worker skills) p (.list env limit)) = ds := by
          simp only [returned, turn, step, hlisted]
        have hanswered : answered (turn (step worker skills) p (.list env limit)) = true := by
          simp only [answered, turn, step, hlisted]
        rcases returned_or_lt hcursor hlisted (hnext _ (by simp [moments])) with ⟨d, hd, hfound⟩ | ⟨hbelow, hlt⟩
        · exact ⟨d, List.mem_append_left _ (hreturned ▸ hd), hfound⟩
        · refine hrest hbelow ?_
          rw [hanswered, if_pos rfl] at hcalls
          rw [countP_of_grows hgrows hq] at hlt
          exact Nat.le_of_lt_succ (hlt.trans_le hcalls)

end Call

/-- **The cursor misses nothing**: for every worker, skill filter and start, and every interleaving of
operations with calls of `ListDeliveries` that pass the largest sequence number returned so far, no delivery is
returned twice, the sequence numbers increase strictly, and a task that keeps waiting with its latest delivery
`q` above the cursor has been returned after as many successful calls as there are deliveries up to `q`,
whatever their limits. -/
theorem cursor_complete (worker : String) (skills : List String) (p : Poll) (is : List Input) :
    let past := turns (step worker skills) p is
    ((past.flatMap returned).map fun d => (d.task.id, d.sequence)).Nodup ∧
      (past.flatMap returned).Pairwise (fun x y => x.sequence < y.sequence) ∧
      (p.store.Sequenced → ∀ id q, p.cursor < q → (∀ m ∈ moments (step worker skills) p is, Waiting worker skills m id q) →
        (p.store.deliveries.select fun d => d.sequence ≤ q).length ≤ past.countP answered →
          ∃ d ∈ past.flatMap returned, d.task.id = id ∧ d.sequence = q) := by
  intro past
  obtain ⟨hpairwise, -⟩ := pairwise_returned worker skills p is
  refine ⟨?_, hpairwise, fun hs id q hcursor hwaiting hcalls => returned_of_pending hs hcursor hwaiting ?_⟩
  · rw [List.nodup_iff_pairwise_ne, List.pairwise_map]
    exact hpairwise.imp fun hlt heq => Nat.ne_of_lt hlt (Prod.ext_iff.mp heq).2
  · refine Nat.le_trans ?_ hcalls
    rw [Table.select, ← List.countP_eq_length_filter]
    refine List.countP_mono_left fun d _ hd => ?_
    simp only [decide_eq_true_eq] at hd ⊢
    exact hd.2

/-! Two tasks, and a worker that asks for one at a time. -/
namespace Pair

open Errand

def errand (id : String) : NewTask := { order with id }

/-- The two tasks have been created. -/
def start : Poll :=
  ⟨runs Tasks.step .empty [⟨moment 1 "k1", .createFromRemote (errand "a")⟩, ⟨moment 2 "k2", .createFromRemote (errand "b")⟩], 0⟩

def calls : List Input := [.list (moment 3 "k3") 1, .list (moment 4 "k4") 1]

end Pair

open Pair in
theorem cursor_complete_pair : ∃ d ∈ (turns (step "did:worker" ["fetch"]) start calls).flatMap returned,
    d.task.id = "b" ∧ d.sequence = 2 := by
  refine (cursor_complete "did:worker" ["fetch"] start calls).2.2 (sequenced_empty.runs _) "b" 2 (by decide) ?_ (by decide)
  intro m hm
  have hsame : Waiting "did:worker" ["fetch"] start "b" 2 := ⟨_, rfl, by decide, by decide⟩
  rcases List.mem_cons.mp hm with rfl | hm
  · exact hsame
  rcases List.mem_cons.mp hm with rfl | hm
  · exact hsame
  · obtain rfl := List.mem_singleton.mp hm
    exact hsame

end Poll

end MoltMesh.Tasks
