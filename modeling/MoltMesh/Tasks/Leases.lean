import MoltMesh.Tasks.Rows

/-!
# Leases

A lease is a token in the row of a task, with its owner and the time it ends.  The row says
nothing about how the token came there; `Ledger` is what it says about the past of the store
all the same, under the assumption that the random tokens are new.

The operations that end a lease do not write `NULL` but the empty text, and a direct change of
the status brings the task back to `WORKING` with it.  The empty token is then taken for that
of a lease which ended in 1970.
-/

namespace MoltMesh.Tasks

open MoltMesh.Lib MoltMesh.Tasks.Store

/-- The turns a store has made. -/
abbrev Past := List (Turn Store Input Output)

/-! ## Turns that concern a lease -/

section Turns

variable (t : Turn Store Input Output) (id worker token : String)

/-- A `Claim` of the task by the worker that succeeds and returns the token. -/
def Returns : Prop :=
  ∃ lease l, t.input.op = .claim id worker lease ∧ t.output = .lease (.ok l) ∧ l.leaseToken = token

/-- A `RenewLease` with the token that succeeds. -/
def Renews : Prop := ∃ lease l, t.input.op = .renewLease id worker token lease ∧ t.output = .lease (.ok l)

/-- A `FinishLease` with the token that succeeds. -/
def Finishes : Prop :=
  ∃ status errMsg outputs task, t.input.op = .finishLease id worker token status errMsg outputs ∧
    t.output = .task (some (.ok task))

/-- A `Claim` or `RenewLease` with the token that succeeds. -/
def Extends : Prop := ∃ worker, Returns t id worker token ∨ Renews t id worker token

/-- The lease of the task ends at `x`, as the row says after the turn. -/
def EndsAt (x : Int) : Prop := ∃ row, t.after.tasks.lookup id = some row ∧ row.leaseExpiresAt = some x

/-- The task is being worked on after the turn. -/
def WorkingAfter : Prop := ∃ row, t.after.tasks.lookup id = some row ∧ row.status = .working

end Turns

/-- The token was first returned by a `Claim` of the worker; since then no `Claim` has returned another one
and the task has been worked on. -/
def Issued (past : Past) (id worker token : String) : Prop :=
  ∃ l₁ t l₂, past = l₁ ++ t :: l₂ ∧ Returns t id worker token ∧ (∀ t' ∈ l₁, ∀ w, ¬Returns t' id w token) ∧
    WorkingAfter t id ∧ ∀ t' ∈ l₂, (∀ w k, Returns t' id w k → k = token) ∧ WorkingAfter t' id

/-- The last `Claim` or `RenewLease` with the token has set an end of the lease with a property. -/
def LastEnd (past : Past) (id token : String) (p : Int → Prop) : Prop :=
  Since (fun t => ¬Extends t id token) (fun t => Extends t id token ∧ ∃ x, EndsAt t id x ∧ p x) past

/-- The random tokens of the operations are not empty and never repeat. -/
def FreshTokens (is : List Input) : Prop := (is.map fun i => i.env.token).Nodup ∧ ∀ i ∈ is, i.env.token ≠ ""

/-! ## The ledger of a task -/

/-- The random token of an operation of the past. -/
def Drawn (past : Past) (token : String) : Prop := ∃ t ∈ past, t.input.env.token = token

/-- What a token in the row of a task that is being worked on says about the past. -/
structure Held (past : Past) (id : String) (row : TaskRow) (token : String) : Prop where
  owner : row.leaseOwner = some row.assignee
  issued : Issued past id row.assignee token
  ends : ∃ x, row.leaseExpiresAt = some x ∧ LastEnd past id token (· = x)

/-- What the row of a task says about the past. -/
structure Ledger (past : Past) (id : String) (row : TaskRow) : Prop where
  queued : row.status = .submitted → row.leaseToken.getD "" = ""
  held : row.status = .working → ∀ k, row.leaseToken = some k → k ≠ "" → Held past id row k
  drawn : ∀ k, row.leaseToken = some k → k ≠ "" → Drawn past k
  blank : (∀ t ∈ past, 0 ≤ t.input.env.now) → row.leaseToken = some "" → row.leaseExpiresAt = some 0

section Past

variable {past : Past} {t : Turn Store Input Output} {id w k : String} {row row' : TaskRow}

theorem Drawn.concat (h : Drawn past k) : Drawn (past ++ [t]) k := by
  obtain ⟨t', ht', hk⟩ := h
  exact ⟨t', List.mem_append_left _ ht', hk⟩

theorem Issued.concat (h : Issued past id w k) (hreturns : ∀ w' k', Returns t id w' k' → k' = k)
    (hworking : WorkingAfter t id) : Issued (past ++ [t]) id w k := by
  obtain ⟨l₁, c, l₂, rfl, hc, hfirst, hcw, hsince⟩ := h
  refine ⟨l₁, c, l₂ ++ [t], by simp, hc, hfirst, hcw, ?_⟩
  intro t' ht'
  rcases List.mem_append.mp ht' with ht' | ht'
  · exact hsince t' ht'
  · rw [List.mem_singleton.mp ht']
    exact ⟨hreturns, hworking⟩

theorem nonneg_of_concat (h : ∀ t' ∈ past ++ [t], 0 ≤ t'.input.env.now) : ∀ t' ∈ past, 0 ≤ t'.input.env.now :=
  fun t' ht' => h t' (List.mem_append_left _ ht')

theorem Quiet.not_returns (h : Quiet id t.input.op t.output) : ¬Returns t id w k := by
  rintro ⟨lease, l, hop, hout, -⟩
  rw [hop, hout] at h
  exact h rfl

theorem Quiet.not_extends (h : Quiet id t.input.op t.output) : ¬Extends t id k := by
  rintro ⟨w, hreturns | ⟨lease, l, hop, hout⟩⟩
  · exact h.not_returns hreturns
  · rw [hop, hout] at h
    exact h rfl

/-- The row of a new task. -/
theorem ledger_row (task : NewTask) (now : Int) : Ledger past id (task.row now) where
  queued _ := rfl
  held hworking := by cases hworking
  drawn _ hk := by cases hk
  blank _ hk := by cases hk

/-- A task whose lease is taken away. -/
theorem ledger_noLease (hstatus : row.status ≠ .working) : Ledger past id (noLease row) where
  queued _ := rfl
  held hworking := absurd hworking hstatus
  drawn _ hk hne := absurd (Option.some.inj hk).symm hne
  blank _ _ := rfl

/-- The columns that a ledger is about, the status apart. -/
structure SameLease (row row' : TaskRow) : Prop where
  assignee : row'.assignee = row.assignee
  token : row'.leaseToken = row.leaseToken
  owner : row'.leaseOwner = row.leaseOwner
  ends : row'.leaseExpiresAt = row.leaseExpiresAt

/-- An operation that leaves the lease in the row needs to be checked only for a task that stays in work. -/
theorem Ledger.sameLease (h : Ledger past id row) (hsame : SameLease row row')
    (hqueued : row'.status = .submitted → row.status = .submitted)
    (hheld : row'.status = .working → ∀ k, row.leaseToken = some k → k ≠ "" → Held (past ++ [t]) id row' k) :
    Ledger (past ++ [t]) id row' where
  queued hsubmitted := by
    rw [hsame.token]
    exact h.queued (hqueued hsubmitted)
  held hworking k hk := hheld hworking k (hsame.token ▸ hk)
  drawn k hk hne := (h.drawn k (hsame.token ▸ hk) hne).concat
  blank hnonneg hk := by
    rw [hsame.ends]
    exact h.blank (nonneg_of_concat hnonneg) (hsame.token ▸ hk)

theorem Ledger.quiet (h : Ledger past id row) (hquiet : Quiet id t.input.op t.output) (hsame : SameLease row row')
    (hstatus : row'.status = row.status) (hafter : t.after.tasks.lookup id = some row') :
    Ledger (past ++ [t]) id row' := by
  refine h.sameLease hsame (fun hsubmitted => hstatus ▸ hsubmitted) fun hworking k hk hne => ?_
  obtain ⟨howner, hissued, x, hx, hlast⟩ := h.held (hstatus ▸ hworking) k hk hne
  refine ⟨?_, ?_, x, hsame.ends.trans hx, since_concat.mpr (.inr ⟨hquiet.not_extends, hlast⟩)⟩
  · rw [hsame.owner, hsame.assignee, howner]
  · rw [hsame.assignee]
    exact hissued.concat (fun _ _ hreturns => absurd hreturns hquiet.not_returns) ⟨row', hafter, hworking⟩

theorem canTransition_working {source : TaskStatus} (h : canTransition source .working = some true) :
    source = .submitted := by
  cases source <;> simp [canTransition, knownStatuses, validTransitions] at h ⊢

theorem canTransition_submitted (source : TaskStatus) : canTransition source .submitted ≠ some true := by
  cases source <;> simp [canTransition, knownStatuses, validTransitions]

/-- **A turn keeps the ledger** of the task, if its random token is new. -/
theorem RowStep.ledger (h : RowStep id t.input.env row t.input.op t.output row') (hl : Ledger past id row)
    (hafter : t.after.tasks.lookup id = some row') (htoken : t.input.env.token ≠ "")
    (hunseen : ∀ t' ∈ past, ∀ w, ¬Returns t' id w t.input.env.token) : Ledger (past ++ [t]) id row' := by
  generalize hop : t.input.op = op at h
  generalize hout : t.output = out at h
  cases h with
  | same hquiet =>
    subst hop hout
    exact hl.quiet hquiet ⟨rfl, rfl, rfl, rfl⟩ rfl hafter
  | updated hvalid =>
    refine hl.sameLease ⟨rfl, rfl, rfl, rfl⟩ ?_ ?_
    · intro hsubmitted
      cases hsubmitted
      exact absurd hvalid (canTransition_submitted _)
    · intro hworking k hk hne
      cases hworking
      have hblank := hl.queued (canTransition_working hvalid)
      rw [hk] at hblank
      exact absurd hblank hne
  | overdue hopen =>
    refine hl.sameLease ⟨rfl, rfl, rfl, rfl⟩ (fun hsubmitted => ?_) fun hworking => ?_
    · cases hsubmitted
    · cases hworking
  | exhausted hopen => exact ledger_noLease (by rintro ⟨⟩)
  | reclaimed hassignee hworking howner hlive =>
    refine hl.sameLease ⟨rfl, rfl, rfl, rfl⟩ (fun hsubmitted => hsubmitted) fun _ k hk hne => ?_
    obtain ⟨howner', hissued, x, hx, -⟩ := hl.held hworking k hk hne
    have hreturns : Returns t id row.assignee k := by
      refine ⟨_, _, hassignee ▸ hop, hout, ?_⟩
      rw [hk]
      rfl
    refine ⟨howner', hissued.concat ?_ ⟨row, hafter, hworking⟩, x, hx, since_concat.mpr (.inl ?_)⟩
    · rintro w' k' ⟨lease', l', -, hout', rfl⟩
      rw [hout] at hout'
      cases hout'
      rw [hk]
      rfl
    · exact ⟨⟨_, .inl hreturns⟩, x, ⟨row, hafter, hx⟩, rfl⟩
  | claimed hassignee hfree =>
    -- The token is new, so the lease begins with this turn.
    have hreturns : Returns t id row.assignee t.input.env.token := ⟨_, _, hassignee ▸ hop, hout, rfl⟩
    refine ⟨fun hsubmitted => ?_, fun _ k hk _ => ?_, fun k hk _ => ?_, fun _ hk => ?_⟩
    · cases hsubmitted
    · obtain rfl := Option.some.inj hk
      refine ⟨congrArg some hassignee.symm, ?_, _, rfl, since_concat.mpr (.inl ?_)⟩
      · exact ⟨past, t, [], rfl, hreturns, hunseen, ⟨_, hafter, rfl⟩, fun _ h => absurd h List.not_mem_nil⟩
      · exact ⟨⟨_, .inl hreturns⟩, _, ⟨_, hafter, rfl⟩, rfl⟩
    · exact ⟨t, by simp, Option.some.inj hk⟩
    · exact absurd (Option.some.inj hk) htoken
  | renewed hholds =>
    obtain ⟨-, hworking, -, htok, x, hx, hlive⟩ := holdsLease_eq_true.mp hholds
    have hnoReturn (w' k' : String) : ¬Returns t id w' k' := by
      rintro ⟨lease', l', hop', -⟩
      rw [hop] at hop'
      cases hop'
    refine ⟨fun hsubmitted => ?_, fun _ k hk hne => ?_, fun k hk hne => (hl.drawn k hk hne).concat, fun hnonneg hk => ?_⟩
    · exact absurd (hworking.symm.trans hsubmitted) (by rintro ⟨⟩)
    · obtain ⟨howner, hissued, -⟩ := hl.held hworking k hk hne
      obtain rfl := Option.some.inj (htok.symm.trans hk)
      refine ⟨howner, hissued.concat (fun _ _ hreturns => absurd hreturns (hnoReturn _ _)) ⟨_, hafter, hworking⟩, _, rfl,
        since_concat.mpr (.inl ?_)⟩
      exact ⟨⟨_, .inr ⟨_, _, hop, hout⟩⟩, _, ⟨_, hafter, rfl⟩, rfl⟩
    · -- The lease of an empty token ended in 1970.
      have hzero := hl.blank (nonneg_of_concat hnonneg) hk
      have hnow := hnonneg t (by simp)
      rw [hx] at hzero
      cases hzero
      omega
  | finished hholds hstatus => exact ledger_noLease (by rcases hstatus with rfl | rfl <;> rintro ⟨⟩)
  | requeued hworking => exact ledger_noLease (by rintro ⟨⟩)
  | abandoned hworking => exact ledger_noLease (by rintro ⟨⟩)
  | maxAttempts => exact hl.quiet (by rw [hop]; trivial) ⟨rfl, rfl, rfl, rfl⟩ rfl hafter
  | timeout => exact hl.quiet (by rw [hop]; trivial) ⟨rfl, rfl, rfl, rfl⟩ rfl hafter

/-- A claim returns the token of the row or a random one. -/
theorem RowStep.returned (h : RowStep id t.input.env row t.input.op t.output row') (hl : Ledger past id row)
    (hreturns : Returns t id w k) : k = "" ∨ Drawn (past ++ [t]) k := by
  obtain ⟨lease, l, hop, hout, rfl⟩ := hreturns
  rw [hop, hout] at h
  cases h with
  | same hquiet => exact absurd rfl hquiet
  | claimed => exact .inr ⟨t, by simp, rfl⟩
  | reclaimed =>
    rw [or_iff_not_imp_left]
    intro hne
    cases htoken : row.leaseToken with
    | none =>
      rw [htoken] at hne
      exact absurd rfl hne
    | some k =>
      rw [htoken] at hne
      exact (hl.drawn k htoken hne).concat

end Past

/-! ## Exclusive use -/

section Run

variable {s : Store} {id w k : String}

/-- The rows and the claims of a run. -/
structure Kept (past : Past) (id : String) (s : Store) : Prop where
  returned : ∀ t ∈ past, ∀ w k, Returns t id w k → k = "" ∨ Drawn past k
  ledger : ∀ row, s.tasks.lookup id = some row → Ledger past id row

/-- In every run from a store without the task, the row of the task tells its past. -/
theorem kept (hnew : s.tasks.lookup id = none) (is : List Input) (hfresh : FreshTokens is) :
    Kept (turns step s is) id (runs step s is) := by
  suffices hkept : FreshTokens ((turns step s is).map Turn.input) → Kept (turns step s is) id (runs step s is) by
    rw [map_input_turns] at hkept
    exact hkept hfresh
  refine turns_induction (motive := fun past s => FreshTokens (past.map Turn.input) → Kept past id s) ?_ ?_ is
  · intro _
    refine ⟨fun t ht => absurd ht List.not_mem_nil, fun row hrow => ?_⟩
    rw [hnew] at hrow
    cases hrow
  · intro past s i ih hfresh
    rw [List.map_append, List.map_singleton] at hfresh
    obtain ⟨hnodup, hne⟩ := hfresh
    rw [List.map_append, List.map_singleton, List.nodup_append] at hnodup
    have hkept := ih ⟨hnodup.1, fun j hj => hne j (List.mem_append_left _ hj)⟩
    have htoken : i.env.token ≠ "" := hne i (by simp [turn])
    have hunseen : ∀ t ∈ past, ∀ w, ¬Returns t id w i.env.token := by
      intro t ht w hreturns
      rcases hkept.returned t ht w _ hreturns with hblank | ⟨t', ht', heq⟩
      · exact htoken hblank
      · exact hnodup.2.2 _ (List.mem_map_of_mem (List.mem_map_of_mem ht')) _ (List.mem_singleton_self _) heq
    have hreturned (hlast : ∀ w k, Returns (turn step s i) id w k → k = "" ∨ Drawn (past ++ [turn step s i]) k) :
        ∀ t ∈ past ++ [turn step s i], ∀ w k, Returns t id w k → k = "" ∨ Drawn (past ++ [turn step s i]) k := by
      intro t ht w k hreturns
      rcases List.mem_append.mp ht with ht | ht
      · exact (hkept.returned t ht w k hreturns).imp_right Drawn.concat
      · rw [List.mem_singleton.mp ht] at hreturns
        exact hlast w k hreturns
    cases hlookup : s.tasks.lookup id with
    | none =>
      obtain ⟨hcreated, hquiet⟩ := step_none hlookup i
      refine ⟨hreturned fun w k hreturns => absurd hreturns (Quiet.not_returns hquiet), fun row hrow => ?_⟩
      rcases hcreated with hnone | ⟨task, now, hsome⟩
      · rw [hnone] at hrow
        cases hrow
      · rw [hsome] at hrow
        cases hrow
        exact ledger_row task now
    | some row =>
      obtain ⟨row', hrow', hstep⟩ := step_row hlookup i
      have hl := hkept.ledger row hlookup
      refine ⟨hreturned fun w k => RowStep.returned (t := turn step s i) hstep hl, fun row₁ hrow₁ => ?_⟩
      obtain rfl := Option.some.inj (hrow'.symm.trans hrow₁)
      exact RowStep.ledger (t := turn step s i) hstep hl hrow' htoken hunseen

/-- Who uses a lease holds it, as the row says. -/
theorem holdsLease_of_use {i : Input}
    (h : Finishes (turn step s i) id w k ∨ Renews (turn step s i) id w k) :
    ∃ row, s.tasks.lookup id = some row ∧ holdsLease id w k i.env.now row = true := by
  have hloud : ¬Quiet id i.op (step s i).1 := by
    intro hquiet
    rcases h with ⟨status, errMsg, outputs, task, hop, hout⟩ | ⟨lease, l, hop, hout⟩ <;>
      · change i.op = _ at hop
        change (step s i).1 = _ at hout
        rw [hop, hout] at hquiet
        exact hquiet rfl
  cases hlookup : s.tasks.lookup id with
  | none => exact absurd (step_none hlookup i).2 hloud
  | some row =>
    obtain ⟨row', -, hstep⟩ := step_row hlookup i
    refine ⟨row, rfl, ?_⟩
    rcases h with ⟨status, errMsg, outputs, task, hop, hout⟩ | ⟨lease, l, hop, hout⟩
    · change i.op = _ at hop
      rw [hop] at hstep hloud
      cases hstep with
      | same hquiet => exact absurd hquiet hloud
      | finished hholds => exact hholds
    · change i.op = _ at hop
      change (step s i).1 = _ at hout
      rw [hop, hout] at hstep hloud
      cases hstep with
      | same hquiet => exact absurd hquiet hloud
      | renewed hholds => exact hholds

/-- **Leases are exclusive**: in every run from a store without the task, when `FinishLease` or
`RenewLease` succeeds with a token, then the worker is the assignee, the token was returned by one of
its claims, no claim has returned another one since the first time, the task has not left `WORKING`
since then, and the end that was set last for the token has not come.

An empty token is left out, unless no clock reading is before 1970. -/
theorem lease_exclusive (hnew : s.tasks.lookup id = none) (is : List Input) (i : Input)
    (hfresh : FreshTokens (is ++ [i])) (hk : k ≠ "" ∨ ∀ j ∈ is ++ [i], 0 ≤ j.env.now)
    (h : Finishes (turn step (runs step s is) i) id w k ∨ Renews (turn step (runs step s is) i) id w k) :
    (∃ row, (runs step s is).tasks.lookup id = some row ∧ row.assignee = w) ∧
      Issued (turns step s is) id w k ∧ LastEnd (turns step s is) id k (i.env.now < ·) := by
  obtain ⟨hnodup, hne⟩ := hfresh
  rw [List.map_append] at hnodup
  have hkept := kept hnew is ⟨hnodup.of_append_left, fun j hj => hne j (List.mem_append_left _ hj)⟩
  obtain ⟨row, hrow, hholds⟩ := holdsLease_of_use h
  obtain ⟨-, hworking, howner, htoken, x, hx, hlive⟩ := holdsLease_eq_true.mp hholds
  have hl := hkept.ledger row hrow
  have hblank : k ≠ "" := by
    rintro rfl
    rcases hk with hk | hk
    · exact hk rfl
    · have hpast : ∀ t ∈ turns step s is, 0 ≤ t.input.env.now := by
        intro t ht
        have hmem : t.input ∈ (turns step s is).map Turn.input := List.mem_map_of_mem ht
        rw [map_input_turns] at hmem
        exact hk _ (List.mem_append_left _ hmem)
      have hzero := hl.blank hpast htoken
      have hnow := hk i (by simp)
      rw [hx] at hzero
      cases hzero
      omega
  obtain ⟨howner', hissued, x', hx', hlast⟩ := hl.held hworking k htoken hblank
  obtain rfl := Option.some.inj (howner'.symm.trans howner)
  obtain rfl := Option.some.inj (hx.symm.trans hx')
  refine ⟨⟨row, hrow, rfl⟩, hissued, hlast.imp (fun _ _ h => h) ?_⟩
  rintro t - ⟨hextends, y, hy, rfl⟩
  exact ⟨hextends, y, hy, hlive⟩

end Run

namespace Errand

/-- The worker completes the task. -/
def finish : Input := ⟨moment 3 "k3", .finishLease "errand" "did:worker" "k2" .completed "" []⟩

/-- The lease runs out, the task is offered again and set to work without a claim. -/
def unleased : List Input :=
  taken ++ [⟨moment 2000 "k3", .requeueExpired⟩, ⟨moment 2001 "k4", .updateStatus "errand" .working "" []⟩]

/-- Without a name and a token, on a clock that shows a time before 1970. -/
def intrude : Input := ⟨moment (-1) "k5", .finishLease "errand" "" "" .completed "" []⟩

end Errand

open Errand in
theorem lease_exclusive_errand : Finishes (turn step (runs step .empty taken) finish) "errand" "did:worker" "k2" ∧
    Issued (turns step .empty taken) "errand" "did:worker" "k2" ∧ LastEnd (turns step .empty taken) "errand" "k2" (3 < ·) := by
  have hfinishes : Finishes (turn step (runs step .empty taken) finish) "errand" "did:worker" "k2" :=
    ⟨_, _, _, _, rfl, rfl⟩
  exact ⟨hfinishes, (lease_exclusive rfl taken finish ⟨by decide, by decide⟩ (.inl (by decide)) (.inl hfinishes)).2⟩

open Errand in
/-- Who is not the assignee finishes a task that nobody has a lease of. -/
theorem finish_without_lease : FreshTokens (unleased ++ [intrude]) ∧
    Finishes (turn step (runs step .empty unleased) intrude) "errand" "" "" ∧
    ∃ row, (runs step .empty unleased).tasks.lookup "errand" = some row ∧ row.assignee = "did:worker" :=
  ⟨⟨by decide, by decide⟩, ⟨_, _, _, _, rfl, rfl⟩, _, rfl, rfl⟩

end MoltMesh.Tasks
