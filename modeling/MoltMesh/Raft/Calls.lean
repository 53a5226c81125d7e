import MoltMesh.Raft.Apply

/-!
# The other calls

What the calls of a replica leave behind apart from `handleReady`: proposing pending
entries (`ProposeTrail`), a block received from another replica (`InboundTrail`),
a snapshot of the log (`SnapshotTrail`).  `step_trail` puts them together with the
batches: it is the one place that goes through the events of a replica.
-/

namespace MoltMesh.Raft

open MoltMesh.Lib Pb Raftpb

variable {N : Node} {env : Env} {e e' : Backend} {δ : List Effect} {rd : Ready} {ev : Event}

/-! ## Proposing -/

/-- What `proposePending` does. -/
inductive ProposeTrail (N : Node) (e : Backend) : List Effect → Prop
  | idle : ProposeTrail N e []
  | failed (w : Write) : ProposeTrail N e [.failed w]
  /-- The Raft node does not take the proposal, and the claims are released. -/
  | released {ids : List Int} {entries : List ThreadEntry} {s' : Store} {a : Effect}
    (hclaim : e.store.claimPendingEntries e.thread.id raftMaxEntriesPerMsg = (ids, entries, s'))
    (ha : a = .write (.releasePendingClaimIDs ids) ∨ a = .failed (.releasePendingClaimIDs ids)) :
    ProposeTrail N e [.write (.claimPendingEntries ids), a]
  | proposed {ids : List Int} {entries : List ThreadEntry} {s' : Store}
    (hclaim : e.store.claimPendingEntries e.thread.id raftMaxEntriesPerMsg = (ids, entries, s')) :
    ProposeTrail N e [.write (.claimPendingEntries ids), .propose ⟨ids, entries, N.id.did⟩]

theorem proposePending_trail (N : Node) (env : Env) (e : Backend) : ∃ δ,
    Logged e (proposePending N env e) δ ∧ ProposeTrail N e δ ∧
      SameMemory e (proposePending N env e) := by
  unfold proposePending
  split
  · exact ⟨_, .refl e, .idle, .refl e⟩
  · split
    rename_i ids entries s' hclaim
    dsimp only
    split
    · exact ⟨_, logged_note rfl, .failed _, sameMemory_note e _⟩
    · rename_i href
      have hlog := logged_write (Bool.eq_false_of_not_eq_true href)
      have hmem := sameMemory_write env e (.claimPendingEntries ids)
      split
      · exact ⟨_, .refl e, .idle, .refl e⟩
      · split
        · have hmem' := sameMemory_write env (write env e (.claimPendingEntries ids))
            (.releasePendingClaimIDs ids)
          rcases write_cases env (write env e (.claimPendingEntries ids))
            (.releasePendingClaimIDs ids) with h | h
          · exact ⟨_, hlog.trans h, .released hclaim (.inl rfl), hmem.trans hmem'⟩
          · exact ⟨_, hlog.trans h, .released hclaim (.inr rfl), hmem.trans hmem'⟩
        · exact ⟨_, hlog.trans (logged_note rfl), .proposed hclaim,
            hmem.trans (sameMemory_note _ _)⟩

/-! ## Blocks of others -/

/-- What `applyCommittedBlock` does. -/
inductive InboundTrail (env : Env) (e : Backend) (b : ThreadBlock) (e' : Backend) :
    List Effect → Prop
  /-- There is a block of this height already. -/
  | held (hread : env.readFails = false) (hheld : (e.store.getBlock e.thread.id b.height).isSome)
    (he : e' = e) : InboundTrail env e b e' []
  | failed (w : Write) (he : e' = note e (.failed w)) : InboundTrail env e b e' [.failed w]
  | saved {e₁ e₂ : Backend} {δ : List Effect}
    (hfree : env.readFails = true ∨ (e.store.getBlock e.thread.id b.height).isSome = false)
    (hw : Logged e e₁ [.write (.saveBlock b)]) (hmem : SameMemory e e₁) (hδ : Sides e₁ e₂ δ)
    (he : e' = note e₂ (.commit b)) : InboundTrail env e b e' (.write (.saveBlock b) :: δ ++ [.commit b])

theorem applyCommittedBlock_trail (N : Node) (env : Env) (e : Backend) (b : ThreadBlock) :
    ∃ δ, InboundTrail env e b (applyCommittedBlock N env e b) δ := by
  unfold applyCommittedBlock
  split
  · rename_i h
    exact ⟨_, .held h.1 h.2 rfl⟩
  · rename_i h
    dsimp only
    split
    · exact ⟨_, .failed _ rfl⟩
    · rename_i href
      obtain ⟨δ, hδ⟩ := applyMembershipEntries_sides N env (write env e (.saveBlock b)) b.entries
      refine ⟨_, .saved ?_ (logged_write (Bool.eq_false_of_not_eq_true href))
        (sameMemory_write env e _) hδ rfl⟩
      rw [not_and_or] at h
      exact h.imp Bool.eq_true_of_not_eq_false Bool.eq_false_of_not_eq_true

theorem InboundTrail.logged {b : ThreadBlock} (h : InboundTrail env e b e' δ) : Logged e e' δ := by
  cases h with
  | held hread hheld he =>
    rw [he]
    exact .refl e
  | failed w he =>
    rw [he]
    exact logged_note rfl
  | saved hfree hw hmem hδ he =>
    rw [he]
    exact (hw.trans hδ.toLogged).trans (logged_note rfl)

/-! ## Snapshots -/

/-- What `Snapshot` does. -/
inductive SnapshotTrail (e : Backend) (e' : Backend) : List Effect → Prop
  /-- There is nothing to do. -/
  | idle (he : e' = e) : SnapshotTrail e e' []
  /-- The storage has the snapshot and the database not. -/
  | failed {s : Snapshot} {ms : MemoryStorage} (w : Write)
    (hcreate : e.storage.createSnapshot e.appliedIndex e.confState = .ok s ms)
    (he : e' = note { e with storage := ms } (.failed w)) : SnapshotTrail e e' [.failed w]
  /-- The snapshot is saved, and the log cut if it reaches that far. -/
  | saved {s : Snapshot} {ms : MemoryStorage} (hpos : e.appliedIndex ≠ 0)
    (hcreate : e.storage.createSnapshot e.appliedIndex e.confState = .ok s ms)
    (hlog : Logged e e' [.write (.saveRaftSnapshot s)])
    (hstorage : e'.storage = (ms.compact e.appliedIndex).getD ms)
    (happlied : e'.appliedIndex = e.appliedIndex) (hself : e'.selfID = e.selfID)
    (hready : e'.pendingReady = e.pendingReady) :
    SnapshotTrail e e' [.write (.saveRaftSnapshot s)]

theorem snapshot_trail (env : Env) (e : Backend) :
    ∃ δ, SnapshotTrail e (final (snapshot env e)) δ := by
  unfold snapshot
  split
  · exact ⟨_, .idle rfl⟩
  · rename_i hpos
    split
    · exact ⟨_, .idle rfl⟩
    · exact ⟨_, .idle rfl⟩
    · rename_i s ms hcreate
      dsimp only
      cases href : refused env { e with storage := ms } (.saveRaftSnapshot s) with
      | true => exact ⟨_, .failed _ hcreate rfl⟩
      | false =>
        have hlog : Logged e (write env { e with storage := ms } (.saveRaftSnapshot s))
            [.write (.saveRaftSnapshot s)] := by
          rw [write_of_not_refused href]
          exact ⟨rfl, rfl, rfl⟩
        have hmem := sameMemory_write env { e with storage := ms } (.saveRaftSnapshot s)
        rw [if_neg Bool.false_ne_true]
        generalize write env { e with storage := ms } (.saveRaftSnapshot s) = e₁ at hlog hmem ⊢
        have hcompact : e₁.storage.compact e₁.appliedIndex = ms.compact e.appliedIndex := by
          rw [hmem.storage, hmem.appliedIndex]
        rw [hcompact]
        cases hms : ms.compact e.appliedIndex with
        | none =>
          refine ⟨_, .saved hpos hcreate hlog ?_ hmem.appliedIndex hmem.selfID hmem.pendingReady⟩
          rw [hms]
          exact hmem.storage
        | some ms' =>
          refine ⟨_, .saved hpos hcreate ⟨hlog.trace, hlog.store, hlog.threadId⟩ ?_
            hmem.appliedIndex hmem.selfID hmem.pendingReady⟩
          rw [hms]
          rfl

theorem SnapshotTrail.logged (h : SnapshotTrail e e' δ) : Logged e e' δ := by
  cases h with
  | idle he =>
    rw [he]
    exact .refl e
  | failed w hcreate he =>
    rw [he]
    exact ⟨rfl, rfl, rfl⟩
  | saved hpos hcreate hlog hstorage happlied hself hready => exact hlog

/-! ## All calls -/

/-- What a step leaves behind. -/
inductive StepTrail (N : Node) (env : Env) (e : Backend) : Event → Backend → Prop
  | ready {rd : Ready} {r : Except Stop Backend}
    (hr : ReadyTrail N env e (e.pendingReady.getD rd) r) {e' : Backend}
    (he : ∃ p, e' = { ended r with pendingReady := p }) : StepTrail N env e (.ready rd) e'
  | block {b : ThreadBlock} {e' : Backend} {δ : List Effect} (hδ : InboundTrail env e b e' δ) :
    StepTrail N env e (.inbound (.committedBlock b)) e'
  /-- A message of the Raft library, a tick: pending entries may be proposed. -/
  | propose {ev : Event} {e₁ e' : Backend} {δ δ' : List Effect} (h₁ : Sides e e₁ δ)
    (hmem₁ : SameMemory e e₁) (hlog : Logged e₁ e' δ') (hδ : ProposeTrail N e₁ δ')
    (hmem : SameMemory e₁ e') (hev : ∀ rd, ev ≠ .ready rd) : StepTrail N env e ev e'
  | snapshot {e' : Backend} {δ : List Effect} (hδ : SnapshotTrail e e' δ) :
    StepTrail N env e .snapshot e'
  /-- A call that does nothing to blocks, pending entries and the Raft log. -/
  | side {ev : Event} {e' : Backend} {δ : List Effect} (hδ : Sides e e' δ)
    (hev : ∀ rd, ev ≠ .ready rd) (hready : e'.pendingReady = e.pendingReady) : StepTrail N env e ev e'
  | enqueue {entry : ThreadEntry} {e' : Backend} {now : Int} (hmem : SameMemory e e')
    (hlog : Logged e e' [.write (.enqueueEntry entry now)]) : StepTrail N env e (.enqueue entry) e'

/-- A batch ends as `handleReady` does, and is kept if it is to be tried again. -/
theorem final_ready (N : Node) (env : Env) (e : Backend) (rd : Ready) :
    ∃ p, final (step N env e (.ready rd)) =
      { ended (handleReady N env e (e.pendingReady.getD rd)) with pendingReady := p } := by
  simp only [step, tryReady, processReady]
  rcases handleReady N env e (e.pendingReady.getD rd) with (e' | e') | e'
  · exact ⟨_, rfl⟩
  · exact ⟨e'.pendingReady, rfl⟩
  · exact ⟨_, rfl⟩

theorem step_trail (N : Node) (env : Env) (e : Backend) (ev : Event) :
    StepTrail N env e ev (final (step N env e ev)) := by
  cases ev with
  | ready rd => exact .ready (handleReady_trail N env e (e.pendingReady.getD rd)) (final_ready N env e rd)
  | inbound msg =>
    simp only [step, final]
    cases msg with
    | committedBlock b =>
      obtain ⟨δ, hδ⟩ := applyCommittedBlock_trail N env e b
      exact .block hδ
    | other => exact .side (.refl e) (fun _ h => by cases h) rfl
    | raft leaderDid rm =>
      simp only [handleInbound]
      split
      · exact .side (.refl e) (fun _ h => by cases h) rfl
      · obtain ⟨δ, hlog, hδ, hmem⟩ := proposePending_trail N env (note e (.step rm))
        exact .propose (sides_note rfl rfl) (sameMemory_note e _) hlog hδ hmem
          fun _ h => by cases h
  | tick =>
    simp only [step, final, tick]
    split
    · exact .side (.refl e) (fun _ h => by cases h) rfl
    · obtain ⟨δ, hlog, hδ, hmem⟩ := proposePending_trail N env e
      exact .propose (.refl e) (.refl e) hlog hδ hmem fun _ h => by cases h
  | snapshot =>
    obtain ⟨δ, hδ⟩ := snapshot_trail env e
    exact .snapshot hδ
  | voterChange did add =>
    simp only [step, final, beginVoterChange]
    have hmem : Sides e { e with changeSeq := e.changeSeq + 1 } [] :=
      sides_memory rfl rfl rfl rfl rfl rfl
    split
    · exact .side (.refl e) (fun _ h => by cases h) rfl
    · split
      · exact .side (.refl e) (fun _ h => by cases h) rfl
      · split
        · exact .side hmem (fun _ h => by cases h) rfl
        · have hmem' : Sides e { e with
              changeSeq := e.changeSeq + 1
              changes := e.changes ++ [toString (e.changeSeq + 1)] } [] :=
            sides_memory rfl rfl rfl rfl rfl rfl
          exact .side (hmem'.trans (sides_note rfl rfl)) (fun _ h => by cases h) rfl
  | enqueue entry =>
    simp only [step, final]
    rcases write_cases env e (.enqueueEntry entry (env.now e.trace.length)) with h | h
    · exact .enqueue (sameMemory_write env e _) h
    · obtain ⟨hm, hr⟩ : Sides e (write env e (.enqueueEntry entry (env.now e.trace.length)))
          [.failed (.enqueueEntry entry (env.now e.trace.length))] ∧
          (write env e (.enqueueEntry entry (env.now e.trace.length))).pendingReady =
            e.pendingReady := by
        have hmem := sameMemory_write env e (.enqueueEntry entry (env.now e.trace.length))
        refine ⟨⟨h, ?_, hmem.storage, hmem.appliedIndex, hmem.selfID⟩, hmem.pendingReady⟩
        intro a ha
        rw [List.mem_singleton.mp ha]
        rfl
      exact .side hm (fun _ h => by cases h) hr

theorem ReadyTrail.logged {r : Except Stop Backend} (h : ReadyTrail N env e rd r) :
    ∃ δ, Logged e (ended r) δ := by
  cases h with
  | unsaved hfail => exact ⟨_, logged_note rfl⟩
  | halfSaved hsnap hfail hlog hmem => exact ⟨_, hlog⟩
  | panicked hlog hquiet hfit => exact ⟨_, hlog⟩
  | @applied e₁ δ hp =>
    obtain ⟨γ, hγ⟩ := applyAll_logged N env e₁ rd.committedEntries
    exact ⟨_, hp.logged.trans hγ⟩

/-- Every step is the execution of its effects. -/
theorem StepTrail.logged (h : StepTrail N env e ev e') : ∃ δ, Logged e e' δ := by
  cases h with
  | ready hr he =>
    obtain ⟨δ, hδ⟩ := hr.logged
    obtain ⟨p, rfl⟩ := he
    exact ⟨δ, hδ.trace, hδ.store, hδ.threadId⟩
  | block hδ => exact ⟨_, hδ.logged⟩
  | propose h₁ hmem₁ hlog hδ hmem hev => exact ⟨_, h₁.toLogged.trans hlog⟩
  | snapshot hδ => exact ⟨_, hδ.logged⟩
  | side hδ hev hready => exact ⟨_, hδ.toLogged⟩
  | enqueue hmem hlog => exact ⟨_, hlog⟩

/-- A batch leaves the blocks alone until its entries are applied. -/
theorem ReadyTrail.blocks {r : Except Stop Backend} (h : ReadyTrail N env e rd r) :
    ((ended r).store.blocks = e.store.blocks ∧ (ended r).thread.id = e.thread.id) ∨
      ∃ e₁ δ, Persisted e rd e₁ δ ∧
        ended r = rd.committedEntries.foldl (applyEntry N env) e₁ := by
  cases h with
  | unsaved hfail => exact .inl ⟨rfl, rfl⟩
  | halfSaved hsnap hfail hlog hmem =>
    exact .inl ⟨(congrArg Store.blocks hlog.store).trans rfl, hlog.threadId⟩
  | panicked hlog hquiet hfit =>
    refine .inl ⟨(congrArg Store.blocks hlog.store).trans ?_, hlog.threadId⟩
    exact blocks_replay (sparesBlocks_readyWrites hquiet)
  | applied hp => exact .inr ⟨_, _, hp, rfl⟩

/-- A batch is applied and the next one may come, or it is to be tried again; the process does not
survive a panic. -/
theorem step_ready_eq_ok (h : step N env e (.ready rd) = .ok e') :
    (∃ e₁ δ, Persisted e (e.pendingReady.getD rd) e₁ δ ∧ e' =
      { (e.pendingReady.getD rd).committedEntries.foldl (applyEntry N env) e₁ with
        pendingReady := none }) ∨
    ((∃ k w, env.fails k w = true) ∧ e'.pendingReady = some (e.pendingReady.getD rd) ∧
      e'.store.blocks = e.store.blocks ∧ e'.thread.id = e.thread.id) := by
  have htrail := handleReady_trail N env e (e.pendingReady.getD rd)
  simp only [step, tryReady, processReady] at h
  cases hr : handleReady N env e (e.pendingReady.getD rd) with
  | ok e₂ =>
    rw [hr] at htrail h
    cases htrail with
    | applied hp => exact .inl ⟨_, _, hp, (Except.ok.inj h).symm⟩
  | error stop =>
    rw [hr] at htrail h
    cases htrail with
    | unsaved hfail =>
      obtain rfl := Except.ok.inj h
      exact .inr ⟨⟨_, _, hfail⟩, rfl, rfl, rfl⟩
    | halfSaved hsnap hfail hlog hmem =>
      obtain rfl := Except.ok.inj h
      exact .inr ⟨⟨_, _, hfail⟩, rfl, (congrArg Store.blocks hlog.store).trans rfl, hlog.threadId⟩
    | panicked hlog hquiet hfit => cases h

theorem ProposeTrail.sparesBlocks (h : ProposeTrail N e δ) : ∀ a ∈ δ, a.sparesBlocks = true := by
  intro a ha
  cases h with
  | idle => exact absurd ha List.not_mem_nil
  | failed w =>
    rw [List.mem_singleton.mp ha]
    rfl
  | released hclaim hrel =>
    rcases List.mem_pair.mp ha with rfl | rfl
    · rfl
    · rcases hrel with rfl | rfl <;> rfl
  | proposed hclaim => rcases List.mem_pair.mp ha with rfl | rfl <;> rfl

/-- Blocks are stored when a batch is ready or when a block comes in, and by no other call. -/
theorem StepTrail.writers (h : StepTrail N env e ev e') :
    (∃ rd r p, ev = .ready rd ∧ ReadyTrail N env e (e.pendingReady.getD rd) r ∧
      e' = { ended r with pendingReady := p }) ∨
    (∃ b δ, ev = .inbound (.committedBlock b) ∧ InboundTrail env e b e' δ) ∨
    ∃ δ, Logged e e' δ ∧ ∀ a ∈ δ, a.sparesBlocks = true := by
  cases h with
  | @ready rd r hr _ he =>
    obtain ⟨p, hp⟩ := he
    exact .inl ⟨rd, r, p, rfl, hr, hp⟩
  | @block b _ δ hδ => exact .inr (.inl ⟨b, δ, rfl, hδ⟩)
  | propose h₁ hmem₁ hlog hδ hmem hev =>
    refine .inr (.inr ⟨_, h₁.toLogged.trans hlog, fun a ha => ?_⟩)
    rcases List.mem_append.mp ha with ha | ha
    · exact Effect.sparesBlocks_of_isQuiet (h₁.quiet a ha)
    · exact hδ.sparesBlocks a ha
  | snapshot hδ =>
    refine .inr (.inr ⟨_, hδ.logged, fun a ha => ?_⟩)
    cases hδ with
    | idle he => exact absurd ha List.not_mem_nil
    | failed w hcreate he =>
      rw [List.mem_singleton.mp ha]
      rfl
    | saved hpos hcreate hlog hstorage happlied hself hready =>
      rw [List.mem_singleton.mp ha]
      rfl
  | side hδ hev hpending =>
    exact .inr (.inr ⟨_, hδ.toLogged, fun a ha => Effect.sparesBlocks_of_isQuiet (hδ.quiet a ha)⟩)
  | enqueue hmem hlog =>
    refine .inr (.inr ⟨_, hlog, fun a ha => ?_⟩)
    rw [List.mem_singleton.mp ha]
    rfl

theorem StepTrail.sparing (h : StepTrail N env e ev e') (hready : ∀ rd, ev ≠ .ready rd)
    (hblock : ∀ b, ev ≠ .inbound (.committedBlock b)) :
    ∃ δ, Logged e e' δ ∧ ∀ a ∈ δ, a.sparesBlocks = true := by
  rcases h.writers with ⟨rd, -, -, rfl, -, -⟩ | ⟨b, -, rfl, -⟩ | hspares
  · exact absurd rfl (hready rd)
  · exact absurd rfl (hblock b)
  · exact hspares

theorem StepTrail.blocks (h : StepTrail N env e ev e') (hready : ∀ rd, ev ≠ .ready rd)
    (hblock : ∀ b, ev ≠ .inbound (.committedBlock b)) :
    e'.store.blocks = e.store.blocks ∧ e'.thread.id = e.thread.id := by
  obtain ⟨δ, hlog, hspares⟩ := h.sparing hready hblock
  exact ⟨by rw [hlog.store, blocks_replay hspares], hlog.threadId⟩

/-- A step that does not panic ends in its final state. -/
theorem step_eq_ok
    (h : (step N env e ev).isOk = true) : step N env e ev = .ok (final (step N env e ev)) := by
  cases hs : step N env e ev with
  | ok e' => rfl
  | error e' =>
    rw [hs] at h
    cases h

end MoltMesh.Raft
