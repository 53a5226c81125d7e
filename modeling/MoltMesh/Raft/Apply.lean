import MoltMesh.Raft.Trail

/-!
# Applying a batch

The parts of `handleReady`: what is saved before the committed entries are applied
(`Persisted`), what one committed entry does (`applyEntry_cases`), and what a process
that stops somewhere in between leaves in the database (`tryReady_cut`).
-/

namespace MoltMesh.Raft

open MoltMesh.Lib Pb Raftpb

variable {N : Node} {env : Env} {e e' : Backend} {δ α : List Effect} {entry : Entry} {rd : Ready}

/-! ## One committed entry -/

/-- What the block of a log entry is made of: its entries, the ids of the pending rows to delete and
the proposer.  Other entries do not make a block. -/
def blockOf (N : Node) (entry : Entry) : Option (List ThreadEntry × List Int × String) :=
  match entry.data with
  | .proposal p =>
    some (p.entries, if ownerOf N p ≠ N.id.did then [] else p.pendingIDs, ownerOf N p)
  | .entries l => some (l, [], N.id.did)
  | _ => none

/-- A committed entry is noted as applied. -/
def advance (e : Backend) (entry : Entry) : Backend :=
  { e with appliedIndex := entry.index, appliedTerm := entry.term }

/-- What `commitBlock` does: its transaction fails, or the block is stored, the membership entries
in it are applied and it is shown to others. -/
theorem commitBlock_cases (N : Node) (env : Env) (e : Backend) (entry : Entry)
    (l : List ThreadEntry) (ids : List Int) (did : String) :
    (∃ w, commitBlock N env e entry l ids did = note e (.failed w) ∧
      ∀ b s', e.store.appendBlockAndAckPending e.thread.id ids
          (fillBlock e.thread.id entry.term l did (env.now e.trace.length)) = some (b, s') →
        env.fails e.trace.length (.appendBlock ids b) = true) ∨
    ∃ b s' e₁ δ,
      e.store.appendBlockAndAckPending e.thread.id ids
        (fillBlock e.thread.id entry.term l did (env.now e.trace.length)) = some (b, s') ∧
      refused env e (.appendBlock ids b) = false ∧
      (write env e (.appendBlock ids b)).store = s' ∧
      Sides (write env e (.appendBlock ids b)) e₁ δ ∧
      e₁ = applyMembershipEntries N env (write env e (.appendBlock ids b)) l ∧
      commitBlock N env e entry l ids did =
        note (note e₁ (.broadcast (.committedBlock b))) (.commit b) := by
  unfold commitBlock
  dsimp only
  split
  · rename_i hnone
    exact .inl ⟨_, rfl, fun b s' h => by rw [hnone] at h; cases h⟩
  · rename_i b s' happ
    split
    · rename_i href
      refine .inl ⟨_, rfl, fun b' s'' h => ?_⟩
      obtain ⟨rfl, -⟩ := Prod.mk.inj (Option.some.inj (happ.symm.trans h))
      exact href
    · rename_i href
      have href' : refused env e (.appendBlock ids b) = false := Bool.eq_false_of_not_eq_true href
      obtain ⟨δ, hδ⟩ := applyMembershipEntries_sides N env (write env e (.appendBlock ids b)) l
      refine .inr ⟨b, s', _, δ, happ, href', ?_, hδ, rfl, rfl⟩
      rw [write_of_not_refused href']
      change ((e.store.appendBlockAndAckPending e.thread.id ids fun _ _ => b).map Prod.snd).getD _ = _
      rw [Store.appendBlockAndAckPending_const happ]
      rfl

theorem applyEntry_of_some {l : List ThreadEntry} {ids : List Int} {did : String}
    (h : blockOf N entry = some (l, ids, did)) :
    applyEntry N env e entry = commitBlock N env (advance e entry) entry l ids did := by
  unfold blockOf at h
  unfold applyEntry
  split at h
  · rename_i p hp
    obtain ⟨rfl, h'⟩ := Prod.mk.inj (Option.some.inj h)
    obtain ⟨rfl, rfl⟩ := Prod.mk.inj h'
    rw [hp]
    rfl
  · rename_i l' hl
    obtain ⟨rfl, h'⟩ := Prod.mk.inj (Option.some.inj h)
    obtain ⟨rfl, rfl⟩ := Prod.mk.inj h'
    rw [hl]
    rfl
  · cases h

theorem applyEntry_of_none (h : blockOf N entry = none) :
    ∃ δ, Sides (advance e entry) (applyEntry N env e entry) δ := by
  unfold blockOf at h
  unfold applyEntry
  rcases entry with ⟨term, index, data⟩
  cases data with
  | proposal p => cases h
  | entries l => cases h
  | empty => exact ⟨_, .refl _⟩
  | malformed => exact ⟨_, .refl _⟩
  | confChange cc => exact (@applyConfChange_asides True N env _ _).sides
  | confChangeV2 ccs context =>
    obtain ⟨δ, hδ⟩ := (@applyConfChange_asides True N env (advance e ⟨term, index, .confChangeV2 ccs context⟩)
      ⟨term, index, .confChangeV2 ccs context⟩).sides
    exact ⟨_, hδ.trans (completeVoterChange_sides _ context).choose_spec⟩

/-- The trace of one entry: effects on the side, with at most one transaction that stores a block
before them. -/
inductive EntryTrail (N : Node) (env : Env) (e : Backend) (entry : Entry) (e' : Backend) :
    List Effect → Prop
  /-- No block is stored: the entry does not make one, its height is taken, or the transaction
  fails. -/
  | skip {δ : List Effect} (hδ : Sides (advance e entry) e' δ)
    (hno : ∀ l ids did, blockOf N entry = some (l, ids, did) → ∀ b s',
      e.store.appendBlockAndAckPending e.thread.id ids
          (fillBlock e.thread.id entry.term l did (env.now e.trace.length)) = some (b, s') →
        env.fails e.trace.length (.appendBlock ids b) = true) : EntryTrail N env e entry e' δ
  /-- A block is stored. -/
  | commit {l : List ThreadEntry} {ids : List Int} {did : String} {b : ThreadBlock} {s' : Store}
    {e₁ : Backend} {δ : List Effect} (hblock : blockOf N entry = some (l, ids, did))
    (happ : e.store.appendBlockAndAckPending e.thread.id ids
      (fillBlock e.thread.id entry.term l did (env.now e.trace.length)) = some (b, s'))
    (hw : Logged e e₁ [.write (.appendBlock ids b)]) (hs : e₁.store = s')
    (hmem : e₁.storage = e.storage ∧ e₁.appliedIndex = entry.index ∧ e₁.selfID = e.selfID)
    {e₂ : Backend} (hδ : Sides e₁ e₂ δ)
    (he : e' = note (note e₂ (.broadcast (.committedBlock b))) (.commit b)) :
    EntryTrail N env e entry e' (.write (.appendBlock ids b) :: δ ++
      [.broadcast (.committedBlock b), .commit b])

theorem applyEntry_trail (N : Node) (env : Env) (e : Backend) (entry : Entry) :
    ∃ δ, EntryTrail N env e entry (applyEntry N env e entry) δ := by
  cases hb : blockOf N entry with
  | none =>
    obtain ⟨δ, hδ⟩ := @applyEntry_of_none N env e _ hb
    exact ⟨δ, .skip hδ fun l ids did h => by rw [hb] at h; cases h⟩
  | some x =>
    obtain ⟨l, ids, did⟩ := x
    rw [applyEntry_of_some hb]
    rcases commitBlock_cases N env (advance e entry) entry l ids did with
      ⟨w, hw, hno⟩ | ⟨b, s', e₁, δ, happ, href, hs, hδ, -, heq⟩
    · rw [hw]
      refine ⟨_, .skip (sides_note rfl rfl) fun l' ids' did' h => ?_⟩
      obtain ⟨rfl, h'⟩ := Prod.mk.inj (Option.some.inj (hb.symm.trans h))
      obtain ⟨rfl, rfl⟩ := Prod.mk.inj h'
      exact hno
    · rw [heq]
      have hlog := logged_write href
      refine ⟨_, .commit hb happ ⟨hlog.trace, hlog.store, hlog.threadId⟩ hs ?_ hδ rfl⟩
      rw [write_of_not_refused href]
      exact ⟨rfl, rfl, rfl⟩

theorem EntryTrail.logged (h : EntryTrail N env e entry e' δ) : Logged e e' δ := by
  cases h with
  | skip hδ hno => exact ⟨hδ.trace, hδ.store, hδ.threadId⟩
  | @commit l ids did b s' e₁ δ hblock happ hw hs hmem e₂ hδ he =>
    rw [he]
    have hb : Logged e₂ (note e₂ (.broadcast (.committedBlock b))) [.broadcast (.committedBlock b)] :=
      logged_note rfl
    exact (hw.trans hδ.toLogged).trans (hb.trans (logged_note rfl))

/-- A process that stops while it applies an entry leaves the store from before or after it. -/
theorem EntryTrail.cut (h : EntryTrail N env e entry e' δ) (hα : α <+: δ) :
    SameLog e.store (replay e.thread.id e.store α) ∨
      SameLog e'.store (replay e.thread.id e.store α) := by
  have hlog := h.logged
  cases h with
  | skip hδ hno =>
    refine .inl (sameLog_replay fun a ha => ?_)
    exact Effect.spares_of_isQuiet (hδ.quiet a (hα.subset ha))
  | @commit l ids did b s' e₁ δ hblock happ hw hs hmem e₂ hδ he =>
    cases α with
    | nil => exact .inl (.refl _)
    | cons a α =>
      obtain ⟨rfl, hrest'⟩ := List.cons_prefix_cons.mp hα
      right
      -- Both are reached from the store with the block by effects that spare the log.
      have hrest : ∀ c ∈ δ ++ [.broadcast (.committedBlock b), .commit b],
          Effect.spares c = true := by
        intro c hmem
        rcases List.mem_append.mp hmem with hmem | hmem
        · exact Effect.spares_of_isQuiet (hδ.quiet c hmem)
        · rcases List.mem_pair.mp hmem with rfl | rfl <;> rfl
      rw [hlog.store]
      exact (sameLog_replay hrest).symm.trans (sameLog_replay fun c hmem => hrest c (hrest'.subset hmem))

theorem applyAll_logged (N : Node) (env : Env) (e : Backend) (entries : List Entry) :
    ∃ δ, Logged e (entries.foldl (applyEntry N env) e) δ := by
  induction entries generalizing e with
  | nil => exact ⟨_, .refl e⟩
  | cons entry entries ih =>
    obtain ⟨δ, hδ⟩ := applyEntry_trail N env e entry
    obtain ⟨δ', hδ'⟩ := ih (applyEntry N env e entry)
    exact ⟨_, hδ.logged.trans hδ'⟩

/-- A process that stops while it applies the entries of a batch leaves the store after some of
them. -/
theorem applyAll_cut {entries : List Entry}
    (hα : e.trace ++ α <+: (entries.foldl (applyEntry N env) e).trace) :
    ∃ k ≤ entries.length, SameLog ((entries.take k).foldl (applyEntry N env) e).store
      (replay e.thread.id e.store α) := by
  induction entries generalizing e α with
  | nil =>
    refine ⟨0, le_rfl, ?_⟩
    have hlen := hα.length_le
    rw [List.foldl_nil, List.length_append] at hlen
    obtain rfl : α = [] := List.length_eq_zero_iff.mp (by omega)
    exact .refl _
  | cons entry entries ih =>
    obtain ⟨δ, hδ⟩ := applyEntry_trail N env e entry
    obtain ⟨γ, hγ⟩ := applyAll_logged N env (applyEntry N env e entry) entries
    rw [List.foldl_cons, hγ.trace, hδ.logged.trace, List.append_assoc,
      List.prefix_append_right_inj] at hα
    rcases prefix_append_cases hα with hα | ⟨α', rfl, hα'⟩
    · rcases hδ.cut hα with h | h
      · exact ⟨0, Nat.zero_le _, h⟩
      · exact ⟨1, Nat.succ_le_succ (Nat.zero_le _), h⟩
    · obtain ⟨k, hk, hs⟩ := ih (e := applyEntry N env e entry) (α := α') (by
        rw [hγ.trace, List.prefix_append_right_inj]
        exact hα')
      refine ⟨k + 1, Nat.succ_le_succ hk, ?_⟩
      rw [replay_append, ← hδ.logged.store, ← hδ.logged.threadId]
      exact hs

/-! ## Before the entries are applied -/

/-- The transactions of a batch that come before its committed entries. -/
def readyWrites (rd : Ready) : List Effect :=
  .write (.saveRaftReady rd.hardState rd.entries) ::
    if rd.snapshot.isEmpty then [] else [.write (.saveRaftSnapshot rd.snapshot)]

/-- The storage with the snapshot and the hard state of a batch. -/
def installed (ms : MemoryStorage) (rd : Ready) : MemoryStorage :=
  let ms := if rd.snapshot.isEmpty then ms else (ms.applySnapshot rd.snapshot).getD ms
  if rd.hardState.isEmpty then ms else ms.setHardState rd.hardState

/-- The state in which the committed entries of a batch are applied. -/
structure Persisted (e : Backend) (rd : Ready) (e₁ : Backend) (δ : List Effect) : Prop where
  logged : Logged e e₁ (readyWrites rd ++ δ)
  quiet : ∀ a ∈ δ, a.isQuiet = true
  storage : (installed e.storage rd).append rd.entries = some e₁.storage
  appliedIndex : e₁.appliedIndex =
    if rd.snapshot.isEmpty then e.appliedIndex else rd.snapshot.index
  selfID : e₁.selfID = e.selfID
  thread : e₁.thread = e.thread
  peerIDs : e₁.peerIDs = e.peerIDs
  didByID : e₁.didByID = e.didByID

/-- What is done before the entries of a batch are applied stores no block. -/
theorem sparesBlocks_readyWrites (hquiet : ∀ a ∈ δ, a.isQuiet = true) :
    ∀ a ∈ readyWrites rd ++ δ, a.sparesBlocks = true := by
  intro a ha
  rcases List.mem_append.mp ha with h | h
  · unfold readyWrites at h
    rcases List.mem_cons.mp h with rfl | h
    · rfl
    · split at h
      · exact absurd h List.not_mem_nil
      · rw [List.mem_singleton.mp h]
        rfl
  · exact Effect.sparesBlocks_of_isQuiet (hquiet a h)

theorem Persisted.blocks {e₁ : Backend}
    (hp : Persisted e rd e₁ δ) : e₁.store.blocks = e.store.blocks := by
  rw [hp.logged.store]
  exact blocks_replay (sparesBlocks_readyWrites hp.quiet)

/-- How `handleReady` ends. -/
inductive ReadyTrail (N : Node) (env : Env) (e : Backend) (rd : Ready) : Except Stop Backend → Prop
  /-- Nothing has been saved. -/
  | unsaved {w : Write} (hfail : refused env e w = true) :
    ReadyTrail N env e rd (.error (.retry (note e (.failed w))))
  /-- The entries have been saved and the snapshot not. -/
  | halfSaved {e₁ e' : Backend} {w : Write} (hsnap : rd.snapshot.isEmpty = false)
    (hfail : refused env e₁ w = true)
    (hlog : Logged e e' [.write (.saveRaftReady rd.hardState rd.entries), .failed w])
    (hmem : SameMemory e e') : ReadyTrail N env e rd (.error (.retry e'))
  /-- The entries do not fit to the storage. -/
  | panicked {e' : Backend} {δ : List Effect} (hlog : Logged e e' (readyWrites rd ++ δ))
    (hquiet : ∀ a ∈ δ, a.isQuiet = true) (hfit : (installed e.storage rd).append rd.entries = none) :
    ReadyTrail N env e rd (.error (.panic e'))
  /-- The committed entries have been applied. -/
  | applied {e₁ : Backend} {δ : List Effect} (hp : Persisted e rd e₁ δ) :
    ReadyTrail N env e rd (.ok (rd.committedEntries.foldl (applyEntry N env) e₁))

theorem persistHardState_sides (env : Env) (e : Backend) (hs : HardState) : ∃ δ,
    Logged e (persistHardState env e hs) δ ∧ (∀ a ∈ δ, a.isQuiet = true) ∧
      (persistHardState env e hs).storage =
        (if hs.isEmpty then e.storage else e.storage.setHardState hs) ∧
      (persistHardState env e hs).appliedIndex = e.appliedIndex ∧
      (persistHardState env e hs).selfID = e.selfID ∧
      (persistHardState env e hs).thread = e.thread ∧
      (persistHardState env e hs).peerIDs = e.peerIDs ∧
      (persistHardState env e hs).didByID = e.didByID := by
  unfold persistHardState
  split
  · exact ⟨_, .refl e, fun _ h => absurd h List.not_mem_nil, rfl, rfl, rfl, rfl, rfl, rfl⟩
  · obtain ⟨δ, hδ⟩ := sides_write env e (w := .saveConsensusState (hardStateRecord hs)) rfl
    have hmem := sameMemory_write env e (.saveConsensusState (hardStateRecord hs))
    refine ⟨δ, ⟨hδ.trace, hδ.store, hδ.threadId⟩, hδ.quiet, ?_, hδ.appliedIndex, hδ.selfID,
      hmem.thread, hmem.peerIDs, hmem.didByID⟩
    change (write env e _).storage.setHardState hs = _
    rw [hδ.storage]

theorem handleReady_trail (N : Node) (env : Env) (e : Backend) (rd : Ready) :
    ReadyTrail N env e rd (handleReady N env e rd) := by
  unfold handleReady saveReady
  dsimp only
  cases hready : refused env e (.saveRaftReady rd.hardState rd.entries) with
  | true => exact .unsaved hready
  | false =>
    rw [if_neg Bool.false_ne_true]
    change ReadyTrail N env e rd (installSnapshot env _ rd.snapshot >>= _)
    have hlog := logged_write hready
    have hwr := write_of_not_refused hready
    set e₁ := write env e (.saveRaftReady rd.hardState rd.entries) with he₁
    -- The snapshot is saved and installed, or the batch is given up.
    have hinst : (∃ w, rd.snapshot.isEmpty = false ∧ refused env e₁ w = true ∧
          installSnapshot env e₁ rd.snapshot = .error (.retry (note e₁ (.failed w)))) ∨
        ∃ e₂, installSnapshot env e₁ rd.snapshot = .ok e₂ ∧ Logged e e₂ (readyWrites rd) ∧
          e₂.storage = (if rd.snapshot.isEmpty then e.storage
            else (e.storage.applySnapshot rd.snapshot).getD e.storage) ∧
          e₂.appliedIndex = (if rd.snapshot.isEmpty then e.appliedIndex else rd.snapshot.index) ∧
          e₂.selfID = e.selfID ∧ e₂.thread = e.thread ∧ e₂.peerIDs = e.peerIDs ∧
            e₂.didByID = e.didByID := by
      unfold installSnapshot readyWrites
      cases hsnap : rd.snapshot.isEmpty with
      | true =>
        refine .inr ⟨e₁, rfl, hlog, ?_⟩
        rw [hwr]
        exact ⟨rfl, rfl, rfl, rfl, rfl, rfl⟩
      | false =>
        rw [if_neg Bool.false_ne_true]
        dsimp only
        cases href : refused env e₁ (.saveRaftSnapshot rd.snapshot) with
        | true => exact .inl ⟨_, rfl, href, rfl⟩
        | false =>
          have hlog₂ := hlog.trans (logged_write href)
          refine .inr ⟨_, rfl, ⟨hlog₂.trace, hlog₂.store, hlog₂.threadId⟩, ?_⟩
          rw [write_of_not_refused href, hwr]
          exact ⟨rfl, rfl, rfl, rfl, rfl, rfl⟩
    rcases hinst with ⟨w, hsnap, hfail, hret⟩ | ⟨e₂, hok, hlog₂, hst₂, hap₂, hself₂, hthread₂, hpeers₂, hdids₂⟩
    · rw [hret]
      exact .halfSaved hsnap hfail (hlog.trans (logged_note rfl))
        ((sameMemory_write env e _).trans (sameMemory_note e₁ _))
    · rw [hok]
      change ReadyTrail N env e rd (appendEntries _ rd.entries >>= _)
      obtain ⟨δ₃, hlog₃, hquiet₃, hst₃, hap₃, hself₃, hthread₃, hpeers₃, hdids₃⟩ :=
        persistHardState_sides env e₂ rd.hardState
      set e₃ := persistHardState env e₂ rd.hardState with he₃
      have hst : e₃.storage = installed e.storage rd := by
        rw [hst₃, hst₂]
        rfl
      unfold appendEntries
      rw [hst]
      cases happ : (installed e.storage rd).append rd.entries with
      | none => exact .panicked (hlog₂.trans hlog₃) hquiet₃ happ
      | some ms =>
        change ReadyTrail N env e rd (.ok _)
        obtain ⟨δ₄, hδ₄⟩ := sendAll_sides N { e₃ with storage := ms } rd.messages
        have hmem₄ := sameMemory_sendAll N { e₃ with storage := ms } rd.messages
        refine .applied (δ := δ₃ ++ δ₄) ⟨?_, ?_, ?_, ?_, ?_, ?_, ?_, ?_⟩
        · have hlog₄ : Logged e₃ (rd.messages.foldl (sendRaftMsg N) { e₃ with storage := ms }) δ₄ :=
            ⟨hδ₄.trace, hδ₄.store, hδ₄.threadId⟩
          rw [← List.append_assoc]
          exact (hlog₂.trans hlog₃).trans hlog₄
        · exact fun a ha => (List.mem_append.mp ha).elim (hquiet₃ a) (hδ₄.quiet a)
        · rw [hδ₄.storage, happ]
        · rw [hδ₄.appliedIndex, ← hap₂, ← hap₃]
        · rw [hδ₄.selfID, ← hself₂, ← hself₃]
        · rw [hmem₄.thread, ← hthread₂, ← hthread₃]
        · rw [hmem₄.peerIDs, ← hpeers₂, ← hpeers₃]
        · rw [hmem₄.didByID, ← hdids₂, ← hdids₃]

/-! ## Stopping in the middle of a batch -/

/-- The state in which `handleReady` ends, one way or the other. -/
def ended : Except Stop Backend → Backend
  | .ok e => e
  | .error (.retry e) => e
  | .error (.panic e) => e

/-- What a process that stops in the middle of a batch, after the effects `α`, leaves in the store,
up to the effects that spare the log. -/
inductive Cut (N : Node) (env : Env) (e : Backend) (rd : Ready) (α : List Effect) : Prop
  /-- Nothing of the batch. -/
  | before (h : replay e.thread.id e.store α = e.store)
  /-- The entries and the hard state, and not the snapshot that belongs to them. -/
  | between (hsnap : rd.snapshot.isEmpty = false)
    (hready : .write (.saveRaftReady rd.hardState rd.entries) ∈ α)
    (hmissing : .write (.saveRaftSnapshot rd.snapshot) ∉ α)
  /-- What is saved before the committed entries are applied. -/
  | saved (h : SameLog (replay e.thread.id e.store (readyWrites rd)) (replay e.thread.id e.store α))
  /-- Some of the committed entries have been applied. -/
  | applied {e₁ : Backend} {δ : List Effect} {k : Nat} (hp : Persisted e rd e₁ δ)
    (hk : k ≤ rd.committedEntries.length)
    (h : SameLog ((rd.committedEntries.take k).foldl (applyEntry N env) e₁).store
      (replay e.thread.id e.store α))

theorem cut_of_readyWrites (hα : α <+: readyWrites rd) : Cut N env e rd α := by
  cases α with
  | nil => exact .before rfl
  | cons a α =>
    obtain ⟨rfl, hα'⟩ := List.cons_prefix_cons.mp hα
    cases hsnap : rd.snapshot.isEmpty with
    | true =>
      rw [hsnap, if_pos rfl, List.prefix_nil] at hα'
      rw [hα']
      refine .saved ?_
      rw [readyWrites, hsnap]
      exact .refl _
    | false =>
      rw [hsnap, if_neg Bool.false_ne_true] at hα'
      cases α with
      | nil =>
        refine .between hsnap List.mem_cons_self fun h => ?_
        cases List.mem_singleton.mp h
      | cons b α =>
        obtain ⟨rfl, hα''⟩ := List.cons_prefix_cons.mp hα'
        rw [List.prefix_nil.mp hα'']
        refine .saved ?_
        rw [readyWrites, hsnap]
        exact .refl _

/-- **A process that stops in the middle of a batch** leaves nothing of it, the saved entries without
or with the snapshot, or some of the committed entries applied. -/
theorem handleReady_cut
    (hα : e.trace ++ α <+: (ended (handleReady N env e rd)).trace) : Cut N env e rd α := by
  have hcutoff {e' : Backend} {γ : List Effect} (hlog : Logged e e' γ)
      (h : e.trace ++ α <+: e'.trace) : α <+: γ := by
    rwa [hlog.trace, List.prefix_append_right_inj] at h
  have htrail := handleReady_trail N env e rd
  generalize handleReady N env e rd = r at hα htrail
  cases htrail with
  | unsaved =>
    refine .before ?_
    rcases List.prefix_cons_iff.mp (hcutoff (logged_note rfl) hα) with rfl | ⟨α', rfl, hα'⟩
    · rfl
    · rw [List.prefix_nil.mp hα']
      rfl
  | halfSaved hsnap _ hlog hmem =>
    have hα' := hcutoff hlog hα
    cases α with
    | nil => exact .before rfl
    | cons a α =>
      obtain ⟨rfl, hα''⟩ := List.cons_prefix_cons.mp hα'
      refine .between hsnap List.mem_cons_self fun h => ?_
      rcases List.mem_cons.mp h with h | h
      · cases h
      · cases List.mem_singleton.mp (hα''.subset h)
  | panicked hlog hquiet hfit =>
    rcases prefix_append_cases (hcutoff hlog hα) with hα' | ⟨α', rfl, hα'⟩
    · exact cut_of_readyWrites hα'
    · refine .saved ?_
      rw [replay_append]
      refine sameLog_replay fun a ha => ?_
      exact Effect.spares_of_isQuiet (hquiet a (hα'.subset ha))
  | @applied e₁ δ hp =>
    obtain ⟨γ, hγ⟩ := applyAll_logged N env e₁ rd.committedEntries
    rcases prefix_append_cases (hcutoff (hp.logged.trans hγ) hα) with hα' | ⟨α', rfl, hα'⟩
    · rcases prefix_append_cases hα' with hα'' | ⟨α', rfl, hα''⟩
      · exact cut_of_readyWrites hα''
      · refine .saved ?_
        rw [replay_append]
        refine sameLog_replay fun a ha => ?_
        exact Effect.spares_of_isQuiet (hp.quiet a (hα''.subset ha))
    · have hcut : e₁.trace ++ α' <+: (rd.committedEntries.foldl (applyEntry N env) e₁).trace := by
        rw [hγ.trace, List.prefix_append_right_inj]
        exact hα'
      obtain ⟨k, hk, hs⟩ := applyAll_cut hcut
      refine .applied hp hk ?_
      rw [replay_append, ← hp.logged.store, ← hp.logged.threadId]
      exact hs

end MoltMesh.Raft
