import Mathlib.Logic.Relation
import MoltMesh.Chain
import MoltMesh.Raft.Start

/-!
# What a step leaves behind

The store after a step is the one before it with the transactions of the step's
trace replayed (`Logged`).  Most of what the backend does besides is on the side
(`Sides`): it re-signs and saves the descriptor, records the hard state, forwards
messages of the Raft library, and leaves blocks, pending entries and the Raft log
alone.
-/

namespace MoltMesh

open MoltMesh.Lib Pb

/-- The block the transaction has filled is all that matters of how it was filled. -/
theorem Store.appendBlockAndAckPending_const {s s' : Store} {T : String} {ids : List Int}
    {fill : Int → String → ThreadBlock} {b : ThreadBlock}
    (h : s.appendBlockAndAckPending T ids fill = some (b, s')) :
    s.appendBlockAndAckPending T ids (fun _ _ => b) = some (b, s') := by
  rw [appendBlockAndAckPending_eq] at h ⊢
  obtain ⟨blocks, hblocks, heq⟩ := Option.map_eq_some_iff.mp h
  obtain ⟨rfl, rfl⟩ := Prod.mk.inj heq
  rw [hblocks]
  rfl

theorem Store.blocks_releasePendingClaimIDs {s : Store} (ids : List Int) :
    (s.releasePendingClaimIDs ids).blocks = s.blocks := by
  induction ids generalizing s with
  | nil => rfl
  | cons id ids ih => exact ih.trans rfl

end MoltMesh

namespace MoltMesh.Raft

open MoltMesh.Lib Pb Raftpb

/-! ## Replaying a trace -/

/-- What an effect does to the store. -/
def Effect.apply (T : String) (s : Store) : Effect → Store
  | .write w => w.apply T s
  | _ => s

/-- The store after the effects of a trace. -/
def replay (T : String) (s : Store) (δ : List Effect) : Store := δ.foldl (Effect.apply T) s

@[simp] theorem replay_nil (T : String) (s : Store) : replay T s [] = s := rfl

theorem replay_append (T : String) (s : Store) (δ δ' : List Effect) :
    replay T s (δ ++ δ') = replay T (replay T s δ) δ' := List.foldl_append

/-- The trace grows by `δ`, and the store is changed by its transactions. -/
structure Logged (e e' : Backend) (δ : List Effect) : Prop where
  trace : e'.trace = e.trace ++ δ
  store : e'.store = replay e.thread.id e.store δ
  threadId : e'.thread.id = e.thread.id

variable {N : Node} {env : Env} {e e' e'' : Backend} {δ δ' : List Effect} {a : Effect} {w : Write}
  {s : Store} {T : String}

theorem Logged.refl (e : Backend) : Logged e e [] := ⟨(List.append_nil _).symm, rfl, rfl⟩

theorem Logged.trans (h : Logged e e' δ) (h' : Logged e' e'' δ') : Logged e e'' (δ ++ δ') where
  trace := by rw [h'.trace, h.trace, List.append_assoc]
  store := by rw [h'.store, h.store, h.threadId, replay_append]
  threadId := h'.threadId.trans h.threadId

/-- Whether an effect is the commitment of a transaction. -/
def Effect.isWrite : Effect → Bool
  | .write _ => true
  | _ => false

theorem logged_note (ha : a.isWrite = false) : Logged e (note e a) [a] := by
  refine ⟨rfl, ?_, rfl⟩
  cases a with
  | write w => cases ha
  | _ => rfl

theorem write_of_refused (h : refused env e w = true) :
    write env e w = note e (.failed w) := if_pos h

theorem write_of_not_refused (h : refused env e w = false) :
    write env e w = { note e (.write w) with store := w.apply e.thread.id e.store } :=
  if_neg (by rw [h]; exact Bool.false_ne_true)

theorem logged_write (h : refused env e w = false) : Logged e (write env e w) [.write w] := by
  rw [write_of_not_refused h]
  exact ⟨rfl, rfl, rfl⟩

/-- A transaction is committed or fails. -/
theorem write_cases (env : Env) (e : Backend) (w : Write) :
    Logged e (write env e w) [.write w] ∨ Logged e (write env e w) [.failed w] := by
  cases h : refused env e w with
  | true =>
    rw [write_of_refused h]
    exact .inr (logged_note rfl)
  | false => exact .inl (logged_write h)

/-! ## Effects on the side -/

/-- An effect that touches neither blocks nor pending entries nor the Raft log, and shows nothing
of them to others. -/
def Effect.isQuiet : Effect → Bool
  | .write (.saveThread _) => true
  | .write (.saveConsensusState _) => true
  | .write _ => false
  | .broadcast (.committedBlock _) => false
  | .commit _ => false
  | .propose _ => false
  | _ => true

/-- An effect that does nothing to blocks, pending entries and the Raft log. -/
def Effect.spares : Effect → Bool
  | .write (.saveThread _) => true
  | .write (.saveConsensusState _) => true
  | .write _ => false
  | _ => true

theorem Effect.spares_of_isQuiet (ha : a.isQuiet = true) : a.spares = true := by
  cases a with
  | write w => cases w <;> first | rfl | cases ha
  | _ => rfl

/-- Two stores with the same blocks, pending entries, claims and Raft log. -/
structure SameLog (s s' : Store) : Prop where
  blocks : s'.blocks = s.blocks
  votes : s'.votes = s.votes
  pending : s'.pending = s.pending
  pendingSeq : s'.pendingSeq = s.pendingSeq
  claims : s'.claims = s.claims
  raftHardState : s'.raftHardState = s.raftHardState
  raftEntries : s'.raftEntries = s.raftEntries
  raftSnapshots : s'.raftSnapshots = s.raftSnapshots

theorem SameLog.refl (s : Store) : SameLog s s := ⟨rfl, rfl, rfl, rfl, rfl, rfl, rfl, rfl⟩

theorem SameLog.symm {s' : Store} (h : SameLog s s') : SameLog s' s where
  blocks := h.blocks.symm
  votes := h.votes.symm
  pending := h.pending.symm
  pendingSeq := h.pendingSeq.symm
  claims := h.claims.symm
  raftHardState := h.raftHardState.symm
  raftEntries := h.raftEntries.symm
  raftSnapshots := h.raftSnapshots.symm

theorem SameLog.trans {s' s'' : Store} (h : SameLog s s') (h' : SameLog s' s'') : SameLog s s'' where
  blocks := h'.blocks.trans h.blocks
  votes := h'.votes.trans h.votes
  pending := h'.pending.trans h.pending
  pendingSeq := h'.pendingSeq.trans h.pendingSeq
  claims := h'.claims.trans h.claims
  raftHardState := h'.raftHardState.trans h.raftHardState
  raftEntries := h'.raftEntries.trans h.raftEntries
  raftSnapshots := h'.raftSnapshots.trans h.raftSnapshots

theorem sameLog_apply (ha : a.spares = true) : SameLog s (a.apply T s) := by
  cases a with
  | write w =>
    cases w with
    | saveThread t => exact ⟨rfl, rfl, rfl, rfl, rfl, rfl, rfl, rfl⟩
    | saveConsensusState cs => exact ⟨rfl, rfl, rfl, rfl, rfl, rfl, rfl, rfl⟩
    | _ => cases ha
  | _ => exact .refl s

theorem sameLog_replay (h : ∀ a ∈ δ, a.spares = true) : SameLog s (replay T s δ) := by
  induction δ generalizing s with
  | nil => exact .refl s
  | cons a δ ih =>
    have ha := sameLog_apply (s := s) (T := T) (h a List.mem_cons_self)
    exact ha.trans (ih fun b hb => h b (List.mem_cons_of_mem _ hb))

/-- An effect that stores no block. -/
def Effect.sparesBlocks : Effect → Bool
  | .write (.appendBlock _ _) => false
  | .write (.saveBlock _) => false
  | _ => true

theorem Effect.sparesBlocks_of_isQuiet (ha : a.isQuiet = true) : a.sparesBlocks = true := by
  cases a with
  | write w => cases w <;> first | rfl | cases ha
  | _ => rfl

theorem blocks_apply (ha : a.sparesBlocks = true) : (a.apply T s).blocks = s.blocks := by
  cases a with
  | write w =>
    cases w with
    | appendBlock ids b => cases ha
    | saveBlock b => cases ha
    | releasePendingClaimIDs ids => exact Store.blocks_releasePendingClaimIDs ids
    | _ => rfl
  | _ => rfl

theorem blocks_replay (h : ∀ a ∈ δ, a.sparesBlocks = true) : (replay T s δ).blocks = s.blocks := by
  induction δ generalizing s with
  | nil => rfl
  | cons a δ ih =>
    have ha := blocks_apply (s := s) (T := T) (h a List.mem_cons_self)
    exact (ih fun b hb => h b (List.mem_cons_of_mem _ hb)).trans ha

theorem threads_foldl {α : Type} {f : Store → α → Store} (hf : ∀ s a, (f s a).threads = s.threads)
    (l : List α) (s : Store) : (l.foldl f s).threads = s.threads := by
  induction l generalizing s with
  | nil => rfl
  | cons a l ih => exact (ih _).trans (hf s a)

theorem threads_apply (h : ∀ th, w ≠ .saveThread th) : (w.apply T s).threads = s.threads := by
  cases w with
  | saveThread th => exact absurd rfl (h th)
  | releasePendingClaimIDs ids => exact threads_foldl (f := Store.deleteClaim) (fun _ _ => rfl) ids s
  | appendBlock ids b =>
    simp only [Write.apply, Store.appendBlockAndAckPending_eq]
    cases s.blocks.insert (.ofBlock b) with
    | none => rfl
    | some blocks =>
      exact threads_foldl (f := fun t id => (t.deletePending id).deleteClaim id) (fun _ _ => rfl) ids
        { s with blocks := blocks }
  | _ => rfl

/-- A part of a step that is on the side. -/
structure Sides (e e' : Backend) (δ : List Effect) : Prop extends Logged e e' δ where
  quiet : ∀ a ∈ δ, a.isQuiet = true
  storage : e'.storage = e.storage
  appliedIndex : e'.appliedIndex = e.appliedIndex
  selfID : e'.selfID = e.selfID

theorem Sides.refl (e : Backend) : Sides e e [] :=
  ⟨.refl e, fun _ h => absurd h List.not_mem_nil, rfl, rfl, rfl⟩

theorem Sides.trans (h : Sides e e' δ) (h' : Sides e' e'' δ') : Sides e e'' (δ ++ δ') where
  toLogged := h.toLogged.trans h'.toLogged
  quiet := fun a ha => (List.mem_append.mp ha).elim (h.quiet a) (h'.quiet a)
  storage := h'.storage.trans h.storage
  appliedIndex := h'.appliedIndex.trans h.appliedIndex
  selfID := h'.selfID.trans h.selfID

theorem Sides.sameLog (h : Sides e e' δ) : SameLog e.store e'.store :=
  h.store ▸ sameLog_replay fun a ha => Effect.spares_of_isQuiet (h.quiet a ha)

theorem sides_note (hw : a.isWrite = false) (hq : a.isQuiet = true) : Sides e (note e a) [a] :=
  ⟨logged_note hw, fun _ hb => List.mem_singleton.mp hb ▸ hq, rfl, rfl, rfl⟩

theorem sides_write (env : Env) (e : Backend) (hq : (Effect.write w).isQuiet = true) :
    ∃ δ, Sides e (write env e w) δ := by
  cases h : refused env e w with
  | true =>
    rw [write_of_refused h]
    exact ⟨_, sides_note rfl rfl⟩
  | false =>
    refine ⟨_, logged_write h, fun b hb => List.mem_singleton.mp hb ▸ hq, ?_, ?_, ?_⟩
    all_goals rw [write_of_not_refused h]; rfl

/-- A part of a step that changes only what the backend keeps in memory of threads and voters. -/
theorem sides_memory (hs : e'.store = e.store) (ht : e'.trace = e.trace)
    (hid : e'.thread.id = e.thread.id) (hm : e'.storage = e.storage)
    (ha : e'.appliedIndex = e.appliedIndex) (hself : e'.selfID = e.selfID) : Sides e e' [] :=
  ⟨⟨by rw [ht, List.append_nil], hs, hid⟩, fun _ h => absurd h List.not_mem_nil, hm, ha, hself⟩

/-- What holds before the loop of `applyMembershipEntries` and is kept when an observer is added
holds after it.  `motive` may speak of the flag. -/
theorem addObservers_induction {motive : Backend → Bool → Prop} (l : List ThreadEntry)
    (h₀ : motive e false) (hadd : ∀ e c did, motive e c → motive (addObserver e did) true) :
    motive (addObservers e l).1 (addObservers e l).2 := by
  unfold addObservers
  generalize false = c at h₀ ⊢
  induction l generalizing e c with
  | nil => exact h₀
  | cons entry l ih =>
    rw [List.foldl_cons]
    dsimp only
    split
    · exact ih _ h₀
    · exact ih _ (hadd _ _ _ h₀)

/-- One of the things a replica does on the side of applying the log.  `member` says whether
observers may be added. -/
inductive Aside (env : Env) (member : Prop) (e : Backend) : Backend → Prop
  /-- The descriptor is re-signed and saved. -/
  | descriptor {th : Thread} (hth : ∃ m, th = { e.thread with metadata := m }) :
    Aside env member e (write env { e with thread := th } (.saveThread th))
  | count (n : Int32) : Aside env member e { e with thread := { e.thread with n } }
  | voters (cs : ConfState) : Aside env member e { e with confState := cs }
  | observer (h : member) (did : String) : Aside env member e (addObserver e did)

/-- One thing on the side after the other. -/
abbrev Asides (env : Env) (member : Prop) : Backend → Backend → Prop :=
  Relation.ReflTransGen (Aside env member)

variable {member : Prop}

theorem saveDescriptor_asides (N : Node) (env : Env) (e : Backend) :
    Asides env member e (saveDescriptor N env e) := by
  unfold saveDescriptor
  split
  · exact .refl
  · split
    · exact .refl
    · rename_i th hth
      exact .single (.descriptor (signDescriptor_eq_some hth))

theorem applyMembershipEntries_asides (N : Node) (env : Env) (e : Backend) (l : List ThreadEntry)
    (hm : member) : Asides env member e (applyMembershipEntries N env e l) := by
  have hadd : Asides env member e (addObservers e l).1 :=
    addObservers_induction (motive := fun e' _ => Asides env member e e') l .refl
      fun _ _ did h => h.tail (.observer hm did)
  unfold applyMembershipEntries
  dsimp only
  split
  · exact hadd.trans (saveDescriptor_asides N env _)
  · exact hadd

theorem applyConfChange_asides (N : Node) (env : Env) (e : Backend) (entry : Entry) :
    Asides env member e (applyConfChange N env e entry) := by
  unfold applyConfChange
  split
  · exact .refl
  · rename_i cs _
    have hvoters : Asides env member e { e with confState := cs } := .single (.voters cs)
    unfold persistVoterCount
    split
    · exact hvoters
    · exact (hvoters.tail (.count _)).trans (saveDescriptor_asides N env _)

theorem Aside.sides (h : Aside env member e e') : ∃ δ, Sides e e' δ := by
  cases h with
  | @descriptor th hth =>
    obtain ⟨m, rfl⟩ := hth
    have hmem : Sides e { e with thread := { e.thread with metadata := m } } [] :=
      sides_memory rfl rfl rfl rfl rfl rfl
    obtain ⟨δ, hδ⟩ := sides_write env { e with thread := { e.thread with metadata := m } }
      (w := .saveThread { e.thread with metadata := m }) rfl
    exact ⟨_, hmem.trans hδ⟩
  | _ => exact ⟨_, sides_memory rfl rfl rfl rfl rfl rfl⟩

theorem Asides.sides (h : Asides env member e e') : ∃ δ, Sides e e' δ := by
  induction h with
  | refl => exact ⟨_, .refl e⟩
  | tail _ hstep ih =>
    obtain ⟨δ, hδ⟩ := ih
    obtain ⟨δ', hδ'⟩ := hstep.sides
    exact ⟨_, hδ.trans hδ'⟩

theorem applyMembershipEntries_sides (N : Node) (env : Env) (e : Backend) (l : List ThreadEntry) :
    ∃ δ, Sides e (applyMembershipEntries N env e l) δ :=
  (applyMembershipEntries_asides N env e l trivial).sides

theorem completeVoterChange_sides (e : Backend) (context : String) :
    ∃ δ, Sides e (completeVoterChange e context) δ := by
  unfold completeVoterChange
  split
  · exact ⟨_, .refl e⟩
  · have hmem : Sides e { e with changes := e.changes.filter fun t => t ≠ context } [] :=
      sides_memory rfl rfl rfl rfl rfl rfl
    exact ⟨_, hmem.trans (sides_note rfl rfl)⟩

/-- Sending messages keeps what noting them keeps. -/
theorem sendAll_rel {R : Backend → Backend → Prop} (hrefl : ∀ e, R e e)
    (htrans : ∀ {e₁ e₂ e₃}, R e₁ e₂ → R e₂ e₃ → R e₁ e₃)
    (hnote : ∀ e m, R e (note e (.broadcast (.raft N.id.did m)))) (e : Backend) (ms : List Message) :
    R e (ms.foldl (sendRaftMsg N) e) := by
  induction ms generalizing e with
  | nil => exact hrefl e
  | cons m ms ih =>
    refine htrans ?_ (ih (sendRaftMsg N e m))
    unfold sendRaftMsg
    dsimp only
    split
    · exact hrefl e
    · exact hnote e m

theorem sendRaftMsg_sides (N : Node) (e : Backend) (m : Message) :
    ∃ δ, Sides e (sendRaftMsg N e m) δ := by
  unfold sendRaftMsg
  dsimp only
  split
  · exact ⟨_, .refl e⟩
  · exact ⟨_, sides_note rfl rfl⟩

theorem sendAll_sides (N : Node) (e : Backend) (ms : List Message) :
    ∃ δ, Sides e (ms.foldl (sendRaftMsg N) e) δ := by
  refine sendAll_rel (R := fun e e' => ∃ δ, Sides e e' δ) (fun e => ⟨_, .refl e⟩) ?_ ?_ e ms
  · rintro e₁ e₂ e₃ ⟨δ, hδ⟩ ⟨δ', hδ'⟩
    exact ⟨_, hδ.trans hδ'⟩
  · exact fun e m => ⟨_, sides_note rfl rfl⟩

/-! ## What is kept in memory -/

/-- Two states that differ in what has been logged only. -/
structure SameMemory (e e' : Backend) : Prop where
  thread : e'.thread = e.thread
  peerIDs : e'.peerIDs = e.peerIDs
  didByID : e'.didByID = e.didByID
  storage : e'.storage = e.storage
  appliedIndex : e'.appliedIndex = e.appliedIndex
  pendingReady : e'.pendingReady = e.pendingReady
  selfID : e'.selfID = e.selfID

theorem SameMemory.refl (e : Backend) : SameMemory e e := ⟨rfl, rfl, rfl, rfl, rfl, rfl, rfl⟩

theorem SameMemory.trans (h : SameMemory e e') (h' : SameMemory e' e'') : SameMemory e e'' where
  thread := h'.thread.trans h.thread
  peerIDs := h'.peerIDs.trans h.peerIDs
  didByID := h'.didByID.trans h.didByID
  storage := h'.storage.trans h.storage
  appliedIndex := h'.appliedIndex.trans h.appliedIndex
  pendingReady := h'.pendingReady.trans h.pendingReady
  selfID := h'.selfID.trans h.selfID

theorem sameMemory_note (e : Backend) (a : Effect) : SameMemory e (note e a) :=
  ⟨rfl, rfl, rfl, rfl, rfl, rfl, rfl⟩

theorem sameMemory_write (env : Env) (e : Backend) (w : Write) : SameMemory e (write env e w) := by
  cases h : refused env e w with
  | true =>
    rw [write_of_refused h]
    exact sameMemory_note e _
  | false =>
    rw [write_of_not_refused h]
    exact ⟨rfl, rfl, rfl, rfl, rfl, rfl, rfl⟩

theorem sameMemory_sendAll (N : Node) (e : Backend) (ms : List Message) :
    SameMemory e (ms.foldl (sendRaftMsg N) e) :=
  sendAll_rel .refl (fun h h' => h.trans h') (fun e _ => sameMemory_note e _) e ms

end MoltMesh.Raft
