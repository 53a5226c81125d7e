import MoltMesh.Pending
import MoltMesh.Raft.Calls

/-!
# One thing after the other

A call of a replica is a sequence of small things (`Doing`): an effect is noted, a
transaction is executed, something is changed in memory.  What each of them keeps, every
call keeps.  `ok` says which effects there may be, and is asked of what the call is given.
-/

namespace MoltMesh.Raft

open MoltMesh.Lib Pb Raftpb

/-- An effect by which a caller begins to wait or is answered. -/
def Effect.isVoterChange : Effect → Bool
  | .proposeConfChange _ _ => true
  | .voterChange _ => true
  | _ => false

/-- One of the things a replica does. -/
inductive Doing (env : Env) (ok : Effect → Prop) (member : Prop) (e : Backend) : Backend → Prop
  | aside {e' : Backend} (h : Aside env member e e') : Doing env ok member e e'
  | failed (w : Write) : Doing env ok member e (note e (.failed w))
  | note {a : Effect} (hw : a.isWrite = false) (hv : a.isVoterChange = false) (hok : ok a) :
    Doing env ok member e (note e a)
  | write {w : Write} (href : refused env e w = false) (hok : ok (.write w)) :
    Doing env ok member e (write env e w)
  /-- The log is extended, cut or applied. -/
  | log (ms : MemoryStorage) (i t : Nat) (cs : ConfState) : Doing env ok member e
    { e with storage := ms, appliedIndex := i, appliedTerm := t, confState := cs }
  /-- A caller is answered. -/
  | answer {t : String} (ht : t ∈ e.changes) (hne : t ≠ "") (hok : ok (.voterChange t)) :
    Doing env ok member e (Raft.note { e with changes := e.changes.filter fun x => x ≠ t } (.voterChange t))
  /-- The Raft node refuses what a caller asks for. -/
  | refuse : Doing env ok member e { e with changeSeq := e.changeSeq + 1 }
  /-- A caller begins to wait. -/
  | ask (change : ConfChange) (hok : ok (.proposeConfChange change (toString (e.changeSeq + 1)))) :
    Doing env ok member e (Raft.note
      { e with changeSeq := e.changeSeq + 1, changes := e.changes ++ [toString (e.changeSeq + 1)] }
      (.proposeConfChange change (toString (e.changeSeq + 1))))

/-- One thing after the other. -/
abbrev Doings (env : Env) (ok : Effect → Prop) (member : Prop) : Backend → Backend → Prop :=
  Relation.ReflTransGen (Doing env ok member)

/-- What a replica does whatever it is given. -/
def Effect.isRoutine : Effect → Bool
  | .write (.saveRaftReady _ _) => true
  | .write (.saveRaftSnapshot _) => true
  | .write (.saveConsensusState _) => true
  | .write (.claimPendingEntries _) => true
  | .write (.releasePendingClaimIDs _) => true
  | .broadcast (.raft _ _) => true
  | .step _ => true
  | .commit _ => true
  | _ => false

/-- The thread entries in a log entry. -/
def entriesOf (entry : Entry) : List ThreadEntry :=
  match entry.data with
  | .proposal p => p.entries
  | .entries l => l
  | _ => []

/-- The block a transaction has filled has the entries it was given. -/
theorem entries_of_append {s s' : Store} {T : String} {ids : List Int} {term : Nat}
    {l : List ThreadEntry} {did : String} {now : Int} {b : ThreadBlock}
    (h : s.appendBlockAndAckPending T ids (fillBlock T term l did now) = some (b, s')) :
    b.entries = l := by
  rw [Store.appendBlockAndAckPending_eq] at h
  obtain ⟨blocks, -, heq⟩ := Option.map_eq_some_iff.mp h
  rw [← (Prod.mk.inj heq).1]
  rfl

variable {N : Node} {env : Env} {ok : Effect → Prop} {member : Prop} {e e' : Backend}

theorem Asides.doings (h : Asides env member e e') : Doings env ok member e e' :=
  h.lift id fun _ _ => .aside

theorem write_doings {w : Write} (hok : ok (.write w)) : Doings env ok member e (write env e w) := by
  cases h : refused env e w with
  | true =>
    rw [write_of_refused h]
    exact .single (.failed w)
  | false => exact .single (.write h hok)

theorem completeVoterChange_doings {context : String} (hok : ok (.voterChange context)) :
    Doings env ok member e (completeVoterChange e context) := by
  unfold completeVoterChange
  split_ifs with h
  · exact .refl
  · obtain ⟨hne, hmem⟩ := not_or.mp h
    exact .single (.answer (not_not.mp hmem) hne hok)

/-! ## Batches -/

/-- The effects of a committed entry meet `ok`. -/
structure Permits (ok : Effect → Prop) (entry : Entry) : Prop where
  block : ∀ ids b, b.entries = entriesOf entry →
    ok (.write (.appendBlock ids b)) ∧ ok (.broadcast (.committedBlock b))
  answer : ∀ ccs t, entry.data = .confChangeV2 ccs t → ok (.voterChange t)

section Batch

variable (hroutine : ∀ a : Effect, a.isRoutine = true → ok a) (hm : member)

include hroutine hm

theorem commitBlock_doings {entry : Entry} {l : List ThreadEntry} {ids : List Int} {did : String}
    (hok : ∀ b, b.entries = l → ok (.write (.appendBlock ids b)) ∧ ok (.broadcast (.committedBlock b))) :
    Doings env ok member e (commitBlock N env e entry l ids did) := by
  rcases commitBlock_cases N env e entry l ids did with
    ⟨w, hw, -⟩ | ⟨b, s', e₁, -, happ, href, -, -, rfl, heq⟩
  · rw [hw]
    exact .single (.failed w)
  · rw [heq]
    obtain ⟨hwrite, hshow⟩ := hok b (entries_of_append happ)
    have hblock : Doings env ok member e (write env e (.appendBlock ids b)) := .single (.write href hwrite)
    exact ((hblock.trans (applyMembershipEntries_asides N env _ l hm).doings).tail
      (.note rfl rfl hshow)).tail (.note rfl rfl (hroutine _ rfl))

theorem applyEntry_doings {entry : Entry} (h : Permits ok entry) :
    Doings env ok member e (applyEntry N env e entry) := by
  have hadv : Doings env ok member e (advance e entry) :=
    .single (.log e.storage entry.index entry.term e.confState)
  refine hadv.trans ?_
  obtain ⟨hblock, hanswer⟩ := h
  rcases entry with ⟨term, index, data⟩
  cases data with
  | confChange cc => exact (applyConfChange_asides N env _ _).doings
  | confChangeV2 ccs context =>
    exact (applyConfChange_asides N env _ _).doings.trans (completeVoterChange_doings (hanswer ccs _ rfl))
  | empty => exact .refl
  | malformed => exact .refl
  | proposal p => exact commitBlock_doings hroutine hm fun b => hblock _ b
  | entries l => exact commitBlock_doings hroutine hm fun b => hblock _ b

theorem applyAll_doings {entries : List Entry} (h : ∀ entry ∈ entries, Permits ok entry) :
    Doings env ok member e (entries.foldl (applyEntry N env) e) := by
  induction entries generalizing e with
  | nil => exact .refl
  | cons entry entries ih =>
    exact (applyEntry_doings hroutine hm (h entry List.mem_cons_self)).trans
      (ih fun x hx => h x (List.mem_cons_of_mem _ hx))

omit hroutine hm in
/-- One part of a batch after the other. -/
theorem bind_doings {x : Except Stop Backend} {f : Backend → Except Stop Backend}
    (h : Doings env ok member e (ended x))
    (hf : ∀ e₁, x = .ok e₁ → Doings env ok member e₁ (ended (f e₁))) :
    Doings env ok member e (ended (x >>= f)) := by
  cases x with
  | error stop => exact h
  | ok e₁ => exact h.trans (hf e₁ rfl)

/-- A batch; its committed entries matter only if it is handled. -/
theorem handleReady_doings {rd : Ready} (h : (handleReady N env e rd).isOk = true →
    ∀ entry ∈ rd.committedEntries, Permits ok entry) :
    Doings env ok member e (ended (handleReady N env e rd)) := by
  refine bind_doings ?_ fun e₁ h₁ => bind_doings ?_ fun e₂ h₂ => ?_
  · unfold saveReady
    dsimp only
    split
    · exact .single (.failed _)
    · exact write_doings (hroutine _ rfl)
  · unfold installSnapshot
    dsimp only
    split
    · exact .refl
    · split
      · exact .single (.failed _)
      · exact .tail (write_doings (hroutine _ rfl)) (.log _ _ _ _)
  · have hhard : Doings env ok member e₂ (persistHardState env e₂ rd.hardState) := by
      unfold persistHardState
      split
      · exact .refl
      · exact .tail (write_doings (hroutine _ rfl)) (.log _ _ _ _)
    refine hhard.trans (bind_doings ?_ fun e₃ h₃ => ?_)
    · unfold appendEntries
      split
      · exact .refl
      · exact .single (.log _ _ _ _)
    have hsend : Doings env ok member e₃ (rd.messages.foldl (sendRaftMsg N) e₃) :=
      sendAll_rel (fun _ => .refl) .trans (fun _ _ => .single (.note rfl rfl (hroutine _ rfl))) e₃ _
    refine hsend.trans (applyAll_doings hroutine hm (h ?_))
    simp only [handleReady, h₁, h₂, h₃, bind, Except.bind]
    rfl

end Batch

/-! ## The other calls -/

/-- What a call of a replica is given meets `ok`. -/
structure Allowed (ok : Effect → Prop) (member : Prop) (e : Backend) (ev : Event) : Prop where
  routine : ∀ a : Effect, a.isRoutine = true → ok a
  propose : ∀ p : RaftProposal, (∀ t ∈ p.entries, ∃ r ∈ e.store.pending.rows,
    r.threadId = e.thread.id ∧ r.payload = t) → ok (.propose p)
  block : ∀ b, ev = .inbound (.committedBlock b) → member ∧ ok (.write (.saveBlock b))
  enqueue : ∀ t now, ev = .enqueue t → ok (.write (.enqueueEntry t now))
  ask : ∀ did add change token, ev = .voterChange did add → ok (.proposeConfChange change token)

/-- Nothing is asked of the effects. -/
theorem allowed {ev : Event} (h : ∀ b, ev = .inbound (.committedBlock b) → member) :
    Allowed (fun _ => True) member e ev :=
  ⟨fun _ _ => trivial, fun _ _ => trivial, fun b hb => ⟨h b hb, trivial⟩, fun _ _ _ => trivial,
    fun _ _ _ _ _ => trivial⟩

theorem proposePending_doings (hroutine : ∀ a : Effect, a.isRoutine = true → ok a)
    (hok : ∀ p : RaftProposal, (∀ t ∈ p.entries, ∃ r ∈ e.store.pending.rows,
      r.threadId = e.thread.id ∧ r.payload = t) → ok (.propose p)) :
    Doings env ok member e (proposePending N env e) := by
  unfold proposePending
  split
  · exact .refl
  · rw [Store.claimPendingEntries_eq]
    dsimp only
    split
    · exact .single (.failed _)
    · split
      · exact .refl
      · split
        · refine .trans ?_ (write_doings (hroutine _ rfl))
          exact write_doings (hroutine _ rfl)
        · refine .tail (write_doings (hroutine _ rfl)) (.note rfl rfl (hok _ fun t ht => ?_))
          obtain ⟨r, hr, rfl⟩ := List.mem_map.mp ht
          obtain ⟨hrow, hid, -⟩ := Store.mem_claimable hr
          exact ⟨r, hrow, hid, rfl⟩

theorem snapshot_doings (hroutine : ∀ a : Effect, a.isRoutine = true → ok a) :
    Doings env ok member e (final (snapshot env e)) := by
  unfold snapshot
  split
  · exact .refl
  · split
    · exact .refl
    · exact .refl
    · rename_i s ms _
      have hms : Doings env ok member e { e with storage := ms } := .single (.log ms _ _ _)
      dsimp only
      split
      · exact hms.tail (.failed _)
      · have hwrite := hms.trans (write_doings (w := .saveRaftSnapshot s) (hroutine _ rfl))
        split
        · exact hwrite
        · exact hwrite.tail (.log _ _ _ _)

/-- **A call does one thing after the other.** -/
theorem step_doings {ev : Event} (hready : ∀ rd, ev ≠ .ready rd) (h : Allowed ok member e ev) :
    Doings env ok member e (final (step N env e ev)) := by
  cases ev with
  | ready rd => exact absurd rfl (hready rd)
  | inbound msg =>
    cases msg with
    | committedBlock b =>
      obtain ⟨hm, hok⟩ := h.block b rfl
      simp only [step, final, handleInbound, applyCommittedBlock]
      split
      · exact .refl
      · split
        · exact .single (.failed _)
        · have hblock : Doings env ok member e (write env e (.saveBlock b)) := write_doings hok
          exact (hblock.trans (applyMembershipEntries_asides N env _ b.entries hm).doings).tail
            (.note rfl rfl (h.routine _ rfl))
    | other => exact .refl
    | raft leaderDid rm =>
      simp only [step, final, handleInbound]
      split
      · exact .refl
      · exact .head (.note rfl rfl (h.routine (.step rm) rfl)) (proposePending_doings h.routine h.propose)
  | tick =>
    simp only [step, final, tick]
    split
    · exact .refl
    · exact proposePending_doings h.routine h.propose
  | snapshot => exact snapshot_doings h.routine
  | voterChange did add =>
    simp only [step, final, beginVoterChange]
    split
    · exact .refl
    · split
      · exact .refl
      · split
        · exact .single .refuse
        · exact .single (.ask _ (h.ask did add _ _ rfl))
  | enqueue t => exact write_doings (h.enqueue t _ rfl)

theorem Doing.pendingReady (h : Doing env ok member e e') : e'.pendingReady = e.pendingReady := by
  cases h with
  | aside h =>
    cases h with
    | descriptor hth => exact (sameMemory_write env _ _).pendingReady
    | _ => rfl
  | write href hok => exact (sameMemory_write env _ _).pendingReady
  | _ => rfl

/-- A batch that is to be tried again stays so until the next one is asked for. -/
theorem pendingReady_of_step {ev : Event} (hready : ∀ rd, ev ≠ .ready rd)
    (hstep : step N env e ev = .ok e') : e'.pendingReady = e.pendingReady := by
  have h : Doings env (fun _ => True) True e (final (step N env e ev)) :=
    step_doings hready (allowed fun _ _ => trivial)
  rw [hstep, final] at h
  clear hstep
  induction h with
  | refl => rfl
  | tail _ hdo ih => exact hdo.pendingReady.trans ih

end MoltMesh.Raft
