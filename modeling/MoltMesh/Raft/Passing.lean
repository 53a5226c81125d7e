import MoltMesh.Raft.Roster

/-!
# What a replica passes on

A replica proposes the entries that are pending, stores those that are committed or
come in blocks, and hands the blocks it has made to the others.  It makes up no entry:
whatever holds of all it is given holds of all it passes on (`Passes.step`).  The
descriptors it saves keep their thread and creator.
-/

namespace MoltMesh.Raft

open MoltMesh.Lib Pb Raftpb

variable {N : Node} {env : Env} {P : ThreadEntry → Prop} {e e' e'' : Backend}

/-- The entries of an effect have property `P`, and a saved descriptor is one of thread `T` and
creator `C`. -/
def Effect.Passes (P : ThreadEntry → Prop) (T C : String) : Effect → Prop
  | .write (.appendBlock _ b) => ∀ t ∈ b.entries, P t
  | .write (.saveBlock b) => ∀ t ∈ b.entries, P t
  | .write (.enqueueEntry t _) => P t
  | .write (.saveThread th) => th.id = T ∧ th.creatorDid = C
  | .broadcast (.committedBlock b) => ∀ t ∈ b.entries, P t
  | .propose p => ∀ t ∈ p.entries, P t
  | _ => True

theorem Effect.Passes.mono {Q : ThreadEntry → Prop} {T C : String} {a : Effect} (h : a.Passes P T C)
    (hPQ : ∀ t, P t → Q t) : a.Passes Q T C := by
  cases a with
  | write w =>
    cases w with
    | appendBlock ids b => exact fun t ht => hPQ t (h t ht)
    | saveBlock b => exact fun t ht => hPQ t (h t ht)
    | enqueueEntry t now => exact hPQ t h
    | saveThread th => exact h
    | _ => trivial
  | broadcast m =>
    cases m with
    | committedBlock b => exact fun t ht => hPQ t (h t ht)
    | _ => trivial
  | propose p => exact fun t ht => hPQ t (h t ht)
  | _ => trivial

theorem Effect.Passes.stored {T C : String} {δ : List Effect} (h : ∀ a ∈ δ, a.Passes P T C)
    {t : ThreadEntry} (ht : t ∈ storedEntries δ) : P t := by
  obtain ⟨a, ha, ht⟩ := List.mem_flatMap.mp ht
  have hpasses := h a ha
  unfold Effect.entries at ht
  split at ht
  · exact hpasses t ht
  · exact hpasses t ht
  · exact absurd ht List.not_mem_nil

/-! ## What the effects leave in the database -/

/-- A row that is pending after a transaction has been pending before or is enqueued by it. -/
theorem pending_or_enqueued {T : String} {s : Store} {w : Write} {r : PendingRow}
    (h : r ∈ (w.apply T s).pending.rows) :
    r ∈ s.pending.rows ∨ ∃ t now, w = .enqueueEntry t now ∧ r.payload = t := by
  cases w with
  | enqueueEntry t now =>
    rcases Table.mem_insertOrReplace.mp h with ⟨h, -⟩ | rfl
    · exact .inl h
    · exact .inr ⟨t, now, rfl, rfl⟩
  | appendBlock ids b =>
    left
    simp only [Write.apply, Store.appendBlockAndAckPending_eq] at h
    cases hins : s.blocks.insert (.ofBlock b) with
    | none =>
      rw [hins] at h
      exact h
    | some blocks =>
      rw [hins] at h
      exact (Store.mem_pending_ackPending.mp h).1
  | releasePendingClaimIDs ids =>
    left
    simp only [Write.apply] at h
    rwa [Store.pending_releasePendingClaimIDs.1] at h
  | _ => exact .inl h

section Replay

variable {T C : String} {s : Store} {δ : List Effect} (hδ : ∀ a ∈ δ, a.Passes P T C)

include hδ

theorem pending_replay (hs : ∀ r ∈ s.pending.rows, r.threadId = T → P r.payload) :
    ∀ r ∈ (replay T s δ).pending.rows, r.threadId = T → P r.payload := by
  induction δ generalizing s with
  | nil => exact hs
  | cons a δ ih =>
    refine ih (fun b hb => hδ b (List.mem_cons_of_mem a hb)) fun r hr hid => ?_
    have ha := hδ a List.mem_cons_self
    cases a with
    | write w =>
      rcases pending_or_enqueued hr with hr | ⟨t, now, rfl, heq⟩
      · exact hs r hr hid
      · rw [heq]
        exact ha
    | _ => exact hs r hr hid

theorem creator_replay (hs : ∀ th ∈ s.threads.rows, th.id = T → th.creatorDid = C) :
    ∀ th ∈ (replay T s δ).threads.rows, th.id = T → th.creatorDid = C := by
  induction δ generalizing s with
  | nil => exact hs
  | cons a δ ih =>
    refine ih (fun b hb => hδ b (List.mem_cons_of_mem a hb)) fun th hth hid => ?_
    have ha := hδ a List.mem_cons_self
    cases a with
    | write w =>
      by_cases hw : ∃ t, w = .saveThread t
      · obtain ⟨t, rfl⟩ := hw
        rcases Table.mem_insertOrReplace.mp hth with ⟨hth, -⟩ | rfl
        · exact hs th hth hid
        · exact ha.2
      · have hsame : (w.apply T s).threads = s.threads := threads_apply fun t ht => hw ⟨t, ht⟩
        change th ∈ (w.apply T s).threads.rows at hth
        rw [hsame] at hth
        exact hs th hth hid
    | _ => exact hs th hth hid

end Replay

/-! ## Steps -/

/-- A part of a step that passes on entries with property `P` only. -/
structure Passes (P : ThreadEntry → Prop) (e e' : Backend) : Prop where
  threadId : e'.thread.id = e.thread.id
  creatorDid : e'.thread.creatorDid = e.thread.creatorDid
  effects : ∃ δ, e'.trace = e.trace ++ δ ∧
    ∀ a ∈ δ, a.Passes P e.thread.id e.thread.creatorDid

namespace Passes

theorem memory (hid : e'.thread.id = e.thread.id) (hcreator : e'.thread.creatorDid = e.thread.creatorDid)
    (htrace : e'.trace = e.trace) : Passes P e e' :=
  ⟨hid, hcreator, [], by rw [htrace, List.append_nil], fun _ h => absurd h List.not_mem_nil⟩

theorem refl (e : Backend) : Passes P e e := memory rfl rfl rfl

theorem trans (h : Passes P e e') (h' : Passes P e' e'') : Passes P e e'' := by
  obtain ⟨δ, hδ, hP⟩ := h.effects
  obtain ⟨δ', hδ', hP'⟩ := h'.effects
  rw [h.threadId, h.creatorDid] at hP'
  refine ⟨h'.threadId.trans h.threadId, h'.creatorDid.trans h.creatorDid, δ ++ δ', ?_, ?_⟩
  · rw [hδ', hδ, List.append_assoc]
  · exact fun a ha => (List.mem_append.mp ha).elim (hP a) (hP' a)

theorem note {a : Effect} (ha : a.Passes P e.thread.id e.thread.creatorDid) :
    Passes P e (Raft.note e a) :=
  ⟨rfl, rfl, [a], rfl, fun _ hb => List.mem_singleton.mp hb ▸ ha⟩

theorem write (env : Env) {w : Write} (hw : (Effect.write w).Passes P e.thread.id e.thread.creatorDid) :
    Passes P e (Raft.write env e w) := by
  cases h : refused env e w with
  | true =>
    rw [write_of_refused h]
    exact note trivial
  | false =>
    rw [write_of_not_refused h]
    have hnote : Passes P e (Raft.note e (.write w)) := note hw
    exact ⟨hnote.threadId, hnote.creatorDid, hnote.effects⟩

theorem aside (h : Aside env True e e') : Passes P e e' := by
  cases h with
  | @descriptor th hth =>
    obtain ⟨m, rfl⟩ := hth
    have hmem : Passes P e { e with thread := { e.thread with metadata := m } } := memory rfl rfl rfl
    exact hmem.trans (write env ⟨rfl, rfl⟩)
  | _ => exact memory rfl rfl rfl

theorem doing (h : Doing env (Effect.Passes P e.thread.id e.thread.creatorDid) True e e') :
    Passes P e e' := by
  cases h with
  | aside h => exact aside h
  | failed w => exact note trivial
  | note hw hv hok => exact note hok
  | write href hok => exact write env hok
  | log ms i t cs => exact memory rfl rfl rfl
  | @answer t ht hne hok =>
    exact .trans (memory rfl rfl rfl : Passes P e { e with changes := e.changes.filter fun x => x ≠ t })
      (note trivial)
  | refuse => exact memory rfl rfl rfl
  | ask change hok =>
    refine .trans ?_ (note (a := .proposeConfChange _ _) trivial)
    exact memory rfl rfl rfl

theorem doings (h : Doings env (Effect.Passes P e.thread.id e.thread.creatorDid) True e e') :
    Passes P e e' := by
  induction h with
  | refl => exact refl e
  | tail _ hstep ih =>
    rw [← ih.threadId, ← ih.creatorDid] at hstep
    exact ih.trans (doing hstep)

theorem routine {T C : String} {a : Effect} (ha : a.isRoutine = true) : a.Passes P T C := by
  cases a with
  | write w => cases w <;> trivial
  | broadcast m => cases m <;> trivial
  | _ => trivial

/-- **What a call passes on is what it has been given**: the entries that are pending for the thread,
those that are committed, those of a block and the one that is enqueued. -/
theorem step {ev : Event} (hpending : ∀ r ∈ e.store.pending.rows, r.threadId = e.thread.id → P r.payload)
    (hready : ∀ rd, ev = .ready rd → ∀ entry ∈ (e.pendingReady.getD rd).committedEntries,
      ∀ t ∈ entriesOf entry, P t)
    (hblock : ∀ b, ev = .inbound (.committedBlock b) → ∀ t ∈ b.entries, P t)
    (henqueue : ∀ t, ev = .enqueue t → P t) : Passes P e (final (Raft.step N env e ev)) := by
  by_cases hev : ∃ rd, ev = .ready rd
  · obtain ⟨rd, rfl⟩ := hev
    have h : Passes P e (ended (handleReady N env e (e.pendingReady.getD rd))) := by
      refine doings (handleReady_doings (fun _ => routine) trivial fun _ entry hentry => ⟨?_, ?_⟩)
      · intro ids b hb
        have hP : ∀ t ∈ b.entries, P t := by
          rw [hb]
          exact hready rd rfl entry hentry
        exact ⟨hP, hP⟩
      · exact fun _ _ _ => trivial
    obtain ⟨p, hp⟩ := final_ready N env e rd
    rw [hp]
    exact h.trans (memory rfl rfl rfl)
  · refine doings (step_doings (not_exists.mp hev) ⟨fun _ => routine, ?_, ?_, ?_, ?_⟩)
    · intro p hp t ht
      obtain ⟨r, hr, hid, rfl⟩ := hp t ht
      exact hpending r hr hid
    · exact fun b hb => ⟨trivial, hblock b hb⟩
    · exact fun t _ ht => henqueue t ht
    · exact fun _ _ _ _ _ => trivial

end Passes

end MoltMesh.Raft
