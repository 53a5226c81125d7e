import MoltMesh.Raft.Doings
import MoltMesh.Raft.Image

/-!
# Who is in a thread

A replica keeps the DIDs of a thread in order, and two maps between them and the ids
they have in the Raft group (`Roster`).  An observer is added when a membership entry
is applied, under the next id.  This is all that ever changes a roster, it does not
depend on the replica, and the ids are always the places in the list.
-/

namespace MoltMesh.Raft

open MoltMesh.Lib Pb Raftpb

variable {dids : List String} {did : String} {l : List ThreadEntry} {entry : Entry}

/-! ## Rosters -/

/-- `ReplicaDids`, `peerIDs` and `didByID`. -/
@[ext] structure Roster where
  replicaDids : List String
  peerIDs : Table (String × Nat) Prod.fst
  didByID : Table (Nat × String) Prod.fst

namespace Roster

/-- A DID is put at the end. -/
def add (r : Roster) (did : String) : Roster where
  replicaDids := r.replicaDids ++ [did]
  peerIDs := r.peerIDs.insertOrReplace (did, r.replicaDids.length + 1)
  didByID := r.didByID.insertOrReplace (r.replicaDids.length + 1, did)

/-- The roster of a backend that is built from a descriptor. -/
def ofDids (dids : List String) : Roster := ⟨dids, (peerTables dids).1, (peerTables dids).2⟩

/-- What a thread entry does to a roster. -/
def join (r : Roster) (entry : ThreadEntry) : Roster :=
  if entry.kind ≠ "membership:add-observer" then r
  else if textOf entry.payload = "" then r
  else if (r.peerIDs.lookup (textOf entry.payload)).isSome then r
  else r.add (textOf entry.payload)

theorem ofDids_nil : ofDids [] = ⟨[], .empty, .empty⟩ := rfl

theorem ofDids_concat (dids : List String) (did : String) :
    ofDids (dids ++ [did]) = (ofDids dids).add did := by
  simp [ofDids, add, peerTables, List.zipIdx_append]

/-- The id of a DID is the last place it has in the list. -/
theorem lookup_peerIDs_ofDids {id : Nat} : (ofDids dids).peerIDs.lookup did = some (did, id) ↔
      0 < id ∧ dids[id - 1]? = some did ∧ ∀ k, id ≤ k → dids[k]? ≠ some did := by
  induction dids using List.reverseRecOn with
  | nil => simp [ofDids_nil, Table.lookup_eq_some]
  | append_singleton dids last ih =>
    rw [ofDids_concat]
    change (Table.insertOrReplace _ (last, dids.length + 1)).lookup did = _ ↔ _
    rcases eq_or_ne did last with rfl | hne
    · rw [Table.lookup_insertOrReplace_self]
      constructor
      · intro h
        obtain rfl : dids.length + 1 = id := (Prod.mk.inj (Option.some.inj h)).2
        refine ⟨Nat.succ_pos _, by simp, fun k hk => ?_⟩
        rw [List.getElem?_eq_none (by simpa using hk)]
        exact (Option.some_ne_none did).symm
      · rintro ⟨hpos, hget, hlast⟩
        -- The place is not beyond the end, and the last place holds the DID.
        have hle : id - 1 < (dids ++ [did]).length := List.getElem?_eq_some_iff.mp hget |>.1
        have hge : dids.length < id := by
          by_contra hlt
          exact hlast dids.length (not_lt.mp hlt) (by simp)
        rw [List.length_append, List.length_singleton] at hle
        rw [show id = dids.length + 1 by omega]
    · rw [Table.lookup_insertOrReplace_of_ne hne, ih]
      have hget (k : Nat) : (dids ++ [last])[k]? = some did ↔ dids[k]? = some did := by
        rw [List.getElem?_append]
        split
        · rfl
        · rename_i hk
          rw [List.getElem?_eq_none (not_lt.mp hk), List.getElem?_singleton]
          split <;> simp [hne.symm]
      simp only [hget, ne_eq]

theorem lookup_didByID_ofDids {id : Nat} :
    (ofDids dids).didByID.lookup id = some (id, did) ↔ 0 < id ∧ dids[id - 1]? = some did := by
  induction dids using List.reverseRecOn with
  | nil => simp [ofDids_nil, Table.lookup_eq_some]
  | append_singleton dids last ih =>
    rw [ofDids_concat]
    change (Table.insertOrReplace _ (dids.length + 1, last)).lookup id = _ ↔ _
    rcases eq_or_ne id (dids.length + 1) with rfl | hne
    · rw [Table.lookup_insertOrReplace_self]
      simp
    · rw [Table.lookup_insertOrReplace_of_ne (show id ≠ (dids.length + 1, last).1 from hne), ih]
      refine and_congr_right fun hpos => ?_
      rw [List.getElem?_append]
      split
      · rfl
      · rename_i hk
        rw [List.getElem?_eq_none (not_lt.mp hk), List.getElem?_eq_none]
        rw [List.length_singleton]
        omega

theorem isSome_lookup_ofDids : ((ofDids dids).peerIDs.lookup did).isSome = true ↔ did ∈ dids := by
  induction dids using List.reverseRecOn with
  | nil => simp [ofDids_nil, Table.lookup]
  | append_singleton dids last ih =>
    rw [ofDids_concat, List.mem_append, List.mem_singleton]
    change ((Table.insertOrReplace _ (last, dids.length + 1)).lookup did).isSome = true ↔ _
    rcases eq_or_ne did last with rfl | hne
    · rw [Table.lookup_insertOrReplace_self]
      simp
    · rw [Table.lookup_insertOrReplace_of_ne hne, ih]
      simp [hne]

/-- What a thread entry does to `ReplicaDids`. -/
def joinDids (dids : List String) (entry : ThreadEntry) : List String :=
  if entry.kind ≠ "membership:add-observer" then dids
  else if textOf entry.payload = "" then dids
  else if textOf entry.payload ∈ dids then dids
  else dids ++ [textOf entry.payload]

/-- As long as the ids are the places in the list, the list is all there is to know. -/
theorem join_ofDids (dids : List String) (entry : ThreadEntry) :
    (ofDids dids).join entry = ofDids (joinDids dids entry) := by
  unfold join joinDids
  split
  · rfl
  · split
    · rfl
    · simp only [isSome_lookup_ofDids]
      split
      · rfl
      · exact (ofDids_concat _ _).symm

theorem foldl_join_ofDids (dids : List String) (l : List ThreadEntry) :
    l.foldl join (ofDids dids) = ofDids (l.foldl joinDids dids) := by
  induction l generalizing dids with
  | nil => rfl
  | cons entry l ih => rw [List.foldl_cons, join_ofDids, ih, List.foldl_cons]

/-- A DID that a list of entries has brought into a roster is named by one of them. -/
theorem mem_foldl_join {r : Roster} (h : did ∈ (l.foldl join r).replicaDids) : did ∈ r.replicaDids ∨
      ∃ t ∈ l, t.kind = "membership:add-observer" ∧ textOf t.payload = did := by
  induction l generalizing r with
  | nil => exact .inl h
  | cons t l ih =>
    rcases ih h with h | ⟨t', ht', hnames⟩
    · unfold join at h
      split at h
      · exact .inl h
      rename_i hkind
      split at h
      · exact .inl h
      split at h
      · exact .inl h
      rcases List.mem_append.mp h with h | h
      · exact .inl h
      · exact .inr ⟨t, List.mem_cons_self, not_not.mp hkind, (List.mem_singleton.mp h).symm⟩
    · exact .inr ⟨t', List.mem_cons_of_mem t ht', hnames⟩

end Roster

/-- The roster of a replica. -/
def Backend.roster (e : Backend) : Roster := ⟨e.thread.replicaDids, e.peerIDs, e.didByID⟩

variable {N : Node} {env : Env} {e e' e'' : Backend} {δ δ' : List Effect}

theorem SameMemory.roster (h : SameMemory e e') : e'.roster = e.roster := by
  rw [Backend.roster, h.thread, h.peerIDs, h.didByID]
  rfl

theorem newRaftBackend_roster {T : Thread} {s : Store} {start : NodeStart}
    (h : newRaftBackend N env T s = .ok (start, e)) : e.roster = .ofDids T.replicaDids := by
  obtain ⟨selfID, storage, -, rfl⟩ := newRaftBackend_eq_builtOn h
  rfl

/-! ## What changes a roster -/

theorem Doing.roster {ok : Effect → Prop} (h : Doing env ok False e e') : e'.roster = e.roster := by
  cases h with
  | aside h =>
    cases h with
    | descriptor hth =>
      obtain ⟨m, rfl⟩ := hth
      exact (sameMemory_write env _ _).roster
    | observer h did => exact h.elim
    | _ => rfl
  | write href hok => exact (sameMemory_write env _ _).roster
  | _ => rfl

theorem Doings.roster (h : Doings env (fun _ => True) False e e') : e'.roster = e.roster := by
  induction h with
  | refl => rfl
  | tail _ hstep ih => exact hstep.roster.trans ih

theorem join_roster (e : Backend) (entry : ThreadEntry) : e.roster.join entry =
    match newObserver e entry with
    | none => e.roster
    | some did => (addObserver e did).roster := by
  unfold Roster.join newObserver
  dsimp only
  split
  · rfl
  · split
    · rfl
    · change (if (e.peerIDs.lookup _).isSome = true then _ else _) = _
      split
      · rfl
      · simp [Roster.add, Backend.roster, addObserver]

theorem addObservers_roster (e : Backend) (l : List ThreadEntry) :
    (addObservers e l).1.roster = l.foldl Roster.join e.roster := by
  unfold addObservers
  generalize false = c
  induction l generalizing e c with
  | nil => rfl
  | cons entry l ih =>
    rw [List.foldl_cons, List.foldl_cons, join_roster]
    dsimp only
    cases newObserver e entry with
    | none => exact ih e c
    | some did => exact ih (addObserver e did) true

theorem applyMembershipEntries_roster (N : Node) (env : Env) (e : Backend) (l : List ThreadEntry) :
    (applyMembershipEntries N env e l).roster = l.foldl Roster.join e.roster := by
  rw [← addObservers_roster]
  unfold applyMembershipEntries
  dsimp only
  split
  · exact (saveDescriptor_asides N env _).doings.roster
  · rfl

/-- The thread entries an effect stores. -/
def Effect.entries : Effect → List ThreadEntry
  | .write (.appendBlock _ b) => b.entries
  | .write (.saveBlock b) => b.entries
  | _ => []

/-- The thread entries stored along a trace. -/
def storedEntries (δ : List Effect) : List ThreadEntry := δ.flatMap Effect.entries

theorem storedEntries_append (δ δ' : List Effect) :
    storedEntries (δ ++ δ') = storedEntries δ ++ storedEntries δ' := List.flatMap_append

theorem storedEntries_eq_nil (h : ∀ a ∈ δ, a.sparesBlocks = true) : storedEntries δ = [] := by
  rw [storedEntries, List.flatMap_eq_nil_iff]
  intro a ha
  have hspares := h a ha
  cases a with
  | write w => cases w <;> first | rfl | cases hspares
  | _ => rfl

/-- The trace grows by `δ`, and the entries stored on the way join the roster. -/
structure Joins (e e' : Backend) (δ : List Effect) : Prop where
  trace : e'.trace = e.trace ++ δ
  roster : e'.roster = (storedEntries δ).foldl Roster.join e.roster

theorem Joins.refl (e : Backend) : Joins e e [] := ⟨(List.append_nil _).symm, rfl⟩

theorem Joins.trans (h : Joins e e' δ) (h' : Joins e' e'' δ') : Joins e e'' (δ ++ δ') where
  trace := by rw [h'.trace, h.trace, List.append_assoc]
  roster := by rw [h'.roster, h.roster, storedEntries_append, List.foldl_append]

/-- Nothing is stored. -/
theorem joins_of_sparesBlocks (htrace : e'.trace = e.trace ++ δ)
    (h : ∀ a ∈ δ, a.sparesBlocks = true) (hroster : e'.roster = e.roster) : Joins e e' δ := by
  refine ⟨htrace, ?_⟩
  rw [storedEntries_eq_nil h]
  exact hroster

theorem entriesOf_of_some {ids : List Int}
    (h : blockOf N entry = some (l, ids, did)) : entriesOf entry = l := by
  rcases entry with ⟨term, index, data⟩
  cases data with
  | proposal p => exact (Prod.mk.inj (Option.some.inj h)).1
  | entries l' => exact (Prod.mk.inj (Option.some.inj h)).1
  | _ => cases h

theorem entriesOf_of_none (h : blockOf N entry = none) : entriesOf entry = [] := by
  rcases entry with ⟨term, index, data⟩
  cases data with
  | proposal p => cases h
  | entries l' => cases h
  | _ => rfl

theorem applyEntry_roster_of_none (h : blockOf N entry = none) :
    (applyEntry N env e entry).roster = e.roster := by
  rcases entry with ⟨term, index, data⟩
  cases data with
  | proposal p => cases h
  | entries l => cases h
  | empty => rfl
  | malformed => rfl
  | confChange cc => exact (applyConfChange_asides N env (advance e _) _).doings.roster
  | confChangeV2 ccs context =>
    refine (@Doings.roster env _ _ (completeVoterChange_doings trivial)).trans ?_
    exact (applyConfChange_asides N env (advance e _) _).doings.roster

/-- The thread entries of a log entry are stored, unless the transaction does not go through. -/
theorem EntryTrail.storedEntries (h : EntryTrail N env e entry e' δ) :
    storedEntries δ = entriesOf entry ∨
      storedEntries δ = [] ∧ ∀ l ids did, blockOf N entry = some (l, ids, did) → ∀ b s',
        e.store.appendBlockAndAckPending e.thread.id ids
            (fillBlock e.thread.id entry.term l did (env.now e.trace.length)) = some (b, s') →
          env.fails e.trace.length (.appendBlock ids b) = true := by
  cases h with
  | skip hδ hno =>
    refine .inr ⟨?_, hno⟩
    exact storedEntries_eq_nil fun a ha => Effect.sparesBlocks_of_isQuiet (hδ.quiet a ha)
  | @commit l ids did b s' e₁ δ hblock happ hw hs hmem e₂ hδ he =>
    left
    have hquiet := storedEntries_eq_nil fun a ha => Effect.sparesBlocks_of_isQuiet (hδ.quiet a ha)
    rw [storedEntries_append, entriesOf_of_some hblock, ← entries_of_append happ]
    change (b.entries ++ Raft.storedEntries δ) ++ [] = b.entries
    rw [hquiet, List.append_nil, List.append_nil]

/-- A committed entry: what it stores joins the roster. -/
theorem applyEntry_joins (N : Node) (env : Env) (e : Backend) (entry : Entry) :
    ∃ δ, Joins e (applyEntry N env e entry) δ ∧
      EntryTrail N env e entry (applyEntry N env e entry) δ := by
  obtain ⟨δ, htrail⟩ := applyEntry_trail N env e entry
  refine ⟨δ, ⟨htrail.logged.trace, ?_⟩, htrail⟩
  cases hb : blockOf N entry with
  | none =>
    rw [applyEntry_roster_of_none hb]
    rcases htrail.storedEntries with h | ⟨h, -⟩
    · rw [h, entriesOf_of_none hb]
      rfl
    · rw [h]
      rfl
  | some x =>
    obtain ⟨l, ids, did⟩ := x
    have hlog := htrail.logged
    have heq := @applyEntry_of_some N env e entry l ids did hb
    rcases commitBlock_cases N env (advance e entry) entry l ids did with
      ⟨w, hw, -⟩ | ⟨b, s', e₁, δ₁, happ, href, -, hδ₁, he₁, hc⟩
    · rw [heq, hw] at hlog ⊢
      obtain rfl : [.failed w] = δ := List.append_cancel_left hlog.trace
      rfl
    · rw [heq, hc] at hlog ⊢
      -- The trace of the transaction, of the membership entries and of the two notes.
      have htrace : e.trace ++ (.write (.appendBlock ids b) :: δ₁ ++
          [.broadcast (.committedBlock b), .commit b]) = e.trace ++ δ := by
        rw [← hlog.trace]
        change _ = (e₁.trace ++ [_]) ++ [_]
        rw [hδ₁.trace, (logged_write href).trace]
        simp [advance]
      obtain rfl := List.append_cancel_left htrace
      have hstored : Raft.storedEntries (.write (.appendBlock ids b) :: δ₁ ++
          [.broadcast (.committedBlock b), .commit b]) = l := by
        have hquiet := storedEntries_eq_nil
          fun a ha => Effect.sparesBlocks_of_isQuiet (hδ₁.quiet a ha)
        rw [storedEntries_append]
        change (b.entries ++ Raft.storedEntries δ₁) ++ [] = l
        rw [hquiet, entries_of_append happ, List.append_nil, List.append_nil]
      rw [hstored]
      change e₁.roster = _
      rw [he₁, applyMembershipEntries_roster, (sameMemory_write env _ _).roster]
      rfl

theorem applyAll_joins (N : Node) (env : Env) (e : Backend) (entries : List Entry) :
    ∃ δ, Joins e (entries.foldl (applyEntry N env) e) δ := by
  induction entries generalizing e with
  | nil => exact ⟨_, .refl e⟩
  | cons entry entries ih =>
    obtain ⟨δ, hδ, -⟩ := applyEntry_joins N env e entry
    obtain ⟨δ', hδ'⟩ := ih (applyEntry N env e entry)
    exact ⟨_, hδ.trans hδ'⟩

theorem Persisted.joins {rd : Ready} (h : Persisted e rd e' δ) : Joins e e' (readyWrites rd ++ δ) := by
  refine joins_of_sparesBlocks h.logged.trace (sparesBlocks_readyWrites h.quiet) ?_
  rw [Backend.roster, h.thread, h.peerIDs, h.didByID]
  rfl

theorem applyCommittedBlock_joins (N : Node) (env : Env) (e : Backend) (b : ThreadBlock) :
    ∃ δ, Joins e (applyCommittedBlock N env e b) δ := by
  unfold applyCommittedBlock
  split
  · exact ⟨_, .refl e⟩
  · dsimp only
    cases href : refused env e (.saveBlock b) with
    | true => exact ⟨[.failed (.saveBlock b)], rfl, rfl⟩
    | false =>
      rw [if_neg Bool.false_ne_true]
      have hlog := logged_write href
      have hmem := sameMemory_write env e (.saveBlock b)
      obtain ⟨δ, hδ⟩ := applyMembershipEntries_sides N env (write env e (.saveBlock b)) b.entries
      have hquiet := storedEntries_eq_nil fun a ha => Effect.sparesBlocks_of_isQuiet (hδ.quiet a ha)
      refine ⟨.write (.saveBlock b) :: δ ++ [.commit b], ?_, ?_⟩
      · change (applyMembershipEntries N env (write env e (.saveBlock b)) b.entries).trace ++ [_] = _
        rw [hδ.trace, hlog.trace]
        simp
      · rw [storedEntries_append]
        change _ = ((b.entries ++ storedEntries δ) ++ []).foldl Roster.join e.roster
        rw [hquiet, List.append_nil, List.append_nil, ← hmem.roster]
        exact applyMembershipEntries_roster N env _ _

/-- The calls that store no block leave the roster alone. -/
theorem step_roster {ev : Event} (hready : ∀ rd, ev ≠ .ready rd)
    (hblock : ∀ b, ev ≠ .inbound (.committedBlock b)) :
    (final (step N env e ev)).roster = e.roster :=
  (step_doings hready (allowed hblock)).roster

/-- **What changes a roster**: whatever a call stores joins it, and nothing else does. -/
theorem step_joins {ev : Event} (h : step N env e ev = .ok e') : ∃ δ, Joins e e' δ := by
  have hfinal : final (step N env e ev) = e' := by rw [h]; rfl
  by_cases hready : ∃ rd, ev = .ready rd
  · obtain ⟨rd, rfl⟩ := hready
    simp only [step, tryReady, processReady] at h
    have htrail := handleReady_trail N env e (e.pendingReady.getD rd)
    generalize handleReady N env e (e.pendingReady.getD rd) = r at h htrail
    cases htrail with
    | unsaved hfail =>
      obtain rfl := Except.ok.inj h
      exact ⟨_, rfl, rfl⟩
    | @halfSaved e₁ e₂ w hsnap hfail hlog hmem =>
      obtain rfl := Except.ok.inj h
      exact ⟨_, hlog.trace, hmem.roster⟩
    | panicked hlog hquiet hfit => cases h
    | @applied e₁ δ hp =>
      obtain rfl := Except.ok.inj h
      obtain ⟨γ, hγ⟩ := applyAll_joins N env e₁ (e.pendingReady.getD rd).committedEntries
      have hall := hp.joins.trans hγ
      exact ⟨_, hall.trace, hall.roster⟩
  · by_cases hblock : ∃ b, ev = .inbound (.committedBlock b)
    · obtain ⟨b, rfl⟩ := hblock
      obtain rfl := Except.ok.inj h
      exact applyCommittedBlock_joins N env e b
    · have hready := not_exists.mp hready
      have hblock := not_exists.mp hblock
      obtain ⟨δ, hlog, hspares⟩ := (step_trail N env e ev).sparing hready hblock
      have hroster := @step_roster N env e ev hready hblock
      rw [hfinal] at hlog hroster
      exact ⟨δ, joins_of_sparesBlocks hlog.trace hspares hroster⟩

end MoltMesh.Raft
