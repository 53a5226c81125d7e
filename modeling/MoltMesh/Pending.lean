import MoltMesh.Chain

/-!
# Pending entries

The write-ahead table of a Raft replica.  An entry is enqueued, claimed when it is
proposed, released when the proposal is not taken, and deleted by the transaction
that stores the block it is in.  Ids are never used again, so an id that has been
claimed once is not handed out a second time unless it has been released
(`pending_accounting`).
-/

namespace MoltMesh

open MoltMesh.Lib Pb

variable {r : PendingRow}

namespace Store

variable {s s' : Store} {T : String} {ids : List Int} {c : Int}

/-! ## What the statements do -/

theorem mem_pending_ackPending :
    r ∈ (s.ackPending ids).pending.rows ↔ r ∈ s.pending.rows ∧ r.id ∉ ids := by
  induction ids generalizing s with
  | nil => exact ⟨fun h => ⟨h, List.not_mem_nil⟩, And.left⟩
  | cons id ids ih =>
    have hdelete : r ∈ (s.deletePending id).pending.rows ↔ r ∈ s.pending.rows ∧ r.id ≠ id :=
      Table.mem_deleteWhere.trans (and_congr_right fun _ => decide_eq_false_iff_not)
    refine (ih (s := (s.deletePending id).deleteClaim id)).trans ?_
    rw [List.mem_cons, not_or]
    exact (and_congr_left fun _ => hdelete).trans and_assoc

theorem mem_claims_ackPending :
    c ∈ (s.ackPending ids).claims.rows ↔ c ∈ s.claims.rows ∧ c ∉ ids := by
  induction ids generalizing s with
  | nil => exact ⟨fun h => ⟨h, List.not_mem_nil⟩, And.left⟩
  | cons id ids ih =>
    have hdelete : c ∈ ((s.deletePending id).deleteClaim id).claims.rows ↔
        c ∈ s.claims.rows ∧ c ≠ id :=
      Table.mem_deleteWhere.trans (and_congr_right fun _ => decide_eq_false_iff_not)
    refine (ih (s := (s.deletePending id).deleteClaim id)).trans ?_
    rw [List.mem_cons, not_or]
    exact (and_congr_left fun _ => hdelete).trans and_assoc

theorem pendingSeq_ackPending : (s.ackPending ids).pendingSeq = s.pendingSeq := by
  induction ids generalizing s with
  | nil => rfl
  | cons id ids ih => exact ih.trans rfl

theorem mem_claims_releasePendingClaimIDs :
    c ∈ (s.releasePendingClaimIDs ids).claims.rows ↔ c ∈ s.claims.rows ∧ c ∉ ids := by
  induction ids generalizing s with
  | nil => exact ⟨fun h => ⟨h, List.not_mem_nil⟩, And.left⟩
  | cons id ids ih =>
    have hdelete : c ∈ (s.deleteClaim id).claims.rows ↔ c ∈ s.claims.rows ∧ c ≠ id :=
      Table.mem_deleteWhere.trans (and_congr_right fun _ => decide_eq_false_iff_not)
    refine (ih (s := s.deleteClaim id)).trans ?_
    rw [List.mem_cons, not_or]
    exact (and_congr_left fun _ => hdelete).trans and_assoc

theorem pending_releasePendingClaimIDs :
    (s.releasePendingClaimIDs ids).pending = s.pending ∧
      (s.releasePendingClaimIDs ids).pendingSeq = s.pendingSeq := by
  induction ids generalizing s with
  | nil => exact ⟨rfl, rfl⟩
  | cons id ids ih => exact ih (s := s.deleteClaim id)

theorem mem_claims_releasePendingClaims : c ∈ (s.releasePendingClaims T).claims.rows ↔
      c ∈ s.claims.rows ∧ ∀ r ∈ s.pending.rows, r.threadId = T → r.id ≠ c := by
  refine Table.mem_deleteWhere.trans (and_congr_right fun _ => ?_)
  rw [decide_eq_false_iff_not, List.mem_map, not_exists]
  constructor
  · exact fun h r hr ht hid => h r ⟨Table.mem_select.mpr ⟨hr, decide_eq_true ht⟩, hid⟩
  · rintro h r ⟨hr, hid⟩
    obtain ⟨hr, ht⟩ := Table.mem_select.mp hr
    exact h r hr (of_decide_eq_true ht) hid

theorem mem_claims_insert {t : Table Int id} :
    c ∈ (ids.foldl (fun t i => t.insertOrIgnore i) t).rows ↔ c ∈ t.rows ∨ c ∈ ids := by
  induction ids generalizing t with
  | nil => exact ⟨.inl, fun h => h.elim id fun h => absurd h List.not_mem_nil⟩
  | cons i ids ih =>
    rw [List.foldl_cons, ih, Table.mem_insertOrIgnore, List.mem_cons, ← or_assoc]
    refine or_congr_left ⟨fun h => h.imp_right And.left, fun h => ?_⟩
    by_cases hi : i ∈ t.rows
    · exact .inl (h.elim id fun h => h ▸ hi)
    · refine h.imp_right fun h => ⟨h, ?_⟩
      rw [List.map_id]
      exact hi

/-- The store with claims of the given ids. -/
def insertClaims (s : Store) (ids : List Int) : Store :=
  { s with claims := ids.foldl (fun t id => t.insertOrIgnore id) s.claims }

/-- The rows `ClaimPendingEntries` takes. -/
def claimable (s : Store) (T : String) (limit : Nat) : List PendingRow :=
  ((s.pendingEntries T).filter fun r => r.id ∉ s.claims.rows).take limit

theorem claimPendingEntries_eq (s : Store) (T : String) (limit : Nat) :
    s.claimPendingEntries T limit = ((s.claimable T limit).map PendingRow.id,
      (s.claimable T limit).map PendingRow.payload,
      s.insertClaims ((s.claimable T limit).map PendingRow.id)) := by
  rw [claimPendingEntries, insertClaims, List.foldl_map]
  rfl

theorem mem_claimable {limit : Nat} (h : r ∈ s.claimable T limit) :
    r ∈ s.pending.rows ∧ r.threadId = T ∧ r.id ∉ s.claims.rows := by
  obtain ⟨hr, hfree⟩ := List.mem_filter.mp (List.mem_of_mem_take h)
  obtain ⟨hr, ht⟩ := Table.mem_select.mp ((mem_orderBy _).mp hr)
  exact ⟨hr, of_decide_eq_true ht, of_decide_eq_true hfree⟩

/-! ## The ledger -/

/-- Ids count up to `pendingSeq`, and what is claimed is pending. -/
structure Ledger (s : Store) : Prop where
  id_le : ∀ r ∈ s.pending.rows, r.id ≤ s.pendingSeq
  claimed : ∀ c ∈ s.claims.rows, ∃ r ∈ s.pending.rows, r.id = c

theorem ledger_empty : Store.empty.Ledger :=
  ⟨fun _ h => absurd h List.not_mem_nil, fun _ h => absurd h List.not_mem_nil⟩

/-- The id of a new row is free. -/
theorem mem_pending_enqueueEntry (hs : s.Ledger) {entry : ThreadEntry} {now : Int} :
    r ∈ (s.enqueueEntry T entry now).pending.rows ↔
      r ∈ s.pending.rows ∨ r = ⟨s.pendingSeq + 1, T, entry, now⟩ := by
  refine Table.mem_insertOrReplace.trans (or_congr_left (and_iff_left_of_imp fun hr => ?_))
  have hle := hs.id_le r hr
  change r.id ≠ s.pendingSeq + 1
  omega

theorem Ledger.enqueueEntry (hs : s.Ledger) (T : String) (entry : ThreadEntry) (now : Int) :
    (s.enqueueEntry T entry now).Ledger := by
  constructor
  · intro r hr
    change r.id ≤ s.pendingSeq + 1
    rcases (mem_pending_enqueueEntry hs).mp hr with hr | rfl
    · exact Int.le_add_one (hs.id_le r hr)
    · exact Int.le_refl _
  · intro c hc
    obtain ⟨r, hr, hid⟩ := hs.claimed c hc
    exact ⟨r, (mem_pending_enqueueEntry hs).mpr (.inl hr), hid⟩

theorem Ledger.insertClaims (hs : s.Ledger) (h : ∀ c ∈ ids, ∃ r ∈ s.pending.rows, r.id = c) :
    (s.insertClaims ids).Ledger := by
  refine ⟨hs.id_le, fun c hc => ?_⟩
  rcases mem_claims_insert.mp hc with hc | hc
  · exact hs.claimed c hc
  · exact h c hc

theorem Ledger.claimPendingEntries (hs : s.Ledger) (T : String) (limit : Nat) :
    (s.claimPendingEntries T limit).2.2.Ledger := by
  rw [claimPendingEntries_eq]
  refine hs.insertClaims fun c hc => ?_
  obtain ⟨r, hr, rfl⟩ := List.mem_map.mp hc
  exact ⟨r, (mem_claimable hr).1, rfl⟩

theorem Ledger.releasePendingClaims (hs : s.Ledger) (T : String) : (s.releasePendingClaims T).Ledger :=
  ⟨hs.id_le, fun c hc => hs.claimed c (mem_claims_releasePendingClaims.mp hc).1⟩

theorem Ledger.releasePendingClaimIDs (hs : s.Ledger) (ids : List Int) :
    (s.releasePendingClaimIDs ids).Ledger := by
  obtain ⟨hpending, hseq⟩ := @pending_releasePendingClaimIDs s ids
  constructor
  · rw [hpending, hseq]
    exact hs.id_le
  · rw [hpending]
    exact fun c hc => hs.claimed c (mem_claims_releasePendingClaimIDs.mp hc).1

theorem Ledger.ackPending (hs : s.Ledger) (ids : List Int) : (s.ackPending ids).Ledger := by
  constructor
  · intro r hr
    rw [pendingSeq_ackPending]
    exact hs.id_le r (mem_pending_ackPending.mp hr).1
  · intro c hc
    obtain ⟨hc, hfree⟩ := mem_claims_ackPending.mp hc
    obtain ⟨r, hr, rfl⟩ := hs.claimed c hc
    exact ⟨r, mem_pending_ackPending.mpr ⟨hr, hfree⟩, rfl⟩

/-- What the transaction leaves is the store with a block and without the acknowledged rows. -/
theorem appendBlockAndAckPending_eq_some {fill : Int → String → ThreadBlock} {b : ThreadBlock}
    (h : s.appendBlockAndAckPending T ids fill = some (b, s')) :
    ∃ blocks, s' = Store.ackPending { s with blocks } ids := by
  rw [appendBlockAndAckPending_eq] at h
  obtain ⟨blocks, -, heq⟩ := Option.map_eq_some_iff.mp h
  exact ⟨blocks, (Prod.mk.inj heq).2.symm⟩

theorem Ledger.appendBlockAndAckPending (hs : s.Ledger) {fill : Int → String → ThreadBlock}
    {b : ThreadBlock} (h : s.appendBlockAndAckPending T ids fill = some (b, s')) : s'.Ledger := by
  obtain ⟨blocks, rfl⟩ := appendBlockAndAckPending_eq_some h
  exact Ledger.ackPending (s := { s with blocks }) ⟨hs.id_le, hs.claimed⟩ ids

end Store

/-! ## Calls -/

/-- A call that the database accepts, or, for an append, one that may be rolled back. -/
inductive PendingCall
  | enqueueEntry (threadID : String) (entry : ThreadEntry) (now : Int)
  | claimPendingEntries (threadID : String) (limit : Nat)
  | releasePendingClaims (threadID : String)
  | releasePendingClaimIDs (ids : List Int)
  | appendBlockAndAckPending (threadID : String) (ids : List Int) (fill : Int → String → ThreadBlock)
    (fails : Bool)

namespace PendingCall

/-- The store after a call. -/
def run (s : Store) : PendingCall → Store
  | enqueueEntry T entry now => s.enqueueEntry T entry now
  | claimPendingEntries T limit => (s.claimPendingEntries T limit).2.2
  | releasePendingClaims T => s.releasePendingClaims T
  | releasePendingClaimIDs ids => s.releasePendingClaimIDs ids
  | appendBlockAndAckPending T ids fill fails =>
    if fails then s else ((s.appendBlockAndAckPending T ids fill).map Prod.snd).getD s

/-- The ids a claim returns. -/
def returned (s : Store) : PendingCall → List Int
  | claimPendingEntries T limit => (s.claimPendingEntries T limit).1
  | _ => []

/-- The call is an append that names the id and is committed. -/
def Acks (s : Store) (i : Int) : PendingCall → Prop
  | appendBlockAndAckPending T ids fill fails =>
    i ∈ ids ∧ fails = false ∧ (s.appendBlockAndAckPending T ids fill).isSome = true
  | _ => False

/-- The call releases the claim of the id. -/
def Releases (s : Store) (i : Int) : PendingCall → Prop
  | releasePendingClaims T => ∃ r ∈ s.pending.rows, r.threadId = T ∧ r.id = i
  | releasePendingClaimIDs ids => i ∈ ids
  | _ => False

/-- The store after calls one after another. -/
def runAll (s : Store) (calls : List PendingCall) : Store := calls.foldl run s

/-- Some call of a sequence does something, in the store it is made on. -/
def Some (P : Store → PendingCall → Prop) (s : Store) : List PendingCall → Prop
  | [] => False
  | c :: calls => P s c ∨ Some P (c.run s) calls

variable {s : Store} {i : Int}

theorem ledger_run (hs : s.Ledger) (c : PendingCall) : (c.run s).Ledger := by
  cases c with
  | enqueueEntry T entry now => exact hs.enqueueEntry T entry now
  | claimPendingEntries T limit => exact hs.claimPendingEntries T limit
  | releasePendingClaims T => exact hs.releasePendingClaims T
  | releasePendingClaimIDs ids => exact hs.releasePendingClaimIDs ids
  | appendBlockAndAckPending T ids fill fails =>
    rw [run]
    split
    · exact hs
    · cases happ : s.appendBlockAndAckPending T ids fill with
      | none => exact hs
      | some x => exact hs.appendBlockAndAckPending happ

theorem ledger_runAll (hs : s.Ledger) (calls : List PendingCall) : (runAll s calls).Ledger := by
  induction calls generalizing s with
  | nil => exact hs
  | cons c calls ih => exact ih (ledger_run hs c)

/-- A pending row survives a call that does not acknowledge it. -/
theorem mem_pending_run (hs : s.Ledger) (hr : r ∈ s.pending.rows) (c : PendingCall) :
    r ∈ (c.run s).pending.rows ∨ c.Acks s r.id := by
  cases c with
  | enqueueEntry T entry now => exact .inl ((Store.mem_pending_enqueueEntry hs).mpr (.inl hr))
  | claimPendingEntries T limit => exact .inl hr
  | releasePendingClaims T => exact .inl hr
  | releasePendingClaimIDs ids =>
    left
    rw [run, Store.pending_releasePendingClaimIDs.1]
    exact hr
  | appendBlockAndAckPending T ids fill fails =>
    rw [run]
    split
    · exact .inl hr
    · rename_i hf
      cases happ : s.appendBlockAndAckPending T ids fill with
      | none => exact .inl hr
      | some x =>
        obtain ⟨blocks, hx⟩ := Store.appendBlockAndAckPending_eq_some happ
        by_cases hmem : r.id ∈ ids
        · refine .inr ⟨hmem, Bool.eq_false_of_not_eq_true hf, ?_⟩
          rw [happ]
          rfl
        · left
          change r ∈ x.2.pending.rows
          rw [hx]
          exact Store.mem_pending_ackPending.mpr ⟨hr, hmem⟩

theorem mem_pending_runAll (hs : s.Ledger) (hr : r ∈ s.pending.rows) (calls : List PendingCall) :
    r ∈ (runAll s calls).pending.rows ∨ Some (fun s c => c.Acks s r.id) s calls := by
  induction calls generalizing s with
  | nil => exact .inl hr
  | cons c calls ih =>
    rcases mem_pending_run hs hr c with hr | hack
    · exact (ih (ledger_run hs c) hr).imp_right .inr
    · exact .inr (.inl hack)

/-! ## Ids that cannot be claimed -/

/-- The id is claimed, or its row is gone for good. -/
def Taken (s : Store) (i : Int) : Prop :=
  i ∈ s.claims.rows ∨ i ≤ s.pendingSeq ∧ ∀ r ∈ s.pending.rows, r.id ≠ i

theorem taken_of_returned {c : PendingCall} (h : i ∈ c.returned s) :
    Taken (c.run s) i := by
  cases c with
  | claimPendingEntries T limit =>
    left
    rw [returned, Store.claimPendingEntries_eq] at h
    rw [run, Store.claimPendingEntries_eq]
    exact Store.mem_claims_insert.mpr (.inr h)
  | _ => exact absurd h List.not_mem_nil

theorem not_returned_of_taken {c : PendingCall} (h : Taken s i) : i ∉ c.returned s := by
  intro hret
  cases c with
  | claimPendingEntries T limit =>
    rw [returned, Store.claimPendingEntries_eq] at hret
    obtain ⟨r, hr, rfl⟩ := List.mem_map.mp hret
    obtain ⟨hr, -, hfree⟩ := Store.mem_claimable hr
    exact h.elim hfree fun h => h.2 r hr rfl
  | _ => exact absurd hret List.not_mem_nil

/-- An id stays taken until it is released. -/
theorem taken_run (hs : s.Ledger) (h : Taken s i) {c : PendingCall} (hc : ¬c.Releases s i) :
    Taken (c.run s) i := by
  cases c with
  | enqueueEntry T entry now =>
    refine h.imp_right fun h => ⟨Int.le_add_one h.1, fun r hr => ?_⟩
    rcases (Store.mem_pending_enqueueEntry hs).mp hr with hr | rfl
    · exact h.2 r hr
    · exact (Int.lt_add_one_of_le h.1).ne'
  | claimPendingEntries T limit =>
    rw [run, Store.claimPendingEntries_eq]
    exact h.imp_left fun h => Store.mem_claims_insert.mpr (.inl h)
  | releasePendingClaims T =>
    refine h.imp_left fun h => Store.mem_claims_releasePendingClaims.mpr ⟨h, ?_⟩
    exact fun r hr ht hid => hc ⟨r, hr, ht, hid⟩
  | releasePendingClaimIDs ids =>
    rw [run, Taken, Store.pending_releasePendingClaimIDs.1, Store.pending_releasePendingClaimIDs.2]
    exact h.imp_left fun h => Store.mem_claims_releasePendingClaimIDs.mpr ⟨h, hc⟩
  | appendBlockAndAckPending T ids fill fails =>
    rw [run]
    split
    · exact h
    · cases happ : s.appendBlockAndAckPending T ids fill with
      | none => exact h
      | some x =>
        obtain ⟨blocks, hx⟩ := Store.appendBlockAndAckPending_eq_some happ
        change Taken x.2 i
        rw [hx, Taken, Store.pendingSeq_ackPending]
        rcases h with h | h
        · by_cases hmem : i ∈ ids
          · obtain ⟨r, hr, rfl⟩ := hs.claimed i h
            refine .inr ⟨hs.id_le r hr, fun r' hr' hid => ?_⟩
            exact (Store.mem_pending_ackPending.mp hr').2 (hid ▸ hmem)
          · exact .inl (Store.mem_claims_ackPending.mpr ⟨h, hmem⟩)
        · exact .inr ⟨h.1, fun r hr => h.2 r (Store.mem_pending_ackPending.mp hr).1⟩

theorem taken_runAll (hs : s.Ledger) (h : Taken s i) {calls : List PendingCall}
    (hcalls : ¬Some (fun s c => c.Releases s i) s calls) : Taken (runAll s calls) i := by
  induction calls generalizing s with
  | nil => exact h
  | cons c calls ih =>
    obtain ⟨hc, hrest⟩ := not_or.mp hcalls
    exact ih (ledger_run hs c) (taken_run hs h hc) hrest

/-- **The accounting of pending entries**, for any calls on a database in order: an enqueued row is
there at once and stays until an append that names it is committed; what is claimed is pending; and
an id that two claims return has been released in between. -/
theorem pending_accounting (hs : s.Ledger) (calls : List PendingCall) :
    (∀ T entry now, ⟨(runAll s calls).pendingSeq + 1, T, entry, now⟩ ∈
      (run (runAll s calls) (.enqueueEntry T entry now)).pending.rows) ∧
    (∀ r ∈ (runAll s calls).pending.rows, ∀ later, r ∈ (runAll s (calls ++ later)).pending.rows ∨
      Some (fun s c => c.Acks s r.id) (runAll s calls) later) ∧
    (∀ c ∈ (runAll s calls).claims.rows, ∃ r ∈ (runAll s calls).pending.rows, r.id = c) ∧
    ∀ (c : PendingCall) (between : List PendingCall) (c' : PendingCall) (i : Int),
      i ∈ c.returned (runAll s calls) → i ∈ c'.returned (runAll s (calls ++ c :: between)) →
        Some (fun s c => c.Releases s i) (c.run (runAll s calls)) between := by
  have happend (l m : List PendingCall) : runAll s (l ++ m) = runAll (runAll s l) m :=
    List.foldl_append
  have hledger := ledger_runAll hs calls
  refine ⟨fun T entry now => ?_, fun r hr later => ?_, hledger.claimed, ?_⟩
  · exact (Store.mem_pending_enqueueEntry hledger).mpr (.inr rfl)
  · rw [happend]
    exact mem_pending_runAll hledger hr later
  · intro c between c' i hfirst hsecond
    rw [happend] at hsecond
    by_contra hno
    have htaken := taken_runAll (ledger_run hledger c) (taken_of_returned hfirst) hno
    exact not_returned_of_taken htaken hsecond

/-- An entry that is claimed, released and claimed again. -/
theorem pending_accounting_released :
    Some (fun s c => c.Releases s 1)
      (run (runAll .empty [.enqueueEntry "t" ⟨"d1", [1], "message", "", 1, 0, 0, [], 0, 0, [], []⟩ 1])
        (.claimPendingEntries "t" 10))
      [.releasePendingClaimIDs [1]] :=
  (pending_accounting Store.ledger_empty
    [.enqueueEntry "t" ⟨"d1", [1], "message", "", 1, 0, 0, [], 0, 0, [], []⟩ 1]).2.2.2
    (.claimPendingEntries "t" 10) [.releasePendingClaimIDs [1]] (.claimPendingEntries "t" 10) 1
    (by decide +kernel) (by decide +kernel)

end PendingCall

end MoltMesh
