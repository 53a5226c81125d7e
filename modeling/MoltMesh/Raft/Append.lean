import Mathlib.Logic.Relation
import MoltMesh.Raft.Trail

/-!
# The append transaction and the other writers of the chain

`AppendBlockAndAckPending` is one transaction, so concurrent calls run one after
another in some order.  Calls with the block `commitBlock` fills in build a valid
chain, whatever that order is and whichever of them fail
(`append_builds_chain`).  The table has two more writers, `SaveBlock` and
`ImportHistory`, which replace rows: the height that is allocated is free as long
as they store committed blocks only (`allocated_free`).
-/

namespace MoltMesh.Raft

open MoltMesh.Lib Pb Raftpb

/-! ## Calls -/

/-- A call of `AppendBlockAndAckPending` as `commitBlock` makes it. -/
structure AppendCall where
  threadID : String
  pendingIDs : List Int
  term : Nat
  entries : List ThreadEntry
  proposerDID : String
  /-- `time.Now()` in milliseconds since 1970. -/
  now : Int
  now_pos : 0 < now
  /-- Whether a statement of the transaction fails. -/
  fails : Bool

namespace AppendCall

variable (c : AppendCall) {s : Store} {T : String} {bs : List ThreadBlock}

/-- The function `commitBlock` fills its block with. -/
def fill : Int → String → ThreadBlock :=
  fillBlock c.threadID c.term c.entries c.proposerDID c.now

/-- The result of a call, and the store after it. -/
def run (s : Store) : Option ThreadBlock × Store :=
  if c.fails then (none, s)
  else match s.appendBlockAndAckPending c.threadID c.pendingIDs c.fill with
    | none => (none, s)
    | some (b, s') => (some b, s')

theorem run_of_fails (h : c.fails = true) : c.run s = (none, s) := if_pos h

theorem run_of_not_fails (h : c.fails = false) : c.run s =
    match s.appendBlockAndAckPending c.threadID c.pendingIDs c.fill with
    | none => (none, s)
    | some (b, s') => (some b, s') := if_neg (by rw [h]; exact Bool.false_ne_true)

/-- A call for another thread leaves the rows of this one. -/
theorem blockRows_run_of_ne (h : c.threadID ≠ T) : (c.run s).2.blockRows T = s.blockRows T := by
  cases hf : c.fails with
  | true => rw [c.run_of_fails hf]
  | false =>
    rw [c.run_of_not_fails hf, Store.appendBlockAndAckPending_eq]
    cases hins : s.blocks.insert (.ofBlock (c.fill (s.nextHeight c.threadID) (s.tipHash c.threadID))) with
    | none => rfl
    | some blocks =>
      change (Store.ackPending { s with blocks } c.pendingIDs).blockRows T = _
      have hT : ¬decide ((BlockRow.ofBlock
          (c.fill (s.nextHeight c.threadID) (s.tipHash c.threadID))).threadId = T) = true :=
        fun hT => h (of_decide_eq_true hT)
      rw [Store.blockRows, Store.blocks_ackPending, Table.select_of_insert hins, if_neg hT,
        List.append_nil, Store.blockRows]

/-- A call that does not fail appends its block to the chain. -/
theorem run_chain (hc : s.Chain T bs) (ht : c.threadID = T) (hf : c.fails = false) :
    (c.run s).1 = some (c.fill (bs.length + 1) (blockLinks.tip "" bs)) ∧
      (c.run s).2.Chain T (bs ++ [c.fill (bs.length + 1) (blockLinks.tip "" bs)]) := by
  obtain ⟨s', happ, hc'⟩ := hc.append c.pendingIDs c.fill (fun _ _ => ht) (fun _ _ => rfl)
    (fun _ _ => rfl) fun _ _ => c.now_pos
  rw [c.run_of_not_fails hf, ht, happ]
  exact ⟨rfl, hc'⟩

end AppendCall

/-- Calls one after another: their results, and the store after them. -/
def appendAll (s : Store) : List AppendCall → List (Option ThreadBlock) × Store
  | [] => ([], s)
  | c :: calls =>
    let (result, s₁) := c.run s
    let (results, s₂) := appendAll s₁ calls
    (result :: results, s₂)

/-- The blocks the calls for a thread have returned. -/
def returned (T : String) : List AppendCall → List (Option ThreadBlock) → List ThreadBlock
  | c :: calls, result :: results =>
    (if c.threadID = T then result.toList else []) ++ returned T calls results
  | _, _ => []

/-! ## The chain of the calls -/

section Calls

variable {s : Store} {T : String} {bs : List ThreadBlock}

theorem appendAll_chain (calls : List AppendCall) (hc : s.Chain T bs) :
    (appendAll s calls).2.Chain T (bs ++ returned T calls (appendAll s calls).1) := by
  induction calls generalizing s bs with
  | nil =>
    rw [appendAll, returned, List.append_nil]
    · exact hc
    · exact fun _ _ _ _ h => by cases h
  | cons c calls ih =>
    change (appendAll (c.run s).2 calls).2.Chain T (bs ++ ((if c.threadID = T then
      (c.run s).1.toList else []) ++ returned T calls (appendAll (c.run s).2 calls).1))
    rw [← List.append_assoc]
    apply ih
    by_cases ht : c.threadID = T
    · rw [if_pos ht]
      cases hf : c.fails with
      | true =>
        rw [c.run_of_fails hf, Option.toList_none, List.append_nil]
        exact hc
      | false =>
        obtain ⟨hres, hc'⟩ := c.run_chain hc ht hf
        rw [hres]
        exact hc'
    · rw [if_neg ht, List.append_nil]
      exact hc.congr (c.blockRows_run_of_ne ht)

/-- The calls for the thread that do not fail return the blocks they fill, one each. -/
theorem returned_fills (calls : List AppendCall) (hc : s.Chain T bs) :
    List.Forall₂ (fun c b => ∃ n p, b = AppendCall.fill c n p)
      (calls.filter fun c => c.threadID = T ∧ c.fails = false)
      (returned T calls (appendAll s calls).1) := by
  induction calls generalizing s bs with
  | nil => exact .nil
  | cons c calls ih =>
    change List.Forall₂ _ _ ((if c.threadID = T then (c.run s).1.toList else []) ++
      returned T calls (appendAll (c.run s).2 calls).1)
    rw [List.filter_cons]
    by_cases ht : c.threadID = T
    · rw [if_pos ht]
      cases hf : c.fails with
      | true =>
        rw [if_neg fun h => Bool.false_ne_true (of_decide_eq_true h).2.symm, c.run_of_fails hf]
        exact ih hc
      | false =>
        obtain ⟨hres, hc'⟩ := c.run_chain hc ht hf
        rw [if_pos (decide_eq_true ⟨ht, rfl⟩), hres]
        exact .cons ⟨_, _, rfl⟩ (ih hc')
    · rw [if_neg ht, if_neg fun h => ht (of_decide_eq_true h).1]
      exact ih (hc.congr (c.blockRows_run_of_ne ht))

/-- The block of a call keeps its own hash when it is stored, if nothing of its entries is lost. -/
theorem raftBlockHash_stored_fill {c : AppendCall} (h : ∀ e ∈ c.entries, FiveFields e) (n : Int)
    (p : String) : raftBlockHash (stored (c.fill n p)) = (c.fill n p).blockHash := by
  rw [stored_eq_self (b := c.fill n p) h]
  rfl

theorem hash_of_fills {calls : List AppendCall}
    (hfills : List.Forall₂ (fun c b => ∃ n p, b = AppendCall.fill c n p) calls bs)
    (h : ∀ c ∈ calls, ∀ e ∈ c.entries, FiveFields e) :
    ∀ b ∈ bs, raftBlockHash (stored b) = b.blockHash := by
  induction hfills with
  | nil => exact fun b hb => absurd hb List.not_mem_nil
  | cons hfill _ ih =>
    obtain ⟨n, p, rfl⟩ := hfill
    intro b hb
    rcases List.mem_cons.mp hb with rfl | hb
    · exact raftBlockHash_stored_fill (h _ List.mem_cons_self) n p
    · exact ih (fun c hmem => h c (List.mem_cons_of_mem _ hmem)) b hb

/-- **Concurrent appends build a valid chain.**  From a thread without blocks, calls in any order,
some of them failing and some of them for other threads, leave exactly the blocks they have
returned, one for each call that has not failed, at heights 1, 2, ... and each linked to the block
below; and the verifier accepts them if their entries use the stored fields only. -/
theorem append_builds_chain (h : s.blockRows T = []) (calls : List AppendCall) :
    (appendAll s calls).2.blockRows T =
        (returned T calls (appendAll s calls).1).map BlockRow.ofBlock ∧
      List.Forall₂ (fun c b => ∃ n p, b = AppendCall.fill c n p)
        (calls.filter fun c => c.threadID = T ∧ c.fails = false)
        (returned T calls (appendAll s calls).1) ∧
      (∀ (i : Nat) b, (returned T calls (appendAll s calls).1)[i]? = some b → b.height = i + 1) ∧
      (∀ b, (returned T calls (appendAll s calls).1).head? = some b → b.parentHash = "") ∧
      (∀ (i : Nat) b c, (returned T calls (appendAll s calls).1)[i]? = some b →
        (returned T calls (appendAll s calls).1)[i + 1]? = some c → c.parentHash = b.blockHash) ∧
      ((∀ c ∈ calls, ∀ e ∈ c.entries, FiveFields e) → returned T calls (appendAll s calls).1 ≠ [] →
        verifyChain .raft ((appendAll s calls).2.getBlocksSince T 0 0) = .ok ()) := by
  have hnil := Store.chain_nil h
  have hfills := returned_fills calls hnil
  have hc := appendAll_chain calls hnil
  rw [List.nil_append] at hc
  refine ⟨hc.rows, hfills, ?_, fun b => hc.linked.parent_head?, fun i b c => hc.linked.parent_getElem?,
    ?_⟩
  · intro i b hb
    have hh : b.height = 1 + (i : Int) := hc.linked.height_getElem? hb
    omega
  · intro hfive hne
    refine hc.verifyChain hne (hash_of_fills hfills fun c hmem => hfive c ?_)
    exact (List.mem_filter.mp hmem).1

end Calls

/-! ## All writers -/

/-- A call that writes to `thread_blocks`. -/
inductive ChainCall
  | append (c : AppendCall)
  /-- `applyCommittedBlock`: `SaveBlock`, unless `GetBlock` finds the height in the thread of the
  backend. -/
  | inbound (threadID : String) (b : ThreadBlock) (readFails fails : Bool)
  | importHistory (t : Thread) (blocks : List ThreadBlock) (fails : Bool)

/-- The store after a call. -/
def ChainCall.run (s : Store) : ChainCall → Store
  | append c => (c.run s).2
  | inbound threadID b readFails fails =>
    if readFails = false ∧ (s.getBlock threadID b.height).isSome then s
    else if fails then s else s.saveBlock b
  | importHistory t blocks fails => if fails then s else (s.importHistory t blocks).getD s

/-- The height `AppendBlockAndAckPending` allocates, in the `int64` arithmetic of the code. -/
def allocatedHeight (s : Store) (T : String) : Int := Int.bmod (s.nextHeight T) 18446744073709551616

/-- The values of an `int64`. -/
def FitsInt64 (n : Int) : Prop := -9223372036854775808 ≤ n ∧ n < 9223372036854775808

instance (n : Int) : Decidable (FitsInt64 n) := inferInstanceAs (Decidable (_ ∧ _))

/-- The condition on a call: blocks that come from outside are committed, and the height an append
allocates is an `int64`. -/
def ChainCall.Dated (T : String) (s : Store) : ChainCall → Prop
  | append c => FitsInt64 (s.nextHeight c.threadID)
  | inbound _ b _ _ => b.threadId = T → 0 < b.committedAt
  | importHistory _ blocks _ => ∀ b ∈ blocks, b.threadId = T → 0 < b.committedAt

/-- A call that meets a condition. -/
def ChainStep (ok : Store → ChainCall → Prop) (s s' : Store) : Prop := ∃ c, ok s c ∧ s' = c.run s

/-- All rows of a thread are committed blocks. -/
def AllCommitted (T : String) (s : Store) : Prop :=
  ∀ r ∈ s.blocks.rows, r.threadId = T → 0 < r.committedAt

section Writers

variable {s s' : Store} {T : String}

theorem AllCommitted.saveBlock (h : AllCommitted T s) {b : ThreadBlock}
    (hb : b.threadId = T → 0 < b.committedAt) : AllCommitted T (s.saveBlock b) := by
  intro r hr ht
  rcases Table.mem_insertOrReplace.mp hr with ⟨hr, -⟩ | rfl
  · exact h r hr ht
  · exact hb ht

theorem AllCommitted.importBlocks (h : AllCommitted T s) {blocks : List ThreadBlock}
    (hb : ∀ b ∈ blocks, b.threadId = T → 0 < b.committedAt) :
    AllCommitted T (blocks.foldl Store.saveBlock s) := by
  induction blocks generalizing s with
  | nil => exact h
  | cons b blocks ih =>
    exact ih (h.saveBlock (hb b List.mem_cons_self)) fun c hc => hb c (List.mem_cons_of_mem _ hc)

theorem AllCommitted.append (h : AllCommitted T s) (c : AppendCall) :
    AllCommitted T (c.run s).2 := by
  cases hf : c.fails with
  | true =>
    rw [c.run_of_fails hf]
    exact h
  | false =>
    rw [c.run_of_not_fails hf, Store.appendBlockAndAckPending_eq]
    cases hins : s.blocks.insert (.ofBlock (c.fill (s.nextHeight c.threadID) (s.tipHash c.threadID))) with
    | none => exact h
    | some blocks =>
      intro r hr ht
      change r ∈ (Store.ackPending { s with blocks } c.pendingIDs).blocks.rows at hr
      rw [Store.blocks_ackPending, Table.rows_of_insert hins] at hr
      rcases List.mem_append.mp hr with hr | hr
      · exact h r hr ht
      · rw [List.mem_singleton.mp hr]
        exact c.now_pos

theorem AllCommitted.step (h : AllCommitted T s) (hstep : ChainStep (ChainCall.Dated T) s s') :
    AllCommitted T s' := by
  obtain ⟨c, hok, rfl⟩ := hstep
  cases c with
  | append c => exact h.append c
  | inbound threadID b readFails fails =>
    rw [ChainCall.run]
    split_ifs
    · exact h
    · exact h
    · exact h.saveBlock hok
  | importHistory t blocks fails =>
    rw [ChainCall.run, Store.importHistory]
    split_ifs
    · exact h
    · exact h
    · exact AllCommitted.importBlocks (s := s.saveThread t) h hok

/-- Above the highest committed block there is no row, if all rows are committed. -/
theorem AllCommitted.next_free (h : AllCommitted T s) :
    ∀ r ∈ s.blocks.rows, r.threadId = T → r.height < s.nextHeight T := by
  intro r hr ht
  have hmem : r.height ∈ (s.committedBlocks T).map BlockRow.height :=
    List.mem_map_of_mem (Table.mem_select.mpr ⟨hr, decide_eq_true ⟨ht, h r hr ht⟩⟩)
  unfold Store.nextHeight Store.getCommittedHeight Store.maxHeight
  cases hmax : ((s.committedBlocks T).map BlockRow.height).max? with
  | none =>
    rw [List.max?_eq_none_iff.mp hmax] at hmem
    exact absurd hmem List.not_mem_nil
  | some m =>
    have hle := (List.max?_eq_some_iff.mp hmax).2 _ hmem
    rw [Option.getD_some]
    omega

theorem allCommitted_of_run (h₀ : s.blockRows T = [])
    (hrun : Relation.ReflTransGen (ChainStep (ChainCall.Dated T)) s s') : AllCommitted T s' := by
  induction hrun with
  | refl =>
    intro r hr ht
    have hmem : r ∈ s.blockRows T := Table.mem_select.mpr ⟨hr, decide_eq_true ht⟩
    rw [h₀] at hmem
    exact absurd hmem List.not_mem_nil
  | tail _ hstep ih => exact ih.step hstep

/-- **The height that is allocated is free**, and the append does not fail on it, after any calls
that store committed blocks only. -/
theorem allocated_free (h₀ : s.blockRows T = [])
    (hrun : Relation.ReflTransGen (ChainStep (ChainCall.Dated T)) s s')
    (hfits : FitsInt64 (s'.nextHeight T)) :
    (∀ r ∈ s'.blockRows T, r.height ≠ allocatedHeight s' T) ∧
      ∀ c : AppendCall, c.threadID = T → c.fails = false → (c.run s').1.isSome = true := by
  have hfree := (allCommitted_of_run h₀ hrun).next_free
  constructor
  · intro r hr heq
    obtain ⟨hmem, ht⟩ := Table.mem_select.mp hr
    have hlt := hfree r hmem (of_decide_eq_true ht)
    have hnowrap : allocatedHeight s' T = s'.nextHeight T := by
      unfold FitsInt64 at hfits
      exact Int.bmod_eq_of_le (by omega) (by omega)
    omega
  · rintro c rfl hf
    have hins : s'.blocks.insert (.ofBlock (c.fill (s'.nextHeight c.threadID)
        (s'.tipHash c.threadID))) ≠ none := by
      intro hnone
      obtain ⟨r, hr, hkey⟩ := List.mem_map.mp (Table.insert_eq_none.mp hnone)
      obtain ⟨ht, hh⟩ := Prod.mk.inj hkey
      have hlt := hfree r hr ht
      exact absurd hh (Int.ne_of_lt hlt)
    obtain ⟨blocks, hblocks⟩ := Option.ne_none_iff_exists'.mp hins
    rw [c.run_of_not_fails hf, Store.appendBlockAndAckPending_eq, hblocks]
    rfl

end Writers

namespace Trio

/-- An append that nothing disturbs. -/
def appendCall : AppendCall := ⟨"t", [], 1, [], "d1", 1, Int.one_pos, false⟩

/-- A block at height 1, committed at the given time. -/
def blockAt (now : Int) : ThreadBlock := fillBlock "t" 1 [] "d1" now 1 ""

/-- Two appends, one that fails, and one for another thread. -/
def appends : List AppendCall :=
  [appendCall, { appendCall with fails := true }, { appendCall with threadID := "u" }, appendCall]

theorem append_builds_chain_appends :
    (returned "t" appends (appendAll .empty appends).1).length = 2 ∧
      verifyChain .raft ((appendAll .empty appends).2.getBlocksSince "t" 0 0) = .ok () := by
  obtain ⟨-, -, -, -, -, hverify⟩ := append_builds_chain (s := .empty) (T := "t") rfl appends
  refine ⟨by decide +kernel, hverify (by decide +kernel) ?_⟩
  intro hnil
  have hlen : (returned "t" appends (appendAll .empty appends).1).length = 2 := by decide +kernel
  rw [hnil] at hlen
  cases hlen

/-- An inbound block that is not committed takes the height the next append allocates. -/
theorem allocated_taken :
    Relation.ReflTransGen (ChainStep fun _ _ => True) .empty (Store.empty.saveBlock (blockAt 0)) ∧
      (∃ r ∈ (Store.empty.saveBlock (blockAt 0)).blockRows "t",
        r.height = allocatedHeight (Store.empty.saveBlock (blockAt 0)) "t") ∧
      (appendCall.run (Store.empty.saveBlock (blockAt 0))).1 = none := by
  refine ⟨.single ⟨.inbound "t" (blockAt 0) false false, trivial, rfl⟩, ?_, ?_⟩
  · exact ⟨.ofBlock (blockAt 0), List.mem_singleton_self _, by decide +kernel⟩
  · rfl

/-- An imported block that is committed does not. -/
theorem allocated_free_import :
    (appendCall.run ((Store.empty.saveThread thread).saveBlock (blockAt 1))).1.isSome = true := by
  have hstep : ChainStep (ChainCall.Dated "t") .empty
      ((Store.empty.saveThread thread).saveBlock (blockAt 1)) := by
    refine ⟨.importHistory thread [blockAt 1] false, ?_, rfl⟩
    rintro b hb -
    rw [List.mem_singleton.mp hb]
    exact Int.one_pos
  exact (allocated_free rfl (.single hstep) (by decide +kernel)).2 appendCall rfl rfl

end Trio

end MoltMesh.Raft
