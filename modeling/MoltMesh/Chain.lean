import MoltMesh.Store
import MoltMesh.Verify

/-!
# Stored chains

`Store.Chain s T bs` says that the rows of `thread_blocks` for thread `T` are the
blocks `bs`, linked from height 1 on and all of them committed.  On such a store
`AppendBlockAndAckPending` cannot fail on its own account, and what it leaves is
the chain with one more block (`Store.Chain.append`).
-/

namespace MoltMesh

open MoltMesh.Lib Pb

variable {b : ThreadBlock}

/-! ## What the store keeps of a block -/

/-- An entry that uses only the five fields that are stored. -/
def FiveFields (e : ThreadEntry) : Prop :=
  e = { authorDid := e.authorDid, payload := e.payload, kind := e.kind, authorSig := e.authorSig,
        submittedAt := e.submittedAt }

instance (e : ThreadEntry) : Decidable (FiveFields e) := inferInstanceAs (Decidable (_ = _))

theorem unmarshalEntries_marshalEntries {entries : List ThreadEntry}
    (h : ∀ e ∈ entries, FiveFields e) : unmarshalEntries (marshalEntries entries) = entries := by
  rw [unmarshalEntries, marshalEntries, List.map_map]
  exact (List.map_congr_left fun e he => (h e he).symm).trans entries.map_id

/-- What is read back of a block. -/
def stored (b : ThreadBlock) : ThreadBlock := (BlockRow.ofBlock b).block

theorem stored_eq_self (h : ∀ e ∈ b.entries, FiveFields e) : stored b = b := by
  rw [stored, BlockRow.block, BlockRow.ofBlock]
  exact congrArg (fun l => { b with entries := l }) (unmarshalEntries_marshalEntries h)

theorem linked_map_stored {h : Int} {p : String} {bs : List ThreadBlock} :
    blockLinks.Linked h p (bs.map stored) ↔ blockLinks.Linked h p bs :=
  Links.linked_map (fun _ => rfl) (fun _ => rfl) fun _ => rfl

namespace Store

variable {s : Store} {T : String}

/-! ## The append transaction -/

/-- The rows of a thread, committed or not. -/
def blockRows (s : Store) (T : String) : List BlockRow := s.blocks.select fun r => r.threadId = T

/-- The height `AppendBlockAndAckPending` allocates. -/
def nextHeight (s : Store) (T : String) : Int := s.getCommittedHeight T + 1

/-- The parent hash `AppendBlockAndAckPending` hands out. -/
def tipHash (s : Store) (T : String) : String :=
  match s.maxHeight T with
  | none => ""
  | some m => ((s.blocks.lookup (T, m)).map BlockRow.blockHash).getD ""

/-- The pending rows with the given ids and their claims are deleted. -/
def ackPending (s : Store) (ids : List Int) : Store :=
  ids.foldl (fun t id => (t.deletePending id).deleteClaim id) s

theorem blocks_ackPending (ids : List Int) : (s.ackPending ids).blocks = s.blocks := by
  induction ids generalizing s with
  | nil => rfl
  | cons id ids ih => exact ih.trans rfl

/-- What the transaction does, in one equation. -/
theorem appendBlockAndAckPending_eq (s : Store) (T : String) (ids : List Int)
    (fill : Int → String → ThreadBlock) : s.appendBlockAndAckPending T ids fill =
      (s.blocks.insert (.ofBlock (fill (s.nextHeight T) (s.tipHash T)))).map fun blocks =>
        (fill (s.nextHeight T) (s.tipHash T), ackPending { s with blocks } ids) := by
  unfold appendBlockAndAckPending nextHeight tipHash getCommittedHeight
  cases s.maxHeight T with
  | none =>
    rw [show (none : Option Int).getD 0 + 1 = 1 from rfl]
    dsimp only
    cases s.blocks.insert (.ofBlock (fill 1 "")) <;> rfl
  | some m =>
    dsimp only [Option.getD_some]
    cases s.blocks.insert _ <;> rfl

/-! ## Chains -/

/-- The rows of thread `T` are the committed blocks `bs`, linked from height 1 on. -/
structure Chain (s : Store) (T : String) (bs : List ThreadBlock) : Prop where
  rows : s.blockRows T = bs.map BlockRow.ofBlock
  linked : blockLinks.Linked 1 "" bs
  committed : ∀ b ∈ bs, 0 < b.committedAt

theorem chain_nil (h : s.blockRows T = []) : s.Chain T [] :=
  ⟨h, trivial, fun _ hb => absurd hb List.not_mem_nil⟩

theorem Chain.congr {s' : Store} {bs : List ThreadBlock} (hc : s.Chain T bs)
    (h : s'.blockRows T = s.blockRows T) : s'.Chain T bs := ⟨h.trans hc.rows, hc.linked, hc.committed⟩

theorem blockRows_saveBlock_of_ne (h : b.threadId ≠ T) :
    (s.saveBlock b).blockRows T = s.blockRows T := by
  refine Table.select_insertOrReplace_of_ne fun r hr => decide_eq_false fun ht => h ?_
  exact (Prod.mk.inj hr).1.symm.trans ht

theorem committedBlocks_eq (s : Store) (T : String) :
    s.committedBlocks T = (s.blockRows T).filter fun r => 0 < r.committedAt := by
  rw [committedBlocks, blockRows, Table.select, Table.select, List.filter_filter]
  congr 1
  funext r
  rw [Bool.decide_and, Bool.and_comm]

namespace Chain

variable {bs : List ThreadBlock} (hc : s.Chain T bs)

include hc

theorem committedBlocks : s.committedBlocks T = bs.map BlockRow.ofBlock := by
  rw [committedBlocks_eq, hc.rows, List.filter_eq_self]
  intro r hr
  obtain ⟨b, hb, rfl⟩ := List.mem_map.mp hr
  exact decide_eq_true (hc.committed b hb)

theorem maxHeight : s.maxHeight T = if bs = [] then none else some (bs.length : Int) := by
  rw [Store.maxHeight, hc.committedBlocks, List.map_map]
  split
  case isTrue h => rw [h]; rfl
  case isFalse h =>
    rw [List.max?_eq_some_iff]
    constructor
    · -- The newest block has the height that is the length of the chain.
      have hlast := List.getLast?_eq_some_getLast h
      have hh : (bs.getLast h).height = bs.length := by
        rw [List.getLast?_eq_getElem?] at hlast
        have hk := hc.linked.height_getElem? hlast
        have hpos := List.length_pos_iff.mpr h
        change (bs.getLast h).height = 1 + ((bs.length - 1 : Nat) : Int) at hk
        omega
      exact List.mem_map.mpr ⟨bs.getLast h, List.getLast_mem h, hh⟩
    · rintro _ hm
      obtain ⟨b, hb, rfl⟩ := List.mem_map.mp hm
      have hb' := (hc.linked.height_mem hb).2
      change b.height < _ at hb'
      change b.height ≤ _
      omega

theorem getCommittedHeight : s.getCommittedHeight T = bs.length := by
  rw [Store.getCommittedHeight, hc.maxHeight]
  split
  case isTrue h => rw [h]; rfl
  case isFalse => rfl

theorem nextHeight : s.nextHeight T = bs.length + 1 := by
  rw [Store.nextHeight, hc.getCommittedHeight]

theorem mem_rows {r : BlockRow} : r ∈ s.blocks.rows ∧ r.threadId = T ↔ ∃ b ∈ bs, .ofBlock b = r := by
  rw [← List.mem_map, ← hc.rows, blockRows, Table.mem_select, decide_eq_true_eq]

theorem threadId (hb : b ∈ bs) : b.threadId = T :=
  (hc.mem_rows.mpr ⟨b, hb, rfl⟩).2

theorem lookup (hb : b ∈ bs) : s.blocks.lookup (T, b.height) = some (.ofBlock b) := by
  have hr := hc.mem_rows.mpr ⟨b, hb, rfl⟩
  exact Table.lookup_eq_some.mpr ⟨hr.1, Prod.ext hr.2 rfl⟩

theorem tipHash : s.tipHash T = blockLinks.tip "" bs := by
  rw [Store.tipHash, hc.maxHeight]
  split
  case h_1 h =>
    split at h
    case isTrue hnil => rw [hnil]; rfl
    case isFalse => cases h
  case h_2 m h =>
    split at h
    case isTrue => cases h
    case isFalse hne =>
      obtain rfl := Option.some.inj h
      have hlast := List.getLast?_eq_some_getLast hne
      have hh : (bs.getLast hne).height = bs.length := by
        have hk := hc.linked.height_getElem? (List.getLast?_eq_getElem? ▸ hlast)
        have hpos := List.length_pos_iff.mpr hne
        change (bs.getLast hne).height = 1 + ((bs.length - 1 : Nat) : Int) at hk
        omega
      rw [← hh, hc.lookup (List.getLast_mem hne), Links.tip, hlast]
      rfl

/-- No row of the thread has the next height. -/
theorem next_free (ht : b.threadId = T) (hh : b.height = bs.length + 1) :
    (b.threadId, b.height) ∉ s.blocks.rows.map fun r => (r.threadId, r.height) := by
  intro hmem
  obtain ⟨r, hr, heq⟩ := List.mem_map.mp hmem
  obtain ⟨hrt, hrh⟩ := Prod.mk.inj heq
  obtain ⟨c, hcm, rfl⟩ := hc.mem_rows.mp ⟨hr, hrt.trans ht⟩
  have hlt := (hc.linked.height_mem hcm).2
  change c.height < _ at hlt
  change c.height = b.height at hrh
  omega

/-- **The append transaction on a chain**: it succeeds, and the chain has one more block. -/
theorem append (ids : List Int) (fill : Int → String → ThreadBlock)
    (ht : ∀ h p, (fill h p).threadId = T) (hh : ∀ h p, (fill h p).height = h)
    (hp : ∀ h p, (fill h p).parentHash = p) (hpos : ∀ h p, 0 < (fill h p).committedAt) :
    ∃ s', s.appendBlockAndAckPending T ids fill =
        some (fill (bs.length + 1) (blockLinks.tip "" bs), s') ∧
      s'.Chain T (bs ++ [fill (bs.length + 1) (blockLinks.tip "" bs)]) := by
  rw [appendBlockAndAckPending_eq, hc.nextHeight, hc.tipHash]
  set b := fill (bs.length + 1) (blockLinks.tip "" bs) with hb
  have hfree := hc.next_free (b := b) (ht _ _) (hh _ _)
  obtain ⟨blocks, hblocks⟩ : ∃ t, s.blocks.insert (.ofBlock b) = some t := by
    refine Option.ne_none_iff_exists'.mp fun hnone => hfree ?_
    exact (Table.insert_eq_none (r := BlockRow.ofBlock b)).mp hnone
  refine ⟨_, by rw [hblocks]; rfl, ?_, ?_, ?_⟩
  · have hT : decide ((BlockRow.ofBlock b).threadId = T) = true := decide_eq_true (ht _ _)
    rw [blockRows, blocks_ackPending, Table.select_of_insert hblocks, ← blockRows, hc.rows,
      if_pos hT, List.map_append]
    rfl
  · refine Links.linked_concat.mpr ⟨hc.linked, ?_, hp _ _⟩
    exact (hh _ _).trans (Int.add_comm _ _)
  · intro c hmem
    rcases List.mem_append.mp hmem with hmem | hmem
    · exact hc.committed c hmem
    · rw [List.mem_singleton.mp hmem]
      exact hpos _ _

/-- `SaveBlock` of the block that comes next. -/
theorem saveBlock (ht : b.threadId = T) (hh : b.height = bs.length + 1)
    (hp : b.parentHash = blockLinks.tip "" bs) (hpos : 0 < b.committedAt) :
    (s.saveBlock b).Chain T (bs ++ [b]) := by
  have hrows := Table.rows_insertOrReplace_of_free (t := s.blocks) (r := .ofBlock b)
    (hc.next_free ht hh)
  have hT : [BlockRow.ofBlock b].filter (fun r => decide (r.threadId = T)) = [.ofBlock b] := by
    rw [List.filter_singleton, show decide ((BlockRow.ofBlock b).threadId = T) = true from
      decide_eq_true ht]
    rfl
  refine ⟨?_, Links.linked_concat.mpr ⟨hc.linked, hh.trans (Int.add_comm _ _), hp⟩, ?_⟩
  · rw [blockRows, Table.select, Store.saveBlock, hrows, List.filter_append, hT, List.map_append,
      ← hc.rows]
    rfl
  · intro c hmem
    rcases List.mem_append.mp hmem with hmem | hmem
    · exact hc.committed c hmem
    · rw [List.mem_singleton.mp hmem]
      exact hpos

/-- What `GetBlock` finds on a chain. -/
theorem getBlock (h : Int) : s.getBlock T h = (bs.find? fun b => b.height = h).map stored := by
  have hfind : s.blocks.lookup (T, h) = (bs.map BlockRow.ofBlock).find? fun r => r.height = h := by
    rw [← hc.rows, blockRows, Table.select, List.find?_filter, Table.lookup]
    congr 1
    funext r
    simp
  rw [Store.getBlock, hfind, List.find?_map]
  cases hb : bs.find? ((fun r => decide (r.height = h)) ∘ BlockRow.ofBlock) with
  | none =>
    rw [show (bs.find? fun b => decide (b.height = h)) = none from hb]
    rfl
  | some b =>
    rw [show (bs.find? fun b => decide (b.height = h)) = some b from hb]
    have hpos : 0 < (BlockRow.ofBlock b).committedAt := hc.committed b (List.mem_of_find?_eq_some hb)
    dsimp only [Option.map_some]
    rw [if_pos hpos]
    rfl

/-- A block that can be read is not changed by what comes above it. -/
theorem getBlock_mono {s' : Store} {bs' : List ThreadBlock} (hc' : s'.Chain T bs')
    (hmore : bs <+: bs') {h : Int} (hb : s.getBlock T h = some b) : s'.getBlock T h = some b := by
  obtain ⟨more, rfl⟩ := hmore
  rw [hc.getBlock] at hb
  obtain ⟨c, hfind, rfl⟩ := Option.map_eq_some_iff.mp hb
  rw [hc'.getBlock, List.find?_append, hfind]
  rfl

/-- What a query for all blocks returns. -/
theorem getBlocksSince : s.getBlocksSince T 0 0 = bs.map stored := by
  have hfilter : (bs.map BlockRow.ofBlock).filter (fun r => (0 : Int) < r.height) =
      bs.map BlockRow.ofBlock := by
    rw [List.filter_eq_self]
    intro r hr
    obtain ⟨b, hb, rfl⟩ := List.mem_map.mp hr
    have hge := (hc.linked.height_mem hb).1
    change 1 ≤ b.height at hge
    exact decide_eq_true (by change 0 < b.height; omega)
  have hsorted : (bs.map BlockRow.ofBlock).Pairwise fun a b => a.height < b.height :=
    List.pairwise_map.mpr hc.linked.pairwise
  rw [Store.getBlocksSince, hc.committedBlocks, hfilter, orderBy_eq_of_perm _ (.refl _) hsorted]
  exact List.map_map

/-- A chain whose blocks have their own hashes as they are stored passes the verifier. -/
theorem verifyChain (hne : bs ≠ []) (hash : ∀ b ∈ bs, raftBlockHash (stored b) = b.blockHash) :
    verifyChain .raft (s.getBlocksSince T 0 0) = .ok () := by
  rw [verifyChain_eq_ok, hc.getBlocksSince]
  refine ⟨fun h => hne (List.map_eq_nil_iff.mp h), linked_map_stored.mpr hc.linked, ?_⟩
  intro b hb
  obtain ⟨c, hcm, rfl⟩ := List.mem_map.mp hb
  exact hash c hcm

end Chain

end Store

end MoltMesh
