import MoltMesh.Chain

/-!
# Saving a verified chain

Three ways lead into `thread_blocks`: `SaveBlock` block by block, `ImportHistory` and
`AppendBlockAndAckPending`.  All of them keep five fields of an entry, so a chain that
`VerifyChain` accepts is read back as it was saved if its entries use no other fields, and only
then (`round_trip_iff`).
-/

namespace MoltMesh

open MoltMesh.Lib Pb

/-! ## Reading back -/

theorem fiveFields_of_stored_eq_self {b : ThreadBlock} (h : stored b = b) {e : ThreadEntry}
    (he : e ∈ b.entries) : FiveFields e := by
  have hentries : unmarshalEntries (marshalEntries b.entries) = b.entries :=
    congrArg ThreadBlock.entries h
  rw [unmarshalEntries, marshalEntries, List.map_map] at hentries
  have hfix := List.map_eq_map_iff.mp (hentries.trans b.entries.map_id.symm)
  exact (hfix e he).symm

theorem map_stored_eq_self_iff {bs : List ThreadBlock} :
    bs.map stored = bs ↔ ∀ b ∈ bs, ∀ e ∈ b.entries, FiveFields e := by
  constructor
  · intro h b hb e he
    have hfix := List.map_eq_map_iff.mp (h.trans bs.map_id.symm)
    exact fiveFields_of_stored_eq_self (hfix b hb) he
  · intro h
    exact (List.map_congr_left fun b hb => stored_eq_self (h b hb)).trans bs.map_id

namespace Store

variable {s s' : Store} {T : String} {bs : List ThreadBlock} {since : Int}

/-! ## Queries -/

theorem nodup_map_height (s : Store) (T : String) : ((s.committedBlocks T).map BlockRow.height).Nodup := by
  have hkeys : ((s.committedBlocks T).map fun r => (r.threadId, r.height)).Nodup := s.blocks.nodup_map_select _
  refine List.Nodup.of_map (fun h => (T, h)) ?_
  rw [List.map_map]
  refine (List.map_congr_left fun r hr => ?_) ▸ hkeys
  have hT : r.threadId = T := (of_decide_eq_true (Table.mem_select.mp hr).2).1
  exact Prod.ext hT rfl

theorem height_le_getCommittedHeight {r : BlockRow} (hr : r ∈ s.committedBlocks T) :
    r.height ≤ s.getCommittedHeight T := by
  have hmem : r.height ∈ (s.committedBlocks T).map BlockRow.height := List.mem_map_of_mem hr
  rw [getCommittedHeight, maxHeight]
  rcases hmax : ((s.committedBlocks T).map BlockRow.height).max? with _ | m
  · rw [List.max?_eq_none_iff.mp hmax] at hmem
    cases hmem
  · exact (List.max?_eq_some_iff.mp hmax).2 _ hmem

theorem getBlock_eq_some {h : Int} {b : ThreadBlock} :
    s.getBlock T h = some b ↔ ∃ r ∈ s.committedBlocks T, r.height = h ∧ r.block = b := by
  have hmem (r : BlockRow) : r ∈ s.committedBlocks T ↔ (r ∈ s.blocks.rows ∧ r.threadId = T) ∧ 0 < r.committedAt := by
    rw [committedBlocks, Table.mem_select, decide_eq_true_eq, and_assoc]
  rw [getBlock]
  constructor
  · intro hget
    split at hget
    · cases hget
    · rename_i r hlookup
      obtain ⟨hr, hkey⟩ := Table.lookup_eq_some.mp hlookup
      obtain ⟨hpos, hblock⟩ := Option.ite_none_right_eq_some.mp hget
      obtain ⟨hT, hheight⟩ := Prod.mk.inj hkey
      exact ⟨r, (hmem r).mpr ⟨⟨hr, hT⟩, hpos⟩, hheight, Option.some_inj.mp hblock⟩
  · rintro ⟨r, hr, rfl, rfl⟩
    obtain ⟨⟨hrow, rfl⟩, hpos⟩ := (hmem r).mp hr
    rw [Table.lookup_eq_some.mpr ⟨hrow, rfl⟩]
    exact if_pos hpos

/-- The rows of a query for the blocks above a height. -/
def rowsAbove (s : Store) (T : String) (since : Int) : List BlockRow :=
  orderBy BlockRow.height ((s.committedBlocks T).filter fun r => since < r.height)

theorem getBlocksSince_zero (s : Store) (T : String) (since : Int) :
    s.getBlocksSince T since 0 = (s.rowsAbove T since).map BlockRow.block := rfl

theorem mem_rowsAbove {r : BlockRow} : r ∈ s.rowsAbove T since ↔ r ∈ s.committedBlocks T ∧ since < r.height := by
  rw [rowsAbove, mem_orderBy, List.mem_filter, decide_eq_true_eq]

theorem pairwise_rowsAbove (s : Store) (T : String) (since : Int) :
    (s.rowsAbove T since).Pairwise fun a b => a.height < b.height :=
  pairwise_orderBy _ ((s.nodup_map_height T).sublist (List.filter_sublist.map _))

/-- The blocks are the committed ones of the thread above a height, in the order of their heights. -/
def CommittedAbove (s : Store) (T : String) (since : Int) (bs : List ThreadBlock) : Prop :=
  bs.Pairwise (fun a b => a.height < b.height) ∧
    ∀ b, b ∈ bs ↔ since < b.height ∧ s.getBlock T b.height = some b

/-- What a query returns. -/
theorem committedAbove_getBlocksSince (s : Store) (T : String) (since : Int) :
    s.CommittedAbove T since (s.getBlocksSince T since 0) := by
  rw [getBlocksSince_zero]
  refine ⟨List.pairwise_map.mpr (s.pairwise_rowsAbove T since), fun b => ?_⟩
  rw [List.mem_map, getBlock_eq_some]
  constructor
  · rintro ⟨r, hr, rfl⟩
    obtain ⟨hr, hlt⟩ := mem_rowsAbove.mp hr
    exact ⟨hlt, r, hr, rfl, rfl⟩
  · rintro ⟨hlt, r, hr, hheight, rfl⟩
    exact ⟨r, mem_rowsAbove.mpr ⟨hr, hlt⟩, rfl⟩

theorem CommittedAbove.unique {bs' : List ThreadBlock} (h : s.CommittedAbove T since bs)
    (h' : s.CommittedAbove T since bs') : bs = bs' := by
  have hnodup {l : List ThreadBlock} (hl : l.Pairwise fun a b => a.height < b.height) : l.Nodup := by
    refine hl.imp ?_
    rintro a _ hlt rfl
    exact lt_irrefl _ hlt
  have hperm : bs.Perm bs' :=
    (List.perm_ext_iff_of_nodup (hnodup h.1) (hnodup h'.1)).mpr fun b => (h.2 b).trans (h'.2 b).symm
  exact hperm.eq_of_pairwise (fun a b _ _ hab hba => absurd hab hba.asymm) h.1 h'.1

theorem CommittedAbove.getBlocksSince_eq (h : s.CommittedAbove T since bs) : s.getBlocksSince T since 0 = bs :=
  (s.committedAbove_getBlocksSince T since).unique h

/-! ## Rows of a chain -/

/-- The rows a query for all blocks of a thread sees. -/
def Holds (s : Store) (T : String) (bs : List ThreadBlock) : Prop :=
  ∀ r, r ∈ s.committedBlocks T ∧ 0 < r.height ↔ r ∈ bs.map BlockRow.ofBlock

/-- A query for all blocks, whatever the order of the rows. -/
theorem Holds.getBlocksSince (h : s.Holds T bs) (hlinked : blockLinks.Linked 1 "" bs) :
    s.getBlocksSince T 0 0 = bs.map stored := by
  refine CommittedAbove.getBlocksSince_eq ⟨List.pairwise_map.mpr hlinked.pairwise, fun b => ?_⟩
  rw [getBlock_eq_some]
  constructor
  · intro hb
    obtain ⟨c, hc, rfl⟩ := List.mem_map.mp hb
    obtain ⟨hr, hpos⟩ := (h _).mpr (List.mem_map_of_mem hc)
    exact ⟨hpos, _, hr, rfl, rfl⟩
  · rintro ⟨hpos, r, hr, hheight, rfl⟩
    obtain ⟨c, hc, rfl⟩ := List.mem_map.mp ((h r).mp ⟨hr, hpos⟩)
    exact List.mem_map_of_mem hc

theorem Chain.holds (hc : s.Chain T bs) : s.Holds T bs := by
  intro r
  rw [hc.committedBlocks, and_iff_left_iff_imp]
  intro hr
  obtain ⟨b, hb, rfl⟩ := List.mem_map.mp hr
  have hge := (hc.linked.height_mem hb).1
  change 1 ≤ b.height at hge
  change 0 < b.height
  omega

/-! ## The three ways -/

/-- How a chain gets into the store.  `AppendBlockAndAckPending` is called once for each block,
with the pending rows it acknowledges and the function that completes the block. -/
inductive Saving
  | saveBlock
  | appendBlockAndAckPending (pendingIDs : ThreadBlock → List Int)
    (fill : ThreadBlock → Int → String → ThreadBlock)
  | importHistory (t : Thread)

namespace Saving

/-- The calls that save a chain of thread `T`. -/
def run (T : String) (bs : List ThreadBlock) : Saving → Store → Option Store
  | .saveBlock, s => some (bs.foldl Store.saveBlock s)
  | .appendBlockAndAckPending pendingIDs fill, s =>
    bs.foldlM (fun t b => (t.appendBlockAndAckPending T (pendingIDs b) (fill b)).map Prod.snd) s
  | .importHistory t, s => s.importHistory t bs

/-- The chain can be saved as the history of `T`: what the store has of the thread is below its end
and, for blocks that are appended, there is nothing yet and each of them is completed to what it is. -/
def Ready (s : Store) (T : String) (bs : List ThreadBlock) : Saving → Prop
  | .saveBlock => ∀ r ∈ s.committedBlocks T, r.height ≤ bs.length
  | .appendBlockAndAckPending _ fill =>
    s.blockRows T = [] ∧ ∀ b ∈ bs, fill b b.height b.parentHash = b
  | .importHistory t => t.id ≠ "" ∧ ∀ r ∈ s.committedBlocks T, r.height ≤ bs.length

end Saving

/-- `SaveBlock`, block by block. -/
theorem foldl_saveBlock (bs : List ThreadBlock) (s : Store) : bs.foldl saveBlock s =
    { s with blocks := (bs.map BlockRow.ofBlock).foldl Table.insertOrReplace s.blocks } := by
  induction bs generalizing s with
  | nil => rfl
  | cons b bs ih => exact ih (s.saveBlock b)

/-- The blocks of a chain replace the rows at their heights. -/
theorem mem_committedBlocks_foldl_saveBlock (hlinked : blockLinks.Linked 1 "" bs) (hT : ∀ b ∈ bs, b.threadId = T)
    {r : BlockRow} : r ∈ (bs.foldl saveBlock s).committedBlocks T ↔
      (∃ b ∈ bs, 0 < b.committedAt ∧ .ofBlock b = r) ∨ r ∈ s.committedBlocks T ∧ ∀ b ∈ bs, b.height ≠ r.height := by
  have hkeys : ((bs.map BlockRow.ofBlock).map fun r => (r.threadId, r.height)).Nodup := by
    rw [List.map_map]
    refine (List.pairwise_map.mpr (hlinked.pairwise.imp ?_))
    intro a b hlt heq
    exact (ne_of_lt hlt) (Prod.mk.inj heq).2
  rw [foldl_saveBlock, committedBlocks, committedBlocks, Table.mem_select, Table.mem_select,
    Table.mem_foldl_insertOrReplace hkeys, decide_eq_true_eq]
  constructor
  · rintro ⟨hr | ⟨hr, hfree⟩, hrT, hpos⟩
    · obtain ⟨b, hb, rfl⟩ := List.mem_map.mp hr
      exact .inl ⟨b, hb, hpos, rfl⟩
    · refine .inr ⟨⟨hr, hrT, hpos⟩, fun b hb hheight => hfree ?_⟩
      rw [List.map_map]
      exact List.mem_map.mpr ⟨b, hb, Prod.ext ((hT b hb).trans hrT.symm) hheight⟩
  · rintro (⟨b, hb, hpos, rfl⟩ | ⟨⟨hr, hrT, hpos⟩, hfree⟩)
    · exact ⟨.inl (List.mem_map_of_mem hb), hT b hb, hpos⟩
    · refine ⟨.inr ⟨hr, fun hkey => ?_⟩, hrT, hpos⟩
      rw [List.map_map] at hkey
      obtain ⟨b, hb, hkey⟩ := List.mem_map.mp hkey
      exact hfree b hb (Prod.mk.inj hkey).2

theorem holds_foldl_saveBlock (hlinked : blockLinks.Linked 1 "" bs) (hT : ∀ b ∈ bs, b.threadId = T)
    (hpos : ∀ b ∈ bs, 0 < b.committedAt) (hbelow : ∀ r ∈ s.committedBlocks T, r.height ≤ bs.length) :
    (bs.foldl saveBlock s).Holds T bs := by
  intro r
  rw [mem_committedBlocks_foldl_saveBlock hlinked hT, List.mem_map]
  constructor
  · rintro ⟨⟨b, hb, -, hr⟩ | ⟨hr, hfree⟩, hheight⟩
    · exact ⟨b, hb, hr⟩
    · -- A row the store had lies at a height of the chain, where it is replaced.
      have hle := hbelow r hr
      obtain ⟨b, hb, heq⟩ := hlinked.exists_height (x := r.height) (by omega) (by omega)
      exact absurd heq (hfree b hb)
  · rintro ⟨b, hb, rfl⟩
    have hge : 1 ≤ b.height := (hlinked.height_mem hb).1
    refine ⟨.inl ⟨b, hb, hpos b hb, rfl⟩, ?_⟩
    change 0 < b.height
    omega

/-- Blocks that are appended to a chain one after another. -/
theorem Chain.foldlM_append (pendingIDs : ThreadBlock → List Int)
    {fill : ThreadBlock → Int → String → ThreadBlock} {done : List ThreadBlock} (hc : s.Chain T done)
    (hlinked : blockLinks.Linked (done.length + 1) (blockLinks.tip "" done) bs)
    (hT : ∀ b ∈ bs, b.threadId = T) (hpos : ∀ b ∈ bs, 0 < b.committedAt)
    (hfill : ∀ b ∈ bs, fill b b.height b.parentHash = b) :
    ∃ s', bs.foldlM (fun t b =>
        (t.appendBlockAndAckPending T (pendingIDs b) (fill b)).map Prod.snd) s = some s' ∧
      s'.Chain T (done ++ bs) := by
  induction bs generalizing s done with
  | nil => exact ⟨s, rfl, by rwa [List.append_nil]⟩
  | cons b bs ih =>
    obtain ⟨hheight, hparent, hrest⟩ := hlinked
    change b.height = _ at hheight
    change b.parentHash = _ at hparent
    -- The call depends on the block that is completed at the end of the chain only.
    obtain ⟨s₁, hcall, hc₁⟩ := hc.append (pendingIDs b)
      (fun h p => { b with height := h, parentHash := p }) (fun _ _ => hT b List.mem_cons_self)
      (fun _ _ => rfl) (fun _ _ => rfl) (fun _ _ => hpos b List.mem_cons_self)
    have hsame : ({ b with height := done.length + 1, parentHash := blockLinks.tip "" done } :
        ThreadBlock) = b := by rw [← hheight, ← hparent]
    have hfill₁ : fill b (done.length + 1) (blockLinks.tip "" done) = b := by
      rw [← hheight, ← hparent]
      exact hfill b List.mem_cons_self
    rw [hsame] at hcall hc₁
    rw [appendBlockAndAckPending_eq, hc.nextHeight, hc.tipHash, hsame] at hcall
    have hstep : (s.appendBlockAndAckPending T (pendingIDs b) (fill b)).map Prod.snd = some s₁ := by
      rw [appendBlockAndAckPending_eq, hc.nextHeight, hc.tipHash, hfill₁, hcall]
      rfl
    have hlen : ((done ++ [b]).length : Int) + 1 = done.length + 1 + 1 := by simp
    obtain ⟨s', hrun, hc'⟩ := ih hc₁
      (by rw [hlen, Links.tip_concat]; exact hrest)
      (fun c hcm => hT c (List.mem_cons_of_mem _ hcm)) (fun c hcm => hpos c (List.mem_cons_of_mem _ hcm))
      (fun c hcm => hfill c (List.mem_cons_of_mem _ hcm))
    refine ⟨s', ?_, by rwa [List.append_assoc] at hc'⟩
    rw [List.foldlM_cons, hstep]
    exact hrun

theorem Saving.Ready.holds {way : Saving} (h : way.Ready s T bs) (hlinked : blockLinks.Linked 1 "" bs)
    (hT : ∀ b ∈ bs, b.threadId = T) (hpos : ∀ b ∈ bs, 0 < b.committedAt) :
    ∃ s', way.run T bs s = some s' ∧ s'.Holds T bs := by
  cases way with
  | saveBlock => exact ⟨_, rfl, holds_foldl_saveBlock hlinked hT hpos h⟩
  | appendBlockAndAckPending pendingIDs fill =>
    obtain ⟨s', hrun, hc⟩ := (chain_nil h.1).foldlM_append pendingIDs hlinked hT hpos h.2
    exact ⟨s', hrun, hc.holds⟩
  | importHistory t => exact ⟨_, if_neg h.1, holds_foldl_saveBlock (s := s.saveThread t) hlinked hT hpos h.2⟩

/-- **What survives storage**: a verified chain is read back as it was, and verifies again, exactly
if its entries use the five fields that are stored. -/
theorem round_trip_iff (kind : BackendKind) (way : Saving) (h : verifyChain kind bs = .ok ())
    (hT : ∀ b ∈ bs, b.threadId = T) (hpos : ∀ b ∈ bs, 0 < b.committedAt) (hready : way.Ready s T bs) :
    ∃ s', way.run T bs s = some s' ∧
      (s'.getBlocksSince T 0 0 = bs ∧ verifyChain kind (s'.getBlocksSince T 0 0) = .ok () ↔
        ∀ b ∈ bs, ∀ e ∈ b.entries, FiveFields e) := by
  have hlinked := (verifyChain_eq_ok.mp h).2.1
  obtain ⟨s', hrun, hholds⟩ := hready.holds hlinked hT hpos
  refine ⟨s', hrun, ?_⟩
  rw [hholds.getBlocksSince hlinked, ← map_stored_eq_self_iff]
  constructor
  · exact And.left
  · intro hsame
    exact ⟨hsame, by rwa [hsame]⟩

/-! ## A message sent in clear and one that is encrypted -/

/-- A message whose text is not encrypted. -/
def plainEntry : ThreadEntry :=
  { authorDid := "did:key:a", payload := [104, 105], kind := "message", authorSig := "", submittedAt := 1 }

/-- An entry with the fields of an encrypted message. -/
def encryptedEntry : ThreadEntry :=
  { plainEntry with
    encodingVersion := 2, sequence := 1, membershipEpoch := 1, encryptionEpoch := 1
    nonce := List.replicate 24 0, authorSignature := List.replicate 64 0 }

/-- The first block of a thread of the Raft backend. -/
def firstBlock (e : ThreadEntry) : ThreadBlock :=
  let b : ThreadBlock :=
    { threadId := "t", height := 1, round := 1, parentHash := "", entries := [e],
      proposerDid := "did:key:a", proposerSig := "", blockHash := "", committedAt := 1 }
  { b with blockHash := raftBlockHash b }

/-- A message in clear is read back as it was saved. -/
theorem round_trip_plain : Saving.saveBlock.Ready .empty "t" [firstBlock plainEntry] ∧
    ∃ s', Saving.saveBlock.run "t" [firstBlock plainEntry] .empty = some s' ∧
      s'.getBlocksSince "t" 0 0 = [firstBlock plainEntry] ∧
      verifyChain .raft (s'.getBlocksSince "t" 0 0) = .ok () := by
  have hready : Saving.saveBlock.Ready .empty "t" [firstBlock plainEntry] :=
    fun r hr => absurd hr List.not_mem_nil
  obtain ⟨s', hrun, hiff⟩ := round_trip_iff .raft .saveBlock (by decide +kernel) (by decide)
    (by decide) hready
  exact ⟨hready, s', hrun, hiff.mpr (by decide)⟩

/-- **An encrypted message is not**: the chain verifies before it is saved, what is read back is another
chain, and the verifier rejects it. -/
theorem encrypted_entry_lost : verifyChain .raft [firstBlock encryptedEntry] = .ok () ∧
    0 < (firstBlock encryptedEntry).committedAt ∧
    ∃ s', Saving.saveBlock.run "t" [firstBlock encryptedEntry] .empty = some s' ∧
      s'.getBlocksSince "t" 0 0 ≠ [firstBlock encryptedEntry] ∧
      verifyChain .raft (s'.getBlocksSince "t" 0 0) ≠ .ok () :=
  ⟨by decide +kernel, by decide, _, rfl, by decide +kernel, by decide +kernel⟩

end Store

end MoltMesh
