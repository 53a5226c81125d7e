import MoltMesh.Saving

/-!
# Importing over a history

`ImportHistory` writes the blocks of a chain with `INSERT OR REPLACE`, whatever the store has of the
thread.  Its callers have verified the chain, and nobody compares it with the blocks that are there:
a chain that diverges takes the place of committed blocks, a shorter one leaves what was above it
on top of another block, and a block without a commit time hides the one at its height.

`keepsCommits_import_iff` says which imports keep what has been committed.
-/

namespace MoltMesh

open MoltMesh.Lib Pb

namespace Store

/-- What has been committed stays: every height that has a block has one with the same hash, and the chain of the
thread verifies. -/
structure KeepsCommits (kind : BackendKind) (T : String) (s s' : Store) : Prop where
  hashes : ∀ h b, s.getBlock T h = some b → ∃ b', s'.getBlock T h = some b' ∧ b'.blockHash = b.blockHash
  verifies : verifyChain kind (s'.getBlocksSince T 0 0) = .ok ()

/-- A chain that is imported agrees with the chain that is there.  Where both have a block, the imported one is
committed and has the same hash; imported blocks that are committed come before those that are
not; and they have their hashes still when they are read back. -/
structure Agrees (kind : BackendKind) (cs bs : List ThreadBlock) : Prop where
  shared : ∀ (i : Nat) (b c : ThreadBlock), bs[i]? = some b → cs[i]? = some c →
    0 < b.committedAt ∧ b.blockHash = c.blockHash
  order : bs.Pairwise fun a b => 0 < b.committedAt → 0 < a.committedAt
  readable : ∀ b ∈ bs, 0 < b.committedAt → blockHashFn kind (stored b) = b.blockHash

/-- The blocks of a chain that a query sees. -/
def visible (bs : List ThreadBlock) : List ThreadBlock := bs.filter fun b => 0 < b.committedAt

variable {kind : BackendKind} {T : String} {s : Store} {bs cs : List ThreadBlock} {b : ThreadBlock}

@[simp] theorem mem_visible : b ∈ visible bs ↔ b ∈ bs ∧ 0 < b.committedAt := by
  rw [visible, List.mem_filter, decide_eq_true_eq]

/-! ## What is read after an import -/

theorem height_of_getBlock {h : Int} (hb : s.getBlock T h = some b) : b.height = h := by
  obtain ⟨r, -, hheight, rfl⟩ := getBlock_eq_some.mp hb
  exact hheight

theorem getBlock_foldl_saveBlock (hlinked : blockLinks.Linked 1 "" bs) (hT : ∀ b ∈ bs, b.threadId = T) {h : Int}
    {c : ThreadBlock} : (bs.foldl saveBlock s).getBlock T h = some c ↔
      (∃ b ∈ visible bs, b.height = h ∧ stored b = c) ∨ (∀ b ∈ bs, b.height ≠ h) ∧ s.getBlock T h = some c := by
  rw [getBlock_eq_some, getBlock_eq_some]
  constructor
  · rintro ⟨r, hr, rfl, rfl⟩
    rcases (mem_committedBlocks_foldl_saveBlock hlinked hT).mp hr with ⟨b, hb, hpos, rfl⟩ | ⟨hr, hfree⟩
    · exact .inl ⟨b, mem_visible.mpr ⟨hb, hpos⟩, rfl, rfl⟩
    · exact .inr ⟨hfree, r, hr, rfl, rfl⟩
  · rintro (⟨b, hb, rfl, rfl⟩ | ⟨hfree, r, hr, rfl, rfl⟩)
    · obtain ⟨hb, hpos⟩ := mem_visible.mp hb
      exact ⟨_, (mem_committedBlocks_foldl_saveBlock hlinked hT).mpr (.inl ⟨b, hb, hpos, rfl⟩), rfl, rfl⟩
    · exact ⟨r, (mem_committedBlocks_foldl_saveBlock hlinked hT).mpr (.inr ⟨hr, hfree⟩), rfl, rfl⟩

/-- **After an import** the blocks are those of the import, and above it those from before. -/
theorem getBlocksSince_foldl_saveBlock (hcs : blockLinks.Linked 1 "" (s.getBlocksSince T 0 0))
    (hbs : blockLinks.Linked 1 "" bs) (hT : ∀ b ∈ bs, b.threadId = T) :
    (bs.foldl saveBlock s).getBlocksSince T 0 0 =
      (visible bs).map stored ++ (s.getBlocksSince T 0 0).drop bs.length := by
  obtain ⟨hsorted, hmem⟩ := s.committedAbove_getBlocksSince T 0
  have hheight {b : ThreadBlock} (hb : b ∈ bs) : 1 ≤ b.height ∧ b.height < 1 + bs.length := hbs.height_mem hb
  have hdrop {c : ThreadBlock} : c ∈ (s.getBlocksSince T 0 0).drop bs.length ↔
      c ∈ s.getBlocksSince T 0 0 ∧ 1 + bs.length ≤ c.height := hcs.mem_drop
  refine CommittedAbove.getBlocksSince_eq ⟨List.pairwise_append.mpr ⟨?_, hsorted.drop, ?_⟩, fun c => ?_⟩
  · exact List.pairwise_map.mpr (hbs.pairwise.filter _)
  · intro a ha c hc
    obtain ⟨b, hb, rfl⟩ := List.mem_map.mp ha
    exact (hheight (mem_visible.mp hb).1).2.trans_le (hdrop.mp hc).2
  · rw [List.mem_append, List.mem_map, hdrop, hmem, getBlock_foldl_saveBlock hbs hT]
    constructor
    · rintro (⟨b, hb, rfl⟩ | ⟨⟨hpos, hget⟩, hle⟩)
      · exact ⟨(hheight (mem_visible.mp hb).1).1, .inl ⟨b, hb, rfl, rfl⟩⟩
      · exact ⟨hpos, .inr ⟨fun b hb => ne_of_lt ((hheight hb).2.trans_le hle), hget⟩⟩
    · rintro ⟨hpos, ⟨b, hb, -, rfl⟩ | ⟨hfree, hget⟩⟩
      · exact .inl ⟨b, hb, rfl⟩
      · refine .inr ⟨⟨hpos, hget⟩, not_lt.mp fun hlt => ?_⟩
        obtain ⟨b, hb, heq⟩ := hbs.exists_height (x := c.height) hpos hlt
        exact hfree b hb heq

/-! ## An import that agrees -/

/-- Blocks that are committed before the others are a chain. -/
theorem linked_visible {h : Int} {p : String} (hlinked : blockLinks.Linked h p bs)
    (horder : bs.Pairwise fun a b => 0 < b.committedAt → 0 < a.committedAt) : blockLinks.Linked h p (visible bs) := by
  induction bs generalizing h p with
  | nil => trivial
  | cons b bs ih =>
    obtain ⟨hfirst, hrest⟩ := List.pairwise_cons.mp horder
    obtain ⟨hheight, hparent, hlinked⟩ := hlinked
    by_cases hpos : 0 < b.committedAt
    · have hsome : visible (b :: bs) = b :: visible bs := List.filter_cons_of_pos (decide_eq_true hpos)
      rw [hsome]
      exact ⟨hheight, hparent, ih hlinked hrest⟩
    · have hnone : visible (b :: bs) = [] := by
        refine List.filter_eq_nil_iff.mpr fun c hc hcpos => hpos ?_
        rcases List.mem_cons.mp hc with rfl | hc
        · exact of_decide_eq_true hcpos
        · exact hfirst c hc (of_decide_eq_true hcpos)
      rw [hnone]
      trivial

namespace Agrees

variable (h : Agrees kind cs bs)
include h

/-- Below a longer chain all blocks of the import are committed. -/
theorem visible_eq (hlt : bs.length < cs.length) : visible bs = bs := by
  refine List.filter_eq_self.mpr fun b hb => decide_eq_true ?_
  obtain ⟨i, hi⟩ := List.getElem?_of_mem hb
  have hilt := (List.getElem?_eq_some_iff.mp hi).1
  exact (h.shared i b _ hi (List.getElem?_eq_getElem (hilt.trans hlt))).1

theorem map_blockHash (hlt : bs.length < cs.length) :
    bs.map ThreadBlock.blockHash = (cs.take bs.length).map ThreadBlock.blockHash := by
  refine List.ext_getElem (by simp [hlt.le]) fun i hi _ => ?_
  rw [List.length_map] at hi
  rw [List.getElem_map, List.getElem_map, List.getElem_take]
  exact (h.shared i _ _ (List.getElem?_eq_getElem hi) (List.getElem?_eq_getElem (hi.trans hlt))).2

theorem linked (hcs : blockLinks.Linked 1 "" cs) (hbs : blockLinks.Linked 1 "" bs) :
    blockLinks.Linked 1 "" ((visible bs).map stored ++ cs.drop bs.length) := by
  refine Links.linked_append.mpr ⟨linked_map_stored.mpr (linked_visible hbs h.order), ?_⟩
  rcases lt_or_ge bs.length cs.length with hlt | hge
  · rw [h.visible_eq hlt, List.length_map]
    have htip : blockLinks.tip "" (bs.map stored) = blockLinks.tip "" (cs.take bs.length) := by
      refine Links.tip_congr ?_
      rw [List.map_map]
      exact h.map_blockHash hlt
    rw [htip]
    exact hcs.drop hlt.le
  · rw [List.drop_eq_nil_of_le hge]
    trivial

end Agrees

theorem Agrees.keepsCommits (h : Agrees kind (s.getBlocksSince T 0 0) bs)
    (hstore : verifyChain kind (s.getBlocksSince T 0 0) = .ok ()) (hT : ∀ b ∈ bs, b.threadId = T)
    (hchain : verifyChain kind bs = .ok ()) : KeepsCommits kind T s (bs.foldl saveBlock s) := by
  obtain ⟨hcsne, hcs, hcshash⟩ := verifyChain_eq_ok.mp hstore
  obtain ⟨hbsne, hbs, -⟩ := verifyChain_eq_ok.mp hchain
  constructor
  · intro x c hc
    by_cases hfree : ∀ b ∈ bs, b.height ≠ x
    · exact ⟨c, (getBlock_foldl_saveBlock hbs hT).mpr (.inr ⟨hfree, hc⟩), rfl⟩
    · -- Both chains have a block at the height.
      push Not at hfree
      obtain ⟨b, hb, rfl⟩ := hfree
      obtain ⟨i, hi⟩ := List.getElem?_of_mem hb
      have hheight : b.height = 1 + i := hbs.height_getElem? hi
      have hsame : c.height = b.height := height_of_getBlock hc
      have hmem : c ∈ s.getBlocksSince T 0 0 := by
        refine ((s.committedAbove_getBlocksSince T 0).2 c).mpr ⟨by omega, ?_⟩
        rwa [hsame]
      obtain ⟨hpos, hhash⟩ := h.shared i b c hi (hcs.getElem?_of_mem hmem (hsame.trans hheight))
      have hseen : b ∈ visible bs := mem_visible.mpr ⟨hb, hpos⟩
      exact ⟨stored b, (getBlock_foldl_saveBlock hbs hT).mpr (.inl ⟨b, hseen, rfl, rfl⟩), hhash⟩
  · rw [getBlocksSince_foldl_saveBlock hcs hbs hT]
    refine verifyChain_eq_ok.mpr ⟨?_, h.linked hcs hbs, ?_⟩
    · obtain ⟨b, bs, rfl⟩ := List.exists_cons_of_ne_nil hbsne
      obtain ⟨c, cs, hcons⟩ := List.exists_cons_of_ne_nil hcsne
      have hpos := (h.shared 0 b c rfl (by rw [hcons]; rfl)).1
      have hb : b ∈ visible (b :: bs) := mem_visible.mpr ⟨List.mem_cons_self, hpos⟩
      exact List.append_ne_nil_of_left_ne_nil (List.ne_nil_of_mem (List.mem_map_of_mem hb)) _
    · intro c hc
      rcases List.mem_append.mp hc with hc | hc
      · obtain ⟨b, hb, rfl⟩ := List.mem_map.mp hc
        obtain ⟨hb, hpos⟩ := mem_visible.mp hb
        exact h.readable b hb hpos
      · exact hcshash c (List.mem_of_mem_drop hc)

/-! ## An import that keeps what has been committed -/

/-- If the committed blocks of a chain are a chain, they come before the others. -/
theorem pairwise_of_linked_visible (hbs : blockLinks.Linked 1 "" bs) (hvisible : blockLinks.Linked 1 "" (visible bs)) :
    bs.Pairwise fun a b => 0 < b.committedAt → 0 < a.committedAt := by
  refine List.pairwise_iff_getElem.mpr fun i j hi hj hlt hpos => ?_
  have hjheight : (bs[j]).height = 1 + j := hbs.height_getElem? (List.getElem?_eq_getElem hj)
  have hjle := (hvisible.height_mem (mem_visible.mpr ⟨List.getElem_mem hj, hpos⟩)).2
  change (bs[j]).height < _ at hjle
  -- The block at place `i` among the committed ones has the height of the one at place `i` of the chain.
  have hiv : i < (visible bs).length := by omega
  have hiheight : ((visible bs)[i]).height = 1 + i := hvisible.height_getElem? (List.getElem?_eq_getElem hiv)
  obtain ⟨hmem, hipos⟩ := mem_visible.mp (List.getElem_mem hiv)
  have hsame := hbs.getElem?_of_mem hmem hiheight
  rw [List.getElem?_eq_getElem hi, Option.some_inj] at hsame
  rwa [hsame]

theorem KeepsCommits.agrees (h : KeepsCommits kind T s (bs.foldl saveBlock s))
    (hcs : blockLinks.Linked 1 "" (s.getBlocksSince T 0 0)) (hT : ∀ b ∈ bs, b.threadId = T)
    (hbs : blockLinks.Linked 1 "" bs) : Agrees kind (s.getBlocksSince T 0 0) bs := by
  have hverifies := h.verifies
  rw [getBlocksSince_foldl_saveBlock hcs hbs hT] at hverifies
  obtain ⟨-, hlinked, hhash⟩ := verifyChain_eq_ok.mp hverifies
  refine ⟨fun i b c hb hc => ?_, ?_, fun b hb hpos => ?_⟩
  · have hbheight : b.height = 1 + i := hbs.height_getElem? hb
    have hcheight : c.height = 1 + i := hcs.height_getElem? hc
    have hget := (((s.committedAbove_getBlocksSince T 0).2 c).mp (List.mem_of_getElem? hc)).2
    obtain ⟨b', hget', hhash'⟩ := h.hashes _ c hget
    rcases (getBlock_foldl_saveBlock hbs hT).mp hget' with ⟨a, ha, haheight, rfl⟩ | ⟨hfree, -⟩
    · obtain ⟨hmem, hpos⟩ := mem_visible.mp ha
      have hsame := hbs.getElem?_of_mem hmem (haheight.trans hcheight)
      obtain rfl := Option.some_inj.mp (hb.symm.trans hsame)
      exact ⟨hpos, hhash'⟩
    · exact absurd (hbheight.trans hcheight.symm) (hfree b (List.mem_of_getElem? hb))
  · exact pairwise_of_linked_visible hbs (linked_map_stored.mp (Links.linked_append.mp hlinked).1)
  · exact hhash _ (List.mem_append_left _ (List.mem_map_of_mem (mem_visible.mpr ⟨hb, hpos⟩)))

/-- **When an import keeps what has been committed**: an import of a verified chain over a verified chain keeps the
hashes of the committed heights and leaves a chain that verifies exactly if the descriptor is
refused or the two chains agree. -/
theorem keepsCommits_import_iff (kind : BackendKind) (t : Thread)
    (hstore : verifyChain kind (s.getBlocksSince T 0 0) = .ok ()) (hT : ∀ b ∈ bs, b.threadId = T)
    (hchain : verifyChain kind bs = .ok ()) :
    KeepsCommits kind T s ((s.importHistory t bs).getD s) ↔
      t.id = "" ∨ Agrees kind (s.getBlocksSince T 0 0) bs := by
  by_cases hid : t.id = ""
  · have hrefused : s.importHistory t bs = none := if_pos hid
    rw [hrefused]
    exact iff_of_true ⟨fun h b hb => ⟨b, hb, rfl⟩, hstore⟩ (.inl hid)
  · have hdone : s.importHistory t bs = some (bs.foldl saveBlock (s.saveThread t)) := if_neg hid
    rw [hdone, or_iff_right hid]
    -- The descriptor is written to another table, which is why the blocks of the two stores are the same.
    constructor
    · intro h
      have h' : KeepsCommits kind T (s.saveThread t) (bs.foldl saveBlock (s.saveThread t)) := ⟨h.hashes, h.verifies⟩
      exact h'.agrees (verifyChain_eq_ok.mp hstore).2.1 hT (verifyChain_eq_ok.mp hchain).2.1
    · intro h
      have h' : KeepsCommits kind T (s.saveThread t) (bs.foldl saveBlock (s.saveThread t)) :=
        Agrees.keepsCommits h hstore hT hchain
      exact ⟨h'.hashes, h'.verifies⟩

/-! ## A longer chain and one that diverges -/

namespace Overlay

/-- A block with the text of a message, on top of another one. -/
def block (height : Int) (parentHash : String) (payload : List UInt8) : ThreadBlock :=
  let b : ThreadBlock :=
    { threadId := "t", height, round := 1, parentHash, entries := [{ plainEntry with payload }],
      proposerDid := "did:key:a", proposerSig := "", blockHash := "", committedAt := 1 }
  { b with blockHash := raftBlockHash b }

/-- The first block of the thread. -/
def first : ThreadBlock := block 1 "" [104, 105]

/-- The block on top of it. -/
def second : ThreadBlock := block 2 first.blockHash [104, 111]

/-- Another first block. -/
def other : ThreadBlock := block 1 "" [110, 111]

/-- The descriptor of the thread. -/
def thread : Thread :=
  { id := "t", creatorDid := "did:key:a", replicaDids := [], n := 1, f := 0, epochMs := 0, createdAt := 0,
    metadata := [] }

/-- A replica with some blocks. -/
def replica (bs : List ThreadBlock) : Store := bs.foldl saveBlock .empty

/-- The replica after an import. -/
def imported (old new : List ThreadBlock) : Store := ((replica old).importHistory thread new).getD (replica old)

theorem first_ne_other : first.blockHash ≠ other.blockHash := by decide +kernel

theorem verifyChain_first : verifyChain .raft [first] = .ok () :=
  verifyChain_eq_ok.mpr ⟨List.cons_ne_nil _ _, ⟨rfl, rfl, trivial⟩, List.forall_mem_singleton.mpr rfl⟩

theorem verifyChain_other : verifyChain .raft [other] = .ok () :=
  verifyChain_eq_ok.mpr ⟨List.cons_ne_nil _ _, ⟨rfl, rfl, trivial⟩, List.forall_mem_singleton.mpr rfl⟩

theorem verifyChain_second : verifyChain .raft [first, second] = .ok () := by
  refine verifyChain_eq_ok.mpr ⟨List.cons_ne_nil _ _, ⟨rfl, rfl, rfl, rfl, trivial⟩, ?_⟩
  exact List.forall_mem_cons.mpr ⟨rfl, List.forall_mem_singleton.mpr rfl⟩

theorem read_first : (replica [first]).getBlocksSince "t" 0 0 = [first] := rfl

theorem read_second : (replica [first, second]).getBlocksSince "t" 0 0 = [first, second] := rfl

/-- A longer chain with the same blocks keeps what has been committed. -/
theorem keepsCommits_import_longer : verifyChain .raft ((replica [first]).getBlocksSince "t" 0 0) = .ok () ∧
    verifyChain .raft [first, second] = .ok () ∧
    KeepsCommits .raft "t" (replica [first]) (imported [first] [first, second]) := by
  have hstore : verifyChain .raft ((replica [first]).getBlocksSince "t" 0 0) = .ok () := by
    rw [read_first]
    exact verifyChain_first
  have hagrees : Agrees .raft ((replica [first]).getBlocksSince "t" 0 0) [first, second] := by
    rw [read_first]
    refine ⟨fun i b c hb hc => ?_, by decide, ?_⟩
    · obtain ⟨rfl, rfl⟩ : i = 0 ∧ first = c := by cases i <;> simp_all
      obtain rfl := Option.some_inj.mp hb
      exact ⟨by decide, rfl⟩
    · exact List.forall_mem_cons.mpr ⟨fun _ => rfl, List.forall_mem_singleton.mpr fun _ => rfl⟩
  exact ⟨hstore, verifyChain_second,
    (keepsCommits_import_iff .raft thread hstore (by decide) verifyChain_second).mpr (.inr hagrees)⟩

/-- **Committed blocks are rewritten**: a shorter chain with another first block is imported over two blocks.  The
first height has another hash then, and the chain of the replica does not verify. -/
theorem commits_rewritten : verifyChain .raft ((replica [first, second]).getBlocksSince "t" 0 0) = .ok () ∧
    verifyChain .raft [other] = .ok () ∧ (∀ b ∈ [other], b.threadId = "t") ∧
    (replica [first, second]).getBlock "t" 1 = some first ∧
    (imported [first, second] [other]).getBlock "t" 1 = some other ∧ first.blockHash ≠ other.blockHash ∧
    verifyChain .raft ((imported [first, second] [other]).getBlocksSince "t" 0 0) ≠ .ok () ∧
    ¬ KeepsCommits .raft "t" (replica [first, second]) (imported [first, second] [other]) := by
  have hread : (imported [first, second] [other]).getBlocksSince "t" 0 0 = [other, second] := rfl
  have hbroken : verifyChain .raft ((imported [first, second] [other]).getBlocksSince "t" 0 0) ≠ .ok () := by
    rw [hread]
    intro h
    -- The second block names the first one that was there before.
    have hparent : first.blockHash = other.blockHash := (verifyChain_eq_ok.mp h).2.1.2.2.2.1
    exact first_ne_other hparent
  refine ⟨?_, verifyChain_other, by decide, ?_, ?_, first_ne_other, hbroken, fun h => hbroken h.verifies⟩
  · rw [read_second]
    exact verifyChain_second
  · rfl
  · rfl

end Overlay

end Store

end MoltMesh
