import MoltMesh.Raft.Calls

/-!
# The chain of a log

Every committed entry that carries thread entries makes one block over the chain so
far.  `chainOf` is the chain a log makes, up to the time at which its blocks are
committed, and `Image` says that a store holds it.  An entry that is applied without
failures takes the image of a log to the image of the log with that entry
(`Image.entry`).
-/

namespace MoltMesh.Raft

open MoltMesh.Lib Pb Raftpb

variable {N : Node} {env : Env} {e e' : Backend} {bs : List ThreadBlock} {δ : List Effect}
  {T : String} {log : List Entry}

/-- A block without its time. -/
def undated (b : ThreadBlock) : ThreadBlock := { b with committedAt := 0 }

/-- The block an entry makes over a chain. -/
def nextBlock (N : Node) (T : String) (bs : List ThreadBlock) (entry : Entry) (now : Int) :
    Option ThreadBlock :=
  (blockOf N entry).map fun x =>
    fillBlock T entry.term x.1 x.2.2 now (bs.length + 1) (blockLinks.tip "" bs)

/-- The chain of a log, without times. -/
def chainOf (N : Node) (T : String) (log : List Entry) : List ThreadBlock :=
  log.foldl (fun bs entry => bs ++ (nextBlock N T bs entry 0).toList) []

@[simp] theorem chainOf_nil (N : Node) (T : String) : chainOf N T [] = [] := rfl

theorem chainOf_concat (N : Node) (T : String) (log : List Entry) (entry : Entry) :
    chainOf N T (log ++ [entry]) =
      chainOf N T log ++ (nextBlock N T (chainOf N T log) entry 0).toList := by
  rw [chainOf, List.foldl_append]
  rfl

/-- Every entry that makes a block has it in the chain. -/
theorem exists_mem_chainOf {entry : Entry}
    (hmem : entry ∈ log) {l : List ThreadEntry} {ids : List Int} {did : String}
    (hblock : blockOf N entry = some (l, ids, did)) : ∃ b ∈ chainOf N T log, b.entries = l := by
  induction log using List.reverseRecOn with
  | nil => exact absurd hmem List.not_mem_nil
  | append_singleton log last ih =>
    rw [chainOf_concat]
    rcases List.mem_append.mp hmem with hmem | hmem
    · obtain ⟨b, hb, hl⟩ := ih hmem
      exact ⟨b, List.mem_append_left _ hb, hl⟩
    · obtain rfl := List.mem_singleton.mp hmem
      rw [nextBlock, hblock]
      exact ⟨_, List.mem_append_right _ (List.mem_singleton_self _), rfl⟩

theorem tip_map_undated (bs : List ThreadBlock) :
    blockLinks.tip "" (bs.map undated) = blockLinks.tip "" bs := by
  refine Links.tip_congr ?_
  rw [List.map_map]
  rfl

theorem map_undated_nextBlock (N : Node) (T : String) (bs : List ThreadBlock) (entry : Entry)
    (now : Int) : (nextBlock N T bs entry now).map undated =
      nextBlock N T (bs.map undated) entry 0 := by
  rw [nextBlock, nextBlock, Option.map_map, tip_map_undated, List.length_map]
  rfl

theorem chain_sameLog {s s' : Store} (hs : SameLog s s') (hc : s.Chain T bs) : s'.Chain T bs := by
  refine hc.congr ?_
  rw [Store.blockRows, Store.blockRows, hs.blocks]

/-- An entry adds the block it makes to a stored chain, or it is skipped because it does not make
one or the transaction fails. -/
theorem EntryTrail.chain {entry : Entry} (h : EntryTrail N env e entry e' δ)
    (hc : e.store.Chain e.thread.id bs) :
    (e'.store.Chain e.thread.id bs ∧ ∀ l ids did, blockOf N entry = some (l, ids, did) →
      ∃ b, env.fails e.trace.length (.appendBlock ids b) = true) ∨
    ∃ b, nextBlock N e.thread.id bs entry (env.now e.trace.length) = some b ∧
      e'.store.Chain e.thread.id (bs ++ [b]) := by
  have happend (l : List ThreadEntry) (ids : List Int) (did : String) := hc.append ids
    (fillBlock e.thread.id entry.term l did (env.now e.trace.length))
    (fun _ _ => rfl) (fun _ _ => rfl) (fun _ _ => rfl) fun _ _ => env.now_pos _
  cases h with
  | skip hδ hno =>
    refine .inl ⟨chain_sameLog hδ.sameLog hc, fun l ids did hb => ?_⟩
    obtain ⟨s', happ, -⟩ := happend l ids did
    exact ⟨_, hno l ids did hb _ s' happ⟩
  | @commit l ids did b s' e₁ δ hblock happ hw hs hmem e₂ hδ he =>
    obtain ⟨s'', happ', hc'⟩ := happend l ids did
    obtain ⟨rfl, rfl⟩ := Prod.mk.inj (Option.some.inj (happ.symm.trans happ'))
    refine .inr ⟨_, by rw [nextBlock, hblock]; rfl, ?_⟩
    rw [he]
    exact chain_sameLog (hs ▸ hδ.sameLog) hc'

/-! ## Images -/

/-- A store holds the chain of a log. -/
def Image (N : Node) (T : String) (log : List Entry) (s : Store) : Prop :=
  ∃ bs, s.Chain T bs ∧ bs.map undated = chainOf N T log

theorem image_nil {s : Store} (h : s.blockRows T = []) : Image N T [] s :=
  ⟨[], Store.chain_nil h, rfl⟩

theorem Image.congr {s s' : Store} (hi : Image N T log s)
    (hs : s'.blocks = s.blocks) : Image N T log s' := by
  obtain ⟨bs, hc, himg⟩ := hi
  refine ⟨bs, hc.congr ?_, himg⟩
  rw [Store.blockRows, Store.blockRows, hs]

/-- An entry that is applied without failure adds the block it makes to the chain. -/
theorem applyEntry_chain {cs : List ThreadBlock} (hc : e.store.Chain e.thread.id cs) (entry : Entry)
    (hok : ∀ k ids b, env.fails k (.appendBlock ids b) = false) :
    ∃ cs', (applyEntry N env e entry).store.Chain e.thread.id cs' ∧ cs'.map undated =
      cs.map undated ++ (nextBlock N e.thread.id (cs.map undated) entry 0).toList := by
  obtain ⟨δ, hδ⟩ := applyEntry_trail N env e entry
  have hnext := map_undated_nextBlock N e.thread.id cs entry (env.now e.trace.length)
  rw [← hnext]
  rcases hδ.chain hc with ⟨hc', hskip⟩ | ⟨b, hb, hc'⟩
  · refine ⟨cs, hc', ?_⟩
    have hnone : blockOf N entry = none := by
      cases hb : blockOf N entry with
      | none => rfl
      | some x =>
        obtain ⟨b, hfail⟩ := hskip x.1 x.2.1 x.2.2 hb
        rw [hok] at hfail
        cases hfail
    rw [nextBlock, hnone]
    exact (List.append_nil _).symm
  · refine ⟨_, hc', ?_⟩
    rw [hb, List.map_append]
    rfl

/-- **An entry that is applied without failure extends the image.** -/
theorem Image.entry (hi : Image N e.thread.id log e.store) (entry : Entry)
    (hok : ∀ k ids b, env.fails k (.appendBlock ids b) = false) :
    Image N e.thread.id (log ++ [entry]) (applyEntry N env e entry).store := by
  obtain ⟨bs, hc, himg⟩ := hi
  obtain ⟨bs', hc', hbs'⟩ := applyEntry_chain (N := N) hc entry hok
  refine ⟨bs', hc', ?_⟩
  rw [hbs', himg, chainOf_concat]

theorem applyEntry_threadId (N : Node) (env : Env) (e : Backend) (entry : Entry) :
    (applyEntry N env e entry).thread.id = e.thread.id := by
  obtain ⟨δ, hδ⟩ := applyEntry_trail N env e entry
  exact hδ.logged.threadId

theorem Image.batch (hi : Image N e.thread.id log e.store)
    (entries : List Entry) (hok : ∀ k ids b, env.fails k (.appendBlock ids b) = false) :
    Image N e.thread.id (log ++ entries) (entries.foldl (applyEntry N env) e).store := by
  induction entries generalizing e log with
  | nil =>
    rw [List.append_nil]
    exact hi
  | cons entry entries ih =>
    have hid := applyEntry_threadId N env e entry
    have hnext : Image N (applyEntry N env e entry).thread.id (log ++ [entry])
        (applyEntry N env e entry).store := hid ▸ hi.entry entry hok
    have h := ih hnext
    rw [hid, List.append_assoc] at h
    exact h

end MoltMesh.Raft
