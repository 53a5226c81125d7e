import Mathlib.Logic.Relation
import MoltMesh.Pending
import MoltMesh.Raft.Calls

/-!
# Acknowledgements

A replica deletes a pending row when it applies a proposal of its own that names the
row.  Proposals travel through other replicas and come back late, more than once and
after restarts; what they name is still the row they were made from, because ids are
never used again (`acks_hit_their_rows`).
-/

namespace MoltMesh.Raft

open MoltMesh.Lib Pb Raftpb

variable {N : Node} {env : Env} {e e' : Backend} {T : String} {s : Store} {δ δ' : List Effect}
  {own : List RaftProposal} {a : Effect} {r : PendingRow}

/-! ## Effects that keep the books -/

/-- The proposals of a trace. -/
def proposals (δ : List Effect) : List RaftProposal :=
  δ.filterMap fun | .propose p => some p | _ => none

theorem proposals_append (δ δ' : List Effect) : proposals (δ ++ δ') = proposals δ ++ proposals δ' :=
  List.filterMap_append

/-- Each id of a proposal has been handed out, and its row holds an entry of the proposal as long as
it is there. -/
def Names (s : Store) (p : RaftProposal) : Prop :=
  ∀ i ∈ p.pendingIDs, i ≤ s.pendingSeq ∧ ∀ r ∈ s.pending.rows, r.id = i → r.payload ∈ p.entries

/-- The books of a replica with the proposals it has made. -/
structure Books (own : List RaftProposal) (s : Store) : Prop where
  id_le : ∀ r ∈ s.pending.rows, r.id ≤ s.pendingSeq
  names : ∀ p ∈ own, Names s p

/-- An effect that keeps the books: what is proposed names its rows, and what is acknowledged is
from a proposal the replica has made and is in the block. -/
def Effect.Sincere (own : List RaftProposal) (s : Store) : Effect → Prop
  | .write (.appendBlock ids b) => ∀ i ∈ ids, ∃ p ∈ own, i ∈ p.pendingIDs ∧ b.entries = p.entries
  | .propose p => Names s p
  | _ => True

/-- All effects of a trace keep the books. -/
def Sincere (T : String) : List RaftProposal → Store → List Effect → Prop
  | _, _, [] => True
  | own, s, a :: δ => a.Sincere own s ∧ Sincere T (own ++ proposals [a]) (a.apply T s) δ

theorem sincere_append : Sincere T own s (δ ++ δ') ↔
    Sincere T own s δ ∧ Sincere T (own ++ proposals δ) (replay T s δ) δ' := by
  induction δ generalizing own s with
  | nil =>
    rw [List.nil_append, show proposals [] = [] from rfl, List.append_nil]
    exact (iff_of_eq (true_and _)).symm
  | cons a δ ih =>
    have hp : own ++ proposals (a :: δ) = (own ++ proposals [a]) ++ proposals δ := by
      rw [List.append_assoc, ← proposals_append]
      rfl
    rw [hp]
    exact (and_congr_right fun _ => ih).trans and_assoc.symm

/-- An effect that neither proposes nor stores a block of the log. -/
def Effect.isSober : Effect → Bool
  | .write (.appendBlock _ _) => false
  | .propose _ => false
  | _ => true

theorem sincere_of_isSober (own : List RaftProposal) (s : Store)
    (ha : a.isSober = true) : a.Sincere own s ∧ proposals [a] = [] := by
  cases a with
  | write w => cases w <;> first | exact ⟨trivial, rfl⟩ | cases ha
  | propose p => cases ha
  | _ => exact ⟨trivial, rfl⟩

theorem sincere_of_sober (T : String) (own : List RaftProposal) (s : Store)
    (h : ∀ a ∈ δ, a.isSober = true) : Sincere T own s δ ∧ proposals δ = [] := by
  induction δ generalizing own s with
  | nil => exact ⟨trivial, rfl⟩
  | cons a δ ih =>
    obtain ⟨ha, hp⟩ := sincere_of_isSober own s (h a List.mem_cons_self)
    have hrest := ih (own ++ proposals [a]) (a.apply T s)
      fun b hb => h b (List.mem_cons_of_mem _ hb)
    refine ⟨⟨ha, hrest.1⟩, ?_⟩
    rw [show a :: δ = [a] ++ δ from rfl, proposals_append, hp, hrest.2]
    rfl

theorem Effect.isSober_of_isQuiet (ha : a.isQuiet = true) : a.isSober = true := by
  cases a with
  | write w => cases w <;> first | rfl | cases ha
  | propose p => cases ha
  | _ => rfl

/-! ## Rows -/

/-- The transaction that stores a block is rolled back, or stores it and deletes the rows. -/
theorem apply_appendBlock (T : String) (s : Store) (ids : List Int) (b : ThreadBlock) :
    (Effect.write (.appendBlock ids b)).apply T s = s ∨ ∃ blocks : Table BlockRow _,
      .ofBlock b ∈ blocks.rows ∧
        (Effect.write (.appendBlock ids b)).apply T s = Store.ackPending { s with blocks } ids := by
  change Option.getD (Option.map Prod.snd (s.appendBlockAndAckPending T ids fun _ _ => b)) s = s ∨
    ∃ blocks : Table BlockRow _, .ofBlock b ∈ blocks.rows ∧
      Option.getD (Option.map Prod.snd (s.appendBlockAndAckPending T ids fun _ _ => b)) s = _
  rw [Store.appendBlockAndAckPending_eq]
  cases hins : s.blocks.insert (.ofBlock b) with
  | none => exact .inl rfl
  | some blocks =>
    refine .inr ⟨blocks, ?_, rfl⟩
    rw [Table.rows_of_insert hins]
    exact List.mem_append_right _ (List.mem_singleton_self _)

/-- The transaction that stores a block is the only one that deletes rows. -/
theorem mem_pending_apply (hid : ∀ r ∈ s.pending.rows, r.id ≤ s.pendingSeq)
    (hr : r ∈ s.pending.rows) :
    r ∈ (a.apply T s).pending.rows ∨ ∃ ids b, a = .write (.appendBlock ids b) ∧ r.id ∈ ids ∧
      .ofBlock b ∈ (a.apply T s).blocks.rows := by
  cases a with
  | write w =>
    cases w with
    | appendBlock ids b =>
      rcases apply_appendBlock T s ids b with hsame | ⟨blocks, hstored, hs⟩
      · rw [hsame]
        exact .inl hr
      · rw [hs]
        by_cases hmem : r.id ∈ ids
        · refine .inr ⟨ids, b, rfl, hmem, ?_⟩
          rw [Store.blocks_ackPending]
          exact hstored
        · exact .inl (Store.mem_pending_ackPending.mpr ⟨hr, hmem⟩)
    | enqueueEntry entry now =>
      refine .inl (Table.mem_insertOrReplace.mpr (.inl ⟨hr, ?_⟩))
      have hle := hid r hr
      change r.id ≠ s.pendingSeq + 1
      omega
    | releasePendingClaimIDs ids =>
      left
      change r ∈ (s.releasePendingClaimIDs ids).pending.rows
      rw [Store.pending_releasePendingClaimIDs.1]
      exact hr
    | _ => exact .inl hr
  | _ => exact .inl hr

/-- Rows come from the call that enqueues them, with an id that has not been used. -/
theorem mem_pending_of_apply (hr : r ∈ (a.apply T s).pending.rows) :
    r ∈ s.pending.rows ∨ s.pendingSeq < r.id ∧ r.id ≤ (a.apply T s).pendingSeq := by
  cases a with
  | write w =>
    cases w with
    | appendBlock ids b =>
      left
      rcases apply_appendBlock T s ids b with hsame | ⟨blocks, -, hs⟩
      · rw [hsame] at hr
        exact hr
      · rw [hs] at hr
        exact (Store.mem_pending_ackPending.mp hr).1
    | enqueueEntry entry now =>
      rcases Table.mem_insertOrReplace.mp hr with hr | rfl
      · exact .inl hr.1
      · exact .inr ⟨Int.lt_succ _, Int.le_refl _⟩
    | releasePendingClaimIDs ids =>
      change r ∈ (s.releasePendingClaimIDs ids).pending.rows at hr
      rw [Store.pending_releasePendingClaimIDs.1] at hr
      exact .inl hr
    | _ => exact .inl hr
  | _ => exact .inl hr

theorem pendingSeq_le_apply (a : Effect) : s.pendingSeq ≤ (a.apply T s).pendingSeq := by
  cases a with
  | write w =>
    cases w with
    | appendBlock ids b =>
      rcases apply_appendBlock T s ids b with hsame | ⟨blocks, -, hs⟩
      · rw [hsame]
      · rw [hs, Store.pendingSeq_ackPending]
    | enqueueEntry entry now => exact Int.le_of_lt (Int.lt_succ _)
    | releasePendingClaimIDs ids =>
      exact Int.le_of_eq Store.pending_releasePendingClaimIDs.2.symm
    | _ => exact Int.le_refl _
  | _ => exact Int.le_refl _

/-- What a proposal names stays right. -/
theorem Names.apply {p : RaftProposal} (h : Names s p) (a : Effect) : Names (a.apply T s) p := by
  intro i hi
  obtain ⟨hle, hrow⟩ := h i hi
  refine ⟨Int.le_trans hle (pendingSeq_le_apply a), fun r hr hid => ?_⟩
  rcases mem_pending_of_apply hr with hr | ⟨hnew, -⟩
  · exact hrow r hr hid
  · exact absurd (hid ▸ hle) (Int.not_le_of_gt hnew)

theorem Books.apply (h : Books own s) (ha : a.Sincere own s) :
    Books (own ++ proposals [a]) (a.apply T s) := by
  constructor
  · intro r hr
    rcases mem_pending_of_apply hr with hr | ⟨-, hle⟩
    · exact Int.le_trans (h.id_le r hr) (pendingSeq_le_apply a)
    · exact hle
  · intro p hp
    rcases List.mem_append.mp hp with hp | hp
    · exact (h.names p hp).apply a
    · cases a with
      | propose q =>
        obtain rfl := List.mem_singleton.mp hp
        exact Names.apply ha (.propose p)
      | _ => exact absurd hp List.not_mem_nil

theorem Books.replay (h : Books own s) (hδ : Sincere T own s δ) :
    Books (own ++ proposals δ) (replay T s δ) := by
  induction δ generalizing own s with
  | nil =>
    rw [show proposals [] = [] from rfl, List.append_nil]
    exact h
  | cons a δ ih =>
    have hrest := ih (h.apply hδ.1) hδ.2
    rw [List.append_assoc, ← proposals_append] at hrest
    exact hrest

/-- A row that a sincere effect deletes is in the block that is stored with it. -/
theorem Books.deleted (h : Books own s) (ha : a.Sincere own s)
    (hr : r ∈ s.pending.rows) (hgone : r ∉ (a.apply T s).pending.rows) :
    ∃ ids b, a = .write (.appendBlock ids b) ∧ r.payload ∈ b.entries ∧
      .ofBlock b ∈ (a.apply T s).blocks.rows := by
  rcases mem_pending_apply (T := T) (a := a) h.id_le hr with hstay | ⟨ids, b, rfl, hid, hstored⟩
  · exact absurd hstay hgone
  · obtain ⟨p, hp, hmem, hentries⟩ := ha r.id hid
    refine ⟨ids, b, rfl, ?_, hstored⟩
    rw [hentries]
    exact (h.names p hp r.id hmem).2 r hr rfl

/-! ## Steps -/

/-- What a replica acknowledges when it applies an entry is from a proposal of its own. -/
def Owned (N : Node) (own : List RaftProposal) (entry : Entry) : Prop :=
  ∀ p, entry.data = .proposal p → ownerOf N p = N.id.did → p ∈ own

theorem EntryTrail.sincere {entry : Entry} (h : EntryTrail N env e entry e' δ)
    (hown : Owned N own entry) : Sincere e.thread.id own e.store δ ∧ proposals δ = [] := by
  cases h with
  | skip hδ hno => exact sincere_of_sober _ _ _ fun a ha => Effect.isSober_of_isQuiet (hδ.quiet a ha)
  | @commit l ids did b s' e₁ δ hblock happ hw hs hmem e₂ hδ he =>
    have hhead : (Effect.write (.appendBlock ids b)).Sincere own e.store := by
      intro i hi
      have hentries : b.entries = l := by
        rw [Store.appendBlockAndAckPending_eq] at happ
        obtain ⟨blocks, -, heq⟩ := Option.map_eq_some_iff.mp happ
        rw [← (Prod.mk.inj heq).1]
        rfl
      rcases entry with ⟨term, index, data⟩
      cases data with
      | proposal p =>
        obtain ⟨rfl, hids, -⟩ : p.entries = l ∧
            (if ownerOf N p ≠ N.id.did then [] else p.pendingIDs) = ids ∧ ownerOf N p = did := by
          simpa [blockOf] using hblock
        split at hids
        · rw [← hids] at hi
          exact absurd hi List.not_mem_nil
        · rename_i howner
          exact ⟨p, hown p rfl (not_not.mp howner), hids.symm ▸ hi, hentries⟩
      | entries l' =>
        have hids : [] = ids := congrArg (·.2.1) (Option.some.inj hblock)
        rw [← hids] at hi
        exact absurd hi List.not_mem_nil
      | empty => cases hblock
      | malformed => cases hblock
      | confChange cc => cases hblock
      | confChangeV2 ccs context => cases hblock
    have hsober : ∀ a ∈ δ ++ [.broadcast (.committedBlock b), .commit b],
        Effect.isSober a = true := by
      intro a ha
      rcases List.mem_append.mp ha with ha | ha
      · exact Effect.isSober_of_isQuiet (hδ.quiet a ha)
      · rcases List.mem_pair.mp ha with rfl | rfl <;> rfl
    exact ⟨⟨hhead, (sincere_of_sober _ _ _ hsober).1⟩, (sincere_of_sober e.thread.id own e.store hsober).2⟩

theorem applyAll_sincere (env : Env) {entries : List Entry} (hown : ∀ entry ∈ entries, Owned N own entry) :
    ∃ δ, Logged e (entries.foldl (applyEntry N env) e) δ ∧ Sincere e.thread.id own e.store δ ∧
      proposals δ = [] := by
  induction entries generalizing e with
  | nil => exact ⟨[], .refl e, trivial, rfl⟩
  | cons entry entries ih =>
    obtain ⟨δ, hδ⟩ := applyEntry_trail N env e entry
    obtain ⟨hsincere, hnone⟩ := hδ.sincere (hown entry List.mem_cons_self)
    obtain ⟨δ', hlog', hsincere', hnone'⟩ := ih (e := applyEntry N env e entry)
      fun x hx => hown x (List.mem_cons_of_mem _ hx)
    refine ⟨δ ++ δ', hδ.logged.trans hlog', sincere_append.mpr ⟨hsincere, ?_⟩, ?_⟩
    · rw [hnone, List.append_nil, ← hδ.logged.store, ← hδ.logged.threadId]
      exact hsincere'
    · rw [proposals_append, hnone, hnone']
      rfl

/-- Proposals name the rows they were claimed with. -/
theorem ProposeTrail.sincere (own : List RaftProposal) (h : ProposeTrail N e δ)
    (hid : ∀ r ∈ e.store.pending.rows, r.id ≤ e.store.pendingSeq) :
    Sincere e.thread.id own e.store δ ∧ ∀ p ∈ proposals δ, p.ownerDID = N.id.did := by
  have hnone {p : RaftProposal} {P : Prop} (hp : p ∈ ([] : List RaftProposal)) : P :=
    absurd hp List.not_mem_nil
  cases h with
  | idle => exact ⟨trivial, fun _ => hnone⟩
  | failed w => exact ⟨⟨trivial, trivial⟩, fun _ => hnone⟩
  | released hclaim hrel =>
    rcases hrel with rfl | rfl <;> exact ⟨⟨trivial, trivial, trivial⟩, fun _ => hnone⟩
  | @proposed ids entries s' hclaim =>
    refine ⟨⟨trivial, ?_, trivial⟩, fun p hp => by rw [List.mem_singleton.mp hp]⟩
    rw [Store.claimPendingEntries_eq] at hclaim
    obtain ⟨rfl, hrest⟩ := Prod.mk.inj hclaim
    obtain ⟨rfl, -⟩ := Prod.mk.inj hrest
    intro i hi
    obtain ⟨r, hr, rfl⟩ := List.mem_map.mp hi
    have hmem := (Store.mem_claimable hr).1
    refine ⟨hid r hmem, fun r' hr' heq => ?_⟩
    obtain rfl : r' = r := Table.eq_of_key_eq hr' hmem heq
    exact List.mem_map_of_mem hr

theorem isSober_readyWrites (rd : Ready) (hquiet : ∀ a ∈ δ, a.isQuiet = true) :
    ∀ a ∈ readyWrites rd ++ δ, a.isSober = true := by
  intro a ha
  rcases List.mem_append.mp ha with h | h
  · unfold readyWrites at h
    rcases List.mem_cons.mp h with rfl | h
    · rfl
    · split at h
      · exact absurd h List.not_mem_nil
      · rw [List.mem_singleton.mp h]
        rfl
  · exact Effect.isSober_of_isQuiet (hquiet a h)

theorem ReadyTrail.sincere {rd : Ready} {r : Except Stop Backend} (h : ReadyTrail N env e rd r)
    (hown : ∀ entry ∈ rd.committedEntries, Owned N own entry) :
    ∃ δ, Logged e (ended r) δ ∧ Sincere e.thread.id own e.store δ ∧ proposals δ = [] := by
  cases h with
  | unsaved hfail => exact ⟨_, logged_note rfl, ⟨trivial, trivial⟩, rfl⟩
  | halfSaved hsnap hfail hlog hmem => exact ⟨_, hlog, ⟨trivial, trivial, trivial⟩, rfl⟩
  | panicked hlog hquiet hfit =>
    exact ⟨_, hlog, sincere_of_sober _ _ _ (isSober_readyWrites rd hquiet)⟩
  | @applied e₁ δ hp =>
    obtain ⟨hsober, hnone⟩ := sincere_of_sober e.thread.id own e.store
      (isSober_readyWrites rd hp.quiet)
    obtain ⟨δ', hlog', hsincere', hnone'⟩ := applyAll_sincere env (e := e₁) hown
    refine ⟨_, hp.logged.trans hlog', sincere_append.mpr ⟨hsober, ?_⟩, ?_⟩
    · rw [hnone, List.append_nil, ← hp.logged.store, ← hp.logged.threadId]
      exact hsincere'
    · rw [proposals_append, hnone, hnone']
      rfl

theorem InboundTrail.sincere (own : List RaftProposal) {b : ThreadBlock}
    (h : InboundTrail env e b e' δ) :
    Sincere e.thread.id own e.store δ ∧ proposals δ = [] := by
  refine sincere_of_sober _ _ _ fun a ha => ?_
  cases h with
  | held hread hheld he => exact absurd ha List.not_mem_nil
  | failed w he =>
    rw [List.mem_singleton.mp ha]
    rfl
  | saved hfree hw hmem hδ he =>
    rcases List.mem_append.mp ha with ha | ha
    · rcases List.mem_cons.mp ha with rfl | ha
      · rfl
      · exact Effect.isSober_of_isQuiet (hδ.quiet a ha)
    · rw [List.mem_singleton.mp ha]
      rfl

/-- **Every call keeps the books**, and what it proposes is the replica's own. -/
theorem step_sincere (N : Node) (env : Env) {ev : Event} (hbooks : Books own e.store)
    (hown : ∀ rd, ev = .ready rd →
      ∀ entry ∈ (e.pendingReady.getD rd).committedEntries, Owned N own entry) :
    ∃ δ, Logged e (final (step N env e ev)) δ ∧ Sincere e.thread.id own e.store δ ∧
      ∀ p ∈ proposals δ, p.ownerDID = N.id.did := by
  have hnone {δ : List Effect} (h : proposals δ = []) : ∀ p ∈ proposals δ, p.ownerDID = N.id.did := by
    rw [h]
    exact fun p hp => absurd hp List.not_mem_nil
  have htrail := step_trail N env e ev
  generalize final (step N env e ev) = e' at htrail ⊢
  cases htrail with
  | @ready rd r hr _ he =>
    obtain ⟨p, rfl⟩ := he
    obtain ⟨δ, hlog, hδ, hempty⟩ := hr.sincere (hown rd rfl)
    exact ⟨δ, ⟨hlog.trace, hlog.store, hlog.threadId⟩, hδ, hnone hempty⟩
  | block hδ =>
    obtain ⟨hsober, hempty⟩ := hδ.sincere own
    exact ⟨_, hδ.logged, hsober, hnone hempty⟩
  | @propose _ e₁ _ δ δ' h₁ hmem₁ hlog hδ hmem hev =>
    obtain ⟨hsober, hempty⟩ := sincere_of_sober e.thread.id own e.store
      fun a ha => Effect.isSober_of_isQuiet (h₁.quiet a ha)
    obtain ⟨hsincere, howner⟩ := hδ.sincere own (by
      rw [h₁.sameLog.pending, h₁.sameLog.pendingSeq]
      exact hbooks.id_le)
    refine ⟨_, h₁.toLogged.trans hlog, sincere_append.mpr ⟨hsober, ?_⟩, ?_⟩
    · rw [hempty, List.append_nil, ← h₁.store, ← h₁.threadId]
      exact hsincere
    · rw [proposals_append, hempty, List.nil_append]
      exact howner
  | snapshot hδ =>
    refine ⟨_, hδ.logged, ?_⟩
    cases hδ with
    | idle he => exact ⟨trivial, hnone rfl⟩
    | failed w hcreate he => exact ⟨⟨trivial, trivial⟩, hnone rfl⟩
    | saved hpos hcreate hlog hstorage happlied hself hready =>
      exact ⟨⟨trivial, trivial⟩, hnone rfl⟩
  | side hδ hev hready =>
    obtain ⟨hsober, hempty⟩ := sincere_of_sober e.thread.id own e.store
      fun a ha => Effect.isSober_of_isQuiet (hδ.quiet a ha)
    exact ⟨_, hδ.toLogged, hsober, hnone hempty⟩
  | enqueue hmem hlog => exact ⟨_, hlog, ⟨trivial, trivial⟩, hnone rfl⟩

/-! ## Groups -/

/-- One replica over its lives: the database at the start of the current one, what it has proposed
in earlier ones, what it has done since, and the process if it runs. -/
structure Member where
  base : Store
  past : List RaftProposal
  trace : List Effect
  live : Option Backend

/-- The database. -/
def Member.store (T : String) (m : Member) : Store := replay T m.base m.trace

/-- All proposals a replica has made. -/
def Member.proposals (m : Member) : List RaftProposal := m.past ++ Raft.proposals m.trace

/-- The replicas of a thread. -/
structure Group (ι : Type) where
  node : ι → Node
  threadID : String

namespace Group

variable {ι : Type} (G : Group ι)

/-- What the log assures: a proposal that is handed over as committed has been made by some replica,
at some time.  It may be handed over in any order and more than once. -/
def Sourced (S : ι → Member) (e : Backend) (ev : Event) : Prop :=
  ∀ rd, ev = .ready rd → ∀ entry ∈ (e.pendingReady.getD rd).committedEntries,
    ∀ p, entry.data = .proposal p → ∃ j, p ∈ (S j).proposals

/-- What may happen to replica `i`. -/
inductive Move (S : ι → Member) (i : ι) : Member → Prop
  /-- A call. -/
  | act {env : Env} {ev : Event} {e : Backend} (hlive : (S i).live = some e)
    (hlog : Sourced S e ev) : Move S i { S i with
      trace := (final (step (G.node i) env e ev)).trace
      live := some (final (step (G.node i) env e ev)) }
  /-- The process stops somewhere in a call. -/
  | stop {env : Env} {ev : Event} {e : Backend} {α : List Effect} (hlive : (S i).live = some e)
    (hlog : Sourced S e ev) (hα : e.trace ++ α <+: (final (step (G.node i) env e ev)).trace) :
    Move S i { S i with trace := e.trace ++ α, live := none }
  /-- It is started again. -/
  | start {env : Env} {thread : Thread} {how : NodeStart} {e : Backend} (hdown : (S i).live = none)
    (hid : thread.id = G.threadID)
    (hnew : newRaftBackend (G.node i) env thread ((S i).store G.threadID) = .ok (how, e)) :
    Move S i ⟨(S i).store G.threadID, (S i).proposals, e.trace, some e⟩

/-- One replica moves. -/
def Step [DecidableEq ι] (S S' : ι → Member) : Prop := ∃ i m, G.Move S i m ∧ S' = Function.update S i m

/-- No replica has been started yet; ids in the databases count up to the sequence. -/
def Initial (S : ι → Member) : Prop :=
  ∀ i, ∃ s, (∀ r ∈ s.pending.rows, r.id ≤ s.pendingSeq) ∧ S i = ⟨s, [], [], none⟩

/-- A replica that has kept its books. -/
structure Kept (i : ι) (m : Member) : Prop where
  live : ∀ e ∈ m.live, e.trace = m.trace ∧ e.store = m.store G.threadID ∧ e.thread.id = G.threadID
  books : Books m.past m.base
  sincere : Sincere G.threadID m.past m.base m.trace
  owner : ∀ p ∈ m.proposals, p.ownerDID = (G.node i).id.did

variable {G} {S S' : ι → Member} {i : ι} {m : Member}

theorem Initial.kept (h : Initial S) (i : ι) : G.Kept i (S i) := by
  obtain ⟨s, hid, hS⟩ := h i
  rw [hS]
  exact ⟨fun e he => absurd he (Option.not_mem_none e), ⟨hid, fun p hp => absurd hp List.not_mem_nil⟩,
    trivial, fun p hp => absurd hp List.not_mem_nil⟩

theorem Kept.now (h : G.Kept i m) : Books m.proposals (m.store G.threadID) := h.books.replay h.sincere

/-- What a replica acknowledges is its own, because no other replica has its name. -/
theorem Sourced.owned {ev : Event} (hlog : Sourced S e ev)
    (hS : ∀ i, G.Kept i (S i)) (hdid : ∀ i, (G.node i).id.did ≠ "")
    (hinj : Function.Injective fun i => (G.node i).id.did) : ∀ rd, ev = .ready rd →
      ∀ entry ∈ (e.pendingReady.getD rd).committedEntries,
        Owned (G.node i) (S i).proposals entry := by
  intro rd hev entry hentry p hp howner
  obtain ⟨j, hj⟩ := hlog rd hev entry hentry p hp
  have hjowner := (hS j).owner p hj
  have hne : ¬p.ownerDID = "" := by
    rw [hjowner]
    exact hdid j
  rw [ownerOf, if_neg hne, hjowner] at howner
  obtain rfl : j = i := hinj howner
  exact hj

theorem Kept.move (hS : ∀ i, G.Kept i (S i)) (hdid : ∀ i, (G.node i).id.did ≠ "")
    (hinj : Function.Injective fun i => (G.node i).id.did) (h : G.Move S i m) : G.Kept i m := by
  have hi := hS i
  -- The effects of a call, all of them or the first few.
  have hcall (env : Env) {ev : Event} {e : Backend} (hlive : (S i).live = some e)
      (hlog : Sourced S e ev) : ∃ δ, Logged e (final (step (G.node i) env e ev)) δ ∧
        Sincere G.threadID (S i).proposals ((S i).store G.threadID) δ ∧
        ∀ p ∈ proposals δ, p.ownerDID = (G.node i).id.did := by
    obtain ⟨htrace, hstore, hid⟩ := hi.live e hlive
    have hbooks : Books (S i).proposals e.store := hstore ▸ hi.now
    have hres := step_sincere (G.node i) env hbooks (hlog.owned hS hdid hinj)
    rw [hid, hstore] at hres
    exact hres
  have hgrow {δ : List Effect}
      (hδ : Sincere G.threadID (S i).proposals ((S i).store G.threadID) δ)
      (howner : ∀ p ∈ proposals δ, p.ownerDID = (G.node i).id.did) :
      Sincere G.threadID (S i).past (S i).base ((S i).trace ++ δ) ∧
        ∀ p ∈ (S i).past ++ proposals ((S i).trace ++ δ), p.ownerDID = (G.node i).id.did := by
    refine ⟨sincere_append.mpr ⟨hi.sincere, hδ⟩, fun p hp => ?_⟩
    rw [proposals_append, ← List.append_assoc] at hp
    exact (List.mem_append.mp hp).elim (hi.owner p) (howner p)
  cases h with
  | @act env ev e hlive hlog =>
    obtain ⟨htrace, hstore, hid⟩ := hi.live e hlive
    obtain ⟨δ, hlogged, hδ, howner⟩ := hcall env hlive hlog
    have htrace' : (final (step (G.node i) env e ev)).trace = (S i).trace ++ δ := by
      rw [hlogged.trace, htrace]
    obtain ⟨hsincere, howner'⟩ := hgrow hδ howner
    rw [← htrace'] at hsincere howner'
    refine ⟨fun e' he' => ?_, hi.books, hsincere, howner'⟩
    obtain rfl := Option.some.inj he'
    refine ⟨rfl, ?_, hlogged.threadId.trans hid⟩
    rw [hlogged.store, hstore, hid, Member.store, ← replay_append]
    exact congrArg (replay _ _) htrace'.symm
  | @stop env ev e α hlive hlog hα =>
    obtain ⟨htrace, -, -⟩ := hi.live e hlive
    obtain ⟨δ, hlogged, hδ, howner⟩ := hcall env hlive hlog
    rw [hlogged.trace] at hα
    obtain ⟨rest, hrest⟩ := (List.prefix_append_right_inj _).mp hα
    rw [← hrest] at hδ howner
    obtain ⟨hsincere, howner'⟩ := hgrow (sincere_append.mp hδ).1 fun p hp =>
      howner p (proposals_append α rest ▸ List.mem_append_left _ hp)
    rw [← htrace] at hsincere howner'
    exact ⟨fun e' he' => absurd he' (Option.not_mem_none e'), hi.books, hsincere, howner'⟩
  | @start env thread how e hdown hid hnew =>
    obtain ⟨hthread, -, hstore, -, htrace⟩ := newRaftBackend_eq_ok hnew
    refine ⟨fun e' he' => ?_, hi.now, ?_, ?_⟩
    · obtain rfl := Option.some.inj he'
      refine ⟨rfl, ?_, hthread ▸ hid⟩
      rw [Member.store, hstore, htrace, hid]
      rfl
    · rw [htrace]
      exact ⟨trivial, trivial⟩
    · intro p hp
      rw [Member.proposals, htrace] at hp
      exact hi.owner p (List.append_nil (S i).proposals ▸ hp)

theorem kept_of_run [DecidableEq ι] (hdid : ∀ i, (G.node i).id.did ≠ "")
    (hinj : Function.Injective fun i => (G.node i).id.did) (h₀ : Initial S)
    (hrun : Relation.ReflTransGen G.Step S S') (i : ι) : G.Kept i (S' i) := by
  induction hrun generalizing i with
  | refl => exact h₀.kept i
  | tail _ hstep ih =>
    obtain ⟨j, m, hmove, rfl⟩ := hstep
    rcases eq_or_ne i j with rfl | hne
    · rw [Function.update_self]
      exact Kept.move ih hdid hinj hmove
    · rw [Function.update_of_ne hne]
      exact ih i

/-- **Acknowledgements hit their rows.**  Whatever a replica does in a run of a group of replicas
with different names, if it deletes a row of its pending entries, it does so by the transaction that
stores a block with the row's entry. -/
theorem acks_hit_their_rows [DecidableEq ι] (hdid : ∀ i, (G.node i).id.did ≠ "")
    (hinj : Function.Injective fun i => (G.node i).id.did) (h₀ : Initial S)
    (hrun : Relation.ReflTransGen G.Step S S') (i : ι) :
    (∀ e ∈ (S' i).live, e.trace = (S' i).trace ∧ e.store = (S' i).store G.threadID) ∧
    ∀ α a β, (S' i).trace = α ++ a :: β → ∀ r ∈ (replay G.threadID (S' i).base α).pending.rows,
      r ∉ (replay G.threadID (S' i).base (α ++ [a])).pending.rows →
        ∃ ids b, a = .write (.appendBlock ids b) ∧ r.payload ∈ b.entries ∧
          .ofBlock b ∈ (replay G.threadID (S' i).base (α ++ [a])).blocks.rows := by
  have hi := kept_of_run hdid hinj h₀ hrun i
  refine ⟨fun e he => ⟨(hi.live e he).1, (hi.live e he).2.1⟩, fun α a β htrace r hr hgone => ?_⟩
  have hsincere := hi.sincere
  rw [htrace] at hsincere
  obtain ⟨hα, ha, -⟩ := sincere_append.mp hsincere
  rw [replay_append] at hgone ⊢
  exact (hi.books.replay hα).deleted ha hr hgone

end Group

namespace Trio

/-- The group of the three replicas. -/
def group : Group (Fin 3) := ⟨node, "t"⟩

/-- Nothing has been started. -/
def asleep (_ : Fin 3) : Member := ⟨.empty, [], [], none⟩

/-- The first replica when it runs. -/
def awake (e : Backend) : Fin 3 → Member :=
  Function.update asleep 0 ⟨.empty, [], e.trace, some e⟩

/-- The first replica with an entry that it has proposed. -/
def proposed : Backend :=
  final (step (node 0) calm (final (step (node 0) calm (first 0) (.enqueue post))) .tick)

/-- The first replica with its entry committed. -/
def acked : Backend := final (step (node 0) calm proposed (.ready (batch log)))

theorem awake_act (ev : Event) (hlog : Group.Sourced (awake e) e ev) :
    group.Step (awake e) (awake (final (step (node 0) calm e ev))) :=
  ⟨0, _, .act rfl hlog, by rw [awake, awake, Function.update_idem]; rfl⟩

theorem run_acked : Relation.ReflTransGen group.Step asleep (awake acked) := by
  have hstart : group.Step asleep (awake (first 0)) :=
    ⟨0, _, .start rfl rfl (newRaftBackend_first 0), rfl⟩
  refine .tail (.tail (.tail (.single hstart) (awake_act (.enqueue post) ?_))
    (awake_act .tick ?_)) (awake_act (.ready (batch log)) ?_)
  · rintro rd hrd
    cases hrd
  · rintro rd hrd
    cases hrd
  · -- The entry of the log is what the replica has proposed.
    rintro rd hrd entry hentry p hp
    refine ⟨0, ?_⟩
    obtain rfl : batch log = rd := Event.ready.inj hrd
    obtain rfl : ⟨[1], [post], "d1"⟩ = p := by
      obtain rfl := List.mem_singleton.mp (show entry ∈ log from hentry)
      exact EntryData.proposal.inj hp
    change _ ∈ [] ++ proposals proposed.trace
    decide +kernel

/-- The first replica deletes the row of its entry. -/
theorem acks_hit_their_rows_acked : ∃ ids b, acked.trace[6]? = some (.write (.appendBlock ids b)) ∧
    post ∈ b.entries := by
  have hdid : ∀ i, (group.node i).id.did ≠ "" := by decide +kernel
  have hinj : Function.Injective fun i => (group.node i).id.did := by decide +kernel
  have hacks := (Group.acks_hit_their_rows hdid hinj (fun i => ⟨.empty, fun r hr =>
    absurd hr List.not_mem_nil, rfl⟩) run_acked 0).2
  have htrace : acked.trace = acked.trace.take 6 ++
      .write (.appendBlock [1] (fillBlock "t" 1 [post] "d1" 1 1 "")) :: acked.trace.drop 7 := by
    decide +kernel
  obtain ⟨ids, b, heq, hmem, -⟩ := hacks _ _ _ htrace ⟨1, "t", post, 1⟩ (by decide +kernel)
    (by decide +kernel)
  exact ⟨ids, b, heq ▸ by decide +kernel, hmem⟩

end Trio

end MoltMesh.Raft
