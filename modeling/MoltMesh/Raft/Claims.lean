import Mathlib.Data.List.Flatten
import Mathlib.Data.List.Perm.Subperm
import MoltMesh.Raft.Acks
import MoltMesh.Raft.Passing

/-!
# Claims

A replica proposes rows of `pending_entries` that are not claimed, and claims them
first.  As long as a claim is kept while the proposal is under way, no row is proposed
twice, and what a replica has proposed is no more than what has been enqueued
(`Booked.entries_subperm`).  Claims are given up when a replica is built anew.
-/

namespace MoltMesh.Raft

open MoltMesh.Lib Pb Raftpb

variable {N : Node} {env : Env} {e e' : Backend} {T : String} {s : Store} {a : Effect}
  {past δ δ' : List Effect} {reg : List (Int × ThreadEntry)}

/-! ## The books -/

/-- The entries enqueued along a trace. -/
def enqueued (δ : List Effect) : List ThreadEntry :=
  δ.filterMap fun | .write (.enqueueEntry t _) => some t | _ => none

theorem enqueued_append (δ δ' : List Effect) : enqueued (δ ++ δ') = enqueued δ ++ enqueued δ' :=
  List.filterMap_append

/-- The ids of the rows proposed along a trace. -/
def proposedIDs (δ : List Effect) : List Int := (proposals δ).flatMap RaftProposal.pendingIDs

theorem proposedIDs_append (δ δ' : List Effect) :
    proposedIDs (δ ++ δ') = proposedIDs δ ++ proposedIDs δ' := by
  rw [proposedIDs, proposals_append, List.flatMap_append]
  rfl

/-- The rows of a proposal, with their entries. -/
def pairs (p : RaftProposal) : List (Int × ThreadEntry) := p.pendingIDs.zip p.entries

/-- Every row there has been is in the register, and no row has been proposed twice. -/
structure Booked (T : String) (past : List Effect) (reg : List (Int × ThreadEntry)) (s : Store) :
    Prop where
  entries : reg.map Prod.snd = enqueued past
  id_le : ∀ r ∈ s.pending.rows, r.id ≤ s.pendingSeq
  proposed_le : ∀ i ∈ proposedIDs past, i ≤ s.pendingSeq
  rows : ∀ r ∈ s.pending.rows, r.threadId = T → (r.id, r.payload) ∈ reg
  length : ∀ p ∈ proposals past, p.entries.length = p.pendingIDs.length
  proposed : ∀ p ∈ proposals past, pairs p ⊆ reg
  nodup : (proposedIDs past).Nodup

/-- Rows that have been proposed are claimed as long as they are pending. -/
def Claimed (T : String) (past : List Effect) (s : Store) : Prop :=
  ∀ r ∈ s.pending.rows, r.threadId = T → r.id ∈ proposedIDs past → r.id ∈ s.claims.rows

/-- What has been proposed is no more than what has been enqueued. -/
theorem Booked.entries_subperm (h : Booked T past reg s) :
    ((proposals past).flatMap RaftProposal.entries).Subperm (enqueued past) := by
  have hfst : ((proposals past).flatMap pairs).map Prod.fst = proposedIDs past := by
    rw [List.map_flatMap]
    refine List.flatMap_congr fun p hp => ?_
    exact List.map_fst_zip (h.length p hp).ge
  have hsnd : ((proposals past).flatMap pairs).map Prod.snd =
      (proposals past).flatMap RaftProposal.entries := by
    rw [List.map_flatMap]
    refine List.flatMap_congr fun p hp => ?_
    exact List.map_snd_zip (h.length p hp).le
  have hnodup : ((proposals past).flatMap pairs).Nodup := .of_map Prod.fst (hfst ▸ h.nodup)
  have hsub : (proposals past).flatMap pairs ⊆ reg := by
    intro x hx
    obtain ⟨p, hp, hx⟩ := List.mem_flatMap.mp hx
    exact h.proposed p hp hx
  obtain ⟨l, hperm, hsublist⟩ := hnodup.subperm hsub
  rw [← hsnd, ← h.entries]
  exact ⟨l.map Prod.snd, hperm.map Prod.snd, hsublist.map Prod.snd⟩

/-! ## Effects that keep them -/

/-- An effect that keeps the books: what is proposed has not been proposed before and is claimed, and
claims of what has been proposed are not released. -/
def Effect.Fair (T : String) (past : List Effect) (s : Store) : Effect → Prop
  | .propose p => ∃ rows : List PendingRow, p.pendingIDs = rows.map PendingRow.id ∧
    p.entries = rows.map PendingRow.payload ∧ (rows.map PendingRow.id).Nodup ∧
    ∀ r ∈ rows, r ∈ s.pending.rows ∧ r.threadId = T ∧ r.id ∉ proposedIDs past ∧ r.id ∈ s.claims.rows
  | .write .releasePendingClaims => False
  | .write (.releasePendingClaimIDs ids) => ∀ i ∈ ids, i ∉ proposedIDs past
  | _ => True

/-- All effects of a trace keep the books. -/
def Fair (T : String) : List Effect → Store → List Effect → Prop
  | _, _, [] => True
  | past, s, a :: δ => a.Fair T past s ∧ Fair T (past ++ [a]) (a.apply T s) δ

theorem fair_append : Fair T past s (δ ++ δ') ↔
    Fair T past s δ ∧ Fair T (past ++ δ) (replay T s δ) δ' := by
  induction δ generalizing past s with
  | nil =>
    rw [List.append_nil]
    exact (iff_of_eq (true_and _)).symm
  | cons a δ ih =>
    rw [show past ++ a :: δ = (past ++ [a]) ++ δ by rw [List.append_assoc]; rfl]
    exact (and_congr_right fun _ => ih).trans and_assoc.symm

/-- What becomes of the rows and claims when no row is added. -/
theorem Booked.apply_of_rows (h : Booked T past reg s) (hentries : enqueued [a] = [])
    (hproposals : proposals [a] = []) (hrows : (a.apply T s).pending.rows ⊆ s.pending.rows)
    (hseq : s.pendingSeq ≤ (a.apply T s).pendingSeq) : Booked T (past ++ [a]) reg (a.apply T s) := by
  have hids : proposedIDs (past ++ [a]) = proposedIDs past := by
    rw [proposedIDs, proposals_append, hproposals, List.append_nil]
    rfl
  have hprops : proposals (past ++ [a]) = proposals past := by
    rw [proposals_append, hproposals, List.append_nil]
  refine ⟨?_, ?_, ?_, ?_, ?_, ?_, ?_⟩
  · rw [enqueued_append, hentries, List.append_nil]
    exact h.entries
  · exact fun r hr => Int.le_trans (h.id_le r (hrows hr)) hseq
  · rw [hids]
    exact fun i hi => Int.le_trans (h.proposed_le i hi) hseq
  · exact fun r hr => h.rows r (hrows hr)
  · rw [hprops]
    exact h.length
  · rw [hprops]
    exact h.proposed
  · rw [hids]
    exact h.nodup

theorem Booked.enqueue (h : Booked T past reg s) (t : ThreadEntry) (now : Int) :
    Booked T (past ++ [.write (.enqueueEntry t now)]) (reg ++ [(s.pendingSeq + 1, t)])
      (s.enqueueEntry T t now) := by
  have hids : proposedIDs (past ++ [.write (.enqueueEntry t now)]) = proposedIDs past := by
    rw [proposedIDs_append]
    exact List.append_nil _
  have hprops : proposals (past ++ [.write (.enqueueEntry t now)]) = proposals past := by
    rw [proposals_append]
    exact List.append_nil _
  refine ⟨?_, ?_, ?_, ?_, ?_, ?_, ?_⟩
  · rw [enqueued_append, List.map_append, h.entries]
    rfl
  · intro r hr
    change r.id ≤ s.pendingSeq + 1
    rcases Table.mem_insertOrReplace.mp hr with ⟨hr, -⟩ | rfl
    · exact Int.le_add_one (h.id_le r hr)
    · exact Int.le_refl _
  · rw [hids]
    exact fun i hi => Int.le_add_one (h.proposed_le i hi)
  · intro r hr ht
    rcases Table.mem_insertOrReplace.mp hr with ⟨hr, -⟩ | rfl
    · exact List.mem_append_left _ (h.rows r hr ht)
    · exact List.mem_append_right _ (List.mem_singleton_self _)
  · rw [hprops]
    exact h.length
  · rw [hprops]
    exact fun p hp => List.Subset.trans (h.proposed p hp) (List.subset_append_left _ _)
  · rw [hids]
    exact h.nodup

theorem Booked.propose (h : Booked T past reg s) {p : RaftProposal}
    (hp : (Effect.propose p).Fair T past s) : Booked T (past ++ [.propose p]) reg s := by
  obtain ⟨rows, hids, hentries, hnodup, hrows⟩ := hp
  have hall : proposedIDs (past ++ [.propose p]) = proposedIDs past ++ p.pendingIDs := by
    rw [proposedIDs_append]
    congr 1
    exact List.append_nil _
  have hprops : proposals (past ++ [.propose p]) = proposals past ++ [p] := proposals_append ..
  have hpairs : pairs p = rows.map fun r => (r.id, r.payload) := by
    rw [pairs, hids, hentries, List.zip_map']
  have hnew {P : RaftProposal → Prop} (hold : ∀ q ∈ proposals past, P q) (hP : P p) :
      ∀ q ∈ proposals (past ++ [.propose p]), P q := by
    intro q hq
    rw [hprops] at hq
    rcases List.mem_append.mp hq with hq | hq
    · exact hold q hq
    · rw [List.mem_singleton.mp hq]
      exact hP
  refine ⟨?_, h.id_le, ?_, h.rows, hnew h.length ?_, hnew h.proposed ?_, ?_⟩
  · rw [enqueued_append, h.entries]
    exact (List.append_nil _).symm
  · rw [hall]
    intro i hi
    rcases List.mem_append.mp hi with hi | hi
    · exact h.proposed_le i hi
    · rw [hids] at hi
      obtain ⟨r, hr, rfl⟩ := List.mem_map.mp hi
      exact h.id_le r (hrows r hr).1
  · rw [hids, hentries, List.length_map, List.length_map]
  · rw [hpairs]
    intro x hx
    obtain ⟨r, hr, rfl⟩ := List.mem_map.mp hx
    exact h.rows r (hrows r hr).1 (hrows r hr).2.1
  · rw [hall, hids]
    refine h.nodup.append hnodup fun i hi hi' => ?_
    obtain ⟨r, hr, rfl⟩ := List.mem_map.mp hi'
    exact (hrows r hr).2.2.1 hi

theorem Booked.apply (h : Booked T past reg s) (ha : a.Fair T past s) :
    ∃ reg', Booked T (past ++ [a]) reg' (a.apply T s) := by
  cases a with
  | propose p => exact ⟨reg, h.propose ha⟩
  | write w =>
    by_cases hw : ∃ t now, w = .enqueueEntry t now
    · obtain ⟨t, now, rfl⟩ := hw
      exact ⟨_, h.enqueue t now⟩
    · refine ⟨reg, h.apply_of_rows ?_ rfl ?_ (pendingSeq_le_apply _)⟩
      · cases w with
        | enqueueEntry t now => exact absurd ⟨t, now, rfl⟩ hw
        | _ => rfl
      · intro r hr
        rcases pending_or_enqueued hr with hr | ⟨t, now, rfl, -⟩
        · exact hr
        · exact absurd ⟨t, now, rfl⟩ hw
  | _ => exact ⟨reg, h.apply_of_rows rfl rfl (List.Subset.refl _) (Int.le_refl _)⟩

theorem Booked.replay (h : Booked T past reg s) (hδ : Fair T past s δ) :
    ∃ reg', Booked T (past ++ δ) reg' (replay T s δ) := by
  induction δ generalizing past reg s with
  | nil =>
    rw [List.append_nil]
    exact ⟨reg, h⟩
  | cons a δ ih =>
    obtain ⟨reg₁, h₁⟩ := h.apply hδ.1
    obtain ⟨reg₂, h₂⟩ := ih h₁ hδ.2
    rw [List.append_assoc] at h₂
    exact ⟨reg₂, h₂⟩

/-- A claim is kept as long as its row is pending, unless it is released. -/
theorem mem_claims_apply {i : Int} (hi : i ∈ s.claims.rows) {w : Write} {r : PendingRow}
    (hr : r ∈ (w.apply T s).pending.rows) (hid : r.id = i) (hall : w ≠ .releasePendingClaims)
    (hids : ∀ ids, w = .releasePendingClaimIDs ids → i ∉ ids) : i ∈ (w.apply T s).claims.rows := by
  cases w with
  | appendBlock ids b =>
    rcases apply_appendBlock T s ids b with hsame | ⟨blocks, -, hs⟩
    · change i ∈ ((Effect.write (.appendBlock ids b)).apply T s).claims.rows
      rw [hsame]
      exact hi
    · change r ∈ ((Effect.write (.appendBlock ids b)).apply T s).pending.rows at hr
      change i ∈ ((Effect.write (.appendBlock ids b)).apply T s).claims.rows
      rw [hs] at hr ⊢
      have hfree := (Store.mem_pending_ackPending.mp hr).2
      exact Store.mem_claims_ackPending.mpr ⟨hi, hid ▸ hfree⟩
  | claimPendingEntries ids => exact Store.mem_claims_insert.mpr (.inl hi)
  | releasePendingClaims => exact absurd rfl hall
  | releasePendingClaimIDs ids =>
    exact Store.mem_claims_releasePendingClaimIDs.mpr ⟨hi, hids ids rfl⟩
  | _ => exact hi

theorem Claimed.apply (h : Claimed T past s) (hb : Booked T past reg s) (ha : a.Fair T past s) :
    Claimed T (past ++ [a]) (a.apply T s) := by
  intro r hr hthread hprop
  rw [proposedIDs_append] at hprop
  cases a with
  | propose p =>
    rcases List.mem_append.mp hprop with hprop | hprop
    · exact h r hr hthread hprop
    · obtain ⟨rows, hids, -, -, hrows⟩ := ha
      have hmem : r.id ∈ rows.map PendingRow.id := by
        rw [← hids]
        exact (List.append_nil p.pendingIDs) ▸ hprop
      obtain ⟨r', hr', heq⟩ := List.mem_map.mp hmem
      exact heq ▸ (hrows r' hr').2.2.2
  | write w =>
    have hold : r.id ∈ proposedIDs past := List.append_nil (proposedIDs past) ▸ hprop
    -- A row with a new id has not been proposed.
    have hrow : r ∈ s.pending.rows := by
      rcases mem_pending_of_apply hr with hr | ⟨hnew, -⟩
      · exact hr
      · exact absurd (hb.proposed_le r.id hold) (Int.not_le_of_gt hnew)
    refine mem_claims_apply (h r hrow hthread hold) hr rfl ?_ ?_
    · rintro rfl
      exact ha
    · rintro ids rfl hmem
      exact ha r.id hmem hold
  | _ => exact h r hr hthread (List.append_nil (proposedIDs past) ▸ hprop)

theorem Claimed.replay (h : Claimed T past s) (hb : Booked T past reg s) (hδ : Fair T past s δ) :
    Claimed T (past ++ δ) (replay T s δ) := by
  induction δ generalizing past reg s with
  | nil =>
    rw [List.append_nil]
    exact h
  | cons a δ ih =>
    obtain ⟨reg₁, hb₁⟩ := hb.apply hδ.1
    have h₁ := ih (h.apply hb hδ.1) hb₁ hδ.2
    rw [List.append_assoc] at h₁
    exact h₁

/-! ## Steps -/

/-- An effect that has nothing to do with proposals. -/
def Effect.isTame : Effect → Bool
  | .propose _ => false
  | .write .releasePendingClaims => false
  | .write (.releasePendingClaimIDs _) => false
  | _ => true

/-- An effect that has nothing to do with proposals or claims. -/
def Effect.isPlain : Effect → Bool
  | .write (.claimPendingEntries _) => false
  | a => a.isTame

theorem Effect.isTame_of_isPlain (ha : a.isPlain = true) : a.isTame = true := by
  cases a with
  | write w => cases w <;> first | rfl | cases ha
  | propose p => cases ha
  | _ => rfl

theorem Effect.isPlain_of_isQuiet (ha : a.isQuiet = true) : a.isPlain = true := by
  cases a with
  | write w => cases w <;> first | rfl | cases ha
  | propose p => cases ha
  | _ => rfl

theorem Effect.fair_of_isTame (T : String) (past : List Effect) (s : Store) (ha : a.isTame = true) :
    a.Fair T past s ∧ proposals [a] = [] := by
  cases a with
  | write w => cases w <;> first | exact ⟨trivial, rfl⟩ | cases ha
  | propose p => cases ha
  | _ => exact ⟨trivial, rfl⟩

theorem fair_of_tame (T : String) (past : List Effect) (s : Store) (h : ∀ a ∈ δ, a.isTame = true) :
    Fair T past s δ ∧ proposals δ = [] := by
  induction δ generalizing past s with
  | nil => exact ⟨trivial, rfl⟩
  | cons a δ ih =>
    obtain ⟨ha, hnone⟩ := Effect.fair_of_isTame T past s (h a List.mem_cons_self)
    obtain ⟨hδ, hnone'⟩ := ih (past ++ [a]) (a.apply T s) fun b hb => h b (List.mem_cons_of_mem a hb)
    refine ⟨⟨ha, hδ⟩, ?_⟩
    rw [show a :: δ = [a] ++ δ from rfl, proposals_append, hnone, hnone']
    rfl

theorem applyAll_plain (N : Node) (env : Env) (e : Backend) (entries : List Entry) :
    ∃ δ, Logged e (entries.foldl (applyEntry N env) e) δ ∧ ∀ a ∈ δ, a.isPlain = true := by
  induction entries generalizing e with
  | nil => exact ⟨[], .refl e, fun _ h => absurd h List.not_mem_nil⟩
  | cons entry entries ih =>
    obtain ⟨δ, hδ⟩ := applyEntry_trail N env e entry
    obtain ⟨δ', hlog', hplain'⟩ := ih (applyEntry N env e entry)
    refine ⟨δ ++ δ', hδ.logged.trans hlog', fun a ha => ?_⟩
    rcases List.mem_append.mp ha with ha | ha
    · cases hδ with
      | skip hδ hno => exact Effect.isPlain_of_isQuiet (hδ.quiet a ha)
      | commit hblock happ hw hs hmem hδ he =>
        rcases List.mem_append.mp ha with ha | ha
        · rcases List.mem_cons.mp ha with rfl | ha
          · rfl
          · exact Effect.isPlain_of_isQuiet (hδ.quiet a ha)
        · rcases List.mem_pair.mp ha with rfl | rfl <;> rfl
    · exact hplain' a ha

theorem isPlain_readyWrites {rd : Ready} (hquiet : ∀ a ∈ δ, a.isQuiet = true) :
    ∀ a ∈ readyWrites rd ++ δ, a.isPlain = true := by
  intro a ha
  rcases List.mem_append.mp ha with h | h
  · unfold readyWrites at h
    rcases List.mem_cons.mp h with rfl | h
    · rfl
    · split at h
      · exact absurd h List.not_mem_nil
      · rw [List.mem_singleton.mp h]
        rfl
  · exact Effect.isPlain_of_isQuiet (hquiet a h)

theorem ReadyTrail.plain {rd : Ready} {r : Except Stop Backend} (h : ReadyTrail N env e rd r) :
    ∃ δ, Logged e (ended r) δ ∧ ∀ a ∈ δ, a.isPlain = true := by
  cases h with
  | unsaved hfail =>
    refine ⟨_, logged_note rfl, fun a ha => ?_⟩
    rw [List.mem_singleton.mp ha]
    rfl
  | halfSaved hsnap hfail hlog hmem =>
    refine ⟨_, hlog, fun a ha => ?_⟩
    rcases List.mem_pair.mp ha with rfl | rfl <;> rfl
  | panicked hlog hquiet hfit => exact ⟨_, hlog, isPlain_readyWrites hquiet⟩
  | @applied e₁ δ hp =>
    obtain ⟨δ', hlog', hplain'⟩ := applyAll_plain N env e₁ rd.committedEntries
    refine ⟨_, hp.logged.trans hlog', fun a ha => ?_⟩
    exact (List.mem_append.mp ha).elim (isPlain_readyWrites hp.quiet a) (hplain' a)

/-- A call has nothing to do with proposals and claims, or it ends with what is done to propose. -/
theorem StepTrail.plain {ev : Event} (h : StepTrail N env e ev e') : ∃ e₁ δ δ', Logged e e₁ δ ∧
    (∀ a ∈ δ, a.isPlain = true) ∧ Logged e₁ e' δ' ∧ ProposeTrail N e₁ δ' ∧
      (δ' = [] ∨ SameLog e.store e₁.store) := by
  have htail {δ : List Effect} (hlog : Logged e e' δ) (hplain : ∀ a ∈ δ, a.isPlain = true) :
      ∃ e₁ δ δ', Logged e e₁ δ ∧ (∀ a ∈ δ, a.isPlain = true) ∧ Logged e₁ e' δ' ∧
        ProposeTrail N e₁ δ' ∧ (δ' = [] ∨ SameLog e.store e₁.store) :=
    ⟨e', δ, [], hlog, hplain, .refl e', .idle, .inl rfl⟩
  cases h with
  | ready hr he =>
    obtain ⟨p, rfl⟩ := he
    obtain ⟨δ, hlog, hplain⟩ := hr.plain
    exact htail ⟨hlog.trace, hlog.store, hlog.threadId⟩ hplain
  | block hδ =>
    refine htail hδ.logged fun a ha => ?_
    cases hδ with
    | held hread hheld he => exact absurd ha List.not_mem_nil
    | failed w he =>
      rw [List.mem_singleton.mp ha]
      rfl
    | saved hfree hw hmem hδ he =>
      rcases List.mem_append.mp ha with ha | ha
      · rcases List.mem_cons.mp ha with rfl | ha
        · rfl
        · exact Effect.isPlain_of_isQuiet (hδ.quiet a ha)
      · rw [List.mem_singleton.mp ha]
        rfl
  | propose h₁ hmem₁ hlog hδ hmem hev =>
    exact ⟨_, _, _, h₁.toLogged, fun a ha => Effect.isPlain_of_isQuiet (h₁.quiet a ha), hlog, hδ,
      .inr h₁.sameLog⟩
  | snapshot hδ =>
    refine htail hδ.logged fun a ha => ?_
    cases hδ with
    | idle he => exact absurd ha List.not_mem_nil
    | failed w hcreate he =>
      rw [List.mem_singleton.mp ha]
      rfl
    | saved hpos hcreate hlog hstorage happlied hself hready =>
      rw [List.mem_singleton.mp ha]
      rfl
  | side hδ hev hready => exact htail hδ.toLogged fun a ha => Effect.isPlain_of_isQuiet (hδ.quiet a ha)
  | enqueue hmem hlog =>
    refine htail hlog fun a ha => ?_
    rw [List.mem_singleton.mp ha]
    rfl

theorem nodup_claimable (s : Store) (T : String) (limit : Nat) :
    ((s.claimable T limit).map PendingRow.id).Nodup := by
  have hsub : (s.claimable T limit).Sublist (s.pendingEntries T) :=
    (List.take_sublist _ _).trans List.filter_sublist
  have hperm := (perm_orderBy PendingRow.submittedAt (s.pending.select fun r => r.threadId = T)).map
    PendingRow.id
  exact (hsub.map PendingRow.id).nodup (hperm.nodup_iff.mpr (s.pending.nodup_map_select _))

/-- Rows are proposed that are not claimed, after they have been claimed. -/
theorem ProposeTrail.fair (h : ProposeTrail N e δ) (hclaimed : Claimed e.thread.id past e.store) :
    Fair e.thread.id past e.store δ := by
  -- Rows that can be claimed have not been proposed.
  have hfresh {r : PendingRow} (hr : r ∈ e.store.claimable e.thread.id raftMaxEntriesPerMsg) :
      r.id ∉ proposedIDs past := by
    obtain ⟨hrow, hthread, hfree⟩ := Store.mem_claimable hr
    exact fun hprop => hfree (hclaimed r hrow hthread hprop)
  have hnone (ids : List Int) :
      proposedIDs (past ++ [.write (.claimPendingEntries ids)]) = proposedIDs past := by
    rw [proposedIDs_append]
    exact List.append_nil _
  cases h with
  | idle => trivial
  | failed w => exact ⟨trivial, trivial⟩
  | @released ids entries s' a hclaim hrel =>
    rw [Store.claimPendingEntries_eq] at hclaim
    obtain ⟨rfl, -⟩ := Prod.mk.inj hclaim
    refine ⟨trivial, ?_, trivial⟩
    rcases hrel with rfl | rfl
    · intro i hi
      rw [hnone]
      obtain ⟨r, hr, rfl⟩ := List.mem_map.mp hi
      exact hfresh hr
    · trivial
  | @proposed ids entries s' hclaim =>
    rw [Store.claimPendingEntries_eq] at hclaim
    obtain ⟨rfl, hrest⟩ := Prod.mk.inj hclaim
    obtain ⟨rfl, -⟩ := Prod.mk.inj hrest
    refine ⟨trivial, ⟨_, rfl, rfl, nodup_claimable .., fun r hr => ?_⟩, trivial⟩
    obtain ⟨hrow, hthread, -⟩ := Store.mem_claimable hr
    rw [hnone]
    exact ⟨hrow, hthread, hfresh hr, Store.mem_claims_insert.mpr (.inr (List.mem_map_of_mem hr))⟩

/-- **Every call keeps the books** if the claims of what has been proposed have been kept. -/
theorem step_fair (N : Node) (env : Env) (e : Backend) (ev : Event)
    (hclaimed : Claimed e.thread.id past e.store) :
    ∃ δ, Logged e (final (step N env e ev)) δ ∧ Fair e.thread.id past e.store δ := by
  obtain ⟨e₁, δ, δ', hlog, hplain, hlog', hpropose, hor⟩ := (step_trail N env e ev).plain
  obtain ⟨hfair, hnone⟩ := fair_of_tame e.thread.id past e.store fun a ha =>
    Effect.isTame_of_isPlain (hplain a ha)
  refine ⟨δ ++ δ', hlog.trans hlog', fair_append.mpr ⟨hfair, ?_⟩⟩
  rw [← hlog.store, ← hlog.threadId]
  rcases hor with rfl | hsame
  · trivial
  · refine hpropose.fair ?_
    intro r hr hthread hprop
    rw [hsame.pending] at hr
    rw [hlog.threadId] at hthread
    rw [proposedIDs, proposals_append, hnone, List.append_nil] at hprop
    rw [hsame.claims]
    exact hclaimed r hr hthread hprop

end MoltMesh.Raft
