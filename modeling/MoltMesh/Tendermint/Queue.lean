import MoltMesh.Tendermint.Restart
import MoltMesh.Tendermint.Validity

/-!
# The entries in the queue

A replica keeps the entries it is given in a queue.  A proposer takes them out when it
builds a proposal, not when the proposal is committed: an entry stays in the queue or
in a committed block as long as what is taken out is in a committed block already
(`Spent`).
-/

namespace MoltMesh.Tendermint

open MoltMesh.Lib Pb

variable {N : Node} {env : Env} {e e' : Backend} {C C' : ThreadEntry → Prop} {T : String} {s : Store}
  {a : Effect} {δ t : List Effect}

/-! ## The queue along a trace -/

/-- Each row that is taken out of the queue holds an entry of `C`. -/
def Spent (C : ThreadEntry → Prop) (T : String) : Store → List Effect → Prop
  | _, [] => True
  | s, a :: δ =>
    (∀ id, a = .write (.deletePending id) → ∀ r ∈ s.pending.rows, r.id = id → C r.payload) ∧
      Spent C T (a.apply T s) δ

theorem Spent.of_append (h : Spent C T s (δ ++ t)) : Spent C T s δ := by
  induction δ generalizing s with
  | nil => trivial
  | cons a δ ih => exact ⟨h.1, ih h.2⟩

/-- The entries that have been put into the queue are in it or in `C`. -/
structure Queued (C : ThreadEntry → Prop) (T : String) (s : Store) (t : List Effect) : Prop where
  numbered : ∀ r ∈ s.pending.rows, r.id ≤ s.pendingSeq
  entries : ∀ x now, .write (.enqueueEntry x now) ∈ t →
    (∃ r ∈ s.pending.rows, r.threadId = T ∧ r.payload = x) ∨ C x

theorem Queued.mono (h : Queued C T s t) (hC : ∀ x, C x → C' x) : Queued C' T s t :=
  ⟨h.numbered, fun x now hx => (h.entries x now hx).imp_right (hC x)⟩

/-- Effects that leave the queue alone. -/
theorem Queued.congr {s' : Store} (h : Queued C T s t) (hpending : s'.pending = s.pending)
    (hseq : s'.pendingSeq = s.pendingSeq) (ha : ∀ x now, a ≠ .write (.enqueueEntry x now)) :
    Queued C T s' (t ++ [a]) where
  numbered := by rw [hpending, hseq]; exact h.numbered
  entries x now hx := by
    rw [hpending]
    rcases List.mem_append.mp hx with hx | hx
    · exact h.entries x now hx
    · exact absurd (List.mem_singleton.mp hx).symm (ha x now)

/-- One effect. -/
theorem Queued.effect (h : Queued C T s t)
    (ha : ∀ id, a = .write (.deletePending id) → ∀ r ∈ s.pending.rows, r.id = id → C r.payload) :
    Queued C T (a.apply T s) (t ++ [a]) := by
  cases a with
  | broadcast m => exact h.congr rfl rfl fun _ _ => Effect.noConfusion
  | commit height block => exact h.congr rfl rfl fun _ _ => Effect.noConfusion
  | unlock height round => exact h.congr rfl rfl fun _ _ => Effect.noConfusion
  | write w =>
    cases w with
    | saveVote v => exact h.congr rfl rfl fun _ _ heq => by cases heq
    | saveBlock b => exact h.congr rfl rfl fun _ _ heq => by cases heq
    | saveConsensusState cs => exact h.congr rfl rfl fun _ _ heq => by cases heq
    | deletePending id =>
      have hmem (r : PendingRow) : r ∈ (s.deletePending id).pending.rows ↔
          r ∈ s.pending.rows ∧ r.id ≠ id :=
        Table.mem_deleteWhere.trans (and_congr_right fun _ => decide_eq_false_iff_not)
      refine ⟨fun r hr => h.numbered r ((hmem r).mp hr).1, fun x now hx => ?_⟩
      rcases List.mem_append.mp hx with hx | hx
      · rcases h.entries x now hx with ⟨r, hr, ht, rfl⟩ | hC
        · by_cases hid : r.id = id
          · exact .inr (ha id rfl r hr hid)
          · exact .inl ⟨r, (hmem r).mpr ⟨hr, hid⟩, ht, rfl⟩
        · exact .inr hC
      · cases List.mem_singleton.mp hx
    | enqueueEntry y at_ =>
      -- The new row has a number of its own, so that it replaces none.
      have hmem (r : PendingRow) : r ∈ (s.enqueueEntry T y at_).pending.rows ↔
          r ∈ s.pending.rows ∨ r = ⟨s.pendingSeq + 1, T, y, at_⟩ := by
        refine Table.mem_insertOrReplace.trans (or_congr_left ⟨And.left, fun hr => ⟨hr, ?_⟩⟩)
        have hle := h.numbered r hr
        change r.id ≠ s.pendingSeq + 1
        omega
      refine ⟨fun r hr => ?_, fun x now hx => ?_⟩
      · change r.id ≤ s.pendingSeq + 1
        rcases (hmem r).mp hr with hr | rfl
        · have hle := h.numbered r hr
          omega
        · exact Int.le_refl _
      · rcases List.mem_append.mp hx with hx | hx
        · rcases h.entries x now hx with ⟨r, hr, hrow⟩ | hC
          · exact .inl ⟨r, (hmem r).mpr (.inl hr), hrow⟩
          · exact .inr hC
        · cases List.mem_singleton.mp hx
          exact .inl ⟨_, (hmem _).mpr (.inr rfl), rfl, rfl⟩

/-- The effects of a call. -/
theorem Queued.replay (h : Queued C T s t) (hδ : Spent C T s δ) :
    Queued C T (replay T s δ) (t ++ δ) := by
  induction δ generalizing s t with
  | nil =>
    rw [List.append_nil]
    exact h
  | cons a δ ih =>
    have hrest := ih (h.effect hδ.1) hδ.2
    rw [List.append_assoc] at hrest
    exact hrest

/-! ## A group of lives -/

namespace Group

variable (G : Group)

/-- The lives of the replicas, by DID. -/
abbrev Lives := String → Life

/-- An entry is in a block that some replica has committed. -/
def Committed (S : Lives) (x : ThreadEntry) : Prop :=
  ∃ did ∈ G.thread.replicaDids, ∃ b, .write (.saveBlock b) ∈ (S did).history ∧ x ∈ b.entries

variable {G} {S S' S₀ : Lives}

/-- What has been committed stays so. -/
theorem Committed.mono (hstep : ∀ did, (S did).history <+: (S' did).history) {x : ThreadEntry}
    (h : G.Committed S x) : G.Committed S' x := by
  obtain ⟨did, hdid, b, hb, hx⟩ := h
  exact ⟨did, hdid, b, (hstep did).subset hb, hx⟩

end Group

namespace Quartet

/-- An entry. -/
def entry : ThreadEntry where
  authorDid := did1
  payload := [1, 2]
  kind := "text"
  authorSig := ""
  submittedAt := 5

end Quartet

end MoltMesh.Tendermint
