import Mathlib.Data.Finset.Card
import Mathlib.Tactic.Common

/-!
# Quorums with faulty members

A committee is a finite set of members, some of them faulty, together with a
quorum size for which any two quorums have a correct member in common
(`quorums_share_iff` says how large it has to be).  What a
quorum attests is a predicate of the *correct* members only: a faulty member
may be counted for anything, so `Attests p` reads "`quorum` members can be
found, the correct ones among which all satisfy `p`".
-/

namespace MoltMesh.Lib

universe u

section Intersection

variable {V : Type u} [DecidableEq V] {M P Q : Finset V}

/-- Two sets of members overlap in what they have together more than there are members. -/
theorem card_add_card_le (hP : P ⊆ M) (hQ : Q ⊆ M) : P.card + Q.card ≤ M.card + (P ∩ Q).card := by
  have hunion : (P ∪ Q).card ≤ M.card := Finset.card_le_card (Finset.union_subset hP hQ)
  have hsum : (P ∪ Q).card + (P ∩ Q).card = P.card + Q.card := Finset.card_union_add_card_inter P Q
  omega

/-- Two sets of `q` members that overlap as little as possible. -/
theorem exists_card_inter {q : ℕ} (hq : q ≤ M.card) :
    ∃ P ⊆ M, ∃ Q ⊆ M, P.card = q ∧ Q.card = q ∧ (P ∩ Q).card = 2 * q - M.card := by
  obtain ⟨P, hP, hPcard⟩ := Finset.exists_subset_card_eq hq
  have hrest : (M \ P).card = M.card - q := by rw [Finset.card_sdiff_of_subset hP, hPcard]
  by_cases hsmall : (M \ P).card ≤ q
  · -- All the others, and as many of the same as are needed.
    obtain ⟨Q, hsub, hQ, hQcard⟩ :=
      Finset.exists_subsuperset_card_eq Finset.sdiff_subset hsmall hq
    have hunion : P ∪ Q = M := by
      refine Finset.Subset.antisymm (Finset.union_subset hP hQ) fun v hv => ?_
      by_cases hvP : v ∈ P
      · exact Finset.mem_union_left _ hvP
      · exact Finset.mem_union_right _ (hsub (Finset.mem_sdiff.mpr ⟨hv, hvP⟩))
    have hsum := Finset.card_union_add_card_inter P Q
    rw [hunion, hPcard, hQcard] at hsum
    exact ⟨P, hP, Q, hQ, hPcard, hQcard, by omega⟩
  · obtain ⟨Q, hQ, hQcard⟩ := Finset.exists_subset_card_eq (Nat.le_of_not_le hsmall)
    have hdisjoint : P ∩ Q = ∅ := by
      refine Finset.disjoint_iff_inter_eq_empty.mp (Finset.disjoint_left.mpr fun v hvP hvQ => ?_)
      exact (Finset.mem_sdiff.mp (hQ hvQ)).2 hvP
    refine ⟨P, hP, Q, hQ.trans Finset.sdiff_subset, hPcard, hQcard, ?_⟩
    rw [hdisjoint, Finset.card_empty]
    omega

/-- **When any two quorums share `k` members**: there is no quorum, or two of them have at least `k`
members more than there are. -/
theorem quorums_share_iff {q k : ℕ} (hk : 0 < k) :
    (∀ P ⊆ M, ∀ Q ⊆ M, q ≤ P.card → q ≤ Q.card → k ≤ (P ∩ Q).card) ↔
      M.card < q ∨ M.card + k ≤ 2 * q := by
  constructor
  · intro hshare
    by_cases hq : q ≤ M.card
    · obtain ⟨P, hP, Q, hQ, hPcard, hQcard, hinter⟩ := exists_card_inter hq
      have hle := hshare P hP Q hQ (Nat.le_of_eq hPcard.symm) (Nat.le_of_eq hQcard.symm)
      omega
    · exact .inl (Nat.lt_of_not_le hq)
  · rintro (hnone | hmany) P hP Q hQ hPcard hQcard
    · have hle := Finset.card_le_card hP
      omega
    · have hle := card_add_card_le hP hQ
      omega

end Intersection

/-- Members, the faulty ones among them, and a quorum size that forces two
quorums to share a correct member. -/
structure Committee (V : Type u) [DecidableEq V] where
  /-- Everybody who has a vote. -/
  members : Finset V
  /-- Who may behave arbitrarily. -/
  faulty : Finset V
  /-- The number of votes that decides. -/
  quorum : ℕ
  /-- Two quorums overlap in more members than there are faulty ones. -/
  intersect : members.card + faulty.card < 2 * quorum

namespace Committee

variable {V : Type u} [DecidableEq V] (c : Committee V)

/-- A quorum of members whose correct ones satisfy `p`. -/
def Attests (p : V → Prop) : Prop :=
  ∃ Q ⊆ c.members, c.quorum ≤ Q.card ∧ ∀ v ∈ Q, v ∉ c.faulty → p v

variable {c}

theorem Attests.mono {p q : V → Prop} (h : c.Attests p) (hpq : ∀ v ∉ c.faulty, p v → q v) :
    c.Attests q := by
  obtain ⟨Q, hQ, hcard, hp⟩ := h
  exact ⟨Q, hQ, hcard, fun v hv hf => hpq v hf (hp v hv hf)⟩

/-- **Two quorums have a correct member in common.** -/
theorem Attests.exists_correct {p q : V → Prop} (hp : c.Attests p) (hq : c.Attests q) :
    ∃ v ∈ c.members, v ∉ c.faulty ∧ p v ∧ q v := by
  obtain ⟨P, hP, hPcard, hPp⟩ := hp
  obtain ⟨Q, hQ, hQcard, hQq⟩ := hq
  have hlt : c.faulty.card < (P ∩ Q).card := by
    have hle := card_add_card_le hP hQ
    have := c.intersect
    omega
  obtain ⟨v, hv, hf⟩ := Finset.exists_mem_notMem_of_card_lt_card hlt
  obtain ⟨hvP, hvQ⟩ := Finset.mem_inter.mp hv
  exact ⟨v, hP hvP, hf, hPp v hvP hf, hQq v hvQ hf⟩

/-- A quorum has a correct member. -/
theorem Attests.exists_one {p : V → Prop} (hp : c.Attests p) : ∃ v ∈ c.members, v ∉ c.faulty ∧ p v := by
  obtain ⟨v, hv, hf, hpv, -⟩ := hp.exists_correct hp
  exact ⟨v, hv, hf, hpv⟩

end Committee

end MoltMesh.Lib
