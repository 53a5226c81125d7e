import Mathlib.Data.List.Basic
import Mathlib.Data.List.Pairwise
import Mathlib.Tactic.Common

/-!
# Linked chains

A chain is a list of blocks numbered without gaps in which every block names
the one below it.  What a block is does not matter: `Links` says how to read its
number, the name it has and the name of its parent.

`Linked` is defined along the list from its oldest block on, the way a verifier
walks it.  A writer adds blocks at the other end, and `linked_concat` is the rule
for that.
-/

namespace MoltMesh.Lib

universe u v

/-- How blocks of type `β` are numbered and linked by names of type `η`. -/
structure Links (β : Type u) (η : Type v) where
  height : β → Int
  parent : β → η
  name : β → η

namespace Links

variable {β : Type u} {η : Type v} (K : Links β η)

/-- The blocks of a list are numbered from `h` on, and each names the one before it, the first one
`p`. -/
def Linked : Int → η → List β → Prop
  | _, _, [] => True
  | h, p, b :: l => K.height b = h ∧ K.parent b = p ∧ Linked (h + 1) (K.name b) l

/-- The name of the newest block, `p` if there is none. -/
def tip (p : η) (l : List β) : η := (l.getLast?.map K.name).getD p

variable {K} {h : Int} {p : η} {b : β} {l m : List β}

@[simp] theorem linked_nil : K.Linked h p [] := trivial

@[simp] theorem tip_nil : K.tip p [] = p := rfl

@[simp] theorem tip_concat : K.tip p (l ++ [b]) = K.name b := by
  rw [tip, List.getLast?_concat]
  rfl

theorem tip_cons : K.tip p (b :: l) = K.tip (K.name b) l := by
  unfold tip
  cases l with
  | nil => rfl
  | cons c l =>
    rw [List.getLast?_cons_cons, List.getLast?_eq_some_getLast (List.cons_ne_nil c l)]
    rfl

theorem tip_congr (hn : l.map K.name = m.map K.name) : K.tip p l = K.tip p m := by
  rw [tip, tip, ← List.getLast?_map, hn, List.getLast?_map]

theorem linked_append :
    K.Linked h p (l ++ m) ↔ K.Linked h p l ∧ K.Linked (h + l.length) (K.tip p l) m := by
  induction l generalizing h p with
  | nil => simp
  | cons b l ih =>
    have hlen : h + 1 + (l.length : Int) = h + ((b :: l).length : Int) := by
      rw [List.length_cons]
      omega
    simp only [List.cons_append, Linked, ih, tip_cons, hlen, and_assoc]

/-- **A chain grows by a block** that has the next number and names the newest one. -/
theorem linked_concat : K.Linked h p (l ++ [b]) ↔
    K.Linked h p l ∧ K.height b = h + l.length ∧ K.parent b = K.tip p l := by
  rw [linked_append]
  exact and_congr_right fun _ => ⟨fun hb => ⟨hb.1, hb.2.1⟩, fun hb => ⟨hb.1, hb.2, trivial⟩⟩

theorem Linked.height_getElem? (hl : K.Linked h p l) {i : Nat} (hi : l[i]? = some b) :
    K.height b = h + i := by
  induction l generalizing h p i with
  | nil => cases hi
  | cons c l ih =>
    cases i with
    | zero =>
      obtain rfl := Option.some.inj hi
      rw [hl.1]
      simp
    | succ i =>
      rw [ih hl.2.2 hi]
      omega

/-- Every block but the first names the one before it. -/
theorem Linked.parent_getElem? (hl : K.Linked h p l) {i : Nat} {c : β} (hb : l[i]? = some b)
    (hc : l[i + 1]? = some c) : K.parent c = K.name b := by
  induction l generalizing h p i with
  | nil => cases hb
  | cons a l ih =>
    cases i with
    | zero =>
      obtain rfl := Option.some.inj hb
      cases l with
      | nil => cases hc
      | cons d l =>
        obtain rfl := Option.some.inj hc
        exact hl.2.2.2.1
    | succ i => exact ih hl.2.2 hb hc

theorem Linked.parent_head? (hl : K.Linked h p l) (hb : l.head? = some b) : K.parent b = p := by
  cases l with
  | nil => cases hb
  | cons a l =>
    obtain rfl := Option.some.inj hb
    exact hl.2.1

theorem Linked.height_mem (hl : K.Linked h p l) (hb : b ∈ l) :
    h ≤ K.height b ∧ K.height b < h + l.length := by
  obtain ⟨i, hi⟩ := List.getElem?_of_mem hb
  have hlt := (List.getElem?_eq_some_iff.mp hi).1
  rw [hl.height_getElem? hi]
  omega

theorem Linked.exists_height (hl : K.Linked h p l) {x : Int} (hge : h ≤ x) (hlt : x < h + l.length) :
    ∃ b ∈ l, K.height b = x := by
  have hi : (x - h).toNat < l.length := by omega
  refine ⟨l[(x - h).toNat], List.getElem_mem hi, ?_⟩
  rw [hl.height_getElem? (List.getElem?_eq_getElem hi)]
  omega

/-- The numbers increase along a chain. -/
theorem Linked.pairwise (hl : K.Linked h p l) : l.Pairwise fun a b => K.height a < K.height b := by
  induction l generalizing h p with
  | nil => exact .nil
  | cons a l ih =>
    refine .cons (fun b hb => ?_) (ih hl.2.2)
    have hh := (hl.2.2.height_mem hb).1
    rw [hl.1]
    omega

/-- A block stands at the place its number says. -/
theorem Linked.getElem?_of_mem (hl : K.Linked h p l) (hb : b ∈ l) {i : Nat} (hi : K.height b = h + i) :
    l[i]? = some b := by
  obtain ⟨j, hj⟩ := List.getElem?_of_mem hb
  have hheight := hl.height_getElem? hj
  obtain rfl : i = j := by omega
  exact hj

theorem Linked.mem_drop (hl : K.Linked h p l) {n : Nat} : b ∈ l.drop n ↔ b ∈ l ∧ h + n ≤ K.height b := by
  constructor
  · intro hb
    obtain ⟨i, hi⟩ := List.getElem?_of_mem hb
    rw [List.getElem?_drop] at hi
    refine ⟨List.mem_of_mem_drop hb, ?_⟩
    rw [hl.height_getElem? hi]
    omega
  · rintro ⟨hb, hle⟩
    obtain ⟨i, hi⟩ := List.getElem?_of_mem hb
    have hheight := hl.height_getElem? hi
    refine List.mem_of_getElem? (i := i - n) ?_
    rw [List.getElem?_drop]
    rwa [show n + (i - n) = i by omega]

/-- The chain above its first blocks. -/
theorem Linked.drop (hl : K.Linked h p l) {n : Nat} (hn : n ≤ l.length) :
    K.Linked (h + n) (K.tip p (l.take n)) (l.drop n) := by
  have hlen : (l.take n).length = n := List.length_take_of_le hn
  rw [← List.take_append_drop n l, linked_append, hlen] at hl
  exact hl.2

/-- Chains that are read off equal blocks are linked alike. -/
theorem linked_map {γ : Type*} {K' : Links γ η} {f : β → γ} (hh : ∀ b, K'.height (f b) = K.height b)
    (hp : ∀ b, K'.parent (f b) = K.parent b) (hn : ∀ b, K'.name (f b) = K.name b) :
    K'.Linked h p (l.map f) ↔ K.Linked h p l := by
  induction l generalizing h p with
  | nil => exact Iff.rfl
  | cons b l ih => simp only [List.map_cons, Linked, ih, hh, hp, hn]

end Links

end MoltMesh.Lib
