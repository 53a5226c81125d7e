import Mathlib.Data.List.Basic
import Mathlib.Tactic.Common

/-!
# Numbered logs

A log whose elements carry their own numbers is contiguous from `base` if these
are `base + 1, base + 2, …`.  The lemmas say how the numbers, the bounds and the
elements of such a log determine each other.  The last sections are about logs of
what has happened, of which one looks at the part so far or the part since, and in
which the same thing may happen again.
-/

namespace MoltMesh.Lib

universe u

variable {α : Type u} {idx : α → Nat}

/-- The elements of `l` are numbered `base + 1, base + 2, …`. -/
def Contiguous (idx : α → Nat) : Nat → List α → Prop
  | _, [] => True
  | base, a :: l => idx a = base + 1 ∧ Contiguous idx (base + 1) l

instance (base : Nat) (l : List α) : Decidable (Contiguous idx base l) := by
  induction l generalizing base with
  | nil => exact isTrue trivial
  | cons a l ih => exact @instDecidableAnd _ _ _ (ih (base + 1))

namespace Contiguous

variable {base : Nat} {a : α} {l m : List α}

@[simp] theorem nil : Contiguous idx base [] := trivial

theorem append_iff :
    Contiguous idx base (l ++ m) ↔ Contiguous idx base l ∧ Contiguous idx (base + l.length) m := by
  induction l generalizing base with
  | nil => simp
  | cons a l ih =>
    have hlen : base + 1 + l.length = base + (a :: l).length := by
      rw [List.length_cons]
      omega
    simp only [List.cons_append, Contiguous, ih, hlen, and_assoc]

theorem take (h : Contiguous idx base l) (n : Nat) : Contiguous idx base (l.take n) := by
  rw [← List.take_append_drop n l] at h
  exact (append_iff.mp h).1

theorem drop (h : Contiguous idx base l) {n : Nat} (hn : n ≤ l.length) :
    Contiguous idx (base + n) (l.drop n) := by
  rw [← List.take_append_drop n l] at h
  have hd := (append_iff.mp h).2
  rwa [List.length_take_of_le hn] at hd

theorem getElem? (h : Contiguous idx base l) {i : Nat} (hi : l[i]? = some a) :
    idx a = base + i + 1 := by
  induction l generalizing base i with
  | nil => cases hi
  | cons b l ih =>
    cases i with
    | zero =>
      obtain rfl := Option.some.inj hi
      exact h.1
    | succ i =>
      rw [ih h.2 hi]
      omega

theorem mem (h : Contiguous idx base l) (ha : a ∈ l) : base < idx a ∧ idx a ≤ base + l.length := by
  obtain ⟨i, hi⟩ := List.getElem?_of_mem ha
  have hlt := (List.getElem?_eq_some_iff.mp hi).1
  rw [h.getElem? hi]
  omega

/-- Every number within the bounds is taken. -/
theorem exists_mem (h : Contiguous idx base l) {n : Nat} (hlo : base < n) (hhi : n ≤ base + l.length) :
    ∃ a ∈ l, idx a = n := by
  have hlt : n - base - 1 < l.length := by omega
  refine ⟨l[n - base - 1], List.getElem_mem hlt, ?_⟩
  rw [h.getElem? (List.getElem?_eq_getElem hlt)]
  omega

theorem pairwise (h : Contiguous idx base l) : l.Pairwise fun a b => idx a < idx b := by
  induction l generalizing base with
  | nil => exact .nil
  | cons a l ih =>
    refine .cons (fun b hb => ?_) (ih h.2)
    rw [h.1]
    exact (h.2.mem hb).1

/-- The elements numbered up to `n` are the first ones. -/
theorem mem_take_iff (h : Contiguous idx base l) (ha : a ∈ l) {n : Nat} :
    a ∈ l.take n ↔ idx a ≤ base + n := by
  rw [List.mem_take_iff_getElem]
  constructor
  · rintro ⟨i, hi, rfl⟩
    rw [h.getElem? (List.getElem?_eq_getElem (Nat.lt_of_lt_of_le hi (Nat.min_le_right _ _)))]
    have := Nat.lt_of_lt_of_le hi (Nat.min_le_left _ _)
    omega
  · intro hle
    obtain ⟨i, hi⟩ := List.getElem?_of_mem ha
    obtain ⟨hlt, rfl⟩ := List.getElem?_eq_some_iff.mp hi
    rw [h.getElem? hi] at hle
    exact ⟨i, Nat.lt_min.mpr ⟨by omega, hlt⟩, rfl⟩

end Contiguous

/-! ## Splicing -/

/-- The elements of `m` replace those of `l` from position `n` on, and what `l` has beyond them
stays. -/
def splice (l : List α) (n : Nat) (m : List α) : List α := l.take n ++ m ++ l.drop (n + m.length)

section Splice

variable {base n : Nat} {a : α} {l m : List α}

theorem length_splice (hn : n ≤ l.length) : (splice l n m).length = max l.length (n + m.length) := by
  rw [splice, List.length_append, List.length_append, List.length_take_of_le hn, List.length_drop]
  omega

theorem splice_of_le (h : l.length ≤ n + m.length) : splice l n m = l.take n ++ m := by
  rw [splice, List.drop_eq_nil_of_le h, List.append_nil]

theorem Contiguous.splice (hl : Contiguous idx base l) (hm : Contiguous idx (base + n) m)
    (hn : n ≤ l.length) : Contiguous idx base (splice l n m) := by
  have hlen : (l.take n).length = n := List.length_take_of_le hn
  refine append_iff.mpr ⟨append_iff.mpr ⟨hl.take n, hlen.symm ▸ hm⟩, ?_⟩
  rw [List.length_append, hlen]
  by_cases hle : n + m.length ≤ l.length
  · exact hl.drop hle
  · rw [List.drop_eq_nil_of_le (Nat.le_of_not_le hle)]
    trivial

/-- A splice of numbered elements replaces those whose numbers are written again. -/
theorem Contiguous.mem_splice (hl : Contiguous idx base l) (hm : Contiguous idx (base + n) m)
    (hn : n ≤ l.length) :
    a ∈ Lib.splice l n m ↔ a ∈ m ∨ a ∈ l ∧ idx a ∉ m.map idx := by
  have hwritten (k : Nat) : k ∈ m.map idx ↔ base + n < k ∧ k ≤ base + n + m.length := by
    rw [List.mem_map]
    constructor
    · rintro ⟨b, hb, rfl⟩
      exact hm.mem hb
    · rintro ⟨hlo, hhi⟩
      exact hm.exists_mem hlo hhi
  rw [hwritten, Lib.splice, List.mem_append, List.mem_append]
  constructor
  · rintro ((ha | ha) | ha)
    · have hidx := (hl.take n).mem ha
      rw [List.length_take_of_le hn] at hidx
      exact .inr ⟨List.mem_of_mem_take ha, by omega⟩
    · exact .inl ha
    · have hlt : n + m.length < l.length := by
        by_contra hge
        rw [List.drop_eq_nil_of_le (Nat.le_of_not_lt hge)] at ha
        exact absurd ha List.not_mem_nil
      have hidx := (hl.drop (Nat.le_of_lt hlt)).mem ha
      exact .inr ⟨List.mem_of_mem_drop ha, by omega⟩
  · rintro (ha | ⟨ha, hout⟩)
    · exact .inl (.inr ha)
    · by_cases hlow : idx a ≤ base + n
      · exact .inl (.inl ((hl.mem_take_iff ha).mpr hlow))
      · right
        have hnot : a ∉ l.take (n + m.length) := by
          rw [hl.mem_take_iff ha]
          omega
        rw [← List.take_append_drop (n + m.length) l] at ha
        exact (List.mem_append.mp ha).resolve_left hnot

end Splice

/-! ## Prefixes and suffixes -/

theorem suffix_concat {x a : α} {t s : List α} (h : x :: s <:+ t ++ [a]) :
    (x = a ∧ s = []) ∨ ∃ s', s = s' ++ [a] ∧ x :: s' <:+ t := by
  rcases List.suffix_concat_iff.mp h with h | ⟨l, hl, hsuf⟩
  · cases h
  · cases l with
    | nil =>
      obtain ⟨rfl, rfl⟩ := List.cons.inj hl
      exact .inl ⟨rfl, rfl⟩
    | cons y l =>
      obtain ⟨rfl, rfl⟩ := List.cons.inj hl
      exact .inr ⟨l, rfl, hsuf⟩

theorem prefix_append_cases {p s t : List α} (h : p <+: s ++ t) :
    p <+: s ∨ ∃ p', p = s ++ p' ∧ p' <+: t := by
  rcases List.prefix_or_prefix_of_prefix h (List.prefix_append s t) with h' | ⟨p', rfl⟩
  · exact .inl h'
  · exact .inr ⟨p', rfl, (List.prefix_append_right_inj s).mp h⟩

/-! ## Happening again -/

section Again

variable {α : Type u} [DecidableEq α]

theorem nodup_eraseDups (l : List α) : l.eraseDups.Nodup := by
  induction hn : l.length using Nat.strongRecOn generalizing l with
  | ind n ih =>
    cases l with
    | nil => exact List.nodup_nil
    | cons a l =>
      rw [List.eraseDups_cons, List.nodup_cons]
      constructor
      · simp [List.mem_eraseDups]
      · refine ih _ ?_ _ rfl
        have hle := List.length_filter_le (fun b => !b == a) l
        rw [List.length_cons] at hn
        omega

/-- Two beginnings of what happens, without repetitions, are the same if they have the same
elements. -/
theorem eraseDups_eq_of_prefix {l m log : List α} (hl : l.eraseDups <+: log.eraseDups)
    (hm : m.eraseDups <+: log.eraseDups) (h : ∀ a, a ∈ l ↔ a ∈ m) : l.eraseDups = m.eraseDups := by
  have hperm : l.eraseDups.Perm m.eraseDups := by
    rw [List.perm_ext_iff_of_nodup (nodup_eraseDups l) (nodup_eraseDups m)]
    simpa only [List.mem_eraseDups] using h
  exact (List.prefix_of_prefix_length_le hl hm (Nat.le_of_eq hperm.length_eq)).eq_of_length hperm.length_eq

variable {β : Type*} {f : β → α → β}

/-- What has been done for good is not done again. -/
theorem foldl_filter_of_done (hkeep : ∀ b a c, f b a = b → f (f b c) a = f b c) {b : β} {a : α}
    (h : f b a = b) (l : List α) : (l.filter fun c => !c == a).foldl f b = l.foldl f b := by
  induction l generalizing b with
  | nil => rfl
  | cons c l ih =>
    rcases eq_or_ne c a with rfl | hne
    · rw [List.filter_cons_of_neg (by simp), List.foldl_cons, h]
      exact ih h
    · rw [List.filter_cons_of_pos (by simpa using hne), List.foldl_cons, List.foldl_cons]
      exact ih (hkeep b a c h)

/-- **Repetitions do not matter** when doing something again does nothing. -/
theorem foldl_eraseDups (hagain : ∀ b a, f (f b a) a = f b a)
    (hkeep : ∀ b a c, f b a = b → f (f b c) a = f b c) (b : β) (l : List α) :
    l.eraseDups.foldl f b = l.foldl f b := by
  induction hn : l.length using Nat.strongRecOn generalizing l b with
  | ind n ih =>
    cases l with
    | nil => rfl
    | cons a l =>
      rw [List.eraseDups_cons, List.foldl_cons, List.foldl_cons,
        ← foldl_filter_of_done hkeep (hagain b a) l]
      refine ih _ ?_ _ _ rfl
      have hle := List.length_filter_le (fun c => !c == a) l
      rw [List.length_cons] at hn
      omega

end Again

end MoltMesh.Lib
