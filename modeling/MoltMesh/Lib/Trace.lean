import Mathlib.Data.List.Induction
import Mathlib.Tactic.Common

/-!
# Runs and their past

A machine takes inputs one after another, and each of them gives an output and the next
state.  A turn is one input with the states around it; the turns of a run are its past,
and its moments are the states it has been in.

`turns_induction` is the rule for properties of a state together with its past,
`invariant_of_turns` the one for properties that a step keeps under a condition, and
`invariant_iff` the one for those that it breaks without the condition.  `Since p q` is
the operator of temporal logic: `q` has been the case, and `p` ever since.
-/

namespace MoltMesh.Lib

universe u v w

/-- One input of a machine with its output and the states around it. -/
structure Turn (σ : Type u) (ι : Type v) (ο : Type w) where
  before : σ
  input : ι
  output : ο
  after : σ

section Machine

variable {σ : Type u} {ι : Type v} {ο : Type w} (step : σ → ι → ο × σ)

/-- The turn an input makes in a state. -/
def turn (s : σ) (i : ι) : Turn σ ι ο := ⟨s, i, (step s i).1, (step s i).2⟩

/-- The state after a list of inputs. -/
def runs (s : σ) (is : List ι) : σ := is.foldl (fun s i => (step s i).2) s

/-- The turns of a run, oldest first. -/
def turns : σ → List ι → List (Turn σ ι ο)
  | _, [] => []
  | s, i :: is => turn step s i :: turns (step s i).2 is

/-- The states of a run, the first one included. -/
def moments (s : σ) (is : List ι) : List σ := s :: (turns step s is).map Turn.after

variable {step} {s : σ} {is : List ι} {i : ι}

@[simp] theorem turns_nil : turns step s [] = [] := rfl

@[simp] theorem runs_nil : runs step s [] = s := rfl

@[simp] theorem runs_concat : runs step s (is ++ [i]) = (step (runs step s is) i).2 := by
  rw [runs, List.foldl_append]
  rfl

@[simp] theorem turns_concat :
    turns step s (is ++ [i]) = turns step s is ++ [turn step (runs step s is) i] := by
  induction is generalizing s with
  | nil => rfl
  | cons j is ih => exact congrArg (turn step s j :: ·) ih

@[simp] theorem moments_concat :
    moments step s (is ++ [i]) = moments step s is ++ [(step (runs step s is) i).2] := by
  rw [moments, moments, turns_concat, List.map_append]
  rfl

@[simp] theorem map_input_turns : (turns step s is).map Turn.input = is := by
  induction is generalizing s with
  | nil => rfl
  | cons i is ih => exact congrArg (i :: ·) ih

theorem runs_mem_moments : runs step s is ∈ moments step s is := by
  induction is using List.reverseRecOn with
  | nil => exact List.mem_singleton_self _
  | append_singleton is i _ =>
    rw [moments_concat, runs_concat]
    exact List.mem_append_right _ (List.mem_singleton_self _)

/-- Every turn of a run is made in one of its states. -/
theorem exists_of_mem_turns {t : Turn σ ι ο} (h : t ∈ turns step s is) : ∃ s' i, t = turn step s' i := by
  induction is generalizing s with
  | nil => cases h
  | cons j is ih =>
    rcases List.mem_cons.mp h with rfl | h
    · exact ⟨s, j, rfl⟩
    · exact ih h

/-- A turn of a run with the run before it. -/
theorem turns_eq_append_cons {l₁ l₂ : List (Turn σ ι ο)} {t : Turn σ ι ο} (h : turns step s is = l₁ ++ t :: l₂) :
    ∃ is₁ i is₂, is = is₁ ++ i :: is₂ ∧ l₁ = turns step s is₁ ∧ t = turn step (runs step s is₁) i := by
  induction l₁ generalizing s is with
  | nil =>
    cases is with
    | nil => cases h
    | cons i is => exact ⟨[], i, is, rfl, rfl, (List.cons.inj h).1.symm⟩
  | cons t' l₁ ih =>
    cases is with
    | nil => cases h
    | cons i is =>
      obtain ⟨rfl, hrest⟩ := List.cons.inj h
      obtain ⟨is₁, j, is₂, rfl, rfl, rfl⟩ := ih hrest
      exact ⟨i :: is₁, j, is₂, rfl, rfl, rfl⟩

/-- **The rule for a state with its past**: what holds at first and is kept by every turn holds at the end
of every run. -/
theorem turns_induction {motive : List (Turn σ ι ο) → σ → Prop} (nil : motive [] s)
    (concat : ∀ l s' i, motive l s' → motive (l ++ [turn step s' i]) (step s' i).2) (is : List ι) :
    motive (turns step s is) (runs step s is) := by
  induction is using List.reverseRecOn with
  | nil => exact nil
  | append_singleton is i ih =>
    rw [turns_concat, runs_concat]
    exact concat _ _ _ ih

/-- **The rule for an invariant**: what holds at first and is kept by every step that meets a condition holds at
every moment of a run whose steps meet it. -/
theorem invariant_of_turns {good : σ → Prop} {ok : σ → ι → Prop}
    (hstep : ∀ s' i, good s' → ok s' i → good (step s' i).2) (hs : good s)
    (hok : ∀ t ∈ turns step s is, ok t.before t.input) : ∀ m ∈ moments step s is, good m := by
  induction is generalizing s with
  | nil => exact fun m hm => List.mem_singleton.mp hm ▸ hs
  | cons i is ih =>
    obtain ⟨hnow, hlater⟩ := List.forall_mem_cons.mp hok
    exact List.forall_mem_cons.mpr ⟨hs, ih (hstep s i hs hnow) hlater⟩

/-- **The rule for an invariant with a condition**: where a step from a good state ends in a good state
exactly if it meets a condition, a run stays good exactly if all its steps meet the condition. -/
theorem invariant_iff {good : σ → Prop} {ok : σ → ι → Prop}
    (hstep : ∀ s' i, good s' → (good (step s' i).2 ↔ ok s' i)) (hs : good s) :
    (∀ m ∈ moments step s is, good m) ↔ ∀ t ∈ turns step s is, ok t.before t.input := by
  refine ⟨fun h => ?_, invariant_of_turns (fun s' i hgood => (hstep s' i hgood).mpr) hs⟩
  induction is generalizing s with
  | nil => exact fun t ht => absurd ht List.not_mem_nil
  | cons i is ih =>
    obtain ⟨-, hlater⟩ := List.forall_mem_cons.mp h
    have hnext : good (step s i).2 := hlater _ List.mem_cons_self
    exact List.forall_mem_cons.mpr ⟨(hstep s i hs).mp hnext, ih hnext hlater⟩

end Machine

/-! ## Since -/

section Since

variable {α : Type u} {p p' q q' : α → Prop} {l : List α} {a : α}

/-- At some place of the list `q` holds, and `p` at every later one. -/
def Since (p q : α → Prop) (l : List α) : Prop :=
  ∃ l₁ a l₂, l = l₁ ++ a :: l₂ ∧ q a ∧ ∀ b ∈ l₂, p b

theorem since_concat : Since p q (l ++ [a]) ↔ q a ∨ p a ∧ Since p q l := by
  constructor
  · rintro ⟨l₁, b, l₂, hl, hb, hrest⟩
    induction l₂ using List.reverseRecOn with
    | nil =>
      obtain ⟨-, hab⟩ := List.append_inj' hl rfl
      obtain rfl := List.singleton_inj.mp hab
      exact .inl hb
    | append_singleton l₂ c _ =>
      rw [← List.cons_append, ← List.append_assoc] at hl
      obtain ⟨rfl, hc⟩ := List.append_inj' hl rfl
      obtain rfl := List.singleton_inj.mp hc
      refine .inr ⟨hrest a (by simp), l₁, b, l₂, rfl, hb, fun d hd => hrest d (by simp [hd])⟩
  · rintro (ha | ⟨ha, l₁, b, l₂, rfl, hb, hrest⟩)
    · exact ⟨l, a, [], rfl, ha, fun _ h => absurd h List.not_mem_nil⟩
    · refine ⟨l₁, b, l₂ ++ [a], by simp, hb, fun c hc => ?_⟩
      rcases List.mem_append.mp hc with hc | hc
      · exact hrest c hc
      · rwa [List.mem_singleton.mp hc]

theorem Since.imp (h : Since p q l) (hp : ∀ a ∈ l, p a → p' a) (hq : ∀ a ∈ l, q a → q' a) : Since p' q' l := by
  obtain ⟨l₁, a, l₂, rfl, ha, hrest⟩ := h
  exact ⟨l₁, a, l₂, rfl, hq a (by simp) ha, fun b hb => hp b (by simp [hb]) (hrest b hb)⟩

end Since

end MoltMesh.Lib
