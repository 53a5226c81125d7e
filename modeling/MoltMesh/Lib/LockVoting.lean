import MoltMesh.Lib.Quorum
import Mathlib.Logic.Relation
import Mathlib.Order.Defs.LinearOrder

/-!
# Two-phase voting with locks

The safety core of round-based Byzantine agreement, for one decision.  In each
round a member may *prevote* one value; a quorum of prevotes for a value is a
*polka*, on which a member may *precommit* and thereby *lock* the value; a
quorum of precommits decides.  A locked member prevotes another value only
after unlocking, and unlocks only on a polka for another value in a round above
its lock.

Members are described by what they have done (`Voter`) and by the steps the
correct ones may take (`Step`).  Nothing is said about messages, about who
proposes what, or about the order in which rounds are visited other than that
votes are not cast in a round that is already closed.  `agreement` is the
result: two decisions are for the same value.

Only values are voted for here.  A vote for "no value" is, for safety, the same
as closing the round without a vote.
-/

namespace MoltMesh.Lib.LockVoting

universe u v w

/-- What one member has done, and what it can no longer do. -/
structure Voter (R : Type u) (β : Type v) [LinearOrder R] where
  /-- The prevotes it has cast. -/
  prevoted : R → β → Prop
  /-- The precommits it has cast. -/
  precommitted : R → β → Prop
  /-- The rounds in which it will cast no further prevote. -/
  prevoteClosed : R → Prop
  /-- The rounds in which it will cast no further precommit. -/
  precommitClosed : R → Prop
  /-- The round and the value it is locked on. -/
  lock : Option (R × β)
  /-- Precommits are closed in order of the rounds. -/
  precommitClosed_down : ∀ {r r'}, r' ≤ r → precommitClosed r → precommitClosed r'

namespace Voter

variable {R : Type u} {β : Type v} [LinearOrder R]

/-- The two voters have cast the same prevotes. -/
def SamePrevotes (l l' : Voter R β) : Prop := ∀ r B, l'.prevoted r B ↔ l.prevoted r B

/-- The two voters have cast the same precommits. -/
def SamePrecommits (l l' : Voter R β) : Prop := ∀ r B, l'.precommitted r B ↔ l.precommitted r B

/-- Nothing that was closed is open again. -/
structure Closes (l l' : Voter R β) : Prop where
  prevote : ∀ {r}, l.prevoteClosed r → l'.prevoteClosed r
  precommit : ∀ {r}, l.precommitClosed r → l'.precommitClosed r

/-- The member takes no further part in the decision. -/
def Left (l : Voter R β) : Prop := ∀ r, l.prevoteClosed r

/-- The steps of a correct member, given the polkas there are. -/
inductive Step (polka : R → β → Prop) (l l' : Voter R β) : Prop
  /-- Rounds are closed, nothing else happens. -/
  | close (pv : SamePrevotes l l') (pc : SamePrecommits l l') (cl : Closes l l')
    (lock : l'.lock = l.lock)
  /-- The member leaves; its lock does not matter any more. -/
  | leave (pv : SamePrevotes l l') (pc : SamePrecommits l l') (cl : Closes l l') (left : l'.Left)
  /-- A lock is given up for a polka on another value in a later round. -/
  | unlock (pv : SamePrevotes l l') (pc : SamePrecommits l l') (cl : Closes l l') {ρ ρ' : R}
    {B B' : β} (locked : l.lock = some (ρ, B)) (later : ρ < ρ') (other : B' ≠ B)
    (seen : polka ρ' B') (lock : l'.lock = none)
  /-- A prevote in an open round, for the locked value if there is one. -/
  | prevote (r : R) (B : β) (fresh : ¬l.prevoteClosed r) (below : ∀ r' < r, l.precommitClosed r')
    (free : ∀ ρ B', l.lock = some (ρ, B') → B' = B)
    (pv : ∀ r' B', l'.prevoted r' B' ↔ l.prevoted r' B' ∨ (r' = r ∧ B' = B))
    (pc : SamePrecommits l l') (cl : Closes l l') (closed : l'.prevoteClosed r)
    (lock : l'.lock = l.lock)
  /-- A precommit in an open round, on a polka of that round, which locks. -/
  | precommit (r : R) (B : β) (fresh : ¬l.precommitClosed r) (seen : polka r B)
    (pv : SamePrevotes l l')
    (pc : ∀ r' B', l'.precommitted r' B' ↔ l.precommitted r' B' ∨ (r' = r ∧ B' = B))
    (cl : Closes l l') (closed : l'.precommitClosed r) (lock : l'.lock = some (r, B))

variable {polka : R → β → Prop} {l l' : Voter R β} {r : R} {B : β}

/-- More polkas allow more steps. -/
theorem Step.mono {polka' : R → β → Prop}
    (hp : ∀ r B, polka r B → polka' r B) (h : Step polka l l') : Step polka' l l' := by
  cases h with
  | close pv pc cl lock => exact .close pv pc cl lock
  | leave pv pc cl left => exact .leave pv pc cl left
  | unlock pv pc cl locked later other seen lock =>
    exact .unlock pv pc cl locked later other (hp _ _ seen) lock
  | prevote r B fresh below free pv pc cl closed lock =>
    exact .prevote r B fresh below free pv pc cl closed lock
  | precommit r B fresh seen pv pc cl closed lock =>
    exact .precommit r B fresh (hp _ _ seen) pv pc cl closed lock

theorem Step.closes (h : Step polka l l') : Closes l l' := by
  cases h <;> assumption

theorem Step.prevoted_mono (h : Step polka l l') (hl : l.prevoted r B) : l'.prevoted r B := by
  cases h with
  | close pv _ _ _ => exact (pv r B).mpr hl
  | leave pv _ _ _ => exact (pv r B).mpr hl
  | unlock pv _ _ _ _ _ _ _ => exact (pv r B).mpr hl
  | prevote _ _ _ _ _ pv _ _ _ _ => exact (pv r B).mpr (.inl hl)
  | precommit _ _ _ _ pv _ _ _ _ => exact (pv r B).mpr hl

/-- In a closed round no precommit is added. -/
theorem Step.precommitted_of_closed
    (h : Step polka l l') (hc : l.precommitClosed r) (hl : l'.precommitted r B) :
    l.precommitted r B := by
  cases h with
  | close _ pc _ _ => exact (pc r B).mp hl
  | leave _ pc _ _ => exact (pc r B).mp hl
  | unlock _ pc _ _ _ _ _ _ => exact (pc r B).mp hl
  | prevote _ _ _ _ _ _ pc _ _ _ => exact (pc r B).mp hl
  | precommit _ _ fresh _ _ pc _ _ _ =>
    rcases (pc r B).mp hl with hold | ⟨rfl, rfl⟩
    · exact hold
    · exact absurd hc fresh

/-- The member has kept to `B` since it precommitted `B` in round `r`: no prevote
above `r` was for another value, and it is still locked on `B` unless it has left. -/
structure Faithful (l : Voter R β) (r : R) (B : β) : Prop where
  above : ∀ r' B', r < r' → l.prevoted r' B' → B' = B
  held : l.Left ∨ ∃ ρ, r ≤ ρ ∧ l.lock = some (ρ, B)

/-- What holds of a correct member by itself, whatever the others do. -/
structure Orderly (l : Voter R β) : Prop where
  prevoted_closed : ∀ {r B}, l.prevoted r B → l.prevoteClosed r
  prevoted_below : ∀ {r r' B}, l.prevoted r B → r' < r → l.precommitClosed r'
  precommitted_closed : ∀ {r B}, l.precommitted r B → l.precommitClosed r
  precommitted_unique : ∀ {r B B'}, l.precommitted r B → l.precommitted r B' → B = B'

theorem Orderly.step (hl : l.Orderly) (h : Step polka l l') : l'.Orderly := by
  have hcl := h.closes
  cases h with
  | close pv pc _ _ | leave pv pc _ _ | unlock pv pc _ _ _ _ _ _ =>
    exact ⟨fun hp => hcl.prevote (hl.prevoted_closed ((pv _ _).mp hp)),
      fun hp hr => hcl.precommit (hl.prevoted_below ((pv _ _).mp hp) hr),
      fun hp => hcl.precommit (hl.precommitted_closed ((pc _ _).mp hp)),
      fun hp hp' => hl.precommitted_unique ((pc _ _).mp hp) ((pc _ _).mp hp')⟩
  | prevote r B fresh below _ pv pc _ closed _ =>
    refine ⟨?_, ?_, fun hp => hcl.precommit (hl.precommitted_closed ((pc _ _).mp hp)),
      fun hp hp' => hl.precommitted_unique ((pc _ _).mp hp) ((pc _ _).mp hp')⟩
    · intro r' B' hp
      rcases (pv r' B').mp hp with hold | ⟨rfl, rfl⟩
      · exact hcl.prevote (hl.prevoted_closed hold)
      · exact closed
    · intro r₁ r₂ B' hp hr
      rcases (pv r₁ B').mp hp with hold | ⟨rfl, rfl⟩
      · exact hcl.precommit (hl.prevoted_below hold hr)
      · exact hcl.precommit (below r₂ hr)
  | precommit r B fresh _ pv pc _ closed _ =>
    refine ⟨fun hp => hcl.prevote (hl.prevoted_closed ((pv _ _).mp hp)),
      fun hp hr => hcl.precommit (hl.prevoted_below ((pv _ _).mp hp) hr), ?_, ?_⟩
    · intro r' B' hp
      rcases (pc r' B').mp hp with hold | ⟨rfl, rfl⟩
      · exact hcl.precommit (hl.precommitted_closed hold)
      · exact closed
    · intro r' B₁ B₂ h₁ h₂
      rcases (pc r' B₁).mp h₁ with h₁ | ⟨rfl, rfl⟩ <;> rcases (pc r' B₂).mp h₂ with h₂ | ⟨e, rfl⟩
      · exact hl.precommitted_unique h₁ h₂
      · exact absurd (e ▸ hl.precommitted_closed h₁) fresh
      · exact absurd (hl.precommitted_closed h₂) fresh
      · rfl

/-- A faithful member stays faithful as long as the polkas above `r` are for `B`. -/
theorem Faithful.step (hf : l.Faithful r B) (ho : l.Orderly) (hp : l.precommitted r B)
    (only : ∀ r' B', r < r' → polka r' B' → B' = B) (h : Step polka l l') : l'.Faithful r B := by
  have hcl := h.closes
  have left_mono : l.Left → l'.Left := fun hleft r' => hcl.prevote (hleft r')
  cases h with
  | close pv _ _ lock =>
    refine ⟨fun r' B' hr hv => hf.above r' B' hr ((pv _ _).mp hv), ?_⟩
    rw [lock]
    exact hf.held.imp_left left_mono
  | leave pv _ _ left => exact ⟨fun r' B' hr hv => hf.above r' B' hr ((pv _ _).mp hv), .inl left⟩
  | unlock pv _ _ locked later other seen _ =>
    refine ⟨fun r' B' hr hv => hf.above r' B' hr ((pv _ _).mp hv), ?_⟩
    rcases hf.held with hleft | ⟨ρ, hρ, hlock⟩
    · exact .inl (left_mono hleft)
    · obtain ⟨rfl, rfl⟩ : _ ∧ _ := by simpa using hlock.symm.trans locked
      exact absurd (only _ _ (hρ.trans_lt later) seen) other
  | prevote r₁ B₁ fresh _ free pv _ _ _ lock =>
    refine ⟨?_, by rw [lock]; exact hf.held.imp_left left_mono⟩
    intro r' B' hr hv
    rcases (pv r' B').mp hv with hold | ⟨rfl, rfl⟩
    · exact hf.above r' B' hr hold
    · rcases hf.held with hleft | ⟨ρ, -, hlock⟩
      · exact absurd (hleft r') fresh
      · exact (free ρ B hlock).symm
  | precommit r₁ B₁ fresh seen pv _ _ _ lock =>
    have hlt : r < r₁ := lt_of_not_ge fun hle =>
      fresh (l.precommitClosed_down hle (ho.precommitted_closed hp))
    refine ⟨fun r' B' hr hv => hf.above r' B' hr ((pv _ _).mp hv), .inr ⟨r₁, hlt.le, ?_⟩⟩
    rw [lock, only r₁ B₁ hlt seen]

end Voter

/-! ## The system -/

section System

variable {V : Type w} [DecidableEq V] {R : Type u} {β : Type v} [LinearOrder R]
variable (c : Committee V) (S : V → Voter R β)

/-- A quorum of prevotes for `B` in round `r`. -/
def Polka (r : R) (B : β) : Prop := c.Attests fun v => (S v).prevoted r B

/-- A quorum of precommits for `B` in round `r`. -/
def Decided (r : R) (B : β) : Prop := c.Attests fun v => (S v).precommitted r B

/-- A quorum has closed round `r` without a precommit for `B`, so `B` is never decided there. -/
def Excluded (r : R) (B : β) : Prop :=
  c.Attests fun v => (S v).precommitClosed r ∧ ¬(S v).precommitted r B

/-- No polka above `r` is for another value than `B`, and whoever precommitted `B` in `r` has kept
to it. -/
structure Secured (r : R) (B : β) : Prop where
  only : ∀ r' B', r < r' → Polka c S r' B' → B' = B
  kept : ∀ v ∉ c.faulty, (S v).precommitted r B → (S v).Faithful r B

/-- The invariant of the correct members' steps. -/
structure Inv : Prop where
  orderly : ∀ v ∉ c.faulty, (S v).Orderly
  polka : ∀ v ∉ c.faulty, ∀ {r B}, (S v).precommitted r B → Polka c S r B
  secured : ∀ r B, Secured c S r B ∨ Excluded c S r B

variable {c S}

/-- A member's prevotes only grow, and so do the polkas. -/
theorem Polka.mono {S' : V → Voter R β} (h : ∀ v r B, (S v).prevoted r B → (S' v).prevoted r B)
    {r : R} {B : β} (hp : Polka c S r B) : Polka c S' r B :=
  Committee.Attests.mono hp fun v _ hv => h v r B hv

/-- Before anybody has voted, the invariant holds. -/
theorem Inv.initial (hv : ∀ v r B, ¬(S v).prevoted r B) (hc : ∀ v r B, ¬(S v).precommitted r B) :
    Inv c S where
  orderly v _ := ⟨fun h => absurd h (hv _ _ _), fun h => absurd h (hv _ _ _),
    fun h => absurd h (hc _ _ _), fun h => absurd h (hc _ _ _)⟩
  polka v _ _ _ h := absurd h (hc _ _ _)
  secured r B := by
    refine .inl ⟨fun r' B' _ hp => ?_, fun v _ h => absurd h (hc _ _ _)⟩
    obtain ⟨v, -, -, h⟩ := hp.exists_one
    exact absurd h (hv _ _ _)

variable {v : V} {l : Voter R β}

theorem prevoted_update_mono (h : Voter.Step (Polka c S) (S v) l) (w : V) (r : R) (B : β)
    (hp : (S w).prevoted r B) : (Function.update S v l w).prevoted r B := by
  by_cases hw : w = v
  · subst hw
    rw [Function.update_self]
    exact h.prevoted_mono hp
  · rwa [Function.update_of_ne hw]

theorem Excluded.update (h : Voter.Step (Polka c S) (S v) l) {r : R} {B : β}
    (he : Excluded c S r B) : Excluded c (Function.update S v l) r B := by
  refine he.mono fun w _ hw => ?_
  by_cases hv : w = v
  · subst hv
    rw [Function.update_self]
    exact ⟨h.closes.precommit hw.1, fun hp => hw.2 (h.precommitted_of_closed hw.1 hp)⟩
  · rwa [Function.update_of_ne hv]

/-- Whoever holds a precommit for `B` in round `r` after the step is faithful to `B`. -/
theorem Inv.kept_update (hI : Inv c S) (hv : v ∉ c.faulty) (h : Voter.Step (Polka c S) (S v) l)
    {r : R} {B : β} (hs : Secured c S r B) (w : V) (hw : w ∉ c.faulty)
    (hp : (Function.update S v l w).precommitted r B) : (Function.update S v l w).Faithful r B := by
  by_cases hwv : w = v
  · subst hwv
    rw [Function.update_self] at hp ⊢
    by_cases hold : (S w).precommitted r B
    · exact (hs.kept w hw hold).step (hI.orderly w hw) hold hs.only h
    -- The precommit is new, so the step is the one that cast it.
    · cases h with
      | close _ pc _ _ | leave _ pc _ _ | unlock _ pc _ _ _ _ _ _ | prevote _ _ _ _ _ _ pc _ _ _ =>
        exact absurd ((pc r B).mp hp) hold
      | precommit r₁ B₁ fresh _ pv pc _ _ lock =>
        obtain ⟨rfl, rfl⟩ := ((pc r B).mp hp).resolve_left hold
        refine ⟨fun r' B' hr hv => ?_, .inr ⟨r, le_rfl, lock⟩⟩
        exact absurd ((hI.orderly w hw).prevoted_below ((pv _ _).mp hv) hr) fresh
  · rw [Function.update_of_ne hwv] at hp ⊢
    exact hs.kept w hw hp

/-- **One step of a correct member keeps the invariant.** -/
theorem Inv.step (hI : Inv c S) (hv : v ∉ c.faulty) (h : Voter.Step (Polka c S) (S v) l) :
    Inv c (Function.update S v l) := by
  have horderly : ∀ w ∉ c.faulty, (Function.update S v l w).Orderly := by
    intro w hw
    by_cases hwv : w = v
    · subst hwv
      rw [Function.update_self]
      exact (hI.orderly w hw).step h
    · rw [Function.update_of_ne hwv]
      exact hI.orderly w hw
  refine ⟨horderly, ?_, ?_⟩
  · intro w hw r B hp
    by_cases hwv : w = v
    · subst hwv
      rw [Function.update_self] at hp
      by_cases hold : (S w).precommitted r B
      · exact (hI.polka w hw hold).mono (prevoted_update_mono h)
      · refine Polka.mono (prevoted_update_mono h) ?_
        cases h with
        | close _ pc _ _ | leave _ pc _ _ | unlock _ pc _ _ _ _ _ _ | prevote _ _ _ _ _ _ pc _ _ _ =>
          exact absurd ((pc r B).mp hp) hold
        | precommit r₁ B₁ _ seen _ pc _ _ _ =>
          obtain ⟨rfl, rfl⟩ := ((pc r B).mp hp).resolve_left hold
          exact seen
    · rw [Function.update_of_ne hwv] at hp
      exact (hI.polka w hw hp).mono (prevoted_update_mono h)
  · intro r B
    rcases hI.secured r B with hs | he
    · have hkept := hI.kept_update hv h hs
      by_cases honly : ∀ r' B', r < r' → Polka c (Function.update S v l) r' B' → B' = B
      · exact .inl ⟨honly, hkept⟩
      -- A polka for another value above `r`: its correct members have closed `r` and,
      -- having prevoted that value, cannot have precommitted `B` in `r`.
      · push Not at honly
        obtain ⟨r', B', hr, hp, hne⟩ := honly
        refine .inr (Committee.Attests.mono hp fun w hw hpw =>
          ⟨(horderly w hw).prevoted_below hpw hr, fun hc => ?_⟩)
        exact hne ((hkept w hw hc).above r' B' hr hpw)
    · exact .inr (he.update h)

/-- The invariant along several steps of one member, the polkas being those at the start. -/
theorem Inv.steps (hI : Inv c S) (hv : v ∉ c.faulty)
    (h : Relation.ReflTransGen (Voter.Step (Polka c S)) (S v) l) :
    Inv c (Function.update S v l) ∧
      ∀ w r B, (S w).prevoted r B → (Function.update S v l w).prevoted r B := by
  induction h with
  | refl => simpa using hI
  | @tail m l _ hstep ih =>
    obtain ⟨hm, hmono⟩ := ih
    have hstep' : Voter.Step (Polka c (Function.update S v m)) (Function.update S v m v) l := by
      rw [Function.update_self]
      exact hstep.mono fun r B hp => hp.mono hmono
    have hI' := hm.step hv hstep'
    have hmono' := prevoted_update_mono hstep'
    rw [Function.update_idem] at hI' hmono'
    exact ⟨hI', fun w r B hp => hmono' w r B (hmono w r B hp)⟩

/-- **Agreement.**  Two decisions are for the same value. -/
theorem Inv.agreement (hI : Inv c S) {r r' : R} {B B' : β} (h : Decided c S r B)
    (h' : Decided c S r' B') : B = B' := by
  wlog hr : r ≤ r' generalizing r r' B B'
  · exact (this h' h (le_of_not_ge hr)).symm
  rcases hr.eq_or_lt with rfl | hlt
  · obtain ⟨v, -, hv, hB, hB'⟩ := h.exists_correct h'
    exact (hI.orderly v hv).precommitted_unique hB hB'
  · obtain ⟨v, -, hv, hB'⟩ := h'.exists_one
    rcases hI.secured r B with hs | he
    · exact (hs.only r' B' hlt (hI.polka v hv hB')).symm
    · obtain ⟨w, -, -, hB, -, hnot⟩ := h.exists_correct he
      exact absurd hB hnot

end System

end MoltMesh.Lib.LockVoting
