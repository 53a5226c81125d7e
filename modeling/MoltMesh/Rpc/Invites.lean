import MoltMesh.Rpc.Rolls

/-!
# Invitations

An invitation is a row of `thread_invites` that `SaveInvite` writes and `AcceptInviteWithEpoch`
marks as accepted.  To save an invitation again opens it again, so that the number of times it
is accepted is bounded by the number of times it is saved (`invites_once`).
-/

namespace MoltMesh.Rpc

open MoltMesh.Lib MemberServer

section Tally

variable (T invitee : String) (nonce : List UInt8)

/-- A `SaveInvite` of the invitation that succeeds, with its role and expiry. -/
def SavesAs (role : ThreadMemberRole) (expiresAt : Int) (t : RollTurn) : Prop :=
  t.input.op = .saveInvite T invitee role nonce expiresAt ∧ t.output = .ok ()

/-- A `SaveInvite` of the invitation that succeeds. -/
def saves (t : RollTurn) : Bool :=
  match t.input.op, t.output with
  | .saveInvite T' invitee' _ nonce' _, .ok () => T' = T ∧ invitee' = invitee ∧ nonce' = nonce
  | _, _ => false

/-- An `AcceptInviteWithEpoch` of the invitation that succeeds. -/
def accepts (t : RollTurn) : Bool :=
  match t.input.op, t.output with
  | .acceptInvite T' invitee' nonce', .ok () => T' = T ∧ invitee' = invitee ∧ nonce' = nonce
  | _, _ => false

/-- The role and the expiry with which the invitation was last saved. -/
def LastSaved (past : List RollTurn) (role : ThreadMemberRole) (expiresAt : Int) : Prop :=
  Since (fun t => saves T invitee nonce t = false) (SavesAs T invitee nonce role expiresAt) past

/-- What the row of an invitation says about the past. -/
structure Tally (past : List RollTurn) (K : MemberServer) : Prop where
  count : past.countP (accepts T invitee nonce) ≤ past.countP (saves T invitee nonce)
  row : ∀ row, K.invites.lookup (T, invitee, nonce) = some row → LastSaved T invitee nonce past row.role row.expiresAt ∧
    (row.acceptedAt = 0 → past.countP (accepts T invitee nonce) < past.countP (saves T invitee nonce))

variable {T invitee nonce} {past : List RollTurn} {K K' : MemberServer} {t : RollTurn}

/-- A turn that has nothing to do with the invitation. -/
theorem Tally.other (h : Tally T invitee nonce past K)
    (hlookup : K'.invites.lookup (T, invitee, nonce) = K.invites.lookup (T, invitee, nonce))
    (hsaves : saves T invitee nonce t = false) (haccepts : accepts T invitee nonce t = false) :
    Tally T invitee nonce (past ++ [t]) K' := by
  have hcount (p : RollTurn → Bool) (hp : p t = false) : (past ++ [t]).countP p = past.countP p := by
    simp [List.countP_append, hp]
  refine ⟨?_, fun row hrow => ?_⟩
  · rw [hcount _ hsaves, hcount _ haccepts]
    exact h.count
  · rw [hlookup] at hrow
    obtain ⟨hlast, hopen⟩ := h.row row hrow
    refine ⟨since_concat.mpr (.inr ⟨hsaves, hlast⟩), ?_⟩
    rw [hcount _ hsaves, hcount _ haccepts]
    exact hopen

theorem Tally.save {role : ThreadMemberRole} {expiresAt : Int} (h : Tally T invitee nonce past K)
    (ht : SavesAs T invitee nonce role expiresAt t)
    (hinvites : K'.invites = K.invites.insertOrReplace ⟨T, invitee, role, nonce, expiresAt, 0⟩) :
    Tally T invitee nonce (past ++ [t]) K' := by
  have hsaves : saves T invitee nonce t = true := by
    simp [saves, ht.1, ht.2]
  have haccepts : accepts T invitee nonce t = false := by
    simp [accepts, ht.1]
  have hcount := h.count
  refine ⟨?_, fun row hrow => ?_⟩
  · simp only [List.countP_append, List.countP_singleton, hsaves, haccepts, if_true]
    exact Nat.le_succ_of_le hcount
  · have hself := Table.lookup_insertOrReplace_self K.invites ⟨T, invitee, role, nonce, expiresAt, 0⟩
    rw [hinvites] at hrow
    obtain rfl := Option.some.inj (hself.symm.trans hrow)
    refine ⟨since_concat.mpr (.inl ht), fun _ => ?_⟩
    simp only [List.countP_append, List.countP_singleton, hsaves, haccepts, if_true]
    exact Nat.lt_succ_of_le hcount

theorem Tally.accept {row : InviteRow} {now : Int} (h : Tally T invitee nonce past K)
    (hrow : K.invites.lookup (T, invitee, nonce) = some row) (hopen : row.acceptedAt = 0) (hnow : now ≠ 0)
    (hop : t.input.op = .acceptInvite T invitee nonce) (hout : t.output = .ok ())
    (hinvites : K'.invites = K.invites.insertOrReplace { row with acceptedAt := now }) :
    Tally T invitee nonce (past ++ [t]) K' := by
  have hsaves : saves T invitee nonce t = false := by
    simp [saves, hop]
  have haccepts : accepts T invitee nonce t = true := by
    simp [accepts, hop, hout]
  obtain ⟨hlast, hless⟩ := h.row row hrow
  refine ⟨?_, fun row' hrow' => ?_⟩
  · simp only [List.countP_append, List.countP_singleton, hsaves, haccepts, if_true]
    exact hless hopen
  · have hself := Table.lookup_insertOrReplace_self K.invites { row with acceptedAt := now }
    have hkey : (row.threadId, row.inviteeDid, row.nonce) = (T, invitee, nonce) := (Table.lookup_eq_some.mp hrow).2
    dsimp only at hself
    rw [hkey] at hself
    rw [hinvites] at hrow'
    obtain rfl := Option.some.inj (hself.symm.trans hrow')
    exact ⟨since_concat.mpr (.inr ⟨hsaves, hlast⟩), fun h => absurd h hnow⟩

/-- **A turn keeps the tally**, if the clock is positive. -/
theorem Tally.turn (h : Tally T invitee nonce past K) (i : RollInput) (hclock : 0 < i.env.now) :
    Tally T invitee nonce (past ++ [Lib.turn rollStep K i]) (rollStep K i).2 := by
  have hstep := rollStep_cases K i
  generalize hop : i.op = op at hstep
  generalize hout : (rollStep K i).1 = out at hstep
  generalize hnext : (rollStep K i).2 = K' at hstep
  have hinput : (Lib.turn rollStep K i).input.op = op := hop
  have houtput : (Lib.turn rollStep K i).output = out := hout
  cases hstep with
  | failed => exact h.other rfl (by simp [saves, houtput]) (by simp [accepts, houtput])
  | saved => exact h.other rfl (by simp [saves, hinput]) (by simp [accepts, hinput])
  | invited =>
    rename_i T' invitee' role nonce' expiresAt
    by_cases hkey : (T, invitee, nonce) = (T', invitee', nonce')
    · cases hkey
      exact h.save ⟨hinput, houtput⟩ rfl
    · refine h.other (Table.lookup_insertOrReplace_of_ne hkey) ?_ (by simp [accepts, hinput])
      simp only [Prod.mk.injEq, not_and] at hkey
      simp only [saves, hinput, houtput, decide_eq_false_iff_not]
      rintro ⟨rfl, rfl, rfl⟩
      exact hkey rfl rfl rfl
  | accepted hrow hopen hlater =>
    rename_i T' invitee' nonce' row
    by_cases hkey : (T, invitee, nonce) = (T', invitee', nonce')
    · cases hkey
      exact h.accept hrow hopen (ne_of_gt hclock) hinput houtput rfl
    · have hrowKey : (row.threadId, row.inviteeDid, row.nonce) = (T', invitee', nonce') :=
        (Table.lookup_eq_some.mp hrow).2
      refine h.other (Table.lookup_insertOrReplace_of_ne ?_) (by simp [saves, hinput]) ?_
      · dsimp only
        rw [hrowKey]
        exact hkey
      · simp only [Prod.mk.injEq, not_and] at hkey
        simp only [accepts, hinput, houtput, decide_eq_false_iff_not]
        rintro ⟨rfl, rfl, rfl⟩
        exact hkey rfl rfl rfl
  | removed => exact h.other rfl (by simp [saves, hinput]) (by simp [accepts, hinput])
  | promoted => exact h.other rfl (by simp [saves, hinput]) (by simp [accepts, hinput])

theorem tally (hnew : K.invites.lookup (T, invitee, nonce) = none) (is : List RollInput)
    (hclock : ∀ i ∈ is, 0 < i.env.now) : Tally T invitee nonce (turns rollStep K is) (runs rollStep K is) := by
  induction is using List.reverseRecOn with
  | nil =>
    refine ⟨le_rfl, fun row hrow => ?_⟩
    rw [runs_nil, hnew] at hrow
    cases hrow
  | append_singleton is i ih =>
    rw [turns_concat, runs_concat]
    exact (ih fun j hj => hclock j (List.mem_append_left _ hj)).turn i (hclock i (by simp))

end Tally

/-- **Invitations are consumed once**: from a state without the invitation, with a positive clock, it is not
accepted more often than it is saved; each time it is accepted before its last expiry, the epoch is
raised by one, and the invitee is a member with the role of the invitation since the new epoch; and when
it cannot be accepted, nothing changes. -/
theorem invites_once {T invitee : String} {nonce : List UInt8} {K : MemberServer}
    (hnew : K.invites.lookup (T, invitee, nonce) = none) (is : List RollInput) (hclock : ∀ i ∈ is, 0 < i.env.now) :
    (turns rollStep K is).countP (accepts T invitee nonce) ≤ (turns rollStep K is).countP (saves T invitee nonce) ∧
    ∀ (past : List RollTurn) (t : RollTurn) (rest : List RollTurn), turns rollStep K is = past ++ t :: rest →
      t.input.op = .acceptInvite T invitee nonce →
      (t.output = .ok () → ∃ role expiresAt, LastSaved T invitee nonce past role expiresAt ∧
        t.input.env.now < expiresAt ∧ t.after.db.membershipEpoch T = t.before.db.membershipEpoch T + 1 ∧
        t.after.db.members.lookup (T, invitee) = some ⟨T, invitee, role, t.after.db.membershipEpoch T⟩) ∧
      ∀ err, t.output = .error err → t.after = t.before := by
  refine ⟨(tally hnew is hclock).count, fun past t rest hturns hop => ?_⟩
  obtain ⟨is₁, i, is₂, rfl, rfl, rfl⟩ := turns_eq_append_cons hturns
  have htally := tally hnew is₁ fun j hj => hclock j (List.mem_append_left _ hj)
  have hstep := rollStep_cases (runs rollStep K is₁) i
  change i.op = _ at hop
  simp only [turn]
  generalize (rollStep (runs rollStep K is₁) i).1 = out at hstep
  generalize (rollStep (runs rollStep K is₁) i).2 = K' at hstep
  rw [hop] at hstep
  cases hstep with
  | failed => exact ⟨fun h => (by cases h), fun _ _ => rfl⟩
  | accepted hrow hopen hlater =>
    rename_i row
    have hepoch : (enrolled (runs rollStep K is₁).db ⟨T, invitee, row.role,
        (runs rollStep K is₁).db.membershipEpoch T + 1⟩).membershipEpoch T =
          (runs rollStep K is₁).db.membershipEpoch T + 1 := membershipEpoch_enrolled.trans (if_pos rfl)
    refine ⟨fun _ => ⟨row.role, row.expiresAt, (htally.row row hrow).1, hlater, hepoch, ?_⟩, fun _ h => (by cases h)⟩
    rw [hepoch]
    exact Table.lookup_insertOrReplace_self _ _

/-- A guest is invited, comes and tries to come again. -/
def visits : List RollInput :=
  [⟨faultless 1, .saveInvite "t" "guest" .observer [1] 1000⟩, ⟨faultless 2, .acceptInvite "t" "guest" [1]⟩,
    ⟨faultless 3, .acceptInvite "t" "guest" [1]⟩]

theorem invites_once_guest :
    (turns rollStep Lodger.home visits).countP (accepts "t" "guest" [1]) = 1 ∧
    (turns rollStep Lodger.home visits).countP (accepts "t" "guest" [1]) ≤
      (turns rollStep Lodger.home visits).countP (saves "t" "guest" [1]) :=
  ⟨by decide +kernel, (invites_once (by decide +kernel) visits (by decide +kernel)).1⟩

end MoltMesh.Rpc
