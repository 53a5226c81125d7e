import MoltMesh.Rpc.Rolls

/-!
# The keys of a thread

`PutThreadKeyEnvelope` compares the epoch of an envelope with that of the thread, looks whether
the recipient is a member, and saves the envelope: three statements between which the members
may change.  `keys_reach_members` says when an envelope has nevertheless reached a member of its
epoch.

A recovery envelope is verified before it is saved, and the table it is saved in has no column
for its signature (`recovery_verifiable_iff`).
-/

namespace MoltMesh.Rpc

open MoltMesh.Lib Pb MemberServer

variable {K : MemberServer} {env : MemberEnv} {e : ThreadKeyEnvelope}

/-! ## PutThreadKeyEnvelope in steps -/

section Steps

variable (C : Ed25519) (K : MemberServer) (env : MemberEnv) (authorization : List String) (e : ThreadKeyEnvelope)

/-- The beginning of `PutThreadKeyEnvelope`, up to the DID of the creator. -/
def startPut : Except String String × MemberServer :=
  if e.threadId = "" ∨ e.recoveryEnvelope = false ∧ e.recipientDid = "" then
    (.error "valid thread key envelope required", K)
  else match authorizeCreator K env authorization e.threadId "only thread creator may distribute epoch keys" with
    | (.error err, K) => (.error err, K)
    | (.ok (th, _), K) => (.ok th.creatorDid, K)

/-- The epoch is read and compared. -/
def checkEpoch : Except String Unit :=
  match env.fails .membershipEpoch with
  | some err => .error err
  | none =>
    if e.encryptionEpoch ≠ K.db.membershipEpoch e.threadId then
      .error ("key envelope must use current encryption epoch " ++ toString (K.db.membershipEpoch e.threadId))
    else .ok ()

/-- The members are read, and the recipient is looked for. -/
def checkRecipient : Except String Unit :=
  match env.fails .listMembers with
  | some err => .error err
  | none =>
    if e.recipientDid ∉ (K.db.listMembers e.threadId).map MemberRow.did then
      .error "key-envelope recipient is not a thread member"
    else .ok ()

/-- The steps are those of `PutThreadKeyEnvelope`. -/
theorem putThreadKeyEnvelope_eq : putThreadKeyEnvelope C K env authorization e =
    match startPut K env authorization e with
    | (.error err, K) => some (.error err, K)
    | (.ok creatorDid, K) => match checkEpoch K env e with
      | .error err => some (.error err, K)
      | .ok () =>
        if e.recoveryEnvelope then putRecoveryEnvelope C K env creatorDid e
        else match checkRecipient K env e with
          | .error err => some (.error err, K)
          | .ok () => some (finish K () (saveKeyEnvelope K env e)) := by
  unfold putThreadKeyEnvelope startPut asCreator
  split
  · rfl
  · rcases authorizeCreator K env authorization e.threadId "only thread creator may distribute epoch keys" with
      ⟨err | ⟨th, owner⟩, K₁⟩
    · rfl
    · dsimp only
      unfold checkEpoch checkRecipient
      cases env.fails .membershipEpoch with
      | some err => rfl
      | none =>
        dsimp only
        split
        · rfl
        · dsimp only
          split
          · rfl
          · cases env.fails .listMembers with
            | some err => rfl
            | none =>
              dsimp only
              split <;> rfl

end Steps

/-- How far a call has come. -/
inductive PutPhase
  /-- The call has been authorized. -/
  | started
  /-- The epoch of the envelope was the current one. -/
  | current
  /-- The recipient was a member. -/
  | listed
deriving DecidableEq

/-- A call of `PutThreadKeyEnvelope` that is under way. -/
structure PutCall where
  envelope : ThreadKeyEnvelope
  creatorDid : String
  phase : PutPhase

/-- The server with the calls that are under way. -/
structure KeyServer extends MemberServer where
  calls : List PutCall

namespace KeyServer

variable (S : KeyServer)

/-- A call returns. -/
def leave (n : Nat) : KeyServer := { S with calls := S.calls.eraseIdx n }

/-- A call goes on. -/
def enter (n : Nat) (call : PutCall) (phase : PutPhase) : KeyServer :=
  { S with calls := S.calls.set n { call with phase } }

end KeyServer

/-- What happens: an operation on the members, or a step of a call. -/
inductive KeyOp
  | roll (i : RollInput)
  | start (env : MemberEnv) (authorization : List String) (envelope : ThreadKeyEnvelope)
  | readEpoch (env : MemberEnv) (n : Nat)
  /-- The members are read; for a recovery envelope, it is verified, saved and published. -/
  | readMembers (env : MemberEnv) (n : Nat)
  | save (env : MemberEnv) (n : Nat)

/-- One step; there is an output when a call returns. -/
def keyStep (C : Ed25519) (S : KeyServer) : KeyOp → Option (Except String Unit) × KeyServer
  | .roll i =>
    let (result, K) := rollStep S.toMemberServer i
    (some result, { S with toMemberServer := K })
  | .start env authorization e => match startPut S.toMemberServer env authorization e with
    | (.error err, K) => (some (.error err), { S with toMemberServer := K })
    | (.ok creatorDid, K) => (none, { toMemberServer := K, calls := S.calls ++ [⟨e, creatorDid, .started⟩] })
  | .readEpoch env n => match S.calls[n]? with
    | some ⟨e, creatorDid, .started⟩ => match checkEpoch S.toMemberServer env e with
      | .error err => (some (.error err), S.leave n)
      | .ok () => (none, S.enter n ⟨e, creatorDid, .started⟩ .current)
    | _ => (none, S)
  | .readMembers env n => match S.calls[n]? with
    | some ⟨e, creatorDid, .current⟩ =>
      if e.recoveryEnvelope then match putRecoveryEnvelope C S.toMemberServer env creatorDid e with
        | none => (none, S.leave n)
        | some (result, K) => (some result, { S.leave n with toMemberServer := K })
      else match checkRecipient S.toMemberServer env e with
        | .error err => (some (.error err), S.leave n)
        | .ok () => (none, S.enter n ⟨e, creatorDid, .current⟩ .listed)
    | _ => (none, S)
  | .save env n => match S.calls[n]? with
    | some ⟨e, _, .listed⟩ =>
      let (result, K) := finish S.toMemberServer () (saveKeyEnvelope S.toMemberServer env e)
      (some result, { S.leave n with toMemberServer := K })
    | _ => (none, S)

/-- A call without anything in between is `PutThreadKeyEnvelope`. -/
theorem runs_keyStep_put (C : Ed25519) (S : KeyServer) (hcalls : S.calls = []) (env : MemberEnv)
    (authorization : List String) (e : ThreadKeyEnvelope)
    (hpanic : putThreadKeyEnvelope C S.toMemberServer env authorization e ≠ none) :
    some (runs (keyStep C) S [.start env authorization e, .readEpoch env 0, .readMembers env 0, .save env 0]).toMemberServer =
      (putThreadKeyEnvelope C S.toMemberServer env authorization e).map Prod.snd := by
  rw [putThreadKeyEnvelope_eq] at hpanic ⊢
  simp only [runs, List.foldl_cons, List.foldl_nil, keyStep]
  generalize startPut S.toMemberServer env authorization e = started at hpanic ⊢
  obtain ⟨err | creatorDid, K⟩ := started
  · simp [hcalls]
  · simp only [hcalls, List.nil_append, List.getElem?_cons_zero] at hpanic ⊢
    cases hepoch : checkEpoch K env e with
    | error err => simp [KeyServer.leave]
    | ok _ =>
      simp only [hepoch, KeyServer.enter, List.set_cons_zero, List.getElem?_cons_zero] at hpanic ⊢
      cases hrecovery : e.recoveryEnvelope with
      | true =>
        simp only [hrecovery, if_true] at hpanic ⊢
        cases hput : putRecoveryEnvelope C K env creatorDid e with
        | none => exact absurd hput hpanic
        | some result => simp [KeyServer.leave]
      | false =>
        simp only [Bool.false_eq_true, if_false]
        cases hlisted : checkRecipient K env e with
        | error err => simp [KeyServer.leave]
        | ok _ => simp

/-! ## Keys and members -/

/-- At one of the moments the recipient was a member, and the epoch was the given one. -/
def InEpoch (ms : List KeyServer) (threadID : String) (epoch : Nat) (did : String) : Prop :=
  ∃ m ∈ ms, m.db.IsMember threadID did ∧ m.db.membershipEpoch threadID = epoch

/-- Where the members are read for an envelope and the recipient is one of them, the epoch is still that of
the envelope. -/
def EpochStands (S : KeyServer) : KeyOp → Prop
  | .readMembers _ n => ∀ call ∈ S.calls[n]?, call.phase = .current → call.envelope.recoveryEnvelope = false →
    S.db.IsMember call.envelope.threadId call.envelope.recipientDid →
      S.db.membershipEpoch call.envelope.threadId = call.envelope.encryptionEpoch
  | _ => True

instance (S : KeyServer) (op : KeyOp) : Decidable (EpochStands S op) := by
  cases op <;> unfold EpochStands <;> infer_instance

/-- The rows that are there and the calls that are about to save have a member of their epoch. -/
structure KeysInEpoch (ms : List KeyServer) (S : KeyServer) : Prop where
  rows : ∀ r ∈ S.keyEnvelopes.rows, InEpoch ms r.threadId r.encryptionEpoch r.recipientDid
  calls : ∀ call ∈ S.calls, call.phase = .listed →
    InEpoch ms call.envelope.threadId call.envelope.encryptionEpoch call.envelope.recipientDid

section Moments

variable {ms : List KeyServer} {S S' : KeyServer} {T did : String} {epoch : Nat}

theorem InEpoch.mono {ms' : List KeyServer} (h : InEpoch ms T epoch did) : InEpoch (ms ++ ms') T epoch did := by
  obtain ⟨m, hm, hin⟩ := h
  exact ⟨m, List.mem_append_left _ hm, hin⟩

/-- A step keeps the property if it saves the envelope of a call that has listed the members, or none, and if
the calls that have listed them are the ones that had, or one that has listed them now. -/
theorem KeysInEpoch.step (h : KeysInEpoch ms S)
    (hrows : ∀ r ∈ S'.keyEnvelopes.rows, r ∈ S.keyEnvelopes.rows ∨ ∃ call ∈ S.calls, call.phase = .listed ∧
      (call.envelope.threadId, call.envelope.encryptionEpoch, call.envelope.recipientDid) =
        (r.threadId, r.encryptionEpoch, r.recipientDid))
    (hcalls : ∀ call ∈ S'.calls, call.phase = .listed → call ∈ S.calls ∨
      InEpoch ms call.envelope.threadId call.envelope.encryptionEpoch call.envelope.recipientDid) :
    KeysInEpoch (ms ++ [S']) S' := by
  refine ⟨fun r hr => .mono ?_, fun call hcall hlisted => .mono ?_⟩
  · rcases hrows r hr with hr | ⟨call, hcall, hlisted, hkey⟩
    · exact h.rows r hr
    · simp only [Prod.mk.injEq] at hkey
      rw [← hkey.1, ← hkey.2.1, ← hkey.2.2]
      exact h.calls call hcall hlisted
  · rcases hcalls call hcall hlisted with hcall | hin
    · exact h.calls call hcall hlisted
    · exact hin

theorem keyEnvelopes_rollStep (K : MemberServer) (i : RollInput) : (rollStep K i).2.keyEnvelopes = K.keyEnvelopes := by
  have hstep := rollStep_cases K i
  generalize (rollStep K i).1 = out at hstep
  generalize (rollStep K i).2 = K' at hstep
  generalize i.op = op at hstep
  cases hstep <;> rfl

theorem keyEnvelopes_startPut (K : MemberServer) (env : MemberEnv) (authorization : List String)
    (e : ThreadKeyEnvelope) : (startPut K env authorization e).2.keyEnvelopes = K.keyEnvelopes := by
  unfold startPut authorizeCreator
  split
  · rfl
  · cases getThread K.toServer env.toEnv e.threadId with
    | error err => rfl
    | ok th =>
      dsimp only
      rcases scopedOwner K.toServer env.toEnv authorization with ⟨err | owner, S⟩
      · rfl
      · dsimp only
        by_cases hrefused : owner ≠ "" ∧ owner ≠ th.creatorDid
        · rw [if_pos hrefused]
        · rw [if_neg hrefused]

theorem keyEnvelopes_putRecoveryEnvelope {C : Ed25519} {K' : MemberServer} {creatorDid : String}
    {result : Except String Unit}
    (h : putRecoveryEnvelope C K env creatorDid e = some (result, K')) : K'.keyEnvelopes = K.keyEnvelopes := by
  unfold putRecoveryEnvelope at h
  split at h
  · cases h
  · cases h
    rfl
  split at h
  · cases h
    rfl
  · rename_i K₁ hsave
    have hkeys : K₁.keyEnvelopes = K.keyEnvelopes := by
      unfold saveRecoveryKeyEnvelope at hsave
      repeat' split at hsave
      all_goals cases hsave
      rfl
    repeat' split at h
    all_goals
      cases h
      exact hkeys

theorem mem_saveKeyEnvelope {r : KeyRow}
    (h : r ∈ (finish K () (saveKeyEnvelope K env e)).2.keyEnvelopes.rows) :
    r ∈ K.keyEnvelopes.rows ∨
      (e.threadId, e.encryptionEpoch, e.recipientDid) = (r.threadId, r.encryptionEpoch, r.recipientDid) := by
  unfold saveKeyEnvelope at h
  split at h
  · exact .inl h
  split at h
  · exact .inl h
  split at h
  · exact .inl h
  · rcases Table.mem_insertOrReplace.mp h with ⟨hmem, -⟩ | rfl
    · exact .inl hmem
    · exact .inr rfl

theorem checkRecipient_eq_ok
    (h : checkRecipient K env e = .ok ()) : K.db.IsMember e.threadId e.recipientDid := by
  unfold checkRecipient at h
  split at h
  · cases h
  split at h
  · cases h
  · rename_i hlisted
    exact Database.mem_listMembers.mp (not_not.mp hlisted)

/-- **A step keeps keys with members** of their epoch, if the epoch stands where the members are read. -/
theorem keysInEpoch_keyStep (C : Ed25519) {op : KeyOp} (h : KeysInEpoch ms S) (hS : S ∈ ms) (hstands : EpochStands S op) :
    KeysInEpoch (ms ++ [(keyStep C S op).2]) (keyStep C S op).2 := by
  have hleave {n : Nat} {call : PutCall} (hcall : call ∈ (S.leave n).calls) : call ∈ S.calls :=
    List.mem_of_mem_eraseIdx hcall
  cases op with
  | roll i =>
    refine h.step (fun r hr => .inl ?_) fun call hcall _ => .inl hcall
    rw [← keyEnvelopes_rollStep S.toMemberServer i]
    exact hr
  | start env authorization e =>
    have hkeys := keyEnvelopes_startPut S.toMemberServer env authorization e
    simp only [keyStep]
    generalize startPut S.toMemberServer env authorization e = started at hkeys
    obtain ⟨err | creatorDid, K⟩ := started
    · exact h.step (fun r hr => .inl (hkeys ▸ hr)) fun call hcall _ => .inl hcall
    · refine h.step (fun r hr => .inl (hkeys ▸ hr)) fun call hcall hlisted => ?_
      rcases List.mem_append.mp hcall with hcall | hcall
      · exact .inl hcall
      · rw [List.mem_singleton.mp hcall] at hlisted
        cases hlisted
  | readEpoch env n =>
    simp only [keyStep]
    split
    · split
      · exact h.step (fun r hr => .inl hr) fun call hcall _ => .inl (hleave hcall)
      · refine h.step (fun r hr => .inl hr) fun call hcall hlisted => ?_
        rcases List.mem_or_eq_of_mem_set hcall with hcall | rfl
        · exact .inl hcall
        · cases hlisted
    · exact h.step (fun r hr => .inl hr) fun call hcall _ => .inl hcall
  | readMembers env n =>
    simp only [keyStep]
    split
    · rename_i e creatorDid hcall₁
      split
      · split
        · exact h.step (fun r hr => .inl hr) fun call hcall _ => .inl (hleave hcall)
        · rename_i result K hput
          refine h.step (fun r hr => .inl ?_) fun call hcall _ => .inl (hleave hcall)
          rw [← keyEnvelopes_putRecoveryEnvelope hput]
          exact hr
      · rename_i hrecovery
        split
        · exact h.step (fun r hr => .inl hr) fun call hcall _ => .inl (hleave hcall)
        · rename_i hlisted
          -- The recipient is a member now, and the epoch is still that of the envelope.
          have hmember := checkRecipient_eq_ok hlisted
          have hepoch := hstands ⟨e, creatorDid, .current⟩ hcall₁ rfl (Bool.eq_false_iff.mpr hrecovery) hmember
          refine h.step (fun r hr => .inl hr) fun call hcall _ => ?_
          rcases List.mem_or_eq_of_mem_set hcall with hcall | rfl
          · exact .inl hcall
          · exact .inr ⟨S, hS, hmember, hepoch⟩
    · exact h.step (fun r hr => .inl hr) fun call hcall _ => .inl hcall
  | save env n =>
    simp only [keyStep]
    split
    · rename_i e creatorDid hcall₁
      refine h.step (fun r hr => ?_) fun call hcall _ => .inl (hleave hcall)
      refine (mem_saveKeyEnvelope hr).imp_right fun hkey => ?_
      exact ⟨⟨e, creatorDid, .listed⟩, List.mem_of_getElem? hcall₁, rfl, hkey⟩
    · exact h.step (fun r hr => .inl hr) fun call hcall _ => .inl hcall

end Moments

/-- **When keys reach members of their epoch only**: in every interleaving of calls of `PutThreadKeyEnvelope`
with changes of the members, from a server without keys, each envelope has a moment at which its
recipient was a member in its epoch, if no change comes between the reading of the epoch and that of
the members. -/
theorem keys_reach_members (C : Ed25519) {S : KeyServer} (hkeys : S.keyEnvelopes.rows = []) (hcalls : S.calls = [])
    (ops : List KeyOp) (hstands : ∀ t ∈ turns (keyStep C) S ops, EpochStands t.before t.input) :
    ∀ r ∈ (runs (keyStep C) S ops).keyEnvelopes.rows,
      InEpoch (moments (keyStep C) S ops) r.threadId r.encryptionEpoch r.recipientDid := by
  suffices hall : KeysInEpoch (moments (keyStep C) S ops) (runs (keyStep C) S ops) from hall.rows
  induction ops using List.reverseRecOn with
  | nil =>
    refine ⟨fun r hr => ?_, fun call hcall => ?_⟩
    · rw [runs_nil, hkeys] at hr
      cases hr
    · rw [runs_nil, hcalls] at hcall
      cases hcall
  | append_singleton ops op ih =>
    rw [turns_concat] at hstands
    have hpast := ih fun t ht => hstands t (List.mem_append_left _ ht)
    rw [moments_concat, runs_concat]
    exact keysInEpoch_keyStep C hpast runs_mem_moments
      (hstands _ (List.mem_append_right _ (List.mem_singleton_self _)))

open Tendermint.Quartet (checksum did3 did4)

/-- The daemon of the creator, where no call is under way. -/
def keyHome : KeyServer := ⟨Lodger.home, []⟩

/-- A key for the given agent is put, and something may come between the reading of the epoch and that of the
members. -/
def putting (recipientDid : String) (between : List KeyOp) : List KeyOp :=
  ([.start (faultless 1) [] { Lodger.envelope with recipientDid }, .readEpoch (faultless 1) 0] : List KeyOp) ++
    between ++ ([.readMembers (faultless 1) 0, .save (faultless 1) 0] : List KeyOp)

/-- The key of the first epoch is put for a member of it. -/
theorem keys_reach_members_home :
    (runs (keyStep checksum) keyHome (putting did4 [])).keyEnvelopes.rows ≠ [] ∧
    ∀ r ∈ (runs (keyStep checksum) keyHome (putting did4 [])).keyEnvelopes.rows,
      InEpoch (moments (keyStep checksum) keyHome (putting did4 [])) r.threadId r.encryptionEpoch r.recipientDid :=
  ⟨by decide +kernel, keys_reach_members checksum rfl rfl _ (by decide +kernel)⟩

/-- **A key reaches one who comes later**: the third agent accepts its invitation after the epoch has been
read, and gets the key of the epoch before it was a member. -/
theorem key_of_past_epoch :
    (runs (keyStep checksum) keyHome (putting did3 [.roll ⟨faultless 1, .acceptInvite "t" did3 [9]⟩])).keyEnvelopes.rows.map
      (fun r => (r.threadId, r.encryptionEpoch, r.recipientDid)) = [("t", 1, did3)] ∧
    ∀ m ∈ moments (keyStep checksum) keyHome (putting did3 [.roll ⟨faultless 1, .acceptInvite "t" did3 [9]⟩]),
      ¬(m.db.IsMember "t" did3 ∧ m.db.membershipEpoch "t" = 1) := by
  constructor <;> decide +kernel

/-! ## Recovery envelopes -/

/-- What the table of recovery envelopes has columns for. -/
def RecoveryKeyRow.envelope (r : RecoveryKeyRow) : ThreadKeyEnvelope :=
  ⟨r.threadId, r.encryptionEpoch, "", r.ephemeralPublicKey, r.nonce, r.ciphertext, true, []⟩

/-- `RecoveryKeyEnvelopes`. -/
def recoveryKeyEnvelopesOf (K : MemberServer) (threadID : String) : List ThreadKeyEnvelope :=
  (orderBy (fun r => (r.encryptionEpoch : Int)) (K.recoveryKeyEnvelopes.select fun r => r.threadId = threadID)).map
    RecoveryKeyRow.envelope

/-- What `SaveRecoveryKeyEnvelope` asks of an envelope. -/
def Storable (e : ThreadKeyEnvelope) : Prop :=
  e.threadId ≠ "" ∧ e.encryptionEpoch ≠ 0 ∧ e.ephemeralPublicKey.length = 32 ∧ e.nonce.length = 24 ∧
    e.ciphertext ≠ [] ∧ e.ciphertext.length ≤ 64 * 1024

section Recovery

variable {C : Ed25519} {K : MemberServer} {env : MemberEnv} {creatorDID : String} {e : ThreadKeyEnvelope}

/-- An envelope that comes out of the table has no signature. -/
theorem verify_recoveryKeyRow (r : RecoveryKeyRow) :
    verifyRecoveryKeyEnvelopeCreator C creatorDID r.envelope ≠ some (.ok ()) := by
  rw [verifyRecoveryKeyEnvelopeCreator, if_pos (.inr (.inr rfl))]
  rintro ⟨⟩

theorem exists_recoveryKeyEnvelope_iff {T : String} {epoch : Nat} :
    (∃ e' ∈ recoveryKeyEnvelopesOf K T, e'.encryptionEpoch = epoch) ↔
      K.recoveryKeyEnvelopes.lookup (T, epoch) ≠ none := by
  rw [Ne, Table.lookup_eq_none]
  simp only [recoveryKeyEnvelopesOf, List.mem_map, mem_orderBy, Table.mem_select, decide_eq_true_eq]
  constructor
  · rintro ⟨_, ⟨r, ⟨hr, rfl⟩, rfl⟩, rfl⟩ hnone
    exact hnone r hr rfl
  · intro h
    push Not at h
    obtain ⟨r, hr, hkey⟩ := h
    obtain ⟨rfl, rfl⟩ := Prod.mk.inj hkey
    exact ⟨r.envelope, ⟨r, ⟨hr, rfl⟩, rfl⟩, rfl⟩

theorem saveRecoveryKeyEnvelope_of_storable (hrecovery : e.recoveryEnvelope = true) (h : Storable e)
    (hworks : env.breaks .saveRecoveryKeyEnvelope = none) : saveRecoveryKeyEnvelope K env e = .ok { K with
      recoveryKeyEnvelopes := K.recoveryKeyEnvelopes.insertOrReplace ⟨e.threadId, e.encryptionEpoch,
        e.ephemeralPublicKey, e.nonce, e.ciphertext⟩ } := by
  obtain ⟨hT, hepoch, hkey, hnonce, hsome, hsize⟩ := h
  have hvalid : ¬(e.threadId = "" ∨ e.encryptionEpoch = 0 ∨ e.ephemeralPublicKey.length ≠ 32 ∨ e.nonce.length ≠ 24 ∨
      e.ciphertext = [] ∨ 64 * 1024 < e.ciphertext.length) := by
    rintro (h | h | h | h | h | h)
    · exact hT h
    · exact hepoch h
    · exact h hkey
    · exact h hnonce
    · exact hsome h
    · exact absurd hsize (not_le.mpr h)
  rw [saveRecoveryKeyEnvelope, if_neg (by rw [hrecovery]; decide), if_neg hvalid, hworks]

theorem saveRecoveryKeyEnvelope_refused (h : ¬Storable e ∨ (env.breaks .saveRecoveryKeyEnvelope).isSome = true) :
    (finish K () (saveRecoveryKeyEnvelope K env e)).2 = K := by
  unfold saveRecoveryKeyEnvelope
  split
  · rfl
  split
  · rfl
  · rename_i hvalid
    simp only [not_or, not_not, not_lt] at hvalid
    cases hworks : env.breaks .saveRecoveryKeyEnvelope with
    | some err => rfl
    | none =>
      rw [hworks] at h
      rcases h with h | h
      · exact absurd hvalid h
      · cases h

end Recovery

/-- **When recovery envelopes stay verifiable**: what is returned for the thread and epoch of an envelope that
has been verified and saved is verified again, exactly if nothing is returned: the envelope was not
saved, and none was there before. -/
theorem recovery_verifiable_iff {C : Ed25519} {K : MemberServer} {env : MemberEnv} {creatorDID : String}
    {e : ThreadKeyEnvelope} (hverified : verifyRecoveryKeyEnvelopeCreator C creatorDID e = some (.ok ())) :
    (∀ e' ∈ recoveryKeyEnvelopesOf (finish K () (saveRecoveryKeyEnvelope K env e)).2 e.threadId,
      e'.encryptionEpoch = e.encryptionEpoch → verifyRecoveryKeyEnvelopeCreator C creatorDID e' = some (.ok ())) ↔
    (¬Storable e ∨ (env.breaks .saveRecoveryKeyEnvelope).isSome = true) ∧
      K.recoveryKeyEnvelopes.lookup (e.threadId, e.encryptionEpoch) = none := by
  have hnever (K' : MemberServer) : (∀ e' ∈ recoveryKeyEnvelopesOf K' e.threadId,
      e'.encryptionEpoch = e.encryptionEpoch → verifyRecoveryKeyEnvelopeCreator C creatorDID e' = some (.ok ())) ↔
        K'.recoveryKeyEnvelopes.lookup (e.threadId, e.encryptionEpoch) = none := by
    rw [← not_iff_not, ← Ne, ← exists_recoveryKeyEnvelope_iff]
    push Not
    refine exists_congr fun e' => and_congr_right fun he' => and_iff_left ?_
    obtain ⟨r, -, rfl⟩ := List.mem_map.mp he'
    exact verify_recoveryKeyRow r
  have hrecovery : e.recoveryEnvelope = true := by
    by_contra hplain
    rw [verifyRecoveryKeyEnvelopeCreator, if_pos (.inr (.inl (by simpa using hplain)))] at hverified
    cases hverified
  rw [hnever]
  by_cases hrefused : ¬Storable e ∨ (env.breaks .saveRecoveryKeyEnvelope).isSome = true
  · rw [saveRecoveryKeyEnvelope_refused hrefused]
    exact (and_iff_right hrefused).symm
  · refine iff_of_false ?_ fun h => hrefused h.1
    rw [not_or, not_not] at hrefused
    rw [saveRecoveryKeyEnvelope_of_storable hrecovery hrefused.1 (by simpa using hrefused.2)]
    exact fun hnone => Option.some_ne_none _ ((Table.lookup_insertOrReplace_self _ _).symm.trans hnone)

open Tendermint.Quartet (did1 key)

/-- A recovery envelope that the creator has signed. -/
def recovery (nonceSize : Nat) : ThreadKeyEnvelope :=
  let e : ThreadKeyEnvelope :=
    ⟨"t", 1, "", List.replicate 32 0, List.replicate nonceSize 0, [1], true, []⟩
  { e with authorSignature := checksum.sign (key 1) e.unsigned }

/-- An envelope with a nonce of the wrong size is not saved. -/
theorem recovery_verifiable_refused :
    verifyRecoveryKeyEnvelopeCreator checksum did1 (recovery 12) = some (.ok ()) ∧
    ∀ e' ∈ recoveryKeyEnvelopesOf (finish Lodger.home () (saveRecoveryKeyEnvelope Lodger.home (faultless 1)
      (recovery 12))).2 (recovery 12).threadId, e'.encryptionEpoch = (recovery 12).encryptionEpoch →
        verifyRecoveryKeyEnvelopeCreator checksum did1 e' = some (.ok ()) := by
  have hverified : verifyRecoveryKeyEnvelopeCreator checksum did1 (recovery 12) = some (.ok ()) := by decide +kernel
  refine ⟨hverified, (recovery_verifiable_iff hverified).mpr ⟨.inl fun h => ?_, by decide +kernel⟩⟩
  exact absurd h.2.2.2.1 (by decide)

/-- **A recovery envelope loses its signature**: what is returned for one that has been verified and saved is
not verified. -/
theorem recovery_signature_lost :
    verifyRecoveryKeyEnvelopeCreator checksum did1 (recovery 24) = some (.ok ()) ∧
    (recoveryKeyEnvelopesOf (finish Lodger.home () (saveRecoveryKeyEnvelope Lodger.home (faultless 1)
      (recovery 24))).2 "t").map (fun e' => (e'.encryptionEpoch, verifyRecoveryKeyEnvelopeCreator checksum did1 e')) =
        [(1, some (.error "signed recovery key envelope required"))] := by
  constructor <;> decide +kernel

end MoltMesh.Rpc
