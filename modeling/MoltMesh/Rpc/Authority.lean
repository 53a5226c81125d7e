import MoltMesh.Rpc.Threads

/-!
# Who may append

An entry enters `pending_entries` by a call of `AppendEntry`.  Its author is the
identity the call is made for.  That this identity is a member of the thread is checked
for encrypted entries only (`append_authority_iff`).
-/

namespace MoltMesh.Rpc

open MoltMesh.Lib Pb

variable {C : Ed25519} {S : Server} {env : Env} {authorization : List String}
  {req : AppendEntryRequest} {threadID : String} {entry : ThreadEntry}

/-! ## What a call enqueues -/

@[simp] theorem scopedOwner_db : (scopedOwner S env authorization).2.db = S.db := by
  unfold scopedOwner
  dsimp only
  split <;> rfl

@[simp] theorem scopedOwner_did : (scopedOwner S env authorization).2.did = S.did := by
  unfold scopedOwner
  dsimp only
  split <;> rfl

@[simp] theorem scopedOwner_outbox : (scopedOwner S env authorization).2.outbox = S.outbox := by
  unfold scopedOwner
  dsimp only
  split <;> rfl

theorem getThread_eq_ok {th : Thread} (h : getThread S env threadID = .ok th) :
    th ∈ S.db.threads.rows ∧ th.id = threadID := by
  unfold getThread at h
  split at h
  · cases h
  split at h
  · cases h
  · rename_i th' hth
    obtain rfl := Except.ok.inj h
    exact Table.lookup_eq_some.mp hth

/-- The entry depends on the daemon and its database only. -/
theorem entryOf_congr {S' : Server} (h : S'.db = S.db) (author : String) :
    entryOf C S' env req author = entryOf C S env req author := by
  unfold entryOf checkEncrypted
  rw [h]

/-- The database with an entry enqueued. -/
def enqueue (db : Database) (env : Env) (threadID : String) (entry : ThreadEntry) : Database :=
  { db with toStore := db.enqueueEntry threadID entry env.now }

/-- The entry a call enqueues. -/
def enqueued (C : Ed25519) (S : Server) (env : Env) (authorization : List String)
    (req : AppendEntryRequest) : Option ThreadEntry :=
  match (scopedOwner S env authorization).1 with
  | .error _ => none
  | .ok owner => match entryOf C S env req (authorOf S owner) with
    | .error _ => none
    | .ok entry => if (env.fails .enqueueEntry).isSome then none else some entry

theorem managerAppendEntry_db (S : Server) (env : Env) (threadID : String) (entry : ThreadEntry) :
    (managerAppendEntry S env threadID entry).2.db =
      if (env.fails .enqueueEntry).isSome then S.db else enqueue S.db env threadID entry := by
  unfold managerAppendEntry
  cases env.fails .enqueueEntry with
  | some err => rfl
  | none =>
    cases env.fails .activate with
    | some err => rfl
    | none => cases env.fails .tell <;> rfl

@[simp] theorem acknowledge_db (S : Server) (env : Env) (threadID : String) (entry : ThreadEntry) :
    (acknowledge S env threadID entry).2.db = S.db := by
  unfold acknowledge
  split
  · rfl
  · rename_i thread _
    have hdb : (enqueueThreadWake S env thread).2.db = S.db := rfl
    split
    · rename_i h
      rwa [h] at hdb
    · rename_i h
      rwa [h] at hdb

/-- What a call does to the database is to enqueue that entry. -/
theorem appendEntry_db : (appendEntry C S env authorization req).2.db =
    (enqueued C S env authorization req).elim S.db (enqueue S.db env req.threadId) := by
  have hdb := @scopedOwner_db S env authorization
  have hdid := @scopedOwner_did S env authorization
  unfold appendEntry enqueued
  generalize scopedOwner S env authorization = x at hdb hdid
  obtain ⟨_ | owner, S₁⟩ := x
  · exact hdb
  have hauthor : authorOf S₁ owner = authorOf S owner := congrArg (fun d => if owner ≠ "" then owner else d) hdid
  dsimp only at hdb ⊢
  rw [hauthor, entryOf_congr hdb]
  cases entryOf C S env req (authorOf S owner) with
  | error err => exact hdb
  | ok entry =>
    have happend := managerAppendEntry_db S₁ env req.threadId entry
    rw [hdb] at happend
    dsimp only
    generalize managerAppendEntry S₁ env req.threadId entry = x at happend
    have hend : x.2.db = (if (env.fails .enqueueEntry).isSome then none else some entry).elim S.db
        (enqueue S.db env req.threadId) := by
      rw [happend]
      split <;> rfl
    obtain ⟨_ | _, S₂⟩ := x
    · exact hend
    · exact (acknowledge_db S₂ env req.threadId entry).trans hend

/-! ## Authority -/

/-- The rows of `pending_entries` with an id that has been handed out between two states. -/
def addedRows (s s' : Store) : List PendingRow :=
  s'.pending.rows.filter fun r => s.pendingSeq < r.id ∧ r.id ≤ s'.pendingSeq

/-- A call is authenticated as `did`: the DID of its session or, without one, the daemon's. -/
def Caller (S : Server) (env : Env) (authorization : List String) (did : String) : Prop :=
  if bearerToken authorization = "" then did = S.did
  else (S.sessions.authenticate env.now (bearerToken authorization)).1 = .ok did

instance (did : String) : Decidable (Caller S env authorization did) := by
  unfold Caller
  infer_instance

/-- The numbers and lengths are such as a message on the wire can have. -/
structure OnWire (threadID : String) (entry : ThreadEntry) : Prop where
  short : (headerOf threadID entry).Short
  sequence : entry.sequence < 2 ^ 64
  membershipEpoch : entry.membershipEpoch < 2 ^ 64
  encryptionEpoch : entry.encryptionEpoch < 2 ^ 64

/-- What is signed of an encrypted entry. -/
def signedBytes (threadID : String) (entry : ThreadEntry) : List UInt8 :=
  (headerOf threadID entry).encode ++ entry.payload

/-- The signature of an entry is valid under the key of its author, and no entry with the same
signed bytes differs from it in thread, sequence, kind, epochs, nonce or ciphertext. -/
structure Covered (C : Ed25519) (threadID : String) (entry : ThreadEntry) : Prop where
  valid : ∃ pub, Identity.pubKeyFromDID entry.authorDid = .ok pub ∧
    C.verify pub (signedBytes threadID entry) entry.authorSignature = true
  binding : ∀ threadID' entry', OnWire threadID entry → OnWire threadID' entry' →
    signedBytes threadID' entry' = signedBytes threadID entry →
      threadID' = threadID ∧ entry'.sequence = entry.sequence ∧ entry'.kind = entry.kind ∧
        entry'.membershipEpoch = entry.membershipEpoch ∧
        entry'.encryptionEpoch = entry.encryptionEpoch ∧ entry'.nonce = entry.nonce ∧
        entry'.payload = entry.payload

/-- What an entry needs to be appended by a call. -/
structure Entitled (C : Ed25519) (S : Server) (env : Env) (authorization : List String)
    (req : AppendEntryRequest) (entry : ThreadEntry) : Prop where
  caller : Caller S env authorization entry.authorDid
  member : S.db.IsMember req.threadId entry.authorDid
  epochs : req.encryptedEntry.isSome = true →
    entry.membershipEpoch = S.db.membershipEpoch req.threadId ∧
      entry.encryptionEpoch = S.db.membershipEpoch req.threadId
  covered : req.encryptedEntry.isSome = true → Covered C req.threadId entry

theorem addedRows_self (s : Store) : addedRows s s = [] := by
  refine List.filter_eq_nil_iff.mpr fun r _ h => ?_
  have := of_decide_eq_true h
  omega

theorem mem_addedRows_enqueueEntry {s : Store} {now : Int}
    {r : PendingRow} : r ∈ addedRows s (s.enqueueEntry threadID entry now) ↔
      r = ⟨s.pendingSeq + 1, threadID, entry, now⟩ := by
  rw [addedRows, List.mem_filter, decide_eq_true_iff]
  change r ∈ (s.pending.insertOrReplace _).rows ∧ s.pendingSeq < r.id ∧ r.id ≤ s.pendingSeq + 1 ↔ _
  rw [Table.mem_insertOrReplace]
  constructor
  · rintro ⟨⟨-, hne⟩ | rfl, hlt, hle⟩
    · have hid : r.id ≠ s.pendingSeq + 1 := hne
      omega
    · rfl
  · rintro rfl
    exact ⟨.inr rfl, Int.lt_succ _, le_rfl⟩

/-- The author of an entry is who the call is authenticated as. -/
theorem caller_of_scopedOwner {owner : String} (h : (scopedOwner S env authorization).1 = .ok owner) :
    Caller S env authorization (authorOf S owner) := by
  unfold scopedOwner at h
  unfold Caller
  dsimp only at h
  by_cases htoken : bearerToken authorization = ""
  · rw [if_pos htoken] at h ⊢
    dsimp only at h
    split at h
    · cases h
    · obtain rfl := Except.ok.inj h
      exact if_neg (not_not.mpr rfl)
  · rw [if_neg htoken] at h ⊢
    -- The DID of a session is not empty.
    have hne : owner ≠ "" := SessionManager.ne_of_authenticate (Prod.ext h rfl)
    rw [authorOf, if_pos hne]
    exact h

/-- The signed bytes determine what they are made of. -/
theorem signedBytes_binding {threadID' : String} {entry' : ThreadEntry}
    (h : OnWire threadID entry) (h' : OnWire threadID' entry')
    (heq : signedBytes threadID' entry' = signedBytes threadID entry) :
    threadID' = threadID ∧ entry'.sequence = entry.sequence ∧ entry'.kind = entry.kind ∧
      entry'.membershipEpoch = entry.membershipEpoch ∧ entry'.encryptionEpoch = entry.encryptionEpoch ∧
      entry'.nonce = entry.nonce ∧ entry'.payload = entry.payload := by
  obtain ⟨hheader, hpayload⟩ := Threadcrypto.Header.encode_append_inj h'.short h.short heq
  have hword {m n : Nat} (hm : m < 2 ^ 64) (hn : n < 2 ^ 64)
      (hmn : UInt64.ofNat m = UInt64.ofNat n) : m = n := by
    have hmod := congrArg UInt64.toNat hmn
    rwa [UInt64.toNat_ofNat', UInt64.toNat_ofNat', Nat.mod_eq_of_lt hm, Nat.mod_eq_of_lt hn] at hmod
  simp only [headerOf, Threadcrypto.Header.mk.injEq] at hheader
  obtain ⟨hthread, hseq, -, -, hkind, hmember, hencrypt, hnonce⟩ := hheader
  exact ⟨hthread, hword h'.sequence h.sequence hseq, hkind,
    hword h'.membershipEpoch h.membershipEpoch hmember,
    hword h'.encryptionEpoch h.encryptionEpoch hencrypt, hnonce, hpayload⟩

/-- What the checks of an encrypted entry assure. -/
theorem checkEncrypted_eq_ok {author : String}
    (h : checkEncrypted C S env threadID author entry = .ok ()) :
    entry.authorDid = author ∧ S.db.IsMember threadID author ∧
      entry.membershipEpoch = S.db.membershipEpoch threadID ∧
      entry.encryptionEpoch = S.db.membershipEpoch threadID ∧ Covered C threadID entry := by
  unfold checkEncrypted at h
  split at h
  · cases h
  rename_i hshape
  split at h
  · cases h
  split at h
  · cases h
  rename_i hmember
  split at h
  · cases h
  dsimp only at h
  split at h
  · cases h
  rename_i hepochs
  split at h
  · cases h
  rename_i pub hpub
  split at h
  · rename_i hverify
    rw [not_or, not_not, not_not] at hepochs
    refine ⟨not_not.mp (not_or.mp hshape).1, Database.mem_listMembers.mp (not_not.mp hmember), hepochs.1,
      hepochs.2, ⟨pub, hpub, (Threadcrypto.verify_eq_ok hverify).2⟩, ?_⟩
    exact fun _ _ => signedBytes_binding
  · cases h

theorem enqueued_eq_some (h : enqueued C S env authorization req = some entry) :
    env.fails .enqueueEntry = none ∧ ∃ owner, (scopedOwner S env authorization).1 = .ok owner ∧
      entryOf C S env req (authorOf S owner) = .ok entry := by
  unfold enqueued at h
  split at h
  · cases h
  rename_i owner howner
  split at h
  · cases h
  rename_i hentry
  obtain ⟨hfails, heq⟩ := Option.ite_none_left_eq_some.mp h
  exact ⟨Option.not_isSome_iff_eq_none.mp hfails, owner, howner, by rw [hentry, Option.some.inj heq]⟩

/-- An entry that passes the checks is entitled if a plain one comes from a member. -/
theorem entitled_of_entryOf {owner : String}
    (howner : (scopedOwner S env authorization).1 = .ok owner)
    (hentry : entryOf C S env req (authorOf S owner) = .ok entry)
    (hmember : req.encryptedEntry = none → S.db.IsMember req.threadId (authorOf S owner)) :
    Entitled C S env authorization req entry := by
  have hcaller := caller_of_scopedOwner howner
  unfold entryOf at hentry
  split at hentry
  · rename_i hplain
    obtain rfl := Except.ok.inj hentry
    refine ⟨hcaller, hmember hplain, ?_, ?_⟩ <;> exact fun h => by simp [hplain] at h
  · rename_i e _
    split at hentry
    · cases hentry
    · rename_i hcheck
      obtain rfl := Except.ok.inj hentry
      obtain ⟨hauthor, hmem, hepoch, hepoch', hcovered⟩ := checkEncrypted_eq_ok hcheck
      rw [← hauthor] at hcaller hmem
      exact ⟨hcaller, hmem, fun _ => ⟨hepoch, hepoch'⟩,
        fun _ => ⟨hcovered.valid, fun _ _ => signedBytes_binding⟩⟩

/-- **Append authority**: what a call adds to `pending_entries` is entitled to be there exactly if the
call carries an encrypted entry, or is made for a member of the thread, or is not taken. -/
theorem append_authority_iff (C : Ed25519) (S : Server) (env : Env) (authorization : List String)
    (req : AppendEntryRequest) :
    (∀ r ∈ addedRows S.db.toStore (appendEntry C S env authorization req).2.db.toStore,
      r.threadId = req.threadId ∧ Entitled C S env authorization req r.payload) ↔
    (req.encryptedEntry = none → env.fails .enqueueEntry = none →
      ∀ owner, (scopedOwner S env authorization).1 = .ok owner →
        S.db.IsMember req.threadId (authorOf S owner)) := by
  rw [appendEntry_db]
  constructor
  · intro h hplain hfails owner howner
    have hentry : enqueued C S env authorization req = some
        { authorDid := authorOf S owner, payload := req.payload, kind := req.kind, authorSig := "",
          submittedAt := env.now } := by
      rw [enqueued, howner]
      dsimp only
      rw [entryOf, hplain]
      dsimp only
      rw [hfails]
      rfl
    rw [hentry] at h
    exact (h _ (mem_addedRows_enqueueEntry.mpr rfl)).2.member
  · intro h r hr
    cases henq : enqueued C S env authorization req with
    | none =>
      rw [henq] at hr
      change r ∈ addedRows S.db.toStore S.db.toStore at hr
      rw [addedRows_self] at hr
      exact absurd hr List.not_mem_nil
    | some entry =>
      rw [henq] at hr
      obtain rfl := mem_addedRows_enqueueEntry.mp hr
      obtain ⟨hfails, owner, howner, hentry⟩ := enqueued_eq_some henq
      exact ⟨rfl, entitled_of_entryOf howner hentry fun hplain => h hplain hfails owner howner⟩

/-! ## A client that is not a member -/

namespace Guest

/-- A signature scheme that accepts nothing. -/
def rejecting : Ed25519 := ⟨fun _ _ => [], fun _ _ _ => false⟩

/-- A daemon with a thread of which it is the only member, and a client with a session. -/
def host : Server where
  did := "d1"
  sessions := ⟨Table.empty.insertOrReplace (Sha256.sum256 (bytes "token"), ⟨"guest", by decide, 1000⟩)⟩
  db := { Database.empty with
    threads := Table.empty.insertOrReplace ⟨"t", "d1", ["d1"], 1, 0, 1000, 0, []⟩
    members := Table.empty.insertOrReplace ⟨"t", "d1", .admin, 1⟩ }
  outbox := []

/-- Nothing fails. -/
def calm : Env := ⟨1, fun _ => none⟩

/-- A plain entry. -/
def note : AppendEntryRequest := ⟨"t", bytes "hello", "message", none⟩

/-- An entry of the client is enqueued, and the client is not in `thread_members`. -/
theorem guest_appends : ∃ r ∈ addedRows host.db.toStore
      (appendEntry rejecting host calm ["Bearer token"] note).2.db.toStore,
    Caller host calm ["Bearer token"] "guest" ∧ r.threadId = "t" ∧ r.payload.authorDid = "guest" ∧
      ¬host.db.IsMember "t" "guest" := by
  decide +kernel

end Guest

end MoltMesh.Rpc
