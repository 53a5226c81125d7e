import MoltMesh.Manager

/-!
# Who owns a thread

The row of a thread is written by creations (`buildAndPersistThread`), invitations
(`receiveHandlerRaw`) and imports (`ImportHistory`).  Each of them looks whether the descriptor is
consistent with the creator it names; none looks whether the thread is already stored with
another one.  `ownership_permanent_iff` says what keeps the creator of a thread.
-/

namespace MoltMesh

open MoltMesh.Lib Pb

namespace ActorManager

/-! ## The writers -/

/-- The errors of `buildAndPersistThread`. -/
inductive BuildError
  | signed (err : SignedRequestError)
  | create (err : CreateError)
  /-- The error of `SignDescriptor`. -/
  | sign
  /-- `save thread`. -/
  | saveThread (err : String)
  /-- `save creator membership`. -/
  | saveMember (err : String)
  /-- `spawn thread actor`. -/
  | spawn (err : String)
deriving DecidableEq

section Writers

variable (C : Ed25519) (m : ActorManager) (env : ManagerEnv)

/-- The descriptor `buildAndPersistThread` makes from a request: one that names a creator must be signed
by it, the others are the daemon's own.  There is no result when `ed25519.Verify` panics. -/
def buildThread (req : Option SignedRequest) : Option (Except BuildError Thread) :=
  if (req.any fun req => req.creatorDid ≠ "") = true then
    (newThreadFromSignedRequest C env.uuid env.now req).map fun
      | .error err => .error (.signed err)
      | .ok th => .ok th
  else match newThreadFromRequest env.uuid env.now m.selfDID (req.map SignedRequest.toCreateThreadRequest) "" 0 with
    | .error err => some (.error (.create err))
    | .ok th => match signDescriptor C th m.id with
      | none => some (.error .sign)
      | some th => some (.ok th)

/-- `CreateThread`: `buildAndPersistThread`, and the actor is started. -/
def createThread (req : Option SignedRequest) : Option (Except BuildError Thread × ActorManager) :=
  match m.buildThread C env req with
  | none => none
  | some (.error err) => some (.error err, m)
  | some (.ok th) => match m.saveThread env th with
    | .error err => some (.error (.saveThread err), m)
    | .ok m => match m.saveMember env ⟨th.id, th.creatorDid, .admin, 1⟩ with
      | .error err => some (.error (.saveMember err), m)
      | .ok m => match m.spawn env th with
        | .error err => some (.error (.spawn err), m)
        | .ok m => some (.ok th, m)

/-- `buildAndPersistThread`. -/
def buildAndPersistThread (req : Option SignedRequest) : Option (Except BuildError Thread × ActorManager) :=
  match m.buildThread C env req with
  | none => none
  | some (.error err) => some (.error err, m)
  | some (.ok th) => match m.saveThread env th with
    | .error err => some (.error (.saveThread err), m)
    | .ok m => match m.saveMember env ⟨th.id, th.creatorDid, .admin, 1⟩ with
      | .error err => some (.error (.saveMember err), m)
      | .ok m => some (.ok th, m)

/-- `CreateThread` starts the actor of a thread that has been saved. -/
theorem createThread_eq (req : Option SignedRequest) :
    m.createThread C env req = match m.buildAndPersistThread C env req with
      | some (.ok th, m) => match m.spawn env th with
        | .error err => some (.error (.spawn err), m)
        | .ok m => some (.ok th, m)
      | result => result := by
  unfold createThread buildAndPersistThread
  rcases m.buildThread C env req with _ | err | th
  · rfl
  · rfl
  · dsimp only
    cases m.saveThread env th with
    | error err => rfl
    | ok m₁ =>
      dsimp only
      cases m₁.saveMember env ⟨th.id, th.creatorDid, .admin, 1⟩ with
      | error err => rfl
      | ok m₂ => rfl

/-- The branch of `receiveHandlerRaw` for a `THREAD_INVITE`, of a message whose sender has been
authenticated: whether it is acknowledged.  There is no result when `ed25519.Verify` panics. -/
def receiveThreadInvite (hasSession : String → Bool) (toDid : String) (th : Thread) :
    Option (Bool × ActorManager) :=
  if toDid ≠ m.selfDID ∧ hasSession toDid = false then some (false, m)
  else match verifyDescriptor C th with
    | none => none
    | some (.error _) => some (false, m)
    | some (.ok ()) =>
      if toDid ∉ th.replicaDids then some (false, m)
      else match m.inviteReceived env th with
        | (.error _, m) => some (false, m)
        | (.ok (), m) => some (true, m)

/-- `ImportHistory`. -/
def importHistory (t : Thread) (blocks : List ThreadBlock) : Except String ActorManager :=
  match env.fails .importHistory with
  | some err => .error err
  | none => match m.db.importHistory t blocks with
    | none => .error "invalid recovery thread"
    | some s => .ok { m with db := { m.db with toStore := s } }

end Writers

/-- What happens to a node. -/
inductive Event
  | create (req : Option SignedRequest)
  | invite (toDid : String) (th : Thread)
  | importHistory (t : Thread) (blocks : List ThreadBlock)

/-- An event with what the environment decides during it. -/
structure Occurrence where
  env : ManagerEnv
  /-- The DIDs with a live session. -/
  hasSession : String → Bool
  event : Event

section Runs

variable (C : Ed25519)

/-- The node after an event; a panic ends the call before anything is written. -/
def occur (m : ActorManager) (o : Occurrence) : ActorManager :=
  match o.event with
  | .create req => ((m.createThread C o.env req).map Prod.snd).getD m
  | .invite toDid th => ((m.receiveThreadInvite C o.env o.hasSession toDid th).map Prod.snd).getD m
  | .importHistory t blocks => match m.importHistory o.env t blocks with
    | .error _ => m
    | .ok m => m

/-- The node after a sequence of events. -/
def history (m : ActorManager) (os : List Occurrence) : ActorManager := os.foldl (occur C) m

/-- The descriptor an event saves: one that passes the checks of its path, if the statement does not
fail. -/
def saved (m : ActorManager) (o : Occurrence) : Option Thread :=
  match o.event with
  | .create req => match m.buildThread C o.env req with
    | some (.ok th) => if (o.env.fails .saveThread).isSome then none else some th
    | _ => none
  | .invite toDid th =>
    if (toDid = m.selfDID ∨ o.hasSession toDid = true) ∧ Verified C th ∧ toDid ∈ th.replicaDids ∧
      (o.env.fails .saveThread).isNone then some th else none
  | .importHistory t _ => if t.id = "" ∨ (o.env.fails .importHistory).isSome then none else some t

variable {C} {m : ActorManager} {o : Occurrence}

/-! ## What an event writes -/

theorem saveThread_eq_ok {env : ManagerEnv} {th : Thread} {m' : ActorManager}
    (h : m.saveThread env th = .ok m') :
    env.fails .saveThread = none ∧ m'.db.threads = m.db.threads.insertOrReplace th := by
  unfold saveThread at h
  split at h
  · cases h
  · rename_i hsave
    cases h
    exact ⟨hsave, rfl⟩

theorem threads_saveMember {env : ManagerEnv} {r : MemberRow} {m' : ActorManager}
    (h : m.saveMember env r = .ok m') : m'.db.threads = m.db.threads := by
  have hdb := (saveMember_eq_ok h).2
  unfold Database.saveMember at hdb
  split at hdb
  · cases hdb
  · rw [← Option.some.inj hdb]

/-- The threads of a store with imported blocks. -/
theorem threads_foldl_saveBlock (blocks : List ThreadBlock) (s : Store) :
    (blocks.foldl Store.saveBlock s).threads = s.threads := by
  induction blocks generalizing s with
  | nil => rfl
  | cons b blocks ih => exact ih (s.saveBlock b)

theorem threads_createThread (env : ManagerEnv) (req : Option SignedRequest) :
    (((m.createThread C env req).map Prod.snd).getD m).db.threads =
      match m.buildThread C env req with
      | some (.ok th) => if (env.fails .saveThread).isSome then m.db.threads else m.db.threads.insertOrReplace th
      | _ => m.db.threads := by
  unfold createThread
  cases m.buildThread C env req with
  | none => rfl
  | some result =>
    cases result with
    | error err => rfl
    | ok th =>
      dsimp only
      cases hsave : m.saveThread env th with
      | error err =>
        have hfails : (env.fails .saveThread).isSome := by
          unfold saveThread at hsave
          cases h : env.fails .saveThread with
          | some err => rfl
          | none =>
            rw [h] at hsave
            cases hsave
        rw [if_pos hfails]
        rfl
      | ok m₁ =>
        obtain ⟨hfails, hthreads⟩ := saveThread_eq_ok hsave
        rw [hfails, if_neg (by decide), ← hthreads]
        dsimp only
        cases hmember : m₁.saveMember env ⟨th.id, th.creatorDid, .admin, 1⟩ with
        | error err => rfl
        | ok m₂ =>
          rw [← threads_saveMember hmember]
          dsimp only
          cases hspawn : m₂.spawn env th with
          | error err => rfl
          | ok m₃ => exact congrArg (fun db : Database => db.threads) (spawn_eq_ok hspawn)

theorem threads_receiveThreadInvite (env : ManagerEnv) (hasSession : String → Bool) (toDid : String)
    (th : Thread) :
    (((m.receiveThreadInvite C env hasSession toDid th).map Prod.snd).getD m).db.threads =
      if (toDid = m.selfDID ∨ hasSession toDid = true) ∧ Verified C th ∧ toDid ∈ th.replicaDids ∧
        (env.fails .saveThread).isNone then m.db.threads.insertOrReplace th else m.db.threads := by
  have hinvite : (m.inviteReceived env th).2.db.threads =
      if (env.fails .saveThread).isSome then m.db.threads else m.db.threads.insertOrReplace th := by
    rw [inviteReceived_db, invited_threads]
  unfold receiveThreadInvite
  by_cases hto : toDid = m.selfDID ∨ hasSession toDid = true
  swap
  · rw [if_pos (by simpa using hto), if_neg (by tauto)]
    rfl
  have hhere : ¬(toDid ≠ m.selfDID ∧ hasSession toDid = false) := by
    rintro ⟨hne, hnone⟩
    rcases hto with rfl | h
    · exact hne rfl
    · rw [h] at hnone
      cases hnone
  rw [if_neg hhere]
  by_cases hverified : Verified C th
  swap
  · rw [if_neg fun h : (_ ∨ _) ∧ _ => hverified h.2.1]
    split
    · rfl
    · rfl
    · rename_i h
      exact absurd h hverified
  rw [show verifyDescriptor C th = _ from hverified]
  dsimp only
  by_cases hmember : toDid ∈ th.replicaDids
  swap
  · rw [if_pos hmember, if_neg (by tauto)]
    rfl
  rw [if_neg (not_not.mpr hmember)]
  have hdb : (((match m.inviteReceived env th with
      | (.error _, m) => some (false, m)
      | (.ok (), m) => some (true, m)) : Option (Bool × ActorManager)).map Prod.snd).getD m =
        (m.inviteReceived env th).2 := by
    split <;> (rename_i h; rw [h]; rfl)
  rw [hdb, hinvite]
  cases env.fails .saveThread with
  | some err => simp
  | none => simp [hto, hmember, hverified]

theorem threads_importHistory (env : ManagerEnv) (t : Thread) (blocks : List ThreadBlock) :
    (match m.importHistory env t blocks with
      | .error _ => m
      | .ok m => m).db.threads =
      if t.id = "" ∨ (env.fails .importHistory).isSome then m.db.threads else m.db.threads.insertOrReplace t := by
  unfold importHistory Store.importHistory
  cases env.fails .importHistory with
  | some err => simp
  | none =>
    by_cases hid : t.id = ""
    · simp [hid]
    · rw [if_neg hid, if_neg (by simp [hid])]
      exact threads_foldl_saveBlock blocks _

/-- **An event replaces the row of the thread it saves**, and no other. -/
theorem occur_threads : (occur C m o).db.threads =
    (saved C m o).elim m.db.threads m.db.threads.insertOrReplace := by
  unfold occur saved
  cases o.event with
  | create req =>
    dsimp only
    rw [threads_createThread]
    rcases m.buildThread C o.env req with _ | (err | th)
    · rfl
    · rfl
    · dsimp only
      split <;> rfl
  | invite toDid th =>
    dsimp only
    rw [threads_receiveThreadInvite]
    split <;> rfl
  | importHistory t blocks =>
    dsimp only
    rw [threads_importHistory]
    split <;> rfl

/-! ## Ownership -/

/-- Every thread that is stored is still stored, with the same creator. -/
def KeepsCreators (s s' : Store) : Prop :=
  ∀ threadID th, s.threads.lookup threadID = some th →
    ∃ th', s'.threads.lookup threadID = some th' ∧ th'.creatorDid = th.creatorDid

theorem KeepsCreators.refl (s : Store) : KeepsCreators s s := fun _ th h => ⟨th, h, rfl⟩

theorem KeepsCreators.trans {s s' s'' : Store} (h : KeepsCreators s s') (h' : KeepsCreators s' s'') :
    KeepsCreators s s'' := by
  intro threadID th hth
  obtain ⟨th', hth', hcreator⟩ := h threadID th hth
  obtain ⟨th'', hth'', hcreator'⟩ := h' threadID th' hth'
  exact ⟨th'', hth'', hcreator'.trans hcreator⟩

variable (C m o) in
/-- What an event saves, if it saves anything, names the creator that the thread is stored with. -/
def SameOwner : Prop :=
  ∀ th ∈ saved C m o, ∀ old, m.db.threads.lookup th.id = some old → old.creatorDid = th.creatorDid

theorem keepsCreators_occur_iff : KeepsCreators m.db.toStore (occur C m o).db.toStore ↔ SameOwner C m o := by
  unfold KeepsCreators SameOwner
  rw [occur_threads]
  cases saved C m o with
  | none => exact ⟨fun _ _ h => (by cases h), fun _ threadID th h => ⟨th, h, rfl⟩⟩
  | some new =>
    constructor
    · rintro h _ ⟨⟩ old hold
      obtain ⟨th', hth', hcreator⟩ := h new.id old hold
      rw [Option.elim_some, Table.lookup_insertOrReplace_self] at hth'
      rw [← hcreator, Option.some.inj hth']
    · intro h threadID th hth
      by_cases hid : threadID = new.id
      · subst hid
        exact ⟨new, Table.lookup_insertOrReplace_self _ _, (h new rfl th hth).symm⟩
      · exact ⟨th, by rw [Option.elim_some, Table.lookup_insertOrReplace_of_ne hid, hth], rfl⟩

/-- **When ownership is permanent**: between any two moments of a history every thread keeps its creator,
exactly if no event saves a descriptor of a stored thread that names another creator. -/
theorem ownership_permanent_iff (C : Ed25519) (m : ActorManager) (os : List Occurrence) :
    (∀ before between after, os = before ++ (between ++ after) →
      KeepsCreators (history C m before).db.toStore (history C m (before ++ between)).db.toStore) ↔
    ∀ before o after, os = before ++ o :: after → SameOwner C (history C m before) o := by
  constructor
  · intro h before o after hos
    have hstep := h before [o] after hos
    rw [history, history, List.foldl_append] at hstep
    exact keepsCreators_occur_iff.mp hstep
  · intro h before between after hos
    induction between using List.reverseRecOn generalizing after with
    | nil =>
      rw [List.append_nil]
      exact .refl _
    | append_singleton between o ih =>
      have hrest := ih (o :: after) (by rw [hos]; simp)
      have hstep : SameOwner C (history C m (before ++ between)) o :=
        h (before ++ between) o after (by rw [hos]; simp)
      have hlast : history C m (before ++ (between ++ [o])) = occur C (history C m (before ++ between)) o := by
        rw [← List.append_assoc, history, List.foldl_append]
        rfl
      rw [hlast]
      exact hrest.trans (keepsCreators_occur_iff.mpr hstep)

end Runs

/-! ## A thread that changes hands -/

namespace Family

open Tendermint.Quartet (did1 did2 did3 key checksum)

/-- What an SDK of the second agent signs: its own thread, with an id that is taken. -/
def claim : SignedRequest :=
  let req : SignedRequest :=
    { replicaDids := [did2], f := 0, epochMs := 1000, metadata := [], threadId := "t", creatorDid := did2,
      creatorSignature := [], createdAt := 1 }
  match newThreadFromRequest "u" 1 did2 (some req.toCreateThreadRequest) "t" 1 with
  | .error _ => req
  | .ok th => { req with creatorSignature := checksum.sign (key 2) (descriptorBytes th) }

/-- The same thread as a descriptor that the second agent sends to the node of the first. -/
def rival : Thread :=
  let th : Thread := { older with creatorDid := did2, replicaDids := [did2, did1], metadata := [] }
  (signDescriptor checksum th ⟨did2, key 2⟩).getD th

/-- **A thread changes hands**: the first agent's node stores its thread, and a request signed by the second
agent, or an invitation from it, puts its own in its place. -/
theorem thread_changes_hands :
    ((home ⟨did1, key 1⟩ []).db.threads.lookup "t").map Thread.creatorDid = some did1 ∧
    ((occur checksum (home ⟨did1, key 1⟩ []) ⟨calm, fun _ => false, .create (some claim)⟩).db.threads.lookup
      "t").map Thread.creatorDid = some did2 ∧
    Verified checksum rival ∧
    ((occur checksum (home ⟨did1, key 1⟩ []) ⟨calm, fun _ => false, .invite did1 rival⟩).db.threads.lookup
      "t").map Thread.creatorDid = some did2 := by
  refine ⟨?_, ?_, ?_, ?_⟩ <;> decide +kernel

end Family

end ActorManager

end MoltMesh
