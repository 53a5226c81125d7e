import Mathlib.Logic.Function.Basic
import Mathlib.Logic.Relation
import MoltMesh.Creation
import MoltMesh.Raft.Reload
import MoltMesh.Raft.Roster

/-!
# Agreement on Raft ids

The replicas of a thread have to agree on the Raft id of every DID.  Each of them
counts along its own list, which grows as membership entries are applied, and only
the creator saves the list.  A replica that is built anew counts along the descriptor
it has stored: the ids agree as long as that descriptor lists what the replica has
applied, and the entries reach all replicas in the same order.
-/

namespace MoltMesh.Raft

open MoltMesh.Lib Pb Raftpb

variable {dids : List String}

/-! ## Lists of DIDs -/

namespace Roster

theorem joinDids_eq_self {entry : ThreadEntry} :
    joinDids dids entry = dids ↔ entry.kind ≠ "membership:add-observer" ∨
      textOf entry.payload = "" ∨ textOf entry.payload ∈ dids := by
  unfold joinDids
  split
  case isTrue h => exact iff_of_true rfl (.inl h)
  case isFalse h =>
    split
    case isTrue hempty => exact iff_of_true rfl (.inr (.inl hempty))
    case isFalse hempty =>
      split
      case isTrue hmem => exact iff_of_true rfl (.inr (.inr hmem))
      case isFalse hmem => simp [hempty, hmem, not_not.mp h]

theorem prefix_joinDids (dids : List String) (entry : ThreadEntry) :
    dids <+: joinDids dids entry := by
  unfold joinDids
  split
  · exact List.prefix_rfl
  · split
    · exact List.prefix_rfl
    · split
      · exact List.prefix_rfl
      · exact List.prefix_append _ _

theorem prefix_foldl_joinDids (dids : List String) (l : List ThreadEntry) :
    dids <+: l.foldl joinDids dids := by
  induction l generalizing dids with
  | nil => exact List.prefix_rfl
  | cons entry l ih => exact (prefix_joinDids dids entry).trans (ih _)

theorem joinDids_again (dids : List String) (entry : ThreadEntry) :
    joinDids (joinDids dids entry) entry = joinDids dids entry := by
  rw [joinDids_eq_self]
  by_cases hsame : joinDids dids entry = dids
  · rw [hsame]
    exact joinDids_eq_self.mp hsame
  · right; right
    rw [joinDids_eq_self, not_or, not_or] at hsame
    obtain ⟨hkind, hempty, hmem⟩ := hsame
    rw [joinDids, if_neg hkind, if_neg hempty, if_neg hmem]
    exact List.mem_append_right _ (List.mem_singleton_self _)

theorem joinDids_keeps (dids : List String) (entry other : ThreadEntry)
    (h : joinDids dids entry = dids) :
    joinDids (joinDids dids other) entry = joinDids dids other := by
  rw [joinDids_eq_self] at h ⊢
  exact h.imp_right (.imp_right fun hmem => (prefix_joinDids dids other).subset hmem)

theorem nodup_joinDids (h : dids.Nodup) (entry : ThreadEntry) : (joinDids dids entry).Nodup := by
  unfold joinDids
  split
  · exact h
  · split
    · exact h
    · split
      · exact h
      · rename_i hmem
        exact h.append (List.nodup_singleton _) (List.disjoint_singleton.mpr hmem)

theorem nodup_foldl_joinDids (h : dids.Nodup) (l : List ThreadEntry) :
    (l.foldl joinDids dids).Nodup := by
  induction l generalizing dids with
  | nil => exact h
  | cons entry l ih => exact ih (nodup_joinDids h entry)

/-- Two histories with the same beginnings of one log list the same DIDs. -/
theorem foldl_joinDids_eq {l m log : List ThreadEntry}
    (hl : l.eraseDups <+: log.eraseDups) (hm : m.eraseDups <+: log.eraseDups)
    (h : ∀ entry, entry ∈ l ↔ entry ∈ m) : l.foldl joinDids dids = m.foldl joinDids dids := by
  rw [← foldl_eraseDups joinDids_again joinDids_keeps, eraseDups_eq_of_prefix hl hm h,
    foldl_eraseDups joinDids_again joinDids_keeps]

/-- The two maps of a list without repetitions are inverse to each other. -/
theorem lookup_ofDids_iff (h : dids.Nodup) (did : String) (id : Nat) :
    (ofDids dids).peerIDs.lookup did = some (did, id) ↔
      (ofDids dids).didByID.lookup id = some (id, did) := by
  rw [lookup_peerIDs_ofDids, lookup_didByID_ofDids]
  refine and_congr_right fun hpos => ⟨And.left, fun hget => ⟨hget, fun k hk hget' => ?_⟩⟩
  have hlt := (List.getElem?_eq_some_iff.mp hget).1
  have heq := (List.getElem?_inj hlt h).mp (hget.trans hget'.symm)
  omega

end Roster

/-! ## Replicas that are built anew -/

/-- A replica over the runs of its process. -/
structure Replica where
  life : Life
  /-- The thread entries it has stored, with those that it has stored again. -/
  history : List ThreadEntry

namespace Replica

/-- A replica of thread `T` takes calls, stops after some of the effects of a call, is sent a
descriptor, and is built anew from the descriptor it has stored.  `ok` is a condition on the history
and `fresh` one on the descriptor a replica with this history is built from. -/
inductive Step (N : Node) (T : String) (ok : List ThreadEntry → Prop)
    (fresh : List ThreadEntry → Thread → Prop) : Replica → Replica → Prop
  | call {env : Env} {e e' : Backend} {ev : Event} {δ : List Effect} {h : List ThreadEntry}
    (hstep : step N env e ev = .ok e') (hδ : e'.trace = e.trace ++ δ)
    (hok : ok (h ++ storedEntries δ)) : Step N T ok fresh ⟨.up e, h⟩ ⟨.up e', h ++ storedEntries δ⟩
  | stop {env : Env} {e : Backend} {ev : Event} {α : List Effect} {h : List ThreadEntry}
    (hα : e.trace ++ α <+: (final (step N env e ev)).trace) (hok : ok (h ++ storedEntries α)) :
    Step N T ok fresh ⟨.up e, h⟩ ⟨.down (replay e.thread.id e.store α), h ++ storedEntries α⟩
  /-- The `SaveThread` of `InviteReceived`, with the process up. -/
  | invite {e : Backend} {h : List ThreadEntry} {th : Thread} (hid : th.id = T) :
    Step N T ok fresh ⟨.up e, h⟩ ⟨.up { e with store := e.store.saveThread th }, h⟩
  /-- The same while no backend of the thread runs. -/
  | inviteDown {s : Store} {h : List ThreadEntry} {th : Thread} (hid : th.id = T) :
    Step N T ok fresh ⟨.down s, h⟩ ⟨.down (s.saveThread th), h⟩
  | start {env : Env} {s : Store} {h : List ThreadEntry} {th : Thread} {start : NodeStart}
    {e : Backend} (hth : s.threads.lookup T = some th) (hfresh : fresh h th)
    (hnew : newRaftBackend N env th s = .ok (start, e)) :
    Step N T ok fresh ⟨.down s, h⟩ ⟨.up e, h⟩

variable {N : Node} {T : String} {dids : List String} {log : List ThreadEntry} {r r' : Replica}

/-- The condition on a history: without what is stored again, it is a beginning of the log. -/
def InOrder (log h : List ThreadEntry) : Prop := h.eraseDups <+: log.eraseDups

/-- The condition on the descriptor a replica is built from: it lists what the replica has
applied. -/
def Lists (dids : List String) (h : List ThreadEntry) (th : Thread) : Prop :=
  th.replicaDids = h.foldl Roster.joinDids dids

/-- A replica counts along the DIDs of the entries it has stored. -/
structure Counts (dids : List String) (log : List ThreadEntry) (r : Replica) : Prop where
  inOrder : InOrder log r.history
  roster : ∀ e, r.life = .up e → e.roster = .ofDids (r.history.foldl Roster.joinDids dids)

theorem Counts.step (hr : Counts dids log r) (h : Step N T (InOrder log) (Lists dids) r r') :
    Counts dids log r' := by
  cases h with
  | @call env e e' ev δ h hstep hδ hok =>
    refine ⟨hok, fun e₁ he₁ => ?_⟩
    obtain rfl := Life.up.inj he₁
    obtain ⟨γ, hγ⟩ := step_joins hstep
    obtain rfl := List.append_cancel_left (hδ.symm.trans hγ.trace)
    rw [hγ.roster, hr.roster e rfl, Roster.foldl_join_ofDids, ← List.foldl_append]
  | stop hα hok => exact ⟨hok, nofun⟩
  | @invite e h th hid =>
    refine ⟨hr.inOrder, fun e₁ he₁ => ?_⟩
    obtain rfl := Life.up.inj he₁
    exact hr.roster e rfl
  | inviteDown hid => exact ⟨hr.inOrder, nofun⟩
  | start hth hfresh hnew =>
    refine ⟨hr.inOrder, fun e₁ he₁ => ?_⟩
    obtain rfl := Life.up.inj he₁
    rw [newRaftBackend_roster hnew, hfresh]

variable {ι : Type} [DecidableEq ι] {node : ι → Node} {S S' : ι → Replica}

/-- One of the replicas of a thread takes a step. -/
def GroupStep (node : ι → Node) (T : String) (ok : List ThreadEntry → Prop)
    (fresh : List ThreadEntry → Thread → Prop) (S S' : ι → Replica) : Prop :=
  ∃ i r, Step (node i) T ok fresh (S i) r ∧ S' = Function.update S i r

/-- A run of one replica is one of the group. -/
theorem run_update {ok : List ThreadEntry → Prop} {fresh : List ThreadEntry → Thread → Prop} {i : ι}
    (hS : S i = r) (hrun : Relation.ReflTransGen (Step (node i) T ok fresh) r r') :
    Relation.ReflTransGen (GroupStep node T ok fresh) S (Function.update S i r') := by
  have hlift : Relation.ReflTransGen (GroupStep node T ok fresh) (Function.update S i r)
      (Function.update S i r') := hrun.lift (Function.update S i) fun a b hstep =>
    ⟨i, b, by rwa [Function.update_self], (Function.update_idem a b S).symm⟩
  rwa [← hS, Function.update_eq_self] at hlift

theorem counts_of_run (h₀ : ∀ i, ∃ s h, S i = ⟨.down s, h⟩ ∧ InOrder log h)
    (hrun : Relation.ReflTransGen (GroupStep node T (InOrder log) (Lists dids)) S S') (i : ι) :
    Counts dids log (S' i) := by
  induction hrun generalizing i with
  | refl =>
    obtain ⟨s, h, hS, hin⟩ := h₀ i
    rw [hS]
    exact ⟨hin, nofun⟩
  | tail _ hstep ih =>
    obtain ⟨j, r, hr, rfl⟩ := hstep
    rcases eq_or_ne i j with rfl | hne
    · rw [Function.update_self]
      exact (ih i).step hr
    · rw [Function.update_of_ne hne]
      exact ih i

/-- **The replicas agree on Raft ids.**  In every run from replicas that are down, each with some
beginning of the log in its history, in which entries are stored in the order of the log and every
replica is built from a descriptor that lists what it has applied: the two maps of a replica are
inverse to each other, and replicas that have applied the same entries have the same maps. -/
theorem ids_agree (hdids : dids.Nodup) (h₀ : ∀ i, ∃ s h, S i = ⟨.down s, h⟩ ∧ InOrder log h)
    (hrun : Relation.ReflTransGen (GroupStep node T (InOrder log) (Lists dids)) S S') :
    (∀ i e, (S' i).life = .up e → ∀ did id,
      e.peerIDs.lookup did = some (did, id) ↔ e.didByID.lookup id = some (id, did)) ∧
    ∀ i j e e', (S' i).life = .up e → (S' j).life = .up e' →
      (∀ entry, entry ∈ (S' i).history ↔ entry ∈ (S' j).history) →
      (∀ did, e.peerIDs.lookup did = e'.peerIDs.lookup did) ∧
        ∀ id, e.didByID.lookup id = e'.didByID.lookup id := by
  have hall := counts_of_run h₀ hrun
  constructor
  · intro i e he did id
    have hroster := (hall i).roster e he
    have hnodup := Roster.nodup_foldl_joinDids hdids (S' i).history
    have hinv := Roster.lookup_ofDids_iff hnodup did id
    rw [← hroster] at hinv
    exact hinv
  · intro i j e e' he he' hsame
    have heq : e.roster = e'.roster := by
      rw [(hall i).roster e he, (hall j).roster e' he',
        Roster.foldl_joinDids_eq (hall i).inOrder (hall j).inOrder hsame]
    have hpeers : e.peerIDs = e'.peerIDs := congrArg Roster.peerIDs heq
    have hdidsBy : e.didByID = e'.didByID := congrArg Roster.didByID heq
    exact ⟨fun did => by rw [hpeers], fun id => by rw [hdidsBy]⟩

end Replica

/-! ## Three replicas and an observer -/

namespace Trio

/-- An entry that adds an observer. -/
def addD4 : ThreadEntry where
  authorDid := "d1"
  payload := bytes "d4"
  kind := "membership:add-observer"
  authorSig := ""
  submittedAt := 1

/-- A log with this entry. -/
def memberLog : List Entry := [⟨1, 1, .proposal ⟨[1], [addD4], "d1"⟩⟩]

/-- A request for a thread of three voters. -/
def charterRequest : CreateThreadRequest := ⟨["d1", "d2", "d3"], 1, 1000, []⟩

/-- The descriptor that is made from it. -/
def charter : Thread where
  id := "t"
  creatorDid := "d1"
  replicaDids := ["d1", "d2", "d3"]
  n := 3
  f := 1
  epochMs := 1000
  createdAt := 1
  metadata := [("backend", "raft")]

theorem accepted_charter : Accepted .raft "t" 1 "d1" charterRequest "" 0 charter := ⟨rfl, rfl⟩

/-- The database of a replica that has been invited. -/
def invited : Store := Store.empty.saveThread charter

/-- The replica when it is built for the first time. -/
def joined (i : Fin 3) : Backend :=
  { first i with thread := charter, store := invited.releasePendingClaims "t" }

theorem newRaftBackend_joined (i : Fin 3) :
    newRaftBackend (node i) calm charter invited = .ok (.start [1, 2, 3], joined i) := by
  fin_cases i <;> rfl

/-- The replica after it has applied the log. -/
def enlarged (i : Fin 3) : Backend := final (step (node i) calm (joined i) (.ready (batch memberLog)))

/-- The replica after it has taken a snapshot. -/
def compacted (i : Fin 3) : Backend := final (step (node i) calm (enlarged i) .snapshot)

/-- The replica that is built from what it has left. -/
def rebuilt (i : Fin 3) : Backend :=
  match newRaftBackend (node i) calm charter (compacted i).store with
  | .ok (_, e) => e
  | .error _ => first i

theorem newRaftBackend_rebuilt : newRaftBackend (node 1) calm charter (compacted 1).store =
    .ok (.restart, rebuilt 1) := rfl

/-- All replicas have been invited. -/
def invitees : Fin 3 → Replica := fun _ => ⟨.down invited, []⟩

/-- What a replica does when it applies the log. -/
def memberEffects (i : Fin 3) : List Effect := (enlarged i).trace.drop (joined i).trace.length

theorem trace_enlarged (i : Fin 3) : (enlarged i).trace = (joined i).trace ++ memberEffects i := by
  fin_cases i <;> decide +kernel

theorem storedEntries_memberEffects (i : Fin 3) : storedEntries (memberEffects i) = [addD4] := by
  fin_cases i <;> decide +kernel

section Runs

variable (ok : List ThreadEntry → Prop) (fresh : List ThreadEntry → Thread → Prop)

/-- A replica is built and applies the log. -/
theorem run_enlarged (i : Fin 3) (hfresh : fresh [] charter) (hok : ok [addD4]) :
    Relation.ReflTransGen (Replica.Step (node i) "t" ok fresh) ⟨.down invited, []⟩
      ⟨.up (enlarged i), [addD4]⟩ := by
  have hstart : Replica.Step (node i) "t" ok fresh ⟨.down invited, []⟩ ⟨.up (joined i), []⟩ :=
    .start rfl hfresh (newRaftBackend_joined i)
  have hcall : Replica.Step (node i) "t" ok fresh ⟨.up (joined i), []⟩
      ⟨.up (enlarged i), [] ++ storedEntries (memberEffects i)⟩ := by
    refine .call (step_eq_ok ?_) (trace_enlarged i) (storedEntries_memberEffects i ▸ hok)
    fin_cases i <;> decide +kernel
  rw [storedEntries_memberEffects] at hcall
  exact .tail (.single hstart) hcall

/-- The second replica takes a snapshot, stops before it takes another call, and is built anew. -/
theorem run_rebuilt (hfresh : fresh [addD4] charter) (hok : ok [addD4]) :
    Relation.ReflTransGen (Replica.Step (node 1) "t" ok fresh) ⟨.up (enlarged 1), [addD4]⟩
      ⟨.up (rebuilt 1), [addD4]⟩ := by
  have hsnap : Replica.Step (node 1) "t" ok fresh ⟨.up (enlarged 1), [addD4]⟩
      ⟨.up (compacted 1), [addD4] ++ storedEntries [.write (.saveRaftSnapshot ⟨1, 1, ⟨[1, 2, 3]⟩⟩)]⟩ :=
    .call (step_eq_ok (by decide +kernel)) (by decide +kernel) hok
  have hstop : Replica.Step (node 1) "t" ok fresh ⟨.up (compacted 1), [addD4]⟩
      ⟨.down (replay "t" (compacted 1).store []), [addD4] ++ storedEntries []⟩ := by
    have hα : (compacted 1).trace ++ [] <+:
        (final (step (node 1) calm (compacted 1) (.inbound .other))).trace := by
      rw [List.append_nil]
      exact List.prefix_rfl
    exact .stop hα hok
  exact .tail (.tail (.single hsnap) hstop) (.start rfl hfresh newRaftBackend_rebuilt)

end Runs

/-- The first replica has applied the log, and the second has done so too and has been built anew. -/
def forgetful : Fin 3 → Replica :=
  Function.update (Function.update invitees 0 ⟨.up (enlarged 0), [addD4]⟩) 1
    ⟨.up (rebuilt 1), [addD4]⟩

/-- A replica that is not the creator's forgets the observer when it is built anew. -/
theorem ids_disagree : Accepted .raft "t" 1 "d1" charterRequest "" 0 charter ∧
    Relation.ReflTransGen (Replica.GroupStep node "t" (fun _ => True) fun _ _ => True) invitees
      forgetful ∧
    (forgetful 0).life = .up (enlarged 0) ∧ (forgetful 1).life = .up (rebuilt 1) ∧
    (forgetful 0).history = [addD4] ∧ (forgetful 1).history = [addD4] ∧
    (enlarged 0).peerIDs.lookup "d4" = some ("d4", 4) ∧ (rebuilt 1).peerIDs.lookup "d4" = none := by
  refine ⟨accepted_charter, ?_, rfl, rfl, rfl, rfl, by decide +kernel, by decide +kernel⟩
  have hone (i : Fin 3) := run_enlarged (fun _ => True) (fun _ _ => True) i trivial trivial
  exact (Replica.run_update rfl (hone 0)).trans
    (Replica.run_update rfl ((hone 1).trans (run_rebuilt _ _ trivial trivial)))

/-- Two replicas apply the log. -/
def attentive : Fin 3 → Replica :=
  Function.update (Function.update invitees 0 ⟨.up (enlarged 0), [addD4]⟩) 1
    ⟨.up (enlarged 1), [addD4]⟩

theorem ids_agree_attentive :
    Relation.ReflTransGen (Replica.GroupStep node "t" (Replica.InOrder [addD4])
      (Replica.Lists ["d1", "d2", "d3"])) invitees attentive ∧
    (∀ did, (enlarged 0).peerIDs.lookup did = (enlarged 1).peerIDs.lookup did) ∧
    ∀ id, (enlarged 0).didByID.lookup id = (enlarged 1).didByID.lookup id := by
  have hrun : Relation.ReflTransGen (Replica.GroupStep node "t" (Replica.InOrder [addD4])
      (Replica.Lists ["d1", "d2", "d3"])) invitees attentive := by
    have hone (i : Fin 3) := run_enlarged (Replica.InOrder [addD4]) (Replica.Lists ["d1", "d2", "d3"]) i
      rfl List.prefix_rfl
    exact (Replica.run_update rfl (hone 0)).trans (Replica.run_update rfl (hone 1))
  refine ⟨hrun, (Replica.ids_agree (by decide) ?_ hrun).2 0 1 _ _ rfl rfl fun _ => Iff.rfl⟩
  exact fun i => ⟨invited, [], rfl, List.nil_prefix⟩

end Trio

/-! ## Ids that have been given -/

/-- A replica takes a call. -/
def Takes (N : Node) (e e' : Backend) : Prop := ∃ env ev, step N env e ev = .ok e'

/-- A replica counts along its list, which has no DID twice. -/
def Enrolled (e : Backend) : Prop := e.roster = .ofDids e.thread.replicaDids ∧ e.thread.replicaDids.Nodup

theorem Enrolled.run {N : Node} {e e' : Backend} (h : Enrolled e) (hrun : Relation.ReflTransGen (Takes N) e e') :
    Enrolled e' ∧ e.thread.replicaDids <+: e'.thread.replicaDids := by
  induction hrun with
  | refl => exact ⟨h, List.prefix_rfl⟩
  | @tail e₁ e₂ _ hcall ih =>
    obtain ⟨⟨hroster, hnodup⟩, hle⟩ := ih
    obtain ⟨env, ev, hstep⟩ := hcall
    obtain ⟨δ, hδ⟩ := step_joins hstep
    have hnew := hδ.roster
    rw [hroster, Roster.foldl_join_ofDids] at hnew
    have hlist : e₂.thread.replicaDids = (storedEntries δ).foldl Roster.joinDids e₁.thread.replicaDids :=
      congrArg Roster.replicaDids hnew
    rw [Enrolled, hlist]
    exact ⟨⟨hnew, Roster.nodup_foldl_joinDids hnodup _⟩, hle.trans (Roster.prefix_foldl_joinDids _ _)⟩

end MoltMesh.Raft
