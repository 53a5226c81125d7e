import Mathlib.Data.Finset.Interval
import Mathlib.Logic.Relation
import Mathlib.Order.Interval.Finset.Nat
import MoltMesh.Raft.Membership
import MoltMesh.Tendermint.Script

/-!
# The descriptor of a running thread

What a replica applies may add observers to the descriptor it holds and change its
number of voters.  Only the creator's replica signs the descriptor again and saves it;
elsewhere the signature stays that of the descriptor before the change.  The stored
number says how many of the first replicas are voters, and nothing says which: this is
the voter set of the Raft group only while voters come and go at its end.
-/

namespace MoltMesh.Raft

open MoltMesh.Lib Pb Raftpb

variable {N : Node} {env : Env} {e e' : Backend} {l : List ThreadEntry} {entry : Entry} {k : Nat}
  {T : String}

/-! ## What becomes of a descriptor -/

/-- What a part of a step does to the descriptor of `e`, in memory and in the database. -/
inductive Redrawn (N : Node) (env : Env) (e e' : Backend) : Prop
  | kept (hthread : e'.thread = e.thread) (hrows : e'.store.threads = e.store.threads)
  /-- A replica that is not the creator's changes what it holds. -/
  | changed {dids : List String} {n : Int32} (hne : N.id.did ≠ e.thread.creatorDid)
    (hthread : e'.thread = { e.thread with replicaDids := dids, n })
    (hrows : e'.store.threads = e.store.threads)
  /-- The creator's replica signs it again and saves it, if the database does not fail. -/
  | signed {dids : List String} {n : Int32} {th : Thread}
    (hsign : signDescriptor N.crypto { e.thread with replicaDids := dids, n } N.id = some th)
    (hthread : e'.thread = th)
    (hrows : e'.store.threads = e.store.threads.insertOrReplace th ∨
      ∃ k, env.fails k (.saveThread th) = true) : Redrawn N env e e'

/-- Two states with the same descriptor, in memory and in the database. -/
structure SameDescriptor (e e' : Backend) : Prop where
  thread : e'.thread = e.thread
  rows : e'.store.threads = e.store.threads

theorem sameDescriptor_note (e : Backend) (a : Effect) : SameDescriptor e (note e a) := ⟨rfl, rfl⟩

theorem Redrawn.of_same {e₀ : Backend} (h : Redrawn N env e₀ e') (h₀ : SameDescriptor e e₀) :
    Redrawn N env e e' := by
  cases h with
  | kept hthread hrows => exact .kept (hthread.trans h₀.thread) (hrows.trans h₀.rows)
  | changed hne hthread hrows =>
    rw [h₀.thread] at hne hthread
    exact .changed hne hthread (hrows.trans h₀.rows)
  | signed hsign hthread hrows =>
    rw [h₀.thread] at hsign
    rw [h₀.rows] at hrows
    exact .signed hsign hthread hrows

theorem Redrawn.then_same {e'' : Backend} (h : Redrawn N env e e') (h' : SameDescriptor e' e'') :
    Redrawn N env e e'' := by
  cases h with
  | kept hthread hrows => exact .kept (h'.thread.trans hthread) (h'.rows.trans hrows)
  | changed hne hthread hrows => exact .changed hne (h'.thread.trans hthread) (h'.rows.trans hrows)
  | signed hsign hthread hrows =>
    rw [← h'.rows] at hrows
    exact .signed hsign (h'.thread.trans hthread) hrows

theorem saveDescriptor_redrawn (N : Node) (env : Env) (e : Backend) {e₀ : Backend}
    (dids : List String) (n : Int32) (hthread : e₀.thread = { e.thread with replicaDids := dids, n })
    (hstore : e₀.store = e.store) : Redrawn N env e (saveDescriptor N env e₀) := by
  unfold saveDescriptor
  split
  · rename_i hne
    rw [hthread] at hne
    exact .changed hne hthread (congrArg Store.threads hstore)
  · rename_i hown
    split
    · rename_i hnone
      -- The creator's identity can always sign.
      unfold signDescriptor at hnone
      rw [if_neg (fun h => h (not_not.mp hown).symm)] at hnone
      cases hnone
    · rename_i th hth
      rw [hthread] at hth
      have hmem := sameMemory_write env { e₀ with thread := th } (.saveThread th)
      refine .signed hth hmem.thread ?_
      cases href : refused env { e₀ with thread := th } (.saveThread th) with
      | true => exact .inr ⟨_, href⟩
      | false =>
        left
        rw [write_of_not_refused href]
        change (e₀.store.saveThread th).threads = _
        rw [hstore]
        rfl

theorem addObservers_memory (e : Backend) (l : List ThreadEntry) :
    (∃ dids, (addObservers e l).1.thread = { e.thread with replicaDids := dids, n := e.thread.n }) ∧
      (addObservers e l).1.store = e.store ∧ (addObservers e l).1.confState = e.confState ∧
      ((addObservers e l).2 = false → (addObservers e l).1 = e) := by
  refine addObservers_induction (motive := fun e' c =>
    (∃ dids, e'.thread = { e.thread with replicaDids := dids, n := e.thread.n }) ∧
      e'.store = e.store ∧ e'.confState = e.confState ∧ (c = false → e' = e)) l
    ⟨⟨_, rfl⟩, rfl, rfl, fun _ => rfl⟩ ?_
  rintro e' c did ⟨⟨dids, hthread⟩, hstore, hconf, -⟩
  refine ⟨⟨e'.thread.replicaDids ++ [did], ?_⟩, hstore, hconf, nofun⟩
  simp [addObserver, hthread]

theorem saveDescriptor_confState (N : Node) (env : Env) (e : Backend) :
    (saveDescriptor N env e).confState = e.confState := by
  unfold saveDescriptor
  split
  · rfl
  · split
    · rfl
    · unfold write
      split <;> rfl

theorem saveDescriptor_n (N : Node) (env : Env) (e : Backend) :
    (saveDescriptor N env e).thread.n = e.thread.n := by
  unfold saveDescriptor
  split
  · rfl
  · split
    · rfl
    · rename_i th hth
      obtain ⟨m, rfl⟩ := signDescriptor_eq_some hth
      rw [(sameMemory_write env _ _).thread]

theorem applyMembershipEntries_redrawn (N : Node) (env : Env) (e : Backend) (l : List ThreadEntry) :
    Redrawn N env e (applyMembershipEntries N env e l) ∧
      (applyMembershipEntries N env e l).confState = e.confState ∧
      (applyMembershipEntries N env e l).thread.n = e.thread.n := by
  obtain ⟨⟨dids, hthread⟩, hstore, hconf, hsame⟩ := addObservers_memory e l
  unfold applyMembershipEntries
  dsimp only
  split
  · refine ⟨saveDescriptor_redrawn N env e dids e.thread.n hthread hstore, ?_, ?_⟩
    · rw [saveDescriptor_confState, hconf]
    · rw [saveDescriptor_n, hthread]
  · rename_i hchanged
    rw [hsame (Bool.eq_false_of_not_eq_true hchanged)]
    exact ⟨.kept rfl rfl, rfl, rfl⟩

theorem persistVoterCount_redrawn (N : Node) (env : Env) (e : Backend) (n : Nat) :
    Redrawn N env e (persistVoterCount N env e n) ∧
      (persistVoterCount N env e n).confState = e.confState ∧
      (persistVoterCount N env e n).thread.n = if n = 0 then e.thread.n else Int32.ofNat n := by
  unfold persistVoterCount
  split
  · rename_i h
    refine ⟨.kept rfl rfl, rfl, ?_⟩
    split
    · rfl
    · rename_i hne
      exact (h.resolve_left hne).symm
  · rename_i h
    rw [if_neg (not_or.mp h).1]
    exact ⟨saveDescriptor_redrawn N env e e.thread.replicaDids (Int32.ofNat n) rfl rfl,
      saveDescriptor_confState N env _, saveDescriptor_n N env _⟩

/-! ## What a replica applies -/

/-- A committed entry of the log, or a block another replica has sent. -/
inductive Arrival
  | entry (entry : Entry)
  | block (b : ThreadBlock)

/-- The replica applies it. -/
def arrive (N : Node) (env : Env) (e : Backend) : Arrival → Backend
  | .entry entry => applyEntry N env e entry
  | .block b => applyCommittedBlock N env e b

/-- Whether an entry is a configuration change. -/
def isConfChange (entry : Entry) : Bool :=
  match entry.data with
  | .confChange _ => true
  | .confChangeV2 _ _ => true
  | _ => false

/-- The thread entries in what arrives. -/
def Arrival.entries : Arrival → List ThreadEntry
  | .entry x => entriesOf x
  | .block b => b.entries

theorem write_sameDescriptor (env : Env) (e : Backend) {w : Write} (h : ∀ th, w ≠ .saveThread th) :
    SameDescriptor e (write env e w) := by
  refine ⟨(sameMemory_write env e w).thread, ?_⟩
  cases href : refused env e w with
  | true => rw [write_of_refused href]; rfl
  | false =>
    rw [write_of_not_refused href]
    exact threads_apply h

/-- What arrives redraws the descriptor, and only a configuration change touches the number of
voters. -/
theorem commitBlock_redrawn (N : Node) (env : Env) (e : Backend) (entry : Entry)
    (l : List ThreadEntry) (ids : List Int) (did : String) :
    Redrawn N env e (commitBlock N env e entry l ids did) ∧
      (commitBlock N env e entry l ids did).confState = e.confState ∧
      (commitBlock N env e entry l ids did).thread.n = e.thread.n := by
  rcases commitBlock_cases N env e entry l ids did with
    ⟨w, hw, -⟩ | ⟨b, s', e₁, δ, -, -, -, -, rfl, hc⟩
  · rw [hw]
    exact ⟨.kept rfl rfl, rfl, rfl⟩
  · rw [hc]
    have hsame := write_sameDescriptor env e (w := .appendBlock ids b) nofun
    have hconf : (write env e (.appendBlock ids b)).confState = e.confState := by
      unfold write
      split <;> rfl
    obtain ⟨hr, hcs, hn⟩ := applyMembershipEntries_redrawn N env (write env e (.appendBlock ids b)) l
    rw [hsame.thread] at hn
    exact ⟨((hr.of_same hsame).then_same (sameDescriptor_note _ _)).then_same (sameDescriptor_note _ _),
      hcs.trans hconf, hn⟩

theorem applyCommittedBlock_redrawn (N : Node) (env : Env) (e : Backend) (b : ThreadBlock) :
    Redrawn N env e (applyCommittedBlock N env e b) ∧
      (applyCommittedBlock N env e b).confState = e.confState ∧
      (applyCommittedBlock N env e b).thread.n = e.thread.n := by
  unfold applyCommittedBlock
  split
  · exact ⟨.kept rfl rfl, rfl, rfl⟩
  · dsimp only
    split
    · exact ⟨.kept rfl rfl, rfl, rfl⟩
    · have hsame := write_sameDescriptor env e (w := .saveBlock b) nofun
      have hconf : (write env e (.saveBlock b)).confState = e.confState := by
        unfold write
        split <;> rfl
      obtain ⟨hr, hcs, hn⟩ := applyMembershipEntries_redrawn N env (write env e (.saveBlock b)) b.entries
      rw [hsame.thread] at hn
      exact ⟨(hr.of_same hsame).then_same (sameDescriptor_note _ _), hcs.trans hconf, hn⟩

/-- A configuration change is applied, and the Raft node may return the voters. -/
theorem applyConfChange_redrawn (N : Node) (env : Env) (e : Backend) (entry : Entry) :
    Redrawn N env e (applyConfChange N env e entry) ∧
      ∀ cs, env.applyConfChange entry = some cs →
        (applyConfChange N env e entry).confState = cs ∧
        (applyConfChange N env e entry).thread.n =
          if cs.voters.length = 0 then e.thread.n else Int32.ofNat cs.voters.length := by
  unfold applyConfChange
  cases env.applyConfChange entry with
  | none => exact ⟨.kept rfl rfl, nofun⟩
  | some cs =>
    obtain ⟨hr, hconf, hn⟩ := persistVoterCount_redrawn N env { e with confState := cs }
      cs.voters.length
    refine ⟨hr.of_same ⟨rfl, rfl⟩, ?_⟩
    rintro _ ⟨⟩
    exact ⟨hconf, hn⟩

theorem completeVoterChange_same (e : Backend) (context : String) :
    SameDescriptor e (completeVoterChange e context) ∧
      (completeVoterChange e context).confState = e.confState := by
  unfold completeVoterChange
  split <;> exact ⟨⟨rfl, rfl⟩, rfl⟩

theorem applyEntry_redrawn_of_conf (hconf : isConfChange entry = true) :
    Redrawn N env e (applyEntry N env e entry) ∧
      ∀ cs, env.applyConfChange entry = some cs →
        (applyEntry N env e entry).confState = cs ∧
        (applyEntry N env e entry).thread.n =
          if cs.voters.length = 0 then e.thread.n else Int32.ofNat cs.voters.length := by
  obtain ⟨hr, hcs⟩ := applyConfChange_redrawn N env (advance e entry) entry
  have hr' := hr.of_same (e := e) ⟨rfl, rfl⟩
  rcases entry with ⟨term, index, data⟩
  cases data with
  | confChange cc => exact ⟨hr', hcs⟩
  | confChangeV2 ccs context =>
    obtain ⟨hsame, hconf'⟩ := completeVoterChange_same (applyConfChange N env
      (advance e ⟨term, index, .confChangeV2 ccs context⟩) ⟨term, index, .confChangeV2 ccs context⟩)
      context
    refine ⟨hr'.then_same hsame, fun cs h => ?_⟩
    obtain ⟨hc, hn⟩ := hcs cs h
    exact ⟨hconf'.trans hc, (congrArg Thread.n hsame.thread).trans hn⟩
  | _ => cases hconf

theorem applyEntry_redrawn_of_not_conf (hconf : isConfChange entry = false) :
    Redrawn N env e (applyEntry N env e entry) ∧
      (applyEntry N env e entry).confState = e.confState ∧
      (applyEntry N env e entry).thread.n = e.thread.n := by
  cases hb : blockOf N entry with
  | some x =>
    obtain ⟨l, ids, did⟩ := x
    rw [applyEntry_of_some hb]
    obtain ⟨hr, hc, hn⟩ := commitBlock_redrawn N env (advance e entry) entry l ids did
    exact ⟨hr.of_same ⟨rfl, rfl⟩, hc, hn⟩
  | none =>
    rcases entry with ⟨term, index, data⟩
    cases data with
    | empty => exact ⟨.kept rfl rfl, rfl, rfl⟩
    | malformed => exact ⟨.kept rfl rfl, rfl, rfl⟩
    | proposal p => cases hb
    | entries l => cases hb
    | confChange cc => cases hconf
    | confChangeV2 ccs context => cases hconf

/-- **What arrives redraws the descriptor.** -/
theorem arrive_redrawn (N : Node) (env : Env) (e : Backend) (a : Arrival) :
    Redrawn N env e (arrive N env e a) := by
  cases a with
  | block b => exact (applyCommittedBlock_redrawn N env e b).1
  | entry entry =>
    cases hconf : isConfChange entry with
    | false => exact (applyEntry_redrawn_of_not_conf hconf).1
    | true => exact (applyEntry_redrawn_of_conf hconf).1

/-- One thing after another arrives; `ok` is a condition on it. -/
def Applies (N : Node) (ok : Env → Backend → Arrival → Prop) (e e' : Backend) : Prop :=
  ∃ env a, ok env e a ∧ e' = arrive N env e a

/-! ## Signatures -/

/-- The condition on what arrives: the replica is the creator's, or no entry names a new observer
and the number of voters stays the same. -/
def Undisturbed (N : Node) (env : Env) (e : Backend) (a : Arrival) : Prop :=
  N.id.did = e.thread.creatorDid ∨
    (∀ entry ∈ a.entries, newObserver e entry = none) ∧
      ∀ entry cs, a = .entry entry → isConfChange entry = true →
        env.applyConfChange entry = some cs →
          cs.voters.length = 0 ∨ Int32.ofNat cs.voters.length = e.thread.n

theorem Redrawn.verified (h : Redrawn N env e e') (hown : N.id.did = e.thread.creatorDid)
    (hkey : N.id.Keyed N.crypto) (hv : Verified N.crypto e.thread) : Verified N.crypto e'.thread := by
  cases h with
  | kept hthread hrows => rwa [hthread]
  | changed hne hthread hrows => exact absurd hown hne
  | signed hsign hthread hrows =>
    rw [hthread]
    obtain ⟨hid, hcreator⟩ := hv.named
    refine verified_of_signDescriptor hkey ?_ ?_ hsign
    · exact hid
    · exact hcreator

variable {a : Arrival}

theorem Redrawn.creatorDid (h : Redrawn N env e e') : e'.thread.creatorDid = e.thread.creatorDid := by
  cases h with
  | kept hthread hrows => rw [hthread]
  | changed hne hthread hrows => rw [hthread]
  | signed hsign hthread hrows =>
    obtain ⟨m, rfl⟩ := signDescriptor_eq_some hsign
    rw [hthread]

/-- The voters after a change. -/
def amend (V : Finset Nat) : ConfChange → Finset Nat
  | .addNode id => insert id V
  | .removeNode id => V.erase id

/-- The changes in a log entry. -/
def changesOf (entry : Entry) : List ConfChange :=
  match entry.data with
  | .confChange c => [c]
  | .confChangeV2 cs _ => cs
  | _ => []

/-- What the Raft library promises of a configuration change: it returns the voters after the
change, and there are some. -/
def Conforms (env : Env) (e : Backend) (a : Arrival) : Prop :=
  ∀ entry, a = .entry entry → isConfChange entry = true →
    ∃ cs, env.applyConfChange entry = some cs ∧ cs.voters.Nodup ∧ cs.voters ≠ [] ∧
      cs.voters.toFinset = (changesOf entry).foldl amend e.confState.voters.toFinset

/-- Each change adds the replica that comes next in a list of `len`, removes the last voter, or does
nothing. -/
def AtEnd (len : Nat) : Finset Nat → List ConfChange → Prop
  | _, [] => True
  | V, .addNode id :: cs =>
    (id ∈ V ∨ id = V.card + 1 ∧ id ≤ len ∧ id < 2147483648) ∧ AtEnd len (insert id V) cs
  | V, .removeNode id :: cs => (id ∉ V ∨ id = V.card) ∧ AtEnd len (V.erase id) cs

/-- The condition on what arrives: voters come and go at the end, and the descriptor can be saved. -/
def Orderly (env : Env) (e : Backend) (a : Arrival) : Prop :=
  (∀ k th, env.fails k (.saveThread th) = false) ∧
    ∀ entry, a = .entry entry →
      AtEnd e.thread.replicaDids.length e.confState.voters.toFinset (changesOf entry)

/-- Voters that come and go at the end are always the first ones. -/
theorem AtEnd.foldl_amend {len : Nat} {cs : List ConfChange} (h : AtEnd len (Finset.Icc 1 k) cs)
    (hlen : k ≤ len) (hk : k < 2147483648) :
    ∃ k', cs.foldl amend (Finset.Icc 1 k) = Finset.Icc 1 k' ∧ k' ≤ len ∧ k' < 2147483648 := by
  induction cs generalizing k with
  | nil => exact ⟨k, rfl, hlen, hk⟩
  | cons c cs ih =>
    rw [List.foldl_cons]
    cases c with
    | addNode id =>
      obtain ⟨hid, hrest⟩ := h
      change ∃ k', cs.foldl amend (insert id (Finset.Icc 1 k)) = _ ∧ _
      rcases hid with hmem | ⟨hid, hlen', hlt⟩
      · rw [Finset.insert_eq_self.mpr hmem] at hrest ⊢
        exact ih hrest hlen hk
      · rw [Nat.card_Icc, Nat.add_sub_cancel] at hid
        subst hid
        have hinsert : insert (k + 1) (Finset.Icc 1 k) = Finset.Icc 1 (k + 1) := by
          ext i
          rw [Finset.mem_insert, Finset.mem_Icc, Finset.mem_Icc]
          omega
        rw [hinsert] at hrest ⊢
        exact ih hrest hlen' hlt
    | removeNode id =>
      obtain ⟨hid, hrest⟩ := h
      change ∃ k', cs.foldl amend ((Finset.Icc 1 k).erase id) = _ ∧ _
      rcases hid with hmem | hid
      · rw [Finset.erase_eq_of_notMem hmem] at hrest ⊢
        exact ih hrest hlen hk
      · rw [Nat.card_Icc, Nat.add_sub_cancel] at hid
        subst hid
        have herase : (Finset.Icc 1 id).erase id = Finset.Icc 1 (id - 1) := by
          ext i
          rw [Finset.mem_erase, Finset.mem_Icc, Finset.mem_Icc]
          omega
        rw [herase] at hrest ⊢
        exact ih hrest (by omega) (by omega)

theorem voterCount_le (T : Thread) : voterCount T ≤ T.replicaDids.length := by
  unfold voterCount
  split
  · exact le_rfl
  · rename_i h
    have hle := not_lt.mp (not_or.mp h).2
    omega

theorem voterCount_of_n {T : Thread} (hn : T.n.toInt = k) (hpos : 1 ≤ k)
    (hle : k ≤ T.replicaDids.length) : voterCount T = k := by
  unfold voterCount
  rw [hn, if_neg (by omega), Int.toNat_natCast]

/-- The id of a DID is its place, when no DID is repeated. -/
theorem peerID_of_getElem? {dids : List String} (h : dids.Nodup) {i : Nat} {did : String}
    (hget : dids[i]? = some did) : (((peerTables dids).1.lookup did).map Prod.snd).getD 0 = i + 1 := by
  have hlookup : (Roster.ofDids dids).peerIDs.lookup did = some (did, i + 1) := by
    rw [Roster.lookup_ofDids_iff h, Roster.lookup_didByID_ofDids]
    exact ⟨Nat.succ_pos i, hget⟩
  change (Option.map Prod.snd ((Roster.ofDids dids).peerIDs.lookup did)).getD 0 = _
  rw [hlookup]
  rfl

/-- The ids of the first replicas, when no DID is repeated. -/
theorem voterIDs_eq_range' {T : Thread} (h : T.replicaDids.Nodup) :
    voterIDs T = List.range' 1 (voterCount T) := by
  have hle := voterCount_le T
  refine List.ext_getElem? fun i => ?_
  rw [voterIDs, List.getElem?_map, List.getElem?_take]
  by_cases hi : i < voterCount T
  · have hget : T.replicaDids[i]? = some (T.replicaDids.get ⟨i, by omega⟩) :=
      List.getElem?_eq_getElem (by omega)
    rw [if_pos hi, hget, Option.map_some, peerID_of_getElem? h hget, List.getElem?_range' hi]
    congr 1
    omega
  · rw [if_neg hi, List.getElem?_eq_none (by rw [List.length_range']; omega)]
    rfl

theorem voterIDs_toFinset {T : Thread} (h : T.replicaDids.Nodup) :
    (voterIDs T).toFinset = Finset.Icc 1 (voterCount T) := by
  ext id
  rw [voterIDs_eq_range' h, List.mem_toFinset, List.mem_range'_1, Finset.mem_Icc]
  omega

/-- The creator's replica, whose voters are the first `k` replicas: the descriptor it holds and the
one it has stored say so. -/
structure Council (N : Node) (T : String) (k : Nat) (e : Backend) : Prop where
  creator : N.id.did = e.thread.creatorDid
  threadId : e.thread.id = T
  roster : e.roster = .ofDids e.thread.replicaDids
  nodup : e.thread.replicaDids.Nodup
  voters : e.confState.voters.toFinset = Finset.Icc 1 k
  pos : 1 ≤ k
  le : k ≤ e.thread.replicaDids.length
  n : e.thread.n.toInt = k
  row : ∃ th, e.store.threads.lookup T = some th ∧ th.replicaDids = e.thread.replicaDids ∧
    th.n = e.thread.n

theorem arrive_joins (N : Node) (env : Env) (e : Backend) (a : Arrival) :
    ∃ δ, Joins e (arrive N env e a) δ := by
  cases a with
  | entry entry =>
    obtain ⟨δ, hδ, -⟩ := applyEntry_joins N env e entry
    exact ⟨δ, hδ⟩
  | block b => exact applyCommittedBlock_joins N env e b

theorem Redrawn.threadId (h : Redrawn N env e e') : e'.thread.id = e.thread.id := by
  cases h with
  | kept hthread hrows => rw [hthread]
  | changed hne hthread hrows => rw [hthread]
  | signed hsign hthread hrows =>
    obtain ⟨m, rfl⟩ := signDescriptor_eq_some hsign
    rw [hthread]

/-- What the creator's replica holds is what it has stored. -/
theorem Redrawn.row (h : Redrawn N env e e') (hown : N.id.did = e.thread.creatorDid)
    (hid : e.thread.id = T) (hok : ∀ k th, env.fails k (.saveThread th) = false)
    (hrow : ∃ th, e.store.threads.lookup T = some th ∧ th.replicaDids = e.thread.replicaDids ∧
      th.n = e.thread.n) :
    ∃ th, e'.store.threads.lookup T = some th ∧ th.replicaDids = e'.thread.replicaDids ∧
      th.n = e'.thread.n := by
  have hid' := h.threadId
  cases h with
  | kept hthread hrows => rwa [hthread, hrows]
  | changed hne hthread hrows => exact absurd hown hne
  | @signed dids n th hsign hthread hrows =>
    rcases hrows with hrows | ⟨k, hfail⟩
    · have hT : T = th.id := by rw [← hid, ← hid', hthread]
      refine ⟨th, ?_, by rw [hthread], by rw [hthread]⟩
      rw [hrows, hT]
      exact Table.lookup_insertOrReplace_self _ _
    · rw [hok] at hfail
      cases hfail

/-- The voters and their number after something has arrived. -/
theorem Council.count (h : Council N T k e) (hconf : Conforms env e a) (hok : Orderly env e a) :
    ∃ k', (arrive N env e a).confState.voters.toFinset = Finset.Icc 1 k' ∧ 1 ≤ k' ∧
      k' ≤ e.thread.replicaDids.length ∧ (arrive N env e a).thread.n.toInt = k' := by
  have hsame {e' : Backend} (hcs : e'.confState = e.confState) (hn : e'.thread.n = e.thread.n) :
      ∃ k', e'.confState.voters.toFinset = Finset.Icc 1 k' ∧ 1 ≤ k' ∧
        k' ≤ e.thread.replicaDids.length ∧ e'.thread.n.toInt = k' :=
    ⟨k, by rw [hcs, h.voters], h.pos, h.le, by rw [hn, h.n]⟩
  cases a with
  | block b =>
    obtain ⟨-, hcs, hn⟩ := applyCommittedBlock_redrawn N env e b
    exact hsame hcs hn
  | entry entry =>
    cases hc : isConfChange entry with
    | false =>
      obtain ⟨-, hcs, hn⟩ := @applyEntry_redrawn_of_not_conf N env e entry hc
      exact hsame hcs hn
    | true =>
      obtain ⟨cs, hcs, hnodup, hne, hvoters⟩ := hconf entry rfl hc
      obtain ⟨hcs', hn'⟩ := (@applyEntry_redrawn_of_conf N env e entry hc).2 cs hcs
      have hend := hok.2 entry rfl
      rw [h.voters] at hend hvoters
      have hk : k < 2147483648 := by
        have hlt := Int32.toInt_lt e.thread.n
        rw [h.n] at hlt
        omega
      obtain ⟨k', hfold, hlen, hlt⟩ := hend.foldl_amend h.le hk
      rw [hfold] at hvoters
      have hcard : cs.voters.length = k' := by
        rw [← List.toFinset_card_of_nodup hnodup, hvoters, Nat.card_Icc, Nat.add_sub_cancel]
      have hpos : 1 ≤ k' := by
        rw [← hcard]
        exact List.length_pos_iff.mpr hne
      refine ⟨k', ?_, hpos, hlen, ?_⟩
      · rw [arrive, hcs', hvoters]
      · rw [arrive, hn', hcard, if_neg (by omega)]
        exact Int32.toInt_ofNat_of_lt hlt

theorem Council.arrive (h : Council N T k e)
    (hconf : Conforms env e a) (hok : Orderly env e a) : ∃ k', Council N T k' (arrive N env e a) := by
  obtain ⟨k', hvoters, hpos, hlen, hn⟩ := h.count hconf hok
  have hr := arrive_redrawn N env e a
  obtain ⟨δ, hδ⟩ := arrive_joins N env e a
  have hroster := hδ.roster
  rw [h.roster, Roster.foldl_join_ofDids] at hroster
  have hdids : (Raft.arrive N env e a).thread.replicaDids =
      (storedEntries δ).foldl Roster.joinDids e.thread.replicaDids := congrArg Roster.replicaDids hroster
  refine ⟨k', ?_, hr.threadId.trans h.threadId, ?_, ?_, hvoters, hpos, ?_, hn,
    hr.row h.creator h.threadId hok.1 h.row⟩
  · rw [hr.creatorDid, h.creator]
  · rw [hroster, hdids]
  · rw [hdids]
    exact Roster.nodup_foldl_joinDids h.nodup _
  · rw [hdids]
    exact hlen.trans (Roster.prefix_foldl_joinDids _ _).length_le

theorem Council.voterIDs (h : Council N T k e) : ∃ th, e.store.threads.lookup T = some th ∧
      (voterIDs th).toFinset = e.confState.voters.toFinset := by
  obtain ⟨th, hrow, hdids, hn⟩ := h.row
  have hcount : voterCount th = k := voterCount_of_n (by rw [hn, h.n]) h.pos (hdids.symm ▸ h.le)
  refine ⟨th, hrow, ?_⟩
  rw [voterIDs_toFinset (hdids.symm ▸ h.nodup), hcount, h.voters]

namespace Trio

/-- The descriptor that is made from it. -/
def solo : Thread := { charter with n := 1, f := 0 }

/-- The creator's replica. -/
def chair : Backend :=
  { first 0 with
    thread := solo
    confState := ⟨[1]⟩
    store := (Store.empty.saveThread solo).releasePendingClaims "t" }

theorem newRaftBackend_chair :
    newRaftBackend (node 0) calm solo (Store.empty.saveThread solo) = .ok (.start [1], chair) := rfl

/-- The replica with this id becomes a voter. -/
def promotion (id : Nat) : Entry := ⟨1, 2, .confChangeV2 [.addNode id] "1"⟩

/-- The Raft node returns the voters after the promotion. -/
def promoting (id : Nat) : Env := { calm with applyConfChange := fun _ => some ⟨[1, id]⟩ }

/-- The creator's replica after the promotion. -/
def promoted (id : Nat) : Backend := arrive (node 0) (promoting id) chair (.entry (promotion id))

end Trio

/-! ## A signed thread -/

namespace Signed

open Tendermint.Quartet (did1 did2 did3 did4 key checksum)

/-- The identity of the creator's daemon. -/
def creator : Identity := ⟨did1, key 1⟩

/-- A replica. -/
def node (did : String) (i : Nat) : Node := ⟨⟨did, key i⟩, checksum⟩

/-- The request of the creator. -/
def request : CreateThreadRequest := ⟨[did1, did2, did3], 1, 1000, []⟩

/-- The descriptor that is made from it. -/
def draft : Thread := { Trio.charter with creatorDid := did1, replicaDids := [did1, did2, did3] }

/-- The descriptor with the signature of the creator. -/
def deed : Thread := (signDescriptor checksum draft creator).getD draft

/-- An entry that adds an observer. -/
def addObserverEntry : ThreadEntry := { Trio.addD4 with payload := bytes did4 }

/-- The entry in the log. -/
def addition : Arrival := .entry ⟨1, 1, .proposal ⟨[1], [addObserverEntry], did1⟩⟩

/-- The replica that is built from the signed descriptor. -/
def built (N : Node) : Backend :=
  match newRaftBackend N Trio.calm deed .empty with
  | .ok (_, e) => e
  | .error _ => Trio.first 0

end Signed

end MoltMesh.Raft
