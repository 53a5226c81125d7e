import MoltMesh.Raft.Doings

/-!
# Waiting for a voter change

A caller of `ProposeVoterChange` waits under a token, the number of the call in its
process, and is answered when a configuration change with that token in its context
is applied.  The token says nothing of the process: another replica, or the same one
before it was restarted, counts from one as well.  `Assembly` is a group of replicas
with the calls that have been made and the changes that have been committed.
-/

namespace MoltMesh.Raft

open MoltMesh.Lib Pb Raftpb

variable {N : Node} {env : Env} {e e' e'' : Backend} {δ δ' : List Effect} {entries : List Entry}

/-! ## Answers -/

/-- A part of a step in which callers are answered, each because of one of the entries. -/
structure Settles (entries : List Entry) (e e' : Backend) (δ : List Effect) : Prop where
  trace : e'.trace = e.trace ++ δ
  changes : ∀ t ∈ e'.changes, t ∈ e.changes
  changeSeq : e.changeSeq ≤ e'.changeSeq
  unproposed : ∀ change t, .proposeConfChange change t ∉ δ
  answers : ∀ t, .voterChange t ∈ δ →
    t ∈ e.changes ∧ ∃ entry ∈ entries, ∃ ccs, t ≠ "" ∧ entry.data = .confChangeV2 ccs t

/-- An effect by which nobody begins to wait, and a caller is answered only because of an entry. -/
def Effect.Answers (entries : List Entry) (a : Effect) : Prop :=
  (∀ change t, a ≠ .proposeConfChange change t) ∧
    ∀ t, a = .voterChange t → ∃ entry ∈ entries, ∃ ccs, entry.data = .confChangeV2 ccs t

theorem Effect.answers {a : Effect} (ha : a.isVoterChange = false) : a.Answers entries := by
  refine ⟨?_, ?_⟩
  · rintro change t rfl
    cases ha
  · rintro t rfl
    cases ha

namespace Settles

theorem memory (ht : e'.trace = e.trace) (hc : e'.changes = e.changes) (hs : e.changeSeq ≤ e'.changeSeq) :
    Settles entries e e' [] :=
  ⟨by rw [ht, List.append_nil], fun _ h => hc ▸ h, hs, fun _ _ => List.not_mem_nil,
    fun _ h => absurd h List.not_mem_nil⟩

theorem trans (h : Settles entries e e' δ) (h' : Settles entries e' e'' δ') :
    Settles entries e e'' (δ ++ δ') where
  trace := by rw [h'.trace, h.trace, List.append_assoc]
  changes := fun t ht => h.changes t (h'.changes t ht)
  changeSeq := h.changeSeq.trans h'.changeSeq
  unproposed := fun change t ht =>
    (List.mem_append.mp ht).elim (h.unproposed change t) (h'.unproposed change t)
  answers := by
    intro t ht
    rcases List.mem_append.mp ht with ht | ht
    · exact h.answers t ht
    · exact (h'.answers t ht).imp_left (h.changes t)

theorem note {a : Effect} (ha : a.isVoterChange = false) : Settles entries e (Raft.note e a) [a] := by
  refine ⟨rfl, fun _ h => h, le_rfl, fun _ _ h => ?_, fun _ h => ?_⟩
  all_goals
    cases List.mem_singleton.mp h
    cases ha

theorem write (entries : List Entry) (env : Env) (e : Backend) (w : Write) :
    ∃ δ, Settles entries e (Raft.write env e w) δ := by
  cases h : refused env e w with
  | true =>
    rw [write_of_refused h]
    exact ⟨_, note rfl⟩
  | false =>
    rw [write_of_not_refused h]
    have hnote : Settles entries e (Raft.note e (.write w)) [.write w] := note rfl
    exact ⟨_, hnote.trace, hnote.changes, hnote.changeSeq, hnote.unproposed, hnote.answers⟩

theorem doing (h : Doing env (Effect.Answers entries) True e e') : ∃ δ, Settles entries e e' δ := by
  cases h with
  | aside h =>
    cases h with
    | @descriptor th hth =>
      obtain ⟨δ, hδ⟩ := write entries env { e with thread := th } (.saveThread th)
      exact ⟨δ, hδ.trace, hδ.changes, hδ.changeSeq, hδ.unproposed, hδ.answers⟩
    | _ => exact ⟨[], memory rfl rfl le_rfl⟩
  | failed w => exact ⟨_, note rfl⟩
  | note hw hv hok => exact ⟨_, note hv⟩
  | write href hok => exact write entries env e _
  | log ms i t cs => exact ⟨[], memory rfl rfl le_rfl⟩
  | @answer t ht hne hok =>
    obtain ⟨entry, hentry, ccs, hdata⟩ := hok.2 t rfl
    refine ⟨[.voterChange t], rfl, fun t ht => (List.mem_filter.mp ht).1, le_rfl, ?_, ?_⟩
    · intro change t' ht'
      cases List.mem_singleton.mp ht'
    · intro t' ht'
      cases List.mem_singleton.mp ht'
      exact ⟨ht, entry, hentry, ccs, hne, hdata⟩
  | refuse => exact ⟨[], memory rfl rfl (Nat.le_succ _)⟩
  | ask change hok => exact absurd rfl (hok.1 _ _)

theorem doings (h : Doings env (Effect.Answers entries) True e e') : ∃ δ, Settles entries e e' δ := by
  induction h with
  | refl => exact ⟨[], memory rfl rfl le_rfl⟩
  | tail _ hstep ih =>
    obtain ⟨δ, hδ⟩ := ih
    obtain ⟨δ', hδ'⟩ := doing hstep
    exact ⟨_, hδ.trans hδ'⟩

end Settles

/-- The committed entries a call hands to the replica; a batch that is to be tried again comes
first. -/
def handed (e : Backend) : Event → List Entry
  | .ready rd => (e.pendingReady.getD rd).committedEntries
  | _ => []

/-- The entries that a call from `e` to `e'` has applied. -/
def appliedBy (e e' : Backend) (ev : Event) : List Entry :=
  if e'.pendingReady.isNone then handed e ev else []

/-- The caller of a change begins to wait. -/
def asking (e : Backend) (change : ConfChange) : Backend :=
  note { e with changeSeq := e.changeSeq + 1, changes := e.changes ++ [toString (e.changeSeq + 1)] }
    (.proposeConfChange change (toString (e.changeSeq + 1)))

/-- What a step does for the callers. -/
inductive Replies (entries : List Entry) (e e' : Backend) : List Effect → Prop
  | settled {δ : List Effect} (h : Settles entries e e' δ) : Replies entries e e' δ
  | asked (change : ConfChange) (he : e' = asking e change) :
    Replies entries e e' [.proposeConfChange change (toString (e.changeSeq + 1))]

theorem beginVoterChange_replies (env : Env) (e : Backend) (did : String) (add : Bool) :
    ∃ δ, Replies [] e (beginVoterChange env e did add) δ := by
  unfold beginVoterChange
  split
  · exact ⟨[], .settled (.memory rfl rfl le_rfl)⟩
  · split
    · exact ⟨[], .settled (.memory rfl rfl le_rfl)⟩
    · dsimp only
      split
      · exact ⟨[], .settled (.memory rfl rfl (Nat.le_succ _))⟩
      · exact ⟨_, .asked _ rfl⟩

theorem Replies.trace {entries : List Entry} (h : Replies entries e e' δ) :
    e'.trace = e.trace ++ δ := by
  cases h with
  | settled h => exact h.trace
  | asked change he => rw [he]; rfl

/-- Callers are answered when a batch is applied, and only because of an entry of it. -/
theorem step_replies {ev : Event} (h : step N env e ev = .ok e') :
    ∃ δ, Replies (appliedBy e e' ev) e e' δ := by
  have hroutine (a : Effect) (ha : a.isRoutine = true) : a.Answers (appliedBy e e' ev) := by
    refine a.answers ?_
    cases a <;> first | rfl | cases ha
  by_cases hask : ∃ did add, ev = .voterChange did add
  · obtain ⟨did, add, rfl⟩ := hask
    obtain rfl := Except.ok.inj h
    have hnil : appliedBy e (beginVoterChange env e did add) (.voterChange did add) = [] :=
      ite_self _
    rw [hnil]
    exact beginVoterChange_replies env e did add
  by_cases hready : ∃ rd, ev = .ready rd
  · obtain ⟨rd, rfl⟩ := hready
    have happlied (hok : (handleReady N env e (e.pendingReady.getD rd)).isOk = true) :
        appliedBy e e' (.ready rd) = (e.pendingReady.getD rd).committedEntries := by
      simp only [step, tryReady, processReady] at h
      cases hr : handleReady N env e (e.pendingReady.getD rd) with
      | ok e₂ =>
        rw [hr] at h
        obtain rfl := Except.ok.inj h
        rfl
      | error stop =>
        rw [hr] at hok
        cases hok
    obtain ⟨δ, hδ⟩ := Settles.doings (handleReady_doings hroutine trivial fun hok entry hentry => {
      block := fun ids b _ => ⟨Effect.answers rfl, Effect.answers rfl⟩
      answer := fun ccs t hdata => ⟨fun _ _ h => (by cases h), fun _ ht => by
        cases ht
        exact ⟨entry, happlied hok ▸ hentry, ccs, hdata⟩⟩ })
    obtain ⟨p, hp⟩ := final_ready N env e rd
    rw [h] at hp
    have hlast : Settles (appliedBy e e' (.ready rd)) e
        { ended (handleReady N env e (e.pendingReady.getD rd)) with pendingReady := p } δ :=
      ⟨hδ.trace, hδ.changes, hδ.changeSeq, hδ.unproposed, hδ.answers⟩
    rw [← hp] at hlast
    exact ⟨δ, .settled hlast⟩
  · have hdone : ∃ δ, Settles (appliedBy e e' ev) e (final (step N env e ev)) δ :=
      Settles.doings (step_doings (not_exists.mp hready) {
        routine := hroutine
        propose := fun _ _ => Effect.answers rfl
        block := fun _ _ => ⟨trivial, Effect.answers rfl⟩
        enqueue := fun _ _ _ => Effect.answers rfl
        ask := fun did add _ _ hev => absurd ⟨did, add, hev⟩ hask })
    rw [h] at hdone
    obtain ⟨δ, hδ⟩ := hdone
    exact ⟨δ, .settled hδ⟩

/-! ## A group of replicas -/

/-- A change that a Raft node has taken from a caller: the replica, the count of its process, the
token and the change. -/
structure Call (ι : Type) where
  node : ι
  life : Nat
  token : String
  change : ConfChange
deriving DecidableEq

/-- A replica with the count of its process and the entries this process has applied. -/
structure Seat where
  e : Backend
  life : Nat
  applied : List Entry

/-- A group of replicas with the calls that were made on them, and the configuration changes that
have been committed, each with the call that has proposed it. -/
structure Assembly (ι : Type) where
  seat : ι → Seat
  calls : List (Call ι)
  committed : List (Entry × Call ι)

variable {ι : Type}

/-- The calls in the effects of one process. -/
def callsIn (i : ι) (life : Nat) (δ : List Effect) : List (Call ι) :=
  δ.filterMap fun
    | .proposeConfChange change token => some ⟨i, life, token, change⟩
    | _ => none

theorem mem_callsIn {i : ι} {life : Nat} {c : Call ι} : c ∈ callsIn i life δ ↔
    c.node = i ∧ c.life = life ∧ .proposeConfChange c.change c.token ∈ δ := by
  unfold callsIn
  rw [List.mem_filterMap]
  constructor
  · rintro ⟨a, ha, hc⟩
    cases a with
    | proposeConfChange change token =>
      obtain rfl := Option.some.inj hc
      exact ⟨rfl, rfl, ha⟩
    | _ => cases hc
  · rintro ⟨rfl, rfl, ha⟩
    exact ⟨_, ha, rfl⟩

namespace Assembly

/-- The group after a call by which a replica comes to `e'` with the effects `δ`. -/
def after [DecidableEq ι] (A : Assembly ι) (i : ι) (ev : Event) (e' : Backend) (δ : List Effect) :
    Assembly ι where
  seat := Function.update A.seat i
    ⟨e', (A.seat i).life, (A.seat i).applied ++ appliedBy (A.seat i).e e' ev⟩
  calls := A.calls ++ callsIn i (A.seat i).life δ
  committed := A.committed

/-- The group after a change has been committed. -/
def commit (A : Assembly ι) (entry : Entry) (c : Call ι) : Assembly ι :=
  { A with committed := A.committed ++ [(entry, c)] }

/-- A step of the group.  The Raft library hands over what has been committed, and every change with
a token comes from a call.  A call that proposes a change meets `ok`. -/
inductive Step [DecidableEq ι] (node : ι → Node) (ok : Assembly ι → ι → Prop) (A : Assembly ι) :
    Assembly ι → Prop
  /-- A replica takes a call. -/
  | call {i : ι} {env : Env} {ev : Event} {e' : Backend} {δ : List Effect}
    (hstep : step (node i) env (A.seat i).e ev = .ok e') (hδ : e'.trace = (A.seat i).e.trace ++ δ)
    (hlog : ∀ entry ∈ handed (A.seat i).e ev, ∀ ccs context,
      entry.data = .confChangeV2 ccs context → context ≠ "" → ∃ c, (entry, c) ∈ A.committed)
    (hok : callsIn i (A.seat i).life δ ≠ [] → ok A i) :
    Step node ok A (A.after i ev e' δ)
  /-- A change that has been proposed is committed. -/
  | commit {entry : Entry} {c : Call ι} (hc : c ∈ A.calls)
    (hentry : entry.data = .confChangeV2 [c.change] c.token) :
    Step node ok A (A.commit entry c)
  /-- A process has stopped, and the replica is built anew from whatever it has left. -/
  | restart {i : ι} {env : Env} {T : Thread} {s : Store} {start : NodeStart} {e : Backend}
    (hnew : newRaftBackend (node i) env T s = .ok (start, e)) :
    Step node ok A { A with seat := Function.update A.seat i ⟨e, (A.seat i).life + 1, []⟩ }

/-- Every replica has been built, and no call has been made. -/
structure Founded (node : ι → Node) (A : Assembly ι) : Prop where
  built : ∀ i, ∃ env T s start, newRaftBackend (node i) env T s = .ok (start, (A.seat i).e)
  calls : A.calls = []
  committed : A.committed = []

/-- No call on another process has had the token that the next call on the replica has. -/
def Distinct (A : Assembly ι) (i : ι) : Prop :=
  ∀ c ∈ A.calls, ¬(c.node = i ∧ c.life = (A.seat i).life) →
    c.token ≠ toString ((A.seat i).e.changeSeq + 1)

/-- What holds of the process of a replica. -/
structure Served (A : Assembly ι) (i : ι) (r : Seat) : Prop where
  /-- The process has counted its calls. -/
  counted : ∀ c ∈ A.calls, c.node = i → c.life ≤ r.life ∧
    (c.life = r.life → ∃ k ≤ r.e.changeSeq, c.token = toString k)
  waiting : ∀ t ∈ r.e.changes, ∃ change, .proposeConfChange change t ∈ r.e.trace
  recorded : ∀ change t, .proposeConfChange change t ∈ r.e.trace → ⟨i, r.life, t, change⟩ ∈ A.calls
  /-- Whoever was answered was answered because of the change of the call. -/
  answered : ∀ t, .voterChange t ∈ r.e.trace → ∃ change, ∃ entry ∈ r.applied,
    .proposeConfChange change t ∈ r.e.trace ∧ entry.data = .confChangeV2 [change] t ∧
    (entry, ⟨i, r.life, t, change⟩) ∈ A.committed

/-- What holds of the whole group. -/
structure Sound (A : Assembly ι) : Prop where
  served : ∀ i, A.Served i (A.seat i)
  /-- The token tells the call. -/
  unique : ∀ c ∈ A.calls, ∀ c' ∈ A.calls, c.token = c'.token → c = c'
  committed : ∀ x ∈ A.committed, x.2 ∈ A.calls ∧ x.1.data = .confChangeV2 [x.2.change] x.2.token

variable {node : ι → Node} {A A' : Assembly ι} {i : ι} {r : Seat}

/-- A replica is served as well when others make calls and more is committed. -/
theorem Served.mono (h : A.Served i r) (hcalls : A.calls ⊆ A'.calls)
    (hothers : ∀ c ∈ A'.calls, c.node = i → c ∈ A.calls) (hcommitted : A.committed ⊆ A'.committed) :
    A'.Served i r where
  counted := fun c hc hi => h.counted c (hothers c hc hi) hi
  waiting := h.waiting
  recorded := fun change t ht => hcalls (h.recorded change t ht)
  answered := by
    intro t ht
    obtain ⟨change, entry, hentry, hasked, hdata, hcomm⟩ := h.answered t ht
    exact ⟨change, entry, hentry, hasked, hdata, hcommitted hcomm⟩

/-- A process that has just been built has no callers. -/
theorem served_of_built {T : Thread} {s : Store} {start : NodeStart}
    {life : Nat} {applied : List Entry} (hnew : newRaftBackend N env T s = .ok (start, e))
    (hlife : ∀ c ∈ A.calls, c.node = i → c.life < life) : A.Served i ⟨e, life, applied⟩ := by
  obtain ⟨selfID, storage, -, rfl⟩ := newRaftBackend_eq_builtOn hnew
  have htrace : ∀ a ∈ (builtOn T (s.releasePendingClaims T.id) selfID storage).trace,
      a = .write .releasePendingClaims := fun a ha => List.mem_singleton.mp ha
  constructor
  · intro c hc hi
    exact ⟨(hlife c hc hi).le, fun heq => absurd heq (hlife c hc hi).ne⟩
  · exact fun t ht => absurd ht List.not_mem_nil
  · exact fun change t ht => nomatch htrace _ ht
  · exact fun t ht => nomatch htrace _ ht

theorem appliedBy_subset (e e' : Backend) (ev : Event) : appliedBy e e' ev ⊆ handed e ev := by
  unfold appliedBy
  split
  · exact List.Subset.refl _
  · exact List.nil_subset _

/-- A caller who is answered is answered because of the change of the call: the token tells it. -/
theorem Sound.settles (hA : A.Sound) {ev : Event}
    (h : Settles (appliedBy (A.seat i).e e' ev) (A.seat i).e e' δ)
    (hlog : ∀ entry ∈ handed (A.seat i).e ev, ∀ ccs context,
      entry.data = .confChangeV2 ccs context → context ≠ "" → ∃ c, (entry, c) ∈ A.committed) :
    A.Served i ⟨e', (A.seat i).life, (A.seat i).applied ++ appliedBy (A.seat i).e e' ev⟩ := by
  have hserved := hA.served i
  -- Nobody has begun to wait in this step.
  have hold : ∀ {change t}, .proposeConfChange change t ∈ e'.trace →
      .proposeConfChange change t ∈ (A.seat i).e.trace := by
    intro change t ht
    rw [h.trace] at ht
    exact (List.mem_append.mp ht).resolve_right (h.unproposed change t)
  have hkept : ∀ {a}, a ∈ (A.seat i).e.trace → a ∈ e'.trace := fun ha =>
    h.trace ▸ List.mem_append_left _ ha
  constructor
  · intro c hc hi
    obtain ⟨hle, hcount⟩ := hserved.counted c hc hi
    refine ⟨hle, fun heq => ?_⟩
    obtain ⟨k, hk, htoken⟩ := hcount heq
    exact ⟨k, hk.trans h.changeSeq, htoken⟩
  · intro t ht
    obtain ⟨change, hasked⟩ := hserved.waiting t (h.changes t ht)
    exact ⟨change, hkept hasked⟩
  · exact fun change t ht => hserved.recorded change t (hold ht)
  · intro t ht
    change .voterChange t ∈ e'.trace at ht
    rw [h.trace] at ht
    rcases List.mem_append.mp ht with ht | ht
    · obtain ⟨change, entry, hentry, hasked, hdata, hcomm⟩ := hserved.answered t ht
      exact ⟨change, entry, List.mem_append_left _ hentry, hkept hasked, hdata, hcomm⟩
    · obtain ⟨hwait, entry, hentry, ccs, hne, hdata⟩ := h.answers t ht
      obtain ⟨change, hasked⟩ := hserved.waiting t hwait
      obtain ⟨c, hcomm⟩ := hlog entry (appliedBy_subset _ _ _ hentry) ccs t hdata hne
      obtain ⟨hc, hdata'⟩ := hA.committed _ hcomm
      obtain ⟨rfl, htoken⟩ := EntryData.confChangeV2.inj (hdata.symm.trans hdata')
      obtain rfl := hA.unique _ (hserved.recorded change t hasked) c hc htoken
      exact ⟨change, entry, List.mem_append_right _ hentry, hkept hasked, hdata, hcomm⟩

/-- A caller begins to wait, under a token that no other call has. -/
theorem Sound.asks (hA : A.Sound) (change : ConfChange) {applied : List Entry}
    (happlied : (A.seat i).applied ⊆ applied) {c : Call ι}
    (hc : c = ⟨i, (A.seat i).life, toString ((A.seat i).e.changeSeq + 1), change⟩) :
    Served { A with calls := A.calls ++ [c] } i
      ⟨asking (A.seat i).e change, (A.seat i).life, applied⟩ := by
  have hserved := hA.served i
  constructor
  · intro c' hc' hi
    rcases List.mem_append.mp hc' with hold | hnew
    · obtain ⟨hle, hcount⟩ := hserved.counted c' hold hi
      refine ⟨hle, fun heq => ?_⟩
      obtain ⟨k, hk, htoken⟩ := hcount heq
      exact ⟨k, Nat.le_succ_of_le hk, htoken⟩
    · obtain rfl := (List.mem_singleton.mp hnew).trans hc
      exact ⟨le_rfl, fun _ => ⟨_, le_rfl, rfl⟩⟩
  · intro t ht
    rcases List.mem_append.mp ht with hold | hnew
    · obtain ⟨change', hasked⟩ := hserved.waiting t hold
      exact ⟨change', List.mem_append_left _ hasked⟩
    · rw [List.mem_singleton.mp hnew]
      exact ⟨change, List.mem_append_right _ (List.mem_singleton_self _)⟩
  · intro change' t ht
    rcases List.mem_append.mp ht with hold | hnew
    · exact List.mem_append_left _ (hserved.recorded change' t hold)
    · obtain ⟨rfl, rfl⟩ := Effect.proposeConfChange.inj (List.mem_singleton.mp hnew)
      exact List.mem_append_right _ (List.mem_singleton.mpr hc.symm)
  · intro t ht
    have hold := (List.mem_append.mp ht).resolve_right fun h => nomatch List.mem_singleton.mp h
    obtain ⟨change', entry, hentry, hasked, hdata, hcomm⟩ := hserved.answered t hold
    exact ⟨change', entry, happlied hentry, List.mem_append_left _ hasked, hdata, hcomm⟩

/-- The token of a call that meets `Distinct` is new. -/
theorem Sound.token_ne (hA : A.Sound) (hok : A.Distinct i) {c : Call ι} (hc : c ∈ A.calls) :
    c.token ≠ toString ((A.seat i).e.changeSeq + 1) := by
  by_cases hproc : c.node = i ∧ c.life = (A.seat i).life
  · obtain ⟨hnode, hlife⟩ := hproc
    obtain ⟨k, hk, htoken⟩ := ((hA.served i).counted c hc hnode).2 hlife
    rw [htoken]
    intro heq
    have hsucc : k = (A.seat i).e.changeSeq + 1 := Nat.repr_injective heq
    omega
  · exact hok c hc hproc

theorem Founded.sound (h : Founded node A) : A.Sound where
  served := by
    intro i
    obtain ⟨env, T, s, start, hnew⟩ := h.built i
    refine served_of_built hnew ?_
    rw [h.calls]
    exact fun c hc => absurd hc List.not_mem_nil
  unique := by
    rw [h.calls]
    exact fun c hc => absurd hc List.not_mem_nil
  committed := by
    rw [h.committed]
    exact fun x hx => absurd hx List.not_mem_nil

variable [DecidableEq ι]

/-- The replica that takes a step is served, and so are the others. -/
theorem Sound.update (hA : A.Sound) {new : List (Call ι)}
    (hnode : ∀ c ∈ new, c.node = i) (hi : Served { A with calls := A.calls ++ new } i r)
    (hunique : ∀ c ∈ A.calls ++ new, ∀ c' ∈ A.calls ++ new, c.token = c'.token → c = c') :
    Sound { A with seat := Function.update A.seat i r, calls := A.calls ++ new } where
  served := by
    intro j
    rcases eq_or_ne j i with rfl | hne
    · change Served _ j (Function.update A.seat j r j)
      rw [Function.update_self]
      exact ⟨hi.counted, hi.waiting, hi.recorded, hi.answered⟩
    · change Served _ j (Function.update A.seat i r j)
      rw [Function.update_of_ne hne]
      refine (hA.served j).mono (List.subset_append_left _ _) ?_ (List.Subset.refl _)
      intro c hc hj
      exact (List.mem_append.mp hc).resolve_right fun hnew => hne (hj.symm.trans (hnode c hnew))
  unique := hunique
  committed := fun x hx => ⟨List.mem_append_left _ (hA.committed x hx).1, (hA.committed x hx).2⟩

theorem Sound.step (hA : A.Sound) (h : Step node Distinct A A') : A'.Sound := by
  cases h with
  | @call i env ev e' δ hstep hδ hlog hok =>
    obtain ⟨γ, hγ⟩ := step_replies hstep
    obtain rfl := List.append_cancel_left (hδ.symm.trans hγ.trace)
    have hnode : ∀ c ∈ callsIn i (A.seat i).life δ, c.node = i := fun c hc => (mem_callsIn.mp hc).1
    cases hγ with
    | settled hs =>
      have hnil : callsIn i (A.seat i).life δ = [] := List.eq_nil_iff_forall_not_mem.mpr
        fun c hc => hs.unproposed _ _ (mem_callsIn.mp hc).2.2
      refine hA.update hnode ?_ ?_
      · rw [hnil, List.append_nil]
        exact hA.settles hs hlog
      · rw [hnil, List.append_nil]
        exact hA.unique
    | asked change he =>
      refine hA.update hnode ?_ ?_
      · rw [he]
        exact hA.asks change (List.subset_append_left _ _) rfl
      · have hnew : A.Distinct i := hok (List.cons_ne_nil _ _)
        intro c hc c' hc' htoken
        rcases List.mem_append.mp hc with h | h <;> rcases List.mem_append.mp hc' with h' | h'
        · exact hA.unique c h c' h' htoken
        · rw [List.mem_singleton.mp h'] at htoken
          exact absurd htoken (hA.token_ne hnew h)
        · rw [List.mem_singleton.mp h] at htoken
          exact absurd htoken.symm (hA.token_ne hnew h')
        · rw [List.mem_singleton.mp h, List.mem_singleton.mp h']
  | @commit entry c hc hentry =>
    refine ⟨fun j => ?_, hA.unique, ?_⟩
    · exact (hA.served j).mono (List.Subset.refl _) (fun c hc _ => hc) (List.subset_append_left _ _)
    · intro x hx
      rcases List.mem_append.mp hx with hx | hx
      · exact hA.committed x hx
      · rw [List.mem_singleton.mp hx]
        exact ⟨hc, hentry⟩
  | @restart i env T s start e hnew =>
    have hi : Served { A with calls := A.calls ++ [] } i ⟨e, (A.seat i).life + 1, []⟩ := by
      refine served_of_built hnew fun c hc hnode => ?_
      rw [List.append_nil] at hc
      exact Nat.lt_succ_of_le ((hA.served i).counted c hc hnode).1
    have hall := hA.update (fun c hc => absurd hc List.not_mem_nil) hi (by
      rw [List.append_nil]
      exact hA.unique)
    rwa [List.append_nil] at hall

theorem sound_of_run (h₀ : Founded node A) (hrun : Relation.ReflTransGen (Step node Distinct) A A') :
    A'.Sound := by
  induction hrun with
  | refl => exact h₀.sound
  | tail _ hstep ih => exact ih.step hstep

/-- **A caller is answered because of its own change.**  In every run of a group in which each call
that proposes a change has a token that no call on another process has had, a caller of
`ProposeVoterChange` that is told so has had its change committed and applied: the entry that the
process has applied has the change and the token of the one call that has it, and was proposed by
that call. -/
theorem voter_change_exact (h₀ : Founded node A)
    (hrun : Relation.ReflTransGen (Step node Distinct) A A') {i : ι} {token : String}
    (hdone : .voterChange token ∈ (A'.seat i).e.trace) :
    ∃ change, ∃ entry ∈ (A'.seat i).applied,
      .proposeConfChange change token ∈ (A'.seat i).e.trace ∧
      (∀ change', .proposeConfChange change' token ∈ (A'.seat i).e.trace → change' = change) ∧
      entry.data = .confChangeV2 [change] token ∧
      (entry, ⟨i, (A'.seat i).life, token, change⟩) ∈ A'.committed := by
  have hsound := sound_of_run h₀ hrun
  obtain ⟨change, entry, hentry, hasked, hdata, hcomm⟩ := (hsound.served i).answered token hdone
  refine ⟨change, entry, hentry, hasked, fun change' hasked' => ?_, hdata, hcomm⟩
  have hrec := (hsound.served i).recorded
  have heq := hsound.unique _ (hrec change' token hasked') _ (hrec change token hasked) rfl
  exact congrArg Call.change heq

end Assembly

/-! ## Two leaders -/

namespace Trio

/-- The replicas when they have been built. -/
def council : Assembly (Fin 3) := ⟨fun i => ⟨first i, 0, []⟩, [], []⟩

theorem founded_council : council.Founded node :=
  ⟨fun i => ⟨calm, thread, .empty, _, newRaftBackend_first i⟩, rfl, rfl⟩

/-- A step while the second replica leads. -/
def deposed : Env := { calm with lead := 2 }

/-- The first replica, asked to make the third a voter. -/
def asker : Backend := final (step (node 0) calm (first 0) (.voterChange "d3" true))

/-- The second replica, asked to remove the third from the voters. -/
def rival : Backend := final (step (node 1) deposed (first 1) (.voterChange "d3" false))

/-- The change of a call in the log. -/
def changeEntry (change : ConfChange) : Entry := ⟨2, 1, .confChangeV2 [change] "1"⟩

/-- The first replica after it has applied a change. -/
def answered (change : ConfChange) : Backend :=
  final (step (node 0) calm asker (.ready (batch [changeEntry change])))

/-- What it does then. -/
def answers (change : ConfChange) : List Effect :=
  [.write (.saveRaftReady ⟨1, 1, 1⟩ [changeEntry change]),
    .write (.saveConsensusState (hardStateRecord ⟨1, 1, 1⟩)), .voterChange "1"]

theorem step_answered (change : ConfChange) :
    step (node 0) calm asker (.ready (batch [changeEntry change])) = .ok (answered change) := rfl

theorem trace_answered (change : ConfChange) :
    (answered change).trace = asker.trace ++ answers change := rfl

/-- The group after the call on the first replica. -/
def adding : Assembly (Fin 3) :=
  council.after 0 (.voterChange "d3" true) asker [.proposeConfChange (.addNode 3) "1"]

/-- The group after the call on the second replica. -/
def removing : Assembly (Fin 3) :=
  adding.after 1 (.voterChange "d3" false) rival [.proposeConfChange (.removeNode 3) "1"]

/-- A change is committed, and the first replica applies it. -/
def told (A : Assembly (Fin 3)) (c : Call (Fin 3)) : Assembly (Fin 3) :=
  (A.commit (changeEntry c.change) c).after 0 (.ready (batch [changeEntry c.change]))
    (answered c.change) (answers c.change)

section Runs

variable {ok : Assembly (Fin 3) → Fin 3 → Prop}

theorem step_adding (hok : ok council 0) : Assembly.Step node ok council adding := by
  have hstep : step (node 0) calm (first 0) (.voterChange "d3" true) = .ok asker := rfl
  exact .call hstep rfl (fun _ h => absurd h List.not_mem_nil) fun _ => hok

theorem step_removing (hok : ok adding 1) : Assembly.Step node ok adding removing := by
  have hstep : step (node 1) deposed (first 1) (.voterChange "d3" false) = .ok rival := rfl
  exact .call hstep rfl (fun _ h => absurd h List.not_mem_nil) fun _ => hok

theorem run_told {A : Assembly (Fin 3)} {c : Call (Fin 3)} (hA : (A.seat 0).e = asker)
    (hc : c ∈ A.calls) (htoken : c.token = "1") :
    Relation.ReflTransGen (Assembly.Step node ok) A (told A c) := by
  have hcommit : Assembly.Step node ok A (A.commit (changeEntry c.change) c) :=
    .commit hc (by rw [htoken]; rfl)
  have hstep : step (node 0) calm (A.seat 0).e (.ready (batch [changeEntry c.change])) =
      .ok (answered c.change) := by
    rw [hA]
    exact step_answered c.change
  refine .tail (.single hcommit) (.call hstep ?_ ?_ ?_)
  · exact hA ▸ trace_answered c.change
  · intro entry hentry _ _ _ _
    change entry ∈ handed (A.seat 0).e _ at hentry
    rw [hA] at hentry
    obtain rfl := List.mem_singleton.mp hentry
    exact ⟨c, List.mem_append_right _ (List.mem_singleton_self _)⟩
  · exact fun h => absurd rfl h

end Runs

/-- The call on the first replica. -/
def addition : Call (Fin 3) := ⟨0, 0, "1", .addNode 3⟩

/-- The call on the second replica. -/
def removal : Call (Fin 3) := ⟨1, 0, "1", .removeNode 3⟩

/-- Two calls on two replicas have the same token: the caller who asks for a voter to be added is
told that it is done when the voter is removed. -/
theorem voter_change_mistaken : council.Founded node ∧
    Relation.ReflTransGen (Assembly.Step node fun _ _ => True) council (told removing removal) ∧
    .proposeConfChange (.addNode 3) "1" ∈ ((told removing removal).seat 0).e.trace ∧
    .voterChange "1" ∈ ((told removing removal).seat 0).e.trace ∧
    (told removing removal).committed = [(changeEntry (.removeNode 3), removal)] ∧
    ((told removing removal).seat 0).applied = [changeEntry (.removeNode 3)] := by
  refine ⟨founded_council, ?_, by decide +kernel, by decide +kernel, rfl, rfl⟩
  exact .head (step_adding trivial) (.head (step_removing trivial)
    (run_told rfl (List.mem_cons_of_mem _ List.mem_cons_self) rfl))

theorem voter_change_exact_addition : council.Founded node ∧
    Relation.ReflTransGen (Assembly.Step node Assembly.Distinct) council (told adding addition) ∧
    .voterChange "1" ∈ ((told adding addition).seat 0).e.trace ∧
    ∃ change, ∃ entry ∈ ((told adding addition).seat 0).applied,
      entry.data = .confChangeV2 [change] "1" ∧
      (entry, ⟨0, 0, "1", change⟩) ∈ (told adding addition).committed := by
  have hrun : Relation.ReflTransGen (Assembly.Step node Assembly.Distinct) council
      (told adding addition) :=
    .head (step_adding fun _ h => absurd h List.not_mem_nil) (run_told rfl List.mem_cons_self rfl)
  have hdone : .voterChange "1" ∈ ((told adding addition).seat 0).e.trace := by decide +kernel
  obtain ⟨change, entry, hentry, -, -, hdata, hcomm⟩ :=
    Assembly.voter_change_exact founded_council hrun hdone
  exact ⟨founded_council, hrun, hdone, change, entry, hentry, hdata, hcomm⟩

end Trio

end MoltMesh.Raft
