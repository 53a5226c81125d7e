import MoltMesh.Lib.Trace
import MoltMesh.Saving

/-!
# Subscriptions to a thread

`SubscribeThread` sends the entries the database has above a height, then asks for the actor of the
thread, has it append a channel to its subscribers, and sends what arrives there.  The actor saves a
block first and offers its entries to the subscribers afterwards, in `handleCommit`, under its mutex
and without waiting for a channel that is full.

Nothing ties the two together.  A block that is offered after the history has been read and before
the channel is there is never sent, one that has been read and is offered later is sent twice, and
the height the caller asks for is not compared with what arrives.  `subscription_gapless` says which
hand-overs are safe, and `Handover.block_skipped` shows two that are not.

A call that holds the actor when it stops, and has no channel yet, gets one that nobody writes to.
That is the same for its caller as no actor at all, and both are `detached` here.
-/

namespace MoltMesh

open MoltMesh.Lib Pb

/-- `ThreadEntryWithPos`. -/
structure ThreadEntryWithPos where
  height : Int
  index : Int32
  entry : ThreadEntry
  blockHash : String
deriving DecidableEq

/-- The entries of a block, as `GetEntries` lists them and `handleCommit` offers them. -/
def entriesWithPos (b : ThreadBlock) : List ThreadEntryWithPos :=
  b.entries.mapIdx fun i entry => ⟨b.height, Int32.ofNat i, entry, b.blockHash⟩

namespace Store

variable {s s' : Store} {T : String} {b : ThreadBlock} {since : Int}

/-- `GetEntries`. -/
def getEntries (s : Store) (threadID : String) (sinceHeight : Int) (limit : Nat) : List ThreadEntryWithPos :=
  (s.getBlocksSince threadID sinceHeight limit).flatMap entriesWithPos

/-! ## A block on top -/

/-- The committed rows of the thread are those from before and the one of the block. -/
def Adds (s : Store) (T : String) (b : ThreadBlock) (s' : Store) : Prop :=
  (s'.committedBlocks T).Perm (s.committedBlocks T ++ [.ofBlock b])

theorem saveBlock_adds (hT : b.threadId = T) (hpos : 0 < b.committedAt)
    (htop : s.getCommittedHeight T < b.height) : s.Adds T b (s.saveBlock b) := by
  have hfree {r : BlockRow} (hr : r ∈ s.committedBlocks T) : r.height ≠ b.height :=
    ne_of_lt ((height_le_getCommittedHeight hr).trans_lt htop)
  have hnodup (s : Store) : (s.committedBlocks T).Nodup := List.Nodup.of_map _ (s.nodup_map_height T)
  refine (List.perm_ext_iff_of_nodup (hnodup _) ?_).mpr fun r => ?_
  · refine List.nodup_append.mpr ⟨hnodup s, List.nodup_singleton _, fun r hr r' hr' heq => ?_⟩
    rw [heq, List.mem_singleton.mp hr'] at hr
    exact hfree hr rfl
  · rw [List.mem_append, List.mem_singleton, committedBlocks, committedBlocks, Table.mem_select,
      Table.mem_select, saveBlock, Table.mem_insertOrReplace, decide_eq_true_eq]
    constructor
    · rintro ⟨⟨hr, -⟩ | rfl, hrow⟩
      · exact .inl ⟨hr, hrow⟩
      · exact .inr rfl
    · rintro (⟨hr, hrow⟩ | rfl)
      · refine ⟨.inl ⟨hr, fun hkey => ?_⟩, hrow⟩
        exact hfree (Table.mem_select.mpr ⟨hr, decide_eq_true hrow⟩) (Prod.mk.inj hkey).2
      · exact ⟨.inr rfl, hT, hpos⟩

theorem append_adds {ids : List Int} {fill : Int → String → ThreadBlock}
    (h : s.appendBlockAndAckPending T ids fill = some (b, s')) (hT : b.threadId = T)
    (hpos : 0 < b.committedAt) : s.Adds T b s' := by
  rw [appendBlockAndAckPending_eq] at h
  obtain ⟨blocks, hinsert, hpair⟩ := Option.map_eq_some_iff.mp h
  obtain ⟨rfl, rfl⟩ := Prod.mk.inj hpair
  rw [Adds, committedBlocks, blocks_ackPending, Table.select_of_insert hinsert]
  rw [if_pos (decide_eq_true ⟨hT, hpos⟩)]
  exact .rfl

namespace Adds

variable (h : s.Adds T b s')
include h

theorem mem {r : BlockRow} : r ∈ s'.committedBlocks T ↔ r ∈ s.committedBlocks T ∨ r = .ofBlock b := by
  rw [h.mem_iff, List.mem_append, List.mem_singleton]

theorem height_le : b.height ≤ s'.getCommittedHeight T :=
  height_le_getCommittedHeight (h.mem.mpr (.inr rfl))

theorem getEntries (htop : s.getCommittedHeight T < b.height) (hfive : ∀ e ∈ b.entries, FiveFields e) :
    s'.getEntries T since 0 = s.getEntries T since 0 ++ if since < b.height then entriesWithPos b else [] := by
  have hrows : s'.rowsAbove T since = s.rowsAbove T since ++ if since < b.height then [.ofBlock b] else [] := by
    refine orderBy_eq_of_perm _ ?_ ?_
    · refine (h.filter _).trans ?_
      rw [List.filter_append]
      refine (perm_orderBy _ _).symm.append (.of_eq ?_)
      rw [List.filter_singleton, Bool.cond_decide]
      rfl
    · refine List.pairwise_append.mpr ⟨s.pairwise_rowsAbove T since, ?_, fun r hr r' hr' => ?_⟩
      · split
        · exact List.pairwise_singleton _ _
        · exact .nil
      · have hr : r ∈ s.committedBlocks T := List.mem_of_mem_filter ((mem_orderBy _).mp hr)
        split at hr'
        · rw [List.mem_singleton.mp hr']
          exact (height_le_getCommittedHeight hr).trans_lt htop
        · cases hr'
  have hstored : (BlockRow.ofBlock b).block = b := stored_eq_self hfive
  rw [Store.getEntries, Store.getEntries, getBlocksSince_zero, getBlocksSince_zero, hrows, List.map_append,
    List.flatMap_append]
  split <;> simp [hstored]

end Adds

end Store

/-! ## The actor and the call -/

namespace Feed

/-- Where the actor of the thread is with the block it commits. -/
inductive Commit
  | idle
  /-- The block is in the database, and `handleCommit` does not have the mutex yet. -/
  | saved (b : ThreadBlock)
  /-- `handleCommit` has the mutex, and these entries to offer. -/
  | offering (eps : List ThreadEntryWithPos)
deriving DecidableEq

/-- Where the call of `SubscribeThread` is. -/
inductive Call
  | called
  /-- The history has been read, and these entries of it are still to be sent. -/
  | flushing (eps : List ThreadEntryWithPos)
  /-- `Engine` has returned the actor, and `Subscribe` does not have the mutex yet. -/
  | attaching
  /-- In the loop, with the entry that has been received and is to be sent, and what the channel holds. -/
  | live (hand : Option ThreadEntryWithPos) (ch : List ThreadEntryWithPos)
  /-- The same after the channel has been closed. -/
  | closed (hand : Option ThreadEntryWithPos) (ch : List ThreadEntryWithPos)
  /-- Waiting for the end of the context. -/
  | detached
  | returned
deriving DecidableEq

/-- The steps of the actor and of the call. -/
inductive Op
  /-- A block is committed by `SaveBlock`. -/
  | saveBlock (b : ThreadBlock)
  /-- A block is committed by `AppendBlockAndAckPending`. -/
  | append (pendingIDs : List Int) (fill : Int → String → ThreadBlock)
  /-- `handleCommit` gets the mutex. -/
  | handleCommit
  /-- The next entry is offered to the subscribers. -/
  | offer
  /-- `handleCommit` gives the mutex back. -/
  | unlock
  /-- `PostStop` closes the channels. -/
  | stop
  /-- The history is read. -/
  | getEntries
  /-- `Engine`, which may fail to activate the actor. -/
  | engine (activated : Bool)
  /-- `Subscribe` gets the mutex. -/
  | subscribe
  /-- An entry is received from the channel, or its end. -/
  | receive
  /-- An entry is sent to the client. -/
  | send
  /-- The context ends, or something fails. -/
  | cancel

end Feed

open Feed in
/-- A replica with a call of `SubscribeThread` and the entries sent so far.  The height up to which
the history has been read is kept for the statements. -/
structure Feed where
  store : Store
  commit : Commit
  call : Call
  readHeight : Int
  sent : List ThreadEntryWithPos

namespace Feed

/-- The capacity of the channel `Subscribe` makes. -/
def capacity : Nat := 256

section Steps

variable (T : String) (since : Int)

/-- The state after a step of a call for thread `T` from height `since` on.  A step that is not possible changes
nothing. -/
def next (F : Feed) : Op → Feed
  | .saveBlock b => match F.commit with
    | .idle => { F with store := F.store.saveBlock b, commit := .saved b }
    | _ => F
  | .append pendingIDs fill => match F.commit, F.store.appendBlockAndAckPending T pendingIDs fill with
    | .idle, some (b, store) => { F with store, commit := .saved b }
    | _, _ => F
  | .handleCommit => match F.commit with
    | .saved b => { F with commit := .offering (entriesWithPos b) }
    | _ => F
  | .offer => match F.commit, F.call with
    -- A channel that is full does not take the entry.
    | .offering (ep :: eps), .live hand ch =>
      { F with commit := .offering eps, call := .live hand (if ch.length < capacity then ch ++ [ep] else ch) }
    | .offering (_ :: eps), _ => { F with commit := .offering eps }
    | _, _ => F
  | .unlock => match F.commit with
    | .offering [] => { F with commit := .idle }
    | _ => F
  | .stop => match F.commit, F.call with
    | .idle, .live hand ch => { F with call := .closed hand ch }
    | .idle, .attaching => { F with call := .detached }
    | _, _ => F
  | .getEntries => match F.call with
    | .called =>
      { F with call := .flushing (F.store.getEntries T since 0), readHeight := F.store.getCommittedHeight T }
    | _ => F
  | .engine activated => match F.call with
    | .flushing [] => { F with call := if activated then .attaching else .detached }
    | _ => F
  | .subscribe => match F.commit, F.call with
    | .offering _, _ => F
    | _, .attaching => { F with call := .live none [] }
    | _, _ => F
  | .receive => match F.call with
    | .live none (ep :: ch) => { F with call := .live (some ep) ch }
    | .closed none (ep :: ch) => { F with call := .closed (some ep) ch }
    | .closed none [] => { F with call := .returned }
    | _ => F
  | .send => match F.call with
    | .flushing (ep :: eps) => { F with call := .flushing eps, sent := F.sent ++ [ep] }
    | .live (some ep) ch => { F with call := .live none ch, sent := F.sent ++ [ep] }
    | .closed (some ep) ch => { F with call := .closed none ch, sent := F.sent ++ [ep] }
    | _ => F
  | .cancel => { F with call := .returned }

/-- The steps as those of a machine without output. -/
def step (F : Feed) (op : Op) : Unit × Feed := ((), F.next T since op)

/-- What has been sent is what the committed blocks above the height have up to some entry, each entry once and in
the order of heights and places. -/
def Exact (F : Feed) : Prop :=
  ∃ bs, F.store.CommittedAbove T since bs ∧ F.sent <+: bs.flatMap entriesWithPos

/-- The block goes on top of a chain of the thread and is read back as it is. -/
def Fits (height : Int) (b : ThreadBlock) : Prop :=
  b.threadId = T ∧ height < b.height ∧ 0 < b.committedAt ∧ ∀ e ∈ b.entries, FiveFields e

/-- `handleCommit` gets the mutex in time.  A block that is offered before the channel is there has been read or is
not asked for, and one that is offered later has not been read and is asked for. -/
def Timely (readHeight : Int) : Commit → Call → Prop
  | .saved b, .flushing _ => b.height ≤ readHeight ∨ b.height ≤ since
  | .saved b, .attaching => b.height ≤ readHeight ∨ b.height ≤ since
  | .saved b, .live _ _ => readHeight < b.height ∧ since < b.height
  | _, _ => True

/-- The channel takes the entry that is offered. -/
def HasRoom : Commit → Call → Prop
  | .offering (_ :: _), .live _ ch => ch.length < capacity
  | _, _ => True

/-- The hand-over from the history to the channel is safe at a step: blocks are committed in order and offered in
time, and the channel is not full. -/
def HandsOver (F : Feed) : Op → Prop
  | .saveBlock b => F.commit = .idle → Fits T (F.store.getCommittedHeight T) b
  | .append _ fill => F.commit = .idle →
    Fits T (F.store.getCommittedHeight T) (fill (F.store.nextHeight T) (F.store.tipHash T))
  | .handleCommit => Timely since F.readHeight F.commit F.call
  | .offer => HasRoom F.commit F.call
  | _ => True

instance (height : Int) (b : ThreadBlock) : Decidable (Fits T height b) := inferInstanceAs (Decidable (_ ∧ _))

instance (readHeight : Int) : ∀ (c : Commit) (call : Call), Decidable (Timely since readHeight c call)
  | .saved _, .flushing _ | .saved _, .attaching => inferInstanceAs (Decidable (_ ∨ _))
  | .saved _, .live _ _ => inferInstanceAs (Decidable (_ ∧ _))
  | .saved _, .called | .saved _, .closed _ _ | .saved _, .detached | .saved _, .returned | .idle, _
  | .offering _, _ => inferInstanceAs (Decidable True)

instance : ∀ (c : Commit) (call : Call), Decidable (HasRoom c call)
  | .offering (_ :: _), .live _ _ => inferInstanceAs (Decidable (_ < _))
  | .offering (_ :: _), .called | .offering (_ :: _), .flushing _ | .offering (_ :: _), .attaching
  | .offering (_ :: _), .closed _ _ | .offering (_ :: _), .detached | .offering (_ :: _), .returned
  | .offering [], _ | .idle, _ | .saved _, _ => inferInstanceAs (Decidable True)

instance (F : Feed) : ∀ op, Decidable (HandsOver T since F op)
  | .saveBlock _ | .append _ _ => inferInstanceAs (Decidable (_ → _))
  | .handleCommit => inferInstanceAs (Decidable (Timely _ _ _ _))
  | .offer => inferInstanceAs (Decidable (HasRoom _ _))
  | .unlock | .stop | .getEntries | .engine _ | .subscribe | .receive | .send | .cancel =>
    inferInstanceAs (Decidable True)

end Steps

/-! ## Nothing is skipped -/

/-- What the call has in hand, in the order in which it will send it. -/
def Call.queue : Call → List ThreadEntryWithPos
  | .flushing eps => eps
  | .live hand ch => hand.toList ++ ch
  | .closed hand ch => hand.toList ++ ch
  | _ => []

/-- The history has been read, and what is committed later can still be sent. -/
def Call.Open : Call → Prop
  | .flushing _ | .attaching | .live _ _ => True
  | _ => False

/-- What the actor has still to offer of what a call has not read, which has read up to some height. -/
def Commit.coming (since readHeight : Int) : Commit → Call → List ThreadEntryWithPos
  | .saved b, _ => if readHeight < b.height ∧ since < b.height then entriesWithPos b else []
  | .offering eps, .live _ _ => eps
  | _, _ => []

/-- What has been sent, what is in hand and what is to come are the entries above the height. -/
structure Gapless (T : String) (since : Int) (F : Feed) : Prop where
  saved : ∀ b, F.commit = .saved b → b.height ≤ F.store.getCommittedHeight T
  read : F.call.Open → F.readHeight ≤ F.store.getCommittedHeight T
  unread : F.call = .called → F.sent = []
  below : F.sent ++ F.call.queue <+: F.store.getEntries T since 0
  whole : F.call.Open →
    F.sent ++ F.call.queue ++ F.commit.coming since F.readHeight F.call = F.store.getEntries T since 0

variable {T : String} {since : Int} {F : Feed}

theorem exact_iff : Exact T since F ↔ F.sent <+: F.store.getEntries T since 0 := by
  have hcommitted := F.store.committedAbove_getBlocksSince T since
  constructor
  · rintro ⟨bs, hbs, hsent⟩
    rwa [← hbs.getBlocksSince_eq] at hsent
  · intro hsent
    exact ⟨_, hcommitted, hsent⟩

/-- A block is committed. -/
theorem Gapless.add (h : Gapless T since F) {b : ThreadBlock} {store : Store} (hidle : F.commit = .idle)
    (hadds : F.store.Adds T b store) (hfits : Fits T (F.store.getCommittedHeight T) b) :
    Gapless T since { F with store, commit := .saved b } := by
  obtain ⟨-, htop, -, hfive⟩ := hfits
  have hheight := hadds.height_le
  have hentries : store.getEntries T since 0 = _ := hadds.getEntries htop hfive
  refine ⟨?_, fun hopen => (h.read hopen).trans (htop.le.trans hheight), h.unread, ?_, fun hopen => ?_⟩
  · rintro _ ⟨⟩
    exact hheight
  · rw [hentries]
    exact h.below.trans (List.prefix_append _ _)
  · have hread : F.readHeight < b.height := (h.read hopen).trans_lt htop
    have hwhole := h.whole hopen
    rw [hidle] at hwhole
    simp only [Commit.coming, List.append_nil] at hwhole
    rw [hentries, ← hwhole]
    simp only [Commit.coming, hread, true_and]

/-- The actor goes on. -/
theorem Gapless.commit (h : Gapless T since F) {c : Commit} (hsaved : ∀ b, c ≠ .saved b)
    (hcoming : F.call.Open → c.coming since F.readHeight F.call = F.commit.coming since F.readHeight F.call) :
    Gapless T since { F with commit := c } := by
  refine ⟨fun b hb => absurd hb (hsaved b), h.read, h.unread, h.below, fun hopen => ?_⟩
  dsimp only
  rw [hcoming hopen]
  exact h.whole hopen

/-- The call goes on with what it has. -/
theorem Gapless.call (h : Gapless T since F) {c c' : Call} {sent : List ThreadEntryWithPos} (hcall : F.call = c)
    (hnew : c' ≠ .called) (hqueue : sent ++ c'.queue = F.sent ++ c.queue)
    (hopen : c'.Open → c.Open ∧
      F.commit.coming since F.readHeight c' = F.commit.coming since F.readHeight c) :
    Gapless T since { F with call := c', sent } := by
  subst hcall
  refine ⟨h.saved, fun ho => h.read (hopen ho).1, fun hcalled => absurd hcalled hnew, ?_, fun ho => ?_⟩
  · dsimp only
    rw [hqueue]
    exact h.below
  · obtain ⟨ho', hcoming⟩ := hopen ho
    dsimp only
    rw [hqueue, hcoming]
    exact h.whole ho'

theorem Gapless.handleCommit (h : Gapless T since F) (hok : HandsOver T since F .handleCommit) :
    Gapless T since (F.next T since .handleCommit) := by
  simp only [next]
  split
  · rename_i b hcommit
    refine h.commit (by rintro _ ⟨⟩) fun hopen => ?_
    simp only [HandsOver, hcommit] at hok
    rw [hcommit]
    -- Before the channel is there nothing of the block is to come, and afterwards all of it.
    cases hcall : F.call with
    | flushing eps =>
      rw [hcall] at hok
      refine (if_neg fun hnew => ?_).symm
      exact hok.elim (not_le_of_gt hnew.1) (not_le_of_gt hnew.2)
    | attaching =>
      rw [hcall] at hok
      refine (if_neg fun hnew => ?_).symm
      exact hok.elim (not_le_of_gt hnew.1) (not_le_of_gt hnew.2)
    | live hand ch =>
      rw [hcall] at hok
      exact (if_pos hok).symm
    | called | closed | detached | returned =>
      rw [hcall] at hopen
      exact False.elim hopen
  · exact h

theorem Gapless.offer (h : Gapless T since F) (hok : HandsOver T since F .offer) :
    Gapless T since (F.next T since .offer) := by
  simp only [next]
  split
  · rename_i ep eps hand ch hcommit hcall
    have hroom : ch.length < capacity := by
      rwa [HandsOver, hcommit, hcall] at hok
    have hopen : F.call.Open := by
      rw [hcall]
      trivial
    have hwhole : F.sent ++ (hand.toList ++ (ch ++ [ep])) ++ eps = F.store.getEntries T since 0 := by
      simpa [Commit.coming, hcommit, hcall, Call.queue] using h.whole hopen
    rw [if_pos hroom]
    exact ⟨by rintro _ ⟨⟩, fun _ => h.read hopen, by rintro ⟨⟩, ⟨eps, hwhole⟩, fun _ => hwhole⟩
  · rename_i ep eps hcommit hlive
    refine h.commit (by rintro _ ⟨⟩) fun _ => ?_
    rw [hcommit]
    cases hcall : F.call with
    | live hand ch => exact (hlive hand ch hcall).elim
    | _ => rfl
  · exact h

/-- Reading the history makes it what is in hand. -/
theorem Gapless.getEntries (h : Gapless T since F) : Gapless T since (F.next T since .getEntries) := by
  simp only [next]
  split
  · rename_i hcall
    have hcoming (eps : List ThreadEntryWithPos) :
        F.commit.coming since (F.store.getCommittedHeight T) (.flushing eps) = [] := by
      rcases hcommit : F.commit with _ | b | _
      · rfl
      · exact if_neg fun hread => absurd (h.saved b hcommit) (not_le_of_gt hread.1)
      · rfl
    refine ⟨h.saved, fun _ => le_rfl, by rintro ⟨⟩, ?_, fun _ => ?_⟩
    · dsimp only
      rw [h.unread hcall]
      exact List.prefix_rfl
    · dsimp only
      rw [h.unread hcall, hcoming, List.append_nil]
      rfl
  · exact h

/-- The call ends where it is. -/
theorem Gapless.cancel (h : Gapless T since F) : Gapless T since (F.next T since .cancel) := by
  refine ⟨h.saved, False.elim, by rintro ⟨⟩, ?_, False.elim⟩
  have hsent : F.sent <+: F.store.getEntries T since 0 := (List.prefix_append _ _).trans h.below
  simpa only [next, Call.queue, List.append_nil] using hsent

/-- **One step keeps the feed without gaps**, if it hands over safely. -/
theorem Gapless.next (h : Gapless T since F) {op : Op} (hok : HandsOver T since F op) :
    Gapless T since (F.next T since op) := by
  cases op with
  | saveBlock b =>
    simp only [Feed.next]
    split
    · rename_i hidle
      obtain ⟨hT, htop, hpos, -⟩ := hok hidle
      exact h.add hidle (Store.saveBlock_adds hT hpos htop) (hok hidle)
    · exact h
  | append ids fill =>
    simp only [Feed.next]
    split
    · rename_i b store hidle happend
      have hfits := hok hidle
      have hb : fill (F.store.nextHeight T) (F.store.tipHash T) = b := by
        rw [Store.appendBlockAndAckPending_eq] at happend
        obtain ⟨blocks, -, hpair⟩ := Option.map_eq_some_iff.mp happend
        exact (Prod.mk.inj hpair).1
      rw [hb] at hfits
      exact h.add hidle (Store.append_adds happend hfits.1 hfits.2.2.1) hfits
    · exact h
  | handleCommit => exact h.handleCommit hok
  | offer => exact h.offer hok
  | unlock =>
    simp only [Feed.next]
    split
    · rename_i hcommit
      refine h.commit (by rintro _ ⟨⟩) fun _ => ?_
      rw [hcommit]
      cases F.call <;> rfl
    · exact h
  | stop =>
    simp only [Feed.next]
    split
    · rename_i hcall
      exact h.call hcall (by rintro ⟨⟩) rfl False.elim
    · rename_i hcall
      exact h.call hcall (by rintro ⟨⟩) rfl False.elim
    · exact h
  | getEntries => exact h.getEntries
  | engine activated =>
    simp only [Feed.next]
    split
    · rename_i hcall
      cases activated with
      | true => exact h.call hcall (by rintro ⟨⟩) rfl fun _ => ⟨trivial, by cases F.commit <;> rfl⟩
      | false => exact h.call hcall (by rintro ⟨⟩) rfl False.elim
    · exact h
  | subscribe =>
    simp only [Feed.next]
    split
    · exact h
    · rename_i hcall hfree
      refine h.call hcall (by rintro ⟨⟩) rfl fun _ => ⟨trivial, ?_⟩
      -- The mutex is free, so that no block is being offered.
      rcases hcommit : F.commit with _ | b | eps
      · rfl
      · rfl
      · exact (hfree eps hcommit).elim
    · exact h
  | receive =>
    simp only [Feed.next]
    split
    · rename_i hcall
      exact h.call hcall (by rintro ⟨⟩) rfl fun _ => ⟨trivial, by cases F.commit <;> rfl⟩
    · rename_i hcall
      exact h.call hcall (by rintro ⟨⟩) rfl False.elim
    · rename_i hcall
      exact h.call hcall (by rintro ⟨⟩) rfl False.elim
    · exact h
  | send =>
    simp only [Feed.next]
    split
    · rename_i hcall
      refine h.call hcall (by rintro ⟨⟩) ?_ fun _ => ⟨trivial, by cases F.commit <;> rfl⟩
      exact List.append_assoc _ _ _
    · rename_i hcall
      refine h.call hcall (by rintro ⟨⟩) ?_ fun _ => ⟨trivial, by cases F.commit <;> rfl⟩
      exact List.append_assoc _ _ _
    · rename_i hcall
      refine h.call hcall (by rintro ⟨⟩) ?_ False.elim
      exact List.append_assoc _ _ _
    · exact h
  | cancel => exact h.cancel

/-- **When a subscription has no gaps**: in every interleaving of commits with the steps of a call of
`SubscribeThread`, what has been sent is at every moment what the committed blocks above the height
have up to some entry, if all steps hand over safely. -/
theorem subscription_gapless (T : String) (since : Int) {F : Feed} (hcommit : F.commit = .idle)
    (hcall : F.call = .called) (hsent : F.sent = []) (ops : List Op)
    (hok : ∀ t ∈ turns (step T since) F ops, HandsOver T since t.before t.input) :
    ∀ m ∈ moments (step T since) F ops, Exact T since m := by
  have hfirst : Gapless T since F := by
    refine ⟨fun b hb => ?_, fun hopen => ?_, fun _ => hsent, ?_, fun hopen => ?_⟩
    · rw [hcommit] at hb
      cases hb
    · rw [hcall] at hopen
      exact False.elim hopen
    · rw [hsent, hcall]
      exact List.nil_prefix
    · rw [hcall] at hopen
      exact False.elim hopen
  have hgapless : ∀ m ∈ moments (step T since) F ops, Gapless T since m :=
    invariant_of_turns (fun _ _ hgood hok => hgood.next hok) hfirst hok
  exact fun m hm => exact_iff.mpr ((List.prefix_append _ _).trans (hgapless m hm).below)

/-! ## Around the hand-over -/

namespace Handover

/-- The next block of the thread, with a message in clear.  Nothing here looks at hashes. -/
def fill (height : Int) (parentHash : String) : ThreadBlock :=
  { threadId := "t", height, round := 1, parentHash, entries := [Store.plainEntry], proposerDid := "did:key:a",
    proposerSig := "", blockHash := "", committedAt := 1 }

/-- A replica with one block, where a client subscribes. -/
def replica : Feed :=
  { store := Store.empty.saveBlock (fill 1 ""), commit := .idle, call := .called, readHeight := 0, sent := [] }

/-- The history is read and sent, the channel is made, a block is committed and offered, and it is sent. -/
def quiet : List Op :=
  [.getEntries, .send, .engine true, .subscribe, .append [] fill, .handleCommit, .offer, .unlock, .receive, .send]

/-- A block that is committed when the channel is there is sent after the history. -/
theorem subscription_gapless_quiet : (∀ m ∈ moments (step "t" 0) replica quiet, Exact "t" 0 m) ∧
    (runs (step "t" 0) replica quiet).sent.map (·.height) = [1, 2] :=
  ⟨subscription_gapless "t" 0 rfl rfl rfl quiet (by decide +kernel), by decide +kernel⟩

/-- A block is committed and offered between the reading of the history and the making of the channel, and another
one afterwards. -/
def skipping : List Op :=
  [.getEntries, .send, .append [] fill, .handleCommit, .offer, .unlock, .engine true, .subscribe, .append [] fill,
    .handleCommit, .offer, .unlock, .receive, .send]

/-- A block is committed before the history is read, and offered when the channel is there. -/
def repeating : List Op :=
  [.append [] fill, .getEntries, .send, .send, .engine true, .subscribe, .handleCommit, .offer, .unlock, .receive,
    .send]

/-- **A block is skipped, another one sent twice**: three blocks are committed and the second is never sent, or two are
and the second comes twice. -/
theorem block_skipped : ¬ Exact "t" 0 (runs (step "t" 0) replica skipping) ∧
    (runs (step "t" 0) replica skipping).sent.map (·.height) = [1, 3] ∧
    ¬ Exact "t" 0 (runs (step "t" 0) replica repeating) ∧
    (runs (step "t" 0) replica repeating).sent.map (·.height) = [1, 2, 2] := by
  rw [exact_iff, exact_iff]
  decide +kernel

end Handover

end Feed

end MoltMesh
