import MoltMesh.Archive.Heads

/-!
# Walking a chain back from its head

`VerifyChainFromHead` of `daemon/thread/verify.go`: a reader that knows a thread's id only
resolves the head of its chain and goes down height by height.  The lookups are callbacks,
so they are a parameter here, and what they answer may depend on everything they were asked
before.

The walk carries the hash the next block down must have, `VerifyChain` the hash of the block
below; `walk_eq_ok` says that they agree.  The slice for the blocks is made before the first
of them is fetched.
-/

namespace MoltMesh

open MoltMesh.Lib Pb

universe u v

/-- The callbacks of `VerifyChainFromHead`. -/
structure Lookups (ε : Type u) (σ : Type v) where
  resolveHead : String → σ → Except ε ThreadHead × σ
  resolveHeight : String → Int → σ → Except ε ThreadHead × σ
  fetchBlock : String → σ → Except ε ThreadBlock × σ

/-- The callbacks a daemon passes. -/
def Peers.lookups {σ : Type v} (P : Peers σ) : Lookups ResolveError σ :=
  ⟨P.resolveHead, P.resolveHeight, P.fetchBlock⟩

/-- The errors of `VerifyChainFromHead`, with the values their texts report. -/
inductive WalkError (ε : Type u)
  | resolveHead (err : ε)
  | resolveHeight (height : Int) (err : ε)
  /-- The pointer of a height has another hash than its child's parent hash. -/
  | pointer (height : Int) (blockHash want : String)
  | fetch (height : Int) (err : ε)
  | threadId (height : Int) (threadId want : String)
  | height (height claimed : Int)
  | blockHash (height : Int) (blockHash recomputed : String)
  /-- A block has another hash than its child's parent hash. -/
  | child (height : Int) (recomputed want : String)
  /-- The genesis block has a parent hash. -/
  | genesis (parentHash : String)
deriving DecidableEq

/-- How a walk ends. -/
inductive Outcome (ε : Type u)
  /-- `makeslice: len out of range`. -/
  | panics
  | returns (result : Except (WalkError ε) (List ThreadBlock))
deriving DecidableEq

/-- A walk: how it ends, for how many blocks its slice was made and how many it fetched. -/
structure Walk (ε : Type u) where
  outcome : Outcome ε
  slots : Int
  fetched : Nat

/-- The longest slice of pointers the runtime makes: eight bytes each, at most `2 ^ 48` bytes. -/
def maxSlots : Int := 2 ^ 45

variable {ε : Type u} {σ : Type v}

section Walk

variable (kind : BackendKind) (threadID : String) (L : Lookups ε σ)

/-- What is checked of a fetched block. -/
def checkBlock (h : Int) (wantHash : String) (block : ThreadBlock) : Except (WalkError ε) Unit :=
  if block.threadId ≠ threadID then .error (.threadId h block.threadId threadID)
  else if block.height ≠ h then .error (.height h block.height)
  else if blockHashFn kind block ≠ block.blockHash then
    .error (.blockHash h block.blockHash (blockHashFn kind block))
  else if blockHashFn kind block ≠ wantHash then .error (.child h (blockHashFn kind block) wantHash)
  else .ok ()

/-- The pointer for a height. -/
def pointer (head : ThreadHead) (h : Int) (st : σ) : Except ε ThreadHead × σ :=
  if h = head.height then (.ok head, st) else L.resolveHeight threadID h st

/-- The loop of `VerifyChainFromHead` from height `h` down, with the slots it has filled above and
the blocks it fetches. -/
def walk (head : ThreadHead) :
    Nat → String → List ThreadBlock → σ → Except (WalkError ε) (List ThreadBlock) × Nat
  | 0, wantHash, blocks, _ => (if wantHash ≠ "" then .error (.genesis wantHash) else .ok blocks, 0)
  | h + 1, wantHash, blocks, st =>
    match pointer threadID L head (h + 1 : Nat) st with
    | (.error err, _) => (.error (.resolveHeight (h + 1 : Nat) err), 0)
    | (.ok ptr, st) =>
      if ptr.blockHash ≠ wantHash then
        (.error (.pointer (h + 1 : Nat) ptr.blockHash wantHash), 0)
      else match L.fetchBlock ptr.blockCid st with
        | (.error err, _) => (.error (.fetch (h + 1 : Nat) err), 0)
        | (.ok block, st) => match checkBlock kind threadID (h + 1 : Nat) wantHash block with
          | .error err => (.error err, 1)
          | .ok () =>
            let rest := walk head h block.parentHash (block :: blocks) st
            (rest.1, rest.2 + 1)

/-- `VerifyChainFromHead`. -/
def verifyChainFromHead (st : σ) : Walk ε :=
  match L.resolveHead threadID st with
  | (.error err, _) => ⟨.returns (.error (.resolveHead err)), 0, 0⟩
  | (.ok head, st) =>
    if head.height < 0 ∨ maxSlots < head.height then ⟨.panics, 0, 0⟩
    else
      let rest := walk kind threadID L head head.height.toNat head.blockHash [] st
      ⟨.returns rest.1, head.height, rest.2⟩

end Walk

variable {kind : BackendKind} {threadID : String} {L : Lookups ε σ} {head : ThreadHead} {st : σ}

/-! ## Soundness -/

theorem checkBlock_eq_ok {h : Int} {wantHash : String} {block : ThreadBlock} :
    checkBlock (ε := ε) kind threadID h wantHash block = .ok () ↔ block.threadId = threadID ∧
      block.height = h ∧ blockHashFn kind block = block.blockHash ∧ block.blockHash = wantHash := by
  unfold checkBlock
  split
  case isTrue hT => exact ⟨fun h => (by cases h), fun h => absurd h.1 hT⟩
  case isFalse hT =>
    split
    case isTrue hh => exact ⟨fun h => (by cases h), fun h => absurd h.2.1 hh⟩
    case isFalse hh =>
      split
      case isTrue hb => exact ⟨fun h => (by cases h), fun h => absurd h.2.2.1 hb⟩
      case isFalse hb =>
        rw [not_not] at hT hh hb
        split
        case isTrue hw => exact ⟨fun h => (by cases h), fun h => absurd (hb.trans h.2.2.2) hw⟩
        case isFalse hw => exact ⟨fun _ => ⟨hT, hh, hb, hb ▸ not_not.mp hw⟩, fun _ => rfl⟩

variable (kind threadID L head) in
/-- One round of the loop. -/
theorem walk_succ_cases (h : Nat) (wantHash : String) (blocks : List ThreadBlock) (st : σ) :
    (∃ err n, n ≤ 1 ∧ walk kind threadID L head (h + 1) wantHash blocks st = (.error err, n)) ∨
    ∃ ptr st₁ block st₂, pointer threadID L head (h + 1 : Nat) st = (.ok ptr, st₁) ∧
      ptr.blockHash = wantHash ∧ L.fetchBlock ptr.blockCid st₁ = (.ok block, st₂) ∧
      checkBlock (ε := ε) kind threadID (h + 1 : Nat) wantHash block = .ok () ∧
      walk kind threadID L head (h + 1) wantHash blocks st =
        ((walk kind threadID L head h block.parentHash (block :: blocks) st₂).1,
          (walk kind threadID L head h block.parentHash (block :: blocks) st₂).2 + 1) := by
  rw [walk]
  split
  · exact .inl ⟨_, 0, Nat.zero_le _, rfl⟩
  · rename_i ptr st₁ hptr
    split
    · exact .inl ⟨_, 0, Nat.zero_le _, rfl⟩
    · rename_i hwant
      split
      · exact .inl ⟨_, 0, Nat.zero_le _, rfl⟩
      · rename_i block st₂ hfetch
        split
        · exact .inl ⟨_, 1, le_rfl, rfl⟩
        · rename_i hcheck
          exact .inr ⟨ptr, st₁, block, st₂, hptr, not_not.mp hwant, hfetch, hcheck, rfl⟩

/-- **What the loop returns**: below the blocks it has, a chain from the first height on that ends in
the block it wants. -/
theorem walk_eq_ok {h : Nat} {wantHash : String} {blocks bs : List ThreadBlock}
    (hok : (walk kind threadID L head h wantHash blocks st).1 = .ok bs) :
    ∃ below, bs = below ++ blocks ∧ below.length = h ∧ blockLinks.Linked 1 "" below ∧
      blockLinks.tip "" below = wantHash ∧
      ∀ b ∈ below, b.threadId = threadID ∧ blockHashFn kind b = b.blockHash := by
  -- By induction on the height: the block found there goes to the end of the chain below it.
  induction h generalizing wantHash blocks st with
  | zero =>
    rw [walk] at hok
    dsimp only at hok
    split at hok
    · cases hok
    · rename_i hwant
      exact ⟨[], (Except.ok.inj hok).symm, rfl, trivial, (not_not.mp hwant).symm,
        fun _ hb => absurd hb List.not_mem_nil⟩
  | succ h ih =>
    rcases walk_succ_cases kind threadID L head h wantHash blocks st with ⟨err, n, -, herr⟩ | ⟨ptr, st₁, block, st₂, -, -, -, hcheck, hwalk⟩
    · rw [herr] at hok
      cases hok
    · rw [hwalk] at hok
      obtain ⟨hT, hheight, hhash, hwant⟩ := checkBlock_eq_ok.mp hcheck
      obtain ⟨below, rfl, hlen, hlinked, htip, hall⟩ := ih hok
      refine ⟨below ++ [block], by rw [List.append_assoc]; rfl, ?_, ?_, ?_, ?_⟩
      · rw [List.length_append, hlen]
        rfl
      · refine Links.linked_concat.mpr ⟨hlinked, ?_, htip.symm⟩
        change block.height = _
        rw [hheight, hlen]
        omega
      · rw [Links.tip_concat]
        exact hwant
      · intro b hb
        rcases List.mem_append.mp hb with hb | hb
        · exact hall b hb
        · rw [List.mem_singleton.mp hb]
          exact ⟨hT, hhash⟩

theorem verifyChainFromHead_eq_ok {bs : List ThreadBlock}
    (hok : (verifyChainFromHead kind threadID L st).outcome = .returns (.ok bs)) :
    ∃ head st', L.resolveHead threadID st = (.ok head, st') ∧ 0 ≤ head.height ∧
      bs.length = head.height ∧ blockLinks.Linked 1 "" bs ∧ blockLinks.tip "" bs = head.blockHash ∧
      ∀ b ∈ bs, b.threadId = threadID ∧ blockHashFn kind b = b.blockHash := by
  unfold verifyChainFromHead at hok
  split at hok
  · cases hok
  rename_i head st' hhead
  dsimp only at hok
  split at hok
  · cases hok
  rename_i hfits
  obtain ⟨below, rfl, hlen, hlinked, htip, hall⟩ := walk_eq_ok (Outcome.returns.inj hok)
  rw [List.append_nil]
  exact ⟨head, st', hhead, by omega, by omega, hlinked, htip, hall⟩

/-! ## Completeness -/

/-- A pointer leads to a block. -/
def PointsTo (L : Lookups ε σ) (ptr : ThreadHead) (b : ThreadBlock) : Prop :=
  ptr.blockHash = b.blockHash ∧ ∀ st, ∃ st', L.fetchBlock ptr.blockCid st = (.ok b, st')

/-- The callbacks answer from a chain. -/
structure Honest (L : Lookups ε σ) (threadID : String) (bs : List ThreadBlock) : Prop where
  head : ∀ st, ∃ head st', L.resolveHead threadID st = (.ok head, st') ∧ head.height = bs.length ∧
    ∀ b, bs.getLast? = some b → PointsTo L head b
  height : ∀ st, ∀ b ∈ bs, ∃ ptr st', L.resolveHeight threadID b.height st = (.ok ptr, st') ∧
    PointsTo L ptr b

/-- A linked chain whose blocks are all found is walked to its end. -/
theorem walk_of_found {below blocks : List ThreadBlock} (hlinked : blockLinks.Linked 1 "" below)
    (hall : ∀ b ∈ below, b.threadId = threadID ∧ blockHashFn kind b = b.blockHash)
    (hfound : ∀ st, ∀ b ∈ below, ∃ ptr st', pointer threadID L head b.height st = (.ok ptr, st') ∧
      PointsTo L ptr b) :
    (walk kind threadID L head below.length (blockLinks.tip "" below) blocks st).1 =
      .ok (below ++ blocks) := by
  -- The walk starts at the newest block.
  induction below using List.reverseRecOn generalizing blocks st with
  | nil => rfl
  | append_singleton below b ih =>
    obtain ⟨hbelow, hheight, hparent⟩ := Links.linked_concat.mp hlinked
    have hb : b ∈ below ++ [b] := List.mem_append_right _ (List.mem_singleton_self b)
    have hh : b.height = (below.length + 1 : Nat) := by
      change b.height = _ at hheight
      omega
    obtain ⟨ptr, st₁, hptr, hhash, hfetch⟩ := hfound st b hb
    obtain ⟨st₂, hfetch⟩ := hfetch st₁
    rw [hh] at hptr
    have hcheck : checkBlock (ε := ε) kind threadID (below.length + 1 : Nat) b.blockHash b = .ok () :=
      checkBlock_eq_ok.mpr ⟨(hall b hb).1, hh, (hall b hb).2, rfl⟩
    have hrest : (walk kind threadID L head below.length b.parentHash (b :: blocks) st₂).1 =
        .ok (below ++ b :: blocks) := by
      rw [show b.parentHash = _ from hparent]
      exact ih hbelow (fun c hc => hall c (List.mem_append_left _ hc)) fun st c hc =>
        hfound st c (List.mem_append_left _ hc)
    rw [List.length_append, List.length_singleton, Links.tip_concat]
    change (walk kind threadID L head (below.length + 1) b.blockHash blocks st).1 = _
    rw [walk, hptr]
    dsimp only
    rw [if_neg (not_not.mpr hhash), hfetch]
    dsimp only
    rw [hcheck]
    dsimp only
    rw [hrest, List.append_assoc]
    rfl

/-- **`VerifyChainFromHead` is sound and complete**: what it returns is a chain that `VerifyChain`
accepts, from the first block to the head, and from callbacks that answer from such a chain it
returns the chain. -/
theorem verifyChainFromHead_sound_complete (kind : BackendKind) (threadID : String) (L : Lookups ε σ)
    (st : σ) (hpos : ∀ head st', L.resolveHead threadID st = (.ok head, st') → 1 ≤ head.height) :
    (∀ bs, (verifyChainFromHead kind threadID L st).outcome = .returns (.ok bs) →
      ∃ head st', L.resolveHead threadID st = (.ok head, st') ∧ bs.length = head.height ∧
        verifyChain kind bs = .ok () ∧ (∀ b ∈ bs, b.threadId = threadID) ∧
        bs.getLast?.map ThreadBlock.blockHash = some head.blockHash) ∧
    ∀ bs : List ThreadBlock, verifyChain kind bs = .ok () → (∀ b ∈ bs, b.threadId = threadID) →
      bs.length ≤ maxSlots → Honest L threadID bs →
      (verifyChainFromHead kind threadID L st).outcome = .returns (.ok bs) := by
  constructor
  · intro bs hok
    obtain ⟨head, st', hhead, -, hlen, hlinked, htip, hall⟩ := verifyChainFromHead_eq_ok hok
    have hge := hpos head st' hhead
    have hne : bs ≠ [] := by
      rintro rfl
      rw [List.length_nil] at hlen
      omega
    refine ⟨head, st', hhead, hlen, verifyChain_eq_ok.mpr ⟨hne, hlinked, fun b hb => (hall b hb).2⟩,
      fun b hb => (hall b hb).1, ?_⟩
    have hlast := List.getLast?_eq_some_getLast hne
    rw [Links.tip, hlast] at htip
    rw [hlast]
    exact congrArg some htip
  · intro bs hverify hT hfits hhonest
    obtain ⟨hne, hlinked, hhash⟩ := verifyChain_eq_ok.mp hverify
    obtain ⟨head, st', hhead, hheight, hlast⟩ := hhonest.head st
    have hgetLast := List.getLast?_eq_some_getLast hne
    have htop := hlast _ hgetLast
    have hfound : ∀ st, ∀ b ∈ bs, ∃ ptr st', pointer threadID L head b.height st = (.ok ptr, st') ∧
        PointsTo L ptr b := by
      intro st b hb
      unfold pointer
      split
      · -- The one block at the height of the head is the newest.
        rename_i hb'
        obtain ⟨i, hi⟩ := List.mem_iff_getElem?.mp hb
        have hk := hlinked.height_getElem? hi
        change b.height = 1 + (i : Int) at hk
        have hii : i = bs.length - 1 := by omega
        rw [hii, ← List.getLast?_eq_getElem?] at hi
        exact ⟨head, st, rfl, hlast b hi⟩
      · exact hhonest.height st b hb
    have hwalk : (walk kind threadID L head bs.length (blockLinks.tip "" bs) [] st').1 = .ok (bs ++ []) :=
      walk_of_found hlinked (fun b hb => ⟨hT b hb, hhash b hb⟩) hfound
    have htip : blockLinks.tip "" bs = head.blockHash := by
      rw [Links.tip, hgetLast]
      exact htop.1.symm
    unfold verifyChainFromHead
    rw [hhead]
    dsimp only
    rw [if_neg (by omega), hheight, Int.toNat_natCast, ← htip]
    exact congrArg Outcome.returns (hwalk.trans (by rw [List.append_nil]))

/-- Callbacks that answer from a list of blocks. -/
def shelf (bs : List ThreadBlock) : Lookups String Unit :=
  let point (threadID : String) (b : Option ThreadBlock) : Except String ThreadHead × Unit := match b with
    | none => (.error "not found", ())
    | some b => (.ok ⟨threadID, b.height, decimal b.height, b.blockHash, none⟩, ())
  { resolveHead := fun threadID _ => point threadID bs.getLast?
    resolveHeight := fun threadID h _ => point threadID (bs.find? fun b => b.height = h)
    fetchBlock := fun cid _ => match bs.find? fun b => decimal b.height = cid with
      | none => (.error "not found", ())
      | some b => (.ok b, ()) }

/-- A block of the Raft backend without entries, on top of another. -/
def emptyBlock (height : Int) (parentHash : String) : ThreadBlock :=
  let b : ThreadBlock :=
    { threadId := "t", height, round := 1, parentHash, entries := [], proposerDid := "did:key:a",
      proposerSig := "", blockHash := "", committedAt := 1 }
  { b with blockHash := raftBlockHash b }

/-- A chain of two blocks. -/
def twoBlocks : List ThreadBlock := [emptyBlock 1 "", emptyBlock 2 (emptyBlock 1 "").blockHash]

theorem verifyChainFromHead_twoBlocks : verifyChain .raft twoBlocks = .ok () ∧
    (verifyChainFromHead .raft "t" (shelf twoBlocks) ()).outcome = .returns (.ok twoBlocks) ∧
    twoBlocks.getLast?.map ThreadBlock.blockHash = some (emptyBlock 2 (emptyBlock 1 "").blockHash).blockHash := by
  have hverify : verifyChain .raft twoBlocks = .ok () := by decide +kernel
  have hhonest : Honest (shelf twoBlocks) "t" twoBlocks := by
    constructor
    · rintro ⟨⟩
      refine ⟨_, (), rfl, rfl, fun b hb => ?_⟩
      obtain rfl := Option.some.inj hb
      exact ⟨rfl, fun _ => ⟨(), rfl⟩⟩
    · rintro ⟨⟩ b hb
      rcases List.mem_pair.mp hb with rfl | rfl
      · exact ⟨_, (), rfl, rfl, fun _ => ⟨(), rfl⟩⟩
      · exact ⟨_, (), rfl, rfl, fun _ => ⟨(), rfl⟩⟩
  have hmain := verifyChainFromHead_sound_complete .raft "t" (shelf twoBlocks) () <| by
    rintro head ⟨⟩ hhead
    cases hhead
    decide
  have hwalk := hmain.2 twoBlocks hverify (by decide +kernel) (by decide) hhonest
  obtain ⟨head, st', hhead, -, -, -, hlast⟩ := hmain.1 twoBlocks hwalk
  cases hhead
  exact ⟨hverify, hwalk, hlast⟩

/-! ## What a walk costs -/

section Cost

variable (kind threadID L head)

/-- The lookups deliver a block for every height, and all of them but the one for the first height
check out. -/
def Delivers : Nat → String → σ → Prop
  | 0, _, _ => True
  | h + 1, wantHash, st => ∃ ptr st₁ block st₂, pointer threadID L head (h + 1 : Nat) st = (.ok ptr, st₁) ∧
    ptr.blockHash = wantHash ∧ L.fetchBlock ptr.blockCid st₁ = (.ok block, st₂) ∧
    (h = 0 ∨ checkBlock (ε := ε) kind threadID (h + 1 : Nat) wantHash block = .ok () ∧
      Delivers h block.parentHash st₂)

/-- As many blocks are fetched as there are heights exactly if they are all delivered. -/
theorem le_fetched_walk_iff (h : Nat) (wantHash : String) (blocks : List ThreadBlock) (st : σ) :
    h ≤ (walk kind threadID L head h wantHash blocks st).2 ↔
      Delivers kind threadID L head h wantHash st := by
  induction h generalizing wantHash blocks st with
  | zero => exact ⟨fun _ => trivial, fun _ => le_rfl⟩
  | succ h ih =>
    rw [walk, Delivers]
    rcases hptr : pointer threadID L head (h + 1 : Nat) st with ⟨err | ptr, st₁⟩
    · simp
    dsimp only
    by_cases hwant : ptr.blockHash = wantHash
    swap
    · rw [if_pos hwant]
      constructor
      · rintro ⟨⟩
      · rintro ⟨_, _, _, _, hptr', hwant', -⟩
        cases hptr'
        exact absurd hwant' hwant
    rw [if_neg (not_not.mpr hwant)]
    rcases hfetch : L.fetchBlock ptr.blockCid st₁ with ⟨err | block, st₂⟩
    · constructor
      · rintro ⟨⟩
      · rintro ⟨_, _, _, _, hptr', -, hfetch', -⟩
        cases hptr'
        rw [hfetch] at hfetch'
        cases hfetch'
    dsimp only
    rcases hcheck : checkBlock (ε := ε) kind threadID (h + 1 : Nat) wantHash block with err | ⟨⟩
    · -- The last block may fail its checks, it has been fetched by then.
      constructor
      · intro hle
        exact ⟨ptr, st₁, block, st₂, rfl, hwant, hfetch, .inl (Nat.le_zero.mp (Nat.le_of_succ_le_succ hle))⟩
      · rintro ⟨_, _, _, _, hptr', -, hfetch', hlast⟩
        cases hptr'
        rw [hfetch] at hfetch'
        cases hfetch'
        rcases hlast with rfl | ⟨hcheck', -⟩
        · exact le_rfl
        · rw [hcheck] at hcheck'
          cases hcheck'
    · dsimp only
      rw [Nat.succ_le_succ_iff, ih]
      constructor
      · intro hrest
        exact ⟨ptr, st₁, block, st₂, rfl, hwant, hfetch, .inr ⟨hcheck, hrest⟩⟩
      · rintro ⟨_, _, _, _, hptr', -, hfetch', hlast⟩
        cases hptr'
        rw [hfetch] at hfetch'
        cases hfetch'
        rcases hlast with rfl | ⟨-, hrest⟩
        · trivial
        · exact hrest

end Cost

/-- **When a walk costs no more than it fetches**: the head does not claim more blocks than a slice can
have, and a block is delivered for each height it claims. -/
theorem walk_bounded_iff (kind : BackendKind) (threadID : String) (P : Peers σ) {st st' : σ}
    {head : ThreadHead} (hhead : P.resolveHead threadID st = (.ok head, st')) :
    ((verifyChainFromHead kind threadID P.lookups st).outcome ≠ .panics ∧
      (verifyChainFromHead kind threadID P.lookups st).slots ≤
        (verifyChainFromHead kind threadID P.lookups st).fetched) ↔
      head.height ≤ maxSlots ∧
        Delivers kind threadID P.lookups head head.height.toNat head.blockHash st' := by
  have hpos := Peers.height_of_resolveHead hhead
  have hhead' : P.lookups.resolveHead threadID st = (.ok head, st') := hhead
  unfold verifyChainFromHead
  rw [hhead']
  dsimp only
  by_cases hfits : head.height ≤ maxSlots
  swap
  · rw [if_pos (.inr (not_le.mp hfits))]
    exact ⟨fun h => absurd rfl h.1, fun h => absurd h.1 hfits⟩
  rw [if_neg (by omega), ← le_fetched_walk_iff kind threadID P.lookups head head.height.toNat head.blockHash []]
  dsimp only
  rw [Int.toNat_le]
  exact ⟨fun h => ⟨hfits, h.2⟩, fun h => ⟨by rintro ⟨⟩, h.2⟩⟩

/-- Peers that have the chain of two blocks. -/
def stocked : Peers Unit where
  getValue key _ := match twoBlocks.find? fun b =>
      key = (if b.height = 2 then "/threads/t" else "/threads/t/1") with
    | none => (.error "routing: not found", ())
    | some b => (.ok { threadID := "t", height := b.height, blockCid := decimal b.height,
                       blockHash := b.blockHash, thread := none }, ())
  getBlock cid _ := match twoBlocks.find? fun b => cid = decimal b.height with
    | none => (.error "not found", ())
    | some b => (.ok b, ())
  decodes _ := true

theorem walk_bounded_stocked :
    (verifyChainFromHead .raft "t" stocked.lookups ()).outcome ≠ .panics ∧
      (verifyChainFromHead .raft "t" stocked.lookups ()).slots ≤
        (verifyChainFromHead .raft "t" stocked.lookups ()).fetched := by
  have hhead : stocked.resolveHead "t" () =
      (.ok ⟨"t", 2, "2", (emptyBlock 2 (emptyBlock 1 "").blockHash).blockHash, none⟩, ()) := rfl
  refine (walk_bounded_iff .raft "t" stocked hhead).mpr ⟨by decide, ?_⟩
  refine ⟨_, (), emptyBlock 2 (emptyBlock 1 "").blockHash, (), rfl, rfl, rfl, .inr ⟨by decide +kernel, ?_⟩⟩
  exact ⟨⟨"t", 1, "1", (emptyBlock 1 "").blockHash, none⟩, (), emptyBlock 1 "", (), rfl, rfl, rfl, .inl rfl⟩

/-- Peers that have a head of some height and no block. -/
def boast (height : Int) : Peers Unit where
  getValue _ _ := (.ok { threadID := "t", height, blockCid := "bafy", blockHash := "aa", thread := none }, ())
  getBlock _ _ := (.error "not found", ())
  decodes _ := true

/-- **A head can claim any height**: it passes the validator and the lookup, and the walk panics, or it
makes a slice of eight terabytes and fetches nothing. -/
theorem boast_is_believed :
    ((boast (2 ^ 62)).resolveHead "t" ()).1.isOk ∧
    (verifyChainFromHead .raft "t" (boast (2 ^ 62)).lookups ()).outcome = .panics ∧
    ((boast (2 ^ 40)).resolveHead "t" ()).1.isOk ∧
    (verifyChainFromHead .raft "t" (boast (2 ^ 40)).lookups ()).slots = 2 ^ 40 ∧
    (verifyChainFromHead .raft "t" (boast (2 ^ 40)).lookups ()).fetched = 0 := by
  refine ⟨?_, ?_, ?_, ?_, ?_⟩ <;> decide +kernel

end MoltMesh
