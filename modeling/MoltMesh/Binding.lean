import MoltMesh.Chain
import MoltMesh.Lib.Reading

/-!
# What a block hash binds

The text each backend hashes, and what of a block can be read back from it.  Raft writes the
entries of a block one after another without a mark between them, Tendermint writes five of
their twelve fields, and both put colons between fields that may have colons.  `Ambiguous` says
what this leaves open, and it is all that two blocks of one thread with the same hash can
differ in (`block_hash_binds_iff`).
-/

namespace MoltMesh

open MoltMesh.Lib Pb

variable {F : List Char → Prop} {e : ThreadEntry}

/-- The bytes a backend hashes of a block. -/
def preimage (kind : BackendKind) (b : ThreadBlock) : List UInt8 :=
  if kind = .tendermint then bytes (rawBlock b)
  else bytes (fields ["raft", b.threadId, decimal b.height, decimal b.round.toInt, b.parentHash,
    b.proposerDid, ""]) ++ b.entries.flatMap marshalEntry

theorem blockHashFn_eq (kind : BackendKind) (b : ThreadBlock) :
    blockHashFn kind b = hexEncode (Sha256.sum256 (preimage kind b)) := by
  unfold blockHashFn preimage
  split <;> rfl

/-- Two blocks have the same height, round, parent, proposer and entries. -/
def SameContents (a b : ThreadBlock) : Prop :=
  a.height = b.height ∧ a.round = b.round ∧ a.parentHash = b.parentHash ∧
    a.proposerDid = b.proposerDid ∧ a.entries = b.entries

instance (a b : ThreadBlock) : Decidable (SameContents a b) := inferInstanceAs (Decidable (_ ∧ _))

/-! ## Entries of the Tendermint backend -/

theorem reads_jsonBytes : Reads F (fun _ => True) (fun bs => (jsonBytes bs).toList) id := by
  have hnull : "null".toList = ['n', 'u', 'l', 'l'] := rfl
  intro a b x y _ _ hx hy h
  unfold jsonBytes at h
  dsimp only at h
  split at h <;> split at h
  · rename_i ha hb
    exact ⟨ha.trans hb.symm, List.append_cancel_left h⟩
  · rw [hnull, String.toList_ofList] at h
    exact absurd (List.cons.inj h).1 (by decide)
  · rw [hnull, String.toList_ofList] at h
    exact absurd (List.cons.inj h).1 (by decide)
  · rw [String.toList_ofList, String.toList_ofList] at h
    exact reads_base64 trivial trivial hx hy (List.cons.inj h).2

/-- An object of five members. -/
def members (k₁ k₂ k₃ k₄ k₅ k₆ : String) (e : EntryJSON) : String :=
  k₁ ++ jsonString e.authorDid ++ k₂ ++ jsonBytes e.payload ++ k₃ ++ jsonString e.kind ++ k₄ ++
    jsonString e.authorSig ++ k₅ ++ decimal e.submittedAt ++ k₆

/-- An object determines its members, if the number at the end is followed by another character. -/
theorem reads_members (k₁ k₂ k₃ k₄ k₅ k₆ : String) {c : Char} {rest : List Char}
    (hk : k₆.toList = c :: rest) (hc : ¬(c.isDigit ∨ c = '-')) :
    Reads F (fun _ => True) (fun e => (members k₁ k₂ k₃ k₄ k₅ k₆ e).toList) id := by
  have htext (get : EntryJSON → String) :
      Reads (fun _ => True) (fun _ => True) (fun e => (jsonString (get e)).toList) get :=
    reads_jsonString.comp get fun _ _ => trivial
  have hpayload : Reads (fun _ => True) (fun _ => True) (fun e : EntryJSON => (jsonBytes e.payload).toList)
      EntryJSON.payload :=
    reads_jsonBytes.comp EntryJSON.payload fun _ _ => trivial
  have hnumber := reads_decimal.comp EntryJSON.submittedAt fun _ (_ : True) => trivial
  have hconst (s : String) : Reads (fun _ => True) (fun _ : EntryJSON => True) (fun _ => s.toList) fun _ => () :=
    .const _
  have hread := ((((((((hconst k₁).andThen (htext EntryJSON.authorDid)).andThen (hconst k₂)).andThen
    hpayload).andThen (hconst k₃)).andThen (htext EntryJSON.kind)).andThen (hconst k₄)).andThen
    (htext EntryJSON.authorSig)).andThen (hconst k₅)
  have hall : Reads F _ _ _ := (hread.andThen hnumber).seq (.const k₆.toList) (by
    intro _ x _ _ d hd
    rw [hk] at hd
    obtain rfl := Option.some.inj hd
    exact hc)
  intro a b x y _ _ hx hy h
  simp only [members, String.toList_append] at h
  obtain ⟨hfields, hxy⟩ := hall trivial trivial hx hy h
  simp only [Prod.mk.injEq, id, and_true, true_and] at hfields
  obtain ⟨⟨⟨⟨h₁, h₂⟩, h₃⟩, h₄⟩, h₅⟩ := hfields
  refine ⟨?_, hxy⟩
  cases a
  cases b
  simp only [id, EntryJSON.mk.injEq]
  exact ⟨h₁, h₂, h₃, h₄, h₅⟩

theorem members_toList_head (k₁ k₂ k₃ k₄ k₅ k₆ : String) (e : EntryJSON) {c : Char} {rest : List Char}
    (hk : k₁.toList = c :: rest) : ∃ rest, (members k₁ k₂ k₃ k₄ k₅ k₆ e).toList = c :: rest := by
  simp only [members, String.toList_append, hk, List.cons_append]
  exact ⟨_, rfl⟩

/-- The JSON object of an entry determines its five fields. -/
theorem reads_json : Reads F (fun _ => True) (fun e : EntryJSON => e.json.toList) id :=
  reads_members _ _ _ _ _ "\x7d" rfl (by decide)

theorem entriesJSON_eq_iff {l m : List ThreadEntry} :
    entriesJSON l = entriesJSON m ↔ marshalEntries l = marshalEntries m := by
  constructor
  · intro h
    have hlist := congrArg String.toList h
    have hbracket (s : String) : ("[" ++ s ++ "]").toList = '[' :: (s.toList ++ [']']) := by
      rw [String.toList_append, String.toList_append]
      rfl
    rw [entriesJSON, entriesJSON, hbracket, hbracket, String.toList_intercalate, String.toList_intercalate,
      List.map_map, List.map_map] at hlist
    have hread := (reads_json (F := Starts [',', ']'])).intercalate (by decide) (by
      intro e _
      obtain ⟨rest, hhead⟩ := members_toList_head "\x7b\"author_did\":" _ _ _ _ _ e rfl
      exact ⟨'\x7b', rest, hhead, by decide⟩)
    have hentries := (hread (fun _ _ => trivial) (fun _ _ => trivial) ⟨[], rfl⟩ ⟨[], rfl⟩
      (List.cons.inj hlist).2).1
    simpa using hentries
  · intro h
    rw [entriesJSON, entriesJSON, h]

/-! ## Entries of the Raft backend -/

/-- The numbers and lengths of an entry are such as its types have. -/
structure Fits (e : ThreadEntry) : Prop where
  authorDid : (bytes e.authorDid).length < 2 ^ 64
  payload : e.payload.length < 2 ^ 64
  kind : (bytes e.kind).length < 2 ^ 64
  authorSig : (bytes e.authorSig).length < 2 ^ 64
  submittedAt : -2 ^ 63 ≤ e.submittedAt ∧ e.submittedAt < 2 ^ 63
  encodingVersion : e.encodingVersion < 2 ^ 32
  sequence : e.sequence < 2 ^ 64
  previousBlockHash : e.previousBlockHash.length < 2 ^ 64
  membershipEpoch : e.membershipEpoch < 2 ^ 64
  encryptionEpoch : e.encryptionEpoch < 2 ^ 64
  nonce : e.nonce.length < 2 ^ 64
  authorSignature : e.authorSignature.length < 2 ^ 64

/-- A field of an encoded entry with its number. -/
inductive Item
  | text (field : Nat) (bs : List UInt8)
  | number (field : Nat) (n : Int)
deriving DecidableEq

namespace Item

/-- The bytes of a field. -/
def encode : Item → List UInt8
  | text field bs => protoBytes field bs
  | number field n => protoInt field n

/-- The field is not left out. -/
def present : Item → Bool
  | text _ bs => bs ≠ []
  | number _ n => n ≠ 0

/-- The numbers of a field; the time is the one that may be negative. -/
def Proper : Item → Prop
  | text field bs => 8 * field + 2 < 128 ∧ bs ≠ [] ∧ bs.length < 2 ^ 64
  | number field n => 8 * field < 128 ∧ n ≠ 0 ∧
    (if field = 5 then -2 ^ 63 else 0) ≤ n ∧ n < (if field = 5 then -2 ^ 63 else 0) + 2 ^ 64

end Item

/-- The fields of an entry that are written, in their order. -/
def items (e : ThreadEntry) : List Item :=
  [.text 1 (bytes e.authorDid), .text 2 e.payload, .text 3 (bytes e.kind), .text 4 (bytes e.authorSig),
    .number 5 e.submittedAt, .number 6 e.encodingVersion, .number 7 e.sequence,
    .text 8 e.previousBlockHash, .number 9 e.membershipEpoch, .number 10 e.encryptionEpoch,
    .text 11 e.nonce, .text 12 e.authorSignature].filter Item.present

theorem flatMap_filter_present (l : List Item) : (l.filter Item.present).flatMap Item.encode =
    l.flatMap Item.encode := by
  induction l with
  | nil => rfl
  | cons i l ih =>
    cases hi : i.present with
    | true => rw [List.filter_cons_of_pos hi, List.flatMap_cons, List.flatMap_cons, ih]
    | false =>
      have hnil : i.encode = [] := by
        cases i with
        | text field bs => exact if_pos (not_not.mp (of_decide_eq_false hi))
        | number field n => exact if_pos (not_not.mp (of_decide_eq_false hi))
      rw [List.filter_cons_of_neg (by simp [hi]), List.flatMap_cons, hnil, ih]
      rfl

theorem marshalEntry_eq (e : ThreadEntry) : marshalEntry e = (items e).flatMap Item.encode := by
  rw [items, flatMap_filter_present]
  simp [marshalEntry, Item.encode]

theorem flatMap_marshalEntry (l : List ThreadEntry) :
    l.flatMap marshalEntry = (l.flatMap items).flatMap Item.encode := by
  rw [List.flatMap_assoc]
  exact congrArg (l.flatMap ·) (funext marshalEntry_eq)

theorem Fits.proper (h : Fits e) {i : Item} (hi : i ∈ items e) : i.Proper := by
  obtain ⟨hmem, hpresent⟩ := List.mem_filter.mp hi
  have htext {field : Nat} {bs : List UInt8} (hfield : 8 * field + 2 < 128) (hbs : bs.length < 2 ^ 64)
      (hp : (Item.text field bs).present = true) : (Item.text field bs).Proper :=
    ⟨hfield, of_decide_eq_true hp, hbs⟩
  have hnat {field n k : Nat} (hfield : field ≠ 5) (hlt : 8 * field < 128) (hn : n < 2 ^ k) (hk : k ≤ 64)
      (hp : (Item.number field n).present = true) : (Item.number field n).Proper := by
    have hpow : 2 ^ k ≤ 2 ^ 64 := Nat.pow_le_pow_right (by decide) hk
    refine ⟨hlt, of_decide_eq_true hp, ?_⟩
    rw [if_neg hfield]
    omega
  simp only [List.mem_cons, List.not_mem_nil, or_false] at hmem
  rcases hmem with rfl | rfl | rfl | rfl | rfl | rfl | rfl | rfl | rfl | rfl | rfl | rfl
  · exact htext (by decide) h.authorDid hpresent
  · exact htext (by decide) h.payload hpresent
  · exact htext (by decide) h.kind hpresent
  · exact htext (by decide) h.authorSig hpresent
  · exact ⟨by decide, of_decide_eq_true hpresent, h.submittedAt.1, by have := h.submittedAt.2; simp; omega⟩
  · exact hnat (by decide) (by decide) h.encodingVersion (by decide) hpresent
  · exact hnat (by decide) (by decide) h.sequence le_rfl hpresent
  · exact htext (by decide) h.previousBlockHash hpresent
  · exact hnat (by decide) (by decide) h.membershipEpoch le_rfl hpresent
  · exact hnat (by decide) (by decide) h.encryptionEpoch le_rfl hpresent
  · exact htext (by decide) h.nonce hpresent
  · exact htext (by decide) h.authorSignature hpresent

/-- The tag of a field tells its number and its kind, and the value tells where it ends. -/
theorem reads_encode {F : List UInt8 → Prop} : Reads F Item.Proper Item.encode id := by
  have htag {i j : Nat} (hi : i < 128) (hj : j < 128) (h : UInt8.ofNat i = UInt8.ofNat j) : i = j := by
    have hn := congrArg UInt8.toNat h
    rw [UInt8.toNat_ofNat', UInt8.toNat_ofNat'] at hn
    omega
  have htext {field : Nat} {bs : List UInt8} (h : (Item.text field bs).Proper) :
      (Item.text field bs).encode = UInt8.ofNat (8 * field + 2) :: (varint bs.length ++ bs) := by
    rw [Item.encode, protoBytes, if_neg h.2.1, varint_of_lt h.1]
    rfl
  have hnumber {field : Nat} {n : Int} (h : (Item.number field n).Proper) :
      (Item.number field n).encode =
        UInt8.ofNat (8 * field) :: varint (n % 18446744073709551616).toNat := by
    rw [Item.encode, protoInt, if_neg h.2.1, varint_of_lt h.1]
    rfl
  rintro (⟨f, a⟩ | ⟨f, m⟩) (⟨g, b⟩ | ⟨g, n⟩) x y ha hb hx hy h
  · rw [htext ha, htext hb] at h
    obtain ⟨hhead, -⟩ := List.cons.inj h
    have hfg : f = g := by have := htag ha.1 hb.1 hhead; omega
    subst hfg
    rw [← htext ha, ← htext hb] at h
    obtain ⟨rfl, hxy⟩ := reads_protoBytes_of_ne ha.1 ha.2 hb.2 hx hy h
    exact ⟨rfl, hxy⟩
  · rw [htext ha, hnumber hb] at h
    have := htag ha.1 hb.1 (List.cons.inj h).1
    omega
  · rw [hnumber ha, htext hb] at h
    have := htag ha.1 hb.1 (List.cons.inj h).1
    omega
  · rw [hnumber ha, hnumber hb] at h
    obtain ⟨hhead, hrest⟩ := List.cons.inj h
    have hfg : f = g := by have := htag ha.1 hb.1 hhead; omega
    subst hfg
    have hmod (i : Int) : (i % 18446744073709551616).toNat < 2 ^ 64 := by omega
    obtain ⟨hmn, hxy⟩ := reads_varint (F := fun _ => True) (hmod m) (hmod n) trivial trivial hrest
    obtain ⟨-, -, hm⟩ := ha
    obtain ⟨-, -, hn⟩ := hb
    simp only [id] at hmn ⊢
    refine ⟨congrArg (Item.number f) ?_, hxy⟩
    generalize (if f = 5 then (-2 ^ 63 : Int) else 0) = lo at hm hn
    omega

/-- **What the bytes of a list of entries tell**: its fields in their order, and not where one entry
ends and the next begins. -/
theorem flatMap_marshalEntry_eq_iff {l m : List ThreadEntry} (hl : ∀ e ∈ l, Fits e) (hm : ∀ e ∈ m, Fits e) :
    l.flatMap marshalEntry = m.flatMap marshalEntry ↔ l.flatMap items = m.flatMap items := by
  have hproper {l : List ThreadEntry} (hl : ∀ e ∈ l, Fits e) : ∀ i ∈ l.flatMap items, i.Proper := by
    intro i hi
    obtain ⟨e, he, hie⟩ := List.mem_flatMap.mp hi
    exact (hl e he).proper hie
  have hne (i : Item) (hi : i.Proper) : i.encode ≠ [] := by
    cases i with
    | text field bs =>
      rw [Item.encode, protoBytes, if_neg hi.2.1, varint_of_lt hi.1]
      exact List.cons_ne_nil _ _
    | number field n =>
      rw [Item.encode, protoInt, if_neg hi.2.1, varint_of_lt hi.1]
      exact List.cons_ne_nil _ _
  rw [flatMap_marshalEntry, flatMap_marshalEntry]
  constructor
  · intro h
    have hread := (reads_encode (F := fun _ => True)).flatMap hne trivial (fun _ _ _ _ => trivial) _ _
      (hproper hl) (hproper hm) h
    simpa using hread
  · intro h
    rw [h]

/-! ## Blocks -/

/-- The colon. -/
def colon : UInt8 := 58

theorem bytes_fields_cons {a : String} {l : List String} (hl : l ≠ []) :
    bytes (fields (a :: l)) = bytes a ++ colon :: bytes (fields l) := by
  rw [fields_cons hl, bytes_append, bytes_append]
  rfl

/-- What is hashed of a block after its parent hash. -/
def rest (kind : BackendKind) (b : ThreadBlock) : List UInt8 :=
  if kind = .tendermint then bytes (hexEncode (bytes (entriesJSON b.entries))) ++ colon :: bytes b.proposerDid
  else bytes b.proposerDid ++ colon :: b.entries.flatMap marshalEntry

/-- What is hashed before the height. -/
def front (kind : BackendKind) (threadID : String) : List UInt8 :=
  (if kind = .tendermint then [] else bytes "raft" ++ [colon]) ++ bytes threadID ++ [colon]

theorem preimage_eq (kind : BackendKind) (b : ThreadBlock) : preimage kind b = front kind b.threadId ++
    (bytes (decimal b.height) ++ colon :: (bytes (decimal b.round.toInt) ++ colon ::
      (bytes b.parentHash ++ colon :: rest kind b))) := by
  unfold preimage front rest rawBlock
  split
  · repeat rw [bytes_fields_cons (List.cons_ne_nil _ _)]
    simp [fields]
  · have hempty : bytes (fields [""]) = [] := rfl
    repeat rw [bytes_fields_cons (List.cons_ne_nil _ _)]
    simp [hempty]

/-- What the part of the text after the parent hash leaves open.  Tendermint does not write all fields
of an entry; Raft does not write where entries end, and the DID of the proposer may go on into the
entries. -/
def RestAmbiguous (kind : BackendKind) (a b : ThreadBlock) : Prop :=
  if kind = .tendermint then a.proposerDid = b.proposerDid ∧
    marshalEntries a.entries = marshalEntries b.entries ∧ a.entries ≠ b.entries
  else
    Recut colon (bytes a.proposerDid) (a.entries.flatMap marshalEntry)
      (bytes b.proposerDid) (b.entries.flatMap marshalEntry) ∨
    Recut colon (bytes b.proposerDid) (b.entries.flatMap marshalEntry)
      (bytes a.proposerDid) (a.entries.flatMap marshalEntry) ∨
    a.proposerDid = b.proposerDid ∧ a.entries.flatMap items = b.entries.flatMap items ∧
      a.entries ≠ b.entries

/-- What the hashed text leaves open: at one height and round, one parent hash goes on, after a colon,
where the other ends, or the parents are the same and what follows is ambiguous. -/
def Ambiguous (kind : BackendKind) (a b : ThreadBlock) : Prop :=
  a.height = b.height ∧ a.round = b.round ∧
    (Recut colon (bytes a.parentHash) (rest kind a) (bytes b.parentHash) (rest kind b) ∨
      Recut colon (bytes b.parentHash) (rest kind b) (bytes a.parentHash) (rest kind a) ∨
      a.parentHash = b.parentHash ∧ RestAmbiguous kind a b)

section Blocks

variable {kind : BackendKind} {a b : ThreadBlock}

theorem preimage_eq_iff (ht : a.threadId = b.threadId) : preimage kind a = preimage kind b ↔
    a.height = b.height ∧ a.round = b.round ∧
      bytes a.parentHash ++ colon :: rest kind a = bytes b.parentHash ++ colon :: rest kind b := by
  rw [preimage_eq, preimage_eq, ht]
  constructor
  · intro h
    obtain ⟨hheight, h⟩ := bytes_field_inj (noColon_decimal _) (noColon_decimal _) (List.append_cancel_left h)
    obtain ⟨hround, h⟩ := bytes_field_inj (noColon_decimal _) (noColon_decimal _) h
    exact ⟨decimal_injective hheight, Int32.toInt_inj.mp (decimal_injective hround), h⟩
  · rintro ⟨hheight, hround, h⟩
    rw [hheight, hround, h]

theorem rest_eq_iff (ha : ∀ e ∈ a.entries, Fits e) (hb : ∀ e ∈ b.entries, Fits e) :
    rest kind a = rest kind b ↔
      (a.proposerDid = b.proposerDid ∧ a.entries = b.entries) ∨ RestAmbiguous kind a b := by
  unfold rest RestAmbiguous
  split
  · constructor
    · intro h
      obtain ⟨hjson, hdid⟩ := bytes_field_inj (noColon_hexEncode _) (noColon_hexEncode _) h
      have hentries := entriesJSON_eq_iff.mp (bytes_injective (hexEncode_injective hjson))
      by_cases hsame : a.entries = b.entries
      · exact .inl ⟨bytes_injective hdid, hsame⟩
      · exact .inr ⟨bytes_injective hdid, hentries, hsame⟩
    · rintro (⟨hdid, hentries⟩ | ⟨hdid, hentries, -⟩)
      · rw [hdid, hentries]
      · rw [hdid, entriesJSON_eq_iff.mpr hentries]
  · rw [append_cons_eq_iff, flatMap_marshalEntry_eq_iff ha hb, bytes_injective.eq_iff]
    by_cases hsame : a.entries = b.entries
    · simp [hsame]
    · simp [hsame]
      tauto

/-- Blocks that are ambiguous differ. -/
theorem Ambiguous.not_sameContents (h : Ambiguous kind a b) : ¬SameContents a b := by
  rintro ⟨-, -, hparent, hdid, hentries⟩
  obtain ⟨-, -, hcut | hcut | ⟨-, hrest⟩⟩ := h
  · exact hcut.ne (congrArg bytes hparent)
  · exact hcut.ne (congrArg bytes hparent.symm)
  · unfold RestAmbiguous at hrest
    split at hrest
    · exact hrest.2.2 hentries
    · rcases hrest with hcut | hcut | ⟨-, -, hne⟩
      · exact hcut.ne (congrArg bytes hdid)
      · exact hcut.ne (congrArg bytes hdid.symm)
      · exact hne hentries

/-- The texts of two blocks of a thread are the same if the blocks are, or if they are ambiguous. -/
theorem preimage_eq_iff_ambiguous (ht : a.threadId = b.threadId) (ha : ∀ e ∈ a.entries, Fits e)
    (hb : ∀ e ∈ b.entries, Fits e) :
    preimage kind a = preimage kind b ↔ SameContents a b ∨ Ambiguous kind a b := by
  rw [preimage_eq_iff ht, append_cons_eq_iff, rest_eq_iff ha hb, bytes_injective.eq_iff, SameContents, Ambiguous]
  tauto

/-- **What a block hash binds**: two blocks of one thread with the same hash have the same contents,
exactly if they are not ambiguous. -/
theorem block_hash_binds_iff (kind : BackendKind) (ht : a.threadId = b.threadId)
    (ha : ∀ e ∈ a.entries, Fits e) (hb : ∀ e ∈ b.entries, Fits e)
    (hcf : Sha256.sum256 (preimage kind a) = Sha256.sum256 (preimage kind b) →
      preimage kind a = preimage kind b) :
    (blockHashFn kind a = blockHashFn kind b → SameContents a b) ↔ ¬Ambiguous kind a b := by
  have hpre : preimage kind a = preimage kind b ↔ _ := preimage_eq_iff_ambiguous ht ha hb
  have hhash : blockHashFn kind a = blockHashFn kind b ↔ preimage kind a = preimage kind b := by
    rw [blockHashFn_eq, blockHashFn_eq, hexEncode_injective.eq_iff]
    exact ⟨hcf, congrArg _⟩
  rw [hhash, hpre]
  constructor
  · intro h hamb
    exact hamb.not_sameContents (h (.inr hamb))
  · rintro h (hsame | hamb)
    · exact hsame
    · exact absurd hamb h

end Blocks

/-! ## Blocks as the backends make them -/

/-- An entry with an author, of which the encoding shows where it begins. -/
def Authored (e : ThreadEntry) : Prop := e.authorDid ≠ "" ∧ Fits e

theorem Authored.bytes_ne_nil (h : Authored e) : bytes e.authorDid ≠ [] :=
  fun hnil => h.1 (bytes_injective hnil)

/-- Number and kind of a field. -/
def Item.key : Item → Nat × Bool
  | text field _ => (field, true)
  | number field _ => (field, false)

/-- Fields that are left out can be put back, since no two have one number. -/
theorem filter_present_inj {l m : List Item} (hkeys : l.map Item.key = m.map Item.key) (hnodup : (l.map Item.key).Nodup)
    (h : l.filter Item.present = m.filter Item.present) : l = m := by
  induction l generalizing m with
  | nil => exact (List.map_eq_nil_iff.mp hkeys.symm).symm
  | cons i l ih =>
    obtain _ | ⟨j, m⟩ := m
    · cases hkeys
    obtain ⟨hkey, hrest⟩ := List.cons.inj hkeys
    obtain ⟨hnew, hnodup'⟩ := List.nodup_cons.mp hnodup
    have hmiss {k : Item} {n : List Item} (hk : k.key = i.key) (hn : n.map Item.key = l.map Item.key) :
        k ∉ n.filter Item.present :=
      fun hmem => hnew (hn ▸ hk ▸ List.mem_map_of_mem (List.mem_filter.mp hmem).1)
    cases hi : i.present <;> cases hj : j.present
    · have hij : i = j := by
        cases i <;> cases j <;> simp_all [Item.key, Item.present]
      rw [List.filter_cons_of_neg (by simp [hi]), List.filter_cons_of_neg (by simp [hj])] at h
      rw [hij, ih hrest hnodup' h]
    · rw [List.filter_cons_of_neg (by simp [hi]), List.filter_cons_of_pos hj] at h
      exact absurd (h ▸ List.mem_cons_self) (hmiss hkey.symm rfl)
    · rw [List.filter_cons_of_pos hi, List.filter_cons_of_neg (by simp [hj])] at h
      exact absurd (h ▸ List.mem_cons_self) (hmiss rfl hrest.symm)
    · rw [List.filter_cons_of_pos hi, List.filter_cons_of_pos hj] at h
      obtain ⟨hij, htail⟩ := List.cons.inj h
      rw [hij, ih hrest hnodup' htail]

theorem items_injective : Function.Injective items := by
  intro a b h
  unfold items at h
  have hfields := filter_present_inj (by rfl) (by simp [Item.key]) h
  simp only [List.cons.injEq, Item.text.injEq, Item.number.injEq, Nat.cast_inj, true_and, and_true] at hfields
  obtain ⟨hauthor, hpayload, hkind, hsig, hrest⟩ := hfields
  cases a
  cases b
  rw [ThreadEntry.mk.injEq]
  exact ⟨bytes_injective hauthor, hpayload, bytes_injective hkind, bytes_injective hsig, hrest⟩

/-- The first field of an entry with an author, which no other of its fields is taken for. -/
theorem Authored.items_eq (h : Authored e) :
    ∃ rest, items e = [.text 1 (bytes e.authorDid)] ++ rest ∧ ∀ i ∈ rest, i.key.1 ≠ 1 := by
  have hfirst : (Item.text 1 (bytes e.authorDid)).present = true := decide_eq_true h.bytes_ne_nil
  unfold items
  rw [List.filter_cons_of_pos hfirst]
  refine ⟨_, List.singleton_append.symm, fun i hi => ?_⟩
  have hmem := (List.mem_filter.mp hi).1
  simp only [List.mem_cons, List.not_mem_nil, or_false] at hmem
  rcases hmem with rfl | rfl | rfl | rfl | rfl | rfl | rfl | rfl | rfl | rfl | rfl <;> simp [Item.key]

/-- Entries with authors are told apart. -/
theorem flatMap_items_inj {l m : List ThreadEntry} (hl : ∀ e ∈ l, Authored e) (hm : ∀ e ∈ m, Authored e)
    (h : l.flatMap items = m.flatMap items) : l = m := by
  -- What comes after an entry begins with the first field of another.
  have hread : Reads (fun x => ∀ i ∈ x.head?, i.key.1 = 1) Authored items id := by
    intro a b x y ha hb hx hy heq
    obtain ⟨rest, hitems, hrest⟩ := ha.items_eq
    obtain ⟨rest', hitems', hrest'⟩ := hb.items_eq
    rw [hitems, hitems', List.append_assoc, List.append_assoc] at heq
    obtain ⟨hfirst, htail⟩ := List.append_inj heq rfl
    obtain ⟨hsame, hxy⟩ := Reads.word (p := fun l : List Item => ∀ i ∈ l, i.key.1 ≠ 1) (f := id) (π := id) (fun _ h => h)
      (fun _ _ _ _ h => h) hrest hrest' (fun i hi => not_not.mpr (hx i hi)) (fun i hi => not_not.mpr (hy i hi)) htail
    refine ⟨items_injective (?_ : items a = items b), hxy⟩
    rw [hitems, hitems', hfirst]
    exact congrArg _ hsame
  have hmap := hread.flatMap
    (fun e he => by
      obtain ⟨rest, hitems, -⟩ := he.items_eq
      rw [hitems]
      exact List.cons_ne_nil _ _)
    (by rintro i ⟨⟩)
    (fun e x he _ => by
      obtain ⟨rest, hitems, -⟩ := he.items_eq
      rw [hitems]
      rintro i ⟨⟩
      rfl)
    l m hl hm h
  simpa using hmap

/-- A block such as the backend makes: the parent is a hash or none, the proposer's DID is a
`did:key`, which has two colons, and the entries are those the backend writes in full. -/
structure Regular (kind : BackendKind) (b : ThreadBlock) : Prop where
  parentHash : (bytes b.parentHash).count colon = 0
  proposerDid : (bytes b.proposerDid).count colon = 2
  entries : ∀ e ∈ b.entries, if kind = .tendermint then FiveFields e else Authored e

theorem Regular.not_ambiguous {kind : BackendKind} {a b : ThreadBlock} (ha : Regular kind a)
    (hb : Regular kind b) : ¬Ambiguous kind a b := by
  have hparent := ha.parentHash.trans hb.parentHash.symm
  have hdid := ha.proposerDid.trans hb.proposerDid.symm
  rintro ⟨-, -, hcut | hcut | ⟨-, hrest⟩⟩
  · exact not_recut_of_count_eq hparent hcut
  · exact not_recut_of_count_eq hparent.symm hcut
  unfold RestAmbiguous at hrest
  split at hrest
  case isTrue hkind =>
    obtain ⟨-, hentries, hne⟩ := hrest
    have hfive {b : ThreadBlock} (hb : Regular kind b) : unmarshalEntries (marshalEntries b.entries) = b.entries :=
      unmarshalEntries_marshalEntries fun e he => by simpa [hkind] using hb.entries e he
    exact hne (by rw [← hfive ha, hentries, hfive hb])
  case isFalse hkind =>
    rcases hrest with hcut | hcut | ⟨-, hitems, hne⟩
    · exact not_recut_of_count_eq hdid hcut
    · exact not_recut_of_count_eq hdid.symm hcut
    · have hauthored {b : ThreadBlock} (hb : Regular kind b) : ∀ e ∈ b.entries, Authored e :=
        fun e he => by simpa [hkind] using hb.entries e he
      exact hne (flatMap_items_inj (hauthored ha) (hauthored hb) hitems)

/-! ## Blocks that are taken for one another -/

/-- A block with the given entries. -/
def blockOf (entries : List ThreadEntry) : ThreadBlock :=
  { threadId := "t", height := 1, round := 1, parentHash := "", entries, proposerDid := "did:key:a",
    proposerSig := "", blockHash := "", committedAt := 1 }

/-- A short entry. -/
def note (author kind : String) (nonce : List UInt8) : ThreadEntry :=
  { authorDid := author, payload := [], kind, authorSig := "", submittedAt := 0, nonce }

/-- **Different blocks have one hash**: under Raft an entry that is written as two, under Tendermint an
entry with another nonce. -/
theorem hashes_collide :
    (blockHashFn .raft (blockOf [note "a" "k" []]) = blockHashFn .raft (blockOf [note "a" "" [], note "" "k" []]) ∧
      ¬SameContents (blockOf [note "a" "k" []]) (blockOf [note "a" "" [], note "" "k" []])) ∧
    (blockHashFn .tendermint (blockOf [note "a" "k" [1]]) = blockHashFn .tendermint (blockOf [note "a" "k" [2]]) ∧
      ¬SameContents (blockOf [note "a" "k" [1]]) (blockOf [note "a" "k" [2]])) :=
  ⟨⟨rfl, by decide⟩, rfl, by decide⟩

/-- Blocks with different nonces are told apart under Raft. -/
theorem block_hash_binds_notes :
    ¬Ambiguous .raft (blockOf [note "a" "k" []]) (blockOf [note "a" "k" [1]]) ∧
    (blockHashFn .raft (blockOf [note "a" "k" []]) = blockHashFn .raft (blockOf [note "a" "k" [1]]) →
      SameContents (blockOf [note "a" "k" []]) (blockOf [note "a" "k" [1]])) := by
  have hfits₀ : ∀ e ∈ (blockOf [note "a" "k" []]).entries, Fits e := by
    intro e he
    rw [List.mem_singleton.mp he]
    constructor <;> decide
  have hfits₁ : ∀ e ∈ (blockOf [note "a" "k" [1]]).entries, Fits e := by
    intro e he
    rw [List.mem_singleton.mp he]
    constructor <;> decide
  have hauthored {nonce : List UInt8} (h : ∀ e ∈ (blockOf [note "a" "k" nonce]).entries, Fits e) :
      Regular .raft (blockOf [note "a" "k" nonce]) := by
    refine ⟨show (bytes "").count colon = 0 by decide, show (bytes "did:key:a").count colon = 2 by decide, ?_⟩
    intro e he
    refine ⟨?_, h e he⟩
    rw [List.mem_singleton.mp he]
    exact show "a" ≠ "" by decide
  have hclear := (hauthored hfits₀).not_ambiguous (hauthored hfits₁)
  have ht : (blockOf [note "a" "k" []]).threadId = (blockOf [note "a" "k" [1]]).threadId := rfl
  refine ⟨hclear, (block_hash_binds_iff .raft ht hfits₀ hfits₁ ?_).mpr hclear⟩
  exact fun h => absurd h (by decide +kernel)

end MoltMesh
