import MoltMesh.Lib.Text

/-!
# Reading an encoding back

An encoding is a function into lists.  `Reads F p f π` says that from `f a ++ x` one can
read off what `π` says about `a`, and the rest `x`, provided that `x` is one of the texts in
`F`: a field that may be left out, or a number without a length, can be told from what
follows only if that begins differently.

Encodings in a row are read one after another (`Reads.seq`), elements in a row until the end
(`Reads.flatMap`) and elements between separators until the closing one (`Reads.intercalate`).
The second half has the pieces: words over an alphabet, JSON strings and protobuf fields.
-/

namespace MoltMesh.Lib

universe u v w

variable {α α' : Type u} {β : Type v} {γ δ : Type w} {F G : List β → Prop} {p : α → Prop} {f g : α → List β}
  {π : α → γ} {ρ : α → δ}

/-- Followed by a text in `F`, the encoding `f` of values in `p` determines `π` and the rest. -/
def Reads (F : List β → Prop) (p : α → Prop) (f : α → List β) (π : α → γ) : Prop :=
  ∀ ⦃a b : α⦄ ⦃x y : List β⦄, p a → p b → F x → F y → f a ++ x = f b ++ y → π a = π b ∧ x = y

/-- A text that is empty or begins with one of `ts`. -/
def Starts (ts : List β) (x : List β) : Prop := ∀ t ∈ x.head?, t ∈ ts

namespace Reads

/-- An encoding of a part of a value. -/
theorem comp (h : Reads F p f π) {q : α' → Prop} (r : α' → α) (hq : ∀ a, q a → p (r a)) :
    Reads F q (fun a => f (r a)) fun a => π (r a) :=
  fun _ _ _ _ ha hb hx hy heq => h (hq _ ha) (hq _ hb) hx hy heq

/-- One encoding after another. -/
theorem seq (hf : Reads F p f π) (hg : Reads G p g ρ) (hFG : ∀ a x, p a → G x → F (g a ++ x)) :
    Reads G p (fun a => f a ++ g a) fun a => (π a, ρ a) := by
  intro a b x y ha hb hx hy heq
  rw [List.append_assoc, List.append_assoc] at heq
  obtain ⟨hπ, hrest⟩ := hf ha hb (hFG a x ha hx) (hFG b y hb hy) heq
  obtain ⟨hρ, hxy⟩ := hg ha hb hx hy hrest
  exact ⟨Prod.ext hπ hρ, hxy⟩

/-- The same after an encoding that anything may follow. -/
theorem andThen (hf : Reads (fun _ => True) p f π) (hg : Reads G p g ρ) :
    Reads G p (fun a => f a ++ g a) fun a => (π a, ρ a) := hf.seq hg fun _ _ _ _ => trivial

/-- A text that is always the same. -/
theorem const (l : List β) : Reads F p (fun _ => l) fun _ => () :=
  fun _ _ _ _ _ _ _ _ heq => ⟨rfl, List.append_cancel_left heq⟩

/-- Words over an alphabet `A`, followed by something else or by nothing. -/
theorem word {A : β → Prop} (hA : ∀ a, p a → ∀ c ∈ f a, A c)
    (hinj : ∀ a b, p a → p b → f a = f b → π a = π b) :
    Reads (fun x => ∀ c ∈ x.head?, ¬A c) p f π := by
  intro a b x y ha hb hx hy heq
  rcases List.append_eq_append_iff.mp heq with ⟨u, hfb, rfl⟩ | ⟨u, hfa, rfl⟩
  · cases u with
    | nil => exact ⟨hinj a b ha hb (by rw [hfb, List.append_nil]), rfl⟩
    | cons c u =>
      refine absurd (hA b hb c ?_) (hx c rfl)
      rw [hfb]
      exact List.mem_append_right _ List.mem_cons_self
  · cases u with
    | nil => exact ⟨hinj a b ha hb (by rw [hfa, List.append_nil]), rfl⟩
    | cons c u =>
      refine absurd (hA a ha c ?_) (hy c rfl)
      rw [hfa]
      exact List.mem_append_right _ List.mem_cons_self

/-- Elements in a row, until the end. -/
theorem flatMap (h : Reads F p f π) (hne : ∀ a, p a → f a ≠ []) (hnil : F [])
    (hF : ∀ a x, p a → F x → F (f a ++ x)) :
    ∀ l m : List α, (∀ a ∈ l, p a) → (∀ a ∈ m, p a) → l.flatMap f = m.flatMap f → l.map π = m.map π := by
  have hfollow (l : List α) (hl : ∀ a ∈ l, p a) : F (l.flatMap f) := by
    induction l with
    | nil => exact hnil
    | cons a l ih =>
      rw [List.flatMap_cons]
      exact hF a _ (hl a List.mem_cons_self) (ih fun b hb => hl b (List.mem_cons_of_mem _ hb))
  intro l
  induction l with
  | nil =>
    rintro (_ | ⟨b, m⟩) - hm heq
    · rfl
    · exact absurd (List.append_eq_nil_iff.mp heq.symm).1 (hne b (hm b List.mem_cons_self))
  | cons a l ih =>
    rintro (_ | ⟨b, m⟩) hl hm heq
    · exact absurd (List.append_eq_nil_iff.mp heq).1 (hne a (hl a List.mem_cons_self))
    · obtain ⟨ha, hl⟩ := List.forall_mem_cons.mp hl
      obtain ⟨hb, hm⟩ := List.forall_mem_cons.mp hm
      rw [List.flatMap_cons, List.flatMap_cons] at heq
      obtain ⟨hπ, hrest⟩ := h ha hb (hfollow l hl) (hfollow m hm) heq
      rw [List.map_cons, List.map_cons, hπ, ih m hl hm hrest]

/-- Elements between separators, until the closing sign. -/
theorem intercalate {sep stop : β} (h : Reads (Starts [sep, stop]) p f π) (hss : sep ≠ stop)
    (hhead : ∀ a, p a → ∃ c rest, f a = c :: rest ∧ c ≠ stop) :
    Reads (fun x => ∃ rest, x = stop :: rest) (fun l : List α => ∀ a ∈ l, p a)
      (fun l => [sep].intercalate (l.map f)) (List.map π) := by
  have hstop (x : List β) : Starts [sep, stop] (stop :: x) := by
    intro t ht
    obtain rfl := Option.some.inj ht
    exact List.mem_cons_of_mem _ (List.mem_singleton_self _)
  have hsep (x : List β) : Starts [sep, stop] (sep :: x) := by
    intro t ht
    obtain rfl := Option.some.inj ht
    exact List.mem_cons_self
  -- A list that is not empty does not begin with the closing sign.
  have hopen (a : α) (ha : p a) (l : List α) (x y : List β) :
      [sep].intercalate ((a :: l).map f) ++ x ≠ stop :: y := by
    obtain ⟨c, rest, hfa, hc⟩ := hhead a ha
    intro heq
    cases l with
    | nil =>
      rw [List.map_singleton, List.intercalate_singleton, hfa] at heq
      exact hc (List.cons.inj heq).1
    | cons b l =>
      rw [List.map_cons, List.map_cons, List.intercalate_cons_cons, hfa] at heq
      exact hc (List.cons.inj heq).1
  intro l
  induction l with
  | nil =>
    rintro (_ | ⟨b, m⟩) _ _ - hm ⟨x, rfl⟩ ⟨y, rfl⟩ heq
    · exact ⟨rfl, heq⟩
    · exact absurd heq.symm (hopen b (hm b List.mem_cons_self) m _ _)
  | cons a l ih =>
    rintro (_ | ⟨b, m⟩) _ _ hl hm ⟨x, rfl⟩ ⟨y, rfl⟩ heq
    · exact absurd heq (hopen a (hl a List.mem_cons_self) l _ _)
    obtain ⟨ha, hl⟩ := List.forall_mem_cons.mp hl
    obtain ⟨hb, hm⟩ := List.forall_mem_cons.mp hm
    -- After the first element comes the closing sign or a separator, the same on both sides.
    dsimp only at heq
    rcases l with _ | ⟨a', l⟩ <;> rcases m with _ | ⟨b', m⟩
    · rw [List.map_singleton, List.map_singleton, List.intercalate_singleton,
        List.intercalate_singleton] at heq
      obtain ⟨hπ, hrest⟩ := h ha hb (hstop x) (hstop y) heq
      exact ⟨by rw [List.map_singleton, List.map_singleton, hπ], hrest⟩
    · rw [List.map_singleton, List.intercalate_singleton, List.map_cons, List.map_cons,
        List.intercalate_cons_cons, List.append_assoc, List.append_assoc] at heq
      obtain ⟨-, hrest⟩ := h ha hb (hstop x) (hsep _) heq
      exact absurd (List.cons.inj hrest).1.symm hss
    · rw [List.map_singleton, List.intercalate_singleton, List.map_cons, List.map_cons,
        List.intercalate_cons_cons, List.append_assoc, List.append_assoc] at heq
      obtain ⟨-, hrest⟩ := h ha hb (hsep _) (hstop y) heq
      exact absurd (List.cons.inj hrest).1 hss
    · rw [List.map_cons, List.map_cons, List.intercalate_cons_cons, List.map_cons, List.map_cons,
        List.intercalate_cons_cons, List.append_assoc, List.append_assoc, List.append_assoc,
        List.append_assoc] at heq
      obtain ⟨hπ, hrest⟩ := h ha hb (hsep _) (hsep _) heq
      obtain ⟨hrest', hxy⟩ := ih hl hm ⟨x, rfl⟩ ⟨y, rfl⟩ (List.cons.inj hrest).2
      exact ⟨List.cons_eq_cons.mpr ⟨hπ, hrest'⟩, hxy⟩

end Reads

theorem starts_nil (ts : List β) : Starts ts [] := fun _ ht => by cases ht

/-! ## Two parts and a separator -/

/-- The record `x'`, `y'` is the record `x`, `y` cut at a later separator. -/
def Recut (c : β) (x y x' y' : List β) : Prop := ∃ u, x' = x ++ c :: u ∧ y = u ++ c :: y'

theorem append_cons_eq_iff {c : β} {x y x' y' : List β} : x ++ c :: y = x' ++ c :: y' ↔
    (x = x' ∧ y = y') ∨ Recut c x y x' y' ∨ Recut c x' y' x y := by
  constructor
  · exact append_cons_cases
  · rintro (⟨rfl, rfl⟩ | ⟨u, rfl, rfl⟩ | ⟨u, rfl, rfl⟩)
    · rfl
    · rw [List.append_assoc, List.cons_append]
    · rw [List.append_assoc, List.cons_append]

theorem Recut.ne {c : β} {x y x' y' : List β} (h : Recut c x y x' y') : x ≠ x' := by
  rintro rfl
  obtain ⟨u, hx, -⟩ := h
  have hlen := congrArg List.length hx
  rw [List.length_append, List.length_cons] at hlen
  omega

/-- A record is not cut later if the first parts have the same number of separators. -/
theorem not_recut_of_count_eq [BEq β] [LawfulBEq β] {c : β} {x y x' y' : List β}
    (h : x.count c = x'.count c) : ¬Recut c x y x' y' := by
  rintro ⟨u, rfl, -⟩
  rw [List.count_append, List.count_cons_self] at h
  omega

/-! ## Bytes of a text -/

theorem bytes_eq_flatMap (s : String) : bytes s = s.toList.flatMap String.utf8EncodeChar := by
  rw [bytes, ← String.utf8Encode_toList, List.utf8Encode, List.data_toByteArray, List.toList_toArray]

/-- A text in ASCII has as many bytes as characters. -/
theorem length_bytes_of_ascii {s : String} (h : ∀ c ∈ s.toList, c.toNat < 128) :
    (bytes s).length = s.toList.length := by
  rw [bytes_eq_flatMap]
  generalize s.toList = l at h
  induction l with
  | nil => rfl
  | cons c l ih =>
    obtain ⟨hc, hl⟩ := List.forall_mem_cons.mp h
    have hone : (String.utf8EncodeChar c).length = 1 := by
      unfold String.utf8EncodeChar
      dsimp only
      rw [if_pos (show c.val.toNat ≤ 127 from Nat.le_of_lt_succ hc)]
      rfl
    rw [List.flatMap_cons, List.length_append, hone, ih hl, List.length_cons, Nat.add_comm]

/-- An ASCII byte stands for its own character only. -/
theorem mem_utf8EncodeChar_ascii {c : Char} {b : UInt8} (hb : b ∈ String.utf8EncodeChar c)
    (h : b.toNat < 128) : c.toNat = b.toNat := by
  unfold String.utf8EncodeChar at hb
  dsimp only at hb
  have hc : c.val.toNat = c.toNat := rfl
  rw [hc] at hb
  split at hb
  · rw [List.mem_singleton.mp hb, UInt8.toNat_ofNat']
    omega
  · split at hb
    · simp only [List.mem_cons, List.not_mem_nil, or_false] at hb
      rcases hb with rfl | rfl <;> (rw [UInt8.toNat_ofNat'] at h; omega)
    · split at hb
      · simp only [List.mem_cons, List.not_mem_nil, or_false] at hb
        rcases hb with rfl | rfl | rfl <;> (rw [UInt8.toNat_ofNat'] at h; omega)
      · simp only [List.mem_cons, List.not_mem_nil, or_false] at hb
        rcases hb with rfl | rfl | rfl | rfl <;> (rw [UInt8.toNat_ofNat'] at h; omega)

theorem notMem_bytes {s : String} {c : Char} (hs : c ∉ s.toList) (hc : c.toNat < 128) :
    UInt8.ofNat c.toNat ∉ bytes s := by
  rw [bytes_eq_flatMap, List.mem_flatMap]
  rintro ⟨d, hd, hb⟩
  have hn : (UInt8.ofNat c.toNat).toNat = c.toNat := by
    rw [UInt8.toNat_ofNat']
    omega
  have heq := mem_utf8EncodeChar_ascii hb (by rwa [hn])
  rw [hn] at heq
  rw [Char.toNat_inj] at heq
  exact hs (heq ▸ hd)

/-- A field without colons is read off the front of a record that goes on in bytes. -/
theorem bytes_field_inj {s t : String} {x y : List UInt8} (hs : NoColon s) (ht : NoColon t)
    (h : bytes s ++ 58 :: x = bytes t ++ 58 :: y) : s = t ∧ x = y := by
  have hword : Reads (fun x : List UInt8 => ∀ c ∈ x.head?, ¬c ≠ 58) NoColon bytes id :=
    .word (fun s hs c hc heq => notMem_bytes (c := ':') hs (by decide) (by rwa [heq] at hc))
      fun _ _ _ _ h => bytes_injective h
  have hcolon (x : List UInt8) : ∀ c ∈ (58 :: x).head?, ¬c ≠ 58 := by
    intro c hc
    exact not_not.mpr (Option.some.inj hc).symm
  obtain ⟨hst, hxy⟩ := hword hs ht (hcolon x) (hcolon y) h
  exact ⟨hst, (List.cons.inj hxy).2⟩

theorem noColon_hexEncode (bs : List UInt8) : NoColon (hexEncode bs) := by
  have hdigit : ∀ n < 16, hexDigit n ≠ ':' := by decide
  intro h
  rw [hexEncode, String.toList_ofList, List.mem_flatMap] at h
  obtain ⟨b, -, hb⟩ := h
  have hlt := b.toNat_lt
  simp only [hexPair, List.mem_cons, List.not_mem_nil, or_false] at hb
  rcases hb with hb | hb
  · exact hdigit _ (by omega) hb.symm
  · exact hdigit _ (by omega) hb.symm

theorem length_bytes_hexEncode (bs : List UInt8) : (bytes (hexEncode bs)).length = 2 * bs.length := by
  have hdigit : ∀ n < 16, (hexDigit n).toNat < 128 := by decide
  rw [length_bytes_of_ascii, hexEncode, String.toList_ofList, length_flatMap_hexPair]
  intro c hc
  rw [hexEncode, String.toList_ofList, List.mem_flatMap] at hc
  obtain ⟨b, -, hb⟩ := hc
  have hlt := b.toNat_lt
  simp only [hexPair, List.mem_cons, List.not_mem_nil, or_false] at hb
  rcases hb with rfl | rfl
  · exact hdigit _ (by omega)
  · exact hdigit _ (by omega)

/-- A decimal is written with digits and a sign. -/
theorem mem_decimal {n : Int} {c : Char} (h : c ∈ (decimal n).toList) : c.isDigit ∨ c = '-' := by
  have hrepr (m : Nat) (hc : c ∈ m.repr.toList) : c.isDigit := by
    rw [Nat.toList_repr] at hc
    exact Nat.isDigit_of_mem_toDigits (by decide) (by decide) hc
  cases n with
  | ofNat n => exact .inl (hrepr n h)
  | negSucc n =>
    have hsign : (decimal (Int.negSucc n)).toList = '-' :: n.succ.repr.toList := by
      change ("-" ++ n.succ.repr).toList = _
      rw [String.toList_append]
      rfl
    rw [hsign, List.mem_cons] at h
    rcases h with rfl | h
    · exact .inr rfl
    · exact .inl (hrepr n.succ h)

theorem reads_decimal : Reads (fun x => ∀ c ∈ x.head?, ¬(c.isDigit ∨ c = '-')) (fun _ => True)
    (fun n => (decimal n).toList) id :=
  .word (fun _ _ _ hc => mem_decimal hc) fun _ _ _ _ h => decimal_injective (String.toList_inj.mp h)

/-! ## JSON -/

/-- The value of a hexadecimal digit. -/
def hexOf (c : Char) : Nat :=
  ['0', '1', '2', '3', '4', '5', '6', '7', '8', '9', 'a', 'b', 'c', 'd', 'e', 'f'].idxOf c

theorem hexOf_hexDigit : ∀ n < 16, hexOf (hexDigit n) = n := by decide

/-- One character of a JSON string and what comes after it. -/
def readJsonChar : List Char → Option (Char × List Char)
  | [] => none
  | c :: x =>
    if c = '"' then none
    else if c ≠ '\\' then some (c, x)
    else match x with
      | [] => none
      | 'n' :: x => some ('\n', x)
      | 'r' :: x => some ('\r', x)
      | 't' :: x => some ('\t', x)
      | 'b' :: x => some (Char.ofNat 8, x)
      | 'f' :: x => some (Char.ofNat 12, x)
      | 'u' :: h :: i :: j :: k :: x =>
        some (Char.ofNat (4096 * hexOf h + 256 * hexOf i + 16 * hexOf j + hexOf k), x)
      | c :: x => some (c, x)

theorem readJsonChar_jsonChar (c : Char) (x : List Char) : readJsonChar (jsonChar c ++ x) = some (c, x) := by
  -- The escape with four digits is used below 65536 only.
  have hunicode (h : c.toNat < 65536) : readJsonChar (['\\', 'u', hexDigit (c.toNat / 4096),
      hexDigit (c.toNat / 256 % 16), hexDigit (c.toNat / 16 % 16), hexDigit (c.toNat % 16)] ++ x) =
        some (c, x) := by
    have hn : 4096 * hexOf (hexDigit (c.toNat / 4096)) + 256 * hexOf (hexDigit (c.toNat / 256 % 16)) +
        16 * hexOf (hexDigit (c.toNat / 16 % 16)) + hexOf (hexDigit (c.toNat % 16)) = c.toNat := by
      rw [hexOf_hexDigit _ (by omega), hexOf_hexDigit _ (by omega), hexOf_hexDigit _ (by omega),
        hexOf_hexDigit _ (by omega)]
      omega
    change some (Char.ofNat _, x) = _
    rw [hn, Char.ofNat_toNat]
  have hof {n : Nat} (h : c.toNat = n) : Char.ofNat n = c := by rw [← h, Char.ofNat_toNat]
  unfold jsonChar
  dsimp only
  split
  case isTrue h => rcases h with rfl | rfl <;> rfl
  case isFalse h =>
    rw [not_or] at h
    split
    case isTrue h => rw [h]; rfl
    split
    case isTrue h => rw [h]; rfl
    split
    case isTrue h => rw [h]; rfl
    split
    case isTrue h => rw [← hof h]; rfl
    split
    case isTrue h => rw [← hof h]; rfl
    split
    case isTrue h =>
      refine hunicode ?_
      rcases h with h | rfl | rfl | rfl
      · omega
      · decide
      · decide
      · decide
    split
    case isTrue h => exact hunicode (by omega)
    case isFalse =>
      rw [List.singleton_append, readJsonChar.eq_def]
      dsimp only
      rw [if_neg h.1, if_pos h.2]

theorem reads_jsonString {F : List Char → Prop} :
    Reads F (fun _ => True) (fun s => (jsonString s).toList) id := by
  have hread (l m x y : List Char) (h : l.flatMap jsonChar ++ '"' :: x = m.flatMap jsonChar ++ '"' :: y) :
      l = m ∧ x = y := by
    induction l generalizing m with
    | nil =>
      cases m with
      | nil => exact ⟨rfl, (List.cons.inj h).2⟩
      | cons d m =>
        have hd := congrArg readJsonChar h
        rw [List.flatMap_cons, List.append_assoc, readJsonChar_jsonChar] at hd
        cases hd
    | cons c l ih =>
      cases m with
      | nil =>
        have hc := congrArg readJsonChar h
        rw [List.flatMap_cons, List.append_assoc, readJsonChar_jsonChar] at hc
        cases hc
      | cons d m =>
        have hcd := congrArg readJsonChar h
        rw [List.flatMap_cons, List.append_assoc, readJsonChar_jsonChar, List.flatMap_cons,
          List.append_assoc, readJsonChar_jsonChar] at hcd
        obtain ⟨rfl, hrest⟩ := Prod.mk.inj (Option.some.inj hcd)
        obtain ⟨rfl, hxy⟩ := ih m hrest
        exact ⟨rfl, hxy⟩
  intro s t x y _ _ _ _ h
  simp only [jsonString, String.toList_ofList, List.cons_append, List.append_assoc, List.cons.injEq,
    true_and, List.nil_append] at h
  obtain ⟨hst, hxy⟩ := hread _ _ _ _ h
  exact ⟨String.toList_inj.mp hst, hxy⟩

/-- A byte string in quotes. -/
theorem reads_base64 {F : List Char → Prop} :
    Reads F (fun _ => True) (fun bs => base64Chars bs ++ ['"']) id := by
  have hquote : ∀ n < 64, base64Digit n ≠ '"' := by decide
  have hword : Reads (fun x => ∀ c ∈ x.head?, ¬c ≠ '"') (fun _ => True) base64Chars (id : List UInt8 → _) := by
    refine .word (fun bs _ c hc => ?_) fun a b _ _ h => ?_
    · rcases mem_base64Chars bs c hc with rfl | ⟨n, hn, rfl⟩
      · decide
      · exact hquote n hn
    · have hdecode := congrArg (fun l => base64Decode (String.ofList l)) h
      rw [base64Decode_base64Chars, base64Decode_base64Chars] at hdecode
      exact Option.some.inj hdecode
  intro a b x y _ _ hx hy h
  refine (hword.seq (.const ['"']) ?_ trivial trivial hx hy h).imp (fun h => (Prod.mk.inj h).1) id
  intro _ x _ _ c hc
  obtain rfl := Option.some.inj hc
  simp

/-! ## Protocol buffers -/

/-- Varints are read off the front: the byte of the last group is below 128. -/
theorem reads_varintGroups (k : Nat) {F : List UInt8 → Prop} :
    Reads F (· < 128 ^ k) (varintGroups k) id := by
  have hbyte {i j : Nat} (h : UInt8.ofNat i = UInt8.ofNat j) : i % 256 = j % 256 := by
    have hn := congrArg UInt8.toNat h
    rwa [UInt8.toNat_ofNat', UInt8.toNat_ofNat'] at hn
  induction k with
  | zero =>
    intro m n x y hm hn _ _ h
    exact ⟨by simp only [id]; omega, h⟩
  | succ k ih =>
    intro m n x y hm hn hx hy h
    rw [pow_succ] at hm hn
    have hdiv {i : Nat} (hi : i < 128 ^ k * 128) : i / 128 < 128 ^ k :=
      Nat.div_lt_of_lt_mul (by rwa [Nat.mul_comm])
    rw [varintGroups, varintGroups] at h
    split at h <;> split at h <;>
      (rw [List.cons_append, List.cons_append] at h; obtain ⟨hhead, hrest⟩ := List.cons.inj h)
    · have := hbyte hhead
      exact ⟨by simp only [id]; omega, hrest⟩
    · have := hbyte hhead
      omega
    · have := hbyte hhead
      omega
    · have := hbyte hhead
      obtain ⟨hquot, hxy⟩ := ih (hdiv hm) (hdiv hn) hx hy hrest
      simp only [id] at hquot ⊢
      exact ⟨by omega, hxy⟩

theorem reads_varint {F : List UInt8 → Prop} : Reads F (· < 2 ^ 64) varint id := by
  intro m n x y hm hn hx hy h
  have hbound : (2 : Nat) ^ 64 ≤ 128 ^ 10 := by decide
  exact reads_varintGroups 10 (lt_of_lt_of_le hm hbound) (lt_of_lt_of_le hn hbound) hx hy h

theorem varint_of_lt {n : Nat} (h : n < 128) : varint n = [UInt8.ofNat n] := by
  rw [varint, varintGroups, if_pos h]

section Fields

variable {field : Nat} {ts : List UInt8}

/-- A field that is not empty is not left out, so anything may follow it. -/
theorem reads_protoBytes_of_ne {F : List UInt8 → Prop} (hfield : 8 * field + 2 < 128) :
    Reads F (fun bs => bs ≠ [] ∧ bs.length < 2 ^ 64) (protoBytes field) id := by
  intro a b x y ha hb _ _ h
  rw [protoBytes, protoBytes, if_neg ha.1, if_neg hb.1, varint_of_lt hfield] at h
  simp only [List.append_assoc, List.cons_append, List.nil_append, List.cons.injEq, true_and] at h
  obtain ⟨hlen, hrest⟩ := reads_varint (F := fun _ => True) ha.2 hb.2 trivial trivial h
  exact List.append_inj hrest hlen

end Fields

end MoltMesh.Lib
