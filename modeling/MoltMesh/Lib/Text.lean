import Mathlib

/-!
# Texts and byte strings

The encodings a program uses to turn structured values into texts and bytes:
hexadecimal, Base58 and Base64, JSON strings, protobuf fields, and records of
fields separated by colons.

The facts are the ones an argument about signed or hashed texts needs: a
field that contains no colon can be read back from the record it starts, a
decimal is such a field and determines its number, and hexadecimal is
injective.
-/

namespace MoltMesh.Lib

/-- The UTF-8 bytes of a text. -/
def bytes (s : String) : List UInt8 := s.toByteArray.data.toList

theorem bytes_injective : Function.Injective bytes := by
  intro s t h
  have hd : s.toByteArray.data = t.toByteArray.data := Array.toList_inj.mp h
  exact String.toByteArray_inj.mp (ByteArray.ext hd)

theorem bytes_append (s t : String) : bytes (s ++ t) = bytes s ++ bytes t := by
  rw [bytes, String.toByteArray_append, ByteArray.data_append, Array.toList_append]
  rfl

/-! ## Fields separated by colons -/

/-- A text that contains no colon. -/
def NoColon (s : String) : Prop := ':' ∉ s.toList

instance (s : String) : Decidable (NoColon s) := inferInstanceAs (Decidable (':' ∉ s.toList))

/-- A text cut at two places where `c` stands: the places are the same, or one part goes further than
the other by a piece that follows a `c`. -/
theorem append_cons_cases {α : Type*} {c : α} {a s x y : List α} (h : a ++ c :: x = s ++ c :: y) :
    (a = s ∧ x = y) ∨ (∃ u, s = a ++ c :: u ∧ x = u ++ c :: y) ∨
      ∃ u, a = s ++ c :: u ∧ y = u ++ c :: x := by
  rcases List.append_eq_append_iff.mp h with ⟨u, hs, hx⟩ | ⟨u, ha, hy⟩
  · cases u with
    | nil => exact .inl ⟨by rw [hs, List.append_nil], (List.cons.inj hx).2⟩
    | cons d u =>
      obtain ⟨rfl, hx'⟩ := List.cons.inj hx
      exact .inr (.inl ⟨u, hs, hx'⟩)
  · cases u with
    | nil => exact .inl ⟨by rw [ha, List.append_nil], (List.cons.inj hy).2.symm⟩
    | cons d u =>
      obtain ⟨rfl, hy'⟩ := List.cons.inj hy
      exact .inr (.inr ⟨u, ha, hy'⟩)

/-- The same for texts cut at a colon. -/
theorem field_cases {a s x y : String} (h : a ++ (":" ++ x) = s ++ (":" ++ y)) :
    (a = s ∧ x = y) ∨ (∃ u, s = a ++ (":" ++ u) ∧ x = u ++ (":" ++ y)) ∨
      ∃ u, a = s ++ (":" ++ u) ∧ y = u ++ (":" ++ x) := by
  have hc (s : String) : (":" ++ s).toList = ':' :: s.toList := by
    rw [String.toList_append]
    rfl
  have hl : a.toList ++ ':' :: x.toList = s.toList ++ ':' :: y.toList := by
    rw [← hc x, ← hc y, ← String.toList_append, ← String.toList_append, h]
  have hpiece {p q : String} {u : List Char} (hu : p.toList = q.toList ++ ':' :: u) :
      p = q ++ (":" ++ String.ofList u) := by
    rw [← String.toList_inj, String.toList_append, hc, String.toList_ofList, hu]
  have hrest {p q : String} {u : List Char} (hu : p.toList = u ++ ':' :: q.toList) :
      p = String.ofList u ++ (":" ++ q) := by
    rw [← String.toList_inj, String.toList_append, hc, String.toList_ofList, hu]
  rcases append_cons_cases hl with ⟨h₁, h₂⟩ | ⟨u, h₁, h₂⟩ | ⟨u, h₁, h₂⟩
  · exact .inl ⟨String.toList_inj.mp h₁, String.toList_inj.mp h₂⟩
  · exact .inr (.inl ⟨_, hpiece h₁, hrest h₂⟩)
  · exact .inr (.inr ⟨_, hpiece h₁, hrest h₂⟩)

theorem not_noColon_append (a u : String) : ¬NoColon (a ++ (":" ++ u)) := by
  intro h
  refine h ?_
  rw [String.toList_append, String.toList_append]
  exact List.mem_append_right _ (List.mem_append_left _ (List.mem_singleton_self _))

/-- A first field without a colon is the other one, or the beginning of it. -/
theorem field_split {a s x y : String} (ha : NoColon a) (h : a ++ (":" ++ x) = s ++ (":" ++ y)) :
    (a = s ∧ x = y) ∨ ∃ u, s = a ++ (":" ++ u) ∧ x = u ++ (":" ++ y) := by
  rcases field_cases h with heq | hlong | ⟨u, rfl, -⟩
  · exact .inl heq
  · exact .inr hlong
  · exact absurd ha (not_noColon_append s u)

/-- A field without a colon and the rest after the colon are determined by the record. -/
theorem field_inj {a b x y : String} (ha : NoColon a) (hb : NoColon b)
    (h : a ++ (":" ++ x) = b ++ (":" ++ y)) : a = b ∧ x = y := by
  rcases field_split ha h with heq | ⟨u, rfl, -⟩
  · exact heq
  · exact absurd hb (not_noColon_append a u)

theorem append_left_cancel {a x y : String} (h : a ++ x = a ++ y) : x = y := by
  have hl := congrArg String.toList h
  rw [String.toList_append, String.toList_append] at hl
  exact String.toList_inj.mp (List.append_cancel_left hl)

/-- Fields separated by colons. -/
def fields : List String → String
  | [] => ""
  | [a] => a
  | a :: b :: l => a ++ (":" ++ fields (b :: l))

theorem fields_cons_inj {a b c d : String} {l m : List String} (ha : NoColon a) (hb : NoColon b)
    (h : fields (a :: c :: l) = fields (b :: d :: m)) : a = b ∧ fields (c :: l) = fields (d :: m) :=
  field_inj ha hb h

/-- A first field that is the same on both sides can be dropped, whatever it contains. -/
theorem fields_cons_cancel {a c d : String} {l m : List String}
    (h : fields (a :: c :: l) = fields (a :: d :: m)) : fields (c :: l) = fields (d :: m) :=
  append_left_cancel (append_left_cancel h)

theorem fields_cons {a : String} {l : List String} (hl : l ≠ []) :
    fields (a :: l) = a ++ (":" ++ fields l) := by
  cases l with
  | nil => exact absurd rfl hl
  | cons b l => rfl

/-- The last fields together are one text. -/
theorem fields_append {l m : List String} (hm : m ≠ []) : fields (l ++ m) = fields (l ++ [fields m]) := by
  induction l with
  | nil => rfl
  | cons a l ih =>
    rw [List.cons_append, List.cons_append, fields_cons (List.append_ne_nil_of_right_ne_nil l hm),
      fields_cons (List.append_ne_nil_of_right_ne_nil l (List.cons_ne_nil _ _)), ih]

/-- So are the first ones. -/
theorem fields_fields_cons {l m : List String} (hl : l ≠ []) (hm : m ≠ []) :
    fields (fields l :: m) = fields (l ++ m) := by
  induction l with
  | nil => exact absurd rfl hl
  | cons a l ih =>
    by_cases hnil : l = []
    · rw [hnil]
      rfl
    · have hne : l ++ m ≠ [] := List.append_ne_nil_of_left_ne_nil hnil m
      rw [List.cons_append, fields_cons hne, ← ih hnil, fields_cons hm, fields_cons hm,
        fields_cons hnil, String.append_assoc, String.append_assoc]

/-! ## Records between two free texts

A record of fields without colons that stands between two texts which may have any:
`t` in front and `H` at the end. -/

section Records

variable {t t' H H' : String} {xs xs' ys : List String}

/-- The text in front of the second record goes on with `p` where the first one has its fields, and the
end of the first one is `q`: both are cut from the same fields. -/
def Nested (t : String) (xs : List String) (H : String) (t' : String) (xs' : List String) (H' : String) :
    Prop :=
  ∃ p q : List String, p ≠ [] ∧ q ≠ [] ∧ t' = fields (t :: p) ∧ H = fields q ∧
    xs ++ q = p ++ (xs' ++ [H'])

/-- Fields are read back as long as both records have them. -/
theorem fields_read (hys : ∀ y ∈ ys, NoColon y) (hxs : ∀ x ∈ xs', NoColon x)
    (hlen : ys.length ≤ xs'.length) (h : fields (ys ++ [H]) = fields (xs' ++ [H'])) :
    ∃ q, q ≠ [] ∧ xs' ++ [H'] = ys ++ q ∧ H = fields q := by
  induction ys generalizing xs' with
  | nil => exact ⟨xs' ++ [H'], List.append_ne_nil_of_right_ne_nil _ (List.cons_ne_nil _ _), rfl, h⟩
  | cons y ys ih =>
    cases xs' with
    | nil => exact absurd hlen (Nat.not_succ_le_zero _)
    | cons x xs' =>
      rw [List.cons_append, List.cons_append,
        fields_cons (List.append_ne_nil_of_right_ne_nil ys (List.cons_ne_nil _ _)),
        fields_cons (List.append_ne_nil_of_right_ne_nil xs' (List.cons_ne_nil _ _))] at h
      obtain ⟨rfl, hrest⟩ := field_inj (hys y List.mem_cons_self) (hxs x List.mem_cons_self) h
      obtain ⟨q, hq, hsplit, hH⟩ := ih (fun z hz => hys z (List.mem_cons_of_mem _ hz))
        (fun z hz => hxs z (List.mem_cons_of_mem _ hz)) (Nat.le_of_succ_le_succ hlen) hrest
      exact ⟨q, hq, by rw [List.cons_append, hsplit, List.cons_append], hH⟩

/-- A record that begins with another text has its first fields in it. -/
theorem fields_overlap {s : String} (hxs : ∀ x ∈ xs, NoColon x) (hxs' : ∀ x ∈ xs', NoColon x)
    (hlen : xs.length ≤ xs'.length)
    (h : fields (xs ++ [H]) = s ++ (":" ++ fields (xs' ++ [H']))) :
    ∃ p q, p ≠ [] ∧ q ≠ [] ∧ s = fields p ∧ H = fields q ∧ xs ++ q = p ++ (xs' ++ [H']) := by
  have hne : xs' ++ [H'] ≠ [] := List.append_ne_nil_of_right_ne_nil _ (List.cons_ne_nil _ _)
  induction xs generalizing s with
  | nil => exact ⟨[s], s :: (xs' ++ [H']), List.cons_ne_nil _ _, List.cons_ne_nil _ _, rfl,
    h.trans (fields_cons hne).symm, rfl⟩
  | cons x xs ih =>
    have hxs₁ : ∀ z ∈ xs, NoColon z := fun z hz => hxs z (List.mem_cons_of_mem _ hz)
    have hlen₁ : xs.length ≤ xs'.length := Nat.le_of_succ_le hlen
    rw [List.cons_append,
      fields_cons (List.append_ne_nil_of_right_ne_nil xs (List.cons_ne_nil _ _))] at h
    rcases field_split (hxs x List.mem_cons_self) h with ⟨rfl, hrest⟩ | ⟨u, rfl, hrest⟩
    · obtain ⟨q, hq, hsplit, hH⟩ := fields_read hxs₁ hxs' hlen₁ hrest
      exact ⟨[x], q, List.cons_ne_nil _ _, hq, rfl, hH, by rw [hsplit]; rfl⟩
    · obtain ⟨p, q, hp, hq, rfl, hH, hsplit⟩ := ih hxs₁ hlen₁ hrest
      exact ⟨x :: p, q, List.cons_ne_nil _ _, hq, (fields_cons hp).symm, hH,
        by rw [List.cons_append, hsplit]; rfl⟩

theorem Nested.fields_eq (h : Nested t xs H t' xs' H') :
    fields (t :: (xs ++ [H])) = fields (t' :: (xs' ++ [H'])) := by
  obtain ⟨p, q, hp, hq, rfl, rfl, hsplit⟩ := h
  have hne : xs' ++ [H'] ≠ [] := List.append_ne_nil_of_right_ne_nil _ (List.cons_ne_nil _ _)
  calc fields (t :: xs ++ [fields q])
    _ = fields (t :: xs ++ q) := (fields_append hq).symm
    _ = fields (t :: p ++ (xs' ++ [H'])) := by rw [List.cons_append, hsplit, List.cons_append]
    _ = fields (fields (t :: p) :: (xs' ++ [H'])) :=
        (fields_fields_cons (List.cons_ne_nil _ _) hne).symm

theorem Nested.ne (h : Nested t xs H t' xs' H') : t ≠ t' := by
  obtain ⟨p, q, hp, -, rfl, -, -⟩ := h
  rw [fields_cons hp]
  intro heq
  have hlen := congrArg String.length heq
  rw [String.length_append, String.length_append] at hlen
  have hcolon : ":".length = 1 := rfl
  omega

/-- **When two records are the same text**: they have the same parts, or one is nested in the other. -/
theorem fields_eq_iff (hxs : ∀ x ∈ xs, NoColon x) (hxs' : ∀ x ∈ xs', NoColon x)
    (hlen : xs.length = xs'.length) :
    fields (t :: (xs ++ [H])) = fields (t' :: (xs' ++ [H'])) ↔
      (t = t' ∧ xs = xs' ∧ H = H') ∨ Nested t xs H t' xs' H' ∨ Nested t' xs' H' t xs H := by
  constructor
  · intro h
    have hne (l : List String) (a : String) : l ++ [a] ≠ [] :=
      List.append_ne_nil_of_right_ne_nil _ (List.cons_ne_nil _ _)
    rw [fields_cons (hne xs H), fields_cons (hne xs' H')] at h
    rcases field_cases h with ⟨rfl, hrest⟩ | ⟨u, rfl, hrest⟩ | ⟨u, rfl, hrest⟩
    · obtain ⟨q, -, hsplit, hH⟩ := fields_read hxs hxs' hlen.le hrest
      obtain ⟨rfl, rfl⟩ := List.append_inj hsplit hlen.symm
      exact .inl ⟨rfl, rfl, hH⟩
    · obtain ⟨p, q, hp, hq, rfl, hH, hsplit⟩ := fields_overlap hxs hxs' hlen.le hrest
      exact .inr (.inl ⟨p, q, hp, hq, (fields_cons hp).symm, hH, hsplit⟩)
    · obtain ⟨p, q, hp, hq, rfl, hH, hsplit⟩ := fields_overlap hxs' hxs hlen.ge hrest
      exact .inr (.inr ⟨p, q, hp, hq, (fields_cons hp).symm, hH, hsplit⟩)
  · rintro (⟨rfl, rfl, rfl⟩ | h | h)
    · rfl
    · exact h.fields_eq
    · exact h.fields_eq.symm

end Records

/-- The decimal text of an integer, as `%d` prints it. -/
def decimal (n : Int) : String := n.repr

theorem decimal_injective : Function.Injective decimal := fun _ _ h => Int.repr_injective h

theorem noColon_repr (n : Nat) : NoColon n.repr := by
  intro h
  rw [Nat.toList_repr] at h
  exact absurd (Nat.isDigit_of_mem_toDigits (by decide) (by decide) h) (by decide)

theorem noColon_decimal (n : Int) : NoColon (decimal n) := by
  cases n with
  | ofNat n => exact noColon_repr n
  | negSucc n =>
    have h : (decimal (Int.negSucc n)).toList = '-' :: n.succ.repr.toList := by
      change ("-" ++ n.succ.repr).toList = _
      rw [String.toList_append]
      rfl
    unfold NoColon
    rw [h, List.mem_cons, not_or]
    exact ⟨by decide, noColon_repr n.succ⟩

/-- A decimal field can be read back from the record it starts. -/
theorem fields_decimal_inj {m n : Int} {c d : String} {l l' : List String}
    (h : fields (decimal m :: c :: l) = fields (decimal n :: d :: l')) :
    m = n ∧ fields (c :: l) = fields (d :: l') := by
  obtain ⟨h₁, h₂⟩ := fields_cons_inj (noColon_decimal m) (noColon_decimal n) h
  exact ⟨decimal_injective h₁, h₂⟩

/-! ## Hexadecimal -/

/-- The lower-case digit of a number below sixteen. -/
def hexDigit (n : Nat) : Char :=
  ['0', '1', '2', '3', '4', '5', '6', '7', '8', '9', 'a', 'b', 'c', 'd', 'e', 'f'].getD n '?'

/-- The two digits of a byte. -/
def hexPair (b : UInt8) : List Char := [hexDigit (b.toNat / 16), hexDigit (b.toNat % 16)]

/-- The lower-case hexadecimal text of a byte string. -/
def hexEncode (bs : List UInt8) : String := String.ofList (bs.flatMap hexPair)

/-- The value of an ASCII digit in either case. -/
def hexValue (b : UInt8) : Option Nat :=
  let n := b.toNat
  if 48 ≤ n ∧ n ≤ 57 then some (n - 48)
  else if 97 ≤ n ∧ n ≤ 102 then some (n - 87)
  else if 65 ≤ n ∧ n ≤ 70 then some (n - 55)
  else none

/-- The bytes of a list of digits; an odd or unreadable list has none. -/
def hexDecodeBytes : List UInt8 → Option (List UInt8)
  | [] => some []
  | [_] => none
  | b :: c :: bs =>
    match hexValue b, hexValue c, hexDecodeBytes bs with
    | some m, some n, some l => some (UInt8.ofNat (16 * m + n) :: l)
    | _, _, _ => none

/-- The bytes a hexadecimal text stands for. -/
def hexDecode (s : String) : Option (List UInt8) := hexDecodeBytes (bytes s)

theorem hexDigit_inj : ∀ m < 16, ∀ n < 16, hexDigit m = hexDigit n → m = n := by decide

theorem hexPair_injective : Function.Injective hexPair := by
  intro a b h
  obtain ⟨h₁, h₂⟩ := List.cons.inj h
  have hh := hexDigit_inj _ (by have := a.toNat_lt; omega) _ (by have := b.toNat_lt; omega) h₁
  have hl := hexDigit_inj _ (by omega) _ (by omega) (List.cons.inj h₂).1
  exact UInt8.toNat_inj.mp (by omega)

theorem flatMap_hexPair_injective :
    Function.Injective (fun bs : List UInt8 => bs.flatMap hexPair) := by
  intro a
  induction a with
  | nil =>
    intro b h
    cases b with
    | nil => rfl
    | cons y b => exact absurd h (by simp [hexPair])
  | cons x a ih =>
    intro b h
    cases b with
    | nil => exact absurd h (by simp [hexPair])
    | cons y b =>
      simp only [List.flatMap_cons] at h
      obtain ⟨h₁, h₂⟩ := List.append_inj h rfl
      rw [hexPair_injective h₁, ih h₂]

theorem hexEncode_injective : Function.Injective hexEncode :=
  fun _ _ h => flatMap_hexPair_injective (String.ofList_inj.mp h)

theorem length_flatMap_hexPair (bs : List UInt8) : (bs.flatMap hexPair).length = 2 * bs.length := by
  induction bs with
  | nil => rfl
  | cons b bs ih =>
    rw [List.flatMap_cons, List.length_append, ih]
    simp only [hexPair, List.length_cons, List.length_nil]
    omega

theorem length_le_utf8ByteSize_ofList (l : List Char) :
    l.length ≤ (String.ofList l).utf8ByteSize := by
  induction l with
  | nil => exact Nat.zero_le _
  | cons c l ih =>
    rw [String.ofList_cons, String.utf8ByteSize_append, String.utf8ByteSize_singleton]
    have hc := c.utf8Size_pos
    simp only [List.length_cons]
    omega

/-- A hexadecimal text takes at least two bytes for each byte it stands for. -/
theorem two_mul_length_le_utf8ByteSize_hexEncode (bs : List UInt8) :
    2 * bs.length ≤ (hexEncode bs).utf8ByteSize := by
  rw [← length_flatMap_hexPair]
  exact length_le_utf8ByteSize_ofList _

/-! ## Base58 -/

/-- The Bitcoin alphabet: digits and letters in ASCII order without `0`, `I`, `O` and `l`. -/
def base58Alphabet : List Char :=
  "123456789ABCDEFGHJKLMNPQRSTUVWXYZabcdefghijkmnopqrstuvwxyz".toList

/-- The position of an ASCII character in the alphabet. -/
def base58Value (b : UInt8) : Option Nat :=
  let n := b.toNat
  if 49 ≤ n ∧ n ≤ 57 then some (n - 49)
  else if 65 ≤ n ∧ n ≤ 72 then some (n - 56)
  else if 74 ≤ n ∧ n ≤ 78 then some (n - 57)
  else if 80 ≤ n ∧ n ≤ 90 then some (n - 58)
  else if 97 ≤ n ∧ n ≤ 107 then some (n - 64)
  else if 109 ≤ n ∧ n ≤ 122 then some (n - 65)
  else none

/-- The digits of `n` in base `b`, least significant first, with `fuel` an upper
bound on their number. -/
def digitsBelow (b : Nat) : Nat → Nat → List Nat
  | 0, _ => []
  | fuel + 1, n => if n = 0 then [] else n % b :: digitsBelow b fuel (n / b)

/-- The value of a list of digits in base `b`, most significant first. -/
def valueOf (b : Nat) (ds : List Nat) : Nat := ds.foldl (fun v d => v * b + d) 0

/-- Base58: a `1` for each leading zero byte, then the digits of the number. -/
def base58Encode (bs : List UInt8) : String :=
  let zeros := (bs.takeWhile (· == 0)).length
  let n := valueOf 256 (bs.map UInt8.toNat)
  let digits := (digitsBelow 58 (2 * bs.length) n).reverse
  String.ofList (List.replicate zeros '1' ++ digits.map (base58Alphabet.getD · '?'))

/-- The bytes of a Base58 text, or the decoder's complaint. -/
def base58Decode (text : List UInt8) : Except String (List UInt8) :=
  if text = [] then .error "zero length string"
  else match text.mapM base58Value with
    | none =>
      if text.any (fun b => 127 < b.toNat) then .error "high-bit set on invalid digit"
      else .error "invalid base58 digit"
    | some ds =>
      let zeros := (ds.takeWhile (· == 0)).length
      let digits := (digitsBelow 256 ds.length (valueOf 58 ds)).reverse
      .ok (List.replicate zeros 0 ++ digits.map UInt8.ofNat)

/-! ## Base64 and JSON -/

/-- The standard alphabet: upper case, lower case, digits, plus and slash. -/
def base64Digit (n : Nat) : Char :=
  if n < 26 then Char.ofNat (65 + n)
  else if n < 52 then Char.ofNat (71 + n)
  else if n < 62 then Char.ofNat (n - 4)
  else if n = 62 then '+'
  else '/'

/-- Padded standard Base64. -/
def base64Chars : List UInt8 → List Char
  | [] => []
  | [a] =>
    let n := a.toNat * 65536
    [base64Digit (n / 262144), base64Digit (n / 4096 % 64), '=', '=']
  | [a, b] =>
    let n := a.toNat * 65536 + b.toNat * 256
    [base64Digit (n / 262144), base64Digit (n / 4096 % 64), base64Digit (n / 64 % 64), '=']
  | a :: b :: c :: bs =>
    let n := a.toNat * 65536 + b.toNat * 256 + c.toNat
    base64Digit (n / 262144) :: base64Digit (n / 4096 % 64) :: base64Digit (n / 64 % 64) ::
      base64Digit (n % 64) :: base64Chars bs

/-- The value of a character of the alphabet. -/
def base64Value (c : Char) : Option Nat :=
  let n := c.toNat
  if 65 ≤ n ∧ n ≤ 90 then some (n - 65)
  else if 97 ≤ n ∧ n ≤ 122 then some (n - 71)
  else if 48 ≤ n ∧ n ≤ 57 then some (n + 4)
  else if c = '+' then some 62
  else if c = '/' then some 63
  else none

/-- The bytes of a text without line breaks.  Only the last group of four characters may be padded,
and the bits the padding stands for are not looked at. -/
def base64DecodeChars : List Char → Option (List UInt8)
  | [] => some []
  | [a, b, '=', '='] => do
    let n := (← base64Value a) * 262144 + (← base64Value b) * 4096
    return [UInt8.ofNat (n / 65536)]
  | [a, b, c, '='] => do
    let n := (← base64Value a) * 262144 + (← base64Value b) * 4096 + (← base64Value c) * 64
    return [UInt8.ofNat (n / 65536), UInt8.ofNat (n / 256 % 256)]
  | a :: b :: c :: d :: l => do
    let n := (← base64Value a) * 262144 + (← base64Value b) * 4096 + (← base64Value c) * 64 +
      (← base64Value d)
    let bs ← base64DecodeChars l
    return UInt8.ofNat (n / 65536) :: UInt8.ofNat (n / 256 % 256) :: UInt8.ofNat (n % 256) :: bs
  | _ => none

/-- Padded standard Base64 is decoded; line breaks are skipped wherever they stand. -/
def base64Decode (s : String) : Option (List UInt8) :=
  base64DecodeChars (s.toList.filter fun c => c ≠ '\n' ∧ c ≠ '\r')

theorem base64Value_base64Digit : ∀ n < 64, base64Value (base64Digit n) = some n := by decide

theorem base64Digit_ne : ∀ n < 64, base64Digit n ≠ '\n' ∧ base64Digit n ≠ '\r' ∧ base64Digit n ≠ '=' := by
  decide

/-- Four digits make up the number they were taken from. -/
theorem base64_digits (n : Nat) :
    n / 262144 * 262144 + n / 4096 % 64 * 4096 + n / 64 % 64 * 64 + n % 64 = n := by omega

theorem base64DecodeChars_base64Chars (bs : List UInt8) :
    base64DecodeChars (base64Chars bs) = some bs := by
  have hlt (a : UInt8) : a.toNat < 256 := a.toNat_lt
  induction bs using base64Chars.induct with
  | case1 => rfl
  | case2 a =>
    have ha := hlt a
    have hn : (a.toNat * 65536 / 262144 * 262144 + a.toNat * 65536 / 4096 % 64 * 4096) / 65536 =
      a.toNat := by omega
    rw [base64Chars, base64DecodeChars, base64Value_base64Digit _ (by omega),
      base64Value_base64Digit _ (by omega)]
    change some [UInt8.ofNat _] = _
    rw [hn, UInt8.ofNat_toNat]
  | case3 a b =>
    have ha := hlt a
    have hb := hlt b
    set n := a.toNat * 65536 + b.toNat * 256 with hn
    have hpad : n % 64 = 0 := by omega
    have hdigits := base64_digits n
    rw [hpad, Nat.add_zero] at hdigits
    rw [base64Chars, base64DecodeChars, base64Value_base64Digit _ (by omega),
      base64Value_base64Digit _ (by omega), base64Value_base64Digit _ (by omega)]
    · change some [UInt8.ofNat (_ / 65536), UInt8.ofNat (_ / 256 % 256)] = _
      rw [hdigits, show n / 65536 = a.toNat by omega, show n / 256 % 256 = b.toNat by omega,
        UInt8.ofNat_toNat, UInt8.ofNat_toNat]
    · exact fun h => (base64Digit_ne (n / 64 % 64) (by omega)).2.2 h
  | case4 a b c bs ih =>
    have ha := hlt a
    have hb := hlt b
    have hc := hlt c
    set n := a.toNat * 65536 + b.toNat * 256 + c.toNat with hn
    have hlast := (base64Digit_ne (n % 64) (by omega)).2.2
    rw [base64Chars, base64DecodeChars, base64Value_base64Digit _ (by omega),
      base64Value_base64Digit _ (by omega), base64Value_base64Digit _ (by omega),
      base64Value_base64Digit _ (by omega), ih]
    · change some (UInt8.ofNat (_ / 65536) :: UInt8.ofNat (_ / 256 % 256) ::
        UInt8.ofNat (_ % 256) :: bs) = _
      rw [base64_digits n, show n / 65536 = a.toNat by omega,
        show n / 256 % 256 = b.toNat by omega, show n % 256 = c.toNat by omega, UInt8.ofNat_toNat,
        UInt8.ofNat_toNat, UInt8.ofNat_toNat]
    · exact fun _ h _ => hlast h
    · exact fun h _ => hlast h

/-- The characters of an encoded byte string. -/
theorem mem_base64Chars (bs : List UInt8) : ∀ c ∈ base64Chars bs, c = '=' ∨ ∃ n < 64, c = base64Digit n := by
  have hlt (a : UInt8) : a.toNat < 256 := a.toNat_lt
  have hdigit {n : Nat} (h : n < 64) : base64Digit n = '=' ∨ ∃ m < 64, base64Digit n = base64Digit m :=
    .inr ⟨n, h, rfl⟩
  induction bs using base64Chars.induct with
  | case1 => exact fun c hc => absurd hc List.not_mem_nil
  | case2 a =>
    have ha := hlt a
    simp only [base64Chars, List.forall_mem_cons]
    exact ⟨hdigit (by omega), hdigit (by omega), .inl trivial, .inl trivial, by simp⟩
  | case3 a b =>
    have ha := hlt a
    have hb := hlt b
    simp only [base64Chars, List.forall_mem_cons]
    exact ⟨hdigit (by omega), hdigit (by omega), hdigit (by omega), .inl trivial, by simp⟩
  | case4 a b c bs ih =>
    have ha := hlt a
    have hb := hlt b
    have hc := hlt c
    simp only [base64Chars, List.forall_mem_cons]
    exact ⟨hdigit (by omega), hdigit (by omega), hdigit (by omega), hdigit (by omega), ih⟩

/-- **Decoding undoes encoding.** -/
theorem base64Decode_base64Chars (bs : List UInt8) :
    base64Decode (String.ofList (base64Chars bs)) = some bs := by
  have hlines : ∀ c ∈ base64Chars bs, c ≠ '\n' ∧ c ≠ '\r' := by
    intro c hc
    rcases mem_base64Chars bs c hc with rfl | ⟨n, hn, rfl⟩
    · decide
    · exact ⟨(base64Digit_ne n hn).1, (base64Digit_ne n hn).2.1⟩
  rw [base64Decode, String.toList_ofList, List.filter_eq_self.mpr fun c hc => decide_eq_true (hlines c hc),
    base64DecodeChars_base64Chars]

/-- One character inside a JSON string, with the escapes of an encoder that is
also safe inside HTML. -/
def jsonChar (c : Char) : List Char :=
  let unicode := ['\\', 'u', hexDigit (c.toNat / 4096), hexDigit (c.toNat / 256 % 16),
    hexDigit (c.toNat / 16 % 16), hexDigit (c.toNat % 16)]
  if c = '"' ∨ c = '\\' then ['\\', c]
  else if c = '\n' then ['\\', 'n']
  else if c = '\r' then ['\\', 'r']
  else if c = '\t' then ['\\', 't']
  else if c.toNat = 8 then ['\\', 'b']
  else if c.toNat = 12 then ['\\', 'f']
  else if c.toNat < 32 ∨ c = '<' ∨ c = '>' ∨ c = '&' then unicode
  else if c.toNat = 8232 ∨ c.toNat = 8233 then unicode
  else [c]

/-- A JSON string. -/
def jsonString (s : String) : String := String.ofList ('"' :: s.toList.flatMap jsonChar ++ ['"'])

/-! ## Protocol buffers -/

/-- Base-128 groups, least significant first; ten of them hold 64 bits. -/
def varintGroups : Nat → Nat → List UInt8
  | 0, _ => []
  | fuel + 1, n =>
    if n < 128 then [UInt8.ofNat n]
    else UInt8.ofNat (n % 128 + 128) :: varintGroups fuel (n / 128)

/-- A base-128 varint of at most 64 bits. -/
def varint (n : Nat) : List UInt8 := varintGroups 10 n

/-- A numeric field, left out when it is zero; negative numbers are taken modulo `2 ^ 64`. -/
def protoInt (field : Nat) (n : Int) : List UInt8 :=
  if n = 0 then [] else varint (8 * field) ++ varint (n % 18446744073709551616).toNat

/-- A length-delimited field, left out when it is empty. -/
def protoBytes (field : Nat) (bs : List UInt8) : List UInt8 :=
  if bs = [] then [] else varint (8 * field + 2) ++ varint bs.length ++ bs

/-- One element of a repeated length-delimited field, which is written even when it is empty. -/
def protoElem (field : Nat) (bs : List UInt8) : List UInt8 :=
  varint (8 * field + 2) ++ varint bs.length ++ bs

/-- The text of a byte string.  A byte string that is not UTF-8 gets a text of its own, the
replacement character and its hexadecimal digits. -/
def textOf (bs : List UInt8) : String :=
  (String.fromUTF8? ⟨bs.toArray⟩).getD (String.ofList (Char.ofNat 65533 :: (hexEncode bs).toList))

end MoltMesh.Lib
