import Mathlib.Data.Nat.Digits.Defs
import Mathlib.Tactic.Ring

/-!
# Framed byte strings

Numbers of a fixed width, most significant byte first, and byte strings with their
length in front.  What is written one after the other can be read back
(`bigEndian_append_inj`, `framed_append_inj`) as long as the numbers and lengths fit
their width.
-/

namespace MoltMesh.Lib

/-- The last `k` bytes of a number, the most significant one first. -/
def bigEndian : Nat → Nat → List UInt8
  | 0, _ => []
  | k + 1, n => UInt8.ofNat (n / 256 ^ k) :: bigEndian k n

@[simp] theorem length_bigEndian (k n : Nat) : (bigEndian k n).length = k := by
  induction k with
  | zero => rfl
  | succ k ih => rw [bigEndian, List.length_cons, ih]

theorem bigEndian_eq_iff (k m n : Nat) :
    bigEndian k m = bigEndian k n ↔ m % 256 ^ k = n % 256 ^ k := by
  induction k with
  | zero => simp [bigEndian, Nat.mod_one]
  | succ k ih =>
    have hbyte : UInt8.ofNat (m / 256 ^ k) = UInt8.ofNat (n / 256 ^ k) ↔
        m / 256 ^ k % 256 = n / 256 ^ k % 256 := by
      rw [← UInt8.toNat_inj, UInt8.toNat_ofNat', UInt8.toNat_ofNat']
    rw [bigEndian, bigEndian, List.cons.injEq, ih, hbyte, pow_succ, Nat.mod_mul, Nat.mod_mul]
    constructor
    · rintro ⟨hhigh, hlow⟩
      rw [hhigh, hlow]
    · intro h
      have hpos : 0 < 256 ^ k := by positivity
      have hlow : m % 256 ^ k = n % 256 ^ k := by
        have hmod := congrArg (· % 256 ^ k) h
        simpa using hmod
      rw [hlow] at h
      exact ⟨Nat.eq_of_mul_eq_mul_left hpos (Nat.add_left_cancel h), hlow⟩

theorem bigEndian_inj {k m n : Nat} (hm : m < 256 ^ k) (hn : n < 256 ^ k)
    (h : bigEndian k m = bigEndian k n) : m = n := by
  have hmod := (bigEndian_eq_iff k m n).mp h
  rwa [Nat.mod_eq_of_lt hm, Nat.mod_eq_of_lt hn] at hmod

/-- Numbers of one width are read off the front. -/
theorem bigEndian_append_inj {k m n : Nat} {x y : List UInt8} (hm : m < 256 ^ k) (hn : n < 256 ^ k)
    (h : bigEndian k m ++ x = bigEndian k n ++ y) : m = n ∧ x = y := by
  obtain ⟨hnum, hrest⟩ := List.append_inj h (by simp)
  exact ⟨bigEndian_inj hm hn hnum, hrest⟩

/-- A byte string with its length in four bytes in front. -/
def framed (bs : List UInt8) : List UInt8 := bigEndian 4 bs.length ++ bs

/-- Framed strings are read off the front. -/
theorem framed_append_inj {a b x y : List UInt8} (ha : a.length < 256 ^ 4) (hb : b.length < 256 ^ 4)
    (h : framed a ++ x = framed b ++ y) : a = b ∧ x = y := by
  rw [framed, framed, List.append_assoc, List.append_assoc] at h
  obtain ⟨hlen, hrest⟩ := bigEndian_append_inj ha hb h
  exact List.append_inj hrest hlen

end MoltMesh.Lib
