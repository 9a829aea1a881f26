import Mathlib.Data.Nat.Digits.Defs
import SnifferStaSend.Atoi

/-!
# `printf` of numbers

The conversions `%d`, `%02x` and `%02X`. A printed number is read back by the scan of
`atoi`, and printed bytes by taking hexadecimal digits in pairs.
-/

namespace CLib

def digitChar (upper : Bool) (d : ℕ) : UInt8 :=
  UInt8.ofNat (if d < 10 then 48 + d else if upper then 55 + d else 87 + d)

/-- A number in base `b`, most significant digit first. -/
def numeral (b : ℕ) (upper : Bool) (n : ℕ) : List UInt8 :=
  if n = 0 then [digitChar upper 0] else ((Nat.digits b n).reverse).map (digitChar upper)

/-- A conversion of the format with its argument, or the text in between. -/
inductive Piece
  | text (t : List UInt8)
  | d (v : ℤ)
  | x02 (upper : Bool) (n : ℕ)

def Piece.bytes : Piece → List UInt8
  | .text t => t
  | .d v => if v < 0 then 45 :: numeral 10 false v.natAbs else numeral 10 false v.natAbs
  | .x02 upper n => (numeral 16 upper n).leftpad 2 48

@[simp] theorem Piece.bytes_text (t : List UInt8) : (Piece.text t).bytes = t := rfl

@[simp] theorem Piece.bytes_natCast (n : ℕ) : (Piece.d n).bytes = numeral 10 false n := by
  rw [Piece.bytes, if_neg (by omega), Int.natAbs_natCast]

def format (pieces : List Piece) : List UInt8 := pieces.flatMap Piece.bytes

def isxdigit (c : UInt8) : Bool := isdigit c || (65 ≤ c && c ≤ 70) || (97 ≤ c && c ≤ 102)

def xdigitValue (c : UInt8) : ℕ :=
  if c ≤ 57 then c.toNat - 48 else if c ≤ 70 then c.toNat - 55 else c.toNat - 87

/-- The bytes given by pairs of hexadecimal digits. -/
def unhex : List UInt8 → List UInt8
  | hi :: lo :: rest => UInt8.ofNat (16 * xdigitValue hi + xdigitValue lo) :: unhex rest
  | _ => []

section Numeral

variable {b n : ℕ} (upper : Bool)

theorem numeral_of_lt (hn : n < b) : numeral b upper n = [digitChar upper n] := by
  by_cases h0 : n = 0
  · rw [numeral, if_pos h0, h0]
  · rw [numeral, if_neg h0, Nat.digits_of_lt b n h0 hn]
    rfl

theorem numeral_of_le (hb : 1 < b) (hn : b ≤ n) :
    numeral b upper n = numeral b upper (n / b) ++ [digitChar upper (n % b)] := by
  have hpos : n ≠ 0 := by omega
  have hdiv : n / b ≠ 0 := (Nat.div_pos hn (by omega)).ne'
  rw [numeral, numeral, if_neg hpos, if_neg hdiv, Nat.digits_def' hb (Nat.pos_of_ne_zero hpos),
    List.reverse_cons, List.map_append]
  rfl

theorem numeral_ne_nil (hb : 1 < b) : numeral b upper n ≠ [] := by
  by_cases hn : n < b
  · simp [numeral_of_lt upper hn]
  · simp [numeral_of_le upper hb (Nat.le_of_not_lt hn)]

theorem length_numeral_le (hb : 1 < b) {k : ℕ} (hk : 0 < k) (hn : n < b ^ k) :
    (numeral b upper n).length ≤ k := by
  induction k generalizing n with
  | zero => exact absurd hk (lt_irrefl 0)
  | succ k ih =>
      by_cases hlt : n < b
      · rw [numeral_of_lt upper hlt, List.length_singleton]
        omega
      · have hle := Nat.le_of_not_lt hlt
        have hdiv : n / b < b ^ k := Nat.div_lt_of_lt_mul (by rwa [← Nat.pow_succ'])
        have hkpos : 0 < k := by
          rcases Nat.eq_zero_or_pos k with rfl | hkpos
          · rw [Nat.zero_add, Nat.pow_one] at hn
            exact absurd hn hlt
          · exact hkpos
        rw [numeral_of_le upper hb hle, List.length_append, List.length_singleton]
        exact Nat.succ_le_succ (ih hkpos hdiv)

end Numeral

section Decimal

theorem toNat_digitChar_of_lt (upper : Bool) {d : ℕ} (hd : d < 10) :
    (digitChar upper d).toNat = 48 + d := by
  rw [digitChar, if_pos hd, UInt8.toNat_ofNat', Nat.mod_eq_of_lt (by omega)]

theorem isdigit_digitChar {upper : Bool} {d : ℕ} (hd : d < 10) :
    isdigit (digitChar upper d) = true := by
  have hval := toNat_digitChar_of_lt upper hd
  simp only [isdigit, Bool.and_eq_true, decide_eq_true_eq, UInt8.le_iff_toNat_le,
    UInt8.reduceToNat, hval]
  omega

theorem digitsValue_append_singleton (ds : List UInt8) (c : UInt8) :
    digitsValue (ds ++ [c]) = 10 * digitsValue ds + (c.toNat - 48) := by
  rw [digitsValue, List.foldl_append]
  rfl

theorem isdigit_of_mem_numeral {n : ℕ} : ∀ c ∈ numeral 10 false n, isdigit c = true := by
  induction n using Nat.strong_induction_on with
  | h n ih =>
      intro c hc
      by_cases hn : n < 10
      · rw [numeral_of_lt false hn, List.mem_singleton] at hc
        rw [hc]
        exact isdigit_digitChar hn
      · rw [numeral_of_le false (by omega) (Nat.le_of_not_lt hn), List.mem_append,
          List.mem_singleton] at hc
        rcases hc with hc | rfl
        · exact ih (n / 10) (by omega) c hc
        · exact isdigit_digitChar (Nat.mod_lt n (by omega))

theorem digitsValue_numeral (n : ℕ) : digitsValue (numeral 10 false n) = n := by
  induction n using Nat.strong_induction_on with
  | h n ih =>
      by_cases hn : n < 10
      · rw [numeral_of_lt false hn]
        change 10 * 0 + ((digitChar false n).toNat - 48) = n
        rw [toNat_digitChar_of_lt _ hn]
        omega
      · rw [numeral_of_le false (by omega) (Nat.le_of_not_lt hn), digitsValue_append_singleton,
          ih (n / 10) (by omega), toNat_digitChar_of_lt _ (Nat.mod_lt n (by omega))]
        omega

/-- Blanks in front of a number do not matter, and a numeral ends the scan by its own end. -/
theorem scanNumeral_d (v : ℤ) (k : ℕ) : scanNumeral (List.replicate k 32 ++ (Piece.d v).bytes) =
    ⟨decide (v < 0), numeral 10 false v.natAbs, []⟩ := by
  have hblank : (List.replicate k 32 ++ (Piece.d v).bytes).dropWhile isspace =
      (Piece.d v).bytes.dropWhile isspace := by
    rw [List.dropWhile_append_of_pos]
    intro c hc
    rw [(List.mem_replicate.mp hc).2]
    rfl
  have hscan : scanNumeral (List.replicate k 32 ++ (Piece.d v).bytes) =
      scanNumeral (Piece.d v).bytes := by
    rw [scanNumeral, scanNumeral, hblank]
  rw [hscan]
  by_cases hneg : v < 0
  · have hdigits := scanNumeral_of_digits (isdigit_of_mem_numeral (n := v.natAbs))
    have htake := List.takeWhile_eq_self_iff.mpr (isdigit_of_mem_numeral (n := v.natAbs))
    have hdrop := List.dropWhile_eq_nil_iff.mpr (isdigit_of_mem_numeral (n := v.natAbs))
    rw [Piece.bytes, if_pos hneg, decide_eq_true hneg]
    change Numeral.mk true ((numeral 10 false v.natAbs).takeWhile isdigit)
      ((numeral 10 false v.natAbs).dropWhile isdigit) = _
    rw [htake, hdrop]
  · rw [Piece.bytes, if_neg hneg, decide_eq_false hneg]
    exact scanNumeral_of_digits isdigit_of_mem_numeral

theorem mem_d {v : ℤ} {c : UInt8} (hc : c ∈ (Piece.d v).bytes) : c = 45 ∨ isdigit c = true := by
  rw [Piece.bytes] at hc
  by_cases hneg : v < 0
  · rw [if_pos hneg, List.mem_cons] at hc
    exact hc.imp_right (isdigit_of_mem_numeral c)
  · rw [if_neg hneg] at hc
    exact Or.inr (isdigit_of_mem_numeral c hc)

end Decimal

section Hex

theorem xdigitValue_digitChar (upper : Bool) {d : ℕ} (hd : d < 16) :
    xdigitValue (digitChar upper d) = d ∧ isxdigit (digitChar upper d) = true := by
  have hall : ∀ d < 16, ∀ upper, xdigitValue (digitChar upper d) = d ∧
      isxdigit (digitChar upper d) = true := by decide
  exact hall d hd upper

theorem x02_bytes (upper : Bool) (c : UInt8) : (Piece.x02 upper c.toNat).bytes =
    [digitChar upper (c.toNat / 16), digitChar upper (c.toNat % 16)] := by
  have hc := c.toNat_lt
  by_cases hlt : c.toNat < 16
  · have hdiv : c.toNat / 16 = 0 := Nat.div_eq_of_lt hlt
    rw [Piece.bytes, numeral_of_lt upper hlt, hdiv, Nat.mod_eq_of_lt hlt]
    rfl
  · have hhigh : c.toNat / 16 < 16 := by omega
    rw [Piece.bytes, numeral_of_le upper (by omega) (Nat.le_of_not_lt hlt),
      numeral_of_lt upper hhigh]
    rfl

theorem unhex_x02 (upper : Bool) (c : UInt8) (rest : List UInt8) :
    unhex ((Piece.x02 upper c.toNat).bytes ++ rest) = c :: unhex rest := by
  have hc := c.toNat_lt
  have hhigh := xdigitValue_digitChar upper (show c.toNat / 16 < 16 by omega)
  have hlow := xdigitValue_digitChar upper (show c.toNat % 16 < 16 by omega)
  have hvalue : 16 * (c.toNat / 16) + c.toNat % 16 = c.toNat := Nat.div_add_mod _ _
  rw [x02_bytes]
  change UInt8.ofNat (16 * xdigitValue _ + xdigitValue _) :: unhex rest = _
  rw [hhigh.1, hlow.1, hvalue, UInt8.ofNat_toNat]

theorem isxdigit_of_mem_x02 {upper : Bool} {c x : UInt8}
    (hx : x ∈ (Piece.x02 upper c.toNat).bytes) : isxdigit x = true := by
  have hc := c.toNat_lt
  rw [x02_bytes, List.mem_cons, List.mem_singleton] at hx
  rcases hx with rfl | rfl
  · exact (xdigitValue_digitChar upper (by omega)).2
  · exact (xdigitValue_digitChar upper (by omega)).2

/-- Printed one after the other, bytes are found again. -/
theorem unhex_flatMap (upper : Bool) (bs : List UInt8) :
    unhex (bs.flatMap (fun c => (Piece.x02 upper c.toNat).bytes)) = bs := by
  induction bs with
  | nil => rfl
  | cons c bs ih => rw [List.flatMap_cons, unhex_x02, ih]

end Hex
end CLib
