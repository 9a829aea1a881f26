import Mathlib.Data.List.Basic
import Mathlib.Tactic.Ring
import SnifferStaSend.CString

/-!
# `atoi` on a 32-bit target

Blanks, an optional sign and the digits that follow are read; the value saturates at the bounds
of a 32-bit `long`. On raw storage the scan may leave the array before it meets a byte that
ends the numeral, and what it then returns is not determined by the array.
-/

namespace CLib

def isspace (c : UInt8) : Bool := c == 32 || (9 ≤ c && c ≤ 13)

def isdigit (c : UInt8) : Bool := 48 ≤ c && c ≤ 57

def digitsValue (ds : List UInt8) : ℕ := ds.foldl (fun v d => 10 * v + (d.toNat - 48)) 0

structure Numeral where
  negative : Bool
  digits : List UInt8
  rest : List UInt8
  deriving DecidableEq

def scanSign (s : List UInt8) : Bool × List UInt8 :=
  match s with
  | [] => (false, [])
  | c :: t => if c == 45 then (true, t) else if c == 43 then (false, t) else (false, c :: t)

def scanNumeral (s : List UInt8) : Numeral :=
  let signed := scanSign (s.dropWhile isspace)
  ⟨signed.1, signed.2.takeWhile isdigit, signed.2.dropWhile isdigit⟩

/-- Saturation of `strtol` at `LONG_MIN` and `LONG_MAX`. -/
def saturate (v : ℤ) : ℤ := max (-2 ^ 31) (min v (2 ^ 31 - 1))

theorem saturate_of_range {v : ℤ} (h : -2 ^ 31 ≤ v) (h' : v < 2 ^ 31) : saturate v = v := by
  rw [saturate, min_eq_left (by omega), max_eq_right h]

theorem eq_of_saturate {v w : ℤ} (hw : saturate v = w) (h : -2 ^ 31 < w) (h' : w < 2 ^ 31 - 1) :
    v = w := by
  rw [saturate] at hw
  omega

def Numeral.value (m : Numeral) : Int32 :=
  Int32.ofInt (saturate (if m.negative then -(digitsValue m.digits : ℤ) else digitsValue m.digits))

def CString.atoi (s : CString) : Int32 := (scanNumeral s.bytes).value

/-- The integer at the start of a string, of whatever size. -/
def CString.integer (s : CString) : ℤ :=
  if (scanNumeral s.bytes).negative then -(digitsValue (scanNumeral s.bytes).digits : ℤ)
  else digitsValue (scanNumeral s.bytes).digits

theorem CString.toInt_atoi (s : CString) : s.atoi.toInt = saturate s.integer := by
  have hle : -2 ^ 31 ≤ saturate s.integer := le_max_left _ _
  have hlt : saturate s.integer < 2 ^ 31 := by
    rw [saturate]
    omega
  exact Int32.toInt_ofInt_of_le hle hlt

/-- `atoi` of the bytes of an array; `overread` is what the call yields when no byte of the array
ends the numeral, so that the scan goes on in memory past it. -/
def Buf.atoi {n : ℕ} (b : Buf n) (overread : Int32) : Int32 :=
  if (scanNumeral b.bytes).rest = [] then overread else (scanNumeral b.bytes).value

section Digits

theorem isspace_of_isdigit {c : UInt8} (h : isdigit c = true) : isspace c = false := by
  by_contra hspace
  rw [Bool.not_eq_false] at hspace
  simp only [isspace, isdigit, Bool.or_eq_true, beq_iff_eq, Bool.and_eq_true, decide_eq_true_eq,
    UInt8.le_iff_toNat_le, UInt8.reduceToNat] at h hspace
  rcases hspace with rfl | hrange
  · revert h
    decide
  · omega

theorem scanNumeral_of_digits {s : List UInt8} (h : ∀ c ∈ s, isdigit c = true) :
    scanNumeral s = ⟨false, s, []⟩ := by
  have hspace : s.dropWhile isspace = s := by
    rw [List.dropWhile_eq_self_iff]
    intro hpos
    rw [isspace_of_isdigit (h _ (List.getElem_mem hpos))]
    exact Bool.false_ne_true
  have hsign : scanSign s = (false, s) := by
    cases s with
    | nil => rfl
    | cons c t =>
        have hc := h c List.mem_cons_self
        have hminus : ¬ (c == 45) = true := by
          rw [beq_iff_eq]
          rintro rfl
          revert hc
          decide
        have hplus : ¬ (c == 43) = true := by
          rw [beq_iff_eq]
          rintro rfl
          revert hc
          decide
        rw [scanSign, if_neg hminus, if_neg hplus]
  have htake : s.takeWhile isdigit = s := List.takeWhile_eq_self_iff.mpr h
  have hdrop : s.dropWhile isdigit = [] := List.dropWhile_eq_nil_iff.mpr h
  rw [scanNumeral, hspace, hsign, htake, hdrop]

theorem CString.atoi_of_digits {s : CString} (h : ∀ c ∈ s.bytes, isdigit c = true) :
    s.atoi.toInt = min (digitsValue s.bytes : ℤ) (2 ^ 31 - 1) := by
  rw [CString.atoi, scanNumeral_of_digits h, Numeral.value, if_neg Bool.false_ne_true, saturate,
    Int32.toInt_ofInt]
  have hsize : Int32.size = 2 ^ 32 := rfl
  dsimp only
  rw [Int.bmod_eq_of_le (by omega) (by omega)]
  omega

/-- The bytes that a numeral, or the blanks before it, can start with. -/
def startsNumeral (c : UInt8) : Bool := isspace c || c == 45 || c == 43 || isdigit c

theorem CString.startsNumeral_of_atoi {s : CString} (h : s.atoi ≠ 0) :
    ∃ c ∈ s.bytes.head?, startsNumeral c = true := by
  obtain ⟨bytes, hnul⟩ := s
  cases bytes with
  | nil => exact absurd rfl h
  | cons c t =>
      refine ⟨c, rfl, ?_⟩
      by_contra hno
      simp only [startsNumeral, Bool.or_eq_true, not_or, Bool.not_eq_true] at hno
      obtain ⟨⟨⟨hspace, hminus⟩, hplus⟩, hdigit⟩ := hno
      have hscan : scanNumeral (c :: t) = ⟨false, [], c :: t⟩ := by
        simp [scanNumeral, scanSign, hspace, hminus, hplus, hdigit]
      apply h
      rw [CString.atoi, hscan]
      rfl

end Digits

section Terminated

theorem dropWhile_append_stop {α : Type*} (p : α → Bool) {c : α} (hc : p c = false)
    (s rest : List α) :
    (s ++ c :: rest).dropWhile p = s.dropWhile p ++ c :: rest := by
  induction s with
  | nil => simp [hc]
  | cons x s ih =>
      cases hx : p x with
      | true => rw [List.cons_append, List.dropWhile_cons_of_pos hx, ih,
          List.dropWhile_cons_of_pos hx]
      | false => rw [List.cons_append, List.dropWhile_cons_of_neg (by simp [hx]),
          List.dropWhile_cons_of_neg (by simp [hx]), List.cons_append]

theorem takeWhile_append_stop {α : Type*} (p : α → Bool) {c : α} (hc : p c = false)
    (s rest : List α) :
    (s ++ c :: rest).takeWhile p = s.takeWhile p := by
  induction s with
  | nil => simp [hc]
  | cons x s ih =>
      cases hx : p x with
      | true => rw [List.cons_append, List.takeWhile_cons_of_pos hx, ih,
          List.takeWhile_cons_of_pos hx]
      | false => rw [List.cons_append, List.takeWhile_cons_of_neg (by simp [hx]),
          List.takeWhile_cons_of_neg (by simp [hx])]

theorem scanSign_append_nul (s rest : List UInt8) :
    scanSign (s ++ 0 :: rest) = ((scanSign s).1, (scanSign s).2 ++ 0 :: rest) := by
  cases s with
  | nil => rfl
  | cons c t =>
      simp only [List.cons_append, scanSign]
      split_ifs <;> rfl

/-- The terminator ends the scan, so what follows it does not matter. -/
theorem scanNumeral_append_nul (s rest : List UInt8) :
    scanNumeral (s ++ 0 :: rest) =
      ⟨(scanNumeral s).negative, (scanNumeral s).digits, (scanNumeral s).rest ++ 0 :: rest⟩ := by
  have hspace : isspace 0 = false := by decide
  have hdigit : isdigit 0 = false := by decide
  simp only [scanNumeral, dropWhile_append_stop isspace hspace, scanSign_append_nul,
    takeWhile_append_stop isdigit hdigit, dropWhile_append_stop isdigit hdigit]

theorem Buf.Holds.atoi {n : ℕ} {b : Buf n} {s : CString} (h : b.Holds s) (overread : Int32) :
    b.atoi overread = s.atoi := by
  obtain ⟨rest, hb⟩ := h
  rw [Buf.atoi, hb, scanNumeral_append_nul, if_neg (by simp)]
  rfl

end Terminated
end CLib
