import Mathlib.Algebra.Group.Int.Defs
import Mathlib.Data.Int.Basic
import Mathlib.Tactic.SplitIfs

/-!
# Arithmetic of `int` without overflow

A C program means nothing once an operation on `int` leaves the 32-bit range. The operations
are those of the integers, cut off there. The sum of `Int32`, which wraps, stands for a counter
that a program only prints: its run goes on as the compiled code does, and as long as the exact
sum exists the two are the same.
-/

namespace CLib

/-- An exact result, when an `int` can hold it. -/
def toInt32? (v : ℤ) : Option Int32 :=
  if -2 ^ 31 ≤ v ∧ v < 2 ^ 31 then some (Int32.ofInt v) else none

theorem toInt32?_eq_some {v : ℤ} {w : Int32} : toInt32? v = some w ↔ w.toInt = v := by
  unfold toInt32?
  split_ifs with hrange
  · rw [Option.some.injEq, ← Int32.toInt_inj, Int32.toInt_ofInt_of_le hrange.1 hrange.2]
    exact eq_comm
  · have hle := w.le_toInt
    have hlt := w.toInt_lt
    simp only [false_iff]
    omega

theorem exists_toInt32? {v : ℤ} (hmin : -2 ^ 31 ≤ v) (hmax : v < 2 ^ 31) :
    ∃ w, toInt32? v = some w := ⟨_, if_pos ⟨hmin, hmax⟩⟩

def addInt (a b : Int32) : Option Int32 := toInt32? (a.toInt + b.toInt)

def mulInt (a b : Int32) : Option Int32 := toInt32? (a.toInt * b.toInt)

theorem addInt_eq_some {a b c : Int32} : addInt a b = some c ↔ c.toInt = a.toInt + b.toInt :=
  toInt32?_eq_some

/-- The wrapping sum is the exact one where there is one. -/
theorem addInt_add {a b : Int32} (hmin : -2 ^ 31 ≤ a.toInt + b.toInt)
    (hmax : a.toInt + b.toInt < 2 ^ 31) : addInt a b = some (a + b) := by
  rw [addInt_eq_some, Int32.toInt_add]
  exact Int.bmod_eq_of_le (by omega) (by omega)

theorem mulInt_eq_some {a b c : Int32} : mulInt a b = some c ↔ c.toInt = a.toInt * b.toInt :=
  toInt32?_eq_some

/-- The conversion to `uint64_t`, which is modulo `2 ^ 64`. -/
def toUint64 (v : Int32) : UInt64 := v.toInt64.toUInt64

theorem toNat_toUint64 (v : Int32) : ((toUint64 v).toNat : ℤ) = v.toInt % 2 ^ 64 := by
  have hlt : ((toUint64 v).toNat : ℤ) < 2 ^ 64 := by exact_mod_cast (toUint64 v).toNat_lt
  have hsigned : v.toInt = ((toUint64 v).toNat : ℤ).bmod (2 ^ 64) := by
    rw [← Int32.toInt_toInt64]
    exact BitVec.toInt_eq_toNat_bmod _
  rw [hsigned]
  have hcast : (2 ^ 64 : ℤ) = ((2 ^ 64 : ℕ) : ℤ) := by norm_cast
  rw [hcast, Int.bmod_emod, ← hcast, Int.emod_eq_of_lt (Int.natCast_nonneg _) hlt]

end CLib
