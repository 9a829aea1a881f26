import Mathlib.Order.Basic
import Mathlib.Data.Option.Basic

/-!
# `while` loops that need not return

A loop is run with fuel, and `none` says that it has not returned by then. A measure that every
round decreases tells how much fuel is enough.
-/

namespace CLib

variable {σ : Type*} {cond : σ → Bool} {body : σ → Option σ}

/-- `while (cond s) body`, given up when the condition has been tested `fuel` times. -/
def whileLoop (cond : σ → Bool) (body : σ → Option σ) : ℕ → σ → Option σ
  | 0, _ => none
  | fuel + 1, s => if cond s then (body s).bind (whileLoop cond body fuel) else some s

theorem whileLoop_of_false {s : σ} (h : cond s = false) (fuel : ℕ) :
    whileLoop cond body (fuel + 1) s = some s := by
  rw [whileLoop, h]
  rfl

theorem whileLoop_of_true {s s' : σ} (h : cond s = true) (hbody : body s = some s') (fuel : ℕ) :
    whileLoop cond body (fuel + 1) s = whileLoop cond body fuel s' := by
  rw [whileLoop, if_pos h, hbody]
  rfl

theorem cond_of_whileLoop {fuel : ℕ} {s s' : σ} (h : whileLoop cond body fuel s = some s') :
    cond s' = false := by
  induction fuel generalizing s with
  | zero => cases h
  | succ fuel ih =>
      rw [whileLoop] at h
      by_cases hs : cond s = true
      · rw [if_pos hs] at h
        obtain ⟨s₁, -, hrest⟩ := Option.bind_eq_some_iff.mp h
        exact ih hrest
      · rw [if_neg hs] at h
        obtain rfl := Option.some.inj h
        simpa using hs

/-- Rounds that keep `Inv` and decrease `measure` come to an end. -/
theorem whileLoop_ends {Inv : σ → Prop} (measure : σ → ℕ)
    (hround : ∀ s, Inv s → cond s = true → ∃ s', body s = some s' ∧ Inv s' ∧ measure s' < measure s)
    {s : σ} (hs : Inv s) {fuel : ℕ} (hfuel : measure s < fuel) :
    ∃ s', whileLoop cond body fuel s = some s' ∧ Inv s' ∧ cond s' = false := by
  induction fuel generalizing s with
  | zero => exact absurd hfuel (Nat.not_lt_zero _)
  | succ fuel ih =>
      cases hc : cond s with
      | false => exact ⟨s, whileLoop_of_false hc fuel, hs, hc⟩
      | true =>
          obtain ⟨s₁, hbody, hs₁, hlt⟩ := hround s hs hc
          rw [whileLoop_of_true hc hbody]
          exact ih hs₁ (by omega)

end CLib
