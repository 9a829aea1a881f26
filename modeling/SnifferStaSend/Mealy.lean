import Mathlib.Data.List.Induction

/-!
# Machines that answer every input

A step takes a state and an input to the next state and an answer. What a step keeps, of the
inputs and answers so far too, a whole run keeps.
-/

namespace CLib

variable {σ ι ο : Type*} (step : σ → ι → σ × ο)

/-- The answers to a list of inputs, in order. -/
def answers : σ → List ι → List ο
  | _, [] => []
  | s, i :: is => (step s i).2 :: answers (step s i).1 is

def final (s : σ) (is : List ι) : σ := is.foldl (fun s i => (step s i).1) s

@[simp] theorem final_append_singleton (s : σ) (is : List ι) (i : ι) :
    final step s (is ++ [i]) = (step (final step s is) i).1 := by
  simp [final]

theorem answers_append (s : σ) (is js : List ι) :
    answers step s (is ++ js) = answers step s is ++ answers step (final step s is) js := by
  induction is generalizing s with
  | nil => rfl
  | cons i is ih => exact congrArg ((step s i).2 :: ·) (ih (step s i).1)

theorem answers_append_singleton (s : σ) (is : List ι) (i : ι) :
    answers step s (is ++ [i]) = answers step s is ++ [(step (final step s is) i).2] :=
  answers_append step s is [i]

@[simp] theorem length_answers (s : σ) (is : List ι) : (answers step s is).length = is.length := by
  induction is generalizing s with
  | nil => rfl
  | cons i is ih => exact congrArg Nat.succ (ih (step s i).1)

/-- The answer to an input is that of the state which the inputs before it lead to. -/
theorem answers_getElem (s : σ) (is : List ι) (n : ℕ) (h : n < is.length)
    (h' : n < (answers step s is).length) :
    (answers step s is)[n] = (step (final step s (is.take n)) is[n]).2 := by
  induction is generalizing s n with
  | nil => exact absurd h (Nat.not_lt_zero n)
  | cons i is ih =>
      cases n with
      | zero => rfl
      | succ n => exact ih (step s i).1 n (Nat.lt_of_succ_lt_succ h) (Nat.lt_of_succ_lt_succ h')

theorem final_invariant {P : List ι → List ο → σ → Prop}
    (hstep : ∀ is os s i, P is os s → P (is ++ [i]) (os ++ [(step s i).2]) (step s i).1)
    {s : σ} (hs : P [] [] s) (is : List ι) : P is (answers step s is) (final step s is) := by
  induction is using List.reverseRecOn with
  | nil => exact hs
  | append_singleton is i ih =>
      rw [answers_append_singleton, final_append_singleton]
      exact hstep is _ _ i ih

end CLib
