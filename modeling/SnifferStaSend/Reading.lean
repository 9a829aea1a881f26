import Mathlib.Data.Set.Basic

/-!
# Reads of a memory, kept in a log

A computation that reads bytes keeps the indices it has read. What an index has to satisfy is
followed through the computation by one rule for each way of composing it.
-/

namespace CLib

abbrev Reading := StateM (List ℕ)

namespace Reading

variable {α β : Type} {mem : ℕ → UInt8} {s t : Set ℕ}

@[simp] theorem bind_apply (x : Reading α) (f : α → Reading β) (log : List ℕ) :
    (x >>= f) log = f (x log).1 (x log).2 := rfl

@[simp] theorem pure_apply (a : α) (log : List ℕ) : (pure a : Reading α) log = (a, log) := rfl

def byte (mem : ℕ → UInt8) (i : ℕ) : Reading UInt8 := fun log => (mem i, log ++ [i])

def bytes (mem : ℕ → UInt8) : ℕ → ℕ → Reading (List UInt8)
  | _, 0 => return []
  | i, n + 1 => do
    let b ← byte mem i
    let bs ← bytes mem (i + 1) n
    return b :: bs

/-- `memcmp` of the constant `cs` and the bytes from `i` on is 0. -/
def memcmpIsZero (mem : ℕ → UInt8) (cs : List UInt8) (i : ℕ) : Reading Bool := do
  let bs ← bytes mem i cs.length
  return bs == cs

/-- `mem[i] == c₀ && mem[i + 1] == c₁ && …`, which stops at the first difference. -/
def charsAre (mem : ℕ → UInt8) : ℕ → List UInt8 → Reading Bool
  | _, [] => return true
  | i, c :: cs => do
    let b ← byte mem i
    if b == c then charsAre mem (i + 1) cs else return false

theorem bytes_apply (mem : ℕ → UInt8) (i n : ℕ) (log : List ℕ) :
    bytes mem i n log = ((List.range' i n).map mem, log ++ List.range' i n) := by
  induction n generalizing i log with
  | zero => simp [bytes]
  | succ n ih =>
      rw [bytes, bind_apply, bind_apply, ih, byte, List.range'_succ, List.append_assoc]
      rfl

/-- Every index that is read lies in `s`. -/
def Within (x : Reading α) (s : Set ℕ) : Prop :=
  ∀ log, ∃ reads, (x log).2 = log ++ reads ∧ ∀ i ∈ reads, i ∈ s

theorem within_pure (a : α) : Within (pure a) s := fun _ => ⟨[], by simp, by simp⟩

theorem within_byte {i : ℕ} (hi : i ∈ s) : Within (byte mem i) s :=
  fun _ => ⟨[i], rfl, by simpa using hi⟩

/-- The second computation may rely on what the first one has returned. -/
theorem Within.bind {x : Reading α} {f : α → Reading β} (hx : x.Within s)
    (hf : ∀ log, (f (x log).1).Within s) : Within (x >>= f) s := by
  intro log
  obtain ⟨before, hbefore, hbefore'⟩ := hx log
  obtain ⟨after, hafter, hafter'⟩ := hf log (x log).2
  refine ⟨before ++ after, ?_, ?_⟩
  · rw [bind_apply, hafter, hbefore, List.append_assoc]
  · intro i hi
    exact (List.mem_append.mp hi).elim (hbefore' i) (hafter' i)

theorem Within.ite {c : Prop} [Decidable c] {x y : Reading α} (hx : c → x.Within s)
    (hy : ¬ c → y.Within s) : Within (if c then x else y) s := by
  by_cases hc : c
  · rw [if_pos hc]
    exact hx hc
  · rw [if_neg hc]
    exact hy hc

theorem within_bytes {i n : ℕ} (h : ∀ j, i ≤ j → j < i + n → j ∈ s) :
    Within (bytes mem i n) s := by
  intro log
  refine ⟨List.range' i n, by rw [bytes_apply], ?_⟩
  intro j hj
  obtain ⟨hle, hlt⟩ := List.mem_range'_1.mp hj
  exact h j hle hlt

theorem within_memcmpIsZero {cs : List UInt8} {i : ℕ}
    (h : ∀ j, i ≤ j → j < i + cs.length → j ∈ s) : Within (memcmpIsZero mem cs i) s :=
  (within_bytes h).bind (fun _ => within_pure _)

section CharsAre

theorem charsAre_cons (mem : ℕ → UInt8) (i : ℕ) (c : UInt8) (cs : List UInt8) :
    charsAre mem i (c :: cs) =
      byte mem i >>= fun b => if b = c then charsAre mem (i + 1) cs else return false := by
  simp only [charsAre, beq_iff_eq]

theorem charsAre_iff (mem : ℕ → UInt8) (i : ℕ) (cs : List UInt8) (log : List ℕ) :
    (charsAre mem i cs log).1 = true ↔ ∀ k (hk : k < cs.length), mem (i + k) = cs[k] := by
  induction cs generalizing i log with
  | nil => simp [charsAre]
  | cons c cs ih =>
      rw [charsAre_cons, bind_apply, byte]
      dsimp only
      by_cases hc : mem i = c
      · rw [if_pos hc, ih]
        constructor
        · intro h k hk
          cases k with
          | zero => exact hc
          | succ k =>
              have hnext := h k (Nat.lt_of_succ_lt_succ hk)
              rwa [Nat.add_right_comm, Nat.add_assoc] at hnext
        · intro h k hk
          have hnext := h (k + 1) (Nat.succ_lt_succ hk)
          rwa [← Nat.add_assoc, Nat.add_right_comm] at hnext
      · rw [if_neg hc]
        apply iff_of_false Bool.false_ne_true
        intro h
        exact hc (h 0 (Nat.succ_pos _))

theorem within_charsAre {cs : List UInt8} {stop : ℕ} (hstop : mem stop ∉ cs) {i : ℕ}
    (hi : i ≤ stop) : Within (charsAre mem i cs) {j | j ≤ stop} := by
  induction cs generalizing i with
  | nil => exact within_pure true
  | cons c cs ih =>
      rw [List.mem_cons, not_or] at hstop
      have hread : i ∈ {j | j ≤ stop} := hi
      rw [charsAre_cons]
      apply (within_byte hread).bind
      intro log
      apply Within.ite
      · intro (hc : mem i = c)
        have hne : i ≠ stop := fun heq => hstop.1 (heq ▸ hc)
        exact ih hstop.2 (by omega)
      · intro _
        exact within_pure false

end CharsAre
end Reading
end CLib
