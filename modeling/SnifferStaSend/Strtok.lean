import Mathlib.Data.List.Basic
import Mathlib.Data.List.TakeWhile

/-!
# The stateful tokenizer `strtok`

`strtok` keeps the rest of the string between calls in a hidden position. The `n`-th call of
a run started on `s` returns the `n`-th field of `s`, a field being a nonempty stretch between
delimiters; past the last field every call returns NULL.
-/

namespace CLib

variable {α : Type*}

/-- Position saved between two calls; `none` once the string is used up. -/
abbrev SavePtr (α : Type*) := Option (List α)

/-- Returned token (`none` for NULL) and the position kept for the next call. -/
def strtok (delim : α → Bool) (s : Option (List α)) (last : SavePtr α) :
    Option (List α) × SavePtr α :=
  match s <|> last with
  | none => (none, none)
  | some str =>
    match str.dropWhile delim with
    | [] => (none, none)
    | c :: rest =>
      match (c :: rest).dropWhile (fun x => !delim x) with
      | [] => (some (c :: rest), none)
      | _ :: after => (some ((c :: rest).takeWhile (fun x => !delim x)), some after)

/-- The nonempty stretches of `s` between delimiters, from left to right. -/
def fields (delim : α → Bool) (s : List α) : List (List α) :=
  (s.splitOnP delim).filter (fun f => !f.isEmpty)

section Fields

variable (delim : α → Bool)

theorem fields_cons_delim {c : α} (hc : delim c = true) (s : List α) :
    fields delim (c :: s) = fields delim s := by
  simp [fields, List.splitOnP_cons_eq_if_modifyHead, hc]

theorem fields_dropWhile (s : List α) : fields delim (s.dropWhile delim) = fields delim s := by
  induction s with
  | nil => rfl
  | cons c s ih =>
      cases hc : delim c with
      | true => rw [List.dropWhile_cons_of_pos hc, ih, fields_cons_delim delim hc]
      | false => rw [List.dropWhile_cons_of_neg (by simp [hc])]

theorem fields_of_no_delim {s : List α} (hs : s ≠ []) (h : ∀ c ∈ s, delim c = false) :
    fields delim s = [s] := by
  rw [fields, List.splitOnP_eq_singleton h]
  simp [hs]

theorem fields_append_delim {f : List α} {c : α} (hf : f ≠ []) (h : ∀ x ∈ f, delim x = false)
    (hc : delim c = true) (s : List α) :
    fields delim (f ++ c :: s) = f :: fields delim s := by
  rw [fields, List.splitOnP_append_cons_of_forall_mem h c hc]
  simp [hf, fields]

/-- The shape of a string: blank, a last field, or a field, a delimiter and the rest. -/
theorem fields_cases (s : List α) :
    (s.dropWhile delim = [] ∧ fields delim s = []) ∨
    (∃ f, s.dropWhile delim = f ∧ f ≠ [] ∧ (∀ c ∈ f, delim c = false) ∧ fields delim s = [f]) ∨
    (∃ f c after, s.dropWhile delim = f ++ c :: after ∧ f ≠ [] ∧ (∀ x ∈ f, delim x = false) ∧
      delim c = true ∧ fields delim s = f :: fields delim after) := by
  rw [← fields_dropWhile delim s]
  cases hd : s.dropWhile delim with
  | nil => exact Or.inl ⟨rfl, rfl⟩
  | cons a t =>
      right
      have ha : delim a = false := by
        have := List.head?_dropWhile_not delim s
        rw [hd] at this
        simpa using this
      have hsplit := List.takeWhile_append_dropWhile (p := fun x => !delim x) (l := a :: t)
      have htake : ∀ x ∈ (a :: t).takeWhile (fun x => !delim x), delim x = false := by
        intro x hx
        simpa using List.mem_takeWhile_imp hx
      have hne : (a :: t).takeWhile (fun x => !delim x) ≠ [] := by simp [ha]
      cases hr : (a :: t).dropWhile (fun x => !delim x) with
      | nil =>
          rw [hr, List.append_nil] at hsplit
          rw [hsplit] at htake
          exact Or.inl ⟨a :: t, rfl, by simp, htake,
            fields_of_no_delim delim (by simp) htake⟩
      | cons c after =>
          have hc : delim c = true := by
            have := List.head?_dropWhile_not (fun x => !delim x) (a :: t)
            rw [hr] at this
            simpa using this
          rw [hr] at hsplit
          refine Or.inr ⟨_, c, after, hsplit.symm, hne, htake, hc, ?_⟩
          rw [← hsplit]
          simpa only [hsplit] using fields_append_delim delim hne htake hc after

theorem fields_cons_of_not_delim {c : α} (hc : delim c = false) (s : List α) :
    ∃ t rest, fields delim (c :: s) = (c :: t) :: rest := by
  have hdrop : (c :: s).dropWhile delim = c :: s := List.dropWhile_cons_of_neg (by simp [hc])
  rcases fields_cases delim (c :: s) with ⟨hd, -⟩ | ⟨f, hd, -, -, hf⟩ |
    ⟨f, x, after, hd, hne, -, -, hf⟩
  · rw [hdrop] at hd
    cases hd
  · obtain rfl : c :: s = f := hdrop.symm.trans hd
    exact ⟨s, [], hf⟩
  · obtain ⟨a, t, rfl⟩ := List.exists_cons_of_ne_nil hne
    obtain ⟨rfl, -⟩ := List.cons.inj (hdrop.symm.trans hd)
    exact ⟨t, fields delim after, hf⟩

theorem fields_ne_nil {s : List α} (h : ∃ c ∈ s, delim c = false) : fields delim s ≠ [] := by
  obtain ⟨c, hmem, hc⟩ := h
  rcases fields_cases delim s with ⟨hd, -⟩ | ⟨f, -, -, -, hf⟩ | ⟨f, x, after, -, -, -, -, hf⟩
  · have hall := List.dropWhile_eq_nil_iff.mp hd c hmem
    rw [hc] at hall
    cases hall
  · simp [hf]
  · simp [hf]

/-- Of what has been joined with one delimiter only the empty parts get lost. -/
theorem fields_intercalate [BEq α] [LawfulBEq α] (c : α) (parts : List (List α))
    (h : ∀ p ∈ parts, c ∉ p) :
    fields (· == c) ([c].intercalate parts) = parts.filter (fun p => !p.isEmpty) := by
  cases parts with
  | nil => rfl
  | cons p parts =>
      have hsplit := List.splitOn_intercalate c h (List.cons_ne_nil p parts)
      rw [fields, ← List.splitOn_eq_splitOnP, hsplit]

end Fields

section Tokens

variable (delim : α → Bool)

theorem strtok_blank {s : List α} (h : s.dropWhile delim = []) (last : SavePtr α) :
    strtok delim (some s) last = (none, none) := by
  simp [strtok, h]

theorem strtok_last {s f : List α} (hd : s.dropWhile delim = f) (hf : f ≠ [])
    (h : ∀ c ∈ f, delim c = false) (last : SavePtr α) :
    strtok delim (some s) last = (some f, none) := by
  obtain ⟨a, t, rfl⟩ := List.exists_cons_of_ne_nil hf
  have hr : (a :: t).dropWhile (fun x => !delim x) = [] :=
    List.dropWhile_eq_nil_iff.mpr (fun x hx => by simp [h x hx])
  simp only [strtok, Option.orElse_eq_orElse, Option.orElse_eq_or, Option.some_or, hd, hr]

theorem strtok_field {s f after : List α} {c : α} (hd : s.dropWhile delim = f ++ c :: after)
    (hf : f ≠ []) (h : ∀ x ∈ f, delim x = false) (hc : delim c = true) (last : SavePtr α) :
    strtok delim (some s) last = (some f, some after) := by
  obtain ⟨a, t, rfl⟩ := List.exists_cons_of_ne_nil hf
  have hpos : ∀ x ∈ a :: t, (!delim x) = true := fun x hx => by simp [h x hx]
  have hr : (a :: t ++ c :: after).dropWhile (fun x => !delim x) = c :: after := by
    rw [List.dropWhile_append_of_pos hpos, List.dropWhile_cons_of_neg (by simp [hc])]
  have ht : (a :: t ++ c :: after).takeWhile (fun x => !delim x) = a :: t := by
    rw [List.takeWhile_append_of_pos hpos, List.takeWhile_cons_of_neg (by simp [hc]),
      List.append_nil]
  simp only [List.cons_append] at hr ht hd
  simp only [strtok, Option.orElse_eq_orElse, Option.orElse_eq_or, Option.some_or, hd, hr, ht]

theorem strtok_null (s : List α) : strtok delim none (some s) = strtok delim (some s) none := rfl

theorem strtok_done : strtok delim (none : Option (List α)) none = (none, none) := rfl

/-- One call on `s` returns the first field and leaves the other fields for later calls. -/
theorem strtok_spec (s : List α) (last : SavePtr α) :
    (strtok delim (some s) last).1 = (fields delim s)[0]? ∧
      (((strtok delim (some s) last).2.map (fields delim)).getD []) = (fields delim s).drop 1 := by
  rcases fields_cases delim s with ⟨hd, hf⟩ | ⟨f, hd, hne, hall, hf⟩ |
    ⟨f, c, after, hd, hne, hall, hc, hf⟩
  · simp [strtok_blank delim hd, hf]
  · simp [strtok_last delim hd hne hall, hf]
  · simp [strtok_field delim hd hne hall hc, hf]

/-- `k` further calls with NULL after a call that returned `r`. -/
def strtokAgain (delim : α → Bool) :
    ℕ → Option (List α) × SavePtr α → Option (List α) × SavePtr α
  | 0, r => r
  | k + 1, (_, last) => strtokAgain delim k (strtok delim none last)

theorem strtokAgain_succ (k : ℕ) (r : Option (List α) × SavePtr α) :
    strtokAgain delim (k + 1) r = strtok delim none (strtokAgain delim k r).2 := by
  induction k generalizing r with
  | zero => rfl
  | succ k ih =>
      rw [strtokAgain, ih]
      rfl

theorem strtokAgain_none (k : ℕ) (t : Option (List α)) :
    (strtokAgain delim (k + 1) (t, none)).1 = none := by
  induction k generalizing t with
  | zero => rfl
  | succ k ih =>
      rw [strtokAgain, strtok_done]
      exact ih none

theorem strtokAgain_spec (n : ℕ) (s : List α) (last : SavePtr α) :
    (strtokAgain delim n (strtok delim (some s) last)).1 = (fields delim s)[n]? := by
  induction n generalizing s last with
  | zero => exact (strtok_spec delim s last).1
  | succ n ih =>
      have hspec := (strtok_spec delim s last).2
      cases hs : strtok delim (some s) last with
      | mk t rest =>
          rw [hs] at hspec
          cases rest with
          | none =>
              rw [strtokAgain_none]
              have hlen := congrArg List.length hspec
              simp only [Option.map_none, Option.getD_none, List.length_nil,
                List.length_drop] at hlen
              rw [List.getElem?_eq_none (by omega)]
          | some after =>
              have hfields : fields delim after = (fields delim s).drop 1 := by simpa using hspec
              rw [strtokAgain, strtok_null, ih after none, hfields, List.getElem?_drop,
                Nat.add_comm 1 n]

end Tokens

end CLib
