import Mathlib.Data.Set.Function
import Mathlib.Data.UInt
import Mathlib.Order.Interval.Set.Defs
import SnifferStaSend.Loop
import SnifferStaSend.Strtok

/-!
# C strings in a flat memory

A memory has a byte at every address. `sprintf` and `strtok` are given as they work on it: they
scan for the byte that stops them, and `strtok` writes a terminator behind each field, into the
string it was started on. On that string they do what the functions on lists do.
-/

namespace CLib

abbrev Memory := ℕ → UInt8

namespace Memory

section Holds

variable {mem mem' : Memory} {p : ℕ} {bs : List UInt8}

/-- The bytes from address `p` on are `bs`. -/
def Holds (mem : Memory) : ℕ → List UInt8 → Prop
  | _, [] => True
  | p, c :: bs => mem p = c ∧ Holds mem (p + 1) bs

instance Holds.decidable (mem : Memory) : (p : ℕ) → (bs : List UInt8) → Decidable (Holds mem p bs)
  | _, [] => inferInstanceAs (Decidable True)
  | p, c :: bs =>
    have := Holds.decidable mem (p + 1) bs
    inferInstanceAs (Decidable (mem p = c ∧ Holds mem (p + 1) bs))

theorem holds_append (bs cs : List UInt8) :
    Holds mem p (bs ++ cs) ↔ Holds mem p bs ∧ Holds mem (p + bs.length) cs := by
  induction bs generalizing p with
  | nil => simp [Holds]
  | cons c bs ih =>
      have hlen : p + 1 + bs.length = p + (c :: bs).length := by
        rw [List.length_cons]
        omega
      simp only [List.cons_append, Holds, ih, hlen, and_assoc]

theorem holds_iff : Holds mem p bs ↔ ∀ i (hi : i < bs.length), mem (p + i) = bs[i] := by
  induction bs generalizing p with
  | nil => simp [Holds]
  | cons c bs ih =>
      rw [Holds, ih]
      constructor
      · rintro ⟨hfirst, hrest⟩ i hi
        cases i with
        | zero => exact hfirst
        | succ i =>
            have hbyte := hrest i (Nat.lt_of_succ_lt_succ hi)
            rwa [Nat.add_right_comm, Nat.add_assoc] at hbyte
      · intro h
        refine ⟨h 0 (Nat.succ_pos _), ?_⟩
        intro i hi
        have hbyte := h (i + 1) (Nat.succ_lt_succ hi)
        rwa [← Nat.add_assoc, Nat.add_right_comm] at hbyte

theorem Holds.drop (h : Holds mem p bs) {n : ℕ} (hn : n ≤ bs.length) :
    Holds mem (p + n) (bs.drop n) := by
  rw [← List.take_append_drop n bs, holds_append, List.length_take_of_le hn] at h
  exact h.2

theorem Holds.of_eqOn {s : Set ℕ} (h : Holds mem p bs) (hsame : s.EqOn mem' mem)
    (hs : Set.Ico p (p + bs.length) ⊆ s) : Holds mem' p bs := by
  rw [holds_iff] at h ⊢
  intro i hi
  rw [hsame (hs ⟨by omega, by omega⟩)]
  exact h i hi

end Holds

/-- The C string at address `p` is `s`. -/
structure StringAt (mem : Memory) (p : ℕ) (s : List UInt8) : Prop where
  holds : Holds mem p (s ++ [0])
  noNul : 0 ∉ s

section StringAt

variable {mem mem' : Memory} {p : ℕ} {s t : List UInt8}

theorem StringAt.terminated (h : StringAt mem p s) : mem (p + s.length) = 0 :=
  ((holds_append s [0]).mp h.holds).2.1

theorem StringAt.of_eqOn {a : Set ℕ} (h : StringAt mem p s) (hsame : a.EqOn mem' mem)
    (hs : Set.Ico p (p + s.length + 1) ⊆ a) : StringAt mem' p s where
  holds := h.holds.of_eqOn hsame (by simpa [Nat.add_assoc] using hs)
  noNul := h.noNul

theorem StringAt.append_right (h : StringAt mem p (s ++ t)) : StringAt mem (p + s.length) t where
  holds := by
    have hholds := h.holds
    rw [List.append_assoc] at hholds
    exact ((holds_append s _).mp hholds).2
  noNul := fun hmem => h.noNul (List.mem_append_right s hmem)

theorem StringAt.head_ne_zero (h : StringAt mem p s) (hne : s ≠ []) : mem p ≠ 0 := by
  obtain ⟨c, t, rfl⟩ := List.exists_cons_of_ne_nil hne
  rw [h.holds.1]
  exact fun hc => h.noNul (hc ▸ List.mem_cons_self)

theorem StringAt.terminate {c : UInt8} (h : StringAt mem p (s ++ c :: t)) :
    StringAt (Function.update mem (p + s.length) 0) p s ∧
      StringAt (Function.update mem (p + s.length) 0) (p + s.length + 1) t := by
  have hsame : Set.EqOn (Function.update mem (p + s.length) 0) mem {p + s.length}ᶜ :=
    fun q hq => Function.update_of_ne hq _ _
  have hholds := h.holds
  rw [List.append_assoc, holds_append] at hholds
  obtain ⟨hfirst, -, hrest⟩ := hholds
  constructor
  · refine ⟨(holds_append s [0]).mpr ⟨hfirst.of_eqOn hsame ?_, ?_, trivial⟩, ?_⟩
    · rintro q ⟨-, hlt⟩ rfl
      exact lt_irrefl _ hlt
    · exact Function.update_self _ _ _
    · exact fun hmem => h.noNul (List.mem_append_left _ hmem)
  · refine ⟨Holds.of_eqOn hrest hsame ?_, ?_⟩
    · rintro q ⟨hle, -⟩ rfl
      omega
    · exact fun hmem => h.noNul (List.mem_append_right _ (List.mem_cons_of_mem _ hmem))

end StringAt

section Scan

/-- The first address from `p` on whose byte satisfies `stop`. -/
def scan (stop : UInt8 → Bool) (mem : Memory) (fuel p : ℕ) : Option ℕ :=
  whileLoop (fun q => !stop (mem q)) (fun q => some (q + 1)) fuel p

variable {stop : UInt8 → Bool} {mem : Memory}

theorem scan_of_holds {p : ℕ} {bs : List UInt8} (h : Holds mem p bs)
    (hskip : ∀ c ∈ bs, stop c = false) (hstop : stop (mem (p + bs.length)) = true) {fuel : ℕ}
    (hfuel : bs.length < fuel) : scan stop mem fuel p = some (p + bs.length) := by
  induction bs generalizing p fuel with
  | nil =>
      obtain ⟨fuel, rfl⟩ := Nat.exists_eq_add_of_lt hfuel
      exact whileLoop_of_false (by simpa using hstop) _
  | cons c bs ih =>
      obtain ⟨fuel, rfl⟩ : ∃ k, fuel = k + 1 := Nat.exists_eq_succ_of_ne_zero (by omega)
      obtain ⟨hc, hrest⟩ := h
      have hlen : p + (c :: bs).length = p + 1 + bs.length := by
        rw [List.length_cons]
        omega
      have hgo : stop (mem p) = false := by
        rw [hc, hskip c List.mem_cons_self]
      have hnext : scan stop mem (fuel + 1) p = scan stop mem fuel (p + 1) := by
        rw [scan, whileLoop, if_pos (by simp [hgo])]
        rfl
      rw [hlen] at hstop ⊢
      rw [hnext]
      exact ih hrest (fun d hd => hskip d (List.mem_cons_of_mem _ hd)) hstop
        (Nat.lt_of_succ_lt_succ hfuel)

end Scan
section Sprintf

variable {mem : Memory}

/-- `n` bytes from `src` on to `dst`, all read before they are written. -/
def copy (mem : Memory) (dst src n : ℕ) : Memory :=
  fun p => if dst ≤ p ∧ p < dst + n then mem (src + (p - dst)) else mem p

def sprintf (fuel : ℕ) (mem : Memory) (dst src : ℕ) : Option Memory := do
  let stop ← scan (fun c => c == 0) mem fuel src
  return copy mem dst src (stop - src + 1)

theorem copy_eqOn (mem : Memory) (dst src n : ℕ) :
    Set.EqOn (copy mem dst src n) mem (Set.Ico dst (dst + n))ᶜ :=
  fun _ hp => if_neg hp

theorem holds_copy {src : ℕ} {bs : List UInt8} (h : Holds mem src bs) (dst : ℕ) :
    Holds (copy mem dst src bs.length) dst bs := by
  rw [holds_iff] at h ⊢
  intro i hi
  have hin : dst ≤ dst + i ∧ dst + i < dst + bs.length := by omega
  rw [copy, if_pos hin, Nat.add_sub_cancel_left]
  exact h i hi

theorem sprintf_of_stringAt {src : ℕ} {s : List UInt8} (h : StringAt mem src s) (dst : ℕ)
    {fuel : ℕ} (hfuel : s.length < fuel) :
    ∃ mem', sprintf fuel mem dst src = some mem' ∧ StringAt mem' dst s ∧
      Set.EqOn mem' mem (Set.Ico dst (dst + s.length + 1))ᶜ := by
  have hskip : ∀ c ∈ s, (c == 0) = false := by
    intro c hc
    have hne : c ≠ 0 := fun h0 => h.noNul (h0 ▸ hc)
    simpa using hne
  have hstop : (mem (src + s.length) == 0) = true := by simpa using h.terminated
  have hscan := scan_of_holds ((holds_append s [0]).mp h.holds).1 hskip hstop hfuel
  have hlen : src + s.length - src + 1 = (s ++ [0]).length := by
    rw [List.length_append, Nat.add_sub_cancel_left]
    rfl
  refine ⟨copy mem dst src (s ++ [0]).length, ?_, ⟨holds_copy h.holds dst, h.noNul⟩, ?_⟩
  · rw [sprintf, hscan, ← hlen]
    rfl
  · rw [List.length_append, List.length_singleton, Nat.add_assoc]
    exact copy_eqOn mem dst src (s.length + 1)

end Sprintf

section Strtok

/-- What a call of `strtok` leaves behind: the pointer it returns, the memory, and the position
it keeps for the next call. -/
structure Token where
  ptr : Option ℕ
  mem : Memory
  last : Option ℕ

def closeField (fuel : ℕ) (delim : UInt8 → Bool) (mem : Memory) (tok : ℕ) : Option Token := do
  let stop ← scan (fun c => delim c || c == 0) mem fuel tok
  if mem stop == 0 then return ⟨some tok, mem, none⟩
  else return ⟨some tok, Function.update mem stop 0, some (stop + 1)⟩

def strtok (fuel : ℕ) (delim : UInt8 → Bool) (s : Option ℕ) (mem : Memory) (last : Option ℕ) :
    Option Token :=
  match s <|> last with
  | none => some ⟨none, mem, none⟩
  | some p => do
    let tok ← scan (fun c => !delim c) mem fuel p
    if mem tok == 0 then return ⟨none, mem, none⟩
    else closeField fuel delim mem tok

/-- A call on the memory agrees with a call on lists, about a string that ends at `hi`. -/
structure Represents (lo hi : ℕ) (t : Token) (r : Option (List UInt8) × SavePtr UInt8) : Prop where
  token : Option.Rel (fun p f => StringAt t.mem p f ∧ lo ≤ p ∧ p + f.length ≤ hi) t.ptr r.1
  last : Option.Rel (fun p s => StringAt t.mem p s ∧ lo ≤ p ∧ p + s.length = hi) t.last r.2

variable {delim : UInt8 → Bool} {mem : Memory} {p : ℕ} {s : List UInt8} {fuel : ℕ}

theorem scan_delims (hdelim : delim 0 = false) (h : StringAt mem p s) (hfuel : s.length < fuel) :
    ∃ k, k + (s.dropWhile delim).length = s.length ∧
      scan (fun c => !delim c) mem fuel p = some (p + k) ∧
      StringAt mem (p + k) (s.dropWhile delim) := by
  have hsplit := List.takeWhile_append_dropWhile (p := delim) (l := s)
  have hlen := congrArg List.length hsplit
  rw [List.length_append] at hlen
  have hrest : StringAt mem (p + (s.takeWhile delim).length) (s.dropWhile delim) := by
    apply StringAt.append_right
    rw [hsplit]
    exact h
  have hstop : delim (mem (p + (s.takeWhile delim).length)) = false := by
    cases hd : s.dropWhile delim with
    | nil =>
        rw [hd] at hrest
        rw [hrest.holds.1]
        exact hdelim
    | cons a t =>
        have ha := List.head?_dropWhile_not delim s
        rw [hd] at hrest ha
        rw [hrest.holds.1]
        simpa using ha
  have hfirst : Holds mem p (s.takeWhile delim) := by
    have hholds := h.holds
    rw [← hsplit, List.append_assoc, holds_append] at hholds
    exact hholds.1
  refine ⟨_, hlen, scan_of_holds hfirst ?_ (by simpa using hstop) (by omega), hrest⟩
  intro c hc
  simpa using List.mem_takeWhile_imp hc

theorem scan_field {f rest : List UInt8} {c : UInt8} (h : Holds mem p (f ++ c :: rest))
    (hfield : ∀ x ∈ f, delim x = false) (hnul : 0 ∉ f) (hc : (delim c || c == 0) = true)
    (hfuel : f.length < fuel) :
    scan (fun c => delim c || c == 0) mem fuel p = some (p + f.length) ∧
      mem (p + f.length) = c := by
  obtain ⟨hf, hend, -⟩ := (holds_append f _).mp h
  refine ⟨scan_of_holds hf ?_ (by rwa [hend]) hfuel, hend⟩
  intro x hx
  have hne : x ≠ 0 := fun h0 => hnul (h0 ▸ hx)
  simp [hfield x hx, hne]

theorem strtok_of_scan {tok : ℕ} (hscan : scan (fun c => !delim c) mem fuel p = some tok)
    (last : Option ℕ) : strtok fuel delim (some p) mem last =
      if mem tok == 0 then some ⟨none, mem, none⟩ else closeField fuel delim mem tok := by
  change (scan (fun c => !delim c) mem fuel p).bind _ = _
  rw [hscan]
  rfl

theorem closeField_last {f : List UInt8} (h : StringAt mem p f) (hfield : ∀ c ∈ f, delim c = false)
    (hfuel : f.length < fuel) : closeField fuel delim mem p = some ⟨some p, mem, none⟩ := by
  obtain ⟨hscan, hend⟩ := scan_field h.holds hfield h.noNul (by simp) hfuel
  change (scan _ mem fuel p).bind _ = _
  rw [hscan, Option.bind_some, hend]
  rfl

theorem closeField_field {f after : List UInt8} {c : UInt8} (h : StringAt mem p (f ++ c :: after))
    (hfield : ∀ x ∈ f, delim x = false) (hc : delim c = true) (hfuel : f.length < fuel) :
    closeField fuel delim mem p = some
      ⟨some p, Function.update mem (p + f.length) 0, some (p + f.length + 1)⟩ := by
  have hholds := h.holds
  rw [List.append_assoc] at hholds
  have hnul : 0 ∉ f := fun hmem => h.noNul (List.mem_append_left _ hmem)
  have hne : c ≠ 0 := by
    rintro rfl
    exact h.noNul (List.mem_append_right _ List.mem_cons_self)
  obtain ⟨hscan, hend⟩ := scan_field hholds hfield hnul (by simp [hc]) hfuel
  change (scan _ mem fuel p).bind _ = _
  rw [hscan, Option.bind_some, hend, if_neg (by simpa using hne)]
  rfl

variable {lo hi : ℕ}

/-- One call on a string in memory does what the call on the list does, and writes only there. -/
theorem strtok_represents (hdelim : delim 0 = false) (h : StringAt mem p s) (hlo : lo ≤ p)
    (hhi : p + s.length = hi) (hfuel : s.length < fuel) (last : Option ℕ) (l : SavePtr UInt8) :
    ∃ t, strtok fuel delim (some p) mem last = some t ∧
      Represents lo hi t (CLib.strtok delim (some s) l) ∧
      Set.EqOn t.mem mem (Set.Ico lo hi)ᶜ := by
  obtain ⟨k, hk, hscan, hrest⟩ := scan_delims hdelim h hfuel
  rw [strtok_of_scan hscan]
  rcases fields_cases delim s with ⟨hd, -⟩ | ⟨f, hd, hne, hall, -⟩ |
    ⟨f, c, after, hd, hne, hall, hc, -⟩
  · rw [hd] at hrest
    have hzero : mem (p + k) = 0 := hrest.holds.1
    rw [hzero, strtok_blank delim hd]
    exact ⟨_, rfl, ⟨.none, .none⟩, Set.eqOn_refl _ _⟩
  · rw [hd] at hrest hk
    have hnonzero := hrest.head_ne_zero hne
    rw [if_neg (by simpa using hnonzero), closeField_last hrest hall (by omega),
      strtok_last delim hd hne hall]
    exact ⟨_, rfl, ⟨.some ⟨hrest, by omega, by omega⟩, .none⟩, Set.eqOn_refl _ _⟩
  · rw [hd] at hrest hk
    have hnonzero := hrest.head_ne_zero (by simp)
    rw [List.length_append, List.length_cons] at hk
    obtain ⟨hfield, hafter⟩ := hrest.terminate
    rw [if_neg (by simpa using hnonzero), closeField_field hrest hall hc (by omega),
      strtok_field delim hd hne hall hc]
    refine ⟨_, rfl, ⟨.some ⟨hfield, by omega, by omega⟩, .some ⟨hafter, by omega, by omega⟩⟩, ?_⟩
    intro q hq
    apply Function.update_of_ne
    rintro rfl
    exact hq ⟨by omega, by omega⟩

theorem strtok_null_represents (hdelim : delim 0 = false) {t : Token}
    {r : Option (List UInt8) × SavePtr UInt8} (h : Represents lo hi t r) (hfuel : hi < lo + fuel) :
    ∃ t', strtok fuel delim none t.mem t.last = some t' ∧
      Represents lo hi t' (CLib.strtok delim none r.2) ∧
      Set.EqOn t'.mem t.mem (Set.Ico lo hi)ᶜ := by
  obtain ⟨ptr, mem, last⟩ := t
  obtain ⟨token, save⟩ := r
  obtain ⟨-, hlast⟩ := h
  cases hlast with
  | none => exact ⟨_, rfl, ⟨.none, .none⟩, Set.eqOn_refl _ _⟩
  | some hrest =>
      obtain ⟨hstring, hlo, hhi⟩ := hrest
      exact strtok_represents hdelim hstring hlo hhi (by omega) none none

end Strtok
end Memory
end CLib
