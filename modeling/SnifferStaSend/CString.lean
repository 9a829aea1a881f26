import Mathlib.Data.List.Basic
import Mathlib.Data.List.Induction
import Mathlib.Data.List.TakeWhile

/-!
# C strings and character arrays of fixed size

`CString` is the text of a C string without its terminator. `Buf n` is raw storage
`char a[n]` with arbitrary content; `CharArray n` is such an array known to hold a C string.
Stores start at index 0 and fault at the first index past the declared size.
-/

namespace CLib

structure CString where
  bytes : List UInt8
  no_nul : 0 ∉ bytes
  deriving DecidableEq

/-- C gives a run that stores outside its object no further meaning. -/
inductive Fault
  | storePast (size : ℕ)
  deriving DecidableEq, Repr

section Except

variable {ε α β : Type*} {x : Except ε α} {f : α → Except ε β}

theorem bind_eq_ok {b : β} : x.bind f = .ok b ↔ ∃ a, x = .ok a ∧ f a = .ok b := by
  cases x with
  | ok a => simp [Except.bind]
  | error e => simp [Except.bind]

theorem bind_eq_error {e : ε} :
    x.bind f = .error e ↔ x = .error e ∨ ∃ a, x = .ok a ∧ f a = .error e := by
  cases x with
  | ok a => simp [Except.bind]
  | error e => simp [Except.bind]

end Except

namespace CString

def length (s : CString) : ℕ := s.bytes.length

@[ext] theorem ext {s t : CString} (h : s.bytes = t.bytes) : s = t := by
  cases s
  cases t
  cases h
  rfl

def ofString (s : String) : CString :=
  ⟨(s.toList.map (fun c => c.toNat.toUInt8)).filter (· ≠ 0), by simp⟩

/-- The bytes before the first NUL, or all of them. -/
def text (bs : List UInt8) : CString :=
  ⟨bs.takeWhile (· ≠ 0), fun h => by simpa using List.mem_takeWhile_imp h⟩

theorem text_append_of_mem {bs : List UInt8} (h : 0 ∈ bs) (rest : List UInt8) :
    text (bs ++ rest) = text bs := by
  apply ext
  change (bs ++ rest).takeWhile (fun c => decide (c ≠ 0)) = bs.takeWhile (fun c => decide (c ≠ 0))
  rw [List.takeWhile_append, if_neg]
  intro hlen
  have hself : bs.takeWhile (fun c => decide (c ≠ 0)) = bs :=
    (List.takeWhile_prefix _).eq_of_length hlen
  rw [← hself] at h
  simpa using List.mem_takeWhile_imp h

theorem bytes_text_append {bs : List UInt8} (h : 0 ∉ bs) (rest : List UInt8) :
    (text (bs ++ rest)).bytes = bs ++ (text rest).bytes := by
  apply List.takeWhile_append_of_pos
  intro c hc
  have hne : c ≠ 0 := fun h0 => h (h0 ▸ hc)
  simpa using hne

theorem text_append_nul (s : CString) (rest : List UInt8) : text (s.bytes ++ 0 :: rest) = s := by
  apply ext
  rw [bytes_text_append s.no_nul]
  exact List.append_nil _

theorem bytes_text {bs : List UInt8} (h : 0 ∉ bs) : (text bs).bytes = bs := by
  have hbytes := bytes_text_append h []
  rwa [List.append_nil, show (text []).bytes = [] from rfl, List.append_nil] at hbytes

theorem bytes_text_cons {c : UInt8} (hc : c ≠ 0) (bs : List UInt8) :
    (text (c :: bs)).bytes = c :: (text bs).bytes := by
  have hone : 0 ∉ [c] := fun h => hc (List.mem_singleton.mp h).symm
  exact bytes_text_append hone bs

end CString

/-- `char a[n]`, its content unconstrained. -/
structure Buf (n : ℕ) where
  bytes : List UInt8
  size_eq : bytes.length = n
  deriving DecidableEq

namespace Buf

variable {n : ℕ}

@[ext] theorem ext {b c : Buf n} (h : b.bytes = c.bytes) : b = c := by
  cases b
  cases c
  cases h
  rfl

def fill (n : ℕ) (c : UInt8) : Buf n := ⟨List.replicate n c, List.length_replicate⟩

/-- Storage whose first bytes are `bs`, zero afterwards. -/
def ofBytes (n : ℕ) (bs : List UInt8) : Buf n :=
  ⟨(bs ++ List.replicate n 0).take n, by simp⟩

def store (b : Buf n) (src : List UInt8) : Except Fault (Buf n) :=
  if h : src.length ≤ n then
    .ok ⟨src ++ b.bytes.drop src.length, by simp [b.size_eq]; omega⟩
  else .error (.storePast n)

/-- `sprintf(b, "%s", s)`: the text and its terminator. -/
def sprintf (b : Buf n) (s : CString) : Except Fault (Buf n) := b.store (s.bytes ++ [0])

/-- The C string that starts at the first byte, when a terminator lies inside the array. -/
def str? (b : Buf n) : Option CString :=
  if 0 ∈ b.bytes then some (CString.text b.bytes) else none

/-- The array starts with the text of `s` and its terminator. -/
def Holds (b : Buf n) (s : CString) : Prop := ∃ rest, b.bytes = s.bytes ++ 0 :: rest

theorem store_of_le (b : Buf n) {src : List UInt8} (h : src.length ≤ n) :
    ∃ c, b.store src = .ok c ∧ c.bytes = src ++ b.bytes.drop src.length :=
  ⟨_, dif_pos h, rfl⟩

theorem store_of_lt (b : Buf n) {src : List UInt8} (h : n < src.length) :
    b.store src = .error (.storePast n) := dif_neg (by omega)

theorem sprintf_of_lt (b : Buf n) {s : CString} (h : s.length < n) :
    ∃ c, b.sprintf s = .ok c ∧ c.Holds s := by
  have hlen : (s.bytes ++ [0]).length ≤ n := by
    rw [List.length_append]
    exact h
  obtain ⟨c, hc, hb⟩ := b.store_of_le hlen
  exact ⟨c, hc, _, by rw [hb, List.append_assoc]; rfl⟩

theorem sprintf_of_le (b : Buf n) {s : CString} (h : n ≤ s.length) :
    b.sprintf s = .error (.storePast n) :=
  b.store_of_lt (by simpa [CString.length, Nat.lt_succ_iff] using h)

theorem Holds.str? {b : Buf n} {s : CString} (h : b.Holds s) : b.str? = some s := by
  obtain ⟨rest, hb⟩ := h
  rw [Buf.str?, hb, if_pos (by simp), CString.text_append_nul]

/-- `strcmp(b, s) == 0`: the bytes of `s` and its terminator come first in `b`. -/
def strcmpIsZero (b : Buf n) (s : CString) : Bool := (s.bytes ++ [0]).isPrefixOf b.bytes

theorem Holds.strcmpIsZero {b : Buf n} {s : CString} (h : b.Holds s) (t : CString) :
    b.strcmpIsZero t = decide (s = t) := by
  obtain ⟨rest, hb⟩ := h
  rw [Bool.eq_iff_iff, decide_eq_true_iff, Buf.strcmpIsZero, List.isPrefixOf_iff_prefix, hb]
  constructor
  · rintro ⟨tail, ht⟩
    rw [List.append_assoc] at ht
    have hs := CString.text_append_nul s rest
    rw [← ht] at hs
    exact hs.symm.trans (CString.text_append_nul t tail)
  · rintro rfl
    exact ⟨rest, by rw [List.append_assoc]; rfl⟩

section Overwrite

/-- At most `n` bytes of `src` copied over the first bytes of `b`; the others stay. -/
def overwrite (b : Buf n) (src : List UInt8) : Buf n :=
  ⟨src.take n ++ b.bytes.drop src.length, by simp [b.size_eq]; omega⟩

theorem overwrite_bytes (b : Buf n) {src : List UInt8} (h : src.length ≤ n) :
    (b.overwrite src).bytes = src ++ b.bytes.drop src.length := by
  change src.take n ++ b.bytes.drop src.length = _
  rw [List.take_of_length_le h]

/-- The byte at index `p` after the sources `srcs` (latest first) were copied in turn: that of
the latest one that reaches `p`. -/
def lastStored (b : Buf n) (p : ℕ) : List (List UInt8) → Option UInt8
  | [] => b.bytes[p]?
  | src :: srcs => if p < src.length then src[p]? else lastStored b p srcs

theorem getElem?_overwrite (b : Buf n) {src : List UInt8} (h : src.length ≤ n) (p : ℕ) :
    (b.overwrite src).bytes[p]? = if p < src.length then src[p]? else b.bytes[p]? := by
  rw [overwrite_bytes b h]
  split_ifs with hp
  · exact List.getElem?_append_left hp
  · rw [List.getElem?_append_right (by omega), List.getElem?_drop]
    congr 1
    omega

theorem getElem?_foldl_overwrite (b : Buf n) (srcs : List (List UInt8))
    (h : ∀ src ∈ srcs, src.length ≤ n) (p : ℕ) :
    (srcs.foldl overwrite b).bytes[p]? = b.lastStored p srcs.reverse := by
  induction srcs using List.reverseRecOn with
  | nil => rfl
  | append_singleton srcs src ih =>
      rw [List.foldl_append, List.foldl_cons, List.foldl_nil,
        getElem?_overwrite _ (h src (by simp)), ih (fun s hs => h s (by simp [hs])),
        List.reverse_append]
      rfl

end Overwrite

section StoreAt

def storeAt (b : Buf n) (i : ℕ) (src : List UInt8) : Except Fault (Buf n) :=
  if h : i + src.length ≤ n then
    .ok ⟨b.bytes.take i ++ src ++ b.bytes.drop (i + src.length), by simp [b.size_eq]; omega⟩
  else .error (.storePast n)

theorem storeAt_of_le (b : Buf n) {i : ℕ} {src : List UInt8} (h : i + src.length ≤ n) :
    ∃ c, b.storeAt i src = .ok c ∧
      c.bytes = b.bytes.take i ++ src ++ b.bytes.drop (i + src.length) :=
  ⟨_, dif_pos h, rfl⟩

/-- Behind a beginning that is there already, the bytes lengthen it; what follows stays. -/
theorem storeAt_of_prefix (b : Buf n) {start src : List UInt8} (hstart : start <+: b.bytes)
    (h : start.length + src.length ≤ n) :
    ∃ c, b.storeAt start.length src = .ok c ∧ start ++ src <+: c.bytes ∧
      c.bytes.drop (start.length + src.length) = b.bytes.drop (start.length + src.length) := by
  obtain ⟨c, hc, hbytes⟩ := b.storeAt_of_le h
  have htake : b.bytes.take start.length = start := (List.prefix_iff_eq_take.mp hstart).symm
  rw [htake] at hbytes
  refine ⟨c, hc, ⟨_, hbytes.symm⟩, ?_⟩
  rw [hbytes, ← List.length_append, List.drop_left]

end StoreAt

/-- The text found after a copy is the copied one iff the copy brings its own terminator or
meets one right behind it. -/
theorem str?_overwrite_eq_text (b : Buf n) {src : List UInt8} (h : src.length ≤ n) :
    (b.overwrite src).str? = some (CString.text src) ↔
      0 ∈ src ∨ b.bytes[src.length]? = some 0 := by
  have hbytes := overwrite_bytes b h
  by_cases h0 : 0 ∈ src
  · have hmem : 0 ∈ (b.overwrite src).bytes := by
      rw [hbytes]
      exact List.mem_append_left _ h0
    rw [str?, if_pos hmem, hbytes, CString.text_append_of_mem h0]
    simp [h0]
  · have htext := CString.bytes_text_append h0 (b.bytes.drop src.length)
    have hhead : b.bytes[src.length]? = (b.bytes.drop src.length).head? := by
      rw [List.head?_drop]
    rw [str?, hbytes, hhead]
    simp only [List.mem_append, h0, false_or]
    cases hd : b.bytes.drop src.length with
    | nil => simp
    | cons a rest =>
        rw [hd] at htext
        by_cases ha : a = 0
        · subst ha
          simp only [List.mem_cons, true_or, if_true, List.head?_cons, iff_true]
          congr 1
          apply CString.ext
          rw [htext, CString.bytes_text h0]
          exact List.append_nil src
        · simp only [List.head?_cons, Option.some.injEq, ha, iff_false]
          intro he
          split_ifs at he with hmem
          have hb := congrArg CString.bytes (Option.some.inj he)
          rw [htext, CString.bytes_text h0, CString.bytes_text_cons ha] at hb
          simp at hb

end Buf

/-- `char a[n]` whose content is a terminated string. -/
structure CharArray (n : ℕ) where
  str : CString
  fits : str.length < n
  deriving DecidableEq

namespace CharArray

variable {n : ℕ}

@[ext] theorem ext {a b : CharArray n} (h : a.str = b.str) : a = b := by
  cases a
  cases b
  cases h
  rfl

def sprintf (n : ℕ) (s : CString) : Except Fault (CharArray n) :=
  if h : s.length < n then .ok ⟨s, h⟩ else .error (.storePast n)

/-- `sprintf(a, "%s", src)` from raw storage of the same size. Without a terminator in `src`
the copy goes on past its `n` bytes, hence past those of `a`. -/
def sprintfBuf (src : Buf n) : Except Fault (CharArray n) :=
  match src.str? with
  | some s => sprintf n s
  | none => .error (.storePast n)

theorem sprintf_of_lt {s : CString} (h : s.length < n) : sprintf n s = .ok ⟨s, h⟩ := dif_pos h

theorem sprintf_of_le {s : CString} (h : n ≤ s.length) : sprintf n s = .error (.storePast n) :=
  dif_neg (by omega)

theorem sprintfBuf_of_str? {src : Buf n} {s : CString} (h : src.str? = some s) :
    ∃ a : CharArray n, sprintfBuf src = .ok a ∧ a.str = s := by
  have hlt : s.length < n := by
    unfold Buf.str? at h
    split_ifs at h with h0
    cases h
    have hlen := (List.takeWhile_prefix (fun c : UInt8 => decide (c ≠ 0))
      (l := src.bytes)).length_le
    have hne : (src.bytes.takeWhile (fun c => decide (c ≠ 0))).length ≠ src.bytes.length := by
      intro he
      have heq : src.bytes.takeWhile (fun c => decide (c ≠ 0)) = src.bytes :=
        (List.takeWhile_prefix _).eq_of_length he
      rw [← heq] at h0
      simpa using List.mem_takeWhile_imp h0
    have := src.size_eq
    change (src.bytes.takeWhile (fun c => decide (c ≠ 0))).length < n
    omega
  exact ⟨⟨s, hlt⟩, by rw [sprintfBuf, h]; exact sprintf_of_lt hlt, rfl⟩

end CharArray
end CLib
