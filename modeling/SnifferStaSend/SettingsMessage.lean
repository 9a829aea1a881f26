import Mathlib.Tactic.SplitIfs
import SnifferStaSend.GetSettings

/-!
# What the two readers of a settings message compute

A message is read as the list of its nonempty comma-separated fields. On a message that `Fits`
the local arrays, `check_db_settings` and `use_db_settings` depend on field `i` where it exists
and on row `i` of the uninitialised frame where it does not; any other message faults.
-/

namespace SnifferStaSend.GetSettings
open CLib Nvs

def messageFields (msg : CString) : List CString := (fields delim msg.bytes).map CString.text

theorem messageFields_eq_none {msg : CString} {n : ℕ} :
    (messageFields msg)[n]? = none ↔ (fields delim msg.bytes)[n]? = none := by
  simp [messageFields]

theorem messageFields_eq_some {msg : CString} {n : ℕ} {f : CString} :
    (messageFields msg)[n]? = some f ↔
      ∃ t, (fields delim msg.bytes)[n]? = some t ∧ CString.text t = f := by
  simp [messageFields]

section GetStrtokString

variable (last : Last) (msg : CString) (n : ℕ) (ret : Buf 30)

theorem getStrtokString_of_long (h : 50 ≤ msg.length) :
    getStrtokString last msg n ret = .error (.storePast 50) := by
  rw [getStrtokString, CharArray.sprintf_of_le h]
  rfl

theorem getStrtokString_of_short (h : msg.length < 50) :
    getStrtokString last msg n ret =
      match strtokAgain delim n (strtok delim (some msg.bytes) last) with
      | (some temp, last) => do
        let ret ← ret.sprintf (CString.text temp)
        return (ret, last)
      | (none, last) => return (ret, last) := by
  rw [getStrtokString, CharArray.sprintf_of_lt h]
  rfl

theorem getStrtokString_missing (h : msg.length < 50) (hn : (messageFields msg)[n]? = none) :
    ∃ last', getStrtokString last msg n ret = .ok (ret, last') := by
  have hspec := strtokAgain_spec delim n msg.bytes last
  rw [messageFields_eq_none.mp hn] at hspec
  rw [getStrtokString_of_short last msg n ret h]
  cases hs : strtokAgain delim n (strtok delim (some msg.bytes) last) with
  | mk t last' =>
      rw [hs] at hspec
      dsimp only at hspec
      subst hspec
      exact ⟨last', rfl⟩

theorem getStrtokString_present {f : CString} (h : msg.length < 50)
    (hn : (messageFields msg)[n]? = some f) :
    ∃ last', getStrtokString last msg n ret = (fun row => (row, last')) <$> ret.sprintf f := by
  obtain ⟨t, ht, rfl⟩ := messageFields_eq_some.mp hn
  have hspec := strtokAgain_spec delim n msg.bytes last
  rw [ht] at hspec
  rw [getStrtokString_of_short last msg n ret h]
  cases hs : strtokAgain delim n (strtok delim (some msg.bytes) last) with
  | mk t' last' =>
      rw [hs] at hspec
      dsimp only at hspec
      subst hspec
      exact ⟨last', rfl⟩

end GetStrtokString

/-- Row `i` after the loop: the `i`-th field, or what it held before. -/
def RowFilled (msg : CString) (before after : Buf 30) (i : ℕ) : Prop :=
  match (messageFields msg)[i]? with
  | some f => after.Holds f
  | none => after = before

/-- No copy made for the first seven fields leaves its array. -/
def Fits (msg : CString) : Prop :=
  msg.length < 50 ∧ ∀ f ∈ (messageFields msg).take 7, f.length < 30

instance (msg : CString) : Decidable (Fits msg) := inferInstanceAs (Decidable (_ ∧ _))

theorem mem_take_seven {msg : CString} {f : CString} :
    f ∈ (messageFields msg).take 7 ↔ ∃ i : Fin 7, (messageFields msg)[(i : ℕ)]? = some f := by
  rw [List.mem_iff_getElem?]
  constructor
  · rintro ⟨i, hi⟩
    rw [List.getElem?_take] at hi
    split_ifs at hi with hlt
    exact ⟨⟨i, hlt⟩, hi⟩
  · rintro ⟨i, hi⟩
    exact ⟨i, by rw [List.getElem?_take, if_pos i.isLt, hi]⟩

section FillDbStrtok

variable (msg : CString)

/-- One call with a field that fits, or with none. -/
theorem getStrtokString_ok (last : Last) (i : ℕ) (row : Buf 30) (h : msg.length < 50)
    (hf : ∀ f, (messageFields msg)[i]? = some f → f.length < 30) :
    ∃ row' last', getStrtokString last msg i row = .ok (row', last') ∧
      RowFilled msg row row' i := by
  unfold RowFilled
  cases hn : (messageFields msg)[i]? with
  | none =>
      obtain ⟨last', hl⟩ := getStrtokString_missing last msg i row h hn
      exact ⟨row, last', hl, rfl⟩
  | some f =>
      obtain ⟨last', hl⟩ := getStrtokString_present last msg i row h hn
      obtain ⟨row', hr, hholds⟩ := row.sprintf_of_lt (hf f hn)
      exact ⟨row', last', by rw [hl, hr]; rfl, hholds⟩

theorem fillDbStrtok_ok (is : List (Fin 7)) (hnd : is.Nodup) (rows : Fin 7 → Buf 30) (last : Last)
    (h : msg.length < 50)
    (hf : ∀ i ∈ is, ∀ f, (messageFields msg)[(i : ℕ)]? = some f → f.length < 30) :
    ∃ rows' last', fillDbStrtok msg is rows last = .ok (rows', last') ∧
      (∀ i ∈ is, RowFilled msg (rows i) (rows' i) i) ∧ ∀ i ∉ is, rows' i = rows i := by
  induction is generalizing rows last with
  | nil => exact ⟨rows, last, rfl, by simp, by simp⟩
  | cons j is ih =>
      rw [List.nodup_cons] at hnd
      obtain ⟨row, last₁, hget, hrow⟩ :=
        getStrtokString_ok msg last j (rows j) h (hf j List.mem_cons_self)
      obtain ⟨rows', last', hfill, hin, hout⟩ := ih hnd.2 (Function.update rows j row) last₁
        (fun i hi => hf i (List.mem_cons_of_mem j hi))
      refine ⟨rows', last', ?_, ?_, ?_⟩
      · rw [fillDbStrtok, hget]
        exact hfill
      · intro i hi
        rcases List.mem_cons.mp hi with rfl | hmem
        · rw [hout i hnd.1, Function.update_self]
          exact hrow
        · have hne : i ≠ j := fun he => hnd.1 (he ▸ hmem)
          have hi' := hin i hmem
          rwa [Function.update_of_ne hne] at hi'
      · intro i hi
        rw [List.mem_cons, not_or] at hi
        rw [hout i hi.2, Function.update_of_ne hi.1]

theorem fillDbStrtok_fault (is : List (Fin 7)) (rows : Fin 7 → Buf 30) (last : Last)
    (h : msg.length < 50) (i : Fin 7) (hi : i ∈ is) (f : CString)
    (hf : (messageFields msg)[(i : ℕ)]? = some f) (hlong : 30 ≤ f.length) :
    fillDbStrtok msg is rows last = .error (.storePast 30) := by
  induction is generalizing rows last with
  | nil => cases hi
  | cons j is ih =>
      have hfault {k : Fin 7} {g : CString} (hk : (messageFields msg)[(k : ℕ)]? = some g)
          (hg : 30 ≤ g.length) :
          getStrtokString last msg k (rows k) = .error (.storePast 30) := by
        obtain ⟨last', hl⟩ := getStrtokString_present last msg k (rows k) h hk
        rw [hl, Buf.sprintf_of_le _ hg]
        rfl
      by_cases hj : ∀ g, (messageFields msg)[(j : ℕ)]? = some g → g.length < 30
      · obtain ⟨row, last₁, hget, _⟩ := getStrtokString_ok msg last j (rows j) h hj
        have hne : i ≠ j := by
          rintro rfl
          have := hj f hf
          omega
        rw [fillDbStrtok, hget]
        exact ih _ _ ((List.mem_cons.mp hi).resolve_left hne)
      · push Not at hj
        obtain ⟨g, hg, hlen⟩ := hj
        rw [fillDbStrtok, hfault hg hlen]
        rfl

theorem fillDbStrtok_of_fits (hfits : Fits msg) (rows : Fin 7 → Buf 30) (last : Last) :
    ∃ rows' last', fillDbStrtok msg (List.finRange 7) rows last = .ok (rows', last') ∧
      ∀ i : Fin 7, RowFilled msg (rows i) (rows' i) i := by
  obtain ⟨rows', last', hfill, hin, _⟩ := fillDbStrtok_ok msg (List.finRange 7)
    (List.nodup_finRange 7) rows last hfits.1
    (fun i _ f hf => hfits.2 f (mem_take_seven.mpr ⟨i, hf⟩))
  exact ⟨rows', last', hfill, fun i => hin i (List.mem_finRange i)⟩

theorem fillDbStrtok_of_not_fits (hfits : ¬ Fits msg) (rows : Fin 7 → Buf 30) (last : Last) :
    ∃ size, fillDbStrtok msg (List.finRange 7) rows last = .error (.storePast size) := by
  by_cases h : msg.length < 50
  · have hlong : ∃ f ∈ (messageFields msg).take 7, 30 ≤ f.length := by
      by_contra! hall
      exact hfits ⟨h, hall⟩
    obtain ⟨f, hmem, hlen⟩ := hlong
    obtain ⟨i, hi⟩ := mem_take_seven.mp hmem
    exact ⟨30, fillDbStrtok_fault msg _ rows last h i (List.mem_finRange i) f hi hlen⟩
  · refine ⟨50, ?_⟩
    have hcons : List.finRange 7 = 0 :: (List.finRange 7).tail := rfl
    rw [hcons, fillDbStrtok, getStrtokString_of_long last msg _ (rows 0) (by omega)]
    rfl

end FillDbStrtok

section Readers

variable (msg : CString) (frame : Frame) (last : Last)

/-- What `atoi` returns on row `i` once the loop has run. -/
def numericField (i : Fin 7) : Int32 :=
  match (messageFields msg)[(i : ℕ)]? with
  | some f => f.atoi
  | none => (frame.dbStrtok i).atoi (frame.overread i)

/-- The string found in the destination row, `none` when it has no terminator. -/
def destIpField : Option CString :=
  match (messageFields msg)[(dbIndexDestIp : ℕ)]? with
  | some f => some f
  | none => (frame.dbStrtok dbIndexDestIp).str?

def verdict : Bool := rowsInRange (numericField msg frame)

variable {msg} in
theorem numericField_eq_atoi {i : Fin 7} {f : CString}
    (h : (messageFields msg)[(i : ℕ)]? = some f) :
    numericField msg frame i = f.atoi := by
  rw [numericField, h]

variable {msg} in
theorem some_numericField (hseven : 7 ≤ (messageFields msg).length) (i : Fin 7) :
    some (numericField msg frame i) = (messageFields msg)[(i : ℕ)]?.map CString.atoi := by
  have hi : (i : ℕ) < (messageFields msg).length := by omega
  have hf := List.getElem?_eq_getElem hi
  rw [numericField_eq_atoi frame hf, hf]
  rfl

variable {msg} in
theorem destIpField_eq_some {ip : CString} (h : (messageFields msg)[2]? = some ip) :
    destIpField msg frame = some ip := by
  have hindex : ((dbIndexDestIp : Fin 7) : ℕ) = 2 := rfl
  rw [destIpField, hindex, h]

theorem atoi_rowFilled {before after : Buf 30} {i : ℕ} (h : RowFilled msg before after i)
    (overread : Int32) :
    after.atoi overread =
      match (messageFields msg)[i]? with
      | some f => f.atoi
      | none => before.atoi overread := by
  unfold RowFilled at h
  cases hn : (messageFields msg)[i]? with
  | none =>
      rw [hn] at h
      dsimp only at h ⊢
      rw [h]
  | some f =>
      rw [hn] at h
      exact h.atoi overread

theorem checkDbSettings_of_fits (hfits : Fits msg) :
    ∃ last', checkDbSettings msg frame last = .ok (verdict msg frame, last') := by
  obtain ⟨rows, last', hfill, hrows⟩ := fillDbStrtok_of_fits msg hfits frame.dbStrtok last
  have hnum (i : Fin 7) : (rows i).atoi (frame.overread i) = numericField msg frame i :=
    atoi_rowFilled msg (hrows i) _
  refine ⟨last', ?_⟩
  rw [checkDbSettings, hfill]
  simp only [bind, Except.bind, hnum, verdict, rowsInRange]
  cases decide (0 < numericField msg frame 0) && decide (numericField msg frame 0 < 15) <;>
  cases portInRange (numericField msg frame 3) <;>
  cases portInRange (numericField msg frame 4) <;>
  cases portInRange (numericField msg frame 5) <;> rfl

theorem checkDbSettings_of_not_fits (hfits : ¬ Fits msg) :
    ∃ size, checkDbSettings msg frame last = .error (.storePast size) := by
  obtain ⟨size, hfill⟩ := fillDbStrtok_of_not_fits msg hfits frame.dbStrtok last
  exact ⟨size, by rw [checkDbSettings, hfill]; rfl⟩

/-- The globals that `use_db_settings` leaves, up to the destination address. -/
def appliedGlobals (dest : CharArray 30) : Globals where
  gChannel := numericField msg frame dbIndexChannel
  gDestIp := dest
  gCkPort := numericField msg frame dbIndexCkPort
  gRssiPort := numericField msg frame dbIndexRssiPort
  gReportFrequency := numericField msg frame dbIndexFreq

theorem useDbSettings_of_fits (hfits : Fits msg) :
    ∃ last', useDbSettings msg frame last =
      match destIpField msg frame with
      | some s => (CharArray.sprintf 30 s).map
          (fun dest => ⟨appliedGlobals msg frame dest,
            writeSettings (appliedGlobals msg frame dest), last'⟩)
      | none => .error (.storePast 30) := by
  obtain ⟨rows, last', hfill, hrows⟩ := fillDbStrtok_of_fits msg hfits frame.dbStrtok last
  have hnum (i : Fin 7) : (rows i).atoi (frame.overread i) = numericField msg frame i :=
    atoi_rowFilled msg (hrows i) _
  have hstr : (rows dbIndexDestIp).str? = destIpField msg frame := by
    have hrow := hrows dbIndexDestIp
    unfold RowFilled at hrow
    unfold destIpField
    cases hn : (messageFields msg)[(dbIndexDestIp : ℕ)]? with
    | none =>
        rw [hn] at hrow
        dsimp only at hrow ⊢
        rw [hrow]
    | some f =>
        rw [hn] at hrow
        exact hrow.str?
  refine ⟨last', ?_⟩
  rw [useDbSettings, hfill]
  simp only [bind, Except.bind, hnum, CharArray.sprintfBuf, hstr, appliedGlobals]
  cases destIpField msg frame with
  | none => rfl
  | some s => cases CharArray.sprintf 30 s <;> rfl

theorem useDbSettings_of_not_fits (hfits : ¬ Fits msg) :
    ∃ size, useDbSettings msg frame last = .error (.storePast size) := by
  obtain ⟨size, hfill⟩ := fillDbStrtok_of_not_fits msg hfits frame.dbStrtok last
  exact ⟨size, by rw [useDbSettings, hfill]; rfl⟩

theorem length_lt_of_destIpField (hfits : Fits msg) {s : CString}
    (h : destIpField msg frame = some s) : s.length < 30 := by
  unfold destIpField at h
  cases hn : (messageFields msg)[(dbIndexDestIp : ℕ)]? with
  | none =>
      rw [hn] at h
      obtain ⟨a, _, rfl⟩ := CharArray.sprintfBuf_of_str? h
      exact a.fits
  | some f =>
      rw [hn] at h
      obtain rfl : f = s := Option.some.inj h
      exact hfits.2 f (mem_take_seven.mpr ⟨_, hn⟩)

theorem useDbSettings_of_destIpField (hfits : Fits msg) {s : CString}
    (h : destIpField msg frame = some s) :
    ∃ (dest : CharArray 30) (last' : Last), dest.str = s ∧
      useDbSettings msg frame last = .ok ⟨appliedGlobals msg frame dest,
        writeSettings (appliedGlobals msg frame dest), last'⟩ := by
  obtain ⟨last', huse⟩ := useDbSettings_of_fits msg frame last hfits
  have hlt := length_lt_of_destIpField msg frame hfits h
  refine ⟨⟨s, hlt⟩, last', rfl, ?_⟩
  rw [huse, h]
  dsimp only
  rw [CharArray.sprintf_of_lt hlt]
  rfl

variable {msg frame last} in
theorem useDbSettings_eq_ok {a : Applied} (h : useDbSettings msg frame last = .ok a) :
    Fits msg ∧ ∃ dest last', a = ⟨appliedGlobals msg frame dest,
      writeSettings (appliedGlobals msg frame dest), last'⟩ := by
  by_cases hfits : Fits msg
  · obtain ⟨last', huse⟩ := useDbSettings_of_fits msg frame last hfits
    rw [huse] at h
    cases hdest : destIpField msg frame with
    | none =>
        rw [hdest] at h
        cases h
    | some s =>
        rw [hdest] at h
        dsimp only at h
        rw [CharArray.sprintf_of_lt (length_lt_of_destIpField msg frame hfits hdest)] at h
        exact ⟨hfits, _, last', (Except.ok.inj h).symm⟩
  · obtain ⟨size, huse⟩ := useDbSettings_of_not_fits msg frame last hfits
    rw [huse] at h
    cases h

end Readers
end SnifferStaSend.GetSettings
