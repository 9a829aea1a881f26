import Mathlib.Order.CompletePartialOrder
import SnifferStaSend.FieldExtraction

/-!
# The readers of a message on the memory they work in

`check_db_settings` lets `getStrtokString` fill the seven rows of `db_strtok`, one call after the
other on the same memory, and then calls `atoi` on the rows. Every run of it is one that the
functions on arrays and lists allow, and nothing but the rows and the copy is written.
-/

namespace CLib.Memory

def between (mem : Memory) (p q : ℕ) : List UInt8 := (List.range (q - p)).map (fun i => mem (p + i))

def atoi (fuel : ℕ) (mem : Memory) (p : ℕ) : Option Int32 := do
  let start ← scan (fun c => !isspace c) mem fuel p
  let first := if mem start == 45 || mem start == 43 then start + 1 else start
  let stop ← scan (fun c => !isdigit c) mem fuel first
  return Numeral.value ⟨mem start == 45, between mem first stop, []⟩

section Atoi

variable {mem : Memory} {p fuel : ℕ} {bs : List UInt8}

theorem between_of_holds (h : Holds mem p bs) : between mem p (p + bs.length) = bs := by
  rw [between, Nat.add_sub_cancel_left]
  apply List.ext_getElem
  · rw [List.length_map, List.length_range]
  · intro i hi hi'
    rw [List.getElem_map, List.getElem_range]
    exact holds_iff.mp h i hi'

theorem scan_takeWhile (stop : UInt8 → Bool) {c : UInt8} {rest : List UInt8}
    (h : Holds mem p bs) (hrest : bs.dropWhile (fun c => !stop c) = c :: rest)
    (hfuel : bs.length < fuel) :
    ∃ k, k + (c :: rest).length = bs.length ∧ scan stop mem fuel p = some (p + k) ∧
      Holds mem p (bs.takeWhile (fun c => !stop c)) ∧
      k = (bs.takeWhile (fun c => !stop c)).length ∧ Holds mem (p + k) (c :: rest) := by
  have hsplit := List.takeWhile_append_dropWhile (p := fun c => !stop c) (l := bs)
  have hlen := congrArg List.length hsplit
  rw [hrest] at hsplit hlen
  rw [List.length_append] at hlen
  rw [← hsplit, holds_append] at h
  have hstop : stop c = true := by
    have hhead := List.head?_dropWhile_not (fun c => !stop c) bs
    rw [hrest] at hhead
    simpa using hhead
  refine ⟨_, hlen, scan_of_holds h.1 ?_ (by rwa [h.2.1]) (by omega), h.1, rfl, h.2⟩
  intro x hx
  simpa using List.mem_takeWhile_imp hx

/-- Where the bytes end the numeral, `atoi` reads what they say. -/
theorem atoi_of_holds (h : Holds mem p bs) (hrest : (scanNumeral bs).rest ≠ [])
    (hfuel : bs.length < fuel) : atoi fuel mem p = some (scanNumeral bs).value := by
  have hspace : (fun c => !!isspace c) = isspace := funext (fun c => Bool.not_not _)
  have hdigit : (fun c => !!isdigit c) = isdigit := funext (fun c => Bool.not_not _)
  cases hdrop : bs.dropWhile isspace with
  | nil =>
      rw [scanNumeral, hdrop] at hrest
      exact absurd rfl hrest
  | cons c t =>
      obtain ⟨k, hk, hstart, -, -, htail⟩ := scan_takeWhile (fun c => !isspace c) h
        (by rw [hspace]; exact hdrop) hfuel
      rw [List.length_cons] at hk
      have hc : mem (p + k) = c := htail.1
      have hsigned : ∃ first, first = (if c == 45 || c == 43 then p + k + 1 else p + k) ∧
          Holds mem first (scanSign (c :: t)).2 ∧ (scanSign (c :: t)).1 = (c == 45) ∧
          (scanSign (c :: t)).2.length ≤ bs.length := by
        rw [scanSign]
        by_cases hminus : (c == 45) = true
        · rw [if_pos hminus, hminus]
          exact ⟨_, rfl, htail.2, rfl, by dsimp only; omega⟩
        · rw [if_neg hminus, Bool.eq_false_iff.mpr hminus]
          by_cases hplus : (c == 43) = true
          · rw [if_pos hplus, hplus]
            exact ⟨_, rfl, htail.2, rfl, by dsimp only; omega⟩
          · rw [if_neg hplus, Bool.eq_false_iff.mpr hplus]
            exact ⟨_, rfl, htail, rfl, by rw [List.length_cons]; omega⟩
      obtain ⟨first, hfirst, hnumeral, hnegative, hle⟩ := hsigned
      have hscan : scanNumeral bs = ⟨(scanSign (c :: t)).1,
          (scanSign (c :: t)).2.takeWhile isdigit, (scanSign (c :: t)).2.dropWhile isdigit⟩ := by
        rw [scanNumeral, hdrop]
      rw [hscan] at hrest ⊢
      cases hend : (scanSign (c :: t)).2.dropWhile isdigit with
      | nil => exact absurd hend hrest
      | cons d rest =>
          obtain ⟨n, -, hstop, hdigits, hn, -⟩ := scan_takeWhile (fun c => !isdigit c)
            hnumeral (by rw [hdigit]; exact hend) (lt_of_le_of_lt hle hfuel)
          rw [hdigit] at hdigits hn
          have hbetween := between_of_holds hdigits
          rw [← hn] at hbetween
          change (scan (fun c => !isspace c) mem fuel p).bind _ = _
          rw [hstart, Option.bind_some, hc, ← hfirst]
          change (scan (fun c => !isdigit c) mem fuel first).bind _ = _
          rw [hstop, Option.bind_some, hbetween, ← hnegative]
          rfl

end Atoi
end CLib.Memory

namespace SnifferStaSend.ParserMemory
open CLib CLib.Memory GetSettings FieldExtraction

/-- The places of `db_strtok`, of the copy that `getStrtokString` makes, and of the message. -/
structure Places (len : ℕ) where
  dbStrtok : ℕ
  cpSrcStr : ℕ
  dbSettingsString : ℕ
  cp_src : Disjoint (Set.Ico cpSrcStr (cpSrcStr + 50))
    (Set.Ico dbSettingsString (dbSettingsString + len + 1))
  cp_rows : Disjoint (Set.Ico cpSrcStr (cpSrcStr + 50)) (Set.Ico dbStrtok (dbStrtok + 7 * 30))
  src_rows : Disjoint (Set.Ico dbSettingsString (dbSettingsString + len + 1))
    (Set.Ico dbStrtok (dbStrtok + 7 * 30))

def Places.row {len : ℕ} (p : Places len) (i : ℕ) : ℕ := p.dbStrtok + 30 * i

def fillDbStrtok {len : ℕ} (fuel : ℕ) (p : Places len) :
    List (Fin 7) → Memory → Option ℕ → Option (Memory × Option ℕ)
  | [], mem, last => some (mem, last)
  | i :: is, mem, last => do
    let (mem, last) ←
      getStrtokString fuel p.cpSrcStr p.dbSettingsString i (p.row i) mem last
    fillDbStrtok fuel p is mem last

/-- The chain of tests; a row is only read when the tests before it have passed. -/
def rangeTests {len : ℕ} (fuel : ℕ) (p : Places len) (mem : Memory) : Option Bool := do
  let channel ← atoi fuel mem (p.row 0)
  if !(0 < channel && channel < 15) then return false
  let ckPort ← atoi fuel mem (p.row 3)
  if !portInRange ckPort then return false
  let rssiPort ← atoi fuel mem (p.row 4)
  if !portInRange rssiPort then return false
  let csiPort ← atoi fuel mem (p.row 5)
  if !portInRange csiPort then return false
  return true

/-- The verdict, the memory and the position that `strtok` is left with. -/
def checkDbSettings {len : ℕ} (fuel : ℕ) (p : Places len) (mem : Memory) (last : Option ℕ) :
    Option (Bool × Memory × Option ℕ) := do
  let (mem, last) ← fillDbStrtok fuel p (List.finRange 7) mem last
  let verdict ← rangeTests fuel p mem
  return (verdict, mem, last)

section Places

variable {len : ℕ} (p : Places len)

theorem Places.row_subset (i : Fin 7) :
    Set.Ico (p.row i) (p.row i + 30) ⊆ Set.Ico p.dbStrtok (p.dbStrtok + 7 * 30) := by
  have hi := i.isLt
  apply Set.Ico_subset_Ico
  · exact Nat.le_add_right _ _
  · rw [row]
    omega

def Places.layout (i : Fin 7) : Layout len where
  cpSrcStr := p.cpSrcStr
  srcStr := p.dbSettingsString
  retStr := p.row i
  cp_src := p.cp_src
  cp_ret := p.cp_rows.mono_right (p.row_subset i)
  src_ret := p.src_rows.mono_right (p.row_subset i)

theorem Places.rows_disjoint {i j : Fin 7} (h : i ≠ j) :
    Disjoint (Set.Ico (p.row i) (p.row i + 30)) (Set.Ico (p.row j) (p.row j + 30)) := by
  have hne : (i : ℕ) ≠ j := fun he => h (Fin.ext he)
  rw [Set.disjoint_left]
  rintro q ⟨hi, hi'⟩ ⟨hj, hj'⟩
  rw [row] at hi hi' hj hj'
  omega

/-- Where the readers write. -/
def Places.written : Set ℕ :=
  Set.Ico p.cpSrcStr (p.cpSrcStr + 50) ∪ Set.Ico p.dbStrtok (p.dbStrtok + 7 * 30)

end Places

section Fill

variable {msg : CString} {p : Places msg.length} {mem : Memory} {fuel : ℕ} {last : Last}

/-- A call that does not fault on arrays goes through on the memory, with the same row. -/
theorem getStrtokString_refines {i : Fin 7} {ret ret' : Buf 30} {last' : Last}
    (hlen : msg.length ≤ 49) (hsrc : StringAt mem p.dbSettingsString msg.bytes)
    (hfuel : 50 ≤ fuel) (hret : Holds mem (p.row i) ret.bytes)
    (hrun : GetSettings.getStrtokString last msg i ret = .ok (ret', last')) :
    ∃ mem' save, (∀ l, getStrtokString fuel p.cpSrcStr p.dbSettingsString i (p.row i) mem l =
        some (mem', save)) ∧
      Extracted msg (p.layout i) i mem mem' ∧ Holds mem' (p.row i) ret'.bytes := by
  have hn : (i : ℕ) < fuel := by omega
  obtain ⟨⟨ptr, mem₁, save⟩, hcall, hfield, hsame⟩ :=
    exists_token (p.layout i) hlen hsrc hfuel hn
  suffices h : ∃ mem', deliver fuel (p.row i) ⟨ptr, mem₁, save⟩ = some (mem', save) ∧
      Extracted msg (p.layout i) i mem mem' by
    obtain ⟨mem', hdeliver, hext⟩ := h
    exact ⟨mem', save, fun l => (hcall l).trans hdeliver, hext, hext.holds hlen hret hrun⟩
  cases hf : (fields delim msg.bytes)[(i : ℕ)]? with
  | none =>
      rw [hf] at hfield
      cases hfield with
      | none => exact ⟨mem₁, rfl, extracted_missing _ (messageFields_eq_none.mpr hf) hsame⟩
  | some f =>
      rw [hf] at hfield
      cases hfield with
      | some h =>
          obtain ⟨hstring, hle⟩ := h
          have hsome : (messageFields msg)[(i : ℕ)]? = some (CString.text f) :=
            messageFields_eq_some.mpr ⟨f, hf, rfl⟩
          have htext : (CString.text f).bytes = f := CString.bytes_text hstring.noNul
          have hlength : (CString.text f).length = f.length := congrArg List.length htext
          have hshort : (CString.text f).length ≤ 29 := by
            by_contra hlong
            obtain ⟨_, hpure⟩ := getStrtokString_present last msg i ret (by omega) hsome
            rw [hpure, Buf.sprintf_of_le _ (by omega)] at hrun
            cases hrun
          have hpatience : f.length < fuel := by omega
          obtain ⟨mem', hdeliver, hstring', hsame'⟩ :=
            deliver_some hstring hpatience (p.row i) save
          refine ⟨mem', hdeliver, extracted_present _ hsome hshort ?_ hsame ?_⟩
          · rwa [htext]
          · rwa [hlength]

/-- The rows in memory are those of the loop on arrays. -/
theorem fillDbStrtok_refines {is : List (Fin 7)} {rows rows' : Fin 7 → Buf 30} {last' : Last}
    (hlen : msg.length ≤ 49) (hfuel : 50 ≤ fuel)
    (hsrc : StringAt mem p.dbSettingsString msg.bytes)
    (hrows : ∀ i : Fin 7, Holds mem (p.row i) (rows i).bytes)
    (hrun : GetSettings.fillDbStrtok msg is rows last = .ok (rows', last')) (save : Option ℕ) :
    ∃ mem' save', fillDbStrtok fuel p is mem save = some (mem', save') ∧
      (∀ i : Fin 7, Holds mem' (p.row i) (rows' i).bytes) ∧
      StringAt mem' p.dbSettingsString msg.bytes ∧ Set.EqOn mem' mem p.writtenᶜ := by
  induction is generalizing mem rows last save with
  | nil =>
      obtain ⟨rfl, -⟩ := Prod.ext_iff.mp (Except.ok.inj hrun)
      exact ⟨mem, save, rfl, hrows, hsrc, Set.eqOn_refl _ _⟩
  | cons i is ih =>
      obtain ⟨⟨row, last₁⟩, hcall, hrest⟩ := bind_eq_ok.mp hrun
      obtain ⟨mem₁, save₁, hcall', hext, hrow⟩ :=
        getStrtokString_refines hlen hsrc hfuel (hrows i) hcall
      have hsame : Set.EqOn mem₁ mem p.writtenᶜ := hext.elsewhere.mono
        (Set.compl_subset_compl.mpr (Set.union_subset_union_right _ (p.row_subset i)))
      have hsrc₁ : StringAt mem₁ p.dbSettingsString msg.bytes :=
        hsrc.of_eqOn hext.source Set.Subset.rfl
      have hrows₁ : ∀ j : Fin 7, Holds mem₁ (p.row j) (Function.update rows i row j).bytes := by
        intro j
        by_cases hj : j = i
        · rw [hj, Function.update_self]
          exact hrow
        · rw [Function.update_of_ne hj]
          refine (hrows j).of_eqOn hext.elsewhere ?_
          rw [(rows j).size_eq]
          apply Set.subset_compl_iff_disjoint_right.mpr
          exact Disjoint.union_right (p.cp_rows.symm.mono_left (p.row_subset j))
            (p.rows_disjoint hj)
      obtain ⟨mem', save', hfill, hall, hsrc', hsame'⟩ := ih hsrc₁ hrows₁ hrest save₁
      refine ⟨mem', save', ?_, hall, hsrc', hsame'.trans hsame⟩
      rw [fillDbStrtok, hcall' save]
      exact hfill

end Fill

section Check

variable {msg : CString} {p : Places msg.length} {mem mem' : Memory} {fuel : ℕ}
  {last last' : Option ℕ}
  {v : Bool}

theorem atoi_row {b : Buf 30} {a : Int32} {i : Fin 7} (hfuel : 50 ≤ fuel)
    (hrow : Holds mem (p.row i) b.bytes) (ha : atoi fuel mem (p.row i) = some a) :
    b.atoi ((atoi fuel mem (p.row i)).getD 0) = a := by
  rw [Buf.atoi]
  by_cases hrest : (scanNumeral b.bytes).rest = []
  · rw [if_pos hrest, ha, Option.getD_some]
  · rw [if_neg hrest]
    have hlen : b.bytes.length < fuel := by
      rw [b.size_eq]
      omega
    exact Option.some.inj ((atoi_of_holds hrow hrest hlen).symm.trans ha)

theorem rangeTests_eq_some {value : Fin 7 → Int32}
    (hvalue : ∀ (i : Fin 7) a, atoi fuel mem (p.row i) = some a → value i = a)
    (h : rangeTests fuel p mem = some v) : rowsInRange value = v := by
  obtain ⟨channel, hchannel, h⟩ := Option.bind_eq_some_iff.mp h
  rw [rowsInRange, hvalue 0 channel hchannel]
  cases hc : 0 < channel && channel < 15 with
  | false =>
      rw [hc] at h
      exact Option.some.inj h
  | true =>
      rw [hc] at h
      obtain ⟨ckPort, hckPort, h⟩ := Option.bind_eq_some_iff.mp h
      rw [hvalue 3 ckPort hckPort]
      cases hp3 : portInRange ckPort with
      | false =>
          rw [hp3] at h
          exact Option.some.inj h
      | true =>
          rw [hp3] at h
          obtain ⟨rssiPort, hrssiPort, h⟩ := Option.bind_eq_some_iff.mp h
          rw [hvalue 4 rssiPort hrssiPort]
          cases hp4 : portInRange rssiPort with
          | false =>
              rw [hp4] at h
              exact Option.some.inj h
          | true =>
              rw [hp4] at h
              obtain ⟨csiPort, hcsiPort, h⟩ := Option.bind_eq_some_iff.mp h
              rw [hvalue 5 csiPort hcsiPort]
              cases hp5 : portInRange csiPort with
              | false =>
                  rw [hp5] at h
                  exact Option.some.inj h
              | true =>
                  rw [hp5] at h
                  exact Option.some.inj h

theorem exists_rangeTests {value : Fin 7 → Int32}
    (hvalue : ∀ i : Fin 7, atoi fuel mem (p.row i) = some (value i)) :
    ∃ v, rangeTests fuel p mem = some v := by
  have hchannel : atoi fuel mem (p.row 0) = some (value 0) := hvalue 0
  have hckPort : atoi fuel mem (p.row 3) = some (value 3) := hvalue 3
  have hrssiPort : atoi fuel mem (p.row 4) = some (value 4) := hvalue 4
  have hcsiPort : atoi fuel mem (p.row 5) = some (value 5) := hvalue 5
  simp only [rangeTests, hchannel, hckPort, hrssiPort, hcsiPort, bind, Option.bind_some]
  split_ifs <;> exact ⟨_, rfl⟩

theorem atoi_field {b : Buf 30} {f : CString} {i : Fin 7} (hfuel : 50 ≤ fuel)
    (hrow : Holds mem (p.row i) b.bytes) (hfield : b.Holds f) :
    atoi fuel mem (p.row i) = some f.atoi := by
  have hlen : b.bytes.length < fuel := by
    rw [b.size_eq]
    omega
  obtain ⟨rest, hb⟩ := hfield
  have hscan := scanNumeral_append_nul f.bytes rest
  rw [← hb] at hscan
  have hrest : (scanNumeral b.bytes).rest ≠ [] := by
    rw [hscan]
    simp
  rw [atoi_of_holds hrow hrest hlen, hscan]
  rfl

theorem atoi_sevenFields {p : Places msg.length} {before after : Fin 7 → Buf 30}
    (hfuel : 50 ≤ fuel) (hseven : 7 ≤ (messageFields msg).length)
    (hrows : ∀ i : Fin 7, Holds mem (p.row i) (after i).bytes)
    (hfilled : ∀ i : Fin 7, RowFilled msg (before i) (after i) i) (i : Fin 7) :
    atoi fuel mem (p.row i) = some (numericField msg ⟨before, fun _ => 0⟩ i) := by
  have hi : (i : ℕ) < (messageFields msg).length := by omega
  have hfield := List.getElem?_eq_getElem hi
  have hholds := hfilled i
  unfold RowFilled at hholds
  rw [hfield] at hholds
  rw [atoi_field hfuel (hrows i) hholds, numericField_eq_atoi _ hfield]

end Check

/-- A run of `check_db_settings` on the memory gives a verdict that it can give on arrays with
what the memory holds in their place, and writes nothing but its rows and its copy. With seven
fields it comes to an end. -/
theorem checkDbSettings_refines {msg : CString} (p : Places msg.length) {mem : Memory} {fuel : ℕ}
    (rows : Fin 7 → Buf 30) (hfits : Fits msg) (hsrc : StringAt mem p.dbSettingsString msg.bytes)
    (hrows : ∀ i : Fin 7, Holds mem (p.row i) (rows i).bytes) (hfuel : 50 ≤ fuel) (save : Option ℕ)
    (last : Last) :
    (∀ v mem' save', checkDbSettings fuel p mem save = some (v, mem', save') →
      (∃ overread last', GetSettings.checkDbSettings msg ⟨rows, overread⟩ last = .ok (v, last')) ∧
        StringAt mem' p.dbSettingsString msg.bytes ∧ Set.EqOn mem' mem p.writtenᶜ) ∧
      (7 ≤ (messageFields msg).length →
        ∃ v mem' save', checkDbSettings fuel p mem save = some (v, mem', save')) := by
  obtain ⟨rows', last', hpure, hfilled⟩ := fillDbStrtok_of_fits msg hfits rows last
  obtain ⟨mem₁, save₁, hfill, hrows', hsrc', hsame⟩ := fillDbStrtok_refines
    (Nat.le_of_lt_succ hfits.1) hfuel hsrc hrows hpure save
  constructor
  · intro v mem' save' h
    obtain ⟨⟨mem₂, save₂⟩, hfill', h⟩ := Option.bind_eq_some_iff.mp h
    obtain ⟨v', htests, h⟩ := Option.bind_eq_some_iff.mp h
    obtain ⟨rfl, rfl⟩ : mem₁ = mem₂ ∧ save₁ = save₂ := by
      simpa using hfill.symm.trans hfill'
    obtain ⟨rfl, rfl, rfl⟩ : v' = v ∧ mem₁ = mem' ∧ save₁ = save' := by
      simpa using Option.some.inj h
    -- what `atoi` makes of a row without a terminator is what it has found in the memory
    let frame : Frame := ⟨rows, fun i => (atoi fuel mem₁ (p.row i)).getD 0⟩
    have hvalue (i : Fin 7) (a : Int32) (ha : atoi fuel mem₁ (p.row i) = some a) :
        numericField msg frame i = a :=
      (atoi_rowFilled msg (hfilled i) (frame.overread i)).symm.trans (atoi_row hfuel (hrows' i) ha)
    obtain ⟨last₁, hck⟩ := checkDbSettings_of_fits msg frame last hfits
    have hverdict : verdict msg frame = v' := rangeTests_eq_some hvalue htests
    rw [hverdict] at hck
    exact ⟨⟨frame.overread, last₁, hck⟩, hsrc', hsame⟩
  · intro hseven
    obtain ⟨v, htests⟩ := exists_rangeTests (atoi_sevenFields hfuel hseven hrows' hfilled)
    refine ⟨v, mem₁, save₁, ?_⟩
    rw [checkDbSettings, hfill]
    change (rangeTests fuel p mem₁).bind _ = _
    rw [htests]
    rfl

def someMessage : CString := CString.ofString "6,x,10.0.0.7,9001,9002,9003,250"

theorem length_someMessage : someMessage.length = 31 := by decide

def somePlaces : Places someMessage.length where
  dbStrtok := 200
  cpSrcStr := 0
  dbSettingsString := 100
  cp_src := by simp
  cp_rows := by simp
  src_rows := by simp [length_someMessage]

theorem checkDbSettings_refines_someMessage : ∃ v mem' save',
    checkDbSettings 50 somePlaces (stored someMessage) none = some (v, mem', save') ∧
      StringAt mem' 100 someMessage.bytes := by
  have hrows : ∀ i : Fin 7,
      Holds (stored someMessage) (somePlaces.row i) (Buf.fill 30 0).bytes := by decide
  obtain ⟨hrun, hends⟩ := checkDbSettings_refines somePlaces (fun _ => Buf.fill 30 0)
    (by decide) ⟨by decide, someMessage.no_nul⟩ hrows le_rfl none none
  obtain ⟨v, mem', save', h⟩ := hends (by decide)
  exact ⟨v, mem', save', h, (hrun v mem' save' h).2.1⟩

/-- With the place of `g_dest_ip`. -/
structure UsePlaces (len : ℕ) extends Places len where
  gDestIp : ℕ
  dest_src : Disjoint (Set.Ico gDestIp (gDestIp + 30))
    (Set.Ico dbSettingsString (dbSettingsString + len + 1))
  dest_rows : Disjoint (Set.Ico gDestIp (gDestIp + 30)) (Set.Ico dbStrtok (dbStrtok + 7 * 30))

/-- The globals of type `int`. -/
structure Numbers where
  gChannel : Int32
  gCkPort : Int32
  gRssiPort : Int32
  gReportFrequency : Int32

/-- The assignments of `use_db_settings`; the destination is copied to `g_dest_ip`. -/
def useDbSettings {len : ℕ} (fuel : ℕ) (p : UsePlaces len) (mem : Memory) (last : Option ℕ) :
    Option (Numbers × Memory × Option ℕ) := do
  let (mem, last) ← fillDbStrtok fuel p.toPlaces (List.finRange 7) mem last
  let gChannel ← atoi fuel mem (p.row dbIndexChannel)
  let mem ← sprintf fuel mem p.gDestIp (p.row dbIndexDestIp)
  let gCkPort ← atoi fuel mem (p.row dbIndexCkPort)
  let gRssiPort ← atoi fuel mem (p.row dbIndexRssiPort)
  let gReportFrequency ← atoi fuel mem (p.row dbIndexFreq)
  return (⟨gChannel, gCkPort, gRssiPort, gReportFrequency⟩, mem, last)

section Use

variable {msg : CString} {mem mem' : Memory} {fuel : ℕ}

theorem holds_of_str? {n : ℕ} {b : Buf n} {s : CString} (h : b.str? = some s) : b.Holds s := by
  unfold Buf.str? at h
  split_ifs at h with hnul
  obtain rfl := Option.some.inj h
  have hsplit := List.takeWhile_append_dropWhile (p := fun c => decide (c ≠ 0)) (l := b.bytes)
  cases hrest : b.bytes.dropWhile (fun c => decide (c ≠ 0)) with
  | nil =>
      have hall := List.dropWhile_eq_nil_iff.mp hrest 0 hnul
      simp at hall
  | cons c rest =>
      have hhead := List.head?_dropWhile_not (fun c => decide (c ≠ 0)) b.bytes
      rw [hrest] at hsplit hhead
      obtain rfl : c = 0 := by simpa using hhead
      exact ⟨rest, hsplit.symm⟩

theorem str?_rowFilled {before after : Buf 30} (h : RowFilled msg before after dbIndexDestIp)
    {overread : Fin 7 → Int32} {rows : Fin 7 → Buf 30} (hrow : rows dbIndexDestIp = before) :
    after.str? = destIpField msg ⟨rows, overread⟩ := by
  unfold RowFilled at h
  unfold destIpField
  cases hf : (messageFields msg)[(dbIndexDestIp : ℕ)]? with
  | none =>
      rw [hf] at h
      dsimp only at h ⊢
      rw [h, hrow]
  | some f =>
      rw [hf] at h
      exact h.str?

theorem stringAt_row {b : Buf 30} {s : CString} {q : ℕ} (hrow : Holds mem q b.bytes)
    (h : b.Holds s) : StringAt mem q s.bytes where
  holds := by
    obtain ⟨rest, hb⟩ := h
    have hsplit : s.bytes ++ 0 :: rest = (s.bytes ++ [0]) ++ rest := by
      rw [List.append_assoc]
      rfl
    rw [hb, hsplit] at hrow
    exact ((holds_append _ rest).mp hrow).1
  noNul := s.no_nul

theorem sprintf_destIp (p : UsePlaces msg.length) {rows : Fin 7 → Buf 30} {s : CString}
    (hsrc : StringAt mem p.dbSettingsString msg.bytes)
    (hrows : ∀ i : Fin 7, Holds mem (p.row i) (rows i).bytes)
    (hstr : (rows dbIndexDestIp).str? = some s) (hlt : s.length < 30) (hfuel : 50 ≤ fuel) :
    ∃ mem', sprintf fuel mem p.gDestIp (p.row dbIndexDestIp) = some mem' ∧
      StringAt mem' p.gDestIp s.bytes ∧ StringAt mem' p.dbSettingsString msg.bytes ∧
        (∀ i : Fin 7, Holds mem' (p.row i) (rows i).bytes) ∧
          Set.EqOn mem' mem (Set.Ico p.gDestIp (p.gDestIp + 30))ᶜ := by
  have hstring : StringAt mem (p.row dbIndexDestIp) s.bytes :=
    stringAt_row (hrows _) (holds_of_str? hstr)
  have hpatience : s.bytes.length < fuel := by
    change s.length < fuel
    omega
  obtain ⟨mem', hcopy, hdest, hsame⟩ := sprintf_of_stringAt hstring p.gDestIp hpatience
  have hinside : Set.Ico p.gDestIp (p.gDestIp + s.bytes.length + 1) ⊆
      Set.Ico p.gDestIp (p.gDestIp + 30) := Set.Ico_subset_Ico_right (by
    change p.gDestIp + s.length + 1 ≤ _
    omega)
  have houtside := hsame.mono (Set.compl_subset_compl.mpr hinside)
  refine ⟨mem', hcopy, hdest, ?_, ?_, houtside⟩
  · exact hsrc.of_eqOn houtside (Set.subset_compl_iff_disjoint_right.mpr p.dest_src.symm)
  · intro i
    refine (hrows i).of_eqOn houtside ?_
    rw [(rows i).size_eq]
    exact Set.subset_compl_iff_disjoint_right.mpr (p.dest_rows.mono_right (p.row_subset i)).symm

theorem useDbSettings_eq_some {len : ℕ} {p : UsePlaces len} {save save₁ save' : Option ℕ}
    {mem₁ mem₂ : Memory} {x : Numbers}
    (hfill : fillDbStrtok fuel p.toPlaces (List.finRange 7) mem save = some (mem₁, save₁))
    (hcopy : sprintf fuel mem₁ p.gDestIp (p.row dbIndexDestIp) = some mem₂)
    (h : useDbSettings fuel p mem save = some (x, mem', save')) :
    mem' = mem₂ ∧ atoi fuel mem₁ (p.row dbIndexChannel) = some x.gChannel ∧
      atoi fuel mem₂ (p.row dbIndexCkPort) = some x.gCkPort ∧
      atoi fuel mem₂ (p.row dbIndexRssiPort) = some x.gRssiPort ∧
      atoi fuel mem₂ (p.row dbIndexFreq) = some x.gReportFrequency := by
  obtain ⟨⟨m, l⟩, hfill', h⟩ := Option.bind_eq_some_iff.mp h
  obtain ⟨rfl, rfl⟩ : mem₁ = m ∧ save₁ = l := by simpa using hfill.symm.trans hfill'
  obtain ⟨channel, hchannel, h⟩ := Option.bind_eq_some_iff.mp h
  obtain ⟨m, hcopy', h⟩ := Option.bind_eq_some_iff.mp h
  obtain rfl : mem₂ = m := Option.some.inj (hcopy.symm.trans hcopy')
  obtain ⟨ckPort, hckPort, h⟩ := Option.bind_eq_some_iff.mp h
  obtain ⟨rssiPort, hrssiPort, h⟩ := Option.bind_eq_some_iff.mp h
  obtain ⟨freq, hfreq, h⟩ := Option.bind_eq_some_iff.mp h
  obtain ⟨rfl, rfl, -⟩ : (⟨channel, ckPort, rssiPort, freq⟩ : Numbers) = x ∧ mem₂ = mem' ∧
      save₁ = save' := by simpa using Option.some.inj h
  exact ⟨rfl, hchannel, hckPort, hrssiPort, hfreq⟩

theorem exists_destIpField (frame : Frame)
    (h : 3 ≤ (messageFields msg).length ∨ 0 ∈ (frame.dbStrtok dbIndexDestIp).bytes) :
    ∃ s, destIpField msg frame = some s := by
  have hindex : ((dbIndexDestIp : Fin 7) : ℕ) = 2 := rfl
  rw [destIpField, hindex]
  cases hfield : (messageFields msg)[2]? with
  | some ip => exact ⟨ip, rfl⟩
  | none =>
      have hshort := List.getElem?_eq_none_iff.mp hfield
      have hnul : 0 ∈ (frame.dbStrtok dbIndexDestIp).bytes := h.resolve_left (by omega)
      exact ⟨_, dif_pos hnul⟩

/-- The loop and the copy, on the memory and on arrays. -/
theorem fill_sprintf (p : UsePlaces msg.length) {rows : Fin 7 → Buf 30} (hfits : Fits msg)
    (hsrc : StringAt mem p.dbSettingsString msg.bytes)
    (hrows : ∀ i : Fin 7, Holds mem (p.row i) (rows i).bytes)
    {s : CString} (hs : destIpField msg ⟨rows, fun _ => 0⟩ = some s) (hfuel : 50 ≤ fuel)
    (save : Option ℕ) : ∃ (rows' : Fin 7 → Buf 30) (mem₁ : Memory) (save₁ : Option ℕ)
        (mem₂ : Memory), (∀ i : Fin 7, RowFilled msg (rows i) (rows' i) i) ∧
      fillDbStrtok fuel p.toPlaces (List.finRange 7) mem save = some (mem₁, save₁) ∧
      (∀ i : Fin 7, Holds mem₁ (p.row i) (rows' i).bytes) ∧
      sprintf fuel mem₁ p.gDestIp (p.row dbIndexDestIp) = some mem₂ ∧
      (∀ i : Fin 7, Holds mem₂ (p.row i) (rows' i).bytes) ∧
      StringAt mem₂ p.gDestIp s.bytes ∧ StringAt mem₂ p.dbSettingsString msg.bytes ∧
      Set.EqOn mem₂ mem (p.written ∪ Set.Ico p.gDestIp (p.gDestIp + 30))ᶜ := by
  obtain ⟨rows', last', hpure, hfilled⟩ := fillDbStrtok_of_fits msg hfits rows none
  obtain ⟨mem₁, save₁, hfill, hrows₁, hsrc₁, hsame₁⟩ := fillDbStrtok_refines
    (Nat.le_of_lt_succ hfits.1) hfuel hsrc hrows hpure save
  obtain ⟨mem₂, hcopy, hdest₂, hsrc₂, hrows₂, hsame₂⟩ := sprintf_destIp p hsrc₁ hrows₁
    ((str?_rowFilled (hfilled _) rfl).trans hs)
    (length_lt_of_destIpField msg ⟨rows, fun _ => 0⟩ hfits hs) hfuel
  refine ⟨rows', mem₁, save₁, mem₂, hfilled, hfill, hrows₁, hcopy, hrows₂, hdest₂, hsrc₂, ?_⟩
  rw [Set.compl_union]
  exact (hsame₂.mono Set.inter_subset_right).trans (hsame₁.mono Set.inter_subset_left)

end Use

theorem exists_useDbSettings {msg : CString} (p : UsePlaces msg.length) {mem : Memory}
    {fuel : ℕ} (rows : Fin 7 → Buf 30) (hfits : Fits msg)
    (hsrc : StringAt mem p.dbSettingsString msg.bytes)
    (hrows : ∀ i : Fin 7, Holds mem (p.row i) (rows i).bytes) (hfuel : 50 ≤ fuel)
    (save : Option ℕ) (hseven : 7 ≤ (messageFields msg).length) :
    ∃ x mem' save', useDbSettings fuel p mem save = some (x, mem', save') := by
  have hdest : 3 ≤ (messageFields msg).length := by omega
  obtain ⟨s, hs⟩ := exists_destIpField ⟨rows, fun _ => 0⟩ (Or.inl hdest)
  obtain ⟨rows', mem₁, save₁, mem₂, hfilled, hfill, hrows₁, hcopy, hrows₂, -⟩ :=
    fill_sprintf p hfits hsrc hrows hs hfuel save
  have hnumber₁ := atoi_sevenFields (p := p.toPlaces) hfuel hseven hrows₁ hfilled
  have hnumber₂ := atoi_sevenFields (p := p.toPlaces) hfuel hseven hrows₂ hfilled
  let number : Fin 7 → Int32 := numericField msg ⟨rows, fun _ => 0⟩
  refine ⟨⟨number dbIndexChannel, number dbIndexCkPort, number dbIndexRssiPort,
    number dbIndexFreq⟩, mem₂, save₁, ?_⟩
  simp only [useDbSettings, hfill, hcopy, hnumber₁, hnumber₂, bind, Option.bind_some]
  rfl

/-- A run of `use_db_settings` on the memory, with a destination row that ends in a NUL after the
loop, leaves globals that it can leave on arrays, with `g_dest_ip` in its place, and writes nothing
else but its rows and its copy. With seven fields it comes to an end. -/
theorem useDbSettings_refines {msg : CString} (p : UsePlaces msg.length) {mem : Memory}
    {fuel : ℕ} (rows : Fin 7 → Buf 30) (hfits : Fits msg)
    (hsrc : StringAt mem p.dbSettingsString msg.bytes)
    (hrows : ∀ i : Fin 7, Holds mem (p.row i) (rows i).bytes) (hfuel : 50 ≤ fuel)
    (save : Option ℕ) (last : Last) :
    (3 ≤ (messageFields msg).length ∨ 0 ∈ (rows dbIndexDestIp).bytes →
      ∀ x mem' save', useDbSettings fuel p mem save = some (x, mem', save') →
        (∃ overread a, GetSettings.useDbSettings msg ⟨rows, overread⟩ last = .ok a ∧
          a.globals.gChannel = x.gChannel ∧ a.globals.gCkPort = x.gCkPort ∧
          a.globals.gRssiPort = x.gRssiPort ∧
          a.globals.gReportFrequency = x.gReportFrequency ∧
          StringAt mem' p.gDestIp a.globals.gDestIp.str.bytes) ∧
        StringAt mem' p.dbSettingsString msg.bytes ∧
        Set.EqOn mem' mem (p.written ∪ Set.Ico p.gDestIp (p.gDestIp + 30))ᶜ) ∧
      (7 ≤ (messageFields msg).length →
        ∃ x mem' save', useDbSettings fuel p mem save = some (x, mem', save')) := by
  constructor
  · intro hdest x mem' save' hrun
    obtain ⟨s, hs⟩ := exists_destIpField ⟨rows, fun _ => 0⟩ hdest
    obtain ⟨rows', mem₁, save₁, mem₂, hfilled, hfill, hrows₁, hcopy, hrows₂, hdest₂, hsrc₂,
      hsame⟩ := fill_sprintf p hfits hsrc hrows hs hfuel save
    obtain ⟨rfl, hchannel, hckPort, hrssiPort, hfreq⟩ := useDbSettings_eq_some hfill hcopy hrun
    let frame : Frame := ⟨rows, fun i =>
      if i = dbIndexChannel then (atoi fuel mem₁ (p.row i)).getD 0
      else (atoi fuel mem' (p.row i)).getD 0⟩
    have hnumber (i : Fin 7) (hi : i ≠ dbIndexChannel) {a : Int32}
        (ha : atoi fuel mem' (p.row i) = some a) : numericField msg frame i = a := by
      have hover : frame.overread i = (atoi fuel mem' (p.row i)).getD 0 := if_neg hi
      have hrow : numericField msg frame i = (rows' i).atoi (frame.overread i) :=
        (atoi_rowFilled msg (hfilled i) (frame.overread i)).symm
      rw [hrow, hover]
      exact atoi_row (p := p.toPlaces) hfuel (hrows₂ i) ha
    obtain ⟨dest, last₁, rfl, huse⟩ := useDbSettings_of_destIpField msg frame last hfits hs
    refine ⟨⟨frame.overread, _, huse, ?_, hnumber _ (by decide) hckPort,
      hnumber _ (by decide) hrssiPort, hnumber _ (by decide) hfreq, hdest₂⟩, hsrc₂, hsame⟩
    exact (atoi_rowFilled msg (hfilled _) (frame.overread dbIndexChannel)).symm.trans
      (atoi_row (p := p.toPlaces) hfuel (hrows₁ _) hchannel)
  · exact exists_useDbSettings p rows hfits hsrc hrows hfuel save

def someUsePlaces : UsePlaces someMessage.length where
  toPlaces := somePlaces
  gDestIp := 50
  dest_src := by simp [somePlaces]
  dest_rows := by simp [somePlaces]

theorem useDbSettings_refines_someMessage : ∃ x mem' save',
    useDbSettings 50 someUsePlaces (stored someMessage) none = some (x, mem', save') ∧
      StringAt mem' 100 someMessage.bytes ∧
      ∀ q, 500 ≤ q → mem' q = stored someMessage q := by
  have hrows : ∀ i : Fin 7,
      Holds (stored someMessage) (someUsePlaces.row i) (Buf.fill 30 0).bytes := by decide
  obtain ⟨hrun, hends⟩ := useDbSettings_refines someUsePlaces (fun _ => Buf.fill 30 0)
    (by decide) ⟨by decide, someMessage.no_nul⟩ hrows le_rfl none none
  obtain ⟨x, mem', save', h⟩ := hends (by decide)
  obtain ⟨-, hsrc, hsame⟩ := hrun (Or.inl (by decide)) x mem' save' h
  refine ⟨x, mem', save', h, hsrc, fun q hq => hsame ?_⟩
  simp [Places.written, someUsePlaces, somePlaces]
  omega

end SnifferStaSend.ParserMemory
