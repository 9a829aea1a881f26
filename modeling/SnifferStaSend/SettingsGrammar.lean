import SnifferStaSend.SettingsRecord

/-!
# Positions and grammar of the settings message

The readers of a message address its fields by position, but `strtok` leaves empty fields out,
and `atoi` takes more than numerals. Both decide how far the readers keep to what the sender of
a message means.
-/

namespace SnifferStaSend.SettingsGrammar
open CLib GetSettings ParserSafety SettingsRecord

section Positions

theorem nul_not_mem_intercalate (texts : List CString) :
    0 ∉ [44].intercalate (texts.map CString.bytes) := by
  induction texts with
  | nil => exact List.not_mem_nil
  | cons f texts ih =>
      cases texts with
      | nil =>
          rw [List.map_cons, List.map_nil, List.intercalate_singleton]
          exact f.no_nul
      | cons g texts =>
          rw [List.map_cons, List.map_cons, List.intercalate_cons_cons, List.mem_append,
            List.mem_append, not_or, not_or]
          exact ⟨⟨f.no_nul, by decide⟩, ih⟩

def joined (texts : List CString) : CString :=
  ⟨[44].intercalate (texts.map CString.bytes), nul_not_mem_intercalate texts⟩

/-- What a sender puts into a message: seven texts or more, of which some may be empty. -/
structure Sent where
  texts : List CString
  seven : 7 ≤ texts.length
  comma_free : ∀ f ∈ texts, 44 ∉ f.bytes
  short : ∀ f ∈ texts, f.length ≤ 29
  fits : (joined texts).length ≤ 49

def Sent.message (m : Sent) : CString := joined m.texts

/-- Every position is decoded to the text put there, whatever the arrays held before, and so
are those that `use_db_settings` takes its five values from. -/
structure Decodes (m : Sent) : Prop where
  position : ∀ i (hi : i < m.texts.length), i < 7 → ∀ last buf, ∃ row last',
    getStrtokString last m.message i buf = .ok (row, last') ∧ row.Holds m.texts[i]
  applied : ∀ frame last, ∃ a, useDbSettings m.message frame last = .ok a ∧
    some a.globals.gChannel = m.texts[0]?.map CString.atoi ∧
    some a.globals.gDestIp.str = m.texts[2]? ∧
    some a.globals.gCkPort = m.texts[3]?.map CString.atoi ∧
    some a.globals.gRssiPort = m.texts[4]?.map CString.atoi ∧
    some a.globals.gReportFrequency = m.texts[6]?.map CString.atoi

theorem text_bytes (f : CString) : CString.text f.bytes = f :=
  CString.ext (CString.bytes_text f.no_nul)

theorem messageFields_message (m : Sent) :
    messageFields m.message = m.texts.filter (fun f => !f.bytes.isEmpty) := by
  have hfree : ∀ p ∈ m.texts.map CString.bytes, 44 ∉ p := by
    intro p hp
    obtain ⟨f, hf, rfl⟩ := List.mem_map.mp hp
    exact m.comma_free f hf
  have hfields : fields delim m.message.bytes =
      (m.texts.map CString.bytes).filter (fun p => !p.isEmpty) :=
    fields_intercalate 44 (m.texts.map CString.bytes) hfree
  rw [messageFields, hfields, List.filter_map, List.map_map]
  have hid : CString.text ∘ CString.bytes = id := funext text_bytes
  rw [hid, List.map_id]
  rfl

theorem fits_message (m : Sent) : Fits m.message := by
  refine ⟨Nat.lt_succ_of_le m.fits, ?_⟩
  intro f hf
  have hmem := List.mem_of_mem_take hf
  rw [messageFields_message] at hmem
  exact Nat.lt_succ_of_le (m.short f (List.mem_of_mem_filter hmem))

theorem messageFields_getElem? (m : Sent) (h : ∀ f ∈ m.texts.take 7, f.bytes ≠ []) {i : ℕ}
    (hi : i < 7) : (messageFields m.message)[i]? = m.texts[i]? := by
  have hfirst : (m.texts.take 7).filter (fun f => !f.bytes.isEmpty) = m.texts.take 7 := by
    rw [List.filter_eq_self]
    intro f hf
    simpa using h f hf
  have hsplit : messageFields m.message =
      m.texts.take 7 ++ (m.texts.drop 7).filter (fun f => !f.bytes.isEmpty) := by
    rw [messageFields_message, ← hfirst, ← List.filter_append, List.take_append_drop]
  have hlen : i < (m.texts.take 7).length := by
    rw [List.length_take, Nat.min_eq_left m.seven]
    exact hi
  rw [hsplit, List.getElem?_append_left hlen, List.getElem?_take_of_lt hi]

/-- An empty text is not found at its position: there is another one, or nothing is stored. -/
theorem not_holds_of_empty (m : Sent) {i : ℕ} (hi : i < m.texts.length)
    (hempty : m.texts[i].bytes = []) (hseven : i < 7) : ¬ ∃ row last',
      getStrtokString none m.message i (Buf.fill 30 1) = .ok (row, last') ∧
        row.Holds m.texts[i] := by
  rintro ⟨row, last', hget, hholds⟩
  have hfits := fits_message m
  cases hfield : (messageFields m.message)[i]? with
  | none =>
      obtain ⟨last'', hmissing⟩ := getStrtokString_missing none m.message i (Buf.fill 30 1) hfits.1
        hfield
      obtain ⟨rfl, rfl⟩ := Prod.mk.inj (Except.ok.inj (hmissing.symm.trans hget))
      obtain ⟨rest, hbytes⟩ := hholds
      rw [hempty] at hbytes
      cases hbytes
  | some g =>
      obtain ⟨row', last'', hok, hrow⟩ := getStrtokString_ok m.message none i (Buf.fill 30 1)
        hfits.1 (fun f hf => hfits.2 f (mem_take_seven.mpr ⟨⟨i, hseven⟩, hf⟩))
      obtain ⟨rfl, rfl⟩ := Prod.mk.inj (Except.ok.inj (hok.symm.trans hget))
      rw [RowFilled, hfield] at hrow
      have hsame : g = m.texts[i] := Option.some.inj (hrow.str?.symm.trans hholds.str?)
      have hmem := List.mem_of_getElem? hfield
      rw [messageFields_message, List.mem_filter, hsame, hempty] at hmem
      exact Bool.false_ne_true hmem.2

end Positions

/-- The messages whose first seven texts are not empty are the ones that are decoded by
position. -/
theorem decodes_iff (m : Sent) : Decodes m ↔ ∀ f ∈ m.texts.take 7, f.bytes ≠ [] := by
  constructor
  · intro hdecodes f hf hempty
    obtain ⟨i, hi, rfl⟩ := List.mem_take_iff_getElem.mp hf
    obtain ⟨hseven, hlt⟩ := lt_min_iff.mp hi
    exact not_holds_of_empty m hlt hempty hseven
      (hdecodes.position i hlt hseven none (Buf.fill 30 1))
  · intro h
    have hfits := fits_message m
    constructor
    · intro i hi hseven last buf
      have hfield := (messageFields_getElem? m h hseven).trans (List.getElem?_eq_getElem hi)
      obtain ⟨last', hget⟩ := getStrtokString_present last m.message i buf hfits.1 hfield
      obtain ⟨row, hrow, hholds⟩ := buf.sprintf_of_lt
        (Nat.lt_succ_of_le (m.short _ (List.getElem_mem hi)))
      exact ⟨row, last', by rw [hget, hrow]; rfl, hholds⟩
    · intro frame last
      have hlen : 7 ≤ (messageFields m.message).length := by
        have hsix : 6 < m.texts.length := m.seven
        have hfield := (messageFields_getElem? m h (by decide)).trans
          (List.getElem?_eq_getElem hsix)
        exact (List.getElem?_eq_some_iff.mp hfield).1
      obtain ⟨a, huse, -, happlied⟩ := useDbSettings_fields frame hfits hlen last
      rw [messageFields_getElem? m h (by decide), messageFields_getElem? m h (by decide),
        messageFields_getElem? m h (by decide), messageFields_getElem? m h (by decide),
        messageFields_getElem? m h (by decide)] at happlied
      exact ⟨a, huse, happlied⟩

def gap : Sent where
  texts := ["6", "", "10.0.0.7", "9001", "9002", "9003", "250"].map CString.ofString
  seven := by decide
  comma_free := by decide
  short := by decide
  fits := by decide

/-- The port is taken for the destination address. -/
theorem not_decodes_gap : ¬ Decodes gap ∧
    destIpField gap.message (frameOf 0) = some (CString.ofString "9001") := by
  constructor
  · intro hdecodes
    have hone : 1 < gap.texts.length := by decide
    exact not_holds_of_empty gap hone rfl (by decide)
      (hdecodes.position 1 hone (by decide) none (Buf.fill 30 1))
  · decide

section Grammar

/-- The fields that the validator looks at are numerals. -/
structure WellFormed (msg : CString) : Prop where
  seven : 7 ≤ (messageFields msg).length
  numerals : ∀ i ∈ [0, 3, 4, 5], ∀ f ∈ (messageFields msg)[i]?, ∀ c ∈ f.bytes, isdigit c = true

/-- Seven fields or more, numerals for a channel and for three ports among them. -/
structure Grammar (msg : CString) : Prop extends WellFormed msg where
  channel : ∀ f ∈ (messageFields msg)[0]?, 1 ≤ digitsValue f.bytes ∧ digitsValue f.bytes ≤ 14
  ports : ∀ i ∈ [3, 4, 5], ∀ f ∈ (messageFields msg)[i]?,
    1 ≤ digitsValue f.bytes ∧ digitsValue f.bytes ≤ 65535

variable {msg : CString} {frame : Frame}

/-- What `atoi` makes of the rows is a channel and three ports. -/
structure NumbersInRange (msg : CString) (frame : Frame) : Prop where
  channel : ∀ i : Fin 7, (i : ℕ) = 0 →
    1 ≤ (numericField msg frame i).toInt ∧ (numericField msg frame i).toInt ≤ 14
  ports : ∀ i : Fin 7, (i : ℕ) ∈ [3, 4, 5] →
    1 ≤ (numericField msg frame i).toInt ∧ (numericField msg frame i).toInt ≤ 65535

def NoLastPort (msg : CString) (frame : Frame) : Prop :=
  ∀ i : Fin 7, (i : ℕ) ∈ [3, 4, 5] → (numericField msg frame i).toInt ≠ 65535

theorem forall_ports_iff {P : Fin 7 → Prop} :
    (∀ i : Fin 7, (i : ℕ) ∈ [3, 4, 5] → P i) ↔ P 3 ∧ P 4 ∧ P 5 := by
  constructor
  · intro h
    exact ⟨h 3 (by decide), h 4 (by decide), h 5 (by decide)⟩
  · rintro ⟨hthree, hfour, hfive⟩ i hi
    rw [List.mem_cons, List.mem_pair] at hi
    rcases hi with h | h | h
    · obtain rfl : i = 3 := Fin.ext h
      exact hthree
    · obtain rfl : i = 4 := Fin.ext h
      exact hfour
    · obtain rfl : i = 5 := Fin.ext h
      exact hfive

theorem portInRange_iff_ne {v : Int32} :
    portInRange v = true ↔ (1 ≤ v.toInt ∧ v.toInt ≤ 65535) ∧ v.toInt ≠ 65535 := by
  rw [portInRange_iff]
  omega

theorem verdict_iff_numbers :
    verdict msg frame = true ↔ NumbersInRange msg frame ∧ NoLastPort msg frame := by
  rw [verdict_iff, portInRange_iff_ne, portInRange_iff_ne, portInRange_iff_ne, NoLastPort,
    forall_ports_iff]
  constructor
  · rintro ⟨hchannel, ⟨hthree, hthree'⟩, ⟨hfour, hfour'⟩, hfive, hfive'⟩
    refine ⟨⟨?_, forall_ports_iff.mpr ⟨hthree, hfour, hfive⟩⟩, hthree', hfour', hfive'⟩
    intro i hi
    obtain rfl : i = 0 := Fin.ext hi
    exact hchannel
  · rintro ⟨hnumbers, hthree', hfour', hfive'⟩
    obtain ⟨hthree, hfour, hfive⟩ := forall_ports_iff.mp hnumbers.ports
    exact ⟨hnumbers.channel 0 rfl, ⟨hthree, hthree'⟩, ⟨hfour, hfour'⟩, hfive, hfive'⟩

theorem WellFormed.toInt_numericField (h : WellFormed msg) (frame : Frame) (i : Fin 7)
    (hi : (i : ℕ) ∈ [0, 3, 4, 5]) : ∃ f, (messageFields msg)[(i : ℕ)]? = some f ∧
      (numericField msg frame i).toInt = min (digitsValue f.bytes : ℤ) (2 ^ 31 - 1) := by
  have hlt : (i : ℕ) < (messageFields msg).length := lt_of_lt_of_le i.isLt h.seven
  have hfield := List.getElem?_eq_getElem hlt
  refine ⟨_, hfield, ?_⟩
  rw [numericField_eq_atoi frame hfield]
  exact CString.atoi_of_digits (h.numerals i hi _ hfield)

/-- In a well-formed message the numbers are the values of the numerals. -/
theorem grammar_iff (frame : Frame) :
    Grammar msg ↔ WellFormed msg ∧ NumbersInRange msg frame := by
  have hport {i : ℕ} (hi : i ∈ [3, 4, 5]) : i ∈ [0, 3, 4, 5] := List.mem_cons_of_mem 0 hi
  constructor
  · intro hgrammar
    have hwell := hgrammar.toWellFormed
    refine ⟨hwell, ?_, ?_⟩
    · intro i hi
      obtain ⟨f, hf, hvalue⟩ := hwell.toInt_numericField frame i (by simp [hi])
      have hrange := hgrammar.channel f (hi ▸ hf)
      omega
    · intro i hi
      obtain ⟨f, hf, hvalue⟩ := hwell.toInt_numericField frame i (hport hi)
      have hrange := hgrammar.ports i hi f hf
      omega
  · rintro ⟨hwell, hnumbers⟩
    refine ⟨hwell, ?_, ?_⟩
    · intro f hf
      obtain ⟨f', hf', hvalue⟩ := hwell.toInt_numericField frame 0 (by decide)
      obtain rfl : f = f' := Option.some.inj (hf.symm.trans hf')
      have hrange := hnumbers.channel 0 rfl
      omega
    · intro i hi f hf
      have hlt : i < 7 := by
        simp only [List.mem_cons, List.not_mem_nil, or_false] at hi
        omega
      obtain ⟨f', hf', hvalue⟩ := hwell.toInt_numericField frame ⟨i, hlt⟩ (hport hi)
      obtain rfl : f = f' := Option.some.inj (hf.symm.trans hf')
      have hrange := hnumbers.ports ⟨i, hlt⟩ hi
      omega

theorem accepts_iff_numbers (hfits : Fits msg) (last : Last) :
    (∃ last', checkDbSettings msg frame last = .ok (true, last')) ↔
      NumbersInRange msg frame ∧ NoLastPort msg frame := by
  obtain ⟨last', hcheck⟩ := checkDbSettings_of_fits msg frame last hfits
  rw [hcheck, ← verdict_iff_numbers]
  constructor
  · rintro ⟨last'', hok⟩
    exact congrArg Prod.fst (Except.ok.inj hok)
  · intro hverdict
    exact ⟨last', by rw [hverdict]⟩

theorem accepts_iff_grammar_of_fits (hfits : Fits msg) (last : Last) :
    ((∃ last', checkDbSettings msg frame last = .ok (true, last')) ↔ Grammar msg) ↔
      (NumbersInRange msg frame → (WellFormed msg ↔ NoLastPort msg frame)) := by
  rw [accepts_iff_numbers hfits, grammar_iff frame, and_comm (a := WellFormed msg),
    and_congr_right_iff, iff_comm (a := NoLastPort msg frame)]

end Grammar

/-- The validator keeps to the grammar exactly when a number is out of range anyway, or when it
is in the well-formed messages that no port is 65535. -/
theorem accepts_iff_grammar_iff (msg : CString) (hlen : msg.length ≤ 49)
    (hshort : ∀ f ∈ messageFields msg, f.length ≤ 29) (frame : Frame) (last : Last) :
    ((∃ last', checkDbSettings msg frame last = .ok (true, last')) ↔ Grammar msg) ↔
      (NumbersInRange msg frame → (WellFormed msg ↔ NoLastPort msg frame)) := by
  have hfits : Fits msg :=
    ⟨Nat.lt_succ_of_le hlen, fun f hf => Nat.lt_succ_of_le (hshort f (List.mem_of_mem_take hf))⟩
  exact accepts_iff_grammar_of_fits hfits last

theorem accepts_plain_message :
    (∃ last', checkDbSettings (CString.ofString "6,x,10.0.0.7,9001,9002,9003,250") (frameOf 0) none =
      .ok (true, last')) ↔ Grammar (CString.ofString "6,x,10.0.0.7,9001,9002,9003,250") :=
  (accepts_iff_grammar_iff (CString.ofString "6,x,10.0.0.7,9001,9002,9003,250") (by decide)
    (by decide) (frameOf 0) none).mpr
      (fun _ => iff_of_true ⟨by decide, by decide +kernel⟩ (by unfold NoLastPort; decide))

/-- The last port is refused, and a channel with letters behind it is taken. -/
theorem not_accepts_iff_grammar :
    (Grammar (CString.ofString "6,x,10.0.0.7,9001,65535,9003,250") ∧
      ¬ ∃ last', checkDbSettings (CString.ofString "6,x,10.0.0.7,9001,65535,9003,250") (frameOf 0)
        none = .ok (true, last')) ∧
    (¬ Grammar (CString.ofString "6abc,x,10.0.0.7,9001,9002,9003,250") ∧
      ∃ last', checkDbSettings (CString.ofString "6abc,x,10.0.0.7,9001,9002,9003,250") (frameOf 0)
        none = .ok (true, last')) := by
  constructor
  · obtain ⟨last', hcheck⟩ := checkDbSettings_of_fits
      (CString.ofString "6,x,10.0.0.7,9001,65535,9003,250") (frameOf 0) none (by decide)
    refine ⟨⟨⟨by decide, by decide +kernel⟩, by decide, by decide +kernel⟩, ?_⟩
    rintro ⟨last'', hok⟩
    rw [hcheck] at hok
    have hverdict : verdict (CString.ofString "6,x,10.0.0.7,9001,65535,9003,250") (frameOf 0) =
        true := congrArg Prod.fst (Except.ok.inj hok)
    revert hverdict
    decide
  · obtain ⟨last', hcheck⟩ := checkDbSettings_of_fits
      (CString.ofString "6abc,x,10.0.0.7,9001,9002,9003,250") (frameOf 0) none (by decide)
    refine ⟨fun hgrammar => ?_, last', hcheck⟩
    have hnumerals := hgrammar.numerals
    revert hnumerals
    decide +kernel

section SevenFields

variable {msg : CString} (frame : Frame)

/-- What `atoi` makes of the fields is a channel and three ports. -/
structure FieldsInRange (msg : CString) : Prop where
  channel : ∀ f ∈ (messageFields msg)[0]?, 1 ≤ f.atoi.toInt ∧ f.atoi.toInt ≤ 14
  ports : ∀ i ∈ [3, 4, 5], ∀ f ∈ (messageFields msg)[i]?,
    1 ≤ f.atoi.toInt ∧ f.atoi.toInt ≤ 65535

def NoLastPortField (msg : CString) : Prop :=
  ∀ i ∈ [3, 4, 5], ∀ f ∈ (messageFields msg)[i]?, f.atoi.toInt ≠ 65535

theorem forall_field_iff (hseven : 7 ≤ (messageFields msg).length) {P : Int32 → Prop} (i : Fin 7) :
    (∀ f ∈ (messageFields msg)[(i : ℕ)]?, P f.atoi) ↔ P (numericField msg frame i) := by
  have hlt : (i : ℕ) < (messageFields msg).length := lt_of_lt_of_le i.isLt hseven
  have hfield := List.getElem?_eq_getElem hlt
  rw [numericField_eq_atoi frame hfield, hfield]
  simp

theorem forall_portFields_iff (hseven : 7 ≤ (messageFields msg).length) {P : Int32 → Prop} :
    (∀ i ∈ [3, 4, 5], ∀ f ∈ (messageFields msg)[i]?, P f.atoi) ↔
      ∀ i : Fin 7, (i : ℕ) ∈ [3, 4, 5] → P (numericField msg frame i) := by
  constructor
  · intro h i hi
    exact (forall_field_iff frame hseven i).mp (h i hi)
  · intro h i hi
    have hlt : i < 7 := by
      simp only [List.mem_cons, List.not_mem_nil, or_false] at hi
      omega
    exact (forall_field_iff frame hseven ⟨i, hlt⟩).mpr (h ⟨i, hlt⟩ hi)

/-- With all seven fields there the condition is one on the message alone. -/
theorem accepts_iff_grammar_sevenFields (hfits : Fits msg)
    (hseven : 7 ≤ (messageFields msg).length) (last : Last) :
    ((∃ last', checkDbSettings msg frame last = .ok (true, last')) ↔ Grammar msg) ↔
      (FieldsInRange msg → (WellFormed msg ↔ NoLastPortField msg)) := by
  have hrange : FieldsInRange msg ↔ NumbersInRange msg frame := by
    have hchannel := forall_field_iff frame hseven
      (P := fun v => 1 ≤ v.toInt ∧ v.toInt ≤ 14) 0
    have hports := forall_portFields_iff frame hseven
      (P := fun v => 1 ≤ v.toInt ∧ v.toInt ≤ 65535)
    constructor
    · intro h
      refine ⟨fun i hi => ?_, hports.mp h.ports⟩
      obtain rfl : i = 0 := Fin.ext hi
      exact hchannel.mp h.channel
    · intro h
      exact ⟨hchannel.mpr (h.channel 0 rfl), hports.mpr h.ports⟩
  have hlast : NoLastPortField msg ↔ NoLastPort msg frame :=
    forall_portFields_iff frame hseven (P := fun v => v.toInt ≠ 65535)
  rw [accepts_iff_grammar_of_fits hfits, hrange, hlast]

end SevenFields

end SnifferStaSend.SettingsGrammar
