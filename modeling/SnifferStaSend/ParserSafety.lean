import SnifferStaSend.SettingsMessage
import SnifferStaSend.SockServer

/-!
# Buffer bounds and stack independence of the settings parser

The parser copies a message into 50 bytes and each field into 30 without a length check, and
leaves the row of a missing field as it found it. Both are safe exactly for messages that fit
and that have the fields that are read.
-/

namespace SnifferStaSend.ParserSafety
open CLib GetSettings SockServer

/-- No byte is stored past the end of the array it is meant for. -/
def StoresInBounds {α : Type} (run : Except Fault α) : Prop :=
  ∀ size, run ≠ .error (.storePast size)

theorem storesInBounds_ok {α : Type} (a : α) : StoresInBounds (Except.ok a) := by
  intro size h
  cases h

theorem not_storesInBounds_error {α : Type} {run : Except Fault α} {size : ℕ}
    (h : run = .error (.storePast size)) : ¬ StoresInBounds run := fun hs => hs size h

section IsSetChannelCmd

variable {msg : CString} (ret : Buf 30) (last : Last)

theorem isSetChannelCmd_missing (hlen : msg.length < 50) (h : (messageFields msg)[0]? = none) :
    ∃ last', isSetChannelCmd msg ret last =
      .ok (ret.strcmpIsZero (CString.ofString "Channel"), last') := by
  obtain ⟨last', hget⟩ := getStrtokString_missing last msg 0 ret hlen h
  exact ⟨last', by rw [isSetChannelCmd, hget]; rfl⟩

theorem isSetChannelCmd_present {f : CString} (hlen : msg.length < 50)
    (h : (messageFields msg)[0]? = some f) (hf : f.length < 30) :
    ∃ row last', row.Holds f ∧ isSetChannelCmd msg ret last =
      .ok ((row : Buf 30).strcmpIsZero (CString.ofString "Channel"), last') := by
  obtain ⟨last', hget⟩ := getStrtokString_present last msg 0 ret hlen h
  obtain ⟨row, hrow, hholds⟩ := ret.sprintf_of_lt hf
  exact ⟨row, last', hholds, by rw [isSetChannelCmd, hget, hrow]; rfl⟩

theorem isSetChannelCmd_of_fits (hfits : Fits msg) :
    ∃ v last', isSetChannelCmd msg ret last = .ok (v, last') := by
  cases h : (messageFields msg)[0]? with
  | none =>
      obtain ⟨last', hr⟩ := isSetChannelCmd_missing ret last hfits.1 h
      exact ⟨_, last', hr⟩
  | some f =>
      obtain ⟨_, last', _, hr⟩ := isSetChannelCmd_present ret last hfits.1 h
        (hfits.2 f (mem_take_seven.mpr ⟨0, h⟩))
      exact ⟨_, last', hr⟩

end IsSetChannelCmd

section Bounds

variable (msg : CString) (frame : Frame) (last : Last)

theorem storesInBounds_checkDbSettings_iff :
    StoresInBounds (checkDbSettings msg frame last) ↔ Fits msg := by
  by_cases hfits : Fits msg
  · obtain ⟨last', hr⟩ := checkDbSettings_of_fits msg frame last hfits
    simpa only [hr, hfits, iff_true] using storesInBounds_ok _
  · obtain ⟨size, hr⟩ := checkDbSettings_of_not_fits msg frame last hfits
    simpa only [hfits, iff_false] using not_storesInBounds_error hr

theorem destIpField_eq_none_iff :
    destIpField msg frame = none ↔
      (messageFields msg).length ≤ 2 ∧ 0 ∉ (frame.dbStrtok dbIndexDestIp).bytes := by
  unfold destIpField
  cases h : (messageFields msg)[(dbIndexDestIp : ℕ)]? with
  | none =>
      have hlen : (messageFields msg).length ≤ 2 := List.getElem?_eq_none_iff.mp h
      simp [hlen, Buf.str?]
  | some f =>
      have hlen : 2 < (messageFields msg).length := (List.getElem?_eq_some_iff.mp h).1
      simp only [reduceCtorEq, false_iff, not_and]
      omega

theorem storesInBounds_useDbSettings_iff :
    StoresInBounds (useDbSettings msg frame last) ↔
      Fits msg ∧ (3 ≤ (messageFields msg).length ∨
        0 ∈ (frame.dbStrtok dbIndexDestIp).bytes) := by
  by_cases hfits : Fits msg
  · have hdest := destIpField_eq_none_iff msg frame
    cases hd : destIpField msg frame with
    | none =>
        obtain ⟨last', hr⟩ := useDbSettings_of_fits msg frame last hfits
        rw [hd] at hr
        obtain ⟨hlen, h0⟩ := hdest.mp hd
        apply iff_of_false (not_storesInBounds_error hr)
        rintro ⟨_, h3 | hnul⟩
        · omega
        · exact h0 hnul
    | some s =>
        obtain ⟨dest, last', _, hr⟩ := useDbSettings_of_destIpField msg frame last hfits hd
        rw [hr]
        refine iff_of_true (storesInBounds_ok _) ⟨hfits, ?_⟩
        by_contra! hno
        rw [hdest.mpr ⟨by omega, hno.2⟩] at hd
        cases hd
  · obtain ⟨size, hr⟩ := useDbSettings_of_not_fits msg frame last hfits
    simpa only [hfits, false_and, iff_false] using not_storesInBounds_error hr

end Bounds

/-- The stores of the three callers stay inside the 50 bytes of the copy, the 30 bytes of each
result and the 30 bytes of `g_dest_ip`. -/
def ParserInBounds (msg : CString) (ckFrame useFrame : Frame) (ret : Buf 30) (last : Last) : Prop :=
  StoresInBounds (checkDbSettings msg ckFrame last) ∧
    StoresInBounds (useDbSettings msg useFrame last) ∧
    StoresInBounds (isSetChannelCmd msg ret last)

/-- Exactly the messages of at most 49 characters whose first seven fields have at most 29 are
parsed in bounds, provided that a missing destination field meets a terminator on the stack. -/
theorem parserInBounds_iff (msg : CString) (ckFrame useFrame : Frame) (ret : Buf 30)
    (last : Last) :
    ParserInBounds msg ckFrame useFrame ret last ↔
      msg.length ≤ 49 ∧ (∀ f ∈ (messageFields msg).take 7, f.length ≤ 29) ∧
        (3 ≤ (messageFields msg).length ∨ 0 ∈ (useFrame.dbStrtok dbIndexDestIp).bytes) := by
  have hfits : Fits msg ↔
      msg.length ≤ 49 ∧ ∀ f ∈ (messageFields msg).take 7, f.length ≤ 29 := by
    simp only [Fits, Nat.lt_succ_iff]
  rw [ParserInBounds, storesInBounds_checkDbSettings_iff, storesInBounds_useDbSettings_iff,
    ← and_assoc (a := msg.length ≤ 49), ← hfits]
  constructor
  · exact fun h => h.2.1
  · intro h
    obtain ⟨v, last', hr⟩ := isSetChannelCmd_of_fits ret last h.1
    exact ⟨h.1, h, hr ▸ storesInBounds_ok _⟩

/-- A frame whose rows all start with the byte `c`. -/
def frameOf (c : UInt8) : Frame := ⟨fun _ => Buf.ofBytes 30 [c], fun _ => 0⟩

/-- The firmware URL that Kconfig gives as default is one field of 40 characters. -/
theorem not_parserInBounds_default_url :
    ¬ ParserInBounds (CString.ofString "https://192.168.0.3:8070/hello-world.bin")
      (frameOf 0) (frameOf 0) (Buf.fill 30 0) none := by
  intro h
  have hfits := (storesInBounds_checkDbSettings_iff _ _ _).mp h.1
  revert hfits
  decide

/-- Whatever the uninitialised arrays and `strtok` held, each function returns, and returns the
same. A store past a row of 30 bytes is no return, even where the rows behind it would hide it. -/
structure StackIndependent (msg : CString) : Prop where
  check : ∃ v, ∀ frame last, (checkDbSettings msg frame last).map Prod.fst = .ok v
  use : ∃ g ws, ∀ frame last,
    (useDbSettings msg frame last).map (fun a => (a.globals, a.writes)) = .ok (g, ws)
  setChannel : ∃ v, ∀ ret last, (isSetChannelCmd msg ret last).map Prod.fst = .ok v

section Independence

variable {msg : CString}

theorem numericField_congr (hseven : 7 ≤ (messageFields msg).length) (frame frame' : Frame)
    (i : Fin 7) : numericField msg frame i = numericField msg frame' i :=
  Option.some.inj ((some_numericField frame hseven i).trans
    (some_numericField frame' hseven i).symm)

theorem useDbSettings_depends_on_stack (hfits : Fits msg) (h : (messageFields msg).length < 7) :
    ¬ ∃ g ws, ∀ frame last,
      (useDbSettings msg frame last).map (fun a => (a.globals, a.writes)) = .ok (g, ws) := by
  rintro ⟨g, ws, hall⟩
  have hfreq (c : UInt8) (hnul : 0 ∈ (Buf.ofBytes 30 [c]).bytes) :
      g.gReportFrequency = (Buf.ofBytes 30 [c]).atoi 0 := by
    have hsome : destIpField msg (frameOf c) ≠ none := by
      intro hn
      exact ((destIpField_eq_none_iff msg (frameOf c)).mp hn).2 hnul
    obtain ⟨s, hs⟩ := Option.ne_none_iff_exists'.mp hsome
    obtain ⟨dest, last', _, hr⟩ := useDbSettings_of_destIpField msg (frameOf c) none hfits hs
    have hg := hall (frameOf c) none
    rw [hr] at hg
    have heq : appliedGlobals msg (frameOf c) dest = g := congrArg Prod.fst (Except.ok.inj hg)
    have hmissing : (messageFields msg)[(dbIndexFreq : ℕ)]? = none :=
      List.getElem?_eq_none (Nat.le_of_lt_succ h)
    rw [← heq]
    simp only [appliedGlobals, numericField, hmissing]
    rfl
  have hone := hfreq 49 (by decide)
  have htwo := hfreq 50 (by decide)
  rw [hone] at htwo
  revert htwo
  decide

theorem stackIndependent_of_seven (hfits : Fits msg) (hseven : 7 ≤ (messageFields msg).length) :
    StackIndependent msg := by
  have hpresent (i : ℕ) (hi : i < 7) : ∃ f, (messageFields msg)[i]? = some f :=
    ⟨_, List.getElem?_eq_getElem (by omega)⟩
  refine ⟨⟨verdict msg (frameOf 0), ?_⟩, ?_, ?_⟩
  · intro frame last
    obtain ⟨last', hr⟩ := checkDbSettings_of_fits msg frame last hfits
    rw [hr]
    simp only [Except.map, verdict, rowsInRange, numericField_congr hseven frame (frameOf 0)]
  · obtain ⟨f, hf⟩ := hpresent 2 (by decide)
    have hdest (frame : Frame) : destIpField msg frame = some f := destIpField_eq_some frame hf
    have hlt := length_lt_of_destIpField msg (frameOf 0) hfits (hdest _)
    refine ⟨appliedGlobals msg (frameOf 0) ⟨f, hlt⟩,
      writeSettings (appliedGlobals msg (frameOf 0) ⟨f, hlt⟩), ?_⟩
    intro frame last
    obtain ⟨dest, last', hstr, hr⟩ :=
      useDbSettings_of_destIpField msg frame last hfits (hdest frame)
    have hd : dest = ⟨f, hlt⟩ := CharArray.ext hstr
    rw [hr]
    simp only [Except.map, hd, appliedGlobals, numericField_congr hseven frame (frameOf 0)]
  · obtain ⟨f, hf⟩ := hpresent 0 (by decide)
    have hlt := hfits.2 f (mem_take_seven.mpr ⟨0, hf⟩)
    refine ⟨decide (f = CString.ofString "Channel"), ?_⟩
    intro ret last
    obtain ⟨row, last', hholds, hr⟩ := isSetChannelCmd_present ret last hfits.1 hf hlt
    rw [hr, hholds.strcmpIsZero]
    rfl

end Independence

/-- The outcome is a function of the message alone exactly when the message fits and has all
seven fields that are read. -/
theorem stackIndependent_iff (msg : CString) :
    StackIndependent msg ↔
      (msg.length ≤ 49 ∧ ∀ f ∈ (messageFields msg).take 7, f.length ≤ 29) ∧
        7 ≤ (messageFields msg).length := by
  have hfits : Fits msg ↔
      msg.length ≤ 49 ∧ ∀ f ∈ (messageFields msg).take 7, f.length ≤ 29 := by
    simp only [Fits, Nat.lt_succ_iff]
  rw [← hfits]
  constructor
  · intro h
    have hf : Fits msg := by
      obtain ⟨v, hv⟩ := h.check
      by_contra hno
      obtain ⟨size, hr⟩ := checkDbSettings_of_not_fits msg (frameOf 0) none hno
      have hbad := hv (frameOf 0) none
      rw [hr] at hbad
      cases hbad
    refine ⟨hf, ?_⟩
    by_contra! hlt
    exact useDbSettings_depends_on_stack hf hlt h.use
  · exact fun h => stackIndependent_of_seven h.1 h.2

/-- An empty message is accepted on one stack and rejected on another. -/
theorem not_stackIndependent_empty : ¬ StackIndependent (CString.ofString "") := by
  intro h
  obtain ⟨v, hv⟩ := h.check
  obtain ⟨l₁, hone⟩ := checkDbSettings_of_fits (CString.ofString "") (frameOf 49) none (by decide)
  obtain ⟨l₂, hzero⟩ := checkDbSettings_of_fits (CString.ofString "") (frameOf 0) none (by decide)
  have h1 := hv (frameOf 49) none
  have h0 := hv (frameOf 0) none
  rw [hone] at h1
  rw [hzero] at h0
  have heq : verdict (CString.ofString "") (frameOf 49) =
      verdict (CString.ofString "") (frameOf 0) :=
    (Except.ok.inj h1).trans (Except.ok.inj h0).symm
  revert heq
  decide

end SnifferStaSend.ParserSafety
