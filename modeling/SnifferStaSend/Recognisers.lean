import SnifferStaSend.SettingsRecord

/-!
# The recognisers of messages

Five functions tell what a message is for. Each of them commits to the first byte of the first
field, and no two to the same byte, so that at most one of them accepts.
-/

namespace SnifferStaSend.Recognisers
open CLib GetSettings SockServer ParserSafety SettingsRecord

inductive Recogniser
  | checkDbSettings | isHttpsCmd | isSetChannelCmd | isGetInfoCmd | isRebootCmd
  deriving DecidableEq

/-- What the recognisers of a message run on: the memory from its first byte on, the arrays that
they do not initialise, and where `strtok` was left. -/
structure Machine (msg : CString) where
  string : ℕ → UInt8
  text : ∀ i (h : i < msg.bytes.length), string i = msg.bytes[i]
  nul : string msg.bytes.length = 0
  frame : Frame
  retStr : Buf 30
  last : Last

variable {msg : CString}

def Recogniser.run (m : Machine msg) : Recogniser → Except Fault Bool
  | .checkDbSettings => (GetSettings.checkDbSettings msg m.frame m.last).map Prod.fst
  | .isHttpsCmd => .ok (SockServer.isHttpsCmd m.string []).1
  | .isSetChannelCmd => (SockServer.isSetChannelCmd msg m.retStr m.last).map Prod.fst
  | .isGetInfoCmd => .ok (SockServer.isGetInfoCmd m.string []).1
  | .isRebootCmd => .ok (SockServer.isRebootCmd m.string []).1

/-- The indices that the tests by characters read. -/
def charReads (m : Machine msg) : List ℕ :=
  (SockServer.isHttpsCmd m.string []).2 ++ (SockServer.isGetInfoCmd m.string []).2 ++
    (SockServer.isRebootCmd m.string []).2

/-- The only recogniser for messages whose first field starts with `c`. -/
def recogniserOf (c : UInt8) : Option Recogniser :=
  if startsNumeral c then some .checkDbSettings
  else if c = 104 then some .isHttpsCmd
  else if c = 67 then some .isSetChannelCmd
  else if c = 71 then some .isGetInfoCmd
  else if c = 82 then some .isRebootCmd
  else none

/-- All recognisers return, at most one accepts, whatever the arrays held, and no character behind
the terminator is read. -/
structure Disjoint (msg : CString) : Prop where
  returns : ∀ (m : Machine msg) (r : Recogniser), ∃ v, r.run m = .ok v
  unique : ∀ (m m' : Machine msg) (r r' : Recogniser), r.run m = .ok true → r'.run m' = .ok true →
    r = r'
  inside : ∀ m : Machine msg, ∀ i ∈ charReads m, i ≤ msg.length

section FirstField

variable {f : CString} (m : Machine msg)

theorem head?_firstField {c : UInt8} (hhead : msg.bytes.head? = some c) (hc : delim c = false)
    (hf : (messageFields msg)[0]? = some f) : f.bytes.head? = some c := by
  obtain ⟨bytes, hnul⟩ := msg
  cases bytes with
  | nil => cases hhead
  | cons a s =>
      obtain rfl : a = c := Option.some.inj hhead
      obtain ⟨t, rest, hfields⟩ := fields_cons_of_not_delim delim hc s
      obtain ⟨u, hu, rfl⟩ := messageFields_eq_some.mp hf
      rw [hfields] at hu
      obtain rfl : a :: t = u := Option.some.inj hu
      have hne : a ≠ 0 := fun h => hnul (h ▸ List.mem_cons_self)
      rw [CString.bytes_text_cons hne]
      rfl

theorem head?_of_charsAre {c : UInt8} {cs : List UInt8} (hc : c ≠ 0)
    (h : (Reading.charsAre m.string 0 (c :: cs) []).1 = true) : msg.bytes.head? = some c := by
  have hzero : m.string 0 = c := (Reading.charsAre_iff _ _ _ _).mp h 0 (Nat.succ_pos _)
  cases hbytes : msg.bytes with
  | nil =>
      have hnul := m.nul
      rw [hbytes] at hnul
      exact absurd (hzero.symm.trans hnul) hc
  | cons a s =>
      have hpos : 0 < msg.bytes.length := by simp [hbytes]
      have htext := m.text 0 hpos
      rw [hzero] at htext
      simp only [hbytes, List.getElem_cons_zero] at htext
      rw [htext]
      rfl

theorem recogniserOf_charsAre {c : UInt8} {cs : List UInt8} (hc : c ≠ 0) (hdelim : delim c = false)
    (hf : (messageFields msg)[0]? = some f)
    (h : (Reading.charsAre m.string 0 (c :: cs) []).1 = true) :
    f.bytes.head?.bind recogniserOf = recogniserOf c := by
  rw [head?_firstField (head?_of_charsAre m hc h) hdelim hf]
  rfl

theorem recogniserOf_checkDbSettings {frame : Frame} (hf : (messageFields msg)[0]? = some f)
    (h : verdict msg frame = true) :
    f.bytes.head?.bind recogniserOf = some .checkDbSettings := by
  have hrange := (verdict_iff.mp h).1
  have hfield : (messageFields msg)[((0 : Fin 7) : ℕ)]? = some f := hf
  rw [numericField_eq_atoi frame hfield] at hrange
  have hne : f.atoi ≠ 0 := by
    intro hzero
    rw [hzero] at hrange
    exact absurd hrange.1 (by decide)
  obtain ⟨c, hhead, hc⟩ := CString.startsNumeral_of_atoi hne
  rw [Option.mem_def.mp hhead, Option.bind_some, recogniserOf, if_pos hc]

/-- An accepting recogniser is the one of the first byte. -/
theorem recogniserOf_of_run (hfits : Fits msg) (hf : (messageFields msg)[0]? = some f)
    {r : Recogniser} (h : r.run m = .ok true) : f.bytes.head?.bind recogniserOf = some r := by
  cases r with
  | checkDbSettings =>
      obtain ⟨last', hcheck⟩ := checkDbSettings_of_fits msg m.frame m.last hfits
      rw [Recogniser.run, hcheck] at h
      exact recogniserOf_checkDbSettings hf (Except.ok.inj h)
  | isSetChannelCmd =>
      obtain ⟨row, last', hholds, hcall⟩ := isSetChannelCmd_present m.retStr m.last hfits.1 hf
        (hfits.2 f (mem_take_seven.mpr ⟨0, hf⟩))
      rw [Recogniser.run, hcall, hholds.strcmpIsZero] at h
      obtain rfl : f = CString.ofString "Channel" := of_decide_eq_true (Except.ok.inj h)
      rfl
  | isHttpsCmd =>
      exact recogniserOf_charsAre m (by decide) (by decide) hf (Except.ok.inj h)
  | isGetInfoCmd =>
      exact recogniserOf_charsAre m (by decide) (by decide) hf (Except.ok.inj h)
  | isRebootCmd =>
      exact recogniserOf_charsAre m (by decide) (by decide) hf (Except.ok.inj h)

theorem run_of_fits (hfits : Fits msg) (r : Recogniser) : ∃ v, r.run m = .ok v := by
  cases r with
  | checkDbSettings =>
      obtain ⟨last', hcheck⟩ := checkDbSettings_of_fits msg m.frame m.last hfits
      exact ⟨_, by rw [Recogniser.run, hcheck]; rfl⟩
  | isSetChannelCmd =>
      obtain ⟨v, last', hcall⟩ := isSetChannelCmd_of_fits m.retStr m.last hfits
      exact ⟨v, by rw [Recogniser.run, hcall]; rfl⟩
  | isHttpsCmd => exact ⟨_, rfl⟩
  | isGetInfoCmd => exact ⟨_, rfl⟩
  | isRebootCmd => exact ⟨_, rfl⟩

end FirstField

/-- The terminator is no letter, so that it ends each of the tests. -/
theorem le_of_mem_charReads {m : Machine msg} {i : ℕ} (hi : i ∈ charReads m) : i ≤ msg.length := by
  have hinside (cs : List UInt8) (hcs : 0 ∉ cs)
      (hread : i ∈ (Reading.charsAre m.string 0 cs []).2) : i ≤ msg.length := by
    have hstop : m.string msg.bytes.length ∉ cs := m.nul.symm ▸ hcs
    obtain ⟨reads, heq, hreads⟩ := Reading.within_charsAre hstop (Nat.zero_le _) []
    rw [heq, List.nil_append] at hread
    exact hreads i hread
  rw [charReads, List.mem_append, List.mem_append] at hi
  rcases hi with (hhttps | hget) | hreboot
  · exact hinside _ (CString.ofString "https").no_nul hhttps
  · exact hinside _ (CString.ofString "GET").no_nul hget
  · exact hinside _ (CString.ofString "REBOOT").no_nul hreboot

/-- The order in which the recognisers are tried does not matter. -/
theorem disjoint_of_word (msg : CString) (hlen : msg.length ≤ 49)
    (hshort : ∀ f ∈ messageFields msg, f.length ≤ 29) (hword : ∃ c ∈ msg.bytes, c ≠ 44) :
    Disjoint msg := by
  have hfits : Fits msg :=
    ⟨Nat.lt_succ_of_le hlen, fun f hf => Nat.lt_succ_of_le (hshort f (List.mem_of_mem_take hf))⟩
  have hfields : messageFields msg ≠ [] := by
    obtain ⟨c, hmem, hc⟩ := hword
    have hsome := fields_ne_nil delim ⟨c, hmem, beq_eq_false_iff_ne.mpr hc⟩
    simpa [messageFields] using hsome
  obtain ⟨f, rest, hfirst⟩ := List.exists_cons_of_ne_nil hfields
  have hf : (messageFields msg)[0]? = some f := by rw [hfirst]; rfl
  constructor
  · intro m
    exact run_of_fits m hfits
  · intro m m' r r' h h'
    have hr := recogniserOf_of_run m hfits hf h
    exact Option.some.inj (hr.symm.trans (recogniserOf_of_run m' hfits hf h'))
  · intro m i hi
    exact le_of_mem_charReads hi

def machineOf (msg : CString) : Machine msg where
  string := fun i => msg.bytes.getD i 0
  text := fun i h => by rw [List.getD_eq_getElem?_getD, List.getElem?_eq_getElem h]; rfl
  nul := by rw [List.getD_eq_getElem?_getD, List.getElem?_eq_none le_rfl]; rfl
  frame := frameOf 0
  retStr := Buf.fill 30 0
  last := none

theorem disjoint_get : Disjoint (CString.ofString "GET") ∧
    Recogniser.isGetInfoCmd.run (machineOf (CString.ofString "GET")) = .ok true :=
  ⟨disjoint_of_word (CString.ofString "GET") (by decide) (by decide) ⟨71, by decide, by decide⟩,
    by decide⟩

end SnifferStaSend.Recognisers
