import SnifferStaSend.SettingsRecord

/-!
# Loading a record with unreadable keys

`nvs_read_string_from_flash` leaves the buffer of its caller alone when a read fails, whereas
`nvs_read_int32_from_flash` returns 0, and `use_rom_settings` assigns what it gets.
-/

namespace SnifferStaSend.RomSettings
open CLib Nvs GetSettings SettingsRecord

def storedInt32 (fl : Flash) (param : String) : Option Int32 :=
  match fl ("CONFIG_FILE", param) with
  | some (.i32 v) => some v
  | _ => none

def storedString (n : ℕ) (fl : Flash) (param : String) : Option (CharArray n) :=
  match fl ("CONFIG_FILE", param) with
  | some (.str s) => if h : s.length < n then some ⟨s, h⟩ else none
  | _ => none

/-- A global that holds a number, with the key it is stored under. -/
structure Numeric where
  param : String
  get : Globals → Int32

def numeric : List Numeric :=
  [⟨"CHANNEL", Globals.gChannel⟩, ⟨"CK_PORT", Globals.gCkPort⟩,
    ⟨"RSSI_PORT", Globals.gRssiPort⟩, ⟨"REPORT_FREQ", Globals.gReportFrequency⟩]

/-- Every global has the stored value, or without one the value that it had before. -/
structure KeepsUnread (fl : Flash) (before after : Globals) : Prop where
  numbers : ∀ x ∈ numeric, x.get after = (storedInt32 fl x.param).getD (x.get before)
  destIp : after.gDestIp = (storedString 30 fl "DEST_IP").getD before.gDestIp

section Reads

variable (fl : Flash)

theorem nvsReadInt32FromFlash_eq_getD (param : String) :
    nvsReadInt32FromFlash fl "CONFIG_FILE" param = (storedInt32 fl param).getD 0 := by
  rw [nvsReadInt32FromFlash, storedInt32]
  cases fl ("CONFIG_FILE", param) with
  | none => rfl
  | some v => cases v <;> rfl

theorem nvsReadStringFromFlash_eq_getD {n : ℕ} (param : String) (strData : CharArray n) :
    nvsReadStringFromFlash fl "CONFIG_FILE" param strData =
      (storedString n fl param).getD strData := by
  rw [nvsReadStringFromFlash, storedString]
  cases fl ("CONFIG_FILE", param) with
  | none => rfl
  | some v =>
      cases v with
      | str s =>
          dsimp only
          split_ifs <;> rfl
      | _ => rfl

variable {fl}

theorem get_useRomSettings (h : checkRomSettings fl = true) (g : Globals) :
    ∀ x ∈ numeric, x.get (useRomSettings fl g) = (storedInt32 fl x.param).getD 0 := by
  rw [useRomSettings, if_pos h]
  simp [numeric, nvsReadInt32FromFlash_eq_getD]

theorem gDestIp_useRomSettings (h : checkRomSettings fl = true) (g : Globals) :
    (useRomSettings fl g).gDestIp = (storedString 30 fl "DEST_IP").getD g.gDestIp := by
  rw [useRomSettings, if_pos h]
  exact nvsReadStringFromFlash_eq_getD fl "DEST_IP" g.gDestIp

end Reads

/-- A failed read is harmless exactly where the global is 0 already. -/
theorem keepsUnread_iff (fl : Flash) (g : Globals)
    (hwrite : fl ("CONFIG_FILE", "WRITE") = some (.str (CString.ofString "Y"))) :
    KeepsUnread fl g (useRomSettings fl g) ↔
      ∀ x ∈ numeric, storedInt32 fl x.param = none → x.get g = 0 := by
  have hmarked := checkRomSettings_of_marker hwrite
  constructor
  · intro h x hx hnone
    have hloaded := get_useRomSettings hmarked g x hx
    rw [h.numbers x hx, hnone] at hloaded
    exact hloaded
  · intro h
    apply KeepsUnread.mk
    · intro x hx
      rw [get_useRomSettings hmarked g x hx]
      cases hstored : storedInt32 fl x.param with
      | none => exact (h x hx hstored).symm
      | some v => rfl
    · exact gDestIp_useRomSettings hmarked g

/-- A flash with the marker, and the channel as the only number. -/
def channelOnly : Flash := fun key =>
  if key = ("CONFIG_FILE", "WRITE") then some (.str (CString.ofString "Y"))
  else if key = ("CONFIG_FILE", "CHANNEL") then some (.i32 6)
  else none

theorem keepsUnread_channelOnly :
    KeepsUnread channelOnly ⟨1, Globals.compiledIn.gDestIp, 0, 0, 0⟩
      (useRomSettings channelOnly ⟨1, Globals.compiledIn.gDestIp, 0, 0, 0⟩) :=
  (keepsUnread_iff channelOnly ⟨1, Globals.compiledIn.gDestIp, 0, 0, 0⟩ (by decide)).mpr (by decide)

/-- The ports and the frequency come back as 0, the address is kept. -/
theorem not_keepsUnread :
    ¬ KeepsUnread channelOnly Globals.compiledIn (useRomSettings channelOnly Globals.compiledIn) ∧
      useRomSettings channelOnly Globals.compiledIn =
        ⟨6, Globals.compiledIn.gDestIp, 0, 0, 0⟩ := by
  have hloaded : useRomSettings channelOnly Globals.compiledIn =
      ⟨6, Globals.compiledIn.gDestIp, 0, 0, 0⟩ := by decide
  apply And.intro
  · intro h
    have hport := h.numbers ⟨"CK_PORT", Globals.gCkPort⟩ (by simp [numeric])
    rw [hloaded] at hport
    revert hport
    decide
  · exact hloaded

end SnifferStaSend.RomSettings
