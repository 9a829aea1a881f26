import Mathlib.Tactic.IntervalCases
import SnifferStaSend.ParserSafety

/-!
# The settings record in flash

A completed writer leaves a record that `use_rom_settings` loads back exactly. A writer cut
after `k` of its six writes leaves the first `k` new values in front of the remaining old
ones, and the marker `WRITE` is the first key written, so the loader takes that mixture.
-/

namespace SnifferStaSend.Nvs

def HoldsAll (fl : Flash) (ws : List Write) : Prop := ∀ w ∈ ws, fl w.key = some w.value

theorem holdsAll_commitAll (ws : List Write) (fl : Flash) (hd : (ws.map Write.key).Nodup) :
    HoldsAll (commitAll ws fl) ws := fun w hw => commitAll_of_mem ws fl hd w hw

/-- A run of writes over a flash that holds `old` under the same keys, cut after `k` of them. -/
theorem holdsAll_cut {old new : List Write} {fl : Flash} (hold : HoldsAll fl old)
    (hkeys : new.map Write.key = old.map Write.key) (hd : (new.map Write.key).Nodup) (k : ℕ) :
    HoldsAll (commitAll (new.take k) fl) (new.take k ++ old.drop k) := by
  have hdt : ((new.take k).map Write.key).Nodup := by
    rw [List.map_take]
    exact hd.sublist (List.take_sublist k _)
  intro w hw
  rcases List.mem_append.mp hw with hnew | hrest
  · exact commitAll_of_mem _ fl hdt w hnew
  · have hne : ∀ v ∈ new.take k, v.key ≠ w.key := by
      intro v hv he
      have hkv : v.key ∈ (new.map Write.key).take k := by
        rw [← List.map_take]
        exact List.mem_map_of_mem hv
      have hkw : w.key ∈ (new.map Write.key).drop k := by
        rw [hkeys, ← List.map_drop]
        exact List.mem_map_of_mem hrest
      exact List.disjoint_take_drop hd le_rfl hkv (he ▸ hkw)
    rw [commitAll_of_not_mem _ fl _ hne]
    exact hold w (List.mem_of_mem_drop hrest)

end SnifferStaSend.Nvs

namespace SnifferStaSend.SettingsRecord
open CLib Nvs GetSettings ParserSafety

def settingsKeys : List Key :=
  ["WRITE", "CHANNEL", "DEST_IP", "CK_PORT", "RSSI_PORT", "REPORT_FREQ"].map
    (Prod.mk "CONFIG_FILE")

theorem map_key_writeSettings (g : Globals) :
    (writeSettings g).map Write.key = settingsKeys := rfl

theorem nodup_settingsKeys : settingsKeys.Nodup := by decide

/-- The flash holds `g` as a complete record. -/
def HoldsRecord (fl : Flash) (g : Globals) : Prop := HoldsAll fl (writeSettings g)

theorem holdsRecord_writeSettings (g : Globals) (fl : Flash) :
    HoldsRecord (commitAll (writeSettings g) fl) g :=
  holdsAll_commitAll _ fl nodup_settingsKeys

theorem writeSettings_frame (g : Globals) (fl : Flash) {k : Key} (hk : k ∉ settingsKeys) :
    commitAll (writeSettings g) fl k = fl k := by
  apply commitAll_of_not_mem
  rintro w hw rfl
  exact hk (List.mem_map_of_mem (f := Write.key) hw)

section Load

variable {fl : Flash} {g : Globals}

theorem checkRomSettings_of_marker
    (h : fl ("CONFIG_FILE", "WRITE") = some (.str (CString.ofString "Y"))) :
    checkRomSettings fl = true := by
  rw [checkRomSettings, nvsReadStringFromFlash, h]
  decide

theorem HoldsRecord.checkRomSettings (h : HoldsRecord fl g) : checkRomSettings fl = true :=
  checkRomSettings_of_marker (h _ List.mem_cons_self)

/-- The loader restores a complete record whatever the globals were. -/
theorem HoldsRecord.useRomSettings (h : HoldsRecord fl g) (ram : Globals) :
    useRomSettings fl ram = g := by
  have hmem (w : Write) (hw : w ∈ writeSettings g) := h w hw
  simp only [writeSettings, List.forall_mem_cons, nvsWriteStringToFlash,
    nvsWriteInt32ToFlash] at hmem
  obtain ⟨_, hchannel, hdest, hck, hrssi, hfreq, _⟩ := hmem
  rw [GetSettings.useRomSettings, if_pos h.checkRomSettings, nvsReadInt32FromFlash_eq hchannel,
    nvsReadStringFromFlash_eq g.gDestIp _ hdest, nvsReadInt32FromFlash_eq hck,
    nvsReadInt32FromFlash_eq hrssi, nvsReadInt32FromFlash_eq hfreq]

theorem HoldsRecord.iterate_useRomSettings (h : HoldsRecord fl g) (ram : Globals) (n : ℕ)
    (hn : 1 ≤ n) : (GetSettings.useRomSettings fl)^[n] ram = g := by
  obtain ⟨m, rfl⟩ := Nat.exists_eq_add_of_le' hn
  rw [Function.iterate_succ_apply', h.useRomSettings]

end Load

section RoundTrip

variable {msg : CString} {frame : Frame}

theorem portInRange_iff {v : Int32} : portInRange v = true ↔ 1 ≤ v.toInt ∧ v.toInt ≤ 65534 := by
  have h0 : (0 : Int32).toInt = 0 := by decide
  have h1 : (65535 : Int32).toInt = 65535 := by decide
  simp only [portInRange, Bool.and_eq_true, decide_eq_true_eq, Int32.lt_iff_toInt_lt, h0, h1]
  omega

theorem verdict_iff :
    verdict msg frame = true ↔
      (1 ≤ (numericField msg frame 0).toInt ∧ (numericField msg frame 0).toInt ≤ 14) ∧
      portInRange (numericField msg frame 3) = true ∧
      portInRange (numericField msg frame 4) = true ∧
      portInRange (numericField msg frame 5) = true := by
  have h0 : (0 : Int32).toInt = 0 := by decide
  have h1 : (15 : Int32).toInt = 15 := by decide
  have hrange (x : ℤ) : 0 < x ∧ x < 15 ↔ 1 ≤ x ∧ x ≤ 14 := by omega
  simp only [verdict, rowsInRange, Bool.and_eq_true, decide_eq_true_eq, Int32.lt_iff_toInt_lt,
    h0, h1, hrange, and_assoc]

theorem verdict_of_checkDbSettings {last last' : Last}
    (h : checkDbSettings msg frame last = .ok (true, last')) :
    Fits msg ∧ verdict msg frame = true := by
  by_cases hfits : Fits msg
  · obtain ⟨l, hr⟩ := checkDbSettings_of_fits msg frame last hfits
    rw [hr] at h
    exact ⟨hfits, congrArg Prod.fst (Except.ok.inj h)⟩
  · obtain ⟨size, hr⟩ := checkDbSettings_of_not_fits msg frame last hfits
    rw [hr] at h
    cases h

theorem useDbSettings_fields (frame : Frame) (hfits : Fits msg)
    (hseven : 7 ≤ (messageFields msg).length) (last : Last) :
    ∃ a, useDbSettings msg frame last = .ok a ∧ a.writes = writeSettings a.globals ∧
      some a.globals.gChannel = (messageFields msg)[0]?.map CString.atoi ∧
      some a.globals.gDestIp.str = (messageFields msg)[2]? ∧
      some a.globals.gCkPort = (messageFields msg)[3]?.map CString.atoi ∧
      some a.globals.gRssiPort = (messageFields msg)[4]?.map CString.atoi ∧
      some a.globals.gReportFrequency = (messageFields msg)[6]?.map CString.atoi := by
  have hnum := some_numericField frame hseven
  have htwo : 2 < (messageFields msg).length := by omega
  have hd := List.getElem?_eq_getElem htwo
  obtain ⟨dest, last', hstr, hr⟩ := useDbSettings_of_destIpField msg frame last hfits
    (destIpField_eq_some frame hd)
  exact ⟨_, hr, rfl, hnum 0, by rw [hd, ← hstr]; rfl, hnum 3, hnum 4, hnum 6⟩

end RoundTrip

/-- Save, reboot and load: the accepted fields, or the compiled-in globals, come back, and no
other key changes. -/
theorem settings_round_trip :
    (∀ (msg : CString) (ckFrame frame : Frame) (ckLast ckLast' last : Last) (fl : Flash) (n : ℕ),
      msg.length ≤ 49 → 7 ≤ (messageFields msg).length →
      (∀ f ∈ messageFields msg, f.length ≤ 29) →
      checkDbSettings msg ckFrame ckLast = .ok (true, ckLast') → 1 ≤ n →
      ∃ a g, useDbSettings msg frame last = .ok a ∧
        (useRomSettings (commitAll a.writes fl))^[n] Globals.compiledIn = g ∧
        some g.gChannel = (messageFields msg)[0]?.map CString.atoi ∧
        some g.gDestIp.str = (messageFields msg)[2]? ∧
        some g.gCkPort = (messageFields msg)[3]?.map CString.atoi ∧
        some g.gRssiPort = (messageFields msg)[4]?.map CString.atoi ∧
        some g.gReportFrequency = (messageFields msg)[6]?.map CString.atoi ∧
        (1 ≤ g.gChannel.toInt ∧ g.gChannel.toInt ≤ 14) ∧
        (1 ≤ g.gCkPort.toInt ∧ g.gCkPort.toInt ≤ 65534) ∧
        (1 ≤ g.gRssiPort.toInt ∧ g.gRssiPort.toInt ≤ 65534) ∧
        ∀ k ∉ settingsKeys, commitAll a.writes fl k = fl k) ∧
    (∀ (g : Globals) (fl : Flash) (n : ℕ), 1 ≤ n →
      (useRomSettings (commitAll (useSdkSettings g) fl))^[n] Globals.compiledIn = g ∧
        ∀ k ∉ settingsKeys, commitAll (useSdkSettings g) fl k = fl k) := by
  constructor
  · intro msg ckFrame frame ckLast ckLast' last fl n _ hseven _ hck hn
    obtain ⟨hfits, hverdict⟩ := verdict_of_checkDbSettings hck
    obtain ⟨a, hr, hws, hchannel, hdest, hckPort, hrssi, hfreq⟩ :=
      useDbSettings_fields frame hfits hseven last
    have hload : (useRomSettings (commitAll a.writes fl))^[n] Globals.compiledIn = a.globals := by
      rw [hws]
      exact (holdsRecord_writeSettings a.globals fl).iterate_useRomSettings _ n hn
    have hsame (i : Fin 7) {v : Int32}
        (hv : some v = (messageFields msg)[(i : ℕ)]?.map CString.atoi) :
        numericField msg ckFrame i = v :=
      Option.some.inj ((some_numericField ckFrame hseven i).trans hv.symm)
    obtain ⟨hrange, hport3, hport4, _⟩ := verdict_iff.mp hverdict
    rw [hsame 0 hchannel] at hrange
    rw [hsame 3 hckPort] at hport3
    rw [hsame 4 hrssi] at hport4
    refine ⟨a, a.globals, hr, hload, hchannel, hdest, hckPort, hrssi, hfreq, hrange,
      portInRange_iff.mp hport3, portInRange_iff.mp hport4, ?_⟩
    intro k hk
    rw [hws]
    exact writeSettings_frame a.globals fl hk
  · intro g fl n hn
    exact ⟨(holdsRecord_writeSettings g fl).iterate_useRomSettings _ n hn,
      fun k hk => writeSettings_frame g fl hk⟩

theorem settings_round_trip_message :
    (∃ a g, useDbSettings (CString.ofString "6,x,10.0.0.7,9001,9002,9003,250") (frameOf 0) none =
        .ok a ∧
      useRomSettings (commitAll a.writes (fun _ => none)) Globals.compiledIn = g ∧
      some g.gDestIp.str = some (CString.ofString "10.0.0.7")) ∧
    useRomSettings (commitAll (useSdkSettings ⟨-1, Globals.compiledIn.gDestIp, 0, 70000, -5⟩)
      fun _ => none) Globals.compiledIn = ⟨-1, Globals.compiledIn.gDestIp, 0, 70000, -5⟩ := by
  refine ⟨?_, (settings_round_trip.2 _ _ 1 le_rfl).1⟩
  obtain ⟨last', hck⟩ := checkDbSettings_of_fits
    (CString.ofString "6,x,10.0.0.7,9001,9002,9003,250") (frameOf 0) none (by decide)
  obtain ⟨a, g, hr, hload, _, hdest, _⟩ := settings_round_trip.1
    (CString.ofString "6,x,10.0.0.7,9001,9002,9003,250") (frameOf 0) (frameOf 0) none last' none
    (fun _ => none) 1 (by decide) (by decide) (by decide) hck le_rfl
  exact ⟨a, g, hr, hload, hdest.trans (by decide)⟩

section Crash

/-- `ws` is what one of the two writers does to store `new`. -/
inductive WritesSettings (new : Globals) : List Write → Prop
  | sdk : WritesSettings new (useSdkSettings new)
  | db (msg : CString) (frame : Frame) (last : Last) (a : Applied) :
      useDbSettings msg frame last = .ok a → a.globals = new → WritesSettings new a.writes

theorem writes_of_useDbSettings {msg : CString} {frame : Frame} {last : Last} {a : Applied}
    (h : useDbSettings msg frame last = .ok a) : a.writes = writeSettings a.globals := by
  obtain ⟨_, dest, last', rfl⟩ := useDbSettings_eq_ok h
  rfl

theorem WritesSettings.eq {new : Globals} {ws : List Write} (h : WritesSettings new ws) :
    ws = writeSettings new := by
  cases h with
  | sdk => rfl
  | db msg frame last a hr hg =>
      rw [← hg]
      exact writes_of_useDbSettings hr

/-- The flash before the run: no settings at all, or the complete record `old`. -/
def StartsFrom (old : Option Globals) (fl : Flash) : Prop :=
  match old with
  | none => ∀ k ∈ settingsKeys, fl k = none
  | some r => HoldsRecord fl r

/-- After a reboot the loader finds all of its keys and makes them the globals `r`. -/
def LoadsExactly (fl : Flash) (r : Globals) : Prop :=
  (∀ k ∈ settingsKeys, (fl k).isSome) ∧ useRomSettings fl Globals.compiledIn = r

def CrashSafe (old : Option Globals) (new : Globals) (fl : Flash) : Prop :=
  checkRomSettings fl = false ∨ LoadsExactly fl new ∨ ∃ r, old = some r ∧ LoadsExactly fl r

/-- The five stored values in the order in which they are written after the marker. -/
def settingValues (g : Globals) : List Value :=
  [.i32 g.gChannel, .str g.gDestIp.str, .i32 g.gCkPort, .i32 g.gRssiPort, .i32 g.gReportFrequency]

/-- Over an old record: the values written before the cut, or those after it, do not change. -/
def CutHarmless (old : Option Globals) (new : Globals) (k : ℕ) : Prop :=
  match old with
  | none => k = 0 ∨ 6 ≤ k
  | some r =>
    (settingValues new).take (k - 1) = (settingValues r).take (k - 1) ∨
      (settingValues new).drop (k - 1) = (settingValues r).drop (k - 1)

/-- The record found after `k` of the six writes of `new` over `old`. -/
def mixed (old new : Globals) (k : ℕ) : Globals where
  gChannel := if 2 ≤ k then new.gChannel else old.gChannel
  gDestIp := if 3 ≤ k then new.gDestIp else old.gDestIp
  gCkPort := if 4 ≤ k then new.gCkPort else old.gCkPort
  gRssiPort := if 5 ≤ k then new.gRssiPort else old.gRssiPort
  gReportFrequency := if 6 ≤ k then new.gReportFrequency else old.gReportFrequency

theorem mixed_of_le {old new : Globals} {k : ℕ} (hk : 6 ≤ k) : mixed old new k = new := by
  simp [mixed, show 2 ≤ k by omega, show 3 ≤ k by omega, show 4 ≤ k by omega,
    show 5 ≤ k by omega, hk]

theorem writeSettings_mixed (old new : Globals) (k : ℕ) :
    writeSettings (mixed old new k) =
      (writeSettings new).take k ++ (writeSettings old).drop k := by
  by_cases hk : 6 ≤ k
  · rw [mixed_of_le hk, List.take_of_length_le (by exact hk), List.drop_of_length_le (by exact hk),
      List.append_nil]
  · have hlt : k < 6 := by omega
    interval_cases k <;> rfl

theorem holdsRecord_cut {old : Globals} {fl : Flash} (h : HoldsRecord fl old) (new : Globals)
    (k : ℕ) : HoldsRecord (commitAll ((writeSettings new).take k) fl) (mixed old new k) := by
  have hkeys : (writeSettings new).map Write.key = (writeSettings old).map Write.key := rfl
  rw [HoldsRecord, writeSettings_mixed]
  exact holdsAll_cut h hkeys nodup_settingsKeys k

theorem mixed_eq_old_iff (old new : Globals) (k : ℕ) :
    mixed old new k = old ↔
      (settingValues new).take (k - 1) = (settingValues old).take (k - 1) := by
  obtain ⟨c, d, p, q, f⟩ := old
  obtain ⟨c', d', p', q', f'⟩ := new
  by_cases hk : 6 ≤ k
  · rw [mixed_of_le hk, List.take_of_length_le (by change 5 ≤ k - 1; omega),
      List.take_of_length_le (by change 5 ≤ k - 1; omega)]
    simp [settingValues, CharArray.ext_iff]
  · have hlt : k < 6 := by omega
    interval_cases k <;> simp [mixed, settingValues, CharArray.ext_iff]

theorem mixed_eq_new_iff (old new : Globals) (k : ℕ) :
    mixed old new k = new ↔
      (settingValues new).drop (k - 1) = (settingValues old).drop (k - 1) := by
  obtain ⟨c, d, p, q, f⟩ := old
  obtain ⟨c', d', p', q', f'⟩ := new
  by_cases hk : 6 ≤ k
  · rw [mixed_of_le hk, List.drop_of_length_le (by change 5 ≤ k - 1; omega),
      List.drop_of_length_le (by change 5 ≤ k - 1; omega)]
    simp
  · have hlt : k < 6 := by omega
    interval_cases k <;> simp [mixed, settingValues, CharArray.ext_iff, eq_comm]

theorem HoldsRecord.loadsExactly_iff {fl : Flash} {g r : Globals} (h : HoldsRecord fl g) :
    LoadsExactly fl r ↔ g = r := by
  have hkeys : ∀ k ∈ settingsKeys, (fl k).isSome := by
    intro k hk
    rw [← map_key_writeSettings g] at hk
    obtain ⟨w, hw, rfl⟩ := List.mem_map.mp hk
    rw [h w hw]
    rfl
  rw [LoadsExactly, h.useRomSettings]
  exact and_iff_right hkeys

/-- Over an old record the loader runs, on the mixture. -/
theorem crashSafe_over_record {old : Globals} {fl : Flash} (h : HoldsRecord fl old) (new : Globals)
    (k : ℕ) :
    CrashSafe (some old) new (commitAll ((writeSettings new).take k) fl) ↔
      CutHarmless (some old) new k := by
  have hmix := holdsRecord_cut h new k
  rw [CrashSafe, hmix.checkRomSettings, hmix.loadsExactly_iff, CutHarmless,
    ← mixed_eq_old_iff, ← mixed_eq_new_iff]
  constructor
  · rintro (hfalse | hnew | ⟨r, hr, hold⟩)
    · cases hfalse
    · exact Or.inr hnew
    · cases hr
      exact Or.inl (hmix.loadsExactly_iff.mp hold)
  · rintro (hold | hnew)
    · exact Or.inr (Or.inr ⟨old, rfl, hmix.loadsExactly_iff.mpr hold⟩)
    · exact Or.inr (Or.inl hnew)

/-- On an empty flash the marker is the first key to appear and the frequency the last. -/
theorem crashSafe_from_empty {fl : Flash} (h : ∀ k ∈ settingsKeys, fl k = none) (new : Globals)
    (k : ℕ) :
    CrashSafe none new (commitAll ((writeSettings new).take k) fl) ↔ CutHarmless none new k := by
  rw [CutHarmless]
  by_cases hfull : 6 ≤ k
  · rw [List.take_of_length_le (by exact hfull)]
    refine iff_of_true (Or.inr (Or.inl ?_)) (Or.inr hfull)
    exact (holdsRecord_writeSettings new fl).loadsExactly_iff.mpr rfl
  · obtain rfl | ⟨j, rfl⟩ : k = 0 ∨ ∃ j, k = j + 1 := by
      cases k with
      | zero => exact Or.inl rfl
      | succ j => exact Or.inr ⟨j, rfl⟩
    · refine iff_of_true (Or.inl ?_) (Or.inl rfl)
      rw [List.take_zero, commitAll_nil, checkRomSettings, nvsReadStringFromFlash,
        h _ (by decide)]
      decide
    · refine iff_of_false ?_ (by omega)
      have hsub : ((writeSettings new).take (j + 1)).map Write.key = settingsKeys.take (j + 1) := by
        rw [List.map_take, map_key_writeSettings]
      have hmarker : commitAll ((writeSettings new).take (j + 1)) fl ("CONFIG_FILE", "WRITE") =
          some (.str (CString.ofString "Y")) :=
        commitAll_of_mem _ fl (hsub ▸ nodup_settingsKeys.sublist (List.take_sublist _ _)) _
          List.mem_cons_self
      have hfreq : commitAll ((writeSettings new).take (j + 1)) fl
          ("CONFIG_FILE", "REPORT_FREQ") = none := by
        rw [commitAll_of_not_mem, h _ (by decide)]
        intro w hw he
        have hmem := List.mem_map_of_mem (f := Write.key) hw
        rw [hsub, he] at hmem
        have hj : j + 1 < 6 := by omega
        interval_cases j + 1 <;> revert hmem <;> decide
      rintro (hfalse | hnew | ⟨r, hr, _⟩)
      · rw [checkRomSettings_of_marker hmarker] at hfalse
        cases hfalse
      · have hsome := hnew.1 ("CONFIG_FILE", "REPORT_FREQ") (by decide)
        rw [hfreq] at hsome
        cases hsome
      · cases hr

end Crash

/-- A writer cut after `k` writes is safe exactly when the cut is harmless. -/
theorem crashSafe_iff (old : Option Globals) (new : Globals) (ws : List Write) (fl : Flash) (k : ℕ)
    (hws : WritesSettings new ws) (hstart : StartsFrom old fl) :
    CrashSafe old new (commitAll (ws.take k) fl) ↔ CutHarmless old new k := by
  rw [hws.eq]
  cases old with
  | none => exact crashSafe_from_empty hstart new k
  | some r => exact crashSafe_over_record hstart new k

def recorded : Flash := commitAll (useSdkSettings Globals.compiledIn) fun _ => none

def otherPorts : Globals :=
  { Globals.compiledIn with
    gCkPort := 9001
    gRssiPort := 9002 }

/-- A cut half way over an old record does no harm as long as no new value has been written, and
does when the channel has changed. -/
theorem crashSafe_iff_midRun :
    CrashSafe (some Globals.compiledIn) otherPorts
        (commitAll ((useSdkSettings otherPorts).take 3) recorded) ∧
      ¬ CrashSafe (some Globals.compiledIn) { otherPorts with gChannel := 6 }
        (commitAll ((useSdkSettings { otherPorts with gChannel := 6 }).take 3) recorded) := by
  have hold : StartsFrom (some Globals.compiledIn) recorded := holdsRecord_writeSettings _ _
  constructor
  · rw [crashSafe_iff _ _ _ _ 3 .sdk hold, CutHarmless]
    decide
  · rw [crashSafe_iff _ _ _ _ 3 .sdk hold, CutHarmless]
    decide

/-- A first run cut after the marker is loaded as channel 0, and a second one cut half way as a
new channel with old ports. -/
theorem not_crashSafe :
    ¬ CrashSafe none Globals.compiledIn
        (commitAll ((useSdkSettings Globals.compiledIn).take 1) fun _ => none) ∧
      ¬ CrashSafe (some Globals.compiledIn) ⟨6, Globals.compiledIn.gDestIp, 9001, 9002, 250⟩
        (commitAll
          ((useSdkSettings ⟨6, Globals.compiledIn.gDestIp, 9001, 9002, 250⟩).take 3)
          (commitAll (useSdkSettings Globals.compiledIn) fun _ => none)) := by
  constructor
  · rw [useSdkSettings, crashSafe_from_empty (fun _ _ => rfl), CutHarmless]
    decide
  · rw [useSdkSettings, useSdkSettings, crashSafe_over_record (holdsRecord_writeSettings _ _),
      CutHarmless]
    decide

end SnifferStaSend.SettingsRecord
