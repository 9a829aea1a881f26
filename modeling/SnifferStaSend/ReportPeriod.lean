import SnifferStaSend.SettingsRecord
import SnifferStaSend.Sniffer

/-!
# The report period of applied settings

`ckSniffAlive` multiplies the frequency field by 1000 in `int`. No reader of a message looks at
the range of that field, which decides whether the product is the period that was meant.
-/

namespace SnifferStaSend.ReportPeriod
open CLib GetSettings ParserSafety Sniffer

/-- The timer gets 1000 times the number in the message's frequency field, a positive one. -/
def PeriodExact (msg : CString) (g : Globals) : Prop :=
  ∃ f period, (messageFields msg)[(dbIndexFreq : ℕ)]? = some f ∧
    ckSniffAlive g.gReportFrequency = some period ∧ (period.toNat : ℤ) = 1000 * f.integer ∧
    0 < period.toNat ∧ 0 ≤ g.gReportFrequency.toInt

section Product

variable {freq : Int32} {period : UInt64}

theorem ckSniffAlive_eq_some (h : ckSniffAlive freq = some period) :
    (period.toNat : ℤ) = freq.toInt * 1000 % 2 ^ 64 ∧
      -2 ^ 31 ≤ freq.toInt * 1000 ∧ freq.toInt * 1000 < 2 ^ 31 := by
  obtain ⟨product, hproduct, rfl⟩ := Option.map_eq_some_iff.mp h
  have hexact := mulInt_eq_some.mp hproduct
  have hthousand : (1000 : Int32).toInt = 1000 := by decide
  rw [hthousand] at hexact
  rw [toNat_toUint64, ← hexact]
  exact ⟨rfl, product.le_toInt, product.toInt_lt⟩

theorem ckSniffAlive_of_range (hpos : 0 ≤ freq.toInt) (hmax : freq.toInt ≤ 2147483) :
    ∃ period, ckSniffAlive freq = some period ∧ (period.toNat : ℤ) = freq.toInt * 1000 := by
  have hthousand : (1000 : Int32).toInt = 1000 := by decide
  have hrange : -2 ^ 31 ≤ freq.toInt * (1000 : Int32).toInt ∧
      freq.toInt * (1000 : Int32).toInt < 2 ^ 31 := by
    rw [hthousand]
    omega
  obtain ⟨product, hproduct⟩ := exists_toInt32? hrange.1 hrange.2
  have hsome : ckSniffAlive freq = some (toUint64 product) := by
    rw [ckSniffAlive, mulInt, hproduct]
    rfl
  have hexact := (ckSniffAlive_eq_some hsome).1
  exact ⟨_, hsome, by omega⟩

end Product

variable {msg : CString} {frame : Frame} {last : Last} {a : Applied}

theorem toInt_gReportFrequency (huse : useDbSettings msg frame last = .ok a) {f : CString}
    (hfield : (messageFields msg)[(dbIndexFreq : ℕ)]? = some f) :
    a.globals.gReportFrequency.toInt = saturate f.integer := by
  obtain ⟨_, dest, last', rfl⟩ := useDbSettings_eq_ok huse
  rw [← CString.toInt_atoi]
  exact congrArg Int32.toInt (numericField_eq_atoi frame hfield)

/-- The period is exact for the frequencies from 1 to 2147483 ms, and for no others. -/
theorem periodExact_iff (huse : useDbSettings msg frame last = .ok a) :
    PeriodExact msg a.globals ↔
      ∃ f, (messageFields msg)[(dbIndexFreq : ℕ)]? = some f ∧ 1 ≤ f.integer ∧
        f.integer ≤ 2147483 := by
  constructor
  · rintro ⟨f, period, hfield, hperiod, hexact, hpos, hnonneg⟩
    obtain ⟨-, -, hlt⟩ := ckSniffAlive_eq_some hperiod
    have hmax : a.globals.gReportFrequency.toInt ≤ 2147483 := by omega
    have hsame : f.integer = a.globals.gReportFrequency.toInt :=
      eq_of_saturate (toInt_gReportFrequency huse hfield).symm (by omega) (by omega)
    have hone : 0 < f.integer := by
      have hpos' : (0 : ℤ) < period.toNat := by exact_mod_cast hpos
      rw [hexact] at hpos'
      omega
    exact ⟨f, hfield, hone, hsame ▸ hmax⟩
  · rintro ⟨f, hfield, hone, hmax⟩
    have hfreq : a.globals.gReportFrequency.toInt = f.integer :=
      (toInt_gReportFrequency huse hfield).trans (saturate_of_range (by omega) (by omega))
    have hnonneg : 0 ≤ a.globals.gReportFrequency.toInt := by omega
    obtain ⟨period, hperiod, hexact⟩ := ckSniffAlive_of_range hnonneg (hfreq ▸ hmax)
    rw [hfreq, mul_comm] at hexact
    have hpos : (0 : ℤ) < period.toNat := by omega
    exact ⟨f, period, hfield, hperiod, hexact, by exact_mod_cast hpos, hnonneg⟩

theorem periodExact_quarter_second : ∃ a,
    useDbSettings (CString.ofString "6,x,10.0.0.7,9001,9002,9003,250") (frameOf 0) none = .ok a ∧
      PeriodExact (CString.ofString "6,x,10.0.0.7,9001,9002,9003,250") a.globals := by
  have hfits : Fits (CString.ofString "6,x,10.0.0.7,9001,9002,9003,250") := by decide
  obtain ⟨a, huse, -⟩ := SettingsRecord.useDbSettings_fields (frameOf 0) hfits (by decide) none
  exact ⟨a, huse, (periodExact_iff huse).mpr ⟨CString.ofString "250", by decide, by decide,
    by decide⟩⟩

def AcceptedWith (msg : CString) (freq : Int32) (a : Applied) : Prop :=
  (∃ last', checkDbSettings msg (frameOf 0) none = .ok (true, last')) ∧
    useDbSettings msg (frameOf 0) none = .ok a ∧ a.globals.gReportFrequency = freq

theorem exists_acceptedWith (freq : Int32) (hfits : Fits msg)
    (hseven : 7 ≤ (messageFields msg).length) (hverdict : verdict msg (frameOf 0) = true)
    (hfreq : (messageFields msg)[6]?.map CString.atoi = some freq) :
    ∃ a, AcceptedWith msg freq a := by
  obtain ⟨last', hcheck⟩ := checkDbSettings_of_fits msg (frameOf 0) none hfits
  rw [hverdict] at hcheck
  obtain ⟨a, huse, -, -, -, -, -, hsix⟩ :=
    SettingsRecord.useDbSettings_fields (frameOf 0) hfits hseven none
  exact ⟨a, ⟨last', hcheck⟩, huse, Option.some.inj (hsix.trans hfreq)⟩

/-- A negative frequency becomes a period of half a million years, and 3000000 ms overflow. -/
theorem not_periodExact :
    (∃ a, AcceptedWith (CString.ofString "6,x,10.0.0.7,9001,9002,9003,-5") (-5) a ∧
      (ckSniffAlive a.globals.gReportFrequency).map UInt64.toNat = some (2 ^ 64 - 5000) ∧
      ¬ PeriodExact (CString.ofString "6,x,10.0.0.7,9001,9002,9003,-5") a.globals) ∧
    (∃ a, AcceptedWith (CString.ofString "6,x,10.0.0.7,9001,9002,9003,3000000") 3000000 a ∧
      ckSniffAlive a.globals.gReportFrequency = none ∧
      ¬ PeriodExact (CString.ofString "6,x,10.0.0.7,9001,9002,9003,3000000") a.globals) := by
  constructor
  · have hfits : Fits (CString.ofString "6,x,10.0.0.7,9001,9002,9003,-5") := by decide
    obtain ⟨a, haccepted⟩ := exists_acceptedWith (-5) hfits (by decide) (by decide) (by decide)
    have hfreq := haccepted.2.2
    refine ⟨a, haccepted, by rw [hfreq]; decide, ?_⟩
    rintro ⟨_, _, _, _, _, _, hnonneg⟩
    rw [hfreq] at hnonneg
    revert hnonneg
    decide
  · have hfits : Fits (CString.ofString "6,x,10.0.0.7,9001,9002,9003,3000000") := by decide
    obtain ⟨a, haccepted⟩ := exists_acceptedWith 3000000 hfits (by decide) (by decide) (by decide)
    have hnone : ckSniffAlive a.globals.gReportFrequency = none := by
      rw [haccepted.2.2]
      decide
    refine ⟨a, haccepted, hnone, ?_⟩
    rintro ⟨_, _, _, hsome, _⟩
    rw [hnone] at hsome
    cases hsome

end SnifferStaSend.ReportPeriod
