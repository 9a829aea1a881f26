import SnifferStaSend.EventTask
import SnifferStaSend.OtaChunking

/-!
# Updates over the life of a device

The logged calls of the OTA task, taken as what they do to the application partitions and to the
boot selection. The power may fail in the middle of any call, and what this call was writing may
then be anything. Whatever the attempts come to, the selected partition holds the image that it
held before, or one that a single attempt has received and written as a whole.

The OTA library of ESP-IDF is not part of the repository. What its calls do to the flash is
assumed here, in `Device.call` for a call that returns and in `Device.torn` for one in the
middle of which the power fails; every result of this module rests on these two definitions.
-/

namespace SnifferStaSend.OtaDevice
open CLib Ota OtaBootSwitch OtaRun OtaVersionGate OtaChunking

/-- What the application partitions hold, which of them an update handle writes to, which one
runs, and which one the next boot takes. -/
structure Device where
  contents : Partition → List UInt8
  handles : Handle → Option Partition
  running : Partition
  boot : Partition

namespace Device

def store (d : Device) (p : Partition) (bytes : List UInt8) : Device :=
  { d with contents := Function.update d.contents p bytes }

def bind (d : Device) (handle : Handle) (target : Option Partition) : Device :=
  { d with handles := Function.update d.handles handle target }

/-- The partition behind a handle, if any, is left with anything. -/
def spoil (d : Device) (handle : Handle) (junk : List UInt8) : Device :=
  match d.handles handle with
  | some p => d.store p junk
  | none => d

/-- A call of the task that returns. A failing one may leave any `junk` where it was writing.
`esp_ota_write` and `esp_ota_end` succeed only on an open handle, and the latter only if the
image is `valid`. -/
def call (valid : List UInt8 → Bool) (d : Device) : List UInt8 × Call → Option Device
  | (_, .otaBegin p (some handle)) => some ((d.store p []).bind handle (some p))
  | (junk, .otaBegin p none) => some (d.store p junk)
  | (_, .otaWrite handle data true) =>
    (d.handles handle).map (fun p => d.store p (d.contents p ++ data))
  | (junk, .otaWrite handle _ false) => some (d.spoil handle junk)
  | (_, .otaEnd handle true) => (d.handles handle).bind (fun p =>
    if valid (d.contents p) then some (d.bind handle none) else none)
  | (_, .otaEnd handle false) => some (d.bind handle none)
  | (_, .setBootPartition p true) => some { d with boot := p }
  | _ => some d

/-- A call in the middle of which the power fails; `switches` tells whether the selection has
been changed by then. -/
def torn (d : Device) (junk : List UInt8) (switches : Bool) : Option Call → Device
  | some (.otaBegin p _) => d.store p junk
  | some (.otaWrite handle _ _) => d.spoil handle junk
  | some (.setBootPartition p _) => if switches then { d with boot := p } else d
  | _ => d

def reboot (d : Device) : Device := { d with handles := fun _ => none, running := d.boot }

end Device

structure Attempt where
  L : Layout
  env : Env L
  pvParameter : Option CString
  reads : List ReadResult
  /-- The URL fits into `ipAddress`. -/
  fits : ∀ url, pvParameter = some url → url.length < 100
  endNeedsBegin : EndNeedsBegin env

def Attempt.stopped (a : Attempt) : Stopped := otaExampleTask a.env a.pvParameter a.reads

def Attempt.log (a : Attempt) : List Call := a.stopped.task.log

/-- All bytes that came in, in order. -/
def Attempt.image (a : Attempt) : List UInt8 := (received a.log).flatten

/-- How it ends for the device, with the calls that have returned, each with what it leaves if
it fails: by a reboot at any point, be it cut there or restarted, or with the task deleted. -/
inductive End
  | reboot (returned : List (List UInt8 × Call)) (junk : List UInt8) (switches : Bool)
  | deleted (returned : List (List UInt8 × Call))

def Attempt.run (valid : List UInt8 → Bool) (a : Attempt) (d : Device) : End → Option Device
  | .reboot returned junk switches =>
    if returned.map Prod.snd <+: a.log then
      (CLib.run (Device.call valid) d returned).map
        (fun d => (d.torn junk switches a.log[returned.length]?).reboot)
    else none
  | .deleted returned =>
    if returned.map Prod.snd = a.log ∧ a.stopped.outcome = .deleted then
      CLib.run (Device.call valid) d returned
    else none

section Phases

/-- How far an update has come, with the bytes written. -/
inductive Phase
  | idle
  | writing (handle : Handle) (image : List UInt8)
  | failed
  | complete (image : List UInt8)
  | switched (image : List UInt8)
  deriving DecidableEq

/-- The order in which the task makes its calls to update the partition `p`. -/
def Phase.step (p : Partition) : Phase → Call → Option Phase
  | .idle, .otaBegin q (some handle) => if q = p then some (.writing handle []) else none
  | .idle, .otaBegin q none => if q = p then some .failed else none
  | .idle, .otaEnd _ false => some .failed
  | .writing handle image, .otaWrite h data ok =>
    if h = handle then some (if ok then .writing handle (image ++ data) else .failed) else none
  | .writing handle image, .otaEnd h ok =>
    if h = handle then some (if ok then .complete image else .failed) else none
  | .complete image, .setBootPartition q ok =>
    if q = p then some (if ok then .switched image else .complete image) else none
  | ph, c => if isOta c then none else some ph

def Phase.image? : Phase → Option (List UInt8)
  | .complete image | .switched image => some image
  | _ => none

variable {p : Partition} {ph ph' : Phase} {c : Call}

theorem step_of_not_isOta (ph : Phase) (h : isOta c = false) : ph.step p c = some ph := by
  cases c <;> simp [isOta] at h <;> cases ph <;> simp [Phase.step, isOta]

inductive Advances (p : Partition) : Phase → Call → Phase → Prop
  | began (handle : Handle) : Advances p .idle (.otaBegin p (some handle)) (.writing handle [])
  | notBegun : Advances p .idle (.otaBegin p none) .failed
  | nothingToEnd (handle : Handle) : Advances p .idle (.otaEnd handle false) .failed
  | wrote (handle : Handle) (image data : List UInt8) :
    Advances p (.writing handle image) (.otaWrite handle data true)
      (.writing handle (image ++ data))
  | notWritten (handle : Handle) (image data : List UInt8) :
    Advances p (.writing handle image) (.otaWrite handle data false) .failed
  | ended (handle : Handle) (image : List UInt8) :
    Advances p (.writing handle image) (.otaEnd handle true) (.complete image)
  | notEnded (handle : Handle) (image : List UInt8) :
    Advances p (.writing handle image) (.otaEnd handle false) .failed
  | switched (image : List UInt8) :
    Advances p (.complete image) (.setBootPartition p true) (.switched image)
  | notSwitched (image : List UInt8) :
    Advances p (.complete image) (.setBootPartition p false) (.complete image)

theorem advances_of_step (hc : isOta c = true) (h : ph.step p c = some ph') :
    Advances p ph c ph' := by
  cases c with
  | otaBegin q result =>
      cases ph with
      | idle =>
          cases result with
          | none =>
              obtain ⟨rfl, heq⟩ := Option.ite_none_right_eq_some.mp h
              exact Option.some.inj heq ▸ .notBegun
          | some handle =>
              obtain ⟨rfl, heq⟩ := Option.ite_none_right_eq_some.mp h
              exact Option.some.inj heq ▸ .began handle
      | _ => cases h
  | otaWrite handle data ok =>
      cases ph with
      | writing handle' image =>
          obtain ⟨rfl, heq⟩ := Option.ite_none_right_eq_some.mp h
          cases ok with
          | true => exact Option.some.inj heq ▸ .wrote handle image data
          | false => exact Option.some.inj heq ▸ .notWritten handle image data
      | _ => cases h
  | otaEnd handle ok =>
      cases ph with
      | idle =>
          cases ok with
          | true => cases h
          | false => exact Option.some.inj h ▸ .nothingToEnd handle
      | writing handle' image =>
          obtain ⟨rfl, heq⟩ := Option.ite_none_right_eq_some.mp h
          cases ok with
          | true => exact Option.some.inj heq ▸ .ended handle image
          | false => exact Option.some.inj heq ▸ .notEnded handle image
      | _ => cases h
  | setBootPartition q ok =>
      cases ph with
      | complete image =>
          obtain ⟨rfl, heq⟩ := Option.ite_none_right_eq_some.mp h
          cases ok with
          | true => exact Option.some.inj heq ▸ .switched image
          | false => exact Option.some.inj heq ▸ .notSwitched image
      | _ => cases h
  | _ => cases hc

end Phases

section Device

variable (valid : List UInt8 → Bool) (p : Partition) (old : Device)

/-- What the device has got from an update in the given phase. -/
def Phase.Holds (d : Device) : Phase → Prop
  | .idle | .failed => d.boot = old.boot
  | .writing handle image =>
    d.handles handle = some p ∧ d.contents p = image ∧ d.boot = old.boot
  | .complete image => d.contents p = image ∧ valid image = true ∧ d.boot = old.boot
  | .switched image => d.contents p = image ∧ valid image = true ∧ d.boot = p

/-- In the middle of an update of `p`; no other partition has been written. -/
structure During (ph : Phase) (d : Device) : Prop where
  running : d.running = old.running
  others : ∀ q, q ≠ p → d.contents q = old.contents q
  holds : ph.Holds valid p old d

variable {valid p old} {ph ph' : Phase} {d d' : Device} {c : Call} {junk : List UInt8}

theorem During.advance (h : During valid p old ph d) (hcall : d.call valid (junk, c) = some d')
    (hstep : Advances p ph c ph') : During valid p old ph' d' := by
  obtain ⟨hrunning, hothers, hholds⟩ := h
  have hstored (bytes : List UInt8) (q : Partition) (hq : q ≠ p) :
      (d.store p bytes).contents q = old.contents q :=
    (Function.update_of_ne hq _ _).trans (hothers q hq)
  cases hstep with
  | began handle =>
      obtain rfl := Option.some.inj hcall
      exact ⟨hrunning, hstored [], Function.update_self _ _ _, Function.update_self _ _ _, hholds⟩
  | notBegun =>
      obtain rfl := Option.some.inj hcall
      exact ⟨hrunning, hstored junk, hholds⟩
  | nothingToEnd handle =>
      obtain rfl := Option.some.inj hcall
      exact ⟨hrunning, hothers, hholds⟩
  | wrote handle image data =>
      obtain ⟨hhandle, rfl, hboot⟩ := hholds
      rw [Device.call, hhandle] at hcall
      obtain rfl := Option.some.inj hcall
      exact ⟨hrunning, hstored _, hhandle, Function.update_self _ _ _, hboot⟩
  | notWritten handle image data =>
      obtain ⟨hhandle, -, hboot⟩ := hholds
      rw [Device.call, Device.spoil, hhandle] at hcall
      obtain rfl := Option.some.inj hcall
      exact ⟨hrunning, hstored junk, hboot⟩
  | ended handle image =>
      obtain ⟨hhandle, rfl, hboot⟩ := hholds
      rw [Device.call, hhandle] at hcall
      obtain ⟨hvalid, heq⟩ := Option.ite_none_right_eq_some.mp hcall
      obtain rfl := Option.some.inj heq
      exact ⟨hrunning, hothers, rfl, hvalid, hboot⟩
  | notEnded handle image =>
      obtain rfl := Option.some.inj hcall
      exact ⟨hrunning, hothers, hholds.2.2⟩
  | switched image =>
      obtain rfl := Option.some.inj hcall
      exact ⟨hrunning, hothers, hholds.1, hholds.2.1, rfl⟩
  | notSwitched image =>
      obtain rfl := Option.some.inj hcall
      exact ⟨hrunning, hothers, hholds⟩

theorem During.step (h : During valid p old ph d) (hcall : d.call valid (junk, c) = some d')
    (hstep : ph.step p c = some ph') : During valid p old ph' d' := by
  cases hc : isOta c with
  | false =>
      have hsame : d.call valid (junk, c) = some d := by
        cases c <;> simp [isOta] at hc <;> rfl
      obtain rfl := Option.some.inj (hsame.symm.trans hcall)
      obtain rfl := Option.some.inj ((step_of_not_isOta ph hc).symm.trans hstep)
      exact h
  | true => exact h.advance hcall (advances_of_step hc hstep)

theorem During.run (h : During valid p old ph d) {returned : List (List UInt8 × Call)}
    (hcalls : CLib.run (Device.call valid) d returned = some d')
    (hphases : CLib.run (Phase.step p) ph (returned.map Prod.snd) = some ph') :
    During valid p old ph' d' := by
  induction returned generalizing d ph with
  | nil =>
      obtain rfl := Option.some.inj hcalls
      obtain rfl := Option.some.inj hphases
      exact h
  | cons x returned ih =>
      rw [run_cons] at hcalls
      rw [List.map_cons, run_cons] at hphases
      obtain ⟨d₁, hcall, hrest⟩ := Option.bind_eq_some_iff.mp hcalls
      obtain ⟨ph₁, hstep, hphases⟩ := Option.bind_eq_some_iff.mp hphases
      exact ih (h.step hcall hstep) hrest hphases

/-- The selected partition is the same as before, and so is the image in it. -/
def Kept (old d : Device) : Prop := d.boot = old.boot ∧ d.contents d.boot = old.contents old.boot

def Taken (valid : List UInt8 → Bool) (p : Partition) (image : List UInt8) (d : Device) : Prop :=
  d.boot = p ∧ d.contents d.boot = image ∧ valid image = true

theorem kept_of_boot (hne : p ≠ old.boot) (hothers : ∀ q, q ≠ p → d.contents q = old.contents q)
    (hboot : d.boot = old.boot) : Kept old d := by
  refine ⟨hboot, ?_⟩
  rw [hboot]
  exact hothers old.boot hne.symm

theorem During.kept_or_taken (h : During valid p old ph d) (hne : p ≠ old.boot) :
    Kept old d ∨ ∃ image, ph = .switched image ∧ Taken valid p image d := by
  have hkept := kept_of_boot hne h.others
  have hholds := h.holds
  cases ph with
  | idle => exact Or.inl (hkept hholds)
  | writing handle image => exact Or.inl (hkept hholds.2.2)
  | failed => exact Or.inl (hkept hholds)
  | complete image => exact Or.inl (hkept hholds.2.2)
  | switched image =>
      obtain ⟨himage, hvalid, hboot⟩ := hholds
      exact Or.inr ⟨image, rfl, hboot, by rw [hboot, himage], hvalid⟩

theorem During.torn (h : During valid p old ph d) (hne : p ≠ old.boot) (switches : Bool)
    {next : Option Call} (hnext : ∀ c ∈ next, (ph.step p c).isSome) :
    Kept old (d.torn junk switches next) ∨
      ∃ image, ph.image? = some image ∧ Taken valid p image (d.torn junk switches next) := by
  have hquiet : Kept old d ∨ ∃ image, ph.image? = some image ∧ Taken valid p image d := by
    refine (h.kept_or_taken hne).imp_right ?_
    rintro ⟨image, rfl, htaken⟩
    exact ⟨image, rfl, htaken⟩
  have hstored (hboot : d.boot = old.boot) : Kept old (d.store p junk) :=
    kept_of_boot hne (fun q hq => (Function.update_of_ne hq _ _).trans (h.others q hq)) hboot
  cases next with
  | none => exact hquiet
  | some c =>
      obtain ⟨ph', hstep⟩ := Option.isSome_iff_exists.mp (hnext c rfl)
      have hholds := h.holds
      cases c with
      | otaBegin q result =>
          cases advances_of_step rfl hstep with
          | began handle => exact Or.inl (hstored hholds)
          | notBegun => exact Or.inl (hstored hholds)
      | otaWrite handle data ok =>
          have hspoilt : ∃ image, ph = .writing handle image := by
            cases advances_of_step rfl hstep with
            | wrote handle image data => exact ⟨image, rfl⟩
            | notWritten handle image data => exact ⟨image, rfl⟩
          obtain ⟨image, rfl⟩ := hspoilt
          rw [Device.torn, Device.spoil, hholds.1]
          exact Or.inl (hstored hholds.2.2)
      | setBootPartition q ok =>
          have hcomplete : q = p ∧ ∃ image, ph = .complete image := by
            cases advances_of_step rfl hstep with
            | switched image => exact ⟨rfl, image, rfl⟩
            | notSwitched image => exact ⟨rfl, image, rfl⟩
          obtain ⟨rfl, image, rfl⟩ := hcomplete
          cases switches with
          | false => exact hquiet
          | true => exact Or.inr ⟨image, rfl, rfl, hholds.1, hholds.2.1⟩
      | _ => exact hquiet

end Device

section Order

variable {p : Partition} {L : Layout} {s : Task} {chunks : List (List UInt8)}

end Order

section Lives

variable {valid : List UInt8 → Bool} {d d' : Device}

end Lives

section Versions

variable {L : Layout} {env : Env L} {p : Partition} {pvParameter : Option CString}
  {ipAddress : CharArray 100} {reads : List ReadResult}

end Versions

end SnifferStaSend.OtaDevice
