import SnifferStaSend.OtaRun
import SnifferStaSend.SettingsRecord
import SnifferStaSend.Station

/-!
# Accepted settings over reboots

`get_settings` stores the globals, whatever the flash holds, and a reboot resets them. Accepted
settings are therefore in flash until the first GOT_IP or failed update after a reboot, and
then the compiled-in ones.
-/

namespace SnifferStaSend.Durability
open CLib Nvs GetSettings ParserSafety SockClient Station SettingsRecord

section Storing

variable {g : Globals} {fl : Flash}

def otaEffect (g : Globals) (fl : Flash) : Ota.Call → Flash
  | .getSettings => commitAll (getSettings g) fl
  | _ => fl

theorem holdsRecord_otaEffect (h : HoldsRecord fl g) (c : Ota.Call) :
    HoldsRecord (otaEffect g fl c) g := by
  cases c with
  | getSettings => exact holdsRecord_writeSettings g fl
  | _ => exact h

theorem holdsRecord_foldl (log : List Ota.Call) (h : HoldsRecord fl g) :
    HoldsRecord (log.foldl (otaEffect g) fl) g := by
  induction log generalizing fl with
  | nil => exact h
  | cons c log ih => exact ih (holdsRecord_otaEffect h c)

theorem holdsRecord_of_getSettings {log : List Ota.Call} (h : .getSettings ∈ log) :
    HoldsRecord (log.foldl (otaEffect g) fl) g := by
  obtain ⟨before, after, rfl⟩ := List.append_of_mem h
  rw [List.foldl_append, List.foldl_cons]
  exact holdsRecord_foldl after (holdsRecord_writeSettings g _)

theorem getSettings_of_deleted {L : Ota.Layout} {env : Ota.Env L} {pvParameter : Option CString}
    {reads : List Ota.ReadResult}
    (h : (Ota.otaExampleTask env pvParameter reads).outcome = .deleted) :
    .getSettings ∈ (Ota.otaExampleTask env pvParameter reads).task.log := by
  have hrun := OtaRun.otaExampleTask_run env pvParameter reads
  have hfatal (t : Ota.Task) : .getSettings ∈ (Ota.taskFatalError t).task.log := by
    simp [Ota.taskFatalError, Ota.Task.call]
  generalize Ota.otaExampleTask env pvParameter reads = st at hrun h ⊢
  cases hrun with
  | fault f => cases h
  | noAddress => cases h
  | noClient url => exact hfatal _
  | notOpened url => exact hfatal _
  | noPartition url => cases h
  | reading hloop => cases h
  | refused hloop hlog hcalls => exact hfatal _
  | @finished p url chunks s hloop =>
      rcases OtaRun.finishUpdate_cases env p s with heq | heq | heq
      · rw [heq] at h
        cases h
      · rw [heq]
        exact hfatal _
      · rw [heq] at h
        cases h

end Storing

structure FailedUpdate where
  L : Ota.Layout
  env : Ota.Env L
  pvParameter : Option CString
  reads : List Ota.ReadResult
  failed : (Ota.otaExampleTask env pvParameter reads).outcome = .deleted

inductive Label
  | reboot
  | event (e : SystemEvent)
  | updateFailed (u : FailedUpdate)

def Label.isReboot : Label → Bool
  | .reboot => true
  | _ => false

/-- It goes through `get_settings`. -/
def Label.stores : Label → Bool
  | .event .staGotIp | .updateFailed _ => true
  | _ => false

section Semantics

variable (inetPton : CString → Option UInt32)

def execUntilExit (w : State) (stmts : List Station.Stmt) : State :=
  stmts.foldl (fun w st => if w.exited then w else exec inetPton w st) w

def rebooted (w : State) : State :=
  State.initial Globals.compiledIn w.flash lwipPool (Buf.fill 6 0)

def step (w : State) : Label → Option State
  | .reboot => some (rebooted w)
  | .event e =>
    if w.exited then none else some (execUntilExit inetPton w (eventHandlerSta w.g e))
  | .updateFailed u =>
    if w.exited then none
    else
      let log := (Ota.otaExampleTask u.env u.pvParameter u.reads).task.log
      some { w with flash := log.foldl (otaEffect w.g) w.flash }

/-- The record in flash is `accepted`, and this is what `use_rom_settings` restores. -/
def Durable (accepted : Globals) (w : State) : Prop :=
  HoldsRecord w.flash accepted ∧ ∀ ram, useRomSettings w.flash ram = accepted

/-- After a reboot nothing has gone through `get_settings`. -/
def NothingStored (ls : List Label) : Prop :=
  ls.Pairwise (fun l l' => l.isReboot = true → l'.stores = false)

end Semantics

section Handler

variable {inetPton : CString → Option UInt32} {w : State}

theorem exec_flash {st : Station.Stmt} (h : st ≠ .getSettings) :
    (exec inetPton w st).flash = w.flash := by
  cases st with
  | getSettings => exact absurd rfl h
  | sock s =>
      dsimp only [exec]
      split <;> rfl
  | _ => rfl

theorem execUntilExit_frame (inetPton : CString → Option UInt32) (w : State)
    (stmts : List Station.Stmt) (h : .getSettings ∉ stmts) :
    (execUntilExit inetPton w stmts).flash = w.flash ∧
      (execUntilExit inetPton w stmts).g = w.g := by
  induction stmts generalizing w with
  | nil => exact ⟨rfl, rfl⟩
  | cons st stmts ih =>
      have hne : st ≠ .getSettings := by
        rintro rfl
        exact h List.mem_cons_self
      have hrest := fun u => ih u (fun hmem => h (List.mem_cons_of_mem st hmem))
      cases hexit : w.exited with
      | true =>
          have hsame : execUntilExit inetPton w (st :: stmts) = execUntilExit inetPton w stmts := by
            rw [execUntilExit, List.foldl_cons, if_pos hexit]
            rfl
          rw [hsame]
          exact hrest w
      | false =>
          have hnext : execUntilExit inetPton w (st :: stmts) =
              execUntilExit inetPton (exec inetPton w st) stmts := by
            rw [execUntilExit, List.foldl_cons, if_neg (by simp [hexit])]
            rfl
          rw [hnext]
          exact ⟨(hrest _).1.trans (exec_flash hne), (hrest _).2.trans (exec_g w st)⟩

theorem execUntilExit_gotIp (inetPton : CString → Option UInt32) (hlive : w.exited = false) :
    (execUntilExit inetPton w (eventHandlerSta w.g .staGotIp)).flash =
        commitAll (getSettings w.g) w.flash ∧
      (execUntilExit inetPton w (eventHandlerSta w.g .staGotIp)).g = w.g := by
  have hstored : execUntilExit inetPton w (eventHandlerSta w.g .staGotIp) =
      execUntilExit inetPton
        { w with
          isConnectAP := true, sRetryNum := 0, flash := commitAll (getSettings w.g) w.flash }
        ((initSocketClient w.g).map .sock) := by
    simp [execUntilExit, eventHandlerSta, exec, hlive]
  rw [hstored]
  exact execUntilExit_frame inetPton _ _ (by simp)

end Handler

section Run

variable {inetPton : CString → Option UInt32} {accepted : Globals} {ls : List Label} {l : Label}
  {w w' : State}

/-- What a label does to the globals and to the record. -/
theorem step_spec (h : step inetPton w l = some w') :
    w'.g = (if l.isReboot then Globals.compiledIn else w.g) ∧
      (l.stores = true → HoldsRecord w'.flash w.g) ∧ (l.stores = false → w'.flash = w.flash) := by
  cases l with
  | reboot =>
      obtain rfl := Option.some.inj h
      exact ⟨rfl, fun hstores => absurd hstores Bool.false_ne_true, fun _ => rfl⟩
  | event e =>
      obtain ⟨hlive, heq⟩ := Option.ite_none_left_eq_some.mp h
      obtain rfl := Option.some.inj heq
      have hidle (hmem : .getSettings ∉ eventHandlerSta w.g e) :=
        execUntilExit_frame inetPton w (eventHandlerSta w.g e) hmem
      cases e with
      | staGotIp =>
          obtain ⟨hflash, hg⟩ := execUntilExit_gotIp inetPton
            (Bool.eq_false_iff.mpr hlive)
          refine ⟨hg, fun _ => ?_, fun hno => absurd hno (Ne.symm Bool.false_ne_true)⟩
          rw [hflash]
          exact holdsRecord_writeSettings w.g w.flash
      | _ =>
          obtain ⟨hflash, hg⟩ := hidle (by simp [eventHandlerSta])
          exact ⟨hg, fun hstores => absurd hstores Bool.false_ne_true, fun _ => hflash⟩
  | updateFailed u =>
      obtain ⟨-, heq⟩ := Option.ite_none_left_eq_some.mp h
      obtain rfl := Option.some.inj heq
      refine ⟨rfl, fun _ => ?_, fun hno => absurd hno (Ne.symm Bool.false_ne_true)⟩
      exact holdsRecord_of_getSettings (getSettings_of_deleted u.failed)

theorem nothingStored_append : NothingStored (ls ++ [l]) ↔
    NothingStored ls ∧ ((∃ l' ∈ ls, l'.isReboot = true) → l.stores = false) := by
  rw [NothingStored, List.pairwise_append]
  simp [NothingStored]

/-- The globals are accepted ones until the first reboot; the record follows them when it is
written. -/
structure Stored (accepted : Globals) (ls : List Label) (w : State) : Prop where
  globals : w.g = accepted ∧ (¬ ∃ l ∈ ls, l.isReboot = true) ∨
    w.g = Globals.compiledIn ∧ ∃ l ∈ ls, l.isReboot = true
  record : HoldsRecord w.flash accepted ∧ NothingStored ls ∨
    HoldsRecord w.flash Globals.compiledIn ∧ ¬ NothingStored ls

theorem Stored.step (h : Stored accepted ls w) (hstep : Durability.step inetPton w l = some w') :
    Stored accepted (ls ++ [l]) w' := by
  obtain ⟨hg, hstores, hkeeps⟩ := step_spec hstep
  have hreboot : (∃ l' ∈ ls ++ [l], l'.isReboot = true) ↔
      (∃ l' ∈ ls, l'.isReboot = true) ∨ l.isReboot = true := by
    simp only [List.mem_append, List.mem_singleton, or_and_right, exists_or, exists_eq_left]
  constructor
  · rw [hreboot, hg]
    cases hl : l.isReboot with
    | true => exact Or.inr ⟨rfl, Or.inr rfl⟩
    | false => simpa using h.globals
  · rw [nothingStored_append]
    cases hl : l.stores with
    | false =>
        rw [hkeeps hl]
        simpa using h.record
    | true =>
        have hnew := hstores hl
        rcases h.globals with ⟨hold, hnone⟩ | ⟨hold, hsome⟩
        · -- no reboot yet, so that the globals are written back
          rw [hold] at hnew
          have hnothing : NothingStored ls := List.pairwise_of_forall_mem_list
            (fun l' hl' _ _ hr => absurd ⟨l', hl', hr⟩ hnone)
          exact Or.inl ⟨hnew, hnothing, fun hsome => absurd hsome hnone⟩
        · rw [hold] at hnew
          exact Or.inr ⟨hnew, fun hno => Bool.false_ne_true (hno.2 hsome).symm⟩

theorem stored_run (hg : w.g = accepted) (hflash : HoldsRecord w.flash accepted)
    (hrun : run (Durability.step inetPton) w ls = some w') : Stored accepted ls w' := by
  refine run_invariant (P := Stored accepted) (Durability.step inetPton) ?_ ?_ hrun
  · intro ls u l t h hstep
    exact h.step hstep
  · exact ⟨Or.inl ⟨hg, by simp⟩, Or.inl ⟨hflash, List.Pairwise.nil⟩⟩

theorem Stored.isDurable_iff (h : Stored accepted ls w) :
    Durable accepted w ↔ NothingStored ls ∨ accepted = Globals.compiledIn := by
  rcases h.record with ⟨hrecord, hnothing⟩ | ⟨hrecord, hno⟩
  · exact iff_of_true ⟨hrecord, hrecord.useRomSettings⟩ (Or.inl hnothing)
  · rw [or_iff_right hno]
    constructor
    · intro hdurable
      exact (hdurable.2 accepted).symm.trans (hrecord.useRomSettings accepted)
    · rintro rfl
      exact ⟨hrecord, hrecord.useRomSettings⟩

end Run

/-- Settings that have been applied are in flash exactly as long as nothing is stored after a
reboot, unless they are the compiled-in ones. -/
theorem durable_iff (inetPton : CString → Option UInt32) (msg : CString) (frame : Frame)
    (last : Last) (a : Applied) (huse : useDbSettings msg frame last = .ok a) (fl : Flash)
    (w : State) (hg : w.g = a.globals) (hflash : w.flash = commitAll a.writes fl)
    (ls : List Label) (w' : State) (hrun : run (step inetPton) w ls = some w') :
    Durable a.globals w' ↔ NothingStored ls ∨ a.globals = Globals.compiledIn := by
  have hrecord : HoldsRecord w.flash a.globals := by
    rw [hflash, writes_of_useDbSettings huse]
    exact holdsRecord_writeSettings a.globals fl
  exact (stored_run hg hrecord hrun).isDurable_iff

def someMessage : CString := CString.ofString "6,x,10.0.0.7,9001,9002,9003,250"

theorem fits_someMessage : Fits someMessage := by decide

def afterMessage (a : Applied) : State :=
  State.initial a.globals (commitAll a.writes fun _ => none) lwipPool (Buf.fill 6 0)

theorem durable_until_reboot : ∃ a w', useDbSettings someMessage (frameOf 0) none = .ok a ∧
      run (step dottedQuad) (afterMessage a) [.event .staGotIp, .reboot] = some w' ∧
      Durable a.globals w' := by
  obtain ⟨a, huse, -⟩ := useDbSettings_fields (frameOf 0) fits_someMessage (by decide) none
  refine ⟨a, _, huse, rfl, ?_⟩
  exact (durable_iff dottedQuad _ (frameOf 0) none a huse (fun _ => none) (afterMessage a) rfl rfl
    [.event .staGotIp, .reboot] _ rfl).mpr (Or.inl (by simp [NothingStored, Label.isReboot]))

/-- The first GOT_IP after a reboot stores the compiled-in settings over accepted ones. -/
theorem not_durable : ∃ a ckLast w',
    checkDbSettings someMessage (frameOf 0) none = .ok (true, ckLast) ∧
      useDbSettings someMessage (frameOf 0) none = .ok a ∧
      run (step dottedQuad) (afterMessage a) [.reboot, .event .staGotIp] = some w' ∧
      ¬ Durable a.globals w' := by
  obtain ⟨ckLast, hck⟩ := checkDbSettings_of_fits someMessage (frameOf 0) none fits_someMessage
  obtain ⟨a, huse, hwrites, -, hdest, -⟩ :=
    useDbSettings_fields (frameOf 0) fits_someMessage (by decide) none
  have hrecord : HoldsRecord (afterMessage a).flash a.globals := by
    rw [afterMessage, State.initial, hwrites]
    exact holdsRecord_writeSettings a.globals _
  have hrun : run (step dottedQuad) (afterMessage a) [.reboot, .event .staGotIp] = some _ := rfl
  have hg : (afterMessage a).g = a.globals := rfl
  refine ⟨a, ckLast, _, hck, huse, hrun, fun hdurable => ?_⟩
  rcases (stored_run hg hrecord hrun).isDurable_iff.mp hdurable with hnothing | hcompiled
  · simp [NothingStored, Label.isReboot, Label.stores] at hnothing
  · rw [hcompiled] at hdest
    exact absurd hdest (by decide)

end SnifferStaSend.Durability
