import SnifferStaSend.EventTask
import SnifferStaSend.SettingsRecord

/-!
# The access functions, call by call

The event task and the OTA task both go through `get_settings`, and each of its writes is an
`nvs_open`, an `nvs_set`, an `nvs_commit` and an `nvs_close`. Here any number of tasks take
these calls one at a time in any order. A value that has been set reaches the flash with the
commit at the latest, and at any moment before it. The atomic accesses of the model below are
what such a run amounts to.
-/

namespace SnifferStaSend.NvsApi
open CLib Nvs GetSettings SettingsRecord

inductive Stmt
  | nvsOpen (nvsFileName : String)
  | nvsSet (param : String) (value : Value)
  | nvsGetI32 (param : String)
  | nvsGetStr (param : String) {n : ℕ} (strData : CharArray n)
  | nvsCommit
  | nvsClose

/-- Under `ESP_ERROR_CHECK`, which aborts on an error. -/
def Stmt.isChecked : Stmt → Bool
  | .nvsOpen _ | .nvsSet _ _ | .nvsCommit => true
  | _ => false

def nvsWriteInt32ToFlash (nvsFileName param : String) (value : Int32) : List Stmt :=
  [.nvsOpen nvsFileName, .nvsSet param (.i32 value), .nvsCommit, .nvsClose]

def nvsWriteStringToFlash (nvsFileName param : String) (string : CString) : List Stmt :=
  [.nvsOpen nvsFileName, .nvsSet param (.str string), .nvsCommit, .nvsClose]

def nvsReadInt32FromFlash (nvsFileName param : String) : List Stmt :=
  [.nvsOpen nvsFileName, .nvsGetI32 param, .nvsClose]

def nvsReadStringFromFlash (nvsFileName param : String) {n : ℕ} (strData : CharArray n) :
    List Stmt :=
  [.nvsOpen nvsFileName, .nvsGetStr param strData, .nvsClose]

/-- A call of one of the four functions. -/
inductive Access
  | writeInt32 (nvsFileName param : String) (value : Int32)
  | writeString (nvsFileName param : String) (string : CString)
  | readInt32 (nvsFileName param : String)
  | readString (nvsFileName param : String) {n : ℕ} (strData : CharArray n)

def Access.body : Access → List Stmt
  | .writeInt32 f p value => nvsWriteInt32ToFlash f p value
  | .writeString f p string => nvsWriteStringToFlash f p string
  | .readInt32 f p => nvsReadInt32FromFlash f p
  | .readString f p strData => nvsReadStringFromFlash f p strData

inductive Result
  | int32 (value : Int32)
  | string {n : ℕ} (strData : CharArray n)

/-- What has been set through a handle and is not in flash yet. -/
structure Handle where
  nvsFileName : String
  unflushed : List Write

/-- The calls that a task still has to make, its open handle, and what it has read. -/
structure Task where
  calls : List Stmt
  handle : Option Handle
  results : List Result

/-- A call that succeeds. Without a handle there is none but `nvs_open`. -/
def exec (fl : Flash) (t : Task) : Stmt → Option (Flash × Task)
  | .nvsOpen f => some (fl, { t with handle := some ⟨f, []⟩ })
  | .nvsSet p value => t.handle.map fun h =>
    (fl, { t with
      handle := some { h with unflushed := h.unflushed ++ [⟨(h.nvsFileName, p), value⟩] } })
  | .nvsGetI32 p => t.handle.map fun h =>
    (fl, { t with
      results := t.results ++ [.int32 (Nvs.nvsReadInt32FromFlash fl h.nvsFileName p)] })
  | .nvsGetStr p strData => t.handle.map fun h =>
    (fl, { t with
      results :=
        t.results ++ [.string (Nvs.nvsReadStringFromFlash fl h.nvsFileName p strData)] })
  | .nvsCommit => t.handle.map fun h =>
    (commitAll h.unflushed fl, { t with handle := some { h with unflushed := [] } })
  | .nvsClose => t.handle.map fun _ => (fl, { t with handle := none })

def Task.call (fl : Flash) (t : Task) : Option (Flash × Task) :=
  match t.calls with
  | [] => none
  | st :: calls => exec fl { t with calls := calls } st

/-- NVS moves a value to the flash before the commit. -/
def Task.flush (fl : Flash) (t : Task) : Option (Flash × Task) :=
  match t.handle with
  | some ⟨f, w :: ws⟩ => some (w.commit fl, { t with handle := some ⟨f, ws⟩ })
  | _ => none

section System

variable {ι : Type*} [DecidableEq ι]

structure State (ι : Type*) where
  flash : Flash
  tasks : ι → Task
  aborted : Bool

inductive Label (ι : Type*)
  | call (i : ι)
  | fail (i : ι)
  | flush (i : ι)

def State.put (s : State ι) (i : ι) (x : Flash × Task) : State ι :=
  { s with flash := x.1, tasks := Function.update s.tasks i x.2 }

def step (s : State ι) : Label ι → Option (State ι)
  | .call i => if s.aborted then none else ((s.tasks i).call s.flash).map (s.put i)
  | .fail i =>
    if s.aborted ∨ (s.tasks i).calls.head?.any Stmt.isChecked = false then none
    else some { s with aborted := true }
  | .flush i => if s.aborted then none else ((s.tasks i).flush s.flash).map (s.put i)

def start (fl : Flash) (accesses : ι → List Access) : State ι :=
  ⟨fl, fun i => ⟨(accesses i).flatMap Access.body, none, []⟩, false⟩

end System

namespace Atomic

/-- The accesses that a task has not made yet, and what it has read. -/
structure Task where
  accesses : List Access
  results : List Result

def perform (fl : Flash) : Access → Flash × List Result
  | .writeInt32 f p value => ((Nvs.nvsWriteInt32ToFlash f p value).commit fl, [])
  | .writeString f p string => ((Nvs.nvsWriteStringToFlash f p string).commit fl, [])
  | .readInt32 f p => (fl, [.int32 (Nvs.nvsReadInt32FromFlash fl f p)])
  | .readString f p strData => (fl, [.string (Nvs.nvsReadStringFromFlash fl f p strData)])

def Task.next (fl : Flash) (t : Task) : Option (Flash × Task) :=
  match t.accesses with
  | [] => none
  | a :: accesses => some ((perform fl a).1, ⟨accesses, t.results ++ (perform fl a).2⟩)

section System

variable {ι : Type*} [DecidableEq ι]

structure State (ι : Type*) where
  flash : Flash
  tasks : ι → Task

def step (s : State ι) (i : ι) : Option (State ι) :=
  ((s.tasks i).next s.flash).map (fun x => ⟨x.1, Function.update s.tasks i x.2⟩)

def start (fl : Flash) (accesses : ι → List Access) : State ι :=
  ⟨fl, fun i => ⟨accesses i, []⟩⟩

end System

end Atomic

section Refinement

def Access.write? : Access → Option Write
  | .writeInt32 f p value => some (Nvs.nvsWriteInt32ToFlash f p value)
  | .writeString f p string => some (Nvs.nvsWriteStringToFlash f p string)
  | _ => none

def Access.nvsFileName : Access → String
  | .writeInt32 f _ _ | .writeString f _ _ | .readInt32 f _ | .readString f _ _ => f

/-- Where a task is within its accesses, and which of them have happened by then: a read with
its `nvs_get`, a write with the moment at which its value reaches the flash. -/
inductive Progress : Task → Atomic.Task → Prop
  | between (as : List Access) (rs : List Result) :
    Progress ⟨as.flatMap Access.body, none, rs⟩ ⟨as, rs⟩
  | opened (a : Access) (as : List Access) (rs : List Result) :
    Progress ⟨a.body.tail ++ as.flatMap Access.body, some ⟨a.nvsFileName, []⟩, rs⟩ ⟨a :: as, rs⟩
  | set (a : Access) (w : Write) (f : String) (as : List Access) (rs : List Result) :
    a.write? = some w →
      Progress ⟨.nvsCommit :: .nvsClose :: as.flatMap Access.body, some ⟨f, [w]⟩, rs⟩ ⟨a :: as, rs⟩
  | flushed (f : String) (as : List Access) (rs : List Result) :
    Progress ⟨.nvsCommit :: .nvsClose :: as.flatMap Access.body, some ⟨f, []⟩, rs⟩ ⟨as, rs⟩
  | closing (f : String) (as : List Access) (rs : List Result) :
    Progress ⟨.nvsClose :: as.flatMap Access.body, some ⟨f, []⟩, rs⟩ ⟨as, rs⟩

/-- A step that no access takes effect in, or that is one access as a whole. -/
def Answered (fl fl' : Flash) (t' : Task) (b : Atomic.Task) : Prop :=
  (fl' = fl ∧ Progress t' b) ∨ ∃ b', b.next fl = some (fl', b') ∧ Progress t' b'

variable {fl fl' : Flash} {t t' : Task} {b : Atomic.Task}

theorem next_of_write {a : Access} {w : Write} (h : a.write? = some w) (as : List Access)
    (rs : List Result) :
    Atomic.Task.next fl ⟨a :: as, rs⟩ = some (w.commit fl, ⟨as, rs⟩) := by
  cases a with
  | writeInt32 f p value =>
      obtain rfl := Option.some.inj h
      simp [Atomic.Task.next, Atomic.perform]
  | writeString f p string =>
      obtain rfl := Option.some.inj h
      simp [Atomic.Task.next, Atomic.perform]
  | readInt32 f p => cases h
  | readString f p strData => cases h

theorem Progress.call (h : Progress t b) (hcall : t.call fl = some (fl', t')) :
    Answered fl fl' t' b := by
  cases h with
  | between as rs =>
      cases as with
      | nil => cases hcall
      | cons a as =>
          have hopen : Task.call fl ⟨(a :: as).flatMap Access.body, none, rs⟩ =
              some (fl, ⟨a.body.tail ++ as.flatMap Access.body, some ⟨a.nvsFileName, []⟩, rs⟩) := by
            cases a <;> rfl
          obtain ⟨rfl, rfl⟩ := Prod.mk.inj (Option.some.inj (hopen.symm.trans hcall))
          exact Or.inl ⟨rfl, .opened a as rs⟩
  | opened a as rs =>
      cases a with
      | writeInt32 f p value =>
          obtain ⟨rfl, rfl⟩ := Prod.mk.inj (Option.some.inj hcall)
          exact Or.inl ⟨rfl, .set (.writeInt32 f p value) _ f as rs rfl⟩
      | writeString f p string =>
          obtain ⟨rfl, rfl⟩ := Prod.mk.inj (Option.some.inj hcall)
          exact Or.inl ⟨rfl, .set (.writeString f p string) _ f as rs rfl⟩
      | readInt32 f p =>
          obtain ⟨rfl, rfl⟩ := Prod.mk.inj (Option.some.inj hcall)
          exact Or.inr ⟨_, rfl, .closing f as _⟩
      | readString f p strData =>
          obtain ⟨rfl, rfl⟩ := Prod.mk.inj (Option.some.inj hcall)
          exact Or.inr ⟨_, rfl, .closing f as _⟩
  | set a w f as rs hw =>
      obtain ⟨rfl, rfl⟩ := Prod.mk.inj (Option.some.inj hcall)
      exact Or.inr ⟨_, next_of_write hw as rs, .closing f as rs⟩
  | flushed f as rs =>
      obtain ⟨rfl, rfl⟩ := Prod.mk.inj (Option.some.inj hcall)
      exact Or.inl ⟨rfl, .closing f as rs⟩
  | closing f as rs =>
      obtain ⟨rfl, rfl⟩ := Prod.mk.inj (Option.some.inj hcall)
      exact Or.inl ⟨rfl, .between as rs⟩

theorem Progress.flush (h : Progress t b) (hflush : t.flush fl = some (fl', t')) :
    Answered fl fl' t' b := by
  cases h with
  | set a w f as rs hw =>
      obtain ⟨rfl, rfl⟩ := Prod.mk.inj (Option.some.inj hflush)
      exact Or.inr ⟨_, next_of_write hw as rs, .flushed f as rs⟩
  | between as rs => cases hflush
  | opened a as rs => cases hflush
  | flushed f as rs => cases hflush
  | closing f as rs => cases hflush

theorem Progress.call_isSome (h : Progress t b) (fl : Flash) (hcalls : t.calls ≠ []) :
    (t.call fl).isSome := by
  cases h with
  | between as rs =>
      cases as with
      | nil => exact absurd rfl hcalls
      | cons a as => cases a <;> rfl
  | opened a as rs => cases a <;> rfl
  | _ => rfl

theorem body_append_inj {a a' : Access} {sts sts' : List Stmt}
    (h : a.body ++ sts = a'.body ++ sts') : a = a' ∧ sts = sts' := by
  cases a <;> cases a' <;>
    simp_all [Access.body, nvsWriteInt32ToFlash, nvsWriteStringToFlash, nvsReadInt32FromFlash,
      nvsReadStringFromFlash]

theorem flatMap_body_inj {as as' : List Access}
    (h : as.flatMap Access.body = as'.flatMap Access.body) : as = as' := by
  induction as generalizing as' with
  | nil =>
      cases as' with
      | nil => rfl
      | cons a' as' => cases a' <;> cases h
  | cons a as ih =>
      cases as' with
      | nil => cases a <;> cases h
      | cons a' as' =>
          rw [List.flatMap_cons, List.flatMap_cons] at h
          obtain ⟨rfl, hrest⟩ := body_append_inj h
          rw [ih hrest]

theorem head_flatMap_body {as : List Access} {st : Stmt} {sts : List Stmt}
    (h : st :: sts = as.flatMap Access.body) : ∃ f, st = .nvsOpen f := by
  cases as with
  | nil => cases h
  | cons a as =>
      rw [List.flatMap_cons] at h
      cases a <;> exact ⟨_, (List.cons.inj h).1⟩

theorem Progress.accesses_eq (h : Progress t b) {as : List Access}
    (hcalls : t.calls = as.flatMap Access.body) : b.accesses = as := by
  cases h with
  | between as' rs => exact flatMap_body_inj hcalls
  | opened a as' rs =>
      cases a <;> obtain ⟨f, hf⟩ := head_flatMap_body hcalls <;> cases hf
  | set a w f as' rs hw =>
      obtain ⟨f, hf⟩ := head_flatMap_body hcalls
      cases hf
  | flushed f as' rs =>
      obtain ⟨f, hf⟩ := head_flatMap_body hcalls
      cases hf
  | closing f as' rs =>
      obtain ⟨f, hf⟩ := head_flatMap_body hcalls
      cases hf

theorem Progress.results_eq (h : Progress t b) : b.results = t.results := by
  cases h <;> rfl

variable {ι : Type*} [DecidableEq ι]

/-- The flash is the same, and every task is somewhere within its accesses. -/
structure Refines (s : State ι) (a : Atomic.State ι) : Prop where
  flash : a.flash = s.flash
  tasks : ∀ i, Progress (s.tasks i) (a.tasks i)

variable {s s' : State ι} {a : Atomic.State ι}

theorem Refines.put (h : Refines s a) {i : ι} {x : Flash × Task}
    (hx : Answered s.flash x.1 x.2 (a.tasks i)) :
    ∃ is a', run Atomic.step a is = some a' ∧ Refines (s.put i x) a' := by
  rcases hx with ⟨hsame, hp⟩ | ⟨b, hnext, hp⟩
  · refine ⟨[], a, rfl, h.flash.trans hsame.symm, fun j => ?_⟩
    by_cases hj : j = i
    · subst j
      simpa [State.put] using hp
    · simpa [State.put, hj] using h.tasks j
  · refine ⟨[i], ⟨x.1, Function.update a.tasks i b⟩, ?_, rfl, fun j => ?_⟩
    · rw [run_cons, Atomic.step, h.flash, hnext]
      rfl
    · by_cases hj : j = i
      · subst j
        simpa [State.put] using hp
      · simpa [State.put, hj] using h.tasks j

theorem Refines.step (h : Refines s a) {l : Label ι} (hstep : NvsApi.step s l = some s') :
    ∃ is a', run Atomic.step a is = some a' ∧ Refines s' a' := by
  cases l with
  | call i =>
      obtain ⟨-, hcall⟩ := Option.ite_none_left_eq_some.mp hstep
      obtain ⟨x, hx, rfl⟩ := Option.map_eq_some_iff.mp hcall
      exact h.put ((h.tasks i).call hx)
  | fail i =>
      obtain ⟨-, heq⟩ := Option.ite_none_left_eq_some.mp hstep
      obtain rfl := Option.some.inj heq
      exact ⟨[], a, rfl, h.flash, h.tasks⟩
  | flush i =>
      obtain ⟨-, hflush⟩ := Option.ite_none_left_eq_some.mp hstep
      obtain ⟨x, hx, rfl⟩ := Option.map_eq_some_iff.mp hflush
      exact h.put ((h.tasks i).flush hx)

theorem refines_run {fl : Flash} {accesses : ι → List Access} {ls : List (Label ι)}
    (hrun : run NvsApi.step (start fl accesses) ls = some s) :
    ∃ is a, run Atomic.step (Atomic.start fl accesses) is = some a ∧ Refines s a := by
  have hstart : Refines (start fl accesses) (Atomic.start fl accesses) :=
    ⟨rfl, fun i => .between (accesses i) []⟩
  exact run_simulates NvsApi.step Atomic.step (fun _ _ _ _ h hstep => h.step hstep) hstart hrun

end Refinement

/-- Whatever the order of the calls, the values flushed early and the point at which the run
ends or aborts: the flash and all that has been read are those of a run that makes one access
at a time, an access has happened when it returns, and no call lacks a handle. -/
theorem run_isAtomic {ι : Type*} [DecidableEq ι] (fl : Flash) (accesses : ι → List Access)
    (ls : List (Label ι)) (s : State ι) (hrun : run step (start fl accesses) ls = some s) :
    ∃ is a, run Atomic.step (Atomic.start fl accesses) is = some a ∧ a.flash = s.flash ∧
      ∀ i, (a.tasks i).results = (s.tasks i).results ∧
        (∀ as, (s.tasks i).calls = as.flatMap Access.body → (a.tasks i).accesses = as) ∧
        (s.aborted = false → (s.tasks i).calls ≠ [] → (step s (.call i)).isSome) := by
  obtain ⟨is, a, hatomic, hrefines⟩ := refines_run hrun
  refine ⟨is, a, hatomic, hrefines.flash, fun i => ?_⟩
  have hp := hrefines.tasks i
  refine ⟨hp.results_eq, fun as => hp.accesses_eq, fun hlive hcalls => ?_⟩
  have hcall := hp.call_isSome s.flash hcalls
  simpa [step, hlive] using hcall

/-- One task writes while the other reads the same key; the value is flushed between the
`nvs_set` and the `nvs_commit`. -/
theorem run_isAtomic_reader : ∃ is a,
    run Atomic.step (Atomic.start (fun _ => none) fun writes : Bool =>
        if writes then [.writeInt32 "CONFIG_FILE" "CHANNEL" 6]
        else [.readInt32 "CONFIG_FILE" "CHANNEL"]) is = some a ∧
      (a.tasks false).results = [.int32 6] := by
  obtain ⟨is, a, hatomic, -, htasks⟩ := run_isAtomic (fun _ => none)
    (fun writes : Bool => if writes then [.writeInt32 "CONFIG_FILE" "CHANNEL" 6]
      else [.readInt32 "CONFIG_FILE" "CHANNEL"])
    [.call false, .call true, .call true, .flush true, .call false, .fail true] _ rfl
  exact ⟨is, a, hatomic, (htasks false).1⟩

section GetSettings

def useSdkSettings (g : Globals) : List Access :=
  [.writeString "CONFIG_FILE" "WRITE" (CString.ofString "Y"),
    .writeInt32 "CONFIG_FILE" "CHANNEL" g.gChannel,
    .writeString "CONFIG_FILE" "DEST_IP" g.gDestIp.str,
    .writeInt32 "CONFIG_FILE" "CK_PORT" g.gCkPort,
    .writeInt32 "CONFIG_FILE" "RSSI_PORT" g.gRssiPort,
    .writeInt32 "CONFIG_FILE" "REPORT_FREQ" g.gReportFrequency]

def getSettings (g : Globals) : List Access := useSdkSettings g

def callsGetSettings (g : Globals) (n : ℕ) : List Access :=
  (List.replicate n (getSettings g)).flatten

variable {ι : Type*} [DecidableEq ι] {g : Globals} {fl : Flash} {n : ι → ℕ}

theorem map_write?_getSettings (g : Globals) :
    (getSettings g).map Access.write? = (writeSettings g).map some := rfl

theorem mem_callsGetSettings {a : Access} {m : ℕ} (h : a ∈ callsGetSettings g m) :
    a.body.length = 4 ∧ ∃ w ∈ writeSettings g, a.write? = some w := by
  obtain ⟨as, has, ha⟩ := List.mem_flatten.mp h
  obtain rfl := List.eq_of_mem_replicate has
  constructor
  · simp only [getSettings, useSdkSettings, List.mem_cons, List.not_mem_nil, or_false] at ha
    rcases ha with rfl | rfl | rfl | rfl | rfl | rfl <;> rfl
  · have hmem := List.mem_map_of_mem (f := Access.write?) ha
    rw [map_write?_getSettings] at hmem
    obtain ⟨w, hw, hsome⟩ := List.mem_map.mp hmem
    exact ⟨w, hw, hsome.symm⟩

theorem mem_writeSettings {done rest : List Access} {m : ℕ}
    (hdone : done ++ rest = callsGetSettings g m) {x : Access} (hx : x ∈ done) {w : Write}
    (hw : x.write? = some w) : w ∈ writeSettings g := by
  have hmem : x ∈ callsGetSettings g m := hdone ▸ List.mem_append_left rest hx
  obtain ⟨-, v, hv, hsome⟩ := mem_callsGetSettings hmem
  obtain rfl := Option.some.inj (hw.symm.trans hsome)
  exact hv

/-- No other value than those of `g` has come under the keys of the record, and what a task has
written is still there. -/
structure Converging (fl : Flash) (g : Globals) (n : ι → ℕ) (a : Atomic.State ι) : Prop where
  frame : ∀ k ∉ settingsKeys, a.flash k = fl k
  keys : ∀ w ∈ writeSettings g, a.flash w.key = fl w.key ∨ a.flash w.key = some w.value
  tasks : ∀ i, ∃ done, done ++ (a.tasks i).accesses = callsGetSettings g (n i) ∧
    ∀ x ∈ done, ∀ w, x.write? = some w → a.flash w.key = some w.value

/-- A record of `g` outlives what is cut while `g` is written once more. -/
theorem holdsRecord_of_keys {fl' : Flash} (hrecord : HoldsRecord fl g)
    (hkeys : ∀ w ∈ writeSettings g, fl' w.key = fl w.key ∨ fl' w.key = some w.value) :
    HoldsRecord fl' g := by
  intro w hw
  rcases hkeys w hw with hold | hnew
  · exact hold.trans (hrecord w hw)
  · exact hnew

theorem commit_apply {w v : Write} (hw : w ∈ writeSettings g) (hv : v ∈ writeSettings g)
    (fl : Flash) : w.commit fl v.key = if w.key = v.key then some v.value else fl v.key := by
  by_cases hkey : w.key = v.key
  · have hkeys : ((writeSettings g).map Write.key).Nodup := nodup_settingsKeys
    obtain rfl : w = v := List.inj_on_of_nodup_map hkeys hw hv hkey
    rw [commit_self, if_pos hkey]
  · rw [commit_of_ne fl w hkey, if_neg hkey]

theorem commit_agrees {w v : Write} (hw : w ∈ writeSettings g) (hv : v ∈ writeSettings g)
    (h : fl v.key = some v.value) : w.commit fl v.key = some v.value := by
  rw [commit_apply hw hv, h, ite_self]

namespace Converging

variable {a a' : Atomic.State ι} {i : ι}

theorem step_cases (h : Converging fl g n a) (hstep : Atomic.step a i = some a') :
    ∃ x as, ∃ w ∈ writeSettings g, (a.tasks i).accesses = x :: as ∧ x.write? = some w ∧
      a' = ⟨w.commit a.flash, Function.update a.tasks i ⟨as, (a.tasks i).results⟩⟩ := by
  obtain ⟨y, hnext, rfl⟩ := Option.map_eq_some_iff.mp hstep
  obtain ⟨done, hdone, -⟩ := h.tasks i
  cases hrest : (a.tasks i).accesses with
  | nil =>
      rw [Atomic.Task.next, hrest] at hnext
      cases hnext
  | cons x as =>
      have hx : x ∈ callsGetSettings g (n i) := by
        rw [← hdone, hrest]
        exact List.mem_append_right done List.mem_cons_self
      obtain ⟨-, w, hw, hwrite⟩ := mem_callsGetSettings hx
      have hwritten : (a.tasks i).next a.flash =
          some (w.commit a.flash, ⟨as, (a.tasks i).results⟩) := by
        rw [← next_of_write hwrite as, ← hrest]
      obtain rfl := Option.some.inj (hwritten.symm.trans hnext)
      exact ⟨x, as, w, hw, rfl, hwrite, rfl⟩

theorem step (h : Converging fl g n a) (hstep : Atomic.step a i = some a') :
    Converging fl g n a' := by
  obtain ⟨x, as, w, hw, hrest, hwrite, rfl⟩ := h.step_cases hstep
  constructor
  · intro k hk
    have hne : w.key ≠ k := by
      rintro rfl
      exact hk (List.mem_map_of_mem (f := Write.key) hw)
    exact (commit_of_ne a.flash w hne).trans (h.frame k hk)
  · intro v hv
    dsimp only
    rw [commit_apply hw hv]
    by_cases hkey : w.key = v.key
    · exact Or.inr (if_pos hkey)
    · rw [if_neg hkey]
      exact h.keys v hv
  · intro j
    obtain ⟨done, hdone, hvalues⟩ := h.tasks j
    have hkeep : ∀ y ∈ done, ∀ v, y.write? = some v → w.commit a.flash v.key = some v.value :=
      fun y hy v hv => commit_agrees hw (mem_writeSettings hdone hy hv) (hvalues y hy v hv)
    by_cases hj : j = i
    · subst j
      refine ⟨done ++ [x], ?_, fun y hy v hv => ?_⟩
      · dsimp only
        rw [Function.update_self, List.append_assoc, ← hdone, hrest]
        rfl
      · rcases List.mem_append.mp hy with hmem | hmem
        · exact hkeep y hmem v hv
        · obtain rfl := List.mem_singleton.mp hmem
          obtain rfl := Option.some.inj (hwrite.symm.trans hv)
          exact commit_self a.flash w
    · refine ⟨done, ?_, hkeep⟩
      dsimp only
      rw [Function.update_of_ne hj]
      exact hdone

end Converging

theorem converging_run {is : List ι} {a : Atomic.State ι}
    (hrun : run Atomic.step (Atomic.start fl fun i => callsGetSettings g (n i)) is = some a) :
    Converging fl g n a := by
  refine run_invariant (P := fun _ a => Converging fl g n a) Atomic.step
    (fun _ _ _ _ h hstep => h.step hstep) ?_ hrun
  exact ⟨fun _ _ => rfl, fun _ _ => Or.inl rfl, fun i => ⟨[], rfl, by simp⟩⟩

theorem length_flatMap_body {as : List Access} (h : ∀ a ∈ as, a.body.length = 4) :
    (as.flatMap Access.body).length = 4 * as.length := by
  induction as with
  | nil => rfl
  | cons a as ih =>
      rw [List.flatMap_cons, List.length_append, h a List.mem_cons_self,
        ih (fun a ha => h a (List.mem_cons_of_mem _ ha)), List.length_cons]
      omega

/-- Of writes no more are outstanding than the calls that are left account for. -/
theorem Progress.length_accesses_le {t : Task} {b : Atomic.Task} (h : Progress t b)
    (hbody : ∀ a ∈ b.accesses, a.body.length = 4) {m : ℕ} (hcalls : t.calls.length ≤ 4 * m) :
    b.accesses.length ≤ m := by
  cases h with
  | between as rs =>
      rw [length_flatMap_body hbody] at hcalls
      exact Nat.le_of_mul_le_mul_left hcalls (by omega)
  | opened a as rs =>
      obtain ⟨ha, has⟩ := List.forall_mem_cons.mp hbody
      rw [List.length_append, List.length_tail, ha, length_flatMap_body has] at hcalls
      rw [List.length_cons]
      omega
  | set a w f as rs hw =>
      obtain ⟨-, has⟩ := List.forall_mem_cons.mp hbody
      rw [List.length_cons, List.length_cons, length_flatMap_body has] at hcalls
      rw [List.length_cons]
      omega
  | flushed f as rs =>
      rw [List.length_cons, List.length_cons, length_flatMap_body hbody] at hcalls
      change as.length ≤ m
      change 4 * as.length + 1 + 1 ≤ 4 * m at hcalls
      omega
  | closing f as rs =>
      rw [List.length_cons, length_flatMap_body hbody] at hcalls
      change as.length ≤ m
      change 4 * as.length + 1 ≤ 4 * m at hcalls
      omega

theorem length_callsGetSettings (g : Globals) (m : ℕ) :
    (callsGetSettings g m).length = 6 * m := by
  simp [callsGetSettings, getSettings, useSdkSettings, Nat.mul_comm]

theorem mem_of_length_le {done rest : List Access} {m : ℕ}
    (hdone : done ++ rest = callsGetSettings g m) (hrest : rest.length + 6 ≤ 6 * m) :
    ∀ x ∈ getSettings g, x ∈ done := by
  have hlength := congrArg List.length hdone
  rw [List.length_append, length_callsGetSettings] at hlength
  obtain ⟨k, rfl⟩ : ∃ k, m = k + 1 := Nat.exists_eq_succ_of_ne_zero (by omega)
  have hfirst : getSettings g <+: callsGetSettings g (k + 1) := by
    rw [callsGetSettings, List.replicate_succ, List.flatten_cons]
    exact List.prefix_append _ _
  have hprefix : getSettings g <+: done := by
    apply List.prefix_of_prefix_length_le hfirst ⟨rest, hdone⟩
    change 6 ≤ done.length
    omega
  exact fun x hx => hprefix.subset hx

structure Boot (fl : Flash) (g : Globals) (n : ι → ℕ) (s : State ι) : Prop where
  frame : ∀ k ∉ settingsKeys, s.flash k = fl k
  keys : ∀ w ∈ writeSettings g, s.flash w.key = fl w.key ∨ s.flash w.key = some w.value
  returned : ∀ i, (s.tasks i).calls.length + 24 ≤ 24 * n i → HoldsRecord s.flash g

theorem boot_of_run {s : State ι} {ls : List (Label ι)}
    (hrun : run step (start fl fun i => callsGetSettings g (n i)) ls = some s) : Boot fl g n s := by
  obtain ⟨is, a, hatomic, hrefines⟩ := refines_run hrun
  have hconverging := converging_run hatomic
  constructor
  · rw [← hrefines.flash]
    exact hconverging.frame
  · rw [← hrefines.flash]
    exact hconverging.keys
  · rw [← hrefines.flash]
    intro i hcalls w hw
    obtain ⟨done, hdone, hvalues⟩ := hconverging.tasks i
    have hrest : (a.tasks i).accesses.length ≤ 6 * n i - 6 := by
      apply (hrefines.tasks i).length_accesses_le
      · intro x hx
        exact (mem_callsGetSettings (hdone ▸ List.mem_append_right done hx)).1
      · omega
    have hsome : some w ∈ (getSettings g).map Access.write? := by
      rw [map_write?_getSettings]
      exact List.mem_map_of_mem hw
    obtain ⟨x, hx, hwrite⟩ := List.mem_map.mp hsome
    exact hvalues x (mem_of_length_le hdone (by omega) x hx) w hwrite

/-- A boot in which every task goes through `get_settings`; it may end after any call, by an
abort, a loss of power or a restart. -/
def boot (g : Globals) (n : ι → ℕ) (fl : Flash) (ls : List (Label ι)) : Option Flash :=
  (run step (start fl fun i => callsGetSettings g (n i)) ls).map State.flash

/-- In the boot `ls` over the flash `fl` a task has come back from a `get_settings`, which makes
24 calls. -/
def ComesBack (g : Globals) (n : ι → ℕ) (fl : Flash) (ls : List (Label ι)) : Prop :=
  ∃ s, run step (start fl fun i => callsGetSettings g (n i)) ls = some s ∧
    ∃ i, (s.tasks i).calls.length + 24 ≤ 24 * n i

theorem boot_spec {fl' : Flash} {ls : List (Label ι)} (h : boot g n fl ls = some fl') :
    ∃ s, run step (start fl fun i => callsGetSettings g (n i)) ls = some s ∧ s.flash = fl' ∧
      Boot fl g n s := by
  obtain ⟨s, hrun, hflash⟩ := Option.map_eq_some_iff.mp h
  exact ⟨s, hrun, hflash, boot_of_run hrun⟩

structure Boots (fl : Flash) (g : Globals) (fl' : Flash) : Prop where
  frame : ∀ k ∉ settingsKeys, fl' k = fl k
  keys : ∀ w ∈ writeSettings g, fl' w.key = fl w.key ∨ fl' w.key = some w.value
  record : HoldsRecord fl g → HoldsRecord fl' g

theorem boots_run {fl' : Flash} {boots : List (List (Label ι))}
    (hrun : run (boot g n) fl boots = some fl') : Boots fl g fl' := by
  refine run_invariant (P := fun _ fl' => Boots fl g fl') (boot g n) ?_
    ⟨fun _ _ => rfl, fun _ _ => Or.inl rfl, id⟩ hrun
  intro before fl₁ ls fl₂ h hboot
  obtain ⟨s, -, rfl, hs⟩ := boot_spec hboot
  constructor
  · intro k hk
    exact (hs.frame k hk).trans (h.frame k hk)
  · intro w hw
    rcases hs.keys w hw with hold | hnew
    · exact (h.keys w hw).imp hold.trans hold.trans
    · exact Or.inr hnew
  · intro hrecord
    exact holdsRecord_of_keys (h.record hrecord) hs.keys

end GetSettings

/-- All tasks store the same globals, as nothing sets them. Over any boots, each with its calls
in any order and ending anywhere, every key of the record keeps its value or takes that of `g`
and no other key changes; from the first boot on in which a task has come back from
`get_settings` the record is `g`, cut writes and writes still going on notwithstanding. -/
theorem getSettings_converges {ι : Type*} [DecidableEq ι] (g : Globals) (n : ι → ℕ)
    (fl fl' : Flash) (boots : List (List (Label ι))) (hrun : run (boot g n) fl boots = some fl') :
    (∀ k ∉ settingsKeys, fl' k = fl k) ∧
      (∀ w ∈ writeSettings g, fl' w.key = fl w.key ∨ fl' w.key = some w.value) ∧
      ∀ before ls after flash, boots = before ++ ls :: after →
        run (boot g n) fl before = some flash → ComesBack g n flash ls →
          HoldsRecord fl' g ∧ ∀ ram, useRomSettings fl' ram = g := by
  have hboots := boots_run hrun
  refine ⟨hboots.frame, hboots.keys, ?_⟩
  rintro before ls after flash rfl hbefore ⟨s, hs, i, hcalls⟩
  obtain ⟨flash₁, hbefore', hrest⟩ := (run_append_eq_some (boot g n)).mp hrun
  obtain rfl := Option.some.inj (hbefore.symm.trans hbefore')
  rw [run_cons] at hrest
  obtain ⟨flash₂, hboot, hafter⟩ := Option.bind_eq_some_iff.mp hrest
  obtain ⟨t, ht, rfl, -⟩ := boot_spec hboot
  obtain rfl := Option.some.inj (hs.symm.trans ht)
  have hrecord : HoldsRecord s.flash g := (boot_of_run hs).returned i hcalls
  have hfinal := (boots_run hafter).record hrecord
  exact ⟨hfinal, hfinal.useRomSettings⟩

/-- In the first boot one task is between the `nvs_set` and the `nvs_commit` of its marker when
the other one starts and comes back; the second boot is cut after the value of the channel. -/
theorem getSettings_converges_twoBoots : ∃ fl', run (boot Globals.compiledIn fun _ : Bool => 1)
      (fun _ => none)
      [List.replicate 2 (.call false) ++ List.replicate 24 (.call true),
        List.replicate 6 (.call false) ++ [.flush false]] = some fl' ∧
      HoldsRecord fl' Globals.compiledIn := by
  refine ⟨_, rfl, ?_⟩
  exact ((getSettings_converges Globals.compiledIn (fun _ : Bool => 1) (fun _ => none) _
    [List.replicate 2 (.call false) ++ List.replicate 24 (.call true),
      List.replicate 6 (.call false) ++ [.flush false]] rfl).2.2 []
    (List.replicate 2 (.call false) ++ List.replicate 24 (.call true)) _ _ rfl rfl
    ⟨_, rfl, true, by decide⟩).1

end SnifferStaSend.NvsApi
