import SnifferStaSend.Atoi

/-!
# The OTA task

`ota_example_task`, `http_cleanup` and `task_fatal_error` of `ota.c`. The libraries are an
environment: what they answer may depend on all calls made before. The results of
`esp_http_client_read` come as a list; at its end the task still waits for the next one.
-/

namespace SnifferStaSend.Ota
open CLib

def buffsize : ℕ := 1024

/-- What `esp_http_client_read` leaves in `ota_write_data`. -/
structure Chunk where
  bytes : List UInt8
  fits : bytes.length ≤ buffsize
  deriving DecidableEq

inductive ReadResult
  | failed
  | data (chunk : Chunk)
  deriving DecidableEq

abbrev Handle := UInt32

/-- A partition, by its address. -/
abbrev Partition := UInt32

inductive Call
  | httpInit (url : CString) (ok : Bool)
  | httpOpen (ok : Bool)
  | fetchHeaders
  | httpRead (result : ReadResult)
  | httpClose
  | httpCleanup
  | otaBegin (partition : Partition) (result : Option Handle)
  | otaWrite (handle : Handle) (data : List UInt8) (ok : Bool)
  | otaEnd (handle : Handle) (ok : Bool)
  | setBootPartition (partition : Partition) (ok : Bool)
  | getSettings
  | taskDelete
  | restart
  deriving DecidableEq

/-- Sizes of `esp_image_header_t`, `esp_image_segment_header_t` and `esp_app_desc_t`, and the
place of `version` in the last one. -/
structure Layout where
  imageHeader : ℕ
  segmentHeader : ℕ
  appDesc : ℕ
  versionOffset : ℕ
  versionSize : ℕ
  version_fits : versionOffset + versionSize ≤ appDesc

def Layout.esp32 : Layout := ⟨24, 8, 256, 16, 32, by decide⟩

def Layout.headers (L : Layout) : ℕ := L.imageHeader + L.segmentHeader + L.appDesc

abbrev AppDesc (L : Layout) := Buf L.appDesc

def AppDesc.version {L : Layout} (d : AppDesc L) : List UInt8 :=
  (d.bytes.drop L.versionOffset).take L.versionSize

/-- An `esp_app_desc_t` variable after `esp_ota_get_partition_description`; when that has failed,
`info` may be anything. -/
structure Description (L : Layout) where
  ok : Bool
  info : AppDesc L

structure Env (L : Layout) where
  ethGotIp : Bool
  httpInit : Bool
  httpOpen : Bool
  updatePartition : Option Partition
  running : Description L
  lastInvalid : Option (Description L)
  otaBegin : List Call → Option Handle
  otaWrite : List Call → Handle → List UInt8 → Bool
  otaEnd : List Call → Handle → Bool
  setBoot : List Call → Bool

/-- The local variables of the task, and the calls made so far. -/
structure Task where
  updateHandle : Handle
  binaryFileLength : Int32
  imageHeaderWasChecked : Bool
  log : List Call
  deriving DecidableEq

def Task.start : Task := ⟨0, 0, false, []⟩

def Task.call (s : Task) (c : Call) : Task := { s with log := s.log ++ [c] }

inductive Outcome
  | running
  | deleted
  | restarted
  | crashed
  | fault (f : Fault)
  deriving DecidableEq

structure Stopped where
  outcome : Outcome
  task : Task
  deriving DecidableEq

def httpCleanup (s : Task) : Task := (s.call .httpClose).call .httpCleanup

/-- It never returns. -/
def taskFatalError (s : Task) : Stopped := ⟨.deleted, (s.call .getSettings).call .taskDelete⟩

def espRestart (s : Task) : Stopped := ⟨.restarted, s.call .restart⟩

@[simp] theorem log_call (s : Task) (c : Call) : (s.call c).log = s.log ++ [c] := rfl

@[simp] theorem updateHandle_call (s : Task) (c : Call) :
    (s.call c).updateHandle = s.updateHandle := rfl

@[simp] theorem checked_call (s : Task) (c : Call) :
    (s.call c).imageHeaderWasChecked = s.imageHeaderWasChecked := rfl

@[simp] theorem log_cleanedUp (s : Task) : (taskFatalError (httpCleanup s)).task.log =
    s.log ++ [.httpClose, .httpCleanup, .getSettings, .taskDelete] := by
  simp [taskFatalError, httpCleanup]

section Body

variable {L : Layout} (env : Env L) (updatePartition : Partition)

def newAppInfo (data : List UInt8) (h : L.headers < data.length) : AppDesc L :=
  ⟨(data.drop (L.imageHeader + L.segmentHeader)).take L.appDesc, by
    rw [Layout.headers] at h
    rw [List.length_take, List.length_drop]
    omega⟩

def sameAsInvalid (newInfo : AppDesc L) : Bool :=
  match env.lastInvalid with
  | some d => d.info.version == newInfo.version
  | none => false

/-- The check made on the first chunk, up to `esp_ota_begin`. -/
def checkImageHeader (s : Task) (data : List UInt8) : Except Stopped Task :=
  if h : L.headers < data.length then
    if sameAsInvalid env (newAppInfo data h) then .error (taskFatalError (httpCleanup s))
    else if (newAppInfo data h).version = env.running.info.version then
      .error (taskFatalError (httpCleanup s))
    else
      let s := { s with imageHeaderWasChecked := true }
      match env.otaBegin s.log with
      | some handle =>
        .ok { s.call (.otaBegin updatePartition (some handle)) with updateHandle := handle }
      | none => .error (taskFatalError (httpCleanup (s.call (.otaBegin updatePartition none))))
  else .error (taskFatalError (httpCleanup s))

/-- The length written is only logged, so it wraps. -/
def writeChunk (s : Task) (data : List UInt8) : Except Stopped Task :=
  let ok := env.otaWrite s.log s.updateHandle data
  let s := s.call (.otaWrite s.updateHandle data ok)
  if ok then .ok { s with binaryFileLength := s.binaryFileLength + Int32.ofNat data.length }
  else .error (taskFatalError (httpCleanup s))

def receive (s : Task) (data : List UInt8) : Except Stopped Task :=
  if s.imageHeaderWasChecked then writeChunk env s data
  else (checkImageHeader env updatePartition s data).bind (fun s => writeChunk env s data)

/-- The `while (1)` loop; it is left by `break` when a read returns 0. -/
def download : List ReadResult → Task → Except Stopped Task
  | [], s => .error ⟨.running, s⟩
  | .failed :: _, s => .error (taskFatalError (httpCleanup (s.call (.httpRead .failed))))
  | .data chunk :: rest, s =>
    let s := s.call (.httpRead (.data chunk))
    if chunk.bytes = [] then .ok s
    else (receive env updatePartition s chunk.bytes).bind (download rest)

def finishUpdate (s : Task) : Stopped :=
  let ok := env.otaEnd s.log s.updateHandle
  let s := s.call (.otaEnd s.updateHandle ok)
  if ok then
    let ok := env.setBoot s.log
    let s := s.call (.setBootPartition updatePartition ok)
    if ok then espRestart s else taskFatalError (httpCleanup s)
  else espRestart (httpCleanup s)

end Body

/-- `CONFIG_FIRMWARE_UPG_URL`. -/
def exampleServerUrl : CString := CString.ofString "https://192.168.1.2:8070/wifi_sniffer.bin"

def otaExampleTask {L : Layout} (env : Env L) (pvParameter : Option CString)
    (reads : List ReadResult) : Stopped :=
  match CharArray.sprintf 100 (pvParameter.getD exampleServerUrl) with
  | .error f => ⟨.fault f, .start⟩
  | .ok ipAddress =>
    if !env.ethGotIp then ⟨.running, .start⟩
    else
      let s := Task.start.call (.httpInit ipAddress.str env.httpInit)
      if !env.httpInit then taskFatalError s
      else
        let s := s.call (.httpOpen env.httpOpen)
        if !env.httpOpen then taskFatalError (s.call .httpCleanup)
        else
          let s := s.call .fetchHeaders
          match env.updatePartition with
          | none => ⟨.crashed, s⟩
          | some partition =>
            match download env partition reads s with
            | .error stopped => stopped
            | .ok s => finishUpdate env partition s

section Specs

variable {L : Layout} {env : Env L} {p : Partition} {s s' : Task} {data : List UInt8}
  {st : Stopped}

theorem checkImageHeader_eq_ok (h : checkImageHeader env p s data = .ok s') :
    L.headers < data.length ∧ ∃ handle,
      s' = ⟨handle, s.binaryFileLength, true, s.log ++ [.otaBegin p (some handle)]⟩ := by
  unfold checkImageHeader at h
  split_ifs at h with hlen
  dsimp only at h
  split at h
  · exact ⟨hlen, _, (Except.ok.inj h).symm⟩
  · cases h

theorem checkImageHeader_eq_error (h : checkImageHeader env p s data = .error st) :
    st = taskFatalError (httpCleanup s) ∨
      ∃ t, t.log = s.log ++ [.otaBegin p none] ∧ st = taskFatalError (httpCleanup t) := by
  unfold checkImageHeader at h
  split_ifs at h
  · exact Or.inl (Except.error.inj h).symm
  · exact Or.inl (Except.error.inj h).symm
  · dsimp only at h
    split at h
    · cases h
    · exact Or.inr ⟨_, rfl, (Except.error.inj h).symm⟩
  · exact Or.inl (Except.error.inj h).symm

theorem writeChunk_eq_ok (h : writeChunk env s data = .ok s') :
    s' = ⟨s.updateHandle, s.binaryFileLength + Int32.ofNat data.length, s.imageHeaderWasChecked,
      s.log ++ [.otaWrite s.updateHandle data true]⟩ := by
  unfold writeChunk at h
  cases hok : env.otaWrite s.log s.updateHandle data with
  | true =>
      rw [hok] at h
      exact (Except.ok.inj h).symm
  | false =>
      rw [hok] at h
      cases h

theorem writeChunk_eq_error (h : writeChunk env s data = .error st) :
    st = taskFatalError (httpCleanup (s.call (.otaWrite s.updateHandle data false))) := by
  unfold writeChunk at h
  cases hok : env.otaWrite s.log s.updateHandle data with
  | true =>
      rw [hok] at h
      cases h
  | false =>
      rw [hok] at h
      exact (Except.error.inj h).symm

theorem checkImageHeader_of_new (hlen : L.headers < data.length)
    (hinvalid : sameAsInvalid env (newAppInfo data hlen) = false)
    (hrunning : (newAppInfo data hlen).version ≠ env.running.info.version) {handle : Handle}
    (hbegin : env.otaBegin s.log = some handle) : checkImageHeader env p s data =
      .ok ⟨handle, s.binaryFileLength, true, s.log ++ [.otaBegin p (some handle)]⟩ := by
  rw [checkImageHeader, dif_pos hlen, if_neg (by simp [hinvalid]), if_neg hrunning]
  dsimp only
  rw [hbegin]
  rfl

theorem writeChunk_of_ok (hok : env.otaWrite s.log s.updateHandle data = true) :
    writeChunk env s data =
      .ok ⟨s.updateHandle, s.binaryFileLength + Int32.ofNat data.length, s.imageHeaderWasChecked,
        s.log ++ [.otaWrite s.updateHandle data true]⟩ := by
  rw [writeChunk, hok]
  rfl

theorem otaWrite_of_ok (h : writeChunk env s data = .ok s') :
    env.otaWrite s.log s.updateHandle data = true := by
  by_contra hno
  rw [Bool.not_eq_true] at hno
  rw [writeChunk, hno] at h
  cases h

theorem otaWrite_of_error (h : writeChunk env s data = .error st) :
    env.otaWrite s.log s.updateHandle data = false := by
  by_contra hyes
  rw [Bool.not_eq_false] at hyes
  rw [writeChunk_of_ok hyes] at h
  cases h

/-- Data taken over: with the first chunk a handle comes from `esp_ota_begin`. -/
theorem receive_eq_ok (h : receive env p s data = .ok s') :
    ∃ handle begins, s' = ⟨handle, s.binaryFileLength + Int32.ofNat data.length, true,
        s.log ++ begins ++ [.otaWrite handle data true]⟩ ∧
      (s.imageHeaderWasChecked = true ∧ handle = s.updateHandle ∧ begins = [] ∨
        s.imageHeaderWasChecked = false ∧ L.headers < data.length ∧
          begins = [.otaBegin p (some handle)]) := by
  unfold receive at h
  cases hchecked : s.imageHeaderWasChecked with
  | true =>
      rw [hchecked, if_pos rfl] at h
      have hwrite := writeChunk_eq_ok h
      rw [hchecked] at hwrite
      exact ⟨s.updateHandle, [], by simpa using hwrite, Or.inl ⟨rfl, rfl, rfl⟩⟩
  | false =>
      rw [hchecked, if_neg Bool.false_ne_true] at h
      obtain ⟨t, hcheck, hwrite⟩ := bind_eq_ok.mp h
      obtain ⟨hlen, handle, rfl⟩ := checkImageHeader_eq_ok hcheck
      exact ⟨handle, [.otaBegin p (some handle)], writeChunk_eq_ok hwrite,
        Or.inr ⟨rfl, hlen, rfl⟩⟩

/-- Data refused: the task ends, and what it has called since is one of four things. -/
theorem receive_eq_error (h : receive env p s data = .error st) :
    ∃ t calls, st = taskFatalError (httpCleanup t) ∧ t.log = s.log ++ calls ∧
      (calls = [] ∨ calls = [.otaBegin p none] ∨
        (∃ handle, calls = [.otaBegin p (some handle), .otaWrite handle data false]) ∨
        calls = [.otaWrite s.updateHandle data false]) := by
  unfold receive at h
  cases hchecked : s.imageHeaderWasChecked with
  | true =>
      rw [hchecked, if_pos rfl] at h
      exact ⟨_, _, writeChunk_eq_error h, rfl, Or.inr (Or.inr (Or.inr rfl))⟩
  | false =>
      rw [hchecked, if_neg Bool.false_ne_true] at h
      rcases bind_eq_error.mp h with hcheck | ⟨t, hcheck, hwrite⟩
      · rcases checkImageHeader_eq_error hcheck with rfl | ⟨t, hlog, rfl⟩
        · exact ⟨s, [], rfl, (List.append_nil _).symm, Or.inl rfl⟩
        · exact ⟨t, _, rfl, hlog, Or.inr (Or.inl rfl)⟩
      · obtain ⟨_, handle, rfl⟩ := checkImageHeader_eq_ok hcheck
        refine ⟨_, [.otaBegin p (some handle), .otaWrite handle data false],
          writeChunk_eq_error hwrite, ?_, Or.inr (Or.inr (Or.inl ⟨handle, rfl⟩))⟩
        simp [Task.call]

theorem finishUpdate_of_end_failed (h : env.otaEnd s.log s.updateHandle = false) :
    finishUpdate env p s = espRestart (httpCleanup (s.call (.otaEnd s.updateHandle false))) := by
  simp [finishUpdate, h]

theorem finishUpdate_of_end (h : env.otaEnd s.log s.updateHandle = true) :
    ∃ ok tail, (finishUpdate env p s).task = ⟨s.updateHandle, s.binaryFileLength,
        s.imageHeaderWasChecked,
        s.log ++ [.otaEnd s.updateHandle true, .setBootPartition p ok] ++ tail⟩ ∧
      (tail = [.restart] ∨ tail = [.httpClose, .httpCleanup, .getSettings, .taskDelete]) := by
  cases hok : env.setBoot (s.log ++ [.otaEnd s.updateHandle true]) with
  | true =>
      refine ⟨true, [.restart], ?_, Or.inl rfl⟩
      simp [finishUpdate, h, Task.call, hok, espRestart]
  | false =>
      refine ⟨false, _, ?_, Or.inr rfl⟩
      simp [finishUpdate, h, Task.call, hok, taskFatalError, httpCleanup]

end Specs
end SnifferStaSend.Ota
