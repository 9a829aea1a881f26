import SnifferStaSend.OtaRun

/-!
# The version check of the OTA task

`esp_ota_begin` is to be called for a version that neither the running image nor the last
invalid one has, as far as their descriptors could be read. The two comparisons do not look at
the results of the reads, so a descriptor left on the stack takes part in them.
-/

namespace SnifferStaSend.OtaVersionGate
open CLib Ota OtaBootSwitch OtaRun

variable {L : Layout}

/-- No descriptor that was read shows the version `v`. -/
def Admitted (env : Env L) (v : List UInt8) : Prop :=
  (env.running.ok = true → env.running.info.version ≠ v) ∧
    ∀ d, env.lastInvalid = some d → d.ok = true → d.info.version ≠ v

/-- No descriptor that could not be read happens to show `v` either. -/
def StackDiffers (env : Env L) (v : List UInt8) : Prop :=
  (env.running.ok = false → env.running.info.version ≠ v) ∧
    ∀ d, env.lastInvalid = some d → d.ok = false → d.info.version ≠ v

def BeginCalled (log : List Call) : Prop := ∃ p result, .otaBegin p result ∈ log

theorem sameAsInvalid_eq_false {env : Env L} {newInfo : AppDesc L} :
    sameAsInvalid env newInfo = false ↔
      ∀ d, env.lastInvalid = some d → d.info.version ≠ newInfo.version := by
  unfold sameAsInvalid
  cases env.lastInvalid with
  | none => simp
  | some d => simp

/-- The two comparisons that the code makes. -/
theorem admitted_and_stackDiffers {env : Env L} {newInfo : AppDesc L} :
    Admitted env newInfo.version ∧ StackDiffers env newInfo.version ↔
      sameAsInvalid env newInfo = false ∧ newInfo.version ≠ env.running.info.version := by
  rw [sameAsInvalid_eq_false]
  constructor
  · rintro ⟨⟨hrunning, hinvalid⟩, hrunning', hinvalid'⟩
    constructor
    · intro d hd
      cases hok : d.ok with
      | true => exact hinvalid d hd hok
      | false => exact hinvalid' d hd hok
    · cases hok : env.running.ok with
      | true => exact (hrunning hok).symm
      | false => exact (hrunning' hok).symm
  · rintro ⟨hinvalid, hrunning⟩
    exact ⟨⟨fun _ => hrunning.symm, fun d hd _ => hinvalid d hd⟩,
      fun _ => hrunning.symm, fun d hd _ => hinvalid d hd⟩

section Gate

variable {env : Env L} {p : Partition} {s : Task} {c : Chunk} {rest : List ReadResult}

theorem receive_of_refused (hlen : L.headers < c.bytes.length)
    (hunchecked : s.imageHeaderWasChecked = false)
    (hno : ¬ (sameAsInvalid env (newAppInfo c.bytes hlen) = false ∧
      (newAppInfo c.bytes hlen).version ≠ env.running.info.version)) :
    receive env p s c.bytes = .error (taskFatalError (httpCleanup s)) := by
  have hcheck : checkImageHeader env p s c.bytes = .error (taskFatalError (httpCleanup s)) := by
    rw [checkImageHeader, dif_pos hlen]
    cases hsame : sameAsInvalid env (newAppInfo c.bytes hlen) with
    | true => rfl
    | false =>
        have heq : (newAppInfo c.bytes hlen).version = env.running.info.version := by
          by_contra hne
          exact hno ⟨hsame, hne⟩
        rw [if_neg Bool.false_ne_true, if_pos heq]
  rw [receive, if_neg (by simp [hunchecked]), hcheck]
  rfl

theorem checkImageHeader_of_begin_failed {data : List UInt8} (hlen : L.headers < data.length)
    (hinvalid : sameAsInvalid env (newAppInfo data hlen) = false)
    (hrunning : (newAppInfo data hlen).version ≠ env.running.info.version)
    (hbegin : env.otaBegin s.log = none) : checkImageHeader env p s data =
      .error (taskFatalError (httpCleanup
        (Task.call { s with imageHeaderWasChecked := true } (.otaBegin p none)))) := by
  rw [checkImageHeader, dif_pos hlen, if_neg (by simp [hinvalid]), if_neg hrunning]
  dsimp only
  rw [hbegin]

theorem receive_of_admitted (hlen : L.headers < c.bytes.length)
    (hunchecked : s.imageHeaderWasChecked = false)
    (hinvalid : sameAsInvalid env (newAppInfo c.bytes hlen) = false)
    (hrunning : (newAppInfo c.bytes hlen).version ≠ env.running.info.version) :
    (∃ t handle, receive env p s c.bytes = .ok t ∧ .otaBegin p (some handle) ∈ t.log) ∨
      ∃ st result, receive env p s c.bytes = .error st ∧ .otaBegin p result ∈ st.task.log := by
  have hreceive : receive env p s c.bytes =
      (checkImageHeader env p s c.bytes).bind (fun s => writeChunk env s c.bytes) :=
    if_neg (by simp [hunchecked])
  rw [hreceive]
  cases hbegin : env.otaBegin s.log with
  | none =>
      have hcheck := checkImageHeader_of_begin_failed (p := p) hlen hinvalid hrunning hbegin
      rw [hcheck]
      exact Or.inr ⟨_, none, rfl, by simp⟩
  | some handle =>
      rw [checkImageHeader_of_new hlen hinvalid hrunning hbegin]
      cases hwrite : writeChunk env ⟨handle, s.binaryFileLength, true,
          s.log ++ [.otaBegin p (some handle)]⟩ c.bytes with
      | ok t =>
          obtain rfl := writeChunk_eq_ok hwrite
          exact Or.inl ⟨_, handle, hwrite, by simp⟩
      | error st =>
          obtain rfl := writeChunk_eq_error hwrite
          exact Or.inr ⟨_, some handle, hwrite, by simp⟩

variable {pvParameter : Option CString} {ipAddress : CharArray 100}

theorem beginCalled_iff (h : Connects env pvParameter ipAddress p)
    (hlen : L.headers < c.bytes.length) :
    BeginCalled (otaExampleTask env pvParameter (.data c :: rest)).task.log ↔
      Admitted env (newAppInfo c.bytes hlen).version ∧
        StackDiffers env (newAppInfo c.bytes hlen).version := by
  have hne : c.bytes ≠ [] := List.ne_nil_of_length_pos (by omega)
  have hdownload : download env p (.data c :: rest) (opened ipAddress.str) =
      (receive env p ((opened ipAddress.str).call (.httpRead (.data c))) c.bytes).bind
        (download env p rest) := by
    rw [download, if_neg hne]
  rw [admitted_and_stackDiffers]
  constructor
  · rintro ⟨q, result, hmem⟩
    by_contra hno
    rw [receive_of_refused hlen rfl hno] at hdownload
    rw [h.of_error hdownload] at hmem
    simp [opened] at hmem
  · rintro ⟨hinvalid, hrunning⟩
    rcases receive_of_admitted (p := p)
        (s := (opened ipAddress.str).call (.httpRead (.data c))) hlen rfl hinvalid hrunning with
      ⟨t, handle, hok, hmem⟩ | ⟨st, result, herror, hmem⟩
    · rw [hok] at hdownload
      exact ⟨p, some handle, (h.prefix_log hdownload).subset hmem⟩
    · rw [herror] at hdownload
      rw [h.of_error hdownload]
      exact ⟨p, result, hmem⟩

end Gate

/-- On the first chunk the task does what the descriptors that were read call for, exactly
unless it is one that was not read that refuses the version. -/
theorem versionGate_iff (env : Env L) (pvParameter : Option CString) (ipAddress : CharArray 100)
    (p : Partition) (c : Chunk) (rest : List ReadResult)
    (h : Connects env pvParameter ipAddress p) (hlen : L.headers < c.bytes.length) :
    (BeginCalled (otaExampleTask env pvParameter (.data c :: rest)).task.log ↔
        Admitted env (newAppInfo c.bytes hlen).version) ↔
      (Admitted env (newAppInfo c.bytes hlen).version →
        StackDiffers env (newAppInfo c.bytes hlen).version) := by
  rw [beginCalled_iff h hlen]
  exact and_iff_left_iff_imp

theorem beginCalled_obliging : BeginCalled
    (otaExampleTask obliging none [.data (zeros 300 (by decide)), closed]).task.log :=
  ((versionGate_iff obliging none _ ota0 (zeros 300 (by decide)) [closed] connects_obliging
    (by decide +kernel)).mpr (fun _ => ⟨by decide, by simp [obliging]⟩)).mpr
      ⟨fun _ => by decide +kernel, by simp [obliging]⟩

/-- Libraries that cannot read the running image, over a stack that is zero. -/
def unread : Env Layout.esp32 := { obliging with running := ⟨false, Buf.fill 256 0⟩ }

/-- Version zero is refused, although no descriptor was read. -/
theorem not_versionGate :
    Admitted unread (newAppInfo (L := Layout.esp32) (zeros 300 (by decide)).bytes
        (by decide +kernel)).version ∧
      ¬ BeginCalled (otaExampleTask unread none [.data (zeros 300 (by decide)), closed]).task.log := by
  have hconnects : Connects unread none ⟨exampleServerUrl, by decide⟩ ota0 :=
    ⟨connects_obliging.url, rfl, rfl, rfl, rfl⟩
  constructor
  · exact ⟨by simp [unread], by simp [unread, obliging]⟩
  · intro hbegin
    have hdiffers := (beginCalled_iff hconnects (by decide +kernel)).mp hbegin
    exact hdiffers.2.1 rfl (by decide +kernel)

end SnifferStaSend.OtaVersionGate
