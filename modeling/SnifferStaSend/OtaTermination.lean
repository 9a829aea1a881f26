import SnifferStaSend.OtaChunking

/-!
# The download comes to an end

The loop has no bound of its own. What bounds it is that `esp_ota_write` fails when the update
partition is full: a turn that does not leave the loop has written at least one byte.
-/

namespace SnifferStaSend.OtaTermination
open CLib Ota OtaBootSwitch OtaRun OtaChunking

section Accounting

def Call.acceptedOn (handle : Handle) : Call → List UInt8
  | .otaWrite h data true => if h = handle then data else []
  | _ => []

def writtenOn (handle : Handle) (log : List Call) : List UInt8 :=
  log.flatMap (Call.acceptedOn handle)

variable {handle : Handle} {p : Partition}

theorem writtenOn_otaCalls (handle : Handle) (log : List Call) :
    writtenOn handle (otaCalls log) = writtenOn handle log := by
  induction log with
  | nil => rfl
  | cons c log ih =>
      rw [writtenOn, writtenOn, List.flatMap_cons, ← writtenOn, ← writtenOn, ← ih, otaCalls,
        List.filter_cons]
      cases c <;> rfl

theorem writtenOn_transfer (chunks : List (List UInt8)) :
    writtenOn handle (transfer p handle chunks) = chunks.flatten := by
  have hbegin : Call.acceptedOn handle (.otaBegin p (some handle)) = [] := rfl
  have hwrite (data : List UInt8) : Call.acceptedOn handle (.otaWrite handle data true) = data :=
    if_pos rfl
  rw [transfer, writtenOn, List.flatMap_cons, hbegin, List.nil_append, List.flatMap_map]
  simp only [hwrite, List.flatMap_id']

end Accounting

variable {L : Layout}

/-- A write fails when the bytes on its handle would exceed the partition. -/
def FailsBeyond (env : Env L) (size : ℕ) : Prop :=
  ∀ log handle data, size < (writtenOn handle log).length + data.length →
    env.otaWrite log handle data = false

/-- What the download does with any server: it reads data at most `size + 1` times, it is over
after as many reads, and until then every read of data fails or adds to what is written. -/
structure Ends (env : Env L) (pvParameter : Option CString) (size : ℕ) : Prop where
  bounded : ∀ reads, (received (otaExampleTask env pvParameter reads).task.log).length ≤ size + 1
  left : env.ethGotIp = true → ∀ server : ℕ → ReadResult, ∃ n ≤ size + 1,
    (otaExampleTask env pvParameter ((List.range n).map server)).outcome ≠ .running
  progress : env.ethGotIp = true → ∀ reads chunk, Chunk.bytes chunk ≠ [] →
    (otaExampleTask env pvParameter reads).outcome = .running →
    (otaExampleTask env pvParameter (reads ++ [.data chunk])).outcome = .deleted ∨
      (otaExampleTask env pvParameter (reads ++ [.data chunk])).outcome = .running ∧
        written (otaExampleTask env pvParameter (reads ++ [.data chunk])).task.log =
          written (otaExampleTask env pvParameter reads).task.log ++ chunk.bytes

section Room

variable {env : Env L} {p : Partition} {url : CString} {size : ℕ} {s s' : Task}
  {chunks : List (List UInt8)}

structure Fit (size : ℕ) (chunks : List (List UInt8)) : Prop where
  nonempty : ∀ c ∈ chunks, c ≠ []
  room : chunks.flatten.length ≤ size

theorem length_le_flatten (h : ∀ c ∈ chunks, c ≠ []) : chunks.length ≤ chunks.flatten.length := by
  induction chunks with
  | nil => exact le_rfl
  | cons c chunks ih =>
      have hpos := List.length_pos_of_ne_nil (h c List.mem_cons_self)
      have hrest := ih (fun d hd => h d (List.mem_cons_of_mem c hd))
      rw [List.length_cons, List.flatten_cons, List.length_append]
      omega

theorem Fit.length_le (h : Fit size chunks) : chunks.length ≤ size :=
  (length_le_flatten h.nonempty).trans h.room

theorem otaWrite_of_receive {data : List UInt8} (h : Ota.receive env p s data = .ok s') :
    ∃ log, s'.log = log ++ [.otaWrite s'.updateHandle data true] ∧
      env.otaWrite log s'.updateHandle data = true := by
  have haccepted {t : Task} (hwrite : writeChunk env t data = .ok s') :
      ∃ log, s'.log = log ++ [.otaWrite s'.updateHandle data true] ∧
        env.otaWrite log s'.updateHandle data = true := by
    have hok := otaWrite_of_ok hwrite
    obtain rfl := writeChunk_eq_ok hwrite
    exact ⟨t.log, rfl, hok⟩
  unfold Ota.receive at h
  split_ifs at h with hchecked
  · exact haccepted h
  · obtain ⟨t, -, hwrite⟩ := bind_eq_ok.mp h
    exact haccepted hwrite

theorem Fit.receive {chunk : Chunk} (hfull : FailsBeyond env size)
    (hloop : Downloading L p url chunks s) (hfit : Fit size chunks) (hne : chunk.bytes ≠ [])
    (hok : Ota.receive env p (s.call (.httpRead (.data chunk))) chunk.bytes = .ok s') :
    Fit size (chunks ++ [chunk.bytes]) := by
  have hnext := hloop.receive hne hok
  obtain ⟨log, hlog, hwrite⟩ := otaWrite_of_receive hok
  have hcalls : otaCalls log = transfer p s'.updateHandle chunks := by
    have hall := hnext.calls
    rw [hlog, otaCalls_append, if_neg (by simp), transfer, List.map_append] at hall
    exact List.append_cancel_right hall
  have hwritten : writtenOn s'.updateHandle log = chunks.flatten := by
    rw [← writtenOn_otaCalls, hcalls, writtenOn_transfer]
  constructor
  · intro c hc
    rcases List.mem_append.mp hc with hold | hnew
    · exact hfit.nonempty c hold
    · exact List.mem_singleton.mp hnew ▸ hne
  · by_contra! hmore
    rw [List.flatten_append, List.flatten_singleton, List.length_append, ← hwritten] at hmore
    rw [hfull log _ _ hmore] at hwrite
    cases hwrite

theorem fit_nil (size : ℕ) : Fit size [] := ⟨by simp, by simp⟩

theorem download_fits (p : Partition) (url : CString) (hfull : FailsBeyond env size)
    (reads : List ReadResult) :
    ∃ chunks s', Downloading L p url chunks s' ∧ Fit size chunks ∧
      (download env p reads (opened url) = .ok s' ∨
        download env p reads (opened url) = .error ⟨.running, s'⟩ ∧
          chunks.length = reads.length ∨
        ∃ t calls, t.log = s'.log ++ calls ∧ Refused p s' calls ∧
          download env p reads (opened url) = .error (taskFatalError (httpCleanup t))) := by
  obtain ⟨chunks, s', h, hfit, hcase⟩ := download_cases_of (Fit size) env
    (fun _ _ _ _ hloop hfit hne hok => hfit.receive hfull hloop hne hok) reads
    (downloading_opened L p url) (fit_nil size)
  rw [List.length_nil, Nat.zero_add] at hcase
  exact ⟨chunks, s', h, hfit, hcase⟩

theorem length_received_refused {calls : List Call} (h : Refused p s calls) :
    (received calls).length ≤ 1 := by
  have hread (chunk : Chunk) {rest : List Call} (hrest : received rest = []) :
      (received (.httpRead (.data chunk) :: rest)).length ≤ 1 := by
    rw [← List.singleton_append, received_append, hrest, List.append_nil]
    exact List.length_filterMap_le _ _
  cases h with
  | readFailed => exact Nat.zero_le 1
  | header chunk _ => exact hread chunk rfl
  | begin chunk _ => exact hread chunk rfl
  | firstWrite chunk handle _ => exact hread chunk rfl
  | write chunk _ => exact hread chunk rfl

end Room

section Task

variable {env : Env L} {p : Partition} {pvParameter : Option CString} {ipAddress : CharArray 100}
  {size : ℕ} {s s' : Task} {reads : List ReadResult}

theorem received_finishUpdate (env : Env L) (p : Partition) (s : Task) :
    received (finishUpdate env p s).task.log = received s.log := by
  have htail (calls : List Call) (hquiet : received calls = []) :
      received (s.log ++ calls) = received s.log := by
    rw [received_append, hquiet, List.append_nil]
  rcases finishUpdate_cases env p s with heq | heq | heq <;> rw [heq]
  · simpa [espRestart, httpCleanup] using
      htail [.otaEnd s.updateHandle false, .httpClose, .httpCleanup, .restart] rfl
  · simpa using htail [.otaEnd s.updateHandle true, .setBootPartition p false, .httpClose,
      .httpCleanup, .getSettings, .taskDelete] rfl
  · simpa [espRestart] using
      htail [.otaEnd s.updateHandle true, .setBootPartition p true, .restart] rfl

theorem outcome_finishUpdate (env : Env L) (p : Partition) (s : Task) :
    (finishUpdate env p s).outcome ≠ .running := by
  rcases finishUpdate_cases env p s with heq | heq | heq <;> rw [heq] <;> nofun

theorem download_append_singleton (read : ReadResult)
    (hwait : download env p reads s = .error ⟨.running, s'⟩) :
    download env p (reads ++ [read]) s = download env p [read] s' := by
  induction reads generalizing s with
  | nil =>
      obtain rfl : s = s' := congrArg Stopped.task (Except.error.inj hwait)
      rfl
  | cons first rest ih =>
      cases first with
      | failed => cases hwait
      | data chunk =>
          rw [download] at hwait
          rw [List.cons_append, download]
          split_ifs at hwait ⊢ with hempty
          rcases bind_eq_error.mp hwait with hstop | ⟨t, hok, hrest⟩
          · obtain ⟨t, calls, hstopped, -⟩ := receive_eq_error hstop
            cases hstopped
          · rw [hok]
            exact ih hrest

theorem Connects.waits (h : Connects env pvParameter ipAddress p)
    (hwait : (otaExampleTask env pvParameter reads).outcome = .running) :
    download env p reads (opened ipAddress.str) =
      .error (otaExampleTask env pvParameter reads) := by
  cases hdownload : download env p reads (opened ipAddress.str) with
  | ok s' =>
      rw [h.of_ok hdownload] at hwait
      exact absurd hwait (outcome_finishUpdate env p s')
  | error st => rw [h.of_error hdownload]

theorem Connects.bounded (h : Connects env pvParameter ipAddress p) (hfull : FailsBeyond env size)
    (reads : List ReadResult) :
    (received (otaExampleTask env pvParameter reads).task.log).length ≤ size + 1 := by
  obtain ⟨chunks, s', hloop, hfit, hok | ⟨hwait, -⟩ | ⟨t, calls, hlog, hcalls, hstop⟩⟩ :=
    download_fits p ipAddress.str hfull reads
  · rw [h.of_ok hok, received_finishUpdate, hloop.received]
    exact hfit.length_le.trans (Nat.le_succ size)
  · rw [h.of_error hwait, hloop.received]
    exact hfit.length_le.trans (Nat.le_succ size)
  · have hend : received [.httpClose, .httpCleanup, .getSettings, .taskDelete] = [] := rfl
    have hlast := length_received_refused hcalls
    rw [h.of_error hstop, log_cleanedUp, hlog, received_append, received_append, hloop.received,
      hend, List.append_nil, List.length_append]
    exact Nat.add_le_add hfit.length_le hlast

theorem Connects.left (h : Connects env pvParameter ipAddress p) (hfull : FailsBeyond env size)
    (hmore : size < reads.length) : (otaExampleTask env pvParameter reads).outcome ≠ .running := by
  obtain ⟨chunks, s', -, hfit, hok | ⟨-, hlength⟩ | ⟨t, calls, -, -, hstop⟩⟩ :=
    download_fits p ipAddress.str hfull reads
  · rw [h.of_ok hok]
    exact outcome_finishUpdate env p s'
  · have hle := hfit.length_le
    omega
  · rw [h.of_error hstop]
    nofun

/-- A read of data either ends the task or adds the data to what is written. -/
theorem Connects.progress (h : Connects env pvParameter ipAddress p) {chunk : Chunk}
    (hne : chunk.bytes ≠ [])
    (hwait : (otaExampleTask env pvParameter reads).outcome = .running) :
    (otaExampleTask env pvParameter (reads ++ [.data chunk])).outcome = .deleted ∨
      (otaExampleTask env pvParameter (reads ++ [.data chunk])).outcome = .running ∧
        written (otaExampleTask env pvParameter (reads ++ [.data chunk])).task.log =
          written (otaExampleTask env pvParameter reads).task.log ++ chunk.bytes := by
  have hloop := Connects.waits h hwait
  generalize otaExampleTask env pvParameter reads = st at hwait hloop ⊢
  obtain ⟨outcome, s⟩ := st
  obtain rfl : outcome = .running := hwait
  have hnext := download_append_singleton (.data chunk) hloop
  rw [download, if_neg hne] at hnext
  cases hreceive : Ota.receive env p (s.call (.httpRead (.data chunk))) chunk.bytes with
  | error st =>
      obtain ⟨t, calls, rfl, -⟩ := receive_eq_error hreceive
      rw [hreceive] at hnext
      rw [h.of_error hnext]
      exact Or.inl rfl
  | ok t =>
      obtain ⟨handle, begins, rfl, hbegins⟩ := receive_eq_ok hreceive
      have hquiet : written begins = [] := by
        rcases hbegins with ⟨_, _, rfl⟩ | ⟨_, _, rfl⟩ <;> rfl
      have hread : written [.httpRead (.data chunk)] = [] := rfl
      have hwrite : written [.otaWrite handle chunk.bytes true] = chunk.bytes :=
        List.append_nil chunk.bytes
      rw [hreceive] at hnext
      rw [h.of_error hnext]
      apply Or.inr
      apply And.intro rfl
      rw [written_append, written_append, log_call, written_append, hquiet, hread, hwrite,
        List.append_nil, List.append_nil]

end Task

/-- With any server the loop is left after at most `size + 1` reads of data. -/
theorem download_ends (env : Env L) (pvParameter : Option CString) (size : ℕ)
    (hfull : FailsBeyond env size) : Ends env pvParameter size := by
  rcases connects_or_constant env pvParameter with ⟨ipAddress, p, h⟩ | ⟨st, hst, hconstant⟩
  · constructor
    · exact Connects.bounded h hfull
    · intro _ server
      exact ⟨size + 1, le_rfl, Connects.left h hfull (by simp)⟩
    · intro _ reads chunk hne hwait
      exact Connects.progress h hne hwait
  · have hended (hgot : env.ethGotIp = true) : st.outcome ≠ .running := by
      intro hwait
      exact Bool.false_ne_true ((hst.waits hwait).symm.trans hgot)
    constructor
    · intro reads
      rw [hconstant, hst.unread]
      exact Nat.zero_le _
    · intro hgot server
      exact ⟨0, Nat.zero_le _, by simpa only [hconstant] using hended hgot⟩
    · intro hgot reads chunk _ hwait
      rw [hconstant] at hwait
      exact absurd hwait (hended hgot)

def small : Env Layout.esp32 :=
  { obliging with
    otaWrite := fun log handle data =>
      decide ((writtenOn handle log).length + data.length ≤ 1000) }

theorem ends_small : Ends small none 1000 :=
  download_ends small none 1000 (fun _ _ _ h => decide_eq_false (Nat.not_le.mpr h))

end SnifferStaSend.OtaTermination
