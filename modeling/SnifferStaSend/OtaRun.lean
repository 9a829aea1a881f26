import SnifferStaSend.OtaBootSwitch

/-!
# The runs of the OTA task

Every run is of one of eight kinds, by the point where it stops. Those that reach the loop have
opened the client and made only successful calls there, but for the one call that ends the
loop in an error.
-/

namespace SnifferStaSend.OtaRun
open CLib Ota OtaBootSwitch

/-- The task when the server has been reached. -/
def opened (url : CString) : Task :=
  ⟨0, 0, false, [.httpInit url true, .httpOpen true, .fetchHeaders]⟩

/-- The calls of a turn of the loop that goes on to the next one. -/
def Call.inLoop : Call → Bool
  | .httpRead (.data _) | .otaBegin _ (some _) | .otaWrite _ _ true => true
  | _ => false

/-- The loop after it has received `chunks`. -/
structure Downloading (L : Layout) (p : Partition) (url : CString) (chunks : List (List UInt8))
    (s : Task) : Prop extends Progress L p chunks s where
  loop : ∃ calls, s.log = (opened url).log ++ calls ∧ ∀ c ∈ calls, Call.inLoop c = true

/-- What the last turn calls when it does not go on. -/
inductive Refused (p : Partition) (s : Task) : List Call → Prop
  | readFailed : Refused p s [.httpRead .failed]
  | header (chunk : Chunk) (h : s.imageHeaderWasChecked = false) :
      Refused p s [.httpRead (.data chunk)]
  | begin (chunk : Chunk) (h : s.imageHeaderWasChecked = false) :
      Refused p s [.httpRead (.data chunk), .otaBegin p none]
  | firstWrite (chunk : Chunk) (handle : Handle) (h : s.imageHeaderWasChecked = false) :
      Refused p s [.httpRead (.data chunk), .otaBegin p (some handle),
        .otaWrite handle chunk.bytes false]
  | write (chunk : Chunk) (h : s.imageHeaderWasChecked = true) :
      Refused p s [.httpRead (.data chunk), .otaWrite s.updateHandle chunk.bytes false]

inductive Run {L : Layout} (env : Env L) : Stopped → Prop
  | fault (f : Fault) : Run env ⟨.fault f, .start⟩
  | noAddress : Run env ⟨.running, .start⟩
  | noClient (url : CString) : Run env (taskFatalError (Task.start.call (.httpInit url false)))
  | notOpened (url : CString) :
      Run env (taskFatalError
        (((Task.start.call (.httpInit url true)).call (.httpOpen false)).call .httpCleanup))
  | noPartition (url : CString) : Run env ⟨.crashed, opened url⟩
  | reading {p : Partition} {url : CString} {chunks : List (List UInt8)} {s : Task}
      (h : Downloading L p url chunks s) : Run env ⟨.running, s⟩
  | refused {p : Partition} {url : CString} {chunks : List (List UInt8)} {s t : Task}
      {calls : List Call} (h : Downloading L p url chunks s) (hlog : t.log = s.log ++ calls)
      (hcalls : Refused p s calls) : Run env (taskFatalError (httpCleanup t))
  | finished {p : Partition} {url : CString} {chunks : List (List UInt8)} {s : Task}
      (h : Downloading L p url chunks s) : Run env (finishUpdate env p s)

section Loop

variable {L : Layout} {env : Env L} {p : Partition} {url : CString} {s s' : Task} {st : Stopped}
  {chunks : List (List UInt8)}

theorem downloading_opened (L : Layout) (p : Partition) (url : CString) :
    Downloading L p url [] (opened url) where
  received := rfl
  first := by simp
  checked := by simp [opened]
  calls := rfl
  length := rfl
  loop := ⟨[], (List.append_nil _).symm, by simp⟩

theorem Downloading.forall_log {P : Call → Prop} (h : Downloading L p url chunks s)
    (hopened : ∀ c ∈ (opened url).log, P c) (hloop : ∀ c, Call.inLoop c = true → P c) :
    ∀ c ∈ s.log, P c := by
  obtain ⟨calls, hlog, hcalls⟩ := h.loop
  intro c hc
  rw [hlog] at hc
  exact (List.mem_append.mp hc).elim (hopened c) (fun hin => hloop c (hcalls c hin))

theorem Downloading.extend {calls : List Call} (h : Downloading L p url chunks s)
    {log : List Call} (hlog : log = s.log ++ calls) (hcalls : ∀ c ∈ calls, Call.inLoop c = true) :
    ∃ calls', log = (opened url).log ++ calls' ∧ ∀ c ∈ calls', Call.inLoop c = true := by
  obtain ⟨before, hbefore, hloop⟩ := h.loop
  refine ⟨before ++ calls, ?_, ?_⟩
  · rw [hlog, hbefore, List.append_assoc]
  · intro c hc
    exact (List.mem_append.mp hc).elim (hloop c) (hcalls c)

theorem Downloading.receive {chunk : Chunk} (h : Downloading L p url chunks s)
    (hne : chunk.bytes ≠ [])
    (hok : Ota.receive env p (s.call (.httpRead (.data chunk))) chunk.bytes = .ok s') :
    Downloading L p url (chunks ++ [chunk.bytes]) s' where
  toProgress := h.toProgress.receive hne hok
  loop := by
    obtain ⟨handle, begins, rfl, hcase⟩ := receive_eq_ok hok
    have hlog : s.log ++ [.httpRead (.data chunk)] ++ begins ++
        [.otaWrite handle chunk.bytes true] =
        s.log ++ ([.httpRead (.data chunk)] ++ begins ++ [.otaWrite handle chunk.bytes true]) := by
      simp only [List.append_assoc]
    refine h.extend hlog ?_
    rcases hcase with ⟨_, _, rfl⟩ | ⟨_, _, rfl⟩ <;> simp [Call.inLoop]

theorem Downloading.close {chunk : Chunk} (h : Downloading L p url chunks s)
    (hempty : chunk.bytes = []) :
    Downloading L p url chunks (s.call (.httpRead (.data chunk))) where
  received := by
    have hquiet : OtaBootSwitch.Call.received? (.httpRead (.data chunk)) = none := if_pos hempty
    rw [Task.call, received_append, h.received, OtaBootSwitch.received,
      List.filterMap_cons_none hquiet]
    exact List.append_nil _
  first := h.first
  checked := h.checked
  calls := by
    rw [Task.call, otaCalls_append, h.calls]
    exact List.append_nil _
  length := h.length
  loop := h.extend rfl (by simp [Call.inLoop])

theorem Downloading.refused {chunk : Chunk}
    (herror : Ota.receive env p (s.call (.httpRead (.data chunk))) chunk.bytes = .error st) :
    ∃ t calls, st = taskFatalError (httpCleanup t) ∧ t.log = s.log ++ calls ∧
      Refused p s calls := by
  rw [Ota.receive, checked_call] at herror
  cases hchecked : s.imageHeaderWasChecked with
  | true =>
      rw [if_pos hchecked] at herror
      refine ⟨_, [.httpRead (.data chunk), .otaWrite s.updateHandle chunk.bytes false],
        writeChunk_eq_error herror, ?_, .write chunk hchecked⟩
      simp [Task.call]
  | false =>
      rw [if_neg (by simp [hchecked])] at herror
      rcases bind_eq_error.mp herror with hcheck | ⟨u, hcheck, hwrite⟩
      · rcases checkImageHeader_eq_error hcheck with rfl | ⟨u, hlog, rfl⟩
        · exact ⟨_, _, rfl, rfl, .header chunk hchecked⟩
        · refine ⟨u, _, rfl, ?_, .begin chunk hchecked⟩
          simp [hlog, Task.call]
      · obtain ⟨_, handle, rfl⟩ := checkImageHeader_eq_ok hcheck
        refine ⟨_, _, writeChunk_eq_error hwrite, ?_, .firstWrite chunk handle hchecked⟩
        simp [Task.call]

/-- The loop ends by `break`, goes on, or has refused its last turn. What a turn keeps of the
chunks received holds then; a loop that goes on has received something with every read. -/
theorem download_cases_of (P : List (List UInt8) → Prop)
    (env : Env L) (hstep : ∀ chunks s chunk s', Downloading L p url chunks s → P chunks →
      chunk.bytes ≠ [] → Ota.receive env p (s.call (.httpRead (.data chunk))) chunk.bytes = .ok s' →
        P (chunks ++ [chunk.bytes]))
    (reads : List ReadResult) (h : Downloading L p url chunks s) (hP : P chunks) :
    ∃ chunks' s', Downloading L p url chunks' s' ∧ P chunks' ∧
      (download env p reads s = .ok s' ∨
        download env p reads s = .error ⟨.running, s'⟩ ∧
          chunks'.length = chunks.length + reads.length ∨
        ∃ t calls, t.log = s'.log ++ calls ∧ Refused p s' calls ∧
          download env p reads s = .error (taskFatalError (httpCleanup t))) := by
  induction reads generalizing s chunks with
  | nil => exact ⟨chunks, s, h, hP, Or.inr (Or.inl ⟨rfl, rfl⟩)⟩
  | cons read rest ih =>
      cases read with
      | failed => exact ⟨chunks, s, h, hP, Or.inr (Or.inr ⟨_, _, rfl, .readFailed, rfl⟩)⟩
      | data chunk =>
          rw [download]
          split_ifs with hempty
          · exact ⟨chunks, _, h.close hempty, hP, Or.inl rfl⟩
          · cases hreceive : Ota.receive env p (s.call (.httpRead (.data chunk))) chunk.bytes with
            | ok t =>
                obtain ⟨chunks', s', h', hP', hcase⟩ :=
                  ih (h.receive hempty hreceive) (hstep chunks s chunk t h hP hempty hreceive)
                refine ⟨chunks', s', h', hP', hcase.imp_right (Or.imp_left ?_)⟩
                rintro ⟨hwait, hlength⟩
                refine ⟨hwait, ?_⟩
                rw [hlength, List.length_append, List.length_singleton, List.length_cons]
                omega
            | error st =>
                obtain ⟨t, calls, rfl, hlog, hcalls⟩ := Downloading.refused hreceive
                exact ⟨chunks, s, h, hP, Or.inr (Or.inr ⟨t, calls, hlog, hcalls, rfl⟩)⟩

theorem download_cases (env : Env L) (reads : List ReadResult) (h : Downloading L p url chunks s) :
    ∃ chunks' s', Downloading L p url chunks' s' ∧
      (download env p reads s = .ok s' ∨ download env p reads s = .error ⟨.running, s'⟩ ∨
        ∃ t calls, t.log = s'.log ++ calls ∧ Refused p s' calls ∧
          download env p reads s = .error (taskFatalError (httpCleanup t))) := by
  obtain ⟨chunks', s', h', -, hcase⟩ := download_cases_of (fun _ => True) env
    (fun _ _ _ _ _ _ _ _ => trivial) reads h trivial
  exact ⟨chunks', s', h', hcase.imp_right (Or.imp_left And.left)⟩

theorem otaExampleTask_run (env : Env L) (pvParameter : Option CString)
    (reads : List ReadResult) : Run env (otaExampleTask env pvParameter reads) := by
  unfold otaExampleTask
  cases CharArray.sprintf 100 (pvParameter.getD exampleServerUrl) with
  | error f => exact .fault f
  | ok ipAddress =>
      dsimp only
      cases env.ethGotIp with
      | false => exact .noAddress
      | true =>
          cases env.httpInit with
          | false => exact .noClient ipAddress.str
          | true =>
              cases env.httpOpen with
              | false => exact .notOpened ipAddress.str
              | true =>
                  cases env.updatePartition with
                  | none => exact .noPartition ipAddress.str
                  | some p =>
                      obtain ⟨chunks, s, h, hcase⟩ := download_cases env reads
                        (downloading_opened L p ipAddress.str)
                      have hopened : ((Task.start.call (.httpInit ipAddress.str true)).call
                          (.httpOpen true)).call .fetchHeaders = opened ipAddress.str := rfl
                      simp only [Bool.not_true, Bool.false_eq_true, if_false, hopened]
                      rcases hcase with hok | hwait | ⟨t, calls, hlog, hcalls, hstop⟩
                      · rw [hok]
                        exact .finished h
                      · rw [hwait]
                        exact .reading h
                      · rw [hstop]
                        exact .refused h hlog hcalls

theorem finishUpdate_cases (env : Env L) (p : Partition) (s : Task) :
    finishUpdate env p s = espRestart (httpCleanup (s.call (.otaEnd s.updateHandle false))) ∨
      finishUpdate env p s = taskFatalError (httpCleanup
        ((s.call (.otaEnd s.updateHandle true)).call (.setBootPartition p false))) ∨
      finishUpdate env p s = espRestart
        ((s.call (.otaEnd s.updateHandle true)).call (.setBootPartition p true)) := by
  unfold finishUpdate
  cases env.otaEnd s.log s.updateHandle with
  | false => exact Or.inl rfl
  | true =>
      right
      dsimp only
      cases env.setBoot (s.call (.otaEnd s.updateHandle true)).log with
      | false => exact Or.inl rfl
      | true => exact Or.inr rfl

end Loop

section Connected

variable {L : Layout} {env : Env L} {p : Partition} {s s' : Task} {st : Stopped}

/-- Everything before the loop succeeds. -/
structure Connects (env : Env L) (pvParameter : Option CString) (ipAddress : CharArray 100)
    (p : Partition) : Prop where
  url : CharArray.sprintf 100 (pvParameter.getD exampleServerUrl) = .ok ipAddress
  gotIp : env.ethGotIp = true
  init : env.httpInit = true
  opens : env.httpOpen = true
  partition : env.updatePartition = some p

variable {pvParameter : Option CString} {ipAddress : CharArray 100} {reads rest : List ReadResult}

theorem Connects.of_ok (h : Connects env pvParameter ipAddress p)
    (hok : download env p reads (opened ipAddress.str) = .ok s') :
    otaExampleTask env pvParameter reads = finishUpdate env p s' :=
  otaExampleTask_of_download h.url h.gotIp h.init h.opens h.partition hok

theorem Connects.of_error (h : Connects env pvParameter ipAddress p)
    (herror : download env p reads (opened ipAddress.str) = .error st) :
    otaExampleTask env pvParameter reads = st := by
  have hopened : ((Task.start.call (.httpInit ipAddress.str true)).call (.httpOpen true)).call
      .fetchHeaders = opened ipAddress.str := rfl
  simp only [otaExampleTask, h.url, h.gotIp, h.init, h.opens, h.partition, hopened, herror,
    Bool.not_true, Bool.false_eq_true, if_false]

theorem finishUpdate_grows (env : Env L) (p : Partition) (s : Task) :
    s.log <+: (finishUpdate env p s).task.log := by
  rcases finishUpdate_cases env p s with heq | heq | heq <;> rw [heq]
  · simp [espRestart, httpCleanup, Task.call]
  · simp
  · simp [espRestart, Task.call]

theorem download_grows (env : Env L) (p : Partition) (reads : List ReadResult) (s : Task) :
    (∀ s', download env p reads s = .ok s' → s.log <+: s'.log) ∧
    ∀ st, download env p reads s = .error st → s.log <+: st.task.log := by
  induction reads generalizing s with
  | nil =>
      constructor
      · intro s' hok
        cases hok
      · intro st herror
        exact Except.error.inj herror ▸ List.prefix_refl _
  | cons read rest ih =>
      cases read with
      | failed =>
          constructor
          · intro s' hok
            cases hok
          · intro st herror
            rw [← Except.error.inj herror]
            simp
      | data chunk =>
          have hcall : s.log <+: (s.call (.httpRead (.data chunk))).log := List.prefix_append _ _
          rw [download]
          split_ifs with hempty
          · constructor
            · intro s' hok
              exact Except.ok.inj hok ▸ hcall
            · intro st herror
              cases herror
          · constructor
            · intro s' hok
              obtain ⟨t, hreceive, hrest⟩ := bind_eq_ok.mp hok
              obtain ⟨handle, begins, rfl, _⟩ := receive_eq_ok hreceive
              refine hcall.trans (List.IsPrefix.trans ?_ ((ih _).1 s' hrest))
              exact ⟨begins ++ [.otaWrite handle chunk.bytes true], by simp⟩
            · intro st herror
              rcases bind_eq_error.mp herror with hstop | ⟨t, hreceive, hrest⟩
              · obtain ⟨t, calls, rfl, hlog, _⟩ := Downloading.refused hstop
                simp [hlog]
              · obtain ⟨handle, begins, rfl, _⟩ := receive_eq_ok hreceive
                refine hcall.trans (List.IsPrefix.trans ?_ ((ih _).2 st hrest))
                exact ⟨begins ++ [.otaWrite handle chunk.bytes true], by simp⟩

theorem Connects.prefix_log (h : Connects env pvParameter ipAddress p)
    (hsame : download env p reads (opened ipAddress.str) = download env p rest s) :
    s.log <+: (otaExampleTask env pvParameter reads).task.log := by
  have hgrows := download_grows env p rest s
  cases hdownload : download env p rest s with
  | ok s' =>
      rw [h.of_ok (hsame.trans hdownload)]
      exact (hgrows.1 s' hdownload).trans (finishUpdate_grows env p s')
  | error st =>
      rw [h.of_error (hsame.trans hdownload)]
      exact hgrows.2 st hdownload

/-- A stop before the download, or the wait for an address. -/
structure NoDownload (env : Env L) (st : Stopped) : Prop where
  quiet : otaCalls st.task.log = []
  unread : received st.task.log = []
  waits : st.outcome = .running → env.ethGotIp = false

/-- The task either gets as far as the download, or ends before it in one way only. -/
theorem connects_or_constant (env : Env L) (pvParameter : Option CString) :
    (∃ ipAddress p, Connects env pvParameter ipAddress p) ∨
      ∃ st, NoDownload env st ∧ ∀ reads, otaExampleTask env pvParameter reads = st := by
  unfold otaExampleTask
  cases hurl : CharArray.sprintf 100 (pvParameter.getD exampleServerUrl) with
  | error f => exact Or.inr ⟨_, ⟨rfl, rfl, by nofun⟩, fun _ => rfl⟩
  | ok ipAddress =>
      dsimp only
      cases hip : env.ethGotIp with
      | false => exact Or.inr ⟨_, ⟨rfl, rfl, fun _ => hip⟩, fun _ => rfl⟩
      | true =>
          cases hinit : env.httpInit with
          | false => exact Or.inr ⟨_, ⟨rfl, rfl, by nofun⟩, fun _ => rfl⟩
          | true =>
              cases hopen : env.httpOpen with
              | false => exact Or.inr ⟨_, ⟨rfl, rfl, by nofun⟩, fun _ => rfl⟩
              | true =>
                  cases hpartition : env.updatePartition with
                  | none => exact Or.inr ⟨_, ⟨rfl, rfl, by nofun⟩, fun _ => rfl⟩
                  | some p => exact Or.inl ⟨ipAddress, p, hurl, hip, hinit, hopen, hpartition⟩

theorem connects_obliging : Connects obliging none ⟨exampleServerUrl, by decide⟩ ota0 where
  url := CharArray.sprintf_of_lt (by decide)
  gotIp := rfl
  init := rfl
  opens := rfl
  partition := rfl

end Connected
end SnifferStaSend.OtaRun
