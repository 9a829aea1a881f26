import SnifferStaSend.OtaRun

/-!
# Release of the update handle

`update_handle` must be freed by `esp_ota_end`. The error exits inside the loop clean up the
HTTP client only, so a handle is released exactly when the download it belongs to is completed.
-/

namespace SnifferStaSend.OtaHandle
open CLib Ota OtaBootSwitch OtaRun

def Call.ends (handle : Handle) : Call → Bool
  | .otaEnd h _ => h == handle
  | _ => false

def Call.leaves : Call → Bool
  | .taskDelete | .restart => true
  | _ => false

/-- What the task calls between the end of the update and leaving. -/
def Call.closing : Call → Bool
  | .setBootPartition .. | .httpClose | .httpCleanup | .getSettings => true
  | _ => false

/-- Before the task is deleted or the chip restarts, a handle that was begun has been ended
exactly once. -/
def HandleReleased (log : List Call) : Prop :=
  ∀ before c after, log = before ++ c :: after → Call.leaves c = true →
    ∀ p handle, .otaBegin p (some handle) ∈ before → before.countP (Call.ends handle) = 1

def Begun (log : List Call) : Prop := ∃ p handle, .otaBegin p (some handle) ∈ log

/-- A read or a write has reported an error. -/
def TransferFailed (log : List Call) : Prop :=
  .httpRead .failed ∈ log ∨ ∃ handle data, .otaWrite handle data false ∈ log

section Logs

variable {log : List Call} {c : Call}

theorem handleReleased_of_not_begun (h : ¬ Begun log) : HandleReleased log := by
  intro before c after hlog _ p handle hmem
  refine absurd ⟨p, handle, ?_⟩ h
  rw [hlog]
  exact List.mem_append_left _ hmem

theorem handleReleased_append_leave (hlog : ∀ d ∈ log, Call.leaves d = false)
    (hc : Call.leaves c = true) : HandleReleased (log ++ [c]) ↔
      ∀ p handle, .otaBegin p (some handle) ∈ log → log.countP (Call.ends handle) = 1 := by
  constructor
  · intro h
    exact h log c [] rfl hc
  · intro h before d after heq hd
    rcases List.eq_nil_or_concat after with rfl | ⟨init, last, rfl⟩
    · obtain ⟨rfl, _⟩ := List.append_inj' heq rfl
      exact h
    · have heq' : log ++ [c] = (before ++ d :: init) ++ [last] := by
        rw [heq]
        simp
      obtain ⟨rfl, _⟩ := List.append_inj' heq' rfl
      have hquiet := hlog d (by simp)
      rw [hd] at hquiet
      cases hquiet

end Logs

section Loop

variable {L : Layout} {p : Partition} {url : CString} {chunks : List (List UInt8)} {s : Task}

theorem not_leaves_of_downloading (h : Downloading L p url chunks s) :
    ∀ c ∈ s.log, Call.leaves c = false := by
  refine h.forall_log (by simp [opened, Call.leaves]) ?_
  intro c hc
  cases c <;> first | rfl | cases hc

theorem countP_ends_of_downloading (h : Downloading L p url chunks s) (handle : Handle) :
    s.log.countP (Call.ends handle) = 0 := by
  rw [List.countP_eq_zero]
  refine h.forall_log (by simp [opened, Call.ends]) ?_
  intro c hc
  cases c with
  | otaEnd handle' ok => cases hc
  | _ => exact Bool.false_ne_true

theorem not_transferFailed_of_downloading (h : Downloading L p url chunks s) :
    ¬ TransferFailed s.log := by
  rintro (hread | ⟨handle, data, hwrite⟩)
  · exact h.forall_log (P := (· ≠ .httpRead .failed)) (by simp [opened])
      (by rintro c hc rfl; cases hc) _ hread rfl
  · exact h.forall_log (P := (· ≠ .otaWrite handle data false)) (by simp [opened])
      (by rintro c hc rfl; cases hc) _ hwrite rfl

theorem begun_of_downloading (h : Downloading L p url chunks s) {q : Partition} {handle : Handle}
    (hmem : .otaBegin q (some handle) ∈ s.log) :
    handle = s.updateHandle ∧ s.imageHeaderWasChecked = true := by
  have hin : .otaBegin q (some handle) ∈ otaCalls s.log := List.mem_filter.mpr ⟨hmem, rfl⟩
  rw [h.calls] at hin
  split_ifs at hin with hnil
  · cases hin
  · refine ⟨?_, h.checked.mpr hnil⟩
    have hpair : q = p ∧ handle = s.updateHandle := by simpa [transfer] using hin
    exact hpair.2

end Loop

section Exits

variable {L : Layout} {env : Env L} {p : Partition} {url : CString} {chunks : List (List UInt8)}
  {s t : Task} {calls : List Call}

/-- An error inside the loop: nothing is ended there. -/
theorem released_iff_of_refused (h : Downloading L p url chunks s) (hlog : t.log = s.log ++ calls)
    (hcalls : Refused p s calls) :
    HandleReleased (taskFatalError (httpCleanup t)).task.log ↔
      ¬ (Begun (taskFatalError (httpCleanup t)).task.log ∧
        TransferFailed (taskFatalError (httpCleanup t)).task.log) := by
  have hwhole : (taskFatalError (httpCleanup t)).task.log =
      s.log ++ calls ++ [.httpClose, .httpCleanup, .getSettings] ++ [.taskDelete] := by
    simp [hlog]
  rw [hwhole]
  by_cases hbegun : Begun (s.log ++ calls ++ [.httpClose, .httpCleanup, .getSettings] ++
      [.taskDelete])
  · have hfailed : TransferFailed (s.log ++ calls ++ [.httpClose, .httpCleanup, .getSettings] ++
        [.taskDelete]) := by
      cases hcalls with
      | readFailed => exact Or.inl (by simp)
      | firstWrite chunk handle _ => exact Or.inr ⟨handle, chunk.bytes, by simp⟩
      | write chunk _ => exact Or.inr ⟨s.updateHandle, chunk.bytes, by simp⟩
      | header chunk hunchecked | begin chunk hunchecked =>
          obtain ⟨q, handle, hmem⟩ := hbegun
          have hin : .otaBegin q (some handle) ∈ s.log := by simpa using hmem
          rw [(begun_of_downloading h hin).2] at hunchecked
          cases hunchecked
    refine iff_of_false ?_ (fun hno => hno ⟨hbegun, hfailed⟩)
    have hquiet : ∀ d ∈ s.log ++ calls ++ [.httpClose, .httpCleanup, .getSettings],
        Call.leaves d = false := by
      intro d hd
      simp only [List.append_assoc, List.mem_append] at hd
      rcases hd with hd | hd | hd
      · exact not_leaves_of_downloading h d hd
      · cases hcalls <;> revert d <;> simp [Call.leaves]
      · revert d
        simp [Call.leaves]
    rw [handleReleased_append_leave hquiet rfl]
    intro hall
    obtain ⟨q, handle, hmem⟩ := hbegun
    have hone := hall q handle (by simpa using hmem)
    rw [List.countP_append, List.countP_append, countP_ends_of_downloading h] at hone
    revert hone
    cases hcalls <;> simp [Call.ends]
  · exact iff_of_true (handleReleased_of_not_begun hbegun) (fun hboth => hbegun hboth.1)

theorem finishUpdate_log (env : Env L) (p : Partition) (s : Task) : ∃ ok mid c,
    (finishUpdate env p s).task.log = s.log ++ .otaEnd s.updateHandle ok :: mid ++ [c] ∧
      (∀ d ∈ mid, Call.closing d = true) ∧ (c = .restart ∨ c = .taskDelete) := by
  rcases finishUpdate_cases env p s with heq | heq | heq <;> rw [heq]
  · exact ⟨false, [.httpClose, .httpCleanup], .restart,
      by simp [espRestart, httpCleanup, Task.call], List.all_eq_true.mp rfl, Or.inl rfl⟩
  · exact ⟨true, [.setBootPartition p false, .httpClose, .httpCleanup, .getSettings], .taskDelete,
      by simp, List.all_eq_true.mp rfl, Or.inr rfl⟩
  · exact ⟨true, [.setBootPartition p true], .restart,
      by simp [espRestart, Task.call], List.all_eq_true.mp rfl, Or.inl rfl⟩

/-- A completed download ends the handle it began, if it began one. -/
theorem released_of_finished (env : Env L) (h : Downloading L p url chunks s) :
    HandleReleased (finishUpdate env p s).task.log ∧
      ¬ TransferFailed (finishUpdate env p s).task.log := by
  obtain ⟨ok, mid, c, hlog, hmid, hc⟩ := finishUpdate_log env p s
  have hleave : Call.leaves c = true := by rcases hc with rfl | rfl <;> rfl
  -- a call that is neither closing nor leaving nor an end comes from the loop
  have hloop {d : Call} (hd : d ∈ s.log ++ .otaEnd s.updateHandle ok :: mid ++ [c])
      (hclosing : Call.closing d = false) (hleaves : Call.leaves d = false)
      (hends : Call.ends s.updateHandle d = false) : d ∈ s.log := by
    simp only [List.append_assoc, List.cons_append, List.mem_append, List.mem_cons,
      List.not_mem_nil, or_false] at hd
    rcases hd with hd | rfl | hd | rfl
    · exact hd
    · simp [Call.ends] at hends
    · rw [hmid d hd] at hclosing
      cases hclosing
    · rw [hleave] at hleaves
      cases hleaves
  rw [hlog]
  constructor
  · rw [handleReleased_append_leave ?_ hleave]
    · intro q handle hmem
      obtain ⟨rfl, _⟩ := begun_of_downloading h (hloop (List.mem_append_left _ hmem) rfl rfl rfl)
      have hzero : mid.countP (Call.ends s.updateHandle) = 0 := by
        rw [List.countP_eq_zero]
        intro d hd hends
        have hclosing := hmid d hd
        cases d with
        | otaEnd handle ok => cases hclosing
        | _ => cases hends
      rw [List.countP_append, countP_ends_of_downloading h, List.countP_cons, hzero]
      simp [Call.ends]
    · intro d hd
      rcases List.mem_append.mp hd with hd | hd
      · exact not_leaves_of_downloading h d hd
      · rcases List.mem_cons.mp hd with rfl | hd
        · rfl
        · have hclosing := hmid d hd
          cases d with
          | taskDelete | restart => cases hclosing
          | _ => rfl
  · have hno := not_transferFailed_of_downloading h
    rintro (hread | ⟨handle, data, hwrite⟩)
    · exact hno (Or.inl (hloop hread rfl rfl rfl))
    · exact hno (Or.inr ⟨handle, data, hloop hwrite rfl rfl rfl⟩)

end Exits

theorem released_iff_log {L : Layout} (env : Env L) (pvParameter : Option CString)
    (reads : List ReadResult) :
    HandleReleased (otaExampleTask env pvParameter reads).task.log ↔
      ¬ (Begun (otaExampleTask env pvParameter reads).task.log ∧
        TransferFailed (otaExampleTask env pvParameter reads).task.log) := by
  have hquiet {log : List Call} (h : ¬ Begun log) :
      HandleReleased log ↔ ¬ (Begun log ∧ TransferFailed log) :=
    iff_of_true (handleReleased_of_not_begun h) (fun hboth => h hboth.1)
  have hrun := otaExampleTask_run env pvParameter reads
  generalize otaExampleTask env pvParameter reads = st at hrun ⊢
  cases hrun with
  | fault f => exact hquiet (by simp [Begun, Task.start])
  | noAddress => exact hquiet (by simp [Begun, Task.start])
  | noClient url => exact hquiet (by simp [Begun, taskFatalError, Task.start, Task.call])
  | notOpened url => exact hquiet (by simp [Begun, taskFatalError, Task.start, Task.call])
  | noPartition url => exact hquiet (by simp [Begun, opened])
  | reading h =>
      refine iff_of_true ?_ (fun hboth => not_transferFailed_of_downloading h hboth.2)
      intro before c after hlog hc
      have hno := not_leaves_of_downloading h c (by rw [hlog]; simp)
      rw [hc] at hno
      cases hno
  | refused h hlog hcalls => exact released_iff_of_refused h hlog hcalls
  | finished h =>
      have hreleased := released_of_finished env h
      exact iff_of_true hreleased.1 (fun hboth => hreleased.2 hboth.2)

section Breaking

variable {L : Layout} {env : Env L} {p : Partition} {url : CString} {chunks : List (List UInt8)}
  {s t : Task} {st : Stopped} {c : Chunk} {reads : List ReadResult}

/-- Of the reads that come after the calls `log`, one reports an error, or what it brings is
not written. A read of length 0 ends the download. -/
def TransferBreaks (env : Env L) (handle : Handle) : List Call → List ReadResult → Prop
  | _, [] => False
  | _, .failed :: _ => True
  | log, .data c :: rest =>
    c.bytes ≠ [] ∧
      (env.otaWrite (log ++ [.httpRead (.data c)]) handle c.bytes = false ∨
        TransferBreaks env handle (log ++ [.httpRead (.data c)] ++ [.otaWrite handle c.bytes true])
          rest)

/-- The first chunk shows a version that neither comparison refuses, and `esp_ota_begin` answers
with `handle`. -/
structure BeginsWith (env : Env L) (log : List Call) (first : Chunk) (handle : Handle) : Prop where
  long : L.headers < first.bytes.length
  notInvalid : sameAsInvalid env (newAppInfo first.bytes long) = false
  notRunning : (newAppInfo first.bytes long).version ≠ env.running.info.version
  begins : env.otaBegin (log ++ [.httpRead (.data first)]) = some handle

/-- The calls up to the write of the first chunk. -/
def begun (log : List Call) (p : Partition) (first : Chunk) (handle : Handle) : List Call :=
  log ++ [.httpRead (.data first)] ++ [.otaBegin p (some handle)]

/-- The server is reached, the first chunk begins an update, and the write of this chunk fails
or a later read or write does. -/
def BreaksOff (env : Env L) (pvParameter : Option CString) (reads : List ReadResult) : Prop :=
  ∃ ipAddress p first rest handle, Connects env pvParameter ipAddress p ∧
    reads = .data first :: rest ∧ BeginsWith env (opened ipAddress.str).log first handle ∧
    (env.otaWrite (begun (opened ipAddress.str).log p first handle) handle first.bytes = false ∨
      TransferBreaks env handle
        (begun (opened ipAddress.str).log p first handle ++ [.otaWrite handle first.bytes true])
        rest)

theorem begun_iff_checked (h : Downloading L p url chunks s) :
    Begun s.log ↔ s.imageHeaderWasChecked = true := by
  constructor
  · rintro ⟨q, handle, hmem⟩
    exact (begun_of_downloading h hmem).2
  · intro hchecked
    have hcalls := h.calls
    rw [if_neg (h.checked.mp hchecked)] at hcalls
    have hmem : .otaBegin p (some s.updateHandle) ∈ otaCalls s.log := by
      rw [hcalls]
      exact List.mem_cons_self
    exact ⟨p, s.updateHandle, List.mem_of_mem_filter hmem⟩

theorem Begun.append {log : List Call} (h : Begun log) (calls : List Call) :
    Begun (log ++ calls) := by
  obtain ⟨p, handle, hmem⟩ := h
  exact ⟨p, handle, List.mem_append_left calls hmem⟩

/-- The loop ends in an error although an update has been begun. -/
def Broken (env : Env L) (p : Partition) (reads : List ReadResult) (s : Task) : Prop :=
  ∃ st, download env p reads s = .error st ∧ Begun st.task.log ∧ TransferFailed st.task.log

theorem broken_iff_of_error (h : download env p reads s = .error st) :
    Broken env p reads s ↔ Begun st.task.log ∧ TransferFailed st.task.log := by
  constructor
  · rintro ⟨st', heq, hbroken⟩
    rw [h] at heq
    exact Except.error.inj heq ▸ hbroken
  · intro hbroken
    exact ⟨st, h, hbroken⟩

theorem not_broken_of_ok (h : download env p reads s = .ok t) : ¬ Broken env p reads s := by
  rintro ⟨st, herror, -⟩
  rw [h] at herror
  cases herror

theorem download_of_empty (hempty : c.bytes = []) :
    download env p (.data c :: reads) s = .ok (s.call (.httpRead (.data c))) := by
  rw [download, if_pos hempty]

theorem download_of_nonempty (hne : c.bytes ≠ []) : download env p (.data c :: reads) s =
    (Ota.receive env p (s.call (.httpRead (.data c))) c.bytes).bind (download env p reads) := by
  rw [download, if_neg hne]

theorem broken_of_writeChunk {data : List UInt8} (h : Begun s.log)
    (herror : writeChunk env s data = .error st) :
    Begun st.task.log ∧ TransferFailed st.task.log := by
  rw [writeChunk_eq_error herror, log_cleanedUp, log_call]
  exact ⟨(h.append _).append _, Or.inr ⟨s.updateHandle, data, by simp⟩⟩

/-- A turn whose write follows `esp_ota_begin`: the write breaks the update off or what comes
after it does. -/
theorem broken_iff_of_written {data : List UInt8} {all : List ReadResult}
    (hturn : download env p all s = (writeChunk env t data).bind (download env p reads))
    (hbegun : Begun t.log)
    (hlater : ∀ u, writeChunk env t data = .ok u →
      (Broken env p reads u ↔ TransferBreaks env u.updateHandle u.log reads)) :
    Broken env p all s ↔ env.otaWrite t.log t.updateHandle data = false ∨
      TransferBreaks env t.updateHandle (t.log ++ [.otaWrite t.updateHandle data true]) reads := by
  cases hwrite : writeChunk env t data with
  | ok u =>
      have hgoes : Broken env p all s ↔ Broken env p reads u := by
        rw [Broken, hturn, hwrite]
        rfl
      have hyes := otaWrite_of_ok hwrite
      obtain rfl := writeChunk_eq_ok hwrite
      rw [hgoes, hlater _ hwrite, hyes, or_iff_right Bool.false_ne_true.symm]
  | error st =>
      rw [hwrite] at hturn
      rw [broken_iff_of_error hturn]
      exact iff_of_true (broken_of_writeChunk hbegun hwrite) (Or.inl (otaWrite_of_error hwrite))

/-- With the update begun, the loop is broken off exactly by a read or a write that fails. -/
theorem broken_iff_transferBreaks (reads : List ReadResult) (h : Downloading L p url chunks s)
    (hchecked : s.imageHeaderWasChecked = true) :
    Broken env p reads s ↔ TransferBreaks env s.updateHandle s.log reads := by
  have hbegun := (begun_iff_checked h).mpr hchecked
  induction reads generalizing s chunks with
  | nil =>
      rw [broken_iff_of_error rfl]
      exact iff_of_false (fun hboth => not_transferFailed_of_downloading h hboth.2) id
  | cons read reads ih =>
      cases read with
      | failed =>
          rw [broken_iff_of_error rfl, log_cleanedUp, log_call]
          exact iff_of_true ⟨(hbegun.append _).append _, Or.inl (by simp)⟩ trivial
      | data c =>
          rw [TransferBreaks]
          by_cases hempty : c.bytes = []
          · exact iff_of_false (not_broken_of_ok (download_of_empty hempty))
              (fun hno => hno.1 hempty)
          · have hturn : download env p (.data c :: reads) s = _ := download_of_nonempty hempty
            have hwrites : Ota.receive env p (s.call (.httpRead (.data c))) c.bytes =
                writeChunk env (s.call (.httpRead (.data c))) c.bytes := if_pos hchecked
            rw [hwrites] at hturn
            rw [and_iff_right hempty]
            refine broken_iff_of_written hturn (hbegun.append _) (fun u hwrite => ?_)
            have hu := h.receive hempty (hwrites.trans hwrite)
            obtain rfl := writeChunk_eq_ok hwrite
            exact ih hu hchecked ((hbegun.append _).append _)

theorem exists_beginsWith_of_ok
    (h : checkImageHeader env p (s.call (.httpRead (.data c))) c.bytes = .ok t) :
    ∃ handle, BeginsWith env s.log c handle ∧
      t = ⟨handle, s.binaryFileLength, true, begun s.log p c handle⟩ := by
  unfold checkImageHeader at h
  split_ifs at h with hlong hinvalid hrunning
  dsimp only at h
  split at h
  · rename_i handle hbegin
    exact ⟨handle, ⟨hlong, Bool.eq_false_iff.mpr hinvalid, hrunning, hbegin⟩,
      (Except.ok.inj h).symm⟩
  · cases h

theorem BeginsWith.checkImageHeader {handle : Handle} (h : BeginsWith env s.log c handle) :
    Ota.checkImageHeader env p (s.call (.httpRead (.data c))) c.bytes =
      .ok ⟨handle, s.binaryFileLength, true, begun s.log p c handle⟩ := by
  rw [checkImageHeader_of_new h.long h.notInvalid h.notRunning h.begins]
  rfl

theorem BeginsWith.handle_eq {log : List Call} {handle handle' : Handle}
    (h : BeginsWith env log c handle) (h' : BeginsWith env log c handle') : handle = handle' :=
  Option.some.inj (h.begins.symm.trans h'.begins)

theorem not_begun_opened (url : CString) : ¬ Begun (opened url).log := by
  rintro ⟨q, handle, hmem⟩
  simp [opened] at hmem

theorem broken_first_iff (hne : c.bytes ≠ []) : Broken env p (.data c :: reads) (opened url) ↔
    ∃ handle, BeginsWith env (opened url).log c handle ∧
      (env.otaWrite (begun (opened url).log p c handle) handle c.bytes = false ∨
        TransferBreaks env handle
          (begun (opened url).log p c handle ++ [.otaWrite handle c.bytes true]) reads) := by
  have hturn : download env p (.data c :: reads) (opened url) = _ := download_of_nonempty hne
  have hchecks : Ota.receive env p ((opened url).call (.httpRead (.data c))) c.bytes =
      (Ota.checkImageHeader env p ((opened url).call (.httpRead (.data c))) c.bytes).bind
        (fun s => writeChunk env s c.bytes) := if_neg Bool.false_ne_true
  cases hcheck : Ota.checkImageHeader env p ((opened url).call (.httpRead (.data c))) c.bytes with
  | error st =>
      rw [hcheck] at hchecks
      rw [hchecks] at hturn
      rw [broken_iff_of_error hturn]
      apply iff_of_false
      · rintro ⟨⟨q, handle, hmem⟩, -⟩
        refine not_begun_opened url ⟨q, handle, ?_⟩
        rcases checkImageHeader_eq_error hcheck with rfl | ⟨t, hlog, rfl⟩
        · simpa using hmem
        · simpa [hlog] using hmem
      · rintro ⟨handle, hbegins, -⟩
        rw [hbegins.checkImageHeader] at hcheck
        cases hcheck
  | ok t =>
      obtain ⟨handle, hbegins, rfl⟩ := exists_beginsWith_of_ok hcheck
      rw [hcheck] at hchecks
      rw [hchecks] at hturn
      have hbegun : Begun (begun (opened url).log p c handle) := ⟨p, handle, by simp [begun]⟩
      have hbroken := broken_iff_of_written hturn hbegun (fun u hwrite => ?_)
      · rw [hbroken]
        constructor
        · exact fun hbreaks => ⟨handle, hbegins, hbreaks⟩
        · rintro ⟨handle', hbegins', hbreaks⟩
          obtain rfl := hbegins.handle_eq hbegins'
          exact hbreaks
      · have hu := (downloading_opened L p url).receive hne (hchecks.trans hwrite)
        obtain rfl := writeChunk_eq_ok hwrite
        exact broken_iff_transferBreaks reads hu rfl

theorem broken_opened_iff (p : Partition) (url : CString) (reads : List ReadResult) :
    Broken env p reads (opened url) ↔ ∃ first rest handle, reads = .data first :: rest ∧
      BeginsWith env (opened url).log first handle ∧
      (env.otaWrite (begun (opened url).log p first handle) handle first.bytes = false ∨
        TransferBreaks env handle
          (begun (opened url).log p first handle ++ [.otaWrite handle first.bytes true]) rest) := by
  constructor
  · intro hbroken
    cases reads with
    | nil => exact absurd ((broken_iff_of_error rfl).mp hbroken).1 (not_begun_opened url)
    | cons read reads =>
        cases read with
        | failed =>
            obtain ⟨⟨q, handle, hmem⟩, -⟩ := (broken_iff_of_error rfl).mp hbroken
            exact absurd ⟨q, handle, by simpa using hmem⟩ (not_begun_opened url)
        | data c =>
            have hne : c.bytes ≠ [] :=
              fun hempty => not_broken_of_ok (download_of_empty hempty) hbroken
            obtain ⟨handle, hbreaks⟩ := (broken_first_iff hne).mp hbroken
            exact ⟨c, reads, handle, rfl, hbreaks⟩
  · rintro ⟨first, rest, handle, rfl, hbegins, hbreaks⟩
    have hne : first.bytes ≠ [] := List.ne_nil_of_length_pos (Nat.zero_lt_of_lt hbegins.long)
    exact (broken_first_iff hne).mpr ⟨handle, hbegins, hbreaks⟩

theorem breaksOff_iff_broken {pvParameter : Option CString} {ipAddress : CharArray 100}
    (h : Connects env pvParameter ipAddress p) (reads : List ReadResult) :
    BreaksOff env pvParameter reads ↔ Broken env p reads (opened ipAddress.str) := by
  rw [broken_opened_iff]
  constructor
  · rintro ⟨ipAddress', p', first, rest, handle, h', hbreaks⟩
    obtain rfl : ipAddress = ipAddress' := Except.ok.inj (h.url.symm.trans h'.url)
    obtain rfl : p = p' := Option.some.inj (h.partition.symm.trans h'.partition)
    exact ⟨first, rest, handle, hbreaks⟩
  · rintro ⟨first, rest, handle, hbreaks⟩
    exact ⟨ipAddress, p, first, rest, handle, h, hbreaks⟩

theorem breaksOff_iff_log (env : Env L) (pvParameter : Option CString) (reads : List ReadResult) :
    BreaksOff env pvParameter reads ↔ Begun (otaExampleTask env pvParameter reads).task.log ∧
      TransferFailed (otaExampleTask env pvParameter reads).task.log := by
  by_cases hconnects : ∃ ipAddress p, Connects env pvParameter ipAddress p
  · obtain ⟨ipAddress, p, h⟩ := hconnects
    have hopened := downloading_opened L p ipAddress.str
    rw [breaksOff_iff_broken h]
    cases hdownload : download env p reads (opened ipAddress.str) with
    | error st => rw [h.of_error hdownload, broken_iff_of_error hdownload]
    | ok t =>
        rw [h.of_ok hdownload]
        refine iff_of_false (not_broken_of_ok hdownload) (fun hboth => ?_)
        obtain ⟨chunks, s, hloop, hok | hwait | ⟨_, _, -, -, hstop⟩⟩ :=
          download_cases env reads hopened
        · rw [hdownload] at hok
          exact (released_of_finished env (Except.ok.inj hok ▸ hloop)).2 hboth.2
        · rw [hdownload] at hwait
          cases hwait
        · rw [hdownload] at hstop
          cases hstop
  · obtain ⟨st, hquiet, hconstant⟩ := (connects_or_constant env pvParameter).resolve_left hconnects
    apply iff_of_false
    · rintro ⟨ipAddress, p, _, _, _, h, -⟩
      exact hconnects ⟨ipAddress, p, h⟩
    · rintro ⟨⟨q, handle, hmem⟩, -⟩
      rw [hconstant] at hmem
      have hin : .otaBegin q (some handle) ∈ otaCalls st.task.log := List.mem_filter.mpr ⟨hmem, rfl⟩
      rw [hquiet.quiet] at hin
      cases hin

end Breaking

/-- The handle is released exactly in the runs that no read and no write breaks off once
`esp_ota_begin` has succeeded. -/
theorem handleReleased_iff {L : Layout} (env : Env L) (pvParameter : Option CString)
    (reads : List ReadResult) :
    HandleReleased (otaExampleTask env pvParameter reads).task.log ↔
      ¬ BreaksOff env pvParameter reads := by
  rw [released_iff_log, breaksOff_iff_log]

/-- The connection breaks after the first chunk: handle 1 is begun and never ended. -/
theorem not_handleReleased :
    ¬ HandleReleased
      (otaExampleTask obliging none [.data (zeros 300 (by decide)), .failed]).task.log := by
  intro h
  have hone := h
    (otaExampleTask obliging none [.data (zeros 300 (by decide)), .failed]).task.log.dropLast
    .taskDelete [] (by decide +kernel) rfl ota0 1 (by decide +kernel)
  revert hone
  decide +kernel

end SnifferStaSend.OtaHandle
