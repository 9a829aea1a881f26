import Mathlib.Algebra.BigOperators.Group.List.Basic
import SnifferStaSend.Ota

/-!
# When the OTA task switches the boot partition

The invariant of the download loop describes the calls made so far by the chunks received so
far. `esp_ota_set_boot_partition` is reached only from a completed download whose chunks have
all been written to one handle.
-/

namespace SnifferStaSend.OtaBootSwitch
open CLib Ota

def isOta : Call → Bool
  | .otaBegin .. | .otaWrite .. | .otaEnd .. | .setBootPartition .. => true
  | _ => false

def otaCalls (log : List Call) : List Call := log.filter isOta

def Call.received? : Call → Option (List UInt8)
  | .httpRead (.data chunk) => if chunk.bytes = [] then none else some chunk.bytes
  | _ => none

/-- The non-empty reads, in order. -/
def received (log : List Call) : List (List UInt8) := log.filterMap Call.received?

/-- The calls that take `chunks` to the partition: one begin, and all the writes. -/
def transfer (p : Partition) (handle : Handle) (chunks : List (List UInt8)) : List Call :=
  .otaBegin p (some handle) :: chunks.map (fun c => .otaWrite handle c true)

/-- `esp_ota_end` fails on a handle that no successful `esp_ota_begin` has produced. -/
def EndNeedsBegin {L : Layout} (env : Env L) : Prop :=
  ∀ log handle, (∀ p, .otaBegin p (some handle) ∉ log) → env.otaEnd log handle = false

/-- The chunks received came to the partition `p` as a whole before it was made bootable. -/
structure SwitchedAfter (L : Layout) (log : List Call) (p : Partition) (ok : Bool)
    (chunks : List (List UInt8)) : Prop where
  received : received log = chunks
  first : ∃ c, chunks.head? = some c ∧ L.headers < c.length
  calls : ∃ handle, otaCalls log =
    transfer p handle chunks ++ [.otaEnd handle true, .setBootPartition p ok]

theorem otaCalls_append (log calls : List Call) :
    otaCalls (log ++ calls) = otaCalls log ++ otaCalls calls := List.filter_append log calls

theorem received_append (log calls : List Call) :
    received (log ++ calls) = received log ++ received calls := List.filterMap_append

section Loop

variable {L : Layout} {env : Env L} {p : Partition} {s s' : Task} {st : Stopped}
  {chunks : List (List UInt8)}

/-- What the loop has done when it has received `chunks`. -/
structure Progress (L : Layout) (p : Partition) (chunks : List (List UInt8)) (s : Task) : Prop where
  received : received s.log = chunks
  first : ∀ c, chunks.head? = some c → L.headers < c.length
  checked : s.imageHeaderWasChecked = true ↔ chunks ≠ []
  calls : otaCalls s.log = if chunks = [] then [] else transfer p s.updateHandle chunks
  length : s.binaryFileLength = Int32.ofNat chunks.flatten.length

theorem Progress.receive {chunk : Chunk} (h : Progress L p chunks s) (hne : chunk.bytes ≠ [])
    (hok : receive env p (s.call (.httpRead (.data chunk))) chunk.bytes = .ok s') :
    Progress L p (chunks ++ [chunk.bytes]) s' := by
  obtain ⟨handle, begins, rfl, hcase⟩ := receive_eq_ok hok
  have hread : OtaBootSwitch.received [.httpRead (.data chunk)] = [chunk.bytes] := by
    simp [OtaBootSwitch.received, Call.received?, hne]
  have hreceived (hbegins : OtaBootSwitch.received begins = []) : OtaBootSwitch.received
      (s.log ++ [.httpRead (.data chunk)] ++ begins ++ [.otaWrite handle chunk.bytes true]) =
        chunks ++ [chunk.bytes] := by
    rw [received_append, received_append, received_append, h.received, hread, hbegins,
      List.append_nil]
    exact List.append_nil _
  have hcalls : otaCalls
      (s.log ++ [.httpRead (.data chunk)] ++ begins ++ [.otaWrite handle chunk.bytes true]) =
        otaCalls s.log ++ otaCalls begins ++ [.otaWrite handle chunk.bytes true] := by
    rw [otaCalls_append, otaCalls_append, otaCalls_append]
    exact congrArg (· ++ otaCalls begins ++ _) (List.append_nil _)
  have hnonempty : chunks ++ [chunk.bytes] ≠ [] := by simp
  have hlength : s.binaryFileLength + Int32.ofNat chunk.bytes.length =
      Int32.ofNat (chunks ++ [chunk.bytes]).flatten.length := by
    simp [h.length]
  rcases hcase with ⟨hchecked, rfl, rfl⟩ | ⟨hunchecked, hlen, rfl⟩
  · -- a later chunk: the handle stays
    have hold : chunks ≠ [] := h.checked.mp hchecked
    refine ⟨hreceived rfl, ?_, iff_of_true rfl hnonempty, ?_, hlength⟩
    · rw [List.head?_append_of_ne_nil _ hold]
      exact h.first
    · rw [if_neg hnonempty]
      apply hcalls.trans
      rw [h.calls, if_neg hold]
      simp [transfer, otaCalls, Task.call]
  · -- the first chunk
    have hold : chunks = [] := by
      by_contra hsome
      exact Bool.false_ne_true (hunchecked.symm.trans (h.checked.mpr hsome))
    subst hold
    refine ⟨hreceived rfl, ?_, iff_of_true rfl hnonempty, ?_, hlength⟩
    · intro c hc
      exact Option.some.inj hc ▸ hlen
    · rw [if_neg hnonempty]
      apply hcalls.trans
      rw [h.calls, if_pos rfl]
      rfl

theorem Progress.download {reads : List ReadResult} (h : Progress L p chunks s)
    (hok : download env p reads s = .ok s') : ∃ chunks', Progress L p chunks' s' := by
  induction reads generalizing s chunks with
  | nil => cases hok
  | cons read rest ih =>
      cases read with
      | failed => cases hok
      | data chunk =>
          rw [Ota.download] at hok
          split_ifs at hok with hempty
          · refine ⟨chunks, Except.ok.inj hok ▸ ?_⟩
            have hquiet : Call.received? (.httpRead (.data chunk)) = none := if_pos hempty
            refine ⟨?_, h.first, h.checked, ?_, h.length⟩
            · rw [Task.call, received_append, h.received, OtaBootSwitch.received,
                List.filterMap_cons_none hquiet]
              exact List.append_nil _
            · rw [Task.call, otaCalls_append, h.calls]
              exact List.append_nil _
          · obtain ⟨t, hreceive, hrest⟩ := bind_eq_ok.mp hok
            exact ih (h.receive hempty hreceive) hrest

end Loop

section NoSwitch

def NoSwitch (log : List Call) : Prop := ∀ p ok, .setBootPartition p ok ∉ log

theorem noSwitch_append {log calls : List Call} :
    NoSwitch (log ++ calls) ↔ NoSwitch log ∧ NoSwitch calls := by
  simp only [NoSwitch, List.mem_append, not_or, forall_and]

variable {L : Layout} {env : Env L} {p : Partition} {s : Task} {st : Stopped}

theorem noSwitch_taskFatalError (h : NoSwitch s.log) : NoSwitch (taskFatalError s).task.log := by
  refine noSwitch_append.mpr ⟨noSwitch_append.mpr ⟨h, ?_⟩, ?_⟩ <;> simp [NoSwitch]

theorem noSwitch_httpCleanup (h : NoSwitch s.log) : NoSwitch (httpCleanup s).log := by
  refine noSwitch_append.mpr ⟨noSwitch_append.mpr ⟨h, ?_⟩, ?_⟩ <;> simp [NoSwitch]

theorem noSwitch_read (h : NoSwitch s.log) (read : ReadResult) :
    NoSwitch (s.call (.httpRead read)).log :=
  noSwitch_append.mpr ⟨h, by simp [NoSwitch]⟩

theorem Progress.noSwitch {chunks : List (List UInt8)} (h : Progress L p chunks s) :
    NoSwitch s.log := by
  intro q ok hmem
  have hin : .setBootPartition q ok ∈ otaCalls s.log := List.mem_filter.mpr ⟨hmem, rfl⟩
  rw [h.calls] at hin
  split_ifs at hin
  · cases hin
  · simp [transfer] at hin

theorem Progress.noSwitch_download {chunks : List (List UInt8)} {reads : List ReadResult}
    (h : Progress L p chunks s) (herror : Ota.download env p reads s = .error st) :
    NoSwitch st.task.log := by
  induction reads generalizing s chunks with
  | nil => exact Except.error.inj herror ▸ h.noSwitch
  | cons read rest ih =>
      have hread := noSwitch_read h.noSwitch read
      cases read with
      | failed =>
          rw [← Except.error.inj herror]
          exact noSwitch_taskFatalError (noSwitch_httpCleanup hread)
      | data chunk =>
          rw [Ota.download] at herror
          split_ifs at herror with hempty
          rcases bind_eq_error.mp herror with hstop | ⟨t, hreceive, hrest⟩
          · obtain ⟨t, calls, rfl, hlog, hcalls⟩ := receive_eq_error hstop
            apply noSwitch_taskFatalError
            apply noSwitch_httpCleanup
            rw [hlog]
            refine noSwitch_append.mpr ⟨hread, ?_⟩
            rcases hcalls with rfl | rfl | ⟨_, rfl⟩ | rfl <;> simp [NoSwitch]
          · exact ih (h.receive hempty hreceive) hrest

end NoSwitch

section Switch

variable {L : Layout} {env : Env L} {p : Partition} {s : Task} {chunks : List (List UInt8)}

theorem Progress.not_begin_mem (h : Progress L p [] s) (q : Partition) (handle : Handle) :
    .otaBegin q (some handle) ∉ s.log := by
  intro hmem
  have hin : .otaBegin q (some handle) ∈ otaCalls s.log := List.mem_filter.mpr ⟨hmem, rfl⟩
  rw [h.calls, if_pos rfl] at hin
  cases hin

theorem finishUpdate_of_switch (hend : EndNeedsBegin env) (h : Progress L p chunks s)
    {q : Partition} {ok : Bool}
    (hmem : .setBootPartition q ok ∈ (finishUpdate env p s).task.log) :
    SwitchedAfter L (finishUpdate env p s).task.log q ok chunks ∧
      (finishUpdate env p s).task.binaryFileLength = Int32.ofNat chunks.flatten.length := by
  have hno := h.noSwitch
  cases hended : env.otaEnd s.log s.updateHandle with
  | false =>
      have hquiet : NoSwitch (finishUpdate env p s).task.log := by
        rw [finishUpdate_of_end_failed hended]
        exact noSwitch_append.mpr ⟨noSwitch_httpCleanup (noSwitch_append.mpr
          ⟨hno, by simp [NoSwitch]⟩), by simp [NoSwitch]⟩
      exact absurd hmem (hquiet q ok)
  | true =>
      have hsome : chunks ≠ [] := by
        rintro rfl
        rw [hend s.log s.updateHandle (fun q => h.not_begin_mem q _)] at hended
        cases hended
      obtain ⟨ok', tail, htask, htail⟩ := finishUpdate_of_end (p := p) hended
      have hnoTail : ∀ q ok, .setBootPartition q ok ∉ tail := by
        rcases htail with rfl | rfl <;> simp
      rw [htask] at hmem ⊢
      obtain ⟨rfl, rfl⟩ : q = p ∧ ok = ok' := by
        simpa [hno q ok, hnoTail q ok] using hmem
      refine ⟨⟨?_, ?_, s.updateHandle, ?_⟩, h.length⟩
      · dsimp only
        rw [received_append, received_append, h.received]
        rcases htail with rfl | rfl <;> exact (List.append_nil _).trans (List.append_nil _)
      · obtain ⟨c, rest, rfl⟩ := List.exists_cons_of_ne_nil hsome
        exact ⟨c, rfl, h.first c rfl⟩
      · dsimp only
        rw [otaCalls_append, otaCalls_append, h.calls, if_neg hsome]
        rcases htail with rfl | rfl <;> exact List.append_nil _

/-- What the task has done when it enters the loop. -/
theorem otaExampleTask_cases (env : Env L) (pvParameter : Option CString)
    (reads : List ReadResult) :
    NoSwitch (otaExampleTask env pvParameter reads).task.log ∨
      ∃ p s s', Progress L p [] s ∧ download env p reads s = .ok s' ∧
        otaExampleTask env pvParameter reads = finishUpdate env p s' := by
  unfold otaExampleTask
  cases CharArray.sprintf 100 (pvParameter.getD exampleServerUrl) with
  | error f => exact Or.inl (by simp [NoSwitch, Task.start])
  | ok ipAddress =>
      dsimp only
      split_ifs
      · exact Or.inl (by simp [NoSwitch, Task.start])
      · exact Or.inl (noSwitch_taskFatalError (by simp [NoSwitch, Task.start, Task.call]))
      · exact Or.inl (noSwitch_taskFatalError (by simp [NoSwitch, Task.start, Task.call]))
      · cases env.updatePartition with
        | none => exact Or.inl (by simp [NoSwitch, Task.start, Task.call])
        | some p =>
            have hstart : Progress L p [] (((Task.start.call
                (.httpInit ipAddress.str env.httpInit)).call (.httpOpen env.httpOpen)).call
                  .fetchHeaders) :=
              ⟨rfl, by simp, by simp [Task.start, Task.call], rfl, rfl⟩
            dsimp only
            split
            · next st herror => exact Or.inl (hstart.noSwitch_download herror)
            · next s' hok => exact Or.inr ⟨p, _, s', hstart, hok, rfl⟩

end Switch

/-- The boot partition is switched only to a completely written image, and `binary_file_length`
is then the number of its bytes as far as an `int` can tell. -/
theorem switchedAfter_of_switch {L : Layout} (env : Env L) (hend : EndNeedsBegin env)
    (pvParameter : Option CString) (reads : List ReadResult) (p : Partition) (ok : Bool)
    (hmem : .setBootPartition p ok ∈ (otaExampleTask env pvParameter reads).task.log) :
    ∃ chunks, SwitchedAfter L (otaExampleTask env pvParameter reads).task.log p ok chunks ∧
      (otaExampleTask env pvParameter reads).task.binaryFileLength =
        Int32.ofNat chunks.flatten.length ∧
      (chunks.flatten.length < 2 ^ 31 →
        (otaExampleTask env pvParameter reads).task.binaryFileLength.toInt =
          chunks.flatten.length) := by
  rcases otaExampleTask_cases env pvParameter reads with hno | ⟨q, s, s', hstart, hok, heq⟩
  · exact absurd hmem (hno p ok)
  · obtain ⟨chunks, hprogress⟩ := hstart.download hok
    rw [heq] at hmem ⊢
    obtain ⟨hswitched, hlength⟩ :=
      finishUpdate_of_switch hend hprogress hmem
    refine ⟨chunks, hswitched, hlength, fun hlt => ?_⟩
    rw [hlength, Int32.toInt_ofNat_of_lt hlt]

section Runs

def ota0 : Partition := 0x110000

/-- Libraries that succeed, `esp_ota_end` only on the handle that was begun. -/
def obliging : Env Layout.esp32 where
  ethGotIp := true
  httpInit := true
  httpOpen := true
  updatePartition := some ota0
  running := ⟨true, Buf.fill 256 1⟩
  lastInvalid := none
  otaBegin := fun _ => some 1
  otaWrite := fun _ _ _ => true
  otaEnd := fun log handle => decide (.otaBegin ota0 (some handle) ∈ log)
  setBoot := fun _ => true

theorem endNeedsBegin_obliging : EndNeedsBegin obliging :=
  fun _ _ hnone => decide_eq_false (hnone ota0)

def zeros (n : ℕ) (h : n ≤ buffsize) : Chunk := ⟨List.replicate n 0, by simpa using h⟩

def closed : ReadResult := .data (zeros 0 (by decide))

theorem switchedAfter_one_chunk : ∃ chunks,
    SwitchedAfter Layout.esp32 (otaExampleTask obliging none
      [.data (zeros 300 (by decide)), closed]).task.log ota0 true chunks ∧
    (otaExampleTask obliging none
      [.data (zeros 300 (by decide)), closed]).task.binaryFileLength.toInt =
        chunks.flatten.length := by
  obtain ⟨chunks, hswitched, _, hlength⟩ := switchedAfter_of_switch obliging
    endNeedsBegin_obliging none [.data (zeros 300 (by decide)), closed] ota0 true
    (by decide +kernel)
  refine ⟨chunks, hswitched, hlength ?_⟩
  rw [← hswitched.received]
  decide +kernel

theorem download_obliging {c : Chunk} (hne : c.bytes ≠ []) (n : ℕ) (s : Task)
    (hchecked : s.imageHeaderWasChecked = true) :
    ∃ calls s', download obliging ota0 (List.replicate n (.data c) ++ [closed]) s = .ok s' ∧
      s'.updateHandle = s.updateHandle ∧ s'.log = s.log ++ calls ∧
      received calls = List.replicate n c.bytes := by
  induction n generalizing s with
  | zero => exact ⟨[.httpRead closed], _, rfl, rfl, rfl, rfl⟩
  | succ n ih =>
      obtain ⟨t, hreceive, hchecked', hhandle, hlog⟩ :
          ∃ t, receive obliging ota0 (s.call (.httpRead (.data c))) c.bytes = .ok t ∧
            t.imageHeaderWasChecked = true ∧ t.updateHandle = s.updateHandle ∧
            t.log = s.log ++ [.httpRead (.data c)] ++ [.otaWrite s.updateHandle c.bytes true] :=
        ⟨_, (if_pos hchecked).trans (writeChunk_of_ok rfl), hchecked, rfl, rfl⟩
      obtain ⟨calls, s', hok, hhandle', hlog', hreceived⟩ := ih t hchecked'
      refine ⟨[.httpRead (.data c)] ++ [.otaWrite s.updateHandle c.bytes true] ++ calls, s', ?_,
        hhandle'.trans hhandle, ?_, ?_⟩
      · rw [List.replicate_succ, List.cons_append, download, if_neg hne, hreceive]
        exact hok
      · rw [hlog', hlog]
        simp only [List.append_assoc]
      · rw [received_append, hreceived]
        simp [received, Call.received?, hne, List.replicate_succ]

theorem otaExampleTask_of_download {L : Layout} {env : Env L} {pvParameter : Option CString}
    {reads : List ReadResult} {ipAddress : CharArray 100} {p : Partition} {s' : Task}
    (hip : CharArray.sprintf 100 (pvParameter.getD exampleServerUrl) = .ok ipAddress)
    (hgotIp : env.ethGotIp = true) (hinit : env.httpInit = true) (hopen : env.httpOpen = true)
    (hpartition : env.updatePartition = some p)
    (hdownload : download env p reads
      ⟨0, 0, false, [.httpInit ipAddress.str true, .httpOpen true, .fetchHeaders]⟩ = .ok s') :
    otaExampleTask env pvParameter reads = finishUpdate env p s' := by
  have hsetup : ((Task.start.call (.httpInit ipAddress.str true)).call (.httpOpen true)).call
      .fetchHeaders =
        ⟨0, 0, false, [.httpInit ipAddress.str true, .httpOpen true, .fetchHeaders]⟩ := rfl
  simp only [otaExampleTask, hip, hgotIp, hinit, hopen, hpartition, hsetup, hdownload,
    Bool.not_true, Bool.false_eq_true, if_false]

theorem otaExampleTask_obliging {c : Chunk} (hlen : Layout.esp32.headers < c.bytes.length)
    (hversion : (newAppInfo c.bytes hlen).version ≠ obliging.running.info.version) (n : ℕ) :
    ∃ st ok, otaExampleTask obliging none (List.replicate (n + 1) (.data c) ++ [closed]) = st ∧
      .setBootPartition ota0 ok ∈ st.task.log ∧
      received st.task.log = List.replicate (n + 1) c.bytes := by
  have hne : c.bytes ≠ [] := List.ne_nil_of_length_pos (by omega)
  have hurl : CharArray.sprintf 100 exampleServerUrl = .ok ⟨exampleServerUrl, by decide⟩ :=
    CharArray.sprintf_of_lt (by decide)
  let start : Task :=
    ⟨0, 0, false, [.httpInit exampleServerUrl true, .httpOpen true, .fetchHeaders]⟩
  obtain ⟨t, hreceive, hchecked, hhandle, hlog⟩ :
      ∃ t, receive obliging ota0 (start.call (.httpRead (.data c))) c.bytes = .ok t ∧
        t.imageHeaderWasChecked = true ∧ t.updateHandle = 1 ∧
        t.log = start.log ++ [.httpRead (.data c), .otaBegin ota0 (some 1),
          .otaWrite 1 c.bytes true] := by
    refine ⟨⟨1, 0 + Int32.ofNat c.bytes.length, true, _⟩, ?_, rfl, rfl, rfl⟩
    have hcheck : checkImageHeader obliging ota0 (start.call (.httpRead (.data c))) c.bytes = _ :=
      checkImageHeader_of_new hlen rfl hversion rfl
    apply (if_neg Bool.false_ne_true).trans
    rw [hcheck]
    exact writeChunk_of_ok (show obliging.otaWrite _ _ _ = true from rfl)
  obtain ⟨calls, s', hok, hhandle', hlog', hreceived⟩ := download_obliging hne n t hchecked
  have hdownload : download obliging ota0 (List.replicate (n + 1) (.data c) ++ [closed]) start =
      .ok s' := by
    rw [List.replicate_succ, List.cons_append, download, if_neg hne, hreceive]
    exact hok
  have htask : otaExampleTask obliging none (List.replicate (n + 1) (.data c) ++ [closed]) =
      finishUpdate obliging ota0 s' :=
    otaExampleTask_of_download hurl rfl rfl rfl rfl hdownload
  have hended : obliging.otaEnd s'.log s'.updateHandle = true := by
    apply decide_eq_true
    rw [hlog', hlog, hhandle', hhandle]
    simp
  obtain ⟨ok, tail, hfinish, htail⟩ := finishUpdate_of_end (p := ota0) hended
  refine ⟨_, ok, htask, ?_, ?_⟩
  · rw [hfinish]
    simp
  · rw [hfinish, hlog', hlog]
    dsimp only
    rw [received_append, received_append, received_append, hreceived, List.replicate_succ]
    have hfirst : received (start.log ++ [.httpRead (.data c), .otaBegin ota0 (some 1),
        .otaWrite 1 c.bytes true]) = [c.bytes] := by
      simp [received, Call.received?, hne, start, List.filterMap_cons]
    rw [hfirst]
    rcases htail with rfl | rfl <;> exact (List.append_nil _).trans (List.append_nil _)

/-- Two gibibytes are written and booted, but an `int` cannot hold their number. -/
theorem not_binaryFileLength : EndNeedsBegin obliging ∧ ∃ reads ok,
    .setBootPartition ota0 ok ∈ (otaExampleTask obliging none reads).task.log ∧
      ¬ ∃ chunks, SwitchedAfter Layout.esp32 (otaExampleTask obliging none reads).task.log
          ota0 ok chunks ∧
        (otaExampleTask obliging none reads).task.binaryFileLength.toInt =
          chunks.flatten.length := by
  obtain ⟨st, ok, hst, hmem, hreceived⟩ := otaExampleTask_obliging (c := zeros 1024 (by decide))
    (by decide +kernel) (by decide +kernel) (2 ^ 21 - 1)
  refine ⟨endNeedsBegin_obliging, _, ok, hst ▸ hmem, ?_⟩
  rintro ⟨chunks, hswitched, hlength⟩
  rw [hst] at hswitched hlength
  have hchunks := hswitched.received.symm.trans hreceived
  have htotal : chunks.flatten.length = 2 ^ 31 := by
    rw [hchunks, List.length_flatten, List.map_replicate, List.sum_replicate, zeros,
      List.length_replicate]
    norm_num
  have hlt := st.task.binaryFileLength.toInt_lt
  rw [hlength, htotal] at hlt
  norm_num at hlt

end Runs
end SnifferStaSend.OtaBootSwitch
