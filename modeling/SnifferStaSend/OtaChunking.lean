import SnifferStaSend.OtaVersionGate

/-!
# Downloads of one stream in different chunks

Two runs over the same stream, cut into reads in two ways. The version is looked for in the
first read alone, which must hold all three headers; behind it a chunk is only passed on, so
what the runs do then depends on the stream, up to where a failing write stops them.
-/

namespace SnifferStaSend.OtaChunking
open CLib Ota OtaBootSwitch OtaRun OtaVersionGate

section Observation

def Call.accepted : Call → List UInt8
  | .otaWrite _ data true => data
  | _ => []

def written (log : List Call) : List UInt8 := log.flatMap Call.accepted

def Call.isDecision : Call → Bool
  | .otaBegin .. | .otaEnd .. | .setBootPartition .. => true
  | _ => false

/-- The calls of `esp_ota_begin`, `esp_ota_end` and `esp_ota_set_boot_partition`. -/
def decisions (log : List Call) : List Call := log.filter Call.isDecision

def WriteFailed (log : List Call) : Prop := ∃ handle data, .otaWrite handle data false ∈ log

theorem written_append (log calls : List Call) :
    written (log ++ calls) = written log ++ written calls := List.flatMap_append

theorem decisions_append (log calls : List Call) :
    decisions (log ++ calls) = decisions log ++ decisions calls := List.filter_append log calls

theorem writeFailed_append {log calls : List Call} :
    WriteFailed (log ++ calls) ↔ WriteFailed log ∨ WriteFailed calls := by
  simp only [WriteFailed, List.mem_append, exists_or]

end Observation

variable {L : Layout}

/-- The library answers by the bytes written so far, and a write also by its own data. -/
structure ByBytes (env : Env L) : Prop where
  begins : ∀ log log', written log = written log' → env.otaBegin log = env.otaBegin log'
  writes : ∀ log log' handle data, written log = written log' →
    env.otaWrite log handle data = env.otaWrite log' handle data
  ends : ∀ log log' handle, written log = written log' →
    env.otaEnd log handle = env.otaEnd log' handle
  boots : ∀ log log', written log = written log' → env.setBoot log = env.setBoot log'

/-- A partition that has no room for some bytes has none for more. -/
def RefusalPersists (env : Env L) : Prop :=
  ∀ log log' handle data data', env.otaWrite log handle data = false →
    written log ++ data <+: written log' ++ data' → env.otaWrite log' handle data' = false

/-- `chunks` are the stream in non-empty reads. -/
structure Splits (stream : List UInt8) (chunks : List Chunk) : Prop where
  nonempty : ∀ c ∈ chunks, c.bytes ≠ []
  whole : (chunks.map Chunk.bytes).flatten = stream

/-- The reads, with the one of length 0 that ends them. -/
def readsOf (chunks : List Chunk) : List ReadResult := chunks.map .data ++ [closed]

def HeadersFirst (L : Layout) (chunks : List Chunk) : Prop :=
  ∃ c rest, chunks = c :: rest ∧ L.headers < c.bytes.length

structure SameDecisions (a b : Stopped) : Prop where
  outcome : a.outcome = b.outcome
  decisions : decisions a.task.log = decisions b.task.log

structure SameEnd (a b : Stopped) : Prop extends SameDecisions a b where
  bytes : written a.task.log = written b.task.log

section Loop

variable {env : Env L} {p : Partition} {s s' : Task} {handle : Handle} {done stream : List UInt8}

/-- The bytes `done` have been written to the handle that was begun. -/
structure Ready (p : Partition) (handle : Handle) (done : List UInt8) (s : Task) : Prop where
  kept : s.updateHandle = handle
  checked : s.imageHeaderWasChecked = true
  bytes : written s.log = done
  decisions : decisions s.log = [.otaBegin p (some handle)]
  unfailed : ¬ WriteFailed s.log

/-- They have been so by at least one call. -/
structure Fed (env : Env L) (p : Partition) (handle : Handle) (done : List UInt8) (s : Task) :
    Prop extends Ready p handle done s where
  last : ∃ log data, written log ++ data = done ∧ env.otaWrite log handle data = true

/-- A run that a failing write has stopped on its way through `stream`. -/
structure Broken (env : Env L) (p : Partition) (handle : Handle) (stream : List UInt8)
    (st : Stopped) : Prop where
  outcome : st.outcome = .deleted
  decisions : decisions st.task.log = [.otaBegin p (some handle)]
  failed : WriteFailed st.task.log
  refused : ∃ log data, written log ++ data <+: stream ∧ env.otaWrite log handle data = false

theorem Ready.read (h : Ready p handle done s) (read : ReadResult) :
    Ready p handle done (s.call (.httpRead read)) where
  kept := h.kept
  checked := h.checked
  bytes := by
    rw [Task.call, written_append, h.bytes]
    exact List.append_nil _
  decisions := by
    rw [Task.call, decisions_append, h.decisions]
    rfl
  unfailed := by
    rw [Task.call, writeFailed_append]
    rintro (hold | ⟨handle', data, hnew⟩)
    · exact h.unfailed hold
    · simp at hnew

theorem Ready.write (env : Env L) (h : Ready p handle done s) (data : List UInt8) :
    (∃ s', writeChunk env s data = .ok s' ∧ Fed env p handle (done ++ data) s') ∨
      ∃ st, writeChunk env s data = .error st ∧
        ∀ stream, done ++ data <+: stream → Broken env p handle stream st := by
  have hkept := h.kept
  cases hwrite : writeChunk env s data with
  | ok s' =>
      have hok : env.otaWrite s.log handle data = true := hkept ▸ otaWrite_of_ok hwrite
      obtain rfl := writeChunk_eq_ok hwrite
      refine Or.inl ⟨_, rfl, ⟨hkept, h.checked, ?_, ?_, ?_⟩, s.log, data, ?_, hok⟩
      · rw [written_append, h.bytes]
        simp [written, Call.accepted]
      · rw [decisions_append, h.decisions]
        rfl
      · rw [writeFailed_append]
        rintro (hold | ⟨handle', data', hnew⟩)
        · exact h.unfailed hold
        · simp at hnew
      · rw [h.bytes]
  | error st =>
      have hfailed : env.otaWrite s.log handle data = false := hkept ▸ otaWrite_of_error hwrite
      obtain rfl := writeChunk_eq_error hwrite
      refine Or.inr ⟨_, rfl, fun stream hpre => ⟨rfl, ?_, ?_, s.log, data, ?_, hfailed⟩⟩
      · rw [log_cleanedUp, log_call, decisions_append, decisions_append, h.decisions]
        rfl
      · exact ⟨s.updateHandle, data, by simp⟩
      · rw [h.bytes]
        exact hpre

/-- Behind the header check a chunk is passed on, and nothing else. -/
theorem Fed.download (chunks : List Chunk) (h : Fed env p handle done s)
    (hne : ∀ c ∈ chunks, c.bytes ≠ [])
    (hwhole : done ++ (chunks.map Chunk.bytes).flatten = stream) :
    (∃ s', download env p (readsOf chunks) s = .ok s' ∧ Fed env p handle stream s') ∨
      ∃ st, download env p (readsOf chunks) s = .error st ∧ Broken env p handle stream st := by
  induction chunks generalizing s done with
  | nil =>
      obtain rfl : done = stream := by simpa using hwhole
      exact Or.inl ⟨_, rfl, h.toReady.read closed, h.last⟩
  | cons c rest ih =>
      have hread := h.toReady.read (.data c)
      have hwhole' : (done ++ c.bytes) ++ (rest.map Chunk.bytes).flatten = stream := by
        rw [← hwhole]
        simp
      have hdownload : Ota.download env p (readsOf (c :: rest)) s =
          (writeChunk env (s.call (.httpRead (.data c))) c.bytes).bind
            (Ota.download env p (readsOf rest)) := by
        rw [readsOf, List.map_cons, List.cons_append, Ota.download,
          if_neg (hne c List.mem_cons_self), receive, if_pos hread.checked]
        rfl
      rw [hdownload]
      rcases hread.write env c.bytes with ⟨s', hok, hfed⟩ | ⟨st, herror, hbroken⟩
      · rw [hok]
        exact ih hfed (fun d hd => hne d (List.mem_cons_of_mem c hd)) hwhole'
      · rw [herror]
        exact Or.inr ⟨st, rfl, hbroken stream ⟨_, hwhole'⟩⟩

theorem finishUpdate_same (hby : ByBytes env) (p : Partition)
    (hhandle : s'.updateHandle = s.updateHandle) (hbytes : written s'.log = written s.log) :
    ∃ outcome calls, finishUpdate env p s = ⟨outcome, { s with log := s.log ++ calls }⟩ ∧
      finishUpdate env p s' = ⟨outcome, { s' with log := s'.log ++ calls }⟩ ∧
        written calls = [] ∧ ¬ WriteFailed calls := by
  have hend := hby.ends s'.log s.log s.updateHandle hbytes
  have hended : written (s'.log ++ [.otaEnd s.updateHandle true]) =
      written (s.log ++ [.otaEnd s.updateHandle true]) := by
    rw [written_append, written_append, hbytes]
  have hboot := hby.boots _ _ hended
  cases hok : env.otaEnd s.log s.updateHandle with
  | false =>
      rw [hok] at hend
      refine ⟨.restarted, [.otaEnd s.updateHandle false, .httpClose, .httpCleanup, .restart],
        ?_, ?_, rfl, by simp [WriteFailed]⟩
      · simp [finishUpdate, hok, espRestart, httpCleanup, Task.call]
      · simp [finishUpdate, hhandle, hend, espRestart, httpCleanup, Task.call]
  | true =>
      rw [hok] at hend
      cases hset : env.setBoot (s.log ++ [.otaEnd s.updateHandle true]) with
      | false =>
          rw [hset] at hboot
          refine ⟨.deleted, [.otaEnd s.updateHandle true, .setBootPartition p false, .httpClose,
            .httpCleanup, .getSettings, .taskDelete], ?_, ?_, rfl, by simp [WriteFailed]⟩
          · simp [finishUpdate, hok, hset, taskFatalError, httpCleanup, Task.call]
          · simp [finishUpdate, hhandle, hend, hboot, taskFatalError, httpCleanup, Task.call]
      | true =>
          rw [hset] at hboot
          refine ⟨.restarted, [.otaEnd s.updateHandle true, .setBootPartition p true, .restart],
            ?_, ?_, rfl, by simp [WriteFailed]⟩
          · simp [finishUpdate, hok, hset, espRestart, Task.call]
          · simp [finishUpdate, hhandle, hend, hboot, espRestart, Task.call]

theorem Fed.finish_unfailed (hby : ByBytes env) (h : Fed env p handle stream s) :
    ¬ WriteFailed (finishUpdate env p s).task.log := by
  obtain ⟨outcome, calls, heq, -, -, hcalls⟩ := finishUpdate_same hby p (s := s) rfl rfl
  rw [heq, writeFailed_append]
  exact not_or.mpr ⟨h.unfailed, hcalls⟩

theorem Fed.sameEnd (hby : ByBytes env) (h : Fed env p handle stream s)
    (h' : Fed env p handle stream s') :
    SameEnd (finishUpdate env p s) (finishUpdate env p s') := by
  obtain ⟨outcome, calls, heq, heq', -⟩ := finishUpdate_same hby p
    (h'.kept.trans h.kept.symm) (h'.bytes.trans h.bytes.symm)
  rw [heq, heq']
  refine ⟨⟨rfl, ?_⟩, ?_⟩
  · rw [decisions_append, decisions_append, h.decisions, h'.decisions]
  · rw [written_append, written_append, h.bytes, h'.bytes]

end Loop

section Ends

variable {env : Env L} {p : Partition} {stream : List UInt8} {a b : Stopped}

/-- A run that has not got as far as writing. -/
structure Unwritten (calls : List Call) (st : Stopped) : Prop where
  outcome : st.outcome = .deleted
  decisions : decisions st.task.log = calls
  bytes : written st.task.log = []
  unfailed : ¬ WriteFailed st.task.log

/-- How a run over `stream` ends, by what becomes of `esp_ota_begin`: not called, failed, or
successful. -/
inductive Ended (env : Env L) (p : Partition) (stream : List UInt8) :
    Option (Option Handle) → Stopped → Prop
  | rejected {st : Stopped} (h : Unwritten [] st) : Ended env p stream none st
  | unbegun {st : Stopped} (h : Unwritten [.otaBegin p none] st) :
      Ended env p stream (some none) st
  | fed {handle : Handle} {s : Task} (h : Fed env p handle stream s) :
      Ended env p stream (some (some handle)) (finishUpdate env p s)
  | broken {handle : Handle} {st : Stopped} (h : Broken env p handle stream st) :
      Ended env p stream (some (some handle)) st

structure Agree (env : Env L) (a b : Stopped) : Prop where
  begins : BeginCalled a.task.log ↔ BeginCalled b.task.log
  complete : ¬ WriteFailed a.task.log → ¬ WriteFailed b.task.log → SameEnd a b
  failing : RefusalPersists env →
    (WriteFailed a.task.log ↔ WriteFailed b.task.log) ∧ SameDecisions a b

theorem Agree.refl (env : Env L) (a : Stopped) : Agree env a a :=
  ⟨Iff.rfl, fun _ _ => ⟨⟨rfl, rfl⟩, rfl⟩, fun _ => ⟨Iff.rfl, ⟨rfl, rfl⟩⟩⟩

theorem beginCalled_iff_decisions {log : List Call} :
    BeginCalled log ↔ ∃ p result, .otaBegin p result ∈ decisions log := by
  simp [BeginCalled, decisions, Call.isDecision]

theorem Unwritten.agree {calls : List Call} (ha : Unwritten calls a) (hb : Unwritten calls b) :
    Agree env a b := by
  have hsame : SameDecisions a b :=
    ⟨ha.outcome.trans hb.outcome.symm, ha.decisions.trans hb.decisions.symm⟩
  constructor
  · rw [beginCalled_iff_decisions, beginCalled_iff_decisions, hsame.decisions]
  · intro _ _
    exact ⟨hsame, ha.bytes.trans hb.bytes.symm⟩
  · intro _
    exact ⟨iff_of_false ha.unfailed hb.unfailed, hsame⟩

variable {handle : Handle} {s : Task}

theorem Fed.beginCalled (h : Fed env p handle stream s) :
    BeginCalled (finishUpdate env p s).task.log := by
  have hmem : .otaBegin p (some handle) ∈ decisions s.log := by simp [h.decisions]
  exact ⟨p, some handle, (finishUpdate_grows env p s).subset (List.mem_of_mem_filter hmem)⟩

theorem Broken.beginCalled (h : Broken env p handle stream a) : BeginCalled a.task.log :=
  beginCalled_iff_decisions.mpr ⟨p, some handle, by simp [h.decisions]⟩

/-- The whole stream was taken by the end of one run, so no part of it was refused in another. -/
theorem Fed.not_broken (hpersists : RefusalPersists env) (h : Fed env p handle stream s)
    (hb : Broken env p handle stream b) : False := by
  obtain ⟨log, data, hwhole, haccepted⟩ := h.last
  obtain ⟨log', data', hpart, hrefused⟩ := hb.refused
  have hno := hpersists log' log handle data' data hrefused (hwhole ▸ hpart)
  exact Bool.false_ne_true (hno.symm.trans haccepted)

theorem Ended.agree (hby : ByBytes env) {verdict : Option (Option Handle)}
    (ha : Ended env p stream verdict a) (hb : Ended env p stream verdict b) : Agree env a b := by
  cases ha with
  | rejected ha =>
      cases hb with
      | rejected hb => exact ha.agree hb
  | unbegun ha =>
      cases hb with
      | unbegun hb => exact ha.agree hb
  | fed ha =>
      cases hb with
      | fed hb =>
          have hend := ha.sameEnd hby hb
          refine ⟨iff_of_true ha.beginCalled hb.beginCalled, fun _ _ => hend, fun _ => ⟨?_, ?_⟩⟩
          · exact iff_of_false (ha.finish_unfailed hby) (hb.finish_unfailed hby)
          · exact hend.toSameDecisions
      | broken hb =>
          refine ⟨iff_of_true ha.beginCalled hb.beginCalled, ?_, ?_⟩
          · intro _ hunfailed
            exact absurd hb.failed hunfailed
          · intro hpersists
            exact (ha.not_broken hpersists hb).elim
  | broken ha =>
      cases hb with
      | fed hb =>
          refine ⟨iff_of_true ha.beginCalled hb.beginCalled, ?_, ?_⟩
          · intro hunfailed
            exact absurd ha.failed hunfailed
          · intro hpersists
            exact (hb.not_broken hpersists ha).elim
      | broken hb =>
          refine ⟨iff_of_true ha.beginCalled hb.beginCalled, ?_, fun _ => ⟨?_, ?_⟩⟩
          · intro hunfailed
            exact absurd ha.failed hunfailed
          · exact iff_of_true ha.failed hb.failed
          · exact ⟨ha.outcome.trans hb.outcome.symm, ha.decisions.trans hb.decisions.symm⟩

end Ends

section First

variable {env : Env L} {p : Partition} {stream : List UInt8} {chunks : List Chunk}
  {pvParameter : Option CString} {ipAddress : CharArray 100}

theorem newAppInfo_of_prefix {data : List UInt8} (hpre : data <+: stream)
    (hlen : L.headers < data.length) (hlong : L.headers < stream.length) :
    newAppInfo data hlen = newAppInfo stream hlong := by
  obtain ⟨rest, rfl⟩ := hpre
  rw [Layout.headers] at hlen
  apply Buf.ext
  simp only [newAppInfo]
  rw [List.drop_append_of_le_length (by omega), List.take_append_of_le_length]
  rw [List.length_drop]
  omega

def verdict (env : Env L) (hlong : L.headers < stream.length) : Option (Option Handle) :=
  if sameAsInvalid env (newAppInfo stream hlong) = false ∧
      (newAppInfo stream hlong).version ≠ env.running.info.version then some (env.otaBegin [])
  else none

theorem download_first (env : Env L) (p : Partition) (url : CString) {c : Chunk}
    (rest : List Chunk) (hne : c.bytes ≠ []) :
    download env p (readsOf (c :: rest)) (opened url) =
      (receive env p ((opened url).call (.httpRead (.data c))) c.bytes).bind
        (download env p (readsOf rest)) := by
  rw [readsOf, List.map_cons, List.cons_append, download, if_neg hne]
  rfl

theorem receive_of_short {s : Task} {c : Chunk} (hshort : ¬ L.headers < c.bytes.length)
    (hunchecked : s.imageHeaderWasChecked = false) :
    receive env p s c.bytes = .error (taskFatalError (httpCleanup s)) := by
  rw [receive, if_neg (by simp [hunchecked]), checkImageHeader, dif_neg hshort]
  rfl

theorem unwritten_rejected (url : CString) (c : Chunk) :
    Unwritten [] (taskFatalError (httpCleanup ((opened url).call (.httpRead (.data c))))) where
  outcome := rfl
  decisions := rfl
  bytes := rfl
  unfailed := by simp [WriteFailed, opened]

theorem unwritten_unbegun (p : Partition) (url : CString) (c : Chunk) :
    Unwritten [.otaBegin p none] (taskFatalError (httpCleanup (Task.call
      { (opened url).call (.httpRead (.data c)) with imageHeaderWasChecked := true }
        (.otaBegin p none)))) where
  outcome := rfl
  decisions := rfl
  bytes := rfl
  unfailed := by simp [WriteFailed, opened]

theorem ready_begun (p : Partition) (handle : Handle) (url : CString) (c : Chunk) (len : Int32) :
    Ready p handle [] ⟨handle, len, true,
      ((opened url).call (.httpRead (.data c))).log ++ [.otaBegin p (some handle)]⟩ where
  kept := rfl
  checked := rfl
  bytes := rfl
  decisions := rfl
  unfailed := by simp [WriteFailed, opened, Task.call]

theorem Connects.ended (h : Connects env pvParameter ipAddress p) (hby : ByBytes env)
    (hsplit : Splits stream chunks) (hlong : L.headers < stream.length)
    (hfirst : HeadersFirst L chunks) :
    Ended env p stream (verdict env hlong) (otaExampleTask env pvParameter (readsOf chunks)) := by
  obtain ⟨c, rest, rfl, hlen⟩ := hfirst
  have hwhole : c.bytes ++ (rest.map Chunk.bytes).flatten = stream := hsplit.whole
  have hdownload := download_first env p ipAddress.str rest (hsplit.nonempty c List.mem_cons_self)
  have hinfo := newAppInfo_of_prefix ⟨_, hwhole⟩ hlen hlong
  by_cases hnew : sameAsInvalid env (newAppInfo c.bytes hlen) = false ∧
      (newAppInfo c.bytes hlen).version ≠ env.running.info.version
  · have hverdict : verdict env hlong = some (env.otaBegin []) := if_pos (hinfo ▸ hnew)
    rw [hverdict]
    have hreceive : receive env p ((opened ipAddress.str).call (.httpRead (.data c))) c.bytes =
        (checkImageHeader env p ((opened ipAddress.str).call (.httpRead (.data c)))
          c.bytes).bind (fun s => writeChunk env s c.bytes) := rfl
    have hbegins : env.otaBegin ((opened ipAddress.str).call (.httpRead (.data c))).log =
        env.otaBegin [] := hby.begins _ _ rfl
    cases hbegin : env.otaBegin [] with
    | none =>
        rw [hreceive, checkImageHeader_of_begin_failed hlen hnew.1 hnew.2
          (hbegins.trans hbegin)] at hdownload
        rw [h.of_error hdownload]
        exact .unbegun (unwritten_unbegun p ipAddress.str c)
    | some handle =>
        rw [hreceive, checkImageHeader_of_new hlen hnew.1 hnew.2
          (hbegins.trans hbegin)] at hdownload
        change _ = (writeChunk env _ c.bytes).bind (download env p (readsOf rest)) at hdownload
        have hready := ready_begun p handle ipAddress.str c
          ((opened ipAddress.str).call (.httpRead (.data c))).binaryFileLength
        rcases hready.write env c.bytes with ⟨s, hok, hfed⟩ | ⟨st, herror, hbroken⟩
        · -- the rest of the stream goes behind the first chunk
          rw [hok] at hdownload
          have hlater : ∀ d ∈ rest, d.bytes ≠ [] :=
            fun d hd => hsplit.nonempty d (List.mem_cons_of_mem c hd)
          rcases hfed.download rest hlater hwhole with ⟨s', hdone, hfed'⟩ | ⟨st, herror, hbroken⟩
          · rw [h.of_ok (hdownload.trans hdone)]
            exact .fed hfed'
          · rw [h.of_error (hdownload.trans herror)]
            exact .broken hbroken
        · rw [herror] at hdownload
          rw [h.of_error hdownload]
          exact .broken (hbroken stream ⟨_, hwhole⟩)
  · have hverdict : verdict env hlong = none := if_neg (hinfo ▸ hnew)
    rw [receive_of_refused hlen rfl hnew] at hdownload
    rw [hverdict, h.of_error hdownload]
    exact .rejected (unwritten_rejected ipAddress.str c)

theorem Connects.ended_short (h : Connects env pvParameter ipAddress p)
    (hsplit : Splits stream chunks) (hlong : L.headers < stream.length)
    (hfirst : ¬ HeadersFirst L chunks) :
    Ended env p stream none (otaExampleTask env pvParameter (readsOf chunks)) := by
  cases chunks with
  | nil =>
      have hnil : stream = [] := hsplit.whole.symm
      rw [hnil] at hlong
      exact absurd hlong (Nat.not_lt_zero _)
  | cons c rest =>
      have hshort : ¬ L.headers < c.bytes.length := fun hlen => hfirst ⟨c, rest, rfl, hlen⟩
      have hdownload := download_first env p ipAddress.str rest
        (hsplit.nonempty c List.mem_cons_self)
      rw [receive_of_short hshort rfl] at hdownload
      rw [h.of_error hdownload]
      exact .rejected (unwritten_rejected ipAddress.str c)

end First

/-- Two ways of cutting a stream, with the headers in the first read of both or of neither: the
runs decide alike about `esp_ota_begin`, and alike about everything unless a write fails. -/
theorem agree_of_splits (env : Env L) (hby : ByBytes env) (pvParameter : Option CString)
    {stream : List UInt8} (hlong : L.headers < stream.length) {chunks chunks' : List Chunk}
    (hsplit : Splits stream chunks) (hsplit' : Splits stream chunks')
    (hfirst : HeadersFirst L chunks ↔ HeadersFirst L chunks') :
    Agree env (otaExampleTask env pvParameter (readsOf chunks))
      (otaExampleTask env pvParameter (readsOf chunks')) := by
  rcases connects_or_constant env pvParameter with ⟨ipAddress, p, h⟩ | ⟨st, -, hconstant⟩
  · by_cases hheaders : HeadersFirst L chunks
    · have hended := Connects.ended h hby hsplit hlong hheaders
      exact hended.agree hby (Connects.ended h hby hsplit' hlong (hfirst.mp hheaders))
    · have hended := Connects.ended_short h hsplit hlong hheaders
      exact hended.agree hby
        (Connects.ended_short h hsplit' hlong (fun hno => hheaders (hfirst.mpr hno)))
  · rw [hconstant (readsOf chunks), hconstant (readsOf chunks')]
    exact .refl env st

/-- Libraries that take over a write by the number of bytes that it leads to. -/
def admitting (takes : ℕ → Bool) : Env Layout.esp32 :=
  { obliging with
    otaWrite := fun log _ data => takes (written log ++ data).length
    otaEnd := fun log _ => decide (written log ≠ []) }

theorem byBytes_admitting (takes : ℕ → Bool) : ByBytes (admitting takes) where
  begins := fun _ _ _ => rfl
  writes := fun _ _ _ data h => congrArg (fun w => takes (w ++ data).length) h
  ends := fun _ _ _ h => congrArg (fun w => decide (w ≠ [])) h
  boots := fun _ _ _ => rfl

theorem splits_zeros {n m : ℕ} (hn : n ≤ buffsize) (hm : m ≤ buffsize) (hpos : 0 < n)
    (hpos' : 0 < m) : Splits (List.replicate (n + m) 0) [zeros n hn, zeros m hm] where
  nonempty := by
    intro c hc
    rcases List.mem_pair.mp hc with rfl | rfl
    · exact List.ne_nil_of_length_pos (by simpa [zeros] using hpos)
    · exact List.ne_nil_of_length_pos (by simpa [zeros] using hpos')
  whole := by simp [zeros]

theorem splits_one {n : ℕ} (hn : n ≤ buffsize) (hpos : 0 < n) :
    Splits (List.replicate n 0) [zeros n hn] where
  nonempty := by
    intro c hc
    obtain rfl := List.mem_singleton.mp hc
    exact List.ne_nil_of_length_pos (by simpa [zeros] using hpos)
  whole := by simp [zeros]

theorem agree_four_hundred : Agree (admitting fun _ => true)
    (otaExampleTask (admitting fun _ => true) none (readsOf [zeros 400 (by decide)]))
    (otaExampleTask (admitting fun _ => true) none
      (readsOf [zeros 300 (by decide), zeros 100 (by decide)])) :=
  agree_of_splits _ (byBytes_admitting _) none
    (by decide +kernel : Layout.esp32.headers < (List.replicate 400 (0 : UInt8)).length)
    (splits_one (by decide) (by decide))
    (splits_zeros (n := 300) (m := 100) (by decide) (by decide) (by decide) (by decide))
    (iff_of_true ⟨_, _, rfl, by decide +kernel⟩ ⟨_, _, rfl, by decide +kernel⟩)

/-- The same 300 bytes in one read and in two: the first run makes them bootable, the second one
does not begin. -/
theorem not_sameDecisions_of_splits :
    ByBytes (admitting fun _ => true) ∧ Layout.esp32.headers < (List.replicate 300 (0 : UInt8)).length ∧
      Splits (List.replicate 300 0) [zeros 300 (by decide)] ∧
      Splits (List.replicate 300 0) [zeros 100 (by decide), zeros 200 (by decide)] ∧
      decisions (otaExampleTask (admitting fun _ => true) none
        (readsOf [zeros 300 (by decide)])).task.log =
          [.otaBegin ota0 (some 1), .otaEnd 1 true, .setBootPartition ota0 true] ∧
      decisions (otaExampleTask (admitting fun _ => true) none
        (readsOf [zeros 100 (by decide), zeros 200 (by decide)])).task.log = [] :=
  ⟨byBytes_admitting _, by decide +kernel, splits_one (by decide) (by decide),
    splits_zeros (n := 100) (m := 200) (by decide) (by decide) (by decide) (by decide),
    by decide +kernel, by decide +kernel⟩

/-- With room for 500 bytes, one read of 600 leaves nothing in the partition and two reads leave
300 bytes. -/
example :
    (written (otaExampleTask (admitting fun n => decide (n ≤ 500)) none
      (readsOf [zeros 600 (by decide)])).task.log).length = 0 ∧
    (written (otaExampleTask (admitting fun n => decide (n ≤ 500)) none
      (readsOf [zeros 300 (by decide), zeros 300 (by decide)])).task.log).length = 300 := by
  decide +kernel

end SnifferStaSend.OtaChunking
