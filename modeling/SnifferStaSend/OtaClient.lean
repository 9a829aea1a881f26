import SnifferStaSend.EventTask
import SnifferStaSend.OtaRun

/-!
# Ownership of the HTTP client

The rules for a client handle as an automaton over the calls: a client is opened once, read
while it is open, closed only when it has been opened, and cleaned up last. The task follows
them in every run, and what ownership means is read off the automaton.
-/

namespace SnifferStaSend.OtaClient
open CLib Ota OtaRun

inductive Client
  | unused | null | allocated | opened | unopened | closed | cleaned
  deriving DecidableEq

def Call.usesClient : Call → Bool
  | .httpOpen _ | .fetchHeaders | .httpRead _ | .httpClose | .httpCleanup => true
  | _ => false

/-- A task may end itself only when it owns no client. -/
def Client.step (c : Client) : Call → Option Client
  | .httpInit _ ok => if c = .unused then some (if ok then .allocated else .null) else none
  | .httpOpen ok => if c = .allocated then some (if ok then .opened else .unopened) else none
  | .fetchHeaders | .httpRead _ => if c = .opened then some .opened else none
  | .httpClose => if c = .opened then some .closed else none
  | .httpCleanup => if c = .unopened ∨ c = .closed then some .cleaned else none
  | .taskDelete => if c = .null ∨ c = .cleaned then some c else none
  | _ => some c

section Automaton

/-- What the state of the automaton tells about the calls it has accepted. -/
structure Used (log : List Call) (c : Client) : Prop where
  cleanups : log.count .httpCleanup = if c = .cleaned then 1 else 0
  opened : c = .opened → .httpOpen true ∈ log
  null : (∃ url, .httpInit url false ∈ log) → c = .null
  unowned : c = .unused ∨ c = .null →
    ∀ d ∈ log, Call.usesClient d = false ∧ ∀ url, d ≠ .httpInit url true

theorem used_nil : Used [] .unused where
  cleanups := rfl
  opened := by simp
  null := by simp
  unowned := by simp

theorem Client.step_cases {c c' : Client} {d : Call} (h : c.step d = some c') :
    (∃ url ok, d = .httpInit url ok ∧ c = .unused ∧ c' = if ok then .allocated else .null) ∨
    (∃ ok, d = .httpOpen ok ∧ c = .allocated ∧ c' = if ok then .opened else .unopened) ∨
    (Call.usesClient d = true ∧ d ≠ .httpCleanup ∧ c = .opened ∧ (c' = .opened ∨ c' = .closed)) ∨
    (d = .httpCleanup ∧ (c = .unopened ∨ c = .closed) ∧ c' = .cleaned) ∨
    (Call.usesClient d = false ∧ (∀ url ok, d ≠ .httpInit url ok) ∧ c' = c) := by
  cases d with
  | httpInit url ok =>
      obtain ⟨hc, heq⟩ := Option.ite_none_right_eq_some.mp h
      exact Or.inl ⟨url, ok, rfl, hc, (Option.some.inj heq).symm⟩
  | httpOpen ok =>
      obtain ⟨hc, heq⟩ := Option.ite_none_right_eq_some.mp h
      exact Or.inr (Or.inl ⟨ok, rfl, hc, (Option.some.inj heq).symm⟩)
  | fetchHeaders | httpRead =>
      obtain ⟨hc, heq⟩ := Option.ite_none_right_eq_some.mp h
      exact Or.inr (Or.inr (Or.inl ⟨rfl, by simp, hc, Or.inl (Option.some.inj heq).symm⟩))
  | httpClose =>
      obtain ⟨hc, heq⟩ := Option.ite_none_right_eq_some.mp h
      exact Or.inr (Or.inr (Or.inl ⟨rfl, by simp, hc, Or.inr (Option.some.inj heq).symm⟩))
  | httpCleanup =>
      obtain ⟨hc, heq⟩ := Option.ite_none_right_eq_some.mp h
      exact Or.inr (Or.inr (Or.inr (Or.inl ⟨rfl, hc, (Option.some.inj heq).symm⟩)))
  | taskDelete =>
      obtain ⟨_, heq⟩ := Option.ite_none_right_eq_some.mp h
      exact Or.inr (Or.inr (Or.inr (Or.inr ⟨rfl, by simp, (Option.some.inj heq).symm⟩)))
  | _ => exact Or.inr (Or.inr (Or.inr (Or.inr ⟨rfl, by simp, (Option.some.inj h).symm⟩)))

theorem Used.step {log : List Call} {c c' : Client} {d : Call} (h : Used log c)
    (hd : c.step d = some c') : Used (log ++ [d]) c' where
  cleanups := by
    rw [List.count_append, h.cleanups, List.count_singleton]
    rcases Client.step_cases hd with ⟨url, ok, rfl, rfl, rfl⟩ | ⟨ok, rfl, rfl, rfl⟩ |
      ⟨_, hne, rfl, rfl | rfl⟩ | ⟨rfl, rfl | rfl, rfl⟩ | ⟨hquiet, _, rfl⟩
    · cases ok <;> rfl
    · cases ok <;> rfl
    · simp [hne]
    · simp [hne]
    · rfl
    · rfl
    · have hne : d ≠ .httpCleanup := by
        rintro rfl
        cases hquiet
      simp [hne]
  opened := by
    rintro rfl
    rcases Client.step_cases hd with ⟨_, ok, _, _, heq⟩ | ⟨ok, rfl, _, heq⟩ |
      ⟨_, _, hc, _⟩ | ⟨_, _, heq⟩ | ⟨_, _, rfl⟩
    · cases ok <;> cases heq
    · cases ok with
      | true => exact List.mem_append_right _ List.mem_cons_self
      | false => cases heq
    · exact List.mem_append_left _ (h.opened hc)
    · cases heq
    · exact List.mem_append_left _ (h.opened rfl)
  null := by
    rintro ⟨url, hmem⟩
    have hold (hin : .httpInit url false ∈ log) : c = .null := h.null ⟨url, hin⟩
    rcases List.mem_append.mp hmem with hin | hnew
    · obtain rfl := hold hin
      rcases Client.step_cases hd with ⟨_, _, _, hc, _⟩ | ⟨_, _, hc, _⟩ | ⟨_, _, hc, _⟩ |
        ⟨_, hc | hc, _⟩ | ⟨_, _, rfl⟩
      all_goals first | rfl | cases hc
    · obtain rfl := List.mem_singleton.mp hnew
      obtain ⟨_, heq⟩ := Option.ite_none_right_eq_some.mp hd
      exact (Option.some.inj heq).symm
  unowned := by
    intro hc'
    have hnew : (c = .unused ∨ c = .null) ∧ Call.usesClient d = false ∧
        ∀ url, d ≠ .httpInit url true := by
      rcases Client.step_cases hd with ⟨url, ok, rfl, rfl, rfl⟩ | ⟨ok, _, _, rfl⟩ |
        ⟨_, _, _, rfl | rfl⟩ | ⟨_, _, rfl⟩ | ⟨hquiet, hinit, rfl⟩
      · cases ok with
        | true => simp at hc'
        | false => exact ⟨Or.inl rfl, rfl, by simp⟩
      · cases ok <;> simp at hc'
      · simp at hc'
      · simp at hc'
      · simp at hc'
      · exact ⟨hc', hquiet, fun url => hinit url true⟩
    intro e he
    rcases List.mem_append.mp he with hin | hlast
    · exact h.unowned hnew.1 e hin
    · rw [List.mem_singleton.mp hlast]
      exact hnew.2

theorem used_of_run {log : List Call} {c : Client} (h : run Client.step .unused log = some c) :
    Used log c :=
  run_invariant Client.step (fun _ _ _ _ hused hd => hused.step hd) used_nil h

theorem run_cleaned {log : List Call} {c : Client} (h : run Client.step .cleaned log = some c) :
    ∀ d ∈ log, Call.usesClient d = false := by
  induction log with
  | nil => simp
  | cons d log ih =>
      rw [run_cons] at h
      obtain ⟨c', hd, hrest⟩ := Option.bind_eq_some_iff.mp h
      rcases Client.step_cases hd with ⟨_, _, _, hc, _⟩ | ⟨_, _, hc, _⟩ | ⟨_, _, hc, _⟩ |
        ⟨_, hc | hc, _⟩ | ⟨hquiet, _, rfl⟩
      all_goals first | cases hc | skip
      exact List.forall_mem_cons.mpr ⟨hquiet, ih hrest⟩

end Automaton

structure ClientOwned (st : Stopped) : Prop where
  /-- `task_fatal_error` is entered with the client cleaned up, once. -/
  released : st.outcome = .deleted → ∃ before,
    st.task.log = before ++ [.getSettings, .taskDelete] ∧
      ((∃ url, .httpInit url true ∈ before) → before.count .httpCleanup = 1)
  atMostOnce : st.task.log.count .httpCleanup ≤ 1
  last : ∀ before after, st.task.log = before ++ .httpCleanup :: after →
    ∀ d ∈ after, Call.usesClient d = false
  closedAfterOpen : ∀ before after, st.task.log = before ++ .httpClose :: after →
    .httpOpen true ∈ before
  null : (∃ url, .httpInit url false ∈ st.task.log) →
    ∀ d ∈ st.task.log, Call.usesClient d = false

theorem clientOwned_of_run {st : Stopped} {c : Client}
    (h : run Client.step .unused st.task.log = some c)
    (hdeleted : st.outcome = .deleted → ∃ before,
      st.task.log = before ++ [.getSettings, .taskDelete]) : ClientOwned st where
  released := by
    intro hout
    obtain ⟨before, hlog⟩ := hdeleted hout
    refine ⟨before, hlog, ?_⟩
    rintro ⟨url, hinit⟩
    rw [hlog] at h
    obtain ⟨c', hbefore, htail⟩ := (run_append_eq_some _).mp h
    have hused := used_of_run hbefore
    obtain ⟨hend, _⟩ := Option.ite_none_right_eq_some.mp
      (show Client.step c' .taskDelete = some c by simpa [run_cons, Client.step] using htail)
    rcases hend with rfl | rfl
    · exact absurd rfl ((hused.unowned (Or.inr rfl) _ hinit).2 url)
    · exact hused.cleanups
  atMostOnce := by
    rw [(used_of_run h).cleanups]
    split_ifs <;> omega
  last := by
    intro before after hlog
    rw [hlog] at h
    obtain ⟨c', _, htail⟩ := (run_append_eq_some _).mp h
    rw [run_cons] at htail
    obtain ⟨c'', hcleanup, hafter⟩ := Option.bind_eq_some_iff.mp htail
    obtain ⟨_, heq⟩ := Option.ite_none_right_eq_some.mp hcleanup
    rw [← Option.some.inj heq] at hafter
    exact run_cleaned hafter
  closedAfterOpen := by
    intro before after hlog
    rw [hlog] at h
    obtain ⟨c', hbefore, htail⟩ := (run_append_eq_some _).mp h
    rw [run_cons] at htail
    obtain ⟨c'', hclose, _⟩ := Option.bind_eq_some_iff.mp htail
    obtain ⟨hopen, _⟩ := Option.ite_none_right_eq_some.mp hclose
    exact (used_of_run hbefore).opened hopen
  null := by
    intro hinit d hd
    have hused := used_of_run h
    exact (hused.unowned (Or.inr (hused.null hinit)) d hd).1

section Runs

variable {L : Layout} {env : Env L} {p : Partition} {url : CString} {chunks : List (List UInt8)}
  {s t : Task} {calls : List Call}

theorem run_of_downloading (h : Downloading L p url chunks s) :
    run Client.step .unused s.log = some .opened := by
  obtain ⟨calls, hlog, hcalls⟩ := h.loop
  rw [hlog]
  refine (run_append_eq_some _).mpr ⟨.opened, rfl, run_of_fixed _ ?_⟩
  intro c hc
  have hin := hcalls c hc
  cases c with
  | httpRead | otaBegin | otaWrite => rfl
  | _ => cases hin

theorem run_of_refused (h : Downloading L p url chunks s) (hlog : t.log = s.log ++ calls)
    (hcalls : Refused p s calls) : run Client.step .unused t.log = some .opened := by
  rw [hlog]
  refine (run_append_eq_some _).mpr ⟨.opened, run_of_downloading h, ?_⟩
  cases hcalls <;> rfl

theorem clientOwned_fatal (h : run Client.step .unused t.log = some .opened) :
    ClientOwned (taskFatalError (httpCleanup t)) := by
  have hlog : (taskFatalError (httpCleanup t)).task.log =
      t.log ++ [.httpClose, .httpCleanup, .getSettings, .taskDelete] := by
    simp [taskFatalError, httpCleanup, Task.call]
  refine clientOwned_of_run (c := .cleaned) ?_ (fun _ => ⟨(httpCleanup t).log, ?_⟩)
  · rw [hlog]
    exact (run_append_eq_some _).mpr ⟨.opened, h, rfl⟩
  · rw [hlog]
    simp [httpCleanup, Task.call]

end Runs

/-- In every run the task owns the client from a successful init to its clean-up. -/
theorem clientOwned {L : Layout} (env : Env L) (pvParameter : Option CString)
    (reads : List ReadResult) : ClientOwned (otaExampleTask env pvParameter reads) := by
  have hrun := otaExampleTask_run env pvParameter reads
  generalize otaExampleTask env pvParameter reads = st at hrun ⊢
  cases hrun with
  | fault f => exact clientOwned_of_run (c := .unused) rfl (by simp)
  | noAddress => exact clientOwned_of_run (c := .unused) rfl (by simp)
  | noClient url =>
      exact clientOwned_of_run (c := .null) rfl (fun _ => ⟨[.httpInit url false], rfl⟩)
  | notOpened url =>
      exact clientOwned_of_run (c := .cleaned) rfl
        (fun _ => ⟨[.httpInit url true, .httpOpen false, .httpCleanup], rfl⟩)
  | noPartition url => exact clientOwned_of_run (c := .opened) rfl (by simp)
  | reading h => exact clientOwned_of_run (run_of_downloading h) (by simp)
  | refused h hlog hcalls => exact clientOwned_fatal (run_of_refused h hlog hcalls)
  | @finished p url chunks s h =>
      have hopen := run_of_downloading h
      rcases finishUpdate_cases env p s with heq | heq | heq <;> rw [heq]
      · refine clientOwned_of_run (c := .cleaned) ?_ (by simp [espRestart])
        simp only [espRestart, httpCleanup, Task.call, List.append_assoc]
        exact (run_append_eq_some _).mpr ⟨.opened, hopen, rfl⟩
      · apply clientOwned_fatal
        simp only [Task.call, List.append_assoc]
        exact (run_append_eq_some _).mpr ⟨.opened, hopen, rfl⟩
      · refine clientOwned_of_run (c := .opened) ?_ (by simp [espRestart])
        simp only [espRestart, Task.call, List.append_assoc]
        exact (run_append_eq_some _).mpr ⟨.opened, hopen, rfl⟩

end SnifferStaSend.OtaClient
