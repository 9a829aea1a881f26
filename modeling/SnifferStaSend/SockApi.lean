import Mathlib.Tactic.IntervalCases
import SnifferStaSend.EventTask
import SnifferStaSend.SockClient

/-!
# The client sockets, task by task

`sock_client_init.c` keeps four sockets in globals. Each has an initialiser, two can be closed,
and the settings client and the two senders of `sniffer.c` send from theirs. Here any number of
tasks make these calls and interleave between any two accesses to a global or to lwIP, so that
an initialiser may run again, in the event task, while another task sends from the same socket.
-/

namespace SnifferStaSend.SockClient

/-- `close`: it frees an open descriptor and fails on anything else. -/
def Pool.close (p : Pool) (fd : ℤ) : Bool × Pool :=
  if p.bind fd then (true, { p with slots := p.slots.set (fd.toNat - p.firstFd) none })
  else (false, p)

variable {p : Pool} {fd fd' : ℤ} {o : Owner}

theorem Pool.bind_iff : p.bind fd = true ↔
    ∃ k x, fd = ((p.firstFd + k : ℕ) : ℤ) ∧ p.slots[k]? = some (some x) := by
  simp only [Pool.bind, Bool.and_eq_true, decide_eq_true_eq, Option.isSome_iff_exists,
    Option.join_eq_some_iff]
  constructor
  · rintro ⟨⟨hnonneg, hfirst⟩, x, hx⟩
    exact ⟨fd.toNat - p.firstFd, x, by omega, hx⟩
  · rintro ⟨k, x, rfl, hx⟩
    refine ⟨⟨by omega, by omega⟩, x, ?_⟩
    rw [Int.toNat_natCast, Nat.add_sub_cancel_left]
    exact hx

/-- A `socket` that succeeds returns a descriptor that was not open; the others stay open. -/
theorem Pool.socket_spec (p : Pool) (o : Owner) :
    (p.socket o = (-1, p) ∧ p.free = 0) ∨
      ∃ fd p', p.socket o = (fd, p') ∧ fd ≠ -1 ∧ p.bind fd = false ∧ p'.bind fd = true ∧
        (∀ fd', p.bind fd' = true → p'.bind fd' = true) ∧ p'.free + 1 = p.free ∧
        p'.firstFd = p.firstFd := by
  rcases Nat.eq_zero_or_pos p.free with hfull | hfree
  · exact Or.inl ⟨Pool.socket_of_full o hfull, hfull⟩
  · obtain ⟨i, hi, hsock⟩ := Pool.socket_of_free o hfree
    refine Or.inr ⟨_, _, hsock, by omega, ?_, Pool.bind_of_set o hi, ?_, (count_set_none o hi o).1,
      rfl⟩
    · rw [Bool.eq_false_iff]
      intro hopen
      obtain ⟨k, x, hk, hx⟩ := Pool.bind_iff.mp hopen
      have hsame : i = k := by omega
      rw [hsame, hx] at hi
      cases hi
    · intro fd' hopen
      obtain ⟨k, x, rfl, hx⟩ := Pool.bind_iff.mp hopen
      refine Pool.bind_iff.mpr ⟨k, x, rfl, ?_⟩
      have hne : i ≠ k := by
        rintro rfl
        rw [hx] at hi
        cases hi
      exact (List.getElem?_set_ne hne).trans hx

theorem count_set_some {l : List (Option Owner)} {k : ℕ} {x : Owner} (h : l[k]? = some (some x)) :
    (l.set k none).count none = l.count none + 1 := by
  induction l generalizing k with
  | nil => cases h
  | cons a l ih =>
      cases k with
      | zero =>
          have ha : a = some x := by simpa using h
          simp [ha]
      | succ k =>
          have hrest := ih (k := k) (by simpa using h)
          simp only [List.set_cons_succ, List.count_cons, hrest]
          omega

theorem Pool.close_spec (h : p.bind fd = true) :
    ∃ p', p.close fd = (true, p') ∧ (∀ fd', fd' ≠ fd → p.bind fd' = true → p'.bind fd' = true) ∧
      p'.free = p.free + 1 ∧ p'.firstFd = p.firstFd := by
  refine ⟨_, if_pos h, ?_, ?_, rfl⟩
  · intro fd' hne hopen
    obtain ⟨k, x, rfl, -⟩ := Pool.bind_iff.mp h
    obtain ⟨j, y, rfl, hy⟩ := Pool.bind_iff.mp hopen
    refine Pool.bind_iff.mpr ⟨j, y, rfl, ?_⟩
    have hslot : k ≠ j := by
      rintro rfl
      exact hne rfl
    rw [Int.toNat_natCast, Nat.add_sub_cancel_left]
    exact (List.getElem?_set_ne hslot).trans hy
  · obtain ⟨k, x, rfl, hx⟩ := Pool.bind_iff.mp h
    rw [Int.toNat_natCast, Nat.add_sub_cancel_left]
    exact count_set_some hx

end SnifferStaSend.SockClient

namespace SnifferStaSend.SockApi
open CLib GetSettings SockClient

/-- Whose globals a function uses: `ser_sock_get`, `ser_sock_info`, `ser_sock`, `ser_sock_ck`. -/
inductive Client
  | get | info | rssi | ck
  deriving DecidableEq

def Client.owner : Client → Owner
  | .rssi => .rssi
  | .ck => .ck
  | _ => .other

/-- The clients that have a function which closes their socket. -/
def Client.closable : Client → Bool
  | .get | .info => true
  | .rssi | .ck => false

inductive Call
  | init (i : Client) (serIp : CString) (port : Int32)
  | send (i : Client)
  | close (i : Client) (hclosable : i.closable = true)
  deriving DecidableEq

def Call.client : Call → Client
  | .init i _ _ | .send i | .close i _ => i

def Call.isInit : Call → Bool
  | .init _ _ _ => true
  | _ => false

def Call.isSend : Call → Bool
  | .send _ => true
  | _ => false

/-- `CONFIG_SNIFFER_SETTING_GET_HOST_IP` and `CONFIG_SNIFFER_SETTING_GET_HOST_PORT`. -/
def initSocketClientGet : Call := .init .get (CString.ofString "192.168.1.2") 8881

def sendGetMessage : Call := .send .get

def closeGetClientSocket : Call := .close .get rfl

def initSocketClient (g : Globals) : Call := .init .rssi g.gDestIp.str g.gRssiPort

def socketDataSend : Call := .send .rssi

def initSocketClientCk (g : Globals) : Call := .init .ck g.gDestIp.str g.gCkPort

def socketDataSendCk : Call := .send .ck

def sockPortInfo : Int32 := 8890

def initSocketClientInfo (infoIp : CString) : Call := .init .info infoIp sockPortInfo

def closeSocketClientInfo : Call := .close .info rfl

/-- `socket` leaves its result, and `load` the global descriptor, in a register of the task. -/
inductive Stmt
  | socket
  | store
  | fill (s : SockClient.Stmt)
  | load
  | bind
  | sendto
  | close
  deriving DecidableEq

/-- A statement of an initialiser by its accesses to the global descriptor. -/
def split : SockClient.Stmt → List Stmt
  | .createSocket => [.socket, .store]
  | .bindSocket => [.load, .bind]
  | s => [.fill s]

def Call.body : Call → List Stmt
  | .init _ serIp port => (initSocket serIp port).flatMap split
  | .send _ => [.load, .sendto]
  | .close _ _ => [.load, .close]

/-- What becomes of a descriptor: the system calls, and the accesses to the global. -/
inductive Obs
  | socket (i : Client) (fd : ℤ)
  | store (i : Client) (fd : ℤ)
  | load (i : Client) (fd : ℤ)
  | bind (i : Client) (fd : ℤ) (ok : Bool)
  | sendto (i : Client) (fd : ℤ)
  | close (i : Client) (fd : ℤ) (ok : Bool)
  deriving DecidableEq

/-- What the tasks share; `trace` starts with the latest observation. -/
structure Shared where
  pool : Pool
  ends : Client → Endpoint
  exited : Bool
  trace : List Obs

/-- A task is in one call at a time; `pending` is what is left of it. -/
structure Task where
  client : Client
  fd : ℤ
  pending : List Stmt

structure State (ι : Type) where
  shared : Shared
  tasks : ι → Task

variable {ι : Type}

def State.start (pool : Pool) : State ι :=
  ⟨⟨pool, fun _ => .zero, false, []⟩, fun _ => ⟨.rssi, 0, []⟩⟩

inductive Label (ι : Type)
  | call (t : ι) (c : Call)
  | advance (t : ι)

section Semantics

variable [DecidableEq ι] (inetPton : CString → Option UInt32)

/-- A statement of a call of client `i` in a task with `fd` in its register. -/
def exec (w : Shared) (i : Client) (fd : ℤ) : Stmt → Shared × ℤ
  | .socket =>
    let (new, pool) := w.pool.socket i.owner
    ({ w with
      pool := pool
      trace := .socket i new :: w.trace }, new)
  | .store =>
    ({ w with
      ends := Function.update w.ends i { w.ends i with serSock := fd }
      trace := .store i fd :: w.trace }, fd)
  | .fill st =>
    match st.exec inetPton i.owner (w.pool, w.ends i) with
    | .error _ => ({ w with exited := true }, fd)
    | .ok (pool, ep) =>
      ({ w with
        pool := pool
        ends := Function.update w.ends i ep }, fd)
  | .load =>
    ({ w with trace := .load i (w.ends i).serSock :: w.trace }, (w.ends i).serSock)
  | .bind =>
    ({ w with
      exited := !w.pool.bind fd
      trace := .bind i fd (w.pool.bind fd) :: w.trace }, fd)
  | .sendto => ({ w with trace := .sendto i fd :: w.trace }, fd)
  | .close =>
    let (ok, pool) := w.pool.close fd
    ({ w with
      pool := pool
      trace := .close i fd ok :: w.trace }, fd)

def State.after (s : State ι) (t : ι) (effect : Shared × ℤ) (rest : List Stmt) : State ι :=
  ⟨effect.1, Function.update s.tasks t ⟨(s.tasks t).client, effect.2, rest⟩⟩

/-- Any task may begin any call when it is not in one; `exit` ends all of them. -/
def step (s : State ι) : Label ι → Option (State ι)
  | .call t c =>
    if s.shared.exited ∨ (s.tasks t).pending ≠ [] then none
    else some { s with tasks := Function.update s.tasks t ⟨c.client, (s.tasks t).fd, c.body⟩ }
  | .advance t =>
    match (s.tasks t).pending with
    | [] => none
    | st :: rest =>
      if s.shared.exited then none
      else some (s.after t (exec inetPton s.shared (s.tasks t).client (s.tasks t).fd st) rest)

end Semantics

section Alone

variable [DecidableEq ι] {inetPton : CString → Option UInt32} {s : State ι} {t : ι}
  {rest : List Stmt}

theorem step_advance {st : Stmt} (hlive : s.shared.exited = false)
    (hpending : (s.tasks t).pending = st :: rest) : step inetPton s (.advance t) =
      some (s.after t (exec inetPton s.shared (s.tasks t).client (s.tasks t).fd st) rest) := by
  simp [step, hpending, hlive]

theorem run_advance_advance {st st' : Stmt} {effect : Shared × ℤ}
    (hlive : s.shared.exited = false) (hpending : (s.tasks t).pending = st :: st' :: rest)
    (heffect : exec inetPton s.shared (s.tasks t).client (s.tasks t).fd st = effect)
    (hlive' : effect.1.exited = false) :
    run (step inetPton) s [.advance t, .advance t] =
      some (s.after t (exec inetPton effect.1 (s.tasks t).client effect.2 st') rest) := by
  have htask : (s.after t effect (st' :: rest)).tasks t =
      ⟨(s.tasks t).client, effect.2, st' :: rest⟩ := Function.update_self _ _ _
  have hnext : step inetPton (s.after t effect (st' :: rest)) (.advance t) = _ :=
    step_advance hlive' (congrArg Task.pending htask)
  rw [htask] at hnext
  rw [run_cons, step_advance hlive hpending, heffect, Option.bind_some, run_cons, hnext]
  simp [State.after]

/-- `s'` is what a statement of `sock_client_init.c` makes of `s` and of the globals of `i`. -/
structure Became (s s' : State ι) (t : ι) (i : Client) (net : Pool × Endpoint)
    (rest : List Stmt) : Prop where
  pool : s'.shared.pool = net.1
  ends : s'.shared.ends = Function.update s.shared.ends i net.2
  live : s'.shared.exited = false
  client : (s'.tasks t).client = i
  pending : (s'.tasks t).pending = rest

theorem run_split_ok (hlive : s.shared.exited = false) {st : SockClient.Stmt}
    (hpending : (s.tasks t).pending = split st ++ rest) {net : Pool × Endpoint}
    (hexec : st.exec inetPton (s.tasks t).client.owner
      (s.shared.pool, s.shared.ends (s.tasks t).client) = .ok net) :
    ∃ n s', run (step inetPton) s (List.replicate n (.advance t)) = some s' ∧
      Became s s' t (s.tasks t).client net rest := by
  have hfill (hsplit : split st = [.fill st]) : ∃ n s',
      run (step inetPton) s (List.replicate n (.advance t)) = some s' ∧
        Became s s' t (s.tasks t).client net rest := by
    rw [hsplit] at hpending
    refine ⟨1, _, by rw [List.replicate_one, run_cons, step_advance hlive hpending]; rfl, ?_⟩
    constructor <;> simp [State.after, exec, hexec, hlive]
  cases st with
  | createSocket =>
      rcases hsocket : s.shared.pool.socket (s.tasks t).client.owner with ⟨new, pool⟩
      refine ⟨2, _, run_advance_advance hlive hpending rfl hlive, ?_⟩
      obtain rfl : _ = net := by simpa [SockClient.Stmt.exec, hsocket] using hexec
      constructor <;> simp [State.after, exec, hsocket, hlive]
  | bindSocket =>
      have hbind : s.shared.pool.bind (s.shared.ends (s.tasks t).client).serSock = true := by
        by_contra hclosed
        simp [SockClient.Stmt.exec, hclosed] at hexec
      refine ⟨2, _, run_advance_advance hlive hpending rfl hlive, ?_⟩
      obtain rfl : _ = net := by simpa [SockClient.Stmt.exec, hbind] using hexec
      constructor <;> simp [State.after, exec, hbind]
  | _ => exact hfill rfl

theorem run_split_error (hlive : s.shared.exited = false) {st : SockClient.Stmt}
    (hpending : (s.tasks t).pending = split st ++ rest) {e : Exit}
    (hexec : st.exec inetPton (s.tasks t).client.owner
      (s.shared.pool, s.shared.ends (s.tasks t).client) = .error e) :
    ∃ n s', run (step inetPton) s (List.replicate n (.advance t)) = some s' ∧
      s'.shared.exited = true := by
  have hfill (hsplit : split st = [.fill st]) : ∃ n s',
      run (step inetPton) s (List.replicate n (.advance t)) = some s' ∧
        s'.shared.exited = true := by
    rw [hsplit] at hpending
    refine ⟨1, _, by rw [List.replicate_one, run_cons, step_advance hlive hpending]; rfl, ?_⟩
    simp [State.after, exec, hexec]
  cases st with
  | createSocket => cases hexec
  | bindSocket =>
      have hbind : s.shared.pool.bind (s.shared.ends (s.tasks t).client).serSock = false := by
        rw [Bool.eq_false_iff]
        intro hopen
        simp [SockClient.Stmt.exec, hopen] at hexec
      refine ⟨2, _, run_advance_advance hlive hpending rfl hlive, ?_⟩
      simp [State.after, exec, hbind]
  | _ => exact hfill rfl

theorem execAll_cons_eq_error {owner : Owner} {st : SockClient.Stmt}
    {stmts : List SockClient.Stmt} {net : Pool × Endpoint} {e : Exit} :
    execAll inetPton owner (st :: stmts) net = .error e ↔
      st.exec inetPton owner net = .error e ∨
        ∃ mid, st.exec inetPton owner net = .ok mid ∧
          execAll inetPton owner stmts mid = .error e := by
  rw [execAll, List.foldlM_cons]
  cases hexec : st.exec inetPton owner net with
  | error e' => simp [bind, Except.bind]
  | ok mid => simp [bind, Except.bind, execAll]

theorem run_alone_ok {stmts : List SockClient.Stmt} (hlive : s.shared.exited = false)
    (hpending : (s.tasks t).pending = stmts.flatMap split) {net : Pool × Endpoint}
    (hexec : execAll inetPton (s.tasks t).client.owner stmts
      (s.shared.pool, s.shared.ends (s.tasks t).client) = .ok net) :
    ∃ n s', run (step inetPton) s (List.replicate n (.advance t)) = some s' ∧
      Became s s' t (s.tasks t).client net [] := by
  induction stmts generalizing s with
  | nil =>
      obtain rfl := Except.ok.inj hexec
      exact ⟨0, s, rfl, rfl, (Function.update_eq_self _ _).symm, hlive, rfl, hpending⟩
  | cons st stmts ih =>
      obtain ⟨mid, hst, hrest⟩ := execAll_cons_eq_ok.mp hexec
      obtain ⟨n, u, hrun, hu⟩ := run_split_ok hlive hpending hst
      have hmid : (u.shared.pool, u.shared.ends (u.tasks t).client) = mid := by
        rw [hu.pool, hu.client, hu.ends, Function.update_self]
      obtain ⟨m, v, hrun', hv⟩ := ih hu.live hu.pending (by rw [hmid, hu.client]; exact hrest)
      refine ⟨n + m, v, ?_, hv.pool, ?_, hv.live, hv.client.trans hu.client, hv.pending⟩
      · rw [List.replicate_add]
        exact (run_append_eq_some _).mpr ⟨u, hrun, hrun'⟩
      · rw [hv.ends, hu.client, hu.ends, Function.update_idem]

theorem run_alone_error {stmts : List SockClient.Stmt} (hlive : s.shared.exited = false)
    (hpending : (s.tasks t).pending = stmts.flatMap split) {e : Exit}
    (hexec : execAll inetPton (s.tasks t).client.owner stmts
      (s.shared.pool, s.shared.ends (s.tasks t).client) = .error e) :
    ∃ n s', run (step inetPton) s (List.replicate n (.advance t)) = some s' ∧
      s'.shared.exited = true := by
  induction stmts generalizing s with
  | nil => cases hexec
  | cons st stmts ih =>
      rcases execAll_cons_eq_error.mp hexec with hst | ⟨mid, hst, hrest⟩
      · exact run_split_error hlive hpending hst
      · obtain ⟨n, u, hrun, hu⟩ := run_split_ok hlive hpending hst
        have hmid : (u.shared.pool, u.shared.ends (u.tasks t).client) = mid := by
          rw [hu.pool, hu.client, hu.ends, Function.update_self]
        obtain ⟨m, v, hrun', hv⟩ := ih hu.live hu.pending (by rw [hmid, hu.client]; exact hrest)
        refine ⟨n + m, v, ?_, hv⟩
        rw [List.replicate_add]
        exact (run_append_eq_some _).mpr ⟨u, hrun, hrun'⟩

/-- An initialiser that nothing comes between does what its statements do one after the other. -/
theorem run_init_alone {i : Client} {serIp : CString} {port : Int32}
    (hlive : s.shared.exited = false) (hidle : (s.tasks t).pending = []) :
    (∀ net, execAll inetPton i.owner (initSocket serIp port) (s.shared.pool, s.shared.ends i) =
        .ok net → ∃ n s', run (step inetPton) s
          (.call t (.init i serIp port) :: List.replicate n (.advance t)) = some s' ∧
            Became s s' t i net []) ∧
      ∀ e, execAll inetPton i.owner (initSocket serIp port) (s.shared.pool, s.shared.ends i) =
        .error e → ∃ n s', run (step inetPton) s
          (.call t (.init i serIp port) :: List.replicate n (.advance t)) = some s' ∧
            s'.shared.exited = true := by
  obtain ⟨u, hcall, hshared, hclient, hpending⟩ : ∃ u,
      step inetPton s (.call t (.init i serIp port)) = some u ∧ u.shared = s.shared ∧
        (u.tasks t).client = i ∧ (u.tasks t).pending = (initSocket serIp port).flatMap split :=
    ⟨⟨s.shared, Function.update s.tasks t
        ⟨i, (s.tasks t).fd, (initSocket serIp port).flatMap split⟩⟩,
      by simp [step, hlive, hidle, Call.client, Call.body], rfl, by simp, by simp⟩
  rw [← hshared] at hlive ⊢
  subst hclient
  simp only [run_cons, hcall, Option.bind_some]
  constructor
  · intro net hexec
    obtain ⟨n, s', hrun, hs'⟩ := run_alone_ok hlive hpending hexec
    exact ⟨n, s', hrun, hs'.pool, hshared ▸ hs'.ends, hs'.live, hs'.client, hs'.pending⟩
  · intro e hexec
    exact run_alone_error hlive hpending hexec

end Alone

section Discipline

def calls (ls : List (Label ι)) : List (ι × Call) :=
  ls.filterMap fun l => match l with
    | .call t c => some (t, c)
    | .advance _ => none

/-- The last call for `i` that is not a send is an initialiser. -/
def Initialised (cs : List (ι × Call)) (i : Client) : Prop :=
  ∃ t serIp port, (cs.filter (fun c => c.2.client = i ∧ c.2.isSend = false)).getLast? =
    some (t, .init i serIp port)

/-- A client whose socket is closed belongs to one task, which sends and closes only behind an
initialiser that no close has undone. Nothing is asked of the calls for the two senders. -/
structure Disciplined (user : Client → ι) (cs : List (ι × Call)) : Prop where
  alone : ∀ t c, (t, c) ∈ cs → c.client.closable = true → t = user c.client
  behind : ∀ before t c after, cs = before ++ (t, c) :: after → c.client.closable = true →
    c.isInit = false → Initialised before c.client

variable {cs : List (ι × Call)} {c : Call} {t : ι} {i : Client} {user : Client → ι}

@[simp] theorem calls_append_call (ls : List (Label ι)) (t : ι) (c : Call) :
    calls (ls ++ [.call t c]) = calls ls ++ [(t, c)] := List.filterMap_append

@[simp] theorem calls_append_advance (ls : List (Label ι)) (t : ι) :
    calls (ls ++ [.advance t]) = calls ls := by
  rw [calls, List.filterMap_append]
  exact List.append_nil _

theorem initialised_of_ne (h : c.client ≠ i) :
    Initialised (cs ++ [(t, c)]) i ↔ Initialised cs i := by
  simp [Initialised, h]

theorem not_initialised_close {h : i.closable = true} :
    ¬ Initialised (cs ++ [(t, .close i h)]) i := by
  simp [Initialised, Call.client, Call.isSend]

theorem disciplined_nil : Disciplined user [] where
  alone t c h := by cases h
  behind before t c after h := by simp at h

theorem disciplined_append : Disciplined user (cs ++ [(t, c)]) ↔
    Disciplined user cs ∧ (c.client.closable = true →
      t = user c.client ∧ (c.isInit = false → Initialised cs c.client)) := by
  constructor
  · intro h
    refine ⟨⟨fun t' c' hmem => h.alone t' c' (List.mem_append_left _ hmem), ?_⟩, fun hc =>
      ⟨h.alone t c (by simp) hc, h.behind cs t c [] rfl hc⟩⟩
    intro before t' d after heq
    refine h.behind before t' d (after ++ [(t, c)]) ?_
    rw [heq, List.append_assoc, List.cons_append]
  · rintro ⟨h, hc⟩
    constructor
    · intro t' d hmem hd
      rcases List.mem_append.mp hmem with hmem | hmem
      · exact h.alone t' d hmem hd
      · obtain ⟨rfl, rfl⟩ := Prod.mk.inj (List.mem_singleton.mp hmem)
        exact (hc hd).1
    · intro before t' d after heq hd
      rcases List.eq_nil_or_concat after with rfl | ⟨after, e, rfl⟩
      · obtain ⟨rfl, hsame⟩ := List.append_inj' heq rfl
        obtain ⟨rfl, rfl⟩ := Prod.mk.inj (List.cons.inj hsame).1
        exact (hc hd).2
      · rw [List.concat_eq_append, ← List.cons_append, ← List.append_assoc] at heq
        exact h.behind before t' d after (List.append_inj' heq rfl).1 hd

end Discipline

section Holder

/-- The client that has got the descriptor and not closed it. -/
def holder (fd : ℤ) : List Obs → Option Client
  | [] => none
  | .socket i new :: before => if new = fd ∧ fd ≠ -1 then some i else holder fd before
  | .close _ old ok :: before => if old = fd ∧ ok = true then none else holder fd before
  | _ :: before => holder fd before

/-- `fd` has come from a `socket` of the client, which may have been refused. -/
def Got (i : Client) (fd : ℤ) (trace : List Obs) : Prop :=
  holder fd trace = some i ∨ fd = -1 ∧ .socket i (-1) ∈ trace

/-- What a client may send on: a descriptor it holds. A client that nobody closes may also send on
what a refused `socket` has left in its global, or on the zero this starts as. -/
def Sendable (i : Client) (fd : ℤ) (trace : List Obs) : Prop :=
  holder fd trace = some i ∨
    i.closable = false ∧ (fd = -1 ∧ .socket i (-1) ∈ trace ∨ fd = 0 ∧ .load i 0 ∈ trace)

def Obs.isOpen : Obs → Bool
  | .socket _ fd => fd ≠ -1
  | _ => false

def Obs.isClose : Obs → Bool
  | .close _ _ ok => ok
  | _ => false

/-- Each system call is on a descriptor of its own client: `socket` returns one that is free and
fails only when all of the `free` sockets are taken, `bind` fails only after such a failure, no
send reaches a descriptor of another client, and every close succeeds. A global is read as zero
only before the first initialiser has stored into it. -/
def UsesOwn (free : ℕ) : List Obs → Prop
  | [] => True
  | .socket _ fd :: before =>
    (fd = -1 → before.countP Obs.isOpen = free + before.countP Obs.isClose) ∧
      holder fd before = none ∧ UsesOwn free before
  | .store i fd :: before => Got i fd before ∧ UsesOwn free before
  | .load i fd :: before => (fd = 0 → ∀ old, .store i old ∉ before) ∧ UsesOwn free before
  | .bind i fd ok :: before =>
    (ok = true → holder fd before = some i) ∧
      (ok = false → fd = -1 ∧ .socket i (-1) ∈ before) ∧ UsesOwn free before
  | .sendto i fd :: before =>
    Sendable i fd before ∧ (∀ j, holder fd before = some j → j = i) ∧ UsesOwn free before
  | .close i fd ok :: before => holder fd before = some i ∧ ok = true ∧ UsesOwn free before

@[simp] theorem holder_minus_one (trace : List Obs) : holder (-1) trace = none := by
  induction trace with
  | nil => rfl
  | cons x before ih => cases x <;> simp [holder, ih]

variable {i j : Client} {fd new : ℤ} {trace : List Obs}

theorem holder_socket_self (hne : new ≠ -1) : holder new (.socket i new :: trace) = some i :=
  if_pos ⟨rfl, hne⟩

theorem holder_socket (hfresh : holder new trace = none) (h : holder fd trace = some j) :
    holder fd (.socket i new :: trace) = some j := by
  rw [holder, if_neg, h]
  rintro ⟨rfl, -⟩
  rw [hfresh] at h
  cases h

theorem holder_close (h : holder fd trace = some j) (hne : new ≠ fd) {ok : Bool} :
    holder fd (.close i new ok :: trace) = some j := by
  rw [holder, if_neg, h]
  exact fun hsame => hne hsame.1

theorem Got.mono {before : List Obs} (h : Got i fd before)
    (hholder : holder fd before = some i → holder fd trace = some i) (hsub : before ⊆ trace) :
    Got i fd trace :=
  h.imp hholder (And.imp_right fun hmem => hsub hmem)

end Holder

section Sound

variable {p : Pool} {w w' : Shared} {i j : Client} {fd new : ℤ}

/-- What holds of the shared state whatever the tasks do. -/
structure Sound (p : Pool) (w : Shared) : Prop where
  uses : UsesOwn p.free w.trace
  opened : ∀ fd i, holder fd w.trace = some i → w.pool.bind fd = true
  count : w.pool.free + w.trace.countP Obs.isOpen = p.free + w.trace.countP Obs.isClose
  firstFd : w.pool.firstFd = p.firstFd
  global : ∀ i, i.closable = false →
    (w.ends i).serSock = 0 ∧ (∀ fd, .store i fd ∉ w.trace) ∨ Got i (w.ends i).serSock w.trace

/-- What a step leaves of a client that it does not close. -/
structure Keeps (i : Client) (w w' : Shared) : Prop where
  holder : ∀ fd, holder fd w.trace = some i → holder fd w'.trace = some i
  trace : w.trace ⊆ w'.trace
  global : (w'.ends i).serSock = (w.ends i).serSock ∨
    i.closable = false ∧ Got i (w'.ends i).serSock w'.trace

theorem Keeps.got (h : Keeps i w w') (hgot : Got i fd w.trace) : Got i fd w'.trace :=
  hgot.mono (h.holder fd) h.trace

theorem Keeps.global_got (h : Keeps i w w') (hgot : Got i (w.ends i).serSock w.trace) :
    Got i (w'.ends i).serSock w'.trace := by
  rcases h.global with hsame | ⟨-, hnew⟩
  · rw [hsame]
    exact h.got hgot
  · exact hnew

theorem Keeps.global_eq (h : Keeps i w w') (hi : i.closable = true) :
    (w'.ends i).serSock = (w.ends i).serSock := by
  rcases h.global with hsame | ⟨hopen, -⟩
  · exact hsame
  · rw [hi] at hopen
    cases hopen

theorem Keeps.global_held (h : Keeps i w w') (hi : i.closable = true)
    (hheld : SockApi.holder (w.ends i).serSock w.trace = some i) :
    SockApi.holder (w'.ends i).serSock w'.trace = some i := by
  rw [h.global_eq hi]
  exact h.holder _ hheld

theorem Sound.observe (h : Sound p w) {x : Obs} {ends : Client → Endpoint} {exited : Bool}
    (huses : UsesOwn p.free (x :: w.trace))
    (hholder : ∀ fd, holder fd (x :: w.trace) = holder fd w.trace)
    (hopen : x.isOpen = false) (hclose : x.isClose = false)
    (hglobal : ∀ i, i.closable = false →
      (ends i).serSock = (w.ends i).serSock ∧ (∀ fd, .store i fd ≠ x) ∨
        Got i (ends i).serSock w.trace) : Sound p ⟨w.pool, ends, exited, x :: w.trace⟩ where
  uses := huses
  opened fd i hheld := h.opened fd i ((hholder fd).symm.trans hheld)
  count := by simpa [hopen, hclose] using h.count
  firstFd := h.firstFd
  global i hi := by
    have hmono {fd : ℤ} (hgot : Got i fd w.trace) : Got i fd (x :: w.trace) :=
      hgot.mono (hholder fd).trans (List.subset_cons_self _ _)
    rcases hglobal i hi with ⟨hsame, hnew⟩ | hgot
    · rcases h.global i hi with ⟨hzero, hnever⟩ | hgot
      · refine Or.inl ⟨hsame.trans hzero, fun fd hmem => ?_⟩
        rcases List.mem_cons.mp hmem with hx | hmem
        · exact hnew fd hx
        · exact hnever fd hmem
      · exact Or.inr (hmono (hsame ▸ hgot))
    · exact Or.inr (hmono hgot)

theorem Keeps.observe {x : Obs} {ends : Client → Endpoint} {exited : Bool}
    (hholder : ∀ fd, SockApi.holder fd (x :: w.trace) = SockApi.holder fd w.trace)
    (hsame : (ends i).serSock = (w.ends i).serSock) :
    Keeps i w ⟨w.pool, ends, exited, x :: w.trace⟩ :=
  ⟨fun fd hheld => (hholder fd).trans hheld, List.subset_cons_self _ _, Or.inl hsame⟩

theorem Sound.not_held_zero (h : Sound p w) (hfirst : 0 < p.firstFd) :
    holder 0 w.trace ≠ some i := by
  intro hheld
  obtain ⟨k, x, hk, -⟩ := Pool.bind_iff.mp (h.opened 0 i hheld)
  have hpos := h.firstFd
  omega

theorem Got.held_of_bind (h : Got i fd w.trace) (hopen : w.pool.bind fd = true) :
    holder fd w.trace = some i := by
  rcases h with hheld | ⟨rfl, -⟩
  · exact hheld
  · rw [Pool.bind_minus_one] at hopen
    cases hopen

theorem Sound.refused_of_not_bind (h : Sound p w) (hgot : Got i fd w.trace)
    (hclosed : w.pool.bind fd = false) : fd = -1 ∧ .socket i (-1) ∈ w.trace := by
  rcases hgot with hheld | hrefused
  · rw [h.opened fd i hheld] at hclosed
    cases hclosed
  · exact hrefused

theorem Sound.free_fd (h : Sound p w) (hclosed : w.pool.bind fd = false) :
    holder fd w.trace = none := by
  cases hheld : holder fd w.trace with
  | none => rfl
  | some j =>
      rw [h.opened fd j hheld] at hclosed
      cases hclosed

theorem Keeps.socket (hfresh : SockApi.holder new w.trace = none) (i j : Client) (pool : Pool) :
    Keeps j w { w with
      pool := pool
      trace := .socket i new :: w.trace } :=
  ⟨fun _ hheld => holder_socket hfresh hheld, List.subset_cons_self _ _, Or.inl rfl⟩

theorem Sound.global_socket (h : Sound p w) (hfresh : holder new w.trace = none) (i j : Client)
    (hj : j.closable = false) :
    (w.ends j).serSock = 0 ∧ (∀ fd, .store j fd ∉ .socket i new :: w.trace) ∨
      Got j (w.ends j).serSock (.socket i new :: w.trace) :=
  (h.global j hj).imp (And.imp_right fun hnever fd hmem => hnever fd (by simpa using hmem))
    (Keeps.socket hfresh i j w.pool).got

theorem Sound.socket (h : Sound p w) (i : Client) (o : Owner) :
    Sound p { w with
      pool := (w.pool.socket o).2
      trace := .socket i (w.pool.socket o).1 :: w.trace } ∧
    (∀ j, Keeps j w { w with
      pool := (w.pool.socket o).2
      trace := .socket i (w.pool.socket o).1 :: w.trace }) ∧
    Got i (w.pool.socket o).1 (.socket i (w.pool.socket o).1 :: w.trace) := by
  have hcount := h.count
  rcases Pool.socket_spec w.pool o with
    ⟨hfull, hempty⟩ | ⟨fd, p', hsocket, hne, hclosed, hopen, hothers, hfree, hfirst⟩
  · have hfresh : holder (-1) w.trace = none := holder_minus_one _
    rw [hfull]
    refine ⟨⟨⟨fun _ => by omega, hfresh, h.uses⟩, fun fd j hheld => ?_, ?_, h.firstFd,
      h.global_socket hfresh i⟩, fun j => .socket hfresh i j _, Or.inr ⟨rfl, List.mem_cons_self⟩⟩
    · refine h.opened fd j ?_
      rw [holder, if_neg] at hheld
      · exact hheld
      · exact fun hminus => hminus.2 hminus.1.symm
    · simpa [Obs.isOpen, Obs.isClose] using hcount
  · have hfresh : holder fd w.trace = none := h.free_fd hclosed
    rw [hsocket]
    refine ⟨⟨⟨fun hminus => absurd hminus hne, hfresh, h.uses⟩, fun fd' j hheld => ?_, ?_,
      hfirst.trans h.firstFd, h.global_socket hfresh i⟩, fun j => .socket hfresh i j _,
      Or.inl (holder_socket_self hne)⟩
    · by_cases hsame : fd = fd'
      · exact hsame ▸ hopen
      · refine hothers fd' (h.opened fd' j ?_)
        simpa [holder, hsame] using hheld
    · simp only [List.countP_cons, Obs.isOpen, Obs.isClose, decide_eq_true hne,
        Bool.false_eq_true, if_false, if_true]
      omega

theorem Sound.close (h : Sound p w) (hheld : holder fd w.trace = some i)
    (hi : i.closable = true) :
    (w.pool.close fd).1 = true ∧
    Sound p { w with
      pool := (w.pool.close fd).2
      trace := .close i fd true :: w.trace } ∧
    ∀ j, j ≠ i → Keeps j w { w with
      pool := (w.pool.close fd).2
      trace := .close i fd true :: w.trace } := by
  obtain ⟨p', hclose, hothers, hfree, hfirst⟩ := Pool.close_spec (h.opened fd i hheld)
  have hkeeps (j : Client) (hj : j ≠ i) : Keeps j w { w with
      pool := (w.pool.close fd).2
      trace := .close i fd true :: w.trace } := by
    refine ⟨fun fd' hheld' => holder_close hheld' ?_, List.subset_cons_self _ _, Or.inl rfl⟩
    rintro rfl
    exact hj (Option.some.inj (hheld'.symm.trans hheld))
  refine ⟨by rw [hclose], ⟨⟨hheld, rfl, h.uses⟩, fun fd' j hheld' => ?_, ?_, ?_, fun j hj => ?_⟩,
    hkeeps⟩
  · rw [hclose]
    by_cases hsame : fd = fd'
    · simp [holder, hsame] at hheld'
    · refine hothers fd' (Ne.symm hsame) (h.opened fd' j ?_)
      simpa [holder, hsame] using hheld'
  · have hcount := h.count
    simp only [hclose, List.countP_cons, Obs.isOpen, Obs.isClose, hfree, Bool.false_eq_true,
      if_false, if_true]
    omega
  · rw [hclose]
    exact hfirst.trans h.firstFd
  · have hji : j ≠ i := by
      rintro rfl
      rw [hi] at hj
      cases hj
    exact (h.global j hj).imp
      (And.imp_right fun hnever fd' hmem => hnever fd' (by simpa using hmem)) (hkeeps j hji).got

end Sound

section Invariant

variable (inetPton : CString → Option UInt32) (p : Pool) (user : Client → ι)

/-- Where a task is in its call, with the calls `cs` made so far. -/
inductive Place (cs : List (ι × Call)) (w : Shared) (t : ι) (k : Task) : Prop
  | idle (hpending : k.pending = [])
  | starting (serIp : CString) (port : Int32) (n : ℕ) (hn : n < 8)
      (hpending : k.pending = (Call.init k.client serIp port).body.drop n)
      (hcall : (t, .init k.client serIp port) ∈ cs)
      (hfd : n = 1 ∨ n = 7 → Got k.client k.fd w.trace)
      (hglobal : 2 ≤ n → Got k.client (w.ends k.client).serSock w.trace)
      (hloaded : n = 7 → k.client.closable = true → k.fd = (w.ends k.client).serSock)
  | sending (hpending : k.pending = [.load, .sendto])
      (hown : k.client.closable = true → holder (w.ends k.client).serSock w.trace = some k.client)
  | sent (hpending : k.pending = [.sendto]) (hfd : Sendable k.client k.fd w.trace)
  | closing (hpending : k.pending = [.load, .close]) (hclosable : k.client.closable = true)
      (hundone : ¬ Initialised cs k.client)
      (hown : holder (w.ends k.client).serSock w.trace = some k.client)
  | closed (hpending : k.pending = [.close]) (hclosable : k.client.closable = true)
      (hundone : ¬ Initialised cs k.client) (hfd : holder k.fd w.trace = some k.client)

/-- Why a program has ended: a `socket` has failed, or an address is not one. -/
def Excused (cs : List (ι × Call)) (trace : List Obs) : Prop :=
  (∃ i, .socket i (-1) ∈ trace) ∨
    ∃ t i serIp port, (t, .init i serIp port) ∈ cs ∧ inetPton serIp = none

/-- An initialised client that is closed at times holds what its global says, unless its task is
in an initialiser just then. -/
def Settled (s : State ι) (i : Client) : Prop :=
  holder (s.shared.ends i).serSock s.shared.trace = some i ∨
    (s.tasks (user i)).client = i ∧ (s.tasks (user i)).pending.getLast? = some .bind

structure Inv (cs : List (ι × Call)) (s : State ι) : Prop where
  sound : Sound p s.shared
  alone : ∀ t, (s.tasks t).pending ≠ [] → (s.tasks t).client.closable = true →
    t = user (s.tasks t).client
  place : s.shared.exited = false → ∀ t, Place cs s.shared t (s.tasks t)
  settled : s.shared.exited = false → ∀ i, i.closable = true → Initialised cs i → Settled user s i
  exit : s.shared.exited = true → Excused inetPton cs s.shared.trace

variable {inetPton p user} {cs : List (ι × Call)} {s : State ι} {w w' : Shared} {t : ι} {k : Task}
  {i : Client} {c : Call} {rest : List Stmt}

theorem inv_start : Inv inetPton p user [] (State.start p) where
  sound :=
    { uses := trivial
      opened := fun fd i h => by cases h
      count := rfl
      firstFd := rfl
      global := fun i _ => Or.inl ⟨rfl, fun fd h => by cases h⟩ }
  alone t h := absurd rfl h
  place _ t := .idle rfl
  settled _ i _ h := by simp [Initialised] at h
  exit h := by cases h

theorem body_drop (i : Client) (serIp : CString) (port : Int32) {n : ℕ} (hn : n < 8) :
    ∃ st, (Call.init i serIp port).body.drop n = st :: (Call.init i serIp port).body.drop (n + 1) ∧
      (n = 0 ∧ st = .socket ∨ n = 1 ∧ st = .store ∨ n = 6 ∧ st = .load ∨ n = 7 ∧ st = .bind ∨
        2 ≤ n ∧ n ≤ 5 ∧ ∃ st', st = .fill st' ∧ st' ≠ .createSocket ∧ st' ≠ .bindSocket ∧
          ∀ ip, st' = .setServerAddr ip → ip = serIp) := by
  interval_cases n <;> exact ⟨_, rfl, by simp⟩

theorem getLast?_body_drop (i : Client) (serIp : CString) (port : Int32) {n : ℕ} (hn : n < 8) :
    ((Call.init i serIp port).body.drop n).getLast? = some .bind := by
  interval_cases n <;> rfl

theorem Place.keeps (h : Place cs w t k) (hk : k.pending ≠ [] → Keeps k.client w w') :
    Place cs w' t k := by
  cases h with
  | idle hp => exact .idle hp
  | starting serIp port n hn hp hcall hfd hglobal hloaded =>
      have hbusy : k.pending ≠ [] := by
        rintro hnil
        have hlast := getLast?_body_drop k.client serIp port hn
        rw [← hp, hnil] at hlast
        cases hlast
      have hkeeps := hk hbusy
      exact .starting serIp port n hn hp hcall (fun h => hkeeps.got (hfd h))
        (fun h => hkeeps.global_got (hglobal h))
        (fun h hc => (hloaded h hc).trans (hkeeps.global_eq hc).symm)
  | sending hp hown =>
      have hkeeps := hk (by simp [hp])
      exact .sending hp (fun hc => hkeeps.global_held hc (hown hc))
  | sent hp hfd =>
      have hkeeps := hk (by simp [hp])
      refine .sent hp (hfd.imp (hkeeps.holder _) (And.imp_right ?_))
      exact Or.imp (And.imp_right fun hmem => hkeeps.trace hmem)
        (And.imp_right fun hmem => hkeeps.trace hmem)
  | closing hp hc hundone hown =>
      have hkeeps := hk (by simp [hp])
      exact .closing hp hc hundone (hkeeps.global_held hc hown)
  | closed hp hc hundone hfd =>
      have hkeeps := hk (by simp [hp])
      exact .closed hp hc hundone (hkeeps.holder _ hfd)

theorem Place.append_call {u : ι} (h : Place cs w t k)
    (hother : k.pending ≠ [] → k.client.closable = true → c.client ≠ k.client) :
    Place (cs ++ [(u, c)]) w t k := by
  cases h with
  | idle hp => exact .idle hp
  | starting serIp port n hn hp hcall hfd hglobal hloaded =>
      exact .starting serIp port n hn hp (List.mem_append_left _ hcall) hfd hglobal hloaded
  | sending hp hown => exact .sending hp hown
  | sent hp hfd => exact .sent hp hfd
  | closing hp hc hundone hown =>
      have hne := hother (by simp [hp]) hc
      exact .closing hp hc (fun hi => hundone ((initialised_of_ne hne).mp hi)) hown
  | closed hp hc hundone hfd =>
      have hne := hother (by simp [hp]) hc
      exact .closed hp hc (fun hi => hundone ((initialised_of_ne hne).mp hi)) hfd

variable [DecidableEq ι]

theorem Inv.call (h : Inv inetPton p user cs s) (hdisc : Disciplined user (cs ++ [(t, c)]))
    (hlive : s.shared.exited = false) (hidle : (s.tasks t).pending = []) :
    Inv inetPton p user (cs ++ [(t, c)])
      { s with tasks := Function.update s.tasks t ⟨c.client, (s.tasks t).fd, c.body⟩ } := by
  have hcall := (disciplined_append.mp hdisc).2
  -- the task of a closed client is idle when it begins a call
  have hheld (hc : c.client.closable = true) (hinit : Initialised cs c.client) :
      holder (s.shared.ends c.client).serSock s.shared.trace = some c.client := by
    rcases h.settled hlive _ hc hinit with hheld | ⟨-, hlast⟩
    · exact hheld
    · rw [← (hcall hc).1, hidle] at hlast
      cases hlast
  refine ⟨h.sound, fun u => ?_, fun _ u => ?_, fun _ i hi hinit => ?_, fun he => ?_⟩
  · by_cases hu : u = t
    · subst hu
      simpa using fun _ hc => (hcall hc).1
    · simpa [hu] using h.alone u
  · by_cases hu : u = t
    · subst hu
      dsimp only
      rw [Function.update_self]
      cases c with
      | init i serIp port =>
          exact .starting serIp port 0 (by omega) rfl (by simp [Call.client]) (by omega) (by omega)
            (by omega)
      | send i => exact .sending rfl (fun hc => hheld hc ((hcall hc).2 rfl))
      | close i hc => exact .closing rfl hc not_initialised_close (hheld hc ((hcall hc).2 rfl))
    · dsimp only
      rw [Function.update_of_ne hu]
      refine (h.place hlive u).append_call (fun hbusy hc hsame => hu ?_)
      rw [h.alone u hbusy hc, ← hsame]
      exact ((hcall (hsame ▸ hc)).1).symm
  · by_cases hci : c.client = i
    · subst hci
      obtain ⟨ht, hbehind⟩ := hcall hi
      cases c with
      | init i serIp port =>
          refine Or.inr ?_
          dsimp only [Call.client] at ht ⊢
          rw [← ht, Function.update_self]
          exact ⟨rfl, rfl⟩
      | send i => exact Or.inl (hheld hi (hbehind rfl))
      | close i hc => exact absurd hinit not_initialised_close
    · rcases h.settled hlive i hi ((initialised_of_ne hci).mp hinit) with hheld | ⟨hclient, hlast⟩
      · exact Or.inl hheld
      · refine Or.inr ?_
        have hne : user i ≠ t := by
          rintro rfl
          rw [hidle] at hlast
          cases hlast
        dsimp only
        rw [Function.update_of_ne hne]
        exact ⟨hclient, hlast⟩
  · rw [hlive] at he
    cases he

/-- A step of a task: what it keeps, where it leaves the task, and what its client holds. -/
theorem Inv.after (h : Inv inetPton p user cs s) (hlive : s.shared.exited = false)
    (hbusy : (s.tasks t).pending ≠ []) {effect : Shared × ℤ} (hsound : Sound p effect.1)
    (hkeeps : ∀ i, (i.closable = true → i ≠ (s.tasks t).client) → Keeps i s.shared effect.1)
    (hplace : effect.1.exited = false → Place cs effect.1 t ⟨(s.tasks t).client, effect.2, rest⟩)
    (hsettled : effect.1.exited = false → (s.tasks t).client.closable = true →
      Initialised cs (s.tasks t).client →
        holder (effect.1.ends (s.tasks t).client).serSock effect.1.trace =
            some (s.tasks t).client ∨ rest.getLast? = some .bind)
    (hexit : effect.1.exited = true → Excused inetPton cs effect.1.trace) :
    Inv inetPton p user cs (s.after t effect rest) := by
  have hself : (s.after t effect rest).tasks t = ⟨(s.tasks t).client, effect.2, rest⟩ :=
    Function.update_self _ _ _
  have hother {u : ι} (hu : u ≠ t) : (s.after t effect rest).tasks u = s.tasks u :=
    Function.update_of_ne hu _ _
  refine ⟨hsound, fun u => ?_, fun hlive' u => ?_, fun hlive' i hi hinit => ?_, hexit⟩
  · by_cases hu : u = t
    · subst hu
      rw [hself]
      exact fun _ => h.alone u hbusy
    · rw [hother hu]
      exact h.alone u
  · by_cases hu : u = t
    · subst hu
      rw [hself]
      exact hplace hlive'
    · rw [hother hu]
      refine (h.place hlive u).keeps (fun hbusy' => hkeeps _ (fun hc hsame => hu ?_))
      rw [h.alone u hbusy' hc, hsame]
      exact (h.alone t hbusy (hsame ▸ hc)).symm
  · by_cases hsame : i = (s.tasks t).client
    · subst hsame
      refine (hsettled hlive' hi hinit).imp_right (fun hlast => ?_)
      rw [← h.alone t hbusy hi, hself]
      exact ⟨rfl, hlast⟩
    · rcases h.settled hlive i hi hinit with hheld | ⟨hclient, hlast⟩
      · exact Or.inl ((hkeeps i (fun _ => hsame)).global_held hi hheld)
      · refine Or.inr ?_
        rw [hother]
        · exact ⟨hclient, hlast⟩
        · intro htask
          rw [htask] at hclient
          exact hsame hclient.symm

theorem exec_fill (inetPton : CString → Option UInt32) (w : Shared) (i : Client) (fd : ℤ)
    {st : SockClient.Stmt} (hcreate : st ≠ .createSocket) (hbind : st ≠ .bindSocket) :
    (∃ ep, ep.serSock = (w.ends i).serSock ∧ exec inetPton w i fd (.fill st) =
        ({ w with ends := Function.update w.ends i ep }, fd)) ∨
      (∃ serIp, st = .setServerAddr serIp ∧ inetPton serIp = none) ∧
        exec inetPton w i fd (.fill st) = ({ w with exited := true }, fd) := by
  cases st with
  | createSocket => exact absurd rfl hcreate
  | bindSocket => exact absurd rfl hbind
  | setServerAddr serIp =>
      cases haddr : inetPton serIp with
      | none => exact Or.inr ⟨⟨serIp, rfl, haddr⟩, by simp [exec, SockClient.Stmt.exec, haddr]⟩
      | some addr =>
          exact Or.inl ⟨{ w.ends i with server := { (w.ends i).server with sAddr := addr } }, rfl,
            by simp [exec, SockClient.Stmt.exec, haddr]⟩
  | setClient => exact Or.inl ⟨{ w.ends i with client := ⟨afInet, htons 0, 0⟩ }, rfl, rfl⟩
  | setServerFamily =>
      exact Or.inl ⟨{ w.ends i with server := { (w.ends i).server with sinFamily := afInet } }, rfl,
        rfl⟩
  | setServerPort port =>
      exact Or.inl ⟨{ w.ends i with
        server := { (w.ends i).server with sinPort := htons (toU16 port) } }, rfl, rfl⟩

theorem Sound.congr (h : Sound p w) {ends : Client → Endpoint} {exited : Bool}
    (hsame : ∀ j, (ends j).serSock = (w.ends j).serSock) :
    Sound p ⟨w.pool, ends, exited, w.trace⟩ :=
  ⟨h.uses, h.opened, h.count, h.firstFd, fun j hj => by rw [hsame j]; exact h.global j hj⟩

theorem serSock_update (ends : Client → Endpoint) {i : Client} {ep : Endpoint}
    (hep : ep.serSock = (ends i).serSock) (j : Client) :
    (Function.update ends i ep j).serSock = (ends j).serSock := by
  by_cases hj : j = i
  · rw [hj, Function.update_self, hep]
  · rw [Function.update_of_ne hj]

theorem Inv.fill (h : Inv inetPton p user cs s) (hlive : s.shared.exited = false)
    (hbusy : (s.tasks t).pending ≠ []) {serIp : CString} {port : Int32} {n : ℕ} (hn : n + 1 < 7)
    (hcall : (t, .init (s.tasks t).client serIp port) ∈ cs)
    (hglobal : Got (s.tasks t).client (s.shared.ends (s.tasks t).client).serSock s.shared.trace)
    (hrest : rest = (Call.init (s.tasks t).client serIp port).body.drop (n + 1)) (hpos : 2 ≤ n)
    {st : SockClient.Stmt} (hcreate : st ≠ .createSocket) (hbind : st ≠ .bindSocket)
    (haddr : ∀ ip, st = .setServerAddr ip → ip = serIp) : Inv inetPton p user cs
      (s.after t (exec inetPton s.shared (s.tasks t).client (s.tasks t).fd (.fill st)) rest) := by
  rcases exec_fill inetPton s.shared (s.tasks t).client (s.tasks t).fd hcreate hbind with
    ⟨ep, hep, hexec⟩ | ⟨⟨ip, rfl, hnone⟩, hexec⟩
  · have hsame := serSock_update s.shared.ends hep
    rw [hexec]
    refine h.after hlive hbusy (h.sound.congr hsame)
      (fun j _ => ⟨fun _ hheld => hheld, List.Subset.refl _, Or.inl (hsame j)⟩) (fun _ => ?_)
      (fun _ _ _ => Or.inr ?_) (fun he => ?_)
    · refine .starting serIp port (n + 1) (by omega) hrest hcall (by omega) (fun _ => ?_) (by omega)
      dsimp only
      rw [hsame]
      exact hglobal
    · rw [hrest]
      exact getLast?_body_drop _ _ _ (by omega)
    · rw [hlive] at he
      cases he
  · rw [hexec]
    refine h.after hlive hbusy (h.sound.congr fun _ => rfl)
      (fun j _ => ⟨fun _ hheld => hheld, List.Subset.refl _, Or.inl rfl⟩) (fun he => by cases he)
      (fun he => by cases he) (fun _ => Or.inr ⟨t, _, serIp, port, hcall, ?_⟩)
    exact haddr ip rfl ▸ hnone

theorem Inv.socket (h : Inv inetPton p user cs s) (hlive : s.shared.exited = false)
    (hbusy : (s.tasks t).pending ≠ []) {serIp : CString} {port : Int32}
    (hcall : (t, .init (s.tasks t).client serIp port) ∈ cs)
    (hrest : rest = (Call.init (s.tasks t).client serIp port).body.drop 1) :
    Inv inetPton p user cs
      (s.after t (exec inetPton s.shared (s.tasks t).client (s.tasks t).fd .socket) rest) := by
  obtain ⟨hsound, hkeeps, hgot⟩ := h.sound.socket (s.tasks t).client (s.tasks t).client.owner
  refine h.after hlive hbusy hsound (fun j _ => hkeeps j) (fun _ => ?_) (fun _ _ _ => Or.inr ?_)
    (fun he => ?_)
  · exact .starting serIp port 1 (by omega) hrest hcall (fun _ => hgot) (by omega) (by omega)
  · rw [hrest]
    exact getLast?_body_drop _ _ _ (by omega)
  · exact absurd (hlive.symm.trans he) (by decide)

theorem Inv.store (h : Inv inetPton p user cs s) (hlive : s.shared.exited = false)
    (hbusy : (s.tasks t).pending ≠ []) {serIp : CString} {port : Int32}
    (hcall : (t, .init (s.tasks t).client serIp port) ∈ cs)
    (hfd : Got (s.tasks t).client (s.tasks t).fd s.shared.trace)
    (hrest : rest = (Call.init (s.tasks t).client serIp port).body.drop 2) :
    Inv inetPton p user cs
      (s.after t (exec inetPton s.shared (s.tasks t).client (s.tasks t).fd .store) rest) := by
  have hself (ep : Endpoint) : Function.update s.shared.ends (s.tasks t).client ep
      (s.tasks t).client = ep := Function.update_self _ _ _
  have hgot : Got (s.tasks t).client (s.tasks t).fd
      (.store (s.tasks t).client (s.tasks t).fd :: s.shared.trace) :=
    hfd.mono id (List.subset_cons_self _ _)
  refine h.after hlive hbusy
    (h.sound.observe ⟨hfd, h.sound.uses⟩ (fun _ => rfl) rfl rfl fun j _ => ?_) (fun j hj => ?_)
    (fun _ => ?_) (fun _ _ _ => Or.inr ?_) (fun he => ?_)
  · by_cases hji : j = (s.tasks t).client
    · subst hji
      rw [hself]
      exact Or.inr hfd
    · rw [Function.update_of_ne hji]
      exact Or.inl ⟨rfl, fun fd hx => hji (Obs.store.inj hx).1⟩
  · by_cases hji : j = (s.tasks t).client
    · subst hji
      refine ⟨fun _ hheld => hheld, List.subset_cons_self _ _, Or.inr ⟨?_, ?_⟩⟩
      · rw [Bool.eq_false_iff]
        exact fun hc => hj hc rfl
      · dsimp only [exec]
        rw [hself]
        exact hgot
    · exact Keeps.observe (fun _ => rfl) (by rw [Function.update_of_ne hji])
  · refine .starting serIp port 2 (by omega) hrest hcall (by omega) (fun _ => ?_) (by omega)
    dsimp only [exec]
    rw [hself]
    exact hgot
  · rw [hrest]
    exact getLast?_body_drop _ _ _ (by omega)
  · exact absurd (hlive.symm.trans he) (by decide)

theorem Sound.load (h : Sound p w) (hfirst : 0 < p.firstFd) (i : Client)
    (hready : i.closable = true → Got i (w.ends i).serSock w.trace) :
    Sound p { w with trace := .load i (w.ends i).serSock :: w.trace } := by
  have hnonzero (hgot : Got i (w.ends i).serSock w.trace) : (w.ends i).serSock ≠ 0 := by
    intro hzero
    rw [hzero] at hgot
    rcases hgot with hheld | ⟨hminus, -⟩
    · exact h.not_held_zero hfirst hheld
    · cases hminus
  refine h.observe ⟨fun hzero => ?_, h.uses⟩ (fun _ => rfl) rfl rfl
    (fun j _ => Or.inl ⟨rfl, fun fd hx => by cases hx⟩)
  cases hi : i.closable with
  | true => exact absurd hzero (hnonzero (hready hi))
  | false =>
      rcases h.global i hi with ⟨-, hnever⟩ | hgot
      · exact hnever
      · exact absurd hzero (hnonzero hgot)

omit [DecidableEq ι] in
/-- Outside an initialiser the global of an initialised client is right. -/
theorem Inv.held (h : Inv inetPton p user cs s) (hlive : s.shared.exited = false)
    (hbusy : (s.tasks t).pending ≠ []) (hlast : (s.tasks t).pending.getLast? ≠ some .bind)
    (hc : (s.tasks t).client.closable = true) (hinit : Initialised cs (s.tasks t).client) :
    holder (s.shared.ends (s.tasks t).client).serSock s.shared.trace =
      some (s.tasks t).client := by
  rcases h.settled hlive _ hc hinit with hheld | ⟨-, hbind⟩
  · exact hheld
  · rw [← h.alone t hbusy hc] at hbind
    exact absurd hbind hlast

theorem Inv.load (h : Inv inetPton p user cs s) (hfirst : 0 < p.firstFd)
    (hlive : s.shared.exited = false) (hbusy : (s.tasks t).pending ≠ [])
    (hready : (s.tasks t).client.closable = true →
      Got (s.tasks t).client (s.shared.ends (s.tasks t).client).serSock s.shared.trace)
    (hplace : Place cs (exec inetPton s.shared (s.tasks t).client (s.tasks t).fd .load).1 t
      ⟨(s.tasks t).client, (s.shared.ends (s.tasks t).client).serSock, rest⟩)
    (hsettled : (s.tasks t).client.closable = true → Initialised cs (s.tasks t).client →
      holder (s.shared.ends (s.tasks t).client).serSock s.shared.trace =
        some (s.tasks t).client ∨ rest.getLast? = some .bind) : Inv inetPton p user cs
      (s.after t (exec inetPton s.shared (s.tasks t).client (s.tasks t).fd .load) rest) := by
  refine h.after hlive hbusy (h.sound.load hfirst _ hready)
    (fun j _ => Keeps.observe (fun _ => rfl) rfl) (fun _ => hplace) (fun _ => hsettled)
    (fun he => ?_)
  exact absurd (hlive.symm.trans he) (by decide)

theorem Inv.bind (h : Inv inetPton p user cs s) (hbusy : (s.tasks t).pending ≠ [])
    (hlive : s.shared.exited = false)
    (hfd : Got (s.tasks t).client (s.tasks t).fd s.shared.trace)
    (hloaded : (s.tasks t).client.closable = true →
      (s.tasks t).fd = (s.shared.ends (s.tasks t).client).serSock) : Inv inetPton p user cs
      (s.after t (exec inetPton s.shared (s.tasks t).client (s.tasks t).fd .bind) []) := by
  have hrefused := h.sound.refused_of_not_bind hfd
  refine h.after hlive hbusy (h.sound.observe ⟨hfd.held_of_bind, hrefused, h.sound.uses⟩
      (fun _ => rfl) rfl rfl (fun j _ => Or.inl ⟨rfl, fun fd hx => by cases hx⟩))
    (fun j _ => Keeps.observe (fun _ => rfl) rfl) (fun _ => .idle rfl) (fun hlive' hc _ => ?_)
    (fun he => ?_)
  · have hopen : s.shared.pool.bind (s.tasks t).fd = true := by simpa [exec] using hlive'
    exact Or.inl (hloaded hc ▸ hfd.held_of_bind hopen)
  · have hclosed : s.shared.pool.bind (s.tasks t).fd = false := by simpa [exec] using he
    exact Or.inl ⟨_, List.mem_cons_of_mem _ (hrefused hclosed).2⟩

theorem Inv.sendto (h : Inv inetPton p user cs s) (hfirst : 0 < p.firstFd)
    (hlive : s.shared.exited = false) (hpending : (s.tasks t).pending = [.sendto])
    (hfd : Sendable (s.tasks t).client (s.tasks t).fd s.shared.trace) :
    Inv inetPton p user cs
      (s.after t (exec inetPton s.shared (s.tasks t).client (s.tasks t).fd .sendto) []) := by
  have hbusy : (s.tasks t).pending ≠ [] := by simp [hpending]
  have howner (j : Client) (hj : holder (s.tasks t).fd s.shared.trace = some j) :
      j = (s.tasks t).client := by
    rcases hfd with hheld | ⟨-, ⟨hminus, -⟩ | ⟨hzero, -⟩⟩
    · exact Option.some.inj (hj.symm.trans hheld)
    · rw [hminus, holder_minus_one] at hj
      cases hj
    · rw [hzero] at hj
      exact absurd hj (h.sound.not_held_zero hfirst)
  refine h.after hlive hbusy (h.sound.observe ⟨hfd, howner, h.sound.uses⟩ (fun _ => rfl) rfl rfl
      (fun j _ => Or.inl ⟨rfl, fun fd hx => by cases hx⟩))
    (fun j _ => Keeps.observe (fun _ => rfl) rfl) (fun _ => .idle rfl)
    (fun _ hc hinit => Or.inl ?_) (fun he => ?_)
  · exact h.held hlive hbusy (by simp [hpending]) hc hinit
  · exact absurd (hlive.symm.trans he) (by decide)

theorem Inv.close (h : Inv inetPton p user cs s) (hlive : s.shared.exited = false)
    (hbusy : (s.tasks t).pending ≠ []) (hclosable : (s.tasks t).client.closable = true)
    (hundone : ¬ Initialised cs (s.tasks t).client)
    (hfd : holder (s.tasks t).fd s.shared.trace = some (s.tasks t).client) :
    Inv inetPton p user cs
      (s.after t (exec inetPton s.shared (s.tasks t).client (s.tasks t).fd .close) []) := by
  obtain ⟨hok, hsound, hkeeps⟩ := h.sound.close hfd hclosable
  have hexec : exec inetPton s.shared (s.tasks t).client (s.tasks t).fd .close =
      ({ s.shared with
        pool := (s.shared.pool.close (s.tasks t).fd).2
        trace := .close (s.tasks t).client (s.tasks t).fd true :: s.shared.trace },
        (s.tasks t).fd) := by
    rw [← hok]
    rfl
  rw [hexec]
  refine h.after hlive hbusy hsound (fun j hj => hkeeps j ?_) (fun _ => .idle rfl)
    (fun _ _ hinit => absurd hinit hundone) (fun he => ?_)
  · rintro rfl
    exact hj hclosable rfl
  · exact absurd (hlive.symm.trans he) (by decide)

theorem Inv.advance (h : Inv inetPton p user cs s) (hfirst : 0 < p.firstFd)
    (hlive : s.shared.exited = false) {st : Stmt} (hpending : (s.tasks t).pending = st :: rest) :
    Inv inetPton p user cs
      (s.after t (exec inetPton s.shared (s.tasks t).client (s.tasks t).fd st) rest) := by
  have hbusy : (s.tasks t).pending ≠ [] := by simp [hpending]
  cases h.place hlive t with
  | idle hp => exact absurd hp hbusy
  | starting serIp port n hn hp hcall hfd hglobal hloaded =>
      obtain ⟨st', hdrop, hst⟩ := body_drop (s.tasks t).client serIp port hn
      obtain ⟨rfl, rfl⟩ := List.cons.inj (hpending.symm.trans (hp.trans hdrop))
      rcases hst with ⟨rfl, rfl⟩ | ⟨rfl, rfl⟩ | ⟨rfl, rfl⟩ | ⟨rfl, rfl⟩ | ⟨hpos, hlt, fill⟩
      · exact h.socket hlive hbusy hcall rfl
      · exact h.store hlive hbusy hcall (hfd (Or.inl rfl)) rfl
      · have hready := hglobal (by omega)
        have hkept : Got (s.tasks t).client (s.shared.ends (s.tasks t).client).serSock
            (.load (s.tasks t).client (s.shared.ends (s.tasks t).client).serSock ::
              s.shared.trace) :=
          hready.mono id (List.subset_cons_self _ _)
        exact h.load hfirst hlive hbusy (fun _ => hready)
          (.starting serIp port 7 (by omega) rfl hcall (fun _ => hkept) (fun _ => hkept)
            (fun _ _ => rfl))
          (fun _ _ => Or.inr (getLast?_body_drop _ _ _ (by omega)))
      · exact h.bind hbusy hlive (hfd (Or.inr rfl)) (hloaded rfl)
      · obtain ⟨st', rfl, hcreate, hbind, haddr⟩ := fill
        exact h.fill hlive hbusy (by omega) hcall (hglobal hpos) rfl hpos hcreate hbind haddr
  | sending hp hown =>
      obtain ⟨rfl, rfl⟩ := List.cons.inj (hpending.symm.trans hp)
      refine h.load hfirst hlive hbusy (fun hc => Or.inl (hown hc)) (.sent rfl ?_)
        (fun hc _ => Or.inl (hown hc))
      cases hc : (s.tasks t).client.closable with
      | true => exact Or.inl (hown hc)
      | false =>
          rcases h.sound.global _ hc with ⟨hzero, -⟩ | hheld | ⟨hminus, hmem⟩
          · exact Or.inr ⟨hc, Or.inr ⟨hzero, by rw [← hzero]; exact List.mem_cons_self⟩⟩
          · exact Or.inl hheld
          · exact Or.inr ⟨hc, Or.inl ⟨hminus, List.mem_cons_of_mem _ hmem⟩⟩
  | sent hp hfd =>
      obtain ⟨rfl, rfl⟩ := List.cons.inj (hpending.symm.trans hp)
      exact h.sendto hfirst hlive hp hfd
  | closing hp hc hundone hown =>
      obtain ⟨rfl, rfl⟩ := List.cons.inj (hpending.symm.trans hp)
      exact h.load hfirst hlive hbusy (fun _ => Or.inl hown) (.closed rfl hc hundone hown)
        (fun _ hinit => absurd hinit hundone)
  | closed hp hc hundone hfd =>
      obtain ⟨rfl, rfl⟩ := List.cons.inj (hpending.symm.trans hp)
      exact h.close hlive hbusy hc hundone hfd

theorem inv_run {ls : List (Label ι)} (hfirst : 0 < p.firstFd)
    (hrun : run (step inetPton) (State.start p) ls = some s) (hdisc : Disciplined user (calls ls)) :
    Inv inetPton p user (calls ls) s := by
  refine run_invariant (P := fun ls s => Disciplined user (calls ls) →
    Inv inetPton p user (calls ls) s) (step inetPton) ?_ (fun _ => inv_start) hrun hdisc
  intro ls s l s' h hstep hdisc
  cases l with
  | call t c =>
      rw [calls_append_call] at hdisc ⊢
      obtain ⟨hidle, heq⟩ := Option.ite_none_left_eq_some.mp hstep
      obtain rfl := Option.some.inj heq
      obtain ⟨hlive, hpending⟩ := not_or.mp hidle
      exact (h (disciplined_append.mp hdisc).1).call hdisc (Bool.eq_false_iff.mpr hlive)
        (not_not.mp hpending)
  | advance t =>
      rw [calls_append_advance] at hdisc ⊢
      cases hpending : (s.tasks t).pending with
      | nil =>
          rw [step, hpending] at hstep
          cases hstep
      | cons st rest =>
          rw [step, hpending] at hstep
          obtain ⟨hlive, heq⟩ := Option.ite_none_left_eq_some.mp hstep
          obtain rfl := Option.some.inj heq
          exact (h hdisc).advance hfirst (Bool.eq_false_iff.mpr hlive) hpending

end Invariant

/-- Whatever tasks call the two senders, in whatever order, while each of the other two clients
has a task of its own that initialises before it sends or closes: no call reaches a descriptor of
another client, closes succeed, the sockets taken are those that have been opened and not closed,
and a program exits only when it has been given something else than an address, or refused a
socket while all were taken. -/
theorem sockets_owned [DecidableEq ι] (inetPton : CString → Option UInt32) (p : Pool)
    (hfirst : 0 < p.firstFd) (user : Client → ι) (ls : List (Label ι)) (s : State ι)
    (hdisc : Disciplined user (calls ls))
    (hrun : run (step inetPton) (State.start p) ls = some s) :
    UsesOwn p.free s.shared.trace ∧
      (∀ fd i, holder fd s.shared.trace = some i → s.shared.pool.bind fd = true) ∧
      s.shared.pool.free + s.shared.trace.countP Obs.isOpen =
        p.free + s.shared.trace.countP Obs.isClose ∧
      (s.shared.exited = true → Excused inetPton (calls ls) s.shared.trace) := by
  have h := inv_run hfirst hrun hdisc
  exact ⟨h.sound.uses, h.sound.opened, h.sound.count, h.exit⟩

inductive Caller
  | event | wifi | server
  deriving DecidableEq

def Caller.user : Client → Caller
  | .info => .server
  | _ => .event

/-- The settings client closes its socket and a second client takes the descriptor over; the sender
is called before its initialiser, and again when a second run of that has been refused a socket
and is not done. -/
def overlapping : List (Label Caller) :=
  List.flatten
    [.call .event initSocketClientGet :: List.replicate 8 (.advance .event),
      [.call .wifi socketDataSend, .advance .wifi, .call .event closeGetClientSocket,
        .advance .event, .call .server (initSocketClientInfo (CString.ofString "192.168.1.7")),
        .advance .event, .advance .server, .advance .wifi],
      .call .event (initSocketClient Globals.compiledIn) :: List.replicate 8 (.advance .event),
      [.call .event (initSocketClient Globals.compiledIn), .advance .event, .advance .event,
        .call .wifi socketDataSend, .advance .wifi, .advance .server, .advance .wifi],
      List.replicate 6 (.advance .event)]

def twoSockets : Pool := ⟨54, [none, none]⟩

theorem sockets_owned_overlapping : ∃ s,
    run (step dottedQuad) (State.start twoSockets) overlapping = some s ∧
      (s.shared.exited = true ∧ holder 54 s.shared.trace = some .info ∧
        holder 55 s.shared.trace = some .rssi ∧ .sendto .rssi 0 ∈ s.shared.trace ∧
        .sendto .rssi (-1) ∈ s.shared.trace) ∧ UsesOwn twoSockets.free s.shared.trace := by
  have hcalls : calls overlapping = [] ++ [(.event, initSocketClientGet)] ++
      [(.wifi, socketDataSend)] ++ [(.event, closeGetClientSocket)] ++
      [(.server, initSocketClientInfo (CString.ofString "192.168.1.7"))] ++
      [(.event, initSocketClient Globals.compiledIn)] ++
      [(.event, initSocketClient Globals.compiledIn)] ++ [(.wifi, socketDataSend)] := by
    simp [overlapping, calls]
  have hdisc : Disciplined Caller.user (calls overlapping) := by
    rw [hcalls]
    simp only [disciplined_append]
    exact ⟨⟨⟨⟨⟨⟨⟨disciplined_nil, fun _ => ⟨rfl, fun h => by cases h⟩⟩, fun h => by cases h⟩,
      fun _ => ⟨rfl, fun _ => ⟨_, _, _, rfl⟩⟩⟩, fun _ => ⟨rfl, fun h => by cases h⟩⟩,
      fun h => by cases h⟩, fun h => by cases h⟩, fun h => by cases h⟩
  have hend : (run (step dottedQuad) (State.start twoSockets) overlapping).any (fun s =>
      decide (s.shared.exited = true ∧ holder 54 s.shared.trace = some .info ∧
        holder 55 s.shared.trace = some .rssi ∧ .sendto .rssi 0 ∈ s.shared.trace ∧
        .sendto .rssi (-1) ∈ s.shared.trace)) = true := by
    decide +kernel
  obtain ⟨s, hrun, hs⟩ := (Option.any_eq_true _ _).mp hend
  exact ⟨s, hrun, of_decide_eq_true hs,
    (sockets_owned dottedQuad twoSockets (by decide) Caller.user overlapping s hdisc hrun).1⟩

end SnifferStaSend.SockApi
