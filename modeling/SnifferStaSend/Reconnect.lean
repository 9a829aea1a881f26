import SnifferStaSend.Station

/-!
# Sockets over reconnections

Every `SYSTEM_EVENT_STA_GOT_IP` makes `init_socket_client` open a descriptor for `ser_sock`, and
nothing closes the one before. Over a run the open RSSI sockets therefore count the events of
this kind, until the pool is used up and `bind(-1)` ends the program.
-/

namespace SnifferStaSend.Reconnect
open CLib Nvs GetSettings SockClient Station EventTask

variable (inetPton : CString → Option UInt32)

section Outcome

/-- What the rest of the handler will make of the sockets. -/
def outcome (c : Config State Station.Stmt) : Except Exit (Pool × Endpoint) :=
  execAll inetPton .rssi (c.pending.filterMap Station.Stmt.sock?) (c.state.pool, c.state.sock)

theorem outcome_idle (w : State) : outcome inetPton ⟨w, []⟩ = .ok (w.pool, w.sock) := rfl

theorem outcome_gotIp (w : State) : outcome inetPton ⟨w, eventHandlerSta w.g .staGotIp⟩ =
    execAll inetPton .rssi (initSocketClient w.g) (w.pool, w.sock) := rfl

theorem outcome_event_of_ne (w : State) {e : SystemEvent} (he : e ≠ .staGotIp) :
    outcome inetPton ⟨w, eventHandlerSta w.g e⟩ = .ok (w.pool, w.sock) := by
  cases e with
  | staGotIp => exact absurd rfl he
  | _ => rfl

/-- A statement of the handler either carries the outcome on or, if it exits, explains it. -/
theorem outcome_exec (w : State) (st : Station.Stmt) (rest : List Station.Stmt)
    (hlive : w.exited = false) :
    (exec inetPton w st).exited = false ∧
        outcome inetPton ⟨exec inetPton w st, rest⟩ = outcome inetPton ⟨w, st :: rest⟩ ∨
      (exec inetPton w st).exited = true ∧
        ∃ code, outcome inetPton ⟨w, st :: rest⟩ = .error code := by
  cases st with
  | sock s =>
      have hunfold : outcome inetPton ⟨w, .sock s :: rest⟩ =
          (s.exec inetPton .rssi (w.pool, w.sock)).bind
            (execAll inetPton .rssi (rest.filterMap Station.Stmt.sock?)) := rfl
      cases hs : s.exec inetPton .rssi (w.pool, w.sock) with
      | ok net =>
          left
          rw [hunfold, hs, exec_sock_ok w hs]
          exact ⟨hlive, rfl⟩
      | error code =>
          right
          rw [hunfold, hs, exec_sock_error w hs]
          exact ⟨rfl, code, rfl⟩
  | _ => exact Or.inl ⟨hlive, rfl⟩

end Outcome

section Counting

variable (g : Globals) (p₀ : Pool)

/-- `n` sockets are open once the running handler is done, and as long as the pool suffices
it will be done. -/
structure Counted (n : ℕ) (c : Config State Station.Stmt) : Prop where
  globals : c.state.g = g
  count : c.state.exited = false → ∀ net, outcome inetPton c = .ok net →
    net.1.openedBy .rssi = n ∧ net.1.free + n = p₀.free
  alive : n ≤ p₀.free → c.state.exited = false ∧ ∃ net, outcome inetPton c = .ok net

variable {inetPton g p₀} {n : ℕ} {w : State}

theorem Counted.exec {st : Station.Stmt} {rest : List Station.Stmt} (hlive : w.exited = false)
    (h : Counted inetPton g p₀ n ⟨w, st :: rest⟩) :
    Counted inetPton g p₀ n ⟨exec inetPton w st, rest⟩ := by
  have hg : (Station.exec inetPton w st).g = g := (exec_g w st).trans h.globals
  rcases outcome_exec inetPton w st rest hlive with ⟨hlive', hsame⟩ | ⟨hexit, code, hcode⟩
  · refine ⟨hg, fun _ net hnet => ?_, fun hn => ⟨hlive', ?_⟩⟩
    · exact h.count hlive net (hsame ▸ hnet)
    · rw [hsame]
      exact (h.alive hn).2
  · refine ⟨hg, fun hfalse => ?_, fun hn => ?_⟩
    · rw [hexit] at hfalse
      cases hfalse
    · obtain ⟨_, net, hnet⟩ := h.alive hn
      rw [hcode] at hnet
      cases hnet

theorem Counted.gotIp {addr : UInt32} (hvalid : inetPton g.gDestIp.str = some addr)
    (hlive : w.exited = false) (h : Counted inetPton g p₀ n ⟨w, []⟩) :
    Counted inetPton g p₀ (n + 1) ⟨w, eventHandlerSta w.g .staGotIp⟩ := by
  obtain ⟨hopened, hfree⟩ := h.count hlive _ (outcome_idle inetPton w)
  have hg : w.g = g := h.globals
  rcases Nat.eq_zero_or_pos w.pool.free with hfull | hpos
  · have herror : outcome inetPton ⟨w, eventHandlerSta w.g .staGotIp⟩ = .error ⟨1⟩ := by
      rw [outcome_gotIp, initSocketClient, hg]
      exact execAll_initSocket_full inetPton .rssi w.sock _ _ hfull hvalid
    refine ⟨hg, fun _ net hnet => ?_, fun hn => ?_⟩
    · rw [herror] at hnet
      cases hnet
    · dsimp only at hfree
      omega
  · obtain ⟨p', ep', hok, _, hfree', hopened'⟩ :=
      execAll_initSocket inetPton .rssi w.sock g.gDestIp.str g.gRssiPort hpos hvalid
    have hdone : outcome inetPton ⟨w, eventHandlerSta w.g .staGotIp⟩ = .ok (p', ep') := by
      rw [outcome_gotIp, initSocketClient, hg]
      exact hok
    refine ⟨hg, fun _ net hnet => ?_, fun _ => ⟨hlive, _, hdone⟩⟩
    obtain rfl : (p', ep') = net := Except.ok.inj (hdone.symm.trans hnet)
    have hone := hopened' .rssi
    dsimp only at hopened hfree
    rw [if_pos rfl] at hone
    constructor
    · rw [hone, hopened]
    · dsimp only
      omega

theorem Counted.event_of_ne {e : SystemEvent} (he : e ≠ .staGotIp)
    (h : Counted inetPton g p₀ n ⟨w, []⟩) :
    Counted inetPton g p₀ n ⟨w, eventHandlerSta w.g e⟩ := by
  have hsame : outcome inetPton ⟨w, eventHandlerSta w.g e⟩ = outcome inetPton ⟨w, []⟩ :=
    outcome_event_of_ne inetPton w he
  refine ⟨h.globals, fun hlive net hnet => ?_, fun hn => ⟨(h.alive hn).1, _, hsame⟩⟩
  exact h.count hlive net (hsame ▸ hnet)

theorem counted_initial (hnone : p₀.openedBy .rssi = 0) (flash : Flash) (macDes : Buf 6) :
    Counted inetPton g p₀ 0 ⟨State.initial g flash p₀ macDes, []⟩ where
  globals := rfl
  count := by
    rintro _ net hnet
    rw [← Except.ok.inj hnet]
    exact ⟨hnone, rfl⟩
  alive := fun _ => ⟨rfl, _, rfl⟩

theorem counted_of_run {addr : UInt32} (hvalid : inetPton g.gDestIp.str = some addr)
    (hnone : p₀.openedBy .rssi = 0) {flash : Flash} {macDes : Buf 6} {ls : List Label}
    {c : Config State Station.Stmt}
    (hrun : run (station inetPton).step ⟨State.initial g flash p₀ macDes, []⟩ ls = some c) :
    Counted inetPton g p₀ ((events ls).count .staGotIp) c := by
  refine invariant_of_run (station inetPton)
    (P := fun ls c => Counted inetPton g p₀ ((events ls).count .staGotIp) c) ?_ ?_ ?_
    (counted_initial hnone flash macDes) hrun
  · intro ls w e hlive h
    rw [events_append_event, List.count_append, List.count_singleton]
    by_cases he : e = .staGotIp
    · subst he
      exact h.gotIp hvalid hlive
    · rw [if_neg (by simpa using he)]
      exact h.event_of_ne he
  · intro ls w st rest hlive h
    rw [events_append_advance]
    exact h.exec hlive
  · intro ls w pending p _ h
    rw [events_append_interrupt]
    exact ⟨h.globals, h.count, h.alive⟩

end Counting

/-- At no time of a run that delivers events of `es` in their order are two RSSI sockets open, or
has the program exited. Packets may arrive at any time. -/
def ReconnectSafe (start : State) (es : List SystemEvent) : Prop :=
  ∀ ls c, events ls <+: es → run (station inetPton).step ⟨start, []⟩ ls = some c →
    c.state.exited = false ∧ c.state.pool.openedBy .rssi ≤ 1

section Safety

variable {inetPton} {g : Globals} {p₀ : Pool} {es : List SystemEvent}

theorem reconnectSafe_of_count_le {addr : UInt32} (hvalid : inetPton g.gDestIp.str = some addr)
    (hnone : p₀.openedBy .rssi = 0) (flash : Flash) (macDes : Buf 6)
    (hone : es.count .staGotIp ≤ 1) (hfree : es.count .staGotIp ≤ p₀.free) :
    ReconnectSafe inetPton (State.initial g flash p₀ macDes) es := by
  intro ls c hprefix hrun
  have hcounted := counted_of_run hvalid hnone hrun
  have hle : (events ls).count .staGotIp ≤ es.count .staGotIp := hprefix.sublist.count_le _
  obtain ⟨hlive, net, hnet⟩ := hcounted.alive (hle.trans hfree)
  have hopened := (hcounted.count hlive net hnet).1
  have hmono := openedBy_le_of_execAll hnet .rssi
  exact ⟨hlive, by dsimp only at hmono; omega⟩

theorem count_le_of_reconnectSafe {addr : UInt32} (hvalid : inetPton g.gDestIp.str = some addr)
    (hnone : p₀.openedBy .rssi = 0) {flash : Flash} {macDes : Buf 6}
    (hsafe : ReconnectSafe inetPton (State.initial g flash p₀ macDes) es) :
    es.count .staGotIp ≤ 1 ∧ es.count .staGotIp ≤ p₀.free := by
  obtain ⟨ls, ⟨w, pending⟩, hrun, hprefix, hend⟩ :=
    (station inetPton).exists_run_events es (State.initial g flash p₀ macDes)
  obtain ⟨hlive, hopened⟩ := hsafe ls _ hprefix hrun
  rcases hend with hhalted | ⟨hidle, hall⟩
  · have hexit : w.exited = true := hhalted
    rw [hlive] at hexit
    cases hexit
  · obtain rfl : pending = [] := hidle
    have hcounted := counted_of_run hvalid hnone hrun
    rw [hall] at hcounted
    obtain ⟨hcount, hfree⟩ := hcounted.count hlive _ (outcome_idle inetPton w)
    dsimp only at hcount hopened hfree
    omega

/-- Reconnecting is safe exactly as long as the station gets its address at most once. -/
theorem reconnectSafe_iff (hvalid : (inetPton g.gDestIp.str).isSome)
    (hnone : p₀.openedBy .rssi = 0) (flash : Flash) (macDes : Buf 6) :
    ReconnectSafe inetPton (State.initial g flash p₀ macDes) es ↔
      es.count .staGotIp ≤ min 1 p₀.free := by
  obtain ⟨addr, haddr⟩ := Option.isSome_iff_exists.mp hvalid
  constructor
  · intro hsafe
    exact le_min_iff.mpr (count_le_of_reconnectSafe haddr hnone hsafe)
  · intro hle
    obtain ⟨hone, hfree⟩ := le_min_iff.mp hle
    exact reconnectSafe_of_count_le haddr hnone flash macDes hone hfree

/-- Once there are more addresses than sockets, a handler left to itself exits. -/
theorem exists_run_exited {addr : UInt32} (hvalid : inetPton g.gDestIp.str = some addr)
    (hnone : p₀.openedBy .rssi = 0) (flash : Flash) (macDes : Buf 6)
    (hmore : p₀.free < es.count .staGotIp) :
    ∃ ls c, events ls <+: es ∧
      run (station inetPton).step ⟨State.initial g flash p₀ macDes, []⟩ ls = some c ∧
      c.state.exited = true := by
  obtain ⟨ls, ⟨w, pending⟩, hrun, hprefix, hend⟩ :=
    (station inetPton).exists_run_events es (State.initial g flash p₀ macDes)
  refine ⟨ls, _, hprefix, hrun, ?_⟩
  rcases hend with hexit | ⟨hidle, hall⟩
  · exact hexit
  · by_contra hlive
    obtain rfl : pending = [] := hidle
    have hcounted := counted_of_run hvalid hnone hrun
    rw [hall] at hcounted
    have hfree := (hcounted.count (by simpa using hlive) _ (outcome_idle inetPton w)).2
    omega

theorem reconnectSafe_once :
    ReconnectSafe dottedQuad atBoot.state [.staStart, .staGotIp, .staDisconnected] :=
  (reconnectSafe_iff (by decide) (by decide) _ _).mpr (by decide)

/-- The first reconnection leaves two sockets open; the eleventh address ends the program. -/
theorem not_reconnectSafe_again :
    ¬ ReconnectSafe dottedQuad atBoot.state [.staStart, .staGotIp, .staDisconnected, .staGotIp] ∧
      ∃ ls c, events ls <+: List.replicate 11 .staGotIp ∧
        run (station dottedQuad).step atBoot ls = some c ∧ c.state.exited = true := by
  have hvalid : dottedQuad Globals.compiledIn.gDestIp.str = some 0x0201a8c0 := by decide
  constructor
  · intro hsafe
    have htwo := (count_le_of_reconnectSafe hvalid (by decide) hsafe).1
    exact absurd htwo (by decide)
  · exact exists_run_exited hvalid (by decide) _ _ (by decide)

end Safety
end SnifferStaSend.Reconnect
