import SnifferStaSend.Station

/-!
# What the sender finds in `ser_sock` and `server`

The callback is registered before the station connects and tests nothing before `sendto`. A
send goes out on an opened descriptor to a completed address exactly when `init_socket_client`
has completed an address before and the last `socket` has not failed.
-/

namespace SnifferStaSend.SendPath
open CLib GetSettings SockClient Sniffer Station EventTask

section Trace

/-- `P` holds of the arguments of every `sendto` and of what was observed before it. -/
def AllSends (P : ℤ → SockaddrIn → List Obs → Prop) : List Obs → Prop
  | [] => True
  | .sendto fd server _ _ :: before => P fd server before ∧ AllSends P before
  | _ :: before => AllSends P before

/-- The descriptor came from a successful `socket`, the address had been set as a whole. -/
def OnClientSocket (fd : ℤ) (server : SockaddrIn) (before : List Obs) : Prop :=
  .opened fd ∈ before ∧ .serverSet server ∈ before

/-- Some address has been completed, and the descriptor is not that of a failed `socket`. -/
def SocketReady (fd : ℤ) (before : List Obs) : Prop :=
  (∃ server, .serverSet server ∈ before) ∧ fd ≠ -1

instance (fd : ℤ) (server : SockaddrIn) (before : List Obs) :
    Decidable (OnClientSocket fd server before) :=
  inferInstanceAs (Decidable (_ ∧ _))

def Obs.quiet : Obs → Prop
  | .sendto .. | .serverSet _ => False
  | _ => True

theorem allSends_append {P : ℤ → SockaddrIn → List Obs → Prop} {seen before : List Obs}
    (hseen : ∀ o ∈ seen, Obs.quiet o) : AllSends P (seen ++ before) ↔ AllSends P before := by
  induction seen with
  | nil => rfl
  | cons o seen ih =>
      have hrest := ih (fun o' ho' => hseen o' (List.mem_cons_of_mem o ho'))
      have hquiet := hseen o List.mem_cons_self
      cases o with
      | sendto fd server datagram sent => exact hquiet.elim
      | _ => exact hrest

end Trace

section Invariant

variable (inetPton : CString → Option UInt32) (g : Globals)

/-- The address that `init_socket_client` aims at under the settings `g`. -/
def IsTarget (server : SockaddrIn) : Prop :=
  ∃ addr, inetPton g.gDestIp.str = some addr ∧ server = serverAddr g.gRssiPort addr

def Created (w : State) : Prop := w.sock.serSock = -1 ∨ .opened w.sock.serSock ∈ w.trace

/-- What `init_socket_client` has achieved when its first `k` statements are done and the
address is still to be set. -/
structure Reached (k : ℕ) (w : State) : Prop where
  created : 1 ≤ k → k < 5 → Created w
  family : 3 ≤ k → k < 5 → w.sock.server.sinFamily = afInet
  port : 4 ≤ k → k < 5 → w.sock.server.sinPort = htons (toU16 g.gRssiPort)

/-- What a state guarantees whatever is left of the handler. -/
structure Facts (w : State) : Prop where
  globals : w.g = g
  known : ∀ server, .serverSet server ∈ w.trace →
    Created w ∧ server = w.sock.server ∧ IsTarget inetPton g server
  opened : ∀ fd, .opened fd ∈ w.trace → 0 ≤ fd
  sends : AllSends (fun fd server before =>
    OnClientSocket fd server before ↔ SocketReady fd before) w.trace

structure Inv (c : Config State Station.Stmt) : Prop where
  facts : Facts inetPton g c.state
  reached : ∃ k, c.pending.filterMap Station.Stmt.sock? = (initSocketClient g).drop k ∧
    Reached g k c.state

variable {inetPton g} {w w' : State}

theorem reached_done {k : ℕ} (hk : 5 ≤ k) : Reached g k w where
  created := fun _ h => absurd h (by omega)
  family := fun _ h => absurd h (by omega)
  port := fun _ h => absurd h (by omega)

theorem Facts.quiet (seen : List Obs) (h : Facts inetPton g w) (hg : w'.g = w.g)
    (htrace : w'.trace = seen ++ w.trace) (hseen : ∀ o ∈ seen, Obs.quiet o)
    (hopened : ∀ fd, .opened fd ∈ seen → 0 ≤ fd) (hcreated : Created w → Created w')
    (hserver : IsTarget inetPton g w.sock.server → w'.sock.server = w.sock.server) :
    Facts inetPton g w' where
  globals := hg.trans h.globals
  known := by
    intro server hmem
    rw [htrace] at hmem
    obtain ⟨hc, rfl, htarget⟩ :=
      h.known server ((List.mem_append.mp hmem).resolve_left (fun hin => hseen _ hin))
    exact ⟨hcreated hc, (hserver htarget).symm, htarget⟩
  opened := by
    intro fd hmem
    rw [htrace] at hmem
    exact (List.mem_append.mp hmem).elim (hopened fd) (h.opened fd)
  sends := by
    rw [htrace]
    exact (allSends_append hseen).mpr h.sends

theorem Facts.of_same (h : Facts inetPton g w) (hg : w'.g = w.g) (htrace : w'.trace = w.trace)
    (hsock : w'.sock.serSock = w.sock.serSock) (hserver : w'.sock.server = w.sock.server) :
    Facts inetPton g w' := by
  refine h.quiet [] hg htrace (by simp) (by simp) ?_ (fun _ => hserver)
  rw [Created, Created, htrace, hsock]
  exact id

theorem Reached.mono {k : ℕ} (h : Reached g k w) (hcreated : Created w → Created w')
    (hserver : w'.sock.server = w.sock.server) : Reached g k w' where
  created := fun h1 h5 => hcreated (h.created h1 h5)
  family := fun h3 h5 => by rw [hserver]; exact h.family h3 h5
  port := fun h4 h5 => by rw [hserver]; exact h.port h4 h5

theorem created_createSocket : Created (exec inetPton w (.sock .createSocket)) := by
  rcases w.pool.socket_fd .rssi with hfailed | hfd
  · exact Or.inl hfailed
  · right
    change .opened (w.pool.socket .rssi).1 ∈
      (if 0 ≤ (w.pool.socket .rssi).1 then [Obs.opened (w.pool.socket .rssi).1] else []) ++ w.trace
    rw [if_pos hfd]
    exact List.mem_cons_self

theorem Facts.createSocket (h : Facts inetPton g w) :
    Facts inetPton g (exec inetPton w (.sock .createSocket)) := by
  have hseen : ∀ o ∈ observe .createSocket { w.sock with serSock := (w.pool.socket .rssi).1 },
      ∃ fd, 0 ≤ fd ∧ o = .opened fd := by
    intro o ho
    dsimp only [observe] at ho
    split_ifs at ho with hfd
    · exact ⟨_, hfd, List.mem_singleton.mp ho⟩
    · cases ho
  refine h.quiet _ rfl rfl (fun o ho => ?_) (fun fd ho => ?_) (fun _ => created_createSocket)
    (fun _ => rfl)
  · obtain ⟨fd, _, rfl⟩ := hseen o ho
    trivial
  · obtain ⟨fd', hfd', heq⟩ := hseen _ ho
    exact Obs.opened.inj heq ▸ hfd'

theorem Facts.exit (h : Facts inetPton g w) : Facts inetPton g { w with exited := true } :=
  h.of_same rfl rfl rfl rfl

theorem Facts.setServerAddr (h : Facts inetPton g w) (hcreated : Created w)
    (hfamily : w.sock.server.sinFamily = afInet)
    (hport : w.sock.server.sinPort = htons (toU16 g.gRssiPort)) :
    Facts inetPton g (exec inetPton w (.sock (.setServerAddr g.gDestIp.str))) := by
  cases haddr : inetPton g.gDestIp.str with
  | none =>
      have herror : Stmt.exec inetPton .rssi (.setServerAddr g.gDestIp.str) (w.pool, w.sock) =
          .error ⟨1⟩ := by simp only [Stmt.exec, haddr]
      rw [exec_sock_error w herror]
      exact h.exit
  | some addr =>
      have hserver : { w.sock.server with sAddr := addr } = serverAddr g.gRssiPort addr := by
        dsimp only
        rw [hfamily, hport, serverAddr]
      have hok : Stmt.exec inetPton .rssi (.setServerAddr g.gDestIp.str) (w.pool, w.sock) =
          .ok (w.pool, { w.sock with server := serverAddr g.gRssiPort addr }) := by
        simp only [Stmt.exec, haddr, hserver]
      rw [exec_sock_ok w hok]
      refine ⟨h.globals, ?_, ?_, h.sends⟩
      · intro server hmem
        refine ⟨hcreated.imp_right (List.mem_cons_of_mem _), ?_⟩
        rcases List.mem_cons.mp hmem with hnew | hold
        · obtain rfl := Obs.serverSet.inj hnew
          exact ⟨rfl, addr, haddr, rfl⟩
        · obtain ⟨_, _, addr', haddr', rfl⟩ := h.known server hold
          obtain rfl : addr = addr' := Option.some.inj (haddr.symm.trans haddr')
          exact ⟨rfl, addr, haddr, rfl⟩
      · intro fd hmem
        rcases List.mem_cons.mp hmem with hnew | hold
        · cases hnew
        · exact h.opened fd hold

/-- The statements of `init_socket_client` in their order. -/
theorem Facts.sock {s : SockClient.Stmt} {tail : List SockClient.Stmt} {k : ℕ}
    (h : Facts inetPton g w) (hk : s :: tail = (initSocketClient g).drop k)
    (hreached : Reached g k w) :
    Facts inetPton g (exec inetPton w (.sock s)) ∧
      Reached g (k + 1) (exec inetPton w (.sock s)) := by
  rcases k with _ | _ | _ | _ | _ | _ | k
  · obtain rfl : s = .createSocket := (List.cons.inj hk).1
    refine ⟨h.createSocket, fun _ _ => created_createSocket, ?_, ?_⟩ <;> intro <;> omega
  · obtain rfl : s = .setClient := (List.cons.inj hk).1
    refine ⟨h.of_same rfl rfl rfl rfl, fun _ _ => hreached.created le_rfl (by omega), ?_, ?_⟩ <;>
      intro <;> omega
  · obtain rfl : s = .setServerFamily := (List.cons.inj hk).1
    refine ⟨?_, fun _ _ => hreached.created (by omega) (by omega), fun _ _ => rfl, ?_⟩
    · refine h.quiet [] rfl rfl (by simp) (by simp) id ?_
      rintro ⟨addr, _, hserver⟩
      change { w.sock.server with sinFamily := afInet } = w.sock.server
      rw [hserver]
      rfl
    · intro
      omega
  · obtain rfl : s = .setServerPort g.gRssiPort := (List.cons.inj hk).1
    refine ⟨?_, fun _ _ => hreached.created (by omega) (by omega),
      fun _ _ => hreached.family le_rfl (by omega), fun _ _ => rfl⟩
    refine h.quiet [] rfl rfl (by simp) (by simp) id ?_
    rintro ⟨addr, _, hserver⟩
    change { w.sock.server with sinPort := htons (toU16 g.gRssiPort) } = w.sock.server
    rw [hserver]
    rfl
  · obtain rfl : s = .setServerAddr g.gDestIp.str := (List.cons.inj hk).1
    exact ⟨h.setServerAddr (hreached.created (by omega) (by omega))
      (hreached.family (by omega) (by omega)) (hreached.port le_rfl (by omega)),
      reached_done le_rfl⟩
  · obtain rfl : s = .bindSocket := (List.cons.inj hk).1
    refine ⟨?_, reached_done (by omega)⟩
    cases hbind : w.pool.bind w.sock.serSock with
    | true =>
        have hok : Stmt.exec inetPton .rssi .bindSocket (w.pool, w.sock) =
            .ok (w.pool, w.sock) := by simp only [Stmt.exec, hbind, if_true]
        rw [exec_sock_ok w hok]
        exact h.of_same rfl rfl rfl rfl
    | false =>
        have herror : Stmt.exec inetPton .rssi .bindSocket (w.pool, w.sock) = .error ⟨1⟩ := by
          simp [Stmt.exec, hbind]
        rw [exec_sock_error w herror]
        exact h.exit
  · exact absurd (hk.trans List.drop_nil) (List.cons_ne_nil s tail)

theorem Inv.exec {st : Station.Stmt} {rest : List Station.Stmt}
    (h : Inv inetPton g ⟨w, st :: rest⟩) : Inv inetPton g ⟨exec inetPton w st, rest⟩ := by
  obtain ⟨hfacts, k, hk, hreached⟩ := h
  cases st with
  | sock s =>
      obtain ⟨hfacts', hreached'⟩ := hfacts.sock hk hreached
      refine ⟨hfacts', k + 1, ?_, hreached'⟩
      rw [← List.tail_drop, ← hk]
      rfl
  | wifiConnect =>
      have hcreated (hc : Created w) : Created (Station.exec inetPton w .wifiConnect) :=
        hc.imp_right (List.mem_cons_of_mem _)
      refine ⟨hfacts.quiet [.wifiConnect] rfl rfl (by simp [Obs.quiet]) (by simp) hcreated
        (fun _ => rfl), k, hk, hreached.mono hcreated rfl⟩
  | _ => exact ⟨hfacts.of_same rfl rfl rfl rfl, k, hk, hreached.mono id rfl⟩

theorem Inv.event (h : Inv inetPton g ⟨w, []⟩) (e : SystemEvent) :
    Inv inetPton g ⟨w, eventHandlerSta w.g e⟩ := by
  refine ⟨h.facts, ?_⟩
  rw [h.facts.globals]
  cases e with
  | staGotIp => exact ⟨0, rfl, fun h1 => absurd h1 (by omega), fun h3 => absurd h3 (by omega),
      fun h4 => absurd h4 (by omega)⟩
  | _ => exact ⟨6, rfl, reached_done (by omega)⟩

theorem Facts.onClientSocket_iff (h : Facts inetPton g w) :
    OnClientSocket w.sock.serSock w.sock.server w.trace ↔
      SocketReady w.sock.serSock w.trace := by
  constructor
  · rintro ⟨hopened, hset⟩
    have hfd := h.opened _ hopened
    exact ⟨⟨_, hset⟩, by omega⟩
  · rintro ⟨⟨server, hset⟩, hfd⟩
    obtain ⟨hcreated, rfl, _⟩ := h.known server hset
    exact ⟨hcreated.resolve_left hfd, hset⟩

theorem Facts.packetCallback (h : Facts inetPton g w) (p : Capture) :
    Facts inetPton g (packetCallback w p) := by
  obtain ⟨lines, datagram, htrace⟩ : ∃ (lines : List Line) (datagram : List UInt8),
      (Station.packetCallback w p).trace =
        .sendto w.sock.serSock w.sock.server datagram p.sent ::
          (lines.map Obs.printed ++ w.trace) := ⟨_, _, rfl⟩
  have hquiet : ∀ o ∈ lines.map Obs.printed, Obs.quiet o := by
    intro o ho
    obtain ⟨line, _, rfl⟩ := List.mem_map.mp ho
    trivial
  have hprinted : Facts inetPton g { w with trace := lines.map Obs.printed ++ w.trace } :=
    h.quiet _ rfl rfl hquiet (by simp) (fun hc => hc.imp_right (List.mem_append_right _))
      (fun _ => rfl)
  refine ⟨h.globals, ?_, ?_, ?_⟩
  · intro server hmem
    rw [htrace] at hmem
    obtain ⟨hcreated, hserver, htarget⟩ :=
      hprinted.known server ((List.mem_cons.mp hmem).resolve_left (by simp))
    refine ⟨hcreated.imp_right (fun hin => ?_), hserver, htarget⟩
    rw [htrace]
    exact List.mem_cons_of_mem _ hin
  · intro fd hmem
    rw [htrace] at hmem
    exact hprinted.opened fd ((List.mem_cons.mp hmem).resolve_left (by simp))
  · rw [htrace]
    exact ⟨hprinted.onClientSocket_iff, hprinted.sends⟩

theorem inv_of_run {flash : Nvs.Flash} {pool : Pool} {macDes : Buf 6} {ls : List Label}
    {c : Config State Station.Stmt}
    (hrun : run (station inetPton).step ⟨State.initial g flash pool macDes, []⟩ ls = some c) :
    Inv inetPton g c := by
  refine invariant_of_run (station inetPton) (P := fun _ c => Inv inetPton g c) ?_ ?_ ?_ ?_ hrun
  · intro _ w e _ h
    exact h.event e
  · intro _ w st rest _ h
    exact h.exec
  · rintro _ w pending p _ ⟨hfacts, k, hk, hreached⟩
    refine ⟨hfacts.packetCallback p, k, hk, hreached.mono (fun hc => ?_) rfl⟩
    exact hc.imp_right (fun hin => List.mem_cons_of_mem _ (List.mem_append_right _ hin))
  · refine ⟨⟨rfl, ?_, ?_, trivial⟩, 6, rfl, reached_done (by omega)⟩
    · intro server hmem
      cases hmem
    · intro fd hmem
      cases hmem

end Invariant

/-- Whatever the interleaving, a send uses a descriptor from a successful `socket` and an address
set as a whole before it exactly when the socket is ready by then. -/
theorem allSends_onClientSocket_iff (inetPton : CString → Option UInt32) (g : Globals)
    (flash : Nvs.Flash) (pool : Pool) (macDes : Buf 6) (ls : List Label)
    (c : Config State Station.Stmt)
    (hrun : run (station inetPton).step ⟨State.initial g flash pool macDes, []⟩ ls = some c) :
    AllSends (fun fd server before =>
      OnClientSocket fd server before ↔ SocketReady fd before) c.state.trace :=
  (inv_of_run hrun).facts.sends

def connectedSend : List Label :=
  .event .staGotIp :: List.replicate 9 .advance ++ [.interrupt ⟨somePacket, true⟩]

theorem onClientSocket_after_init : ∃ c server datagram before,
    run (station dottedQuad).step atBoot connectedSend = some c ∧
      c.state.trace = .sendto 54 server datagram true :: before ∧
      OnClientSocket 54 server before := by
  obtain ⟨c, hrun, server, datagram, before, htrace, hset⟩ :
      ∃ c, run (station dottedQuad).step atBoot connectedSend = some c ∧
        ∃ server datagram before, c.state.trace = .sendto 54 server datagram true :: before ∧
          ∃ server', Obs.serverSet server' ∈ before :=
    ⟨_, rfl, _, _, _, rfl, ⟨afInet, htons 8888, 0x0201a8c0⟩, by decide⟩
  have hsends := allSends_onClientSocket_iff dottedQuad _ _ _ _ _ _ hrun
  rw [htrace] at hsends
  exact ⟨c, server, datagram, before, hrun, htrace, hsends.1.mpr ⟨hset, by decide⟩⟩

/-- A packet before that goes to descriptor 0, the value the global starts with. -/
theorem not_allSends_onClientSocket : ∃ c,
    run (station dottedQuad).step atBoot [.interrupt ⟨somePacket, false⟩] = some c ∧
      ¬ AllSends OnClientSocket c.state.trace :=
  ⟨_, rfl, fun h => absurd h.1.1 (by decide)⟩

end SnifferStaSend.SendPath
