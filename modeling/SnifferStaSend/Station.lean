import SnifferStaSend.EventTask
import SnifferStaSend.Sniffer
import SnifferStaSend.SockClient

/-!
# The running station

After `wifi_init_sniffer` the event task and the promiscuous callback share `ser_sock`, `server`
and `isConnectAP`: `event_handler_sta` runs one statement at a time, and a callback may run
between any two of them. `exit(1)` ends everything.
-/

namespace SnifferStaSend.Station
open CLib Nvs GetSettings SockClient Sniffer

inductive SystemEvent
  | staStart | staGotIp | staDisconnected | other
  deriving DecidableEq

inductive Stmt
  | wifiConnect
  | setConnected
  | resetRetry
  | getSettings
  | sock (s : SockClient.Stmt)
  | countRetry
  deriving DecidableEq

def Stmt.sock? : Stmt → Option SockClient.Stmt
  | .sock s => some s
  | _ => none

inductive Obs
  | wifiConnect
  | opened (fd : ℤ)
  | serverSet (server : SockaddrIn)
  | sendto (fd : ℤ) (server : SockaddrIn) (datagram : List UInt8) (sent : Bool)
  | printed (line : Line)
  deriving DecidableEq

/-- `trace` starts with the latest observation. -/
structure State where
  g : Globals
  flash : Flash
  pool : Pool
  sock : Endpoint
  isConnectAP : Bool
  sRetryNum : Int32
  sniffer : Vars
  exited : Bool
  trace : List Obs

def State.initial (g : Globals) (flash : Flash) (pool : Pool) (macDes : Buf 6) : State where
  g := g
  flash := flash
  pool := pool
  sock := Endpoint.zero
  isConnectAP := false
  sRetryNum := 0
  sniffer := Vars.initial macDes
  exited := false
  trace := []

/-- The branches of `event_handler_sta`; the missing `break` of the last one only falls through
to the empty default. -/
def eventHandlerSta (g : Globals) : SystemEvent → List Stmt
  | .staStart => [.wifiConnect]
  | .staGotIp => [.setConnected, .resetRetry, .getSettings] ++ (initSocketClient g).map .sock
  | .staDisconnected => [.wifiConnect, .countRetry]
  | .other => []

/-- A socket statement is observed when it opens a descriptor or completes `server`. -/
def observe (s : SockClient.Stmt) (ep : Endpoint) : List Obs :=
  match s with
  | .createSocket => if 0 ≤ ep.serSock then [.opened ep.serSock] else []
  | .setServerAddr _ => [.serverSet ep.server]
  | _ => []

section Semantics

variable (inetPton : CString → Option UInt32)

def exec (w : State) : Stmt → State
  | .wifiConnect => { w with trace := .wifiConnect :: w.trace }
  | .setConnected => { w with isConnectAP := true }
  | .resetRetry => { w with sRetryNum := 0 }
  | .getSettings => { w with flash := commitAll (GetSettings.getSettings w.g) w.flash }
  | .sock s =>
    match s.exec inetPton .rssi (w.pool, w.sock) with
    | .ok (pool, ep) => { w with pool := pool, sock := ep, trace := observe s ep ++ w.trace }
    | .error _ => { w with exited := true }
  -- the count is only logged, so it wraps
  | .countRetry => { w with sRetryNum := w.sRetryNum + 1 }

structure Capture where
  pkt : PromiscuousPkt
  sent : Bool

/-- The whole callback is one step. It runs in the Wi-Fi task, and what is told of a station is the
order of its callbacks among the statements of the event task: a send falls before or behind a
statement, and its test of the flag with it. `SockApi` takes a send apart into the load of the
descriptor and the system call. -/
def packetCallback (w : State) (p : Capture) : State :=
  let (sniffer, lines, datagram) := wifiSnifferPacketHandler w.sniffer w.isConnectAP p.pkt p.sent
  { w with
    sniffer := sniffer
    trace := .sendto w.sock.serSock w.sock.server datagram p.sent ::
      (lines.map .printed ++ w.trace) }

def station : EventTask State Stmt SystemEvent Capture where
  handler w e := eventHandlerSta w.g e
  exec := exec inetPton
  interrupt := packetCallback
  halted := State.exited

end Semantics

abbrev Label := EventTask.Label SystemEvent Capture

/-- The station at boot, with the compiled-in settings and all sockets free. -/
def atBoot : EventTask.Config State Stmt :=
  ⟨State.initial Globals.compiledIn (fun _ => none) lwipPool (Buf.fill 6 0), []⟩

def somePacket : PromiscuousPkt := ⟨1, 1, -40, fun _ => 0⟩

section Exec

variable {inetPton : CString → Option UInt32} (w : State)

theorem exec_sock_ok {s : SockClient.Stmt} {pool : Pool} {ep : Endpoint}
    (h : s.exec inetPton .rssi (w.pool, w.sock) = .ok (pool, ep)) :
    exec inetPton w (.sock s) =
      { w with pool := pool, sock := ep, trace := observe s ep ++ w.trace } := by
  rw [exec, h]

theorem exec_sock_error {s : SockClient.Stmt} {code : Exit}
    (h : s.exec inetPton .rssi (w.pool, w.sock) = .error code) :
    exec inetPton w (.sock s) = { w with exited := true } := by
  rw [exec, h]

@[simp] theorem exec_g (s : Stmt) : (exec inetPton w s).g = w.g := by
  cases s with
  | sock s =>
      dsimp only [exec]
      split <;> rfl
  | _ => rfl

end Exec
end SnifferStaSend.Station
