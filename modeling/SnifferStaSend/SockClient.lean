import Mathlib.Data.List.Basic
import SnifferStaSend.GetSettings

/-!
# The UDP client sockets

`init_socket_client` and `init_socket_client_ck` of `sock_client_init.c`, statement by
statement. `inet_pton` belongs to lwIP and is an argument.

`socket` and `bind` belong to lwIP as well, and `Pool` is the model that the whole development
takes of them: `socket` hands out the lowest free descriptor or fails when all are open, and
`bind` to any local port fails only on a descriptor that is not open. Every result about the
sockets rests on this.
-/

namespace SnifferStaSend.SockClient
open CLib GetSettings

/-- `sinPort` and `sAddr` are in network byte order. -/
structure SockaddrIn where
  sinFamily : UInt8
  sinPort : UInt16
  sAddr : UInt32
  deriving DecidableEq

def afInet : UInt8 := 2

def htons (p : UInt16) : UInt16 := UInt16.ofNat (p.toNat % 256 * 256 + p.toNat / 256)

def ntohs (p : UInt16) : UInt16 := htons p

/-- Conversion of an `int` argument to `u16_t`. -/
def toU16 (v : Int32) : UInt16 := UInt16.ofNat (v.toInt % 65536).toNat

inductive Owner
  | rssi | ck | other
  deriving DecidableEq

/-- The lwIP sockets: `slots[i]` tells who has opened descriptor `firstFd + i`. -/
structure Pool where
  firstFd : ℕ
  slots : List (Option Owner)
  deriving DecidableEq

/-- `CONFIG_LWIP_MAX_SOCKETS`; descriptors count up to 64. -/
def configLwipMaxSockets : ℕ := 10

def lwipPool : Pool := ⟨64 - configLwipMaxSockets, List.replicate configLwipMaxSockets none⟩

def Pool.free (p : Pool) : ℕ := p.slots.count none

def Pool.openedBy (p : Pool) (o : Owner) : ℕ := p.slots.count (some o)

/-- `socket(AF_INET, SOCK_DGRAM, 0)`: the first free descriptor, or -1. -/
def Pool.socket (p : Pool) (o : Owner) : ℤ × Pool :=
  match p.slots.findIdx? Option.isNone with
  | some i => (((p.firstFd + i : ℕ) : ℤ), { p with slots := p.slots.set i (some o) })
  | none => (-1, p)

/-- `bind` to any local port: it fails on what is not an open descriptor. -/
def Pool.bind (p : Pool) (fd : ℤ) : Bool :=
  0 ≤ fd && p.firstFd ≤ fd.toNat && (p.slots[fd.toNat - p.firstFd]?.join).isSome

/-- `ser_sock`, `client`, `server`, or the three globals with the suffix `_ck`. -/
structure Endpoint where
  serSock : ℤ
  client : SockaddrIn
  server : SockaddrIn
  deriving DecidableEq

def Endpoint.zero : Endpoint := ⟨0, ⟨0, 0, 0⟩, ⟨0, 0, 0⟩⟩

inductive Stmt
  | createSocket
  | setClient
  | setServerFamily
  | setServerPort (port : Int32)
  | setServerAddr (serIp : CString)
  | bindSocket
  deriving DecidableEq

structure Exit where
  status : ℕ
  deriving DecidableEq

/-- A failing `socket` only prints a message; `inet_pton` and `bind` end the program. -/
def Stmt.exec (inetPton : CString → Option UInt32) (owner : Owner) :
    Stmt → Pool × Endpoint → Except Exit (Pool × Endpoint)
  | .createSocket, (pool, ep) =>
    let (fd, pool) := pool.socket owner
    .ok (pool, { ep with serSock := fd })
  | .setClient, (pool, ep) => .ok (pool, { ep with client := ⟨afInet, htons 0, 0⟩ })
  | .setServerFamily, (pool, ep) =>
    .ok (pool, { ep with server := { ep.server with sinFamily := afInet } })
  | .setServerPort port, (pool, ep) =>
    .ok (pool, { ep with server := { ep.server with sinPort := htons (toU16 port) } })
  | .setServerAddr serIp, (pool, ep) =>
    match inetPton serIp with
    | some addr => .ok (pool, { ep with server := { ep.server with sAddr := addr } })
    | none => .error ⟨1⟩
  | .bindSocket, (pool, ep) => if pool.bind ep.serSock then .ok (pool, ep) else .error ⟨1⟩

/-- The statements shared by the functions; `serIp` is the copy of `g_dest_ip`, which fits its
30 bytes. -/
def initSocket (serIp : CString) (port : Int32) : List Stmt :=
  [.createSocket, .setClient, .setServerFamily, .setServerPort port, .setServerAddr serIp,
    .bindSocket]

def initSocketClient (g : Globals) : List Stmt := initSocket g.gDestIp.str g.gRssiPort

def initSocketClientCk (g : Globals) : List Stmt := initSocket g.gDestIp.str g.gCkPort

def execAll (inetPton : CString → Option UInt32) (owner : Owner) (stmts : List Stmt)
    (net : Pool × Endpoint) : Except Exit (Pool × Endpoint) :=
  stmts.foldlM (fun net s => s.exec inetPton owner net) net

section Inet

def octet (s : List UInt8) : Option ℕ :=
  if s ≠ [] ∧ s.length ≤ 3 ∧ s.all isdigit ∧ digitsValue s ≤ 255 then some (digitsValue s) else none

/-- An `inet_pton` for the examples, the first octet in the lowest byte. On four decimal numbers
without leading zeros it is that of lwIP, which takes other forms too. -/
def dottedQuad (s : CString) : Option UInt32 :=
  match (s.bytes.splitOnP (· == 46)).map octet with
  | [some a, some b, some c, some d] =>
    some (UInt32.ofNat (a + 256 * b + 65536 * c + 16777216 * d))
  | _ => none

example : dottedQuad (CString.ofString "10.0.0.7") = some 0x0700000a := by decide

end Inet

theorem ntohs_htons (p : UInt16) : ntohs (htons p) = p := by
  have hp := p.toNat_lt
  have hlt : p.toNat % 256 * 256 + p.toNat / 256 < 2 ^ 16 := by omega
  have hlow : (p.toNat % 256 * 256 + p.toNat / 256) % 256 = p.toNat / 256 := by omega
  have hhigh : (p.toNat % 256 * 256 + p.toNat / 256) / 256 = p.toNat % 256 := by omega
  apply UInt16.toNat_inj.mp
  have hswap : (htons p).toNat = p.toNat % 256 * 256 + p.toNat / 256 := by
    rw [htons, UInt16.toNat_ofNat', Nat.mod_eq_of_lt hlt]
  have hback : p.toNat / 256 * 256 + p.toNat % 256 = p.toNat := by omega
  rw [ntohs, htons, UInt16.toNat_ofNat', hswap, hlow, hhigh, hback]
  exact Nat.mod_eq_of_lt hp

theorem toNat_toU16 {v : Int32} (h0 : 0 ≤ v.toInt) (h1 : v.toInt < 65536) :
    ((toU16 v).toNat : ℤ) = v.toInt := by
  simp only [toU16, UInt16.toNat_ofNat']
  omega

section Pool

variable {p : Pool} (o : Owner)

theorem Pool.socket_of_free (h : 0 < p.free) :
    ∃ i, p.slots[i]? = some none ∧
      p.socket o = (((p.firstFd + i : ℕ) : ℤ), { p with slots := p.slots.set i (some o) }) := by
  have hmem : none ∈ p.slots := List.count_pos_iff.mp h
  cases hf : p.slots.findIdx? Option.isNone with
  | none =>
      have hall := List.findIdx?_eq_none_iff.mp hf none hmem
      simp at hall
  | some i =>
      obtain ⟨hi, hnone, _⟩ := List.findIdx?_eq_some_iff_getElem.mp hf
      refine ⟨i, ?_, by rw [Pool.socket, hf]⟩
      rw [List.getElem?_eq_getElem hi, Option.isNone_iff_eq_none.mp hnone]

theorem Pool.socket_of_full (h : p.free = 0) : p.socket o = (-1, p) := by
  have hnot : none ∉ p.slots := List.count_eq_zero.mp h
  have hf : p.slots.findIdx? Option.isNone = none := by
    rw [List.findIdx?_eq_none_iff]
    intro x hx
    cases x with
    | none => exact absurd hx hnot
    | some y => rfl
  rw [Pool.socket, hf]

theorem Pool.socket_fd (p : Pool) (o : Owner) : (p.socket o).1 = -1 ∨ 0 ≤ (p.socket o).1 := by
  rcases Nat.eq_zero_or_pos p.free with hfull | hfree
  · exact Or.inl (by rw [Pool.socket_of_full o hfull])
  · obtain ⟨i, _, hsock⟩ := Pool.socket_of_free o hfree
    exact Or.inr (by rw [hsock]; exact Int.natCast_nonneg _)

theorem Pool.bind_minus_one : p.bind (-1) = false := rfl

theorem Pool.bind_of_set {i : ℕ} (h : p.slots[i]? = some none) :
    Pool.bind { p with slots := p.slots.set i (some o) } ((p.firstFd + i : ℕ) : ℤ) = true := by
  have hi : i < p.slots.length := (List.getElem?_eq_some_iff.mp h).1
  simp only [Pool.bind, Int.toNat_natCast, Nat.add_sub_cancel_left, List.getElem?_set_self hi]
  simp
  omega

theorem count_set_none {l : List (Option Owner)} {i : ℕ} (h : l[i]? = some none) (x : Owner) :
    (l.set i (some o)).count none + 1 = l.count none ∧
      (l.set i (some o)).count (some x) = l.count (some x) + if o = x then 1 else 0 := by
  induction l generalizing i with
  | nil => cases h
  | cons a l ih =>
      cases i with
      | zero =>
          have ha : a = none := by simpa using h
          subst ha
          simp [List.count_cons]
      | succ i =>
          obtain ⟨hnone, hsome⟩ := ih (i := i) (by simpa using h)
          simp only [List.set_cons_succ, List.count_cons, hsome]
          omega

end Pool

section Init

variable (inetPton : CString → Option UInt32) (owner : Owner) {p : Pool} (ep : Endpoint)
  (serIp : CString) (port : Int32)

def serverAddr (port : Int32) (addr : UInt32) : SockaddrIn := ⟨afInet, htons (toU16 port), addr⟩

theorem execAll_initSocket {addr : UInt32} (hfree : 0 < p.free)
    (haddr : inetPton serIp = some addr) :
    ∃ p' ep', execAll inetPton owner (initSocket serIp port) (p, ep) = .ok (p', ep') ∧
      ep'.server = serverAddr port addr ∧ p'.free + 1 = p.free ∧
      ∀ x, p'.openedBy x = p.openedBy x + if owner = x then 1 else 0 := by
  obtain ⟨i, hi, hsock⟩ := Pool.socket_of_free owner hfree
  have hbind := Pool.bind_of_set owner hi
  refine ⟨{ p with slots := p.slots.set i (some owner) },
    ⟨((p.firstFd + i : ℕ) : ℤ), ⟨afInet, htons 0, 0⟩, serverAddr port addr⟩, ?_, rfl,
    (count_set_none owner hi owner).1, fun x => (count_set_none owner hi x).2⟩
  simp only [execAll, initSocket, List.foldlM_cons, List.foldlM_nil, Stmt.exec, hsock, haddr, bind,
    Except.bind, hbind, if_true, pure, Except.pure, serverAddr]

theorem execAll_initSocket_full {addr : UInt32} (hfull : p.free = 0)
    (haddr : inetPton serIp = some addr) :
    execAll inetPton owner (initSocket serIp port) (p, ep) = .error ⟨1⟩ := by
  simp [execAll, initSocket, List.foldlM_cons, Stmt.exec, Pool.socket_of_full owner hfull, haddr,
    bind, Except.bind, Pool.bind_minus_one]

end Init

section Monotone

variable {inetPton : CString → Option UInt32} {o : Owner} {net net' : Pool × Endpoint}

theorem execAll_cons_eq_ok {s : Stmt} {rest : List Stmt} :
    execAll inetPton o (s :: rest) net = .ok net' ↔
      ∃ mid, s.exec inetPton o net = .ok mid ∧ execAll inetPton o rest mid = .ok net' := by
  rw [execAll, List.foldlM_cons]
  exact bind_eq_ok

theorem Pool.socket_openedBy_ge (p : Pool) (o x : Owner) :
    p.openedBy x ≤ (p.socket o).2.openedBy x := by
  rcases Nat.eq_zero_or_pos p.free with hfull | hfree
  · rw [Pool.socket_of_full o hfull]
  · obtain ⟨i, hi, hsock⟩ := Pool.socket_of_free o hfree
    rw [hsock, Pool.openedBy, Pool.openedBy, (count_set_none o hi x).2]
    exact Nat.le_add_right _ _

theorem openedBy_le_of_exec {s : Stmt} (h : s.exec inetPton o net = .ok net') (x : Owner) :
    net.1.openedBy x ≤ net'.1.openedBy x := by
  obtain ⟨p, ep⟩ := net
  cases s with
  | createSocket => exact Except.ok.inj h ▸ p.socket_openedBy_ge o x
  | setServerAddr serIp =>
      dsimp only [Stmt.exec] at h
      split at h
      · exact Except.ok.inj h ▸ le_rfl
      · cases h
  | bindSocket =>
      dsimp only [Stmt.exec] at h
      split at h
      · exact Except.ok.inj h ▸ le_rfl
      · cases h
  | _ => exact Except.ok.inj h ▸ le_rfl

theorem openedBy_le_of_execAll {stmts : List Stmt} (h : execAll inetPton o stmts net = .ok net')
    (x : Owner) : net.1.openedBy x ≤ net'.1.openedBy x := by
  induction stmts generalizing net with
  | nil => exact Except.ok.inj h ▸ le_rfl
  | cons s rest ih =>
      obtain ⟨mid, hs, hrest⟩ := execAll_cons_eq_ok.mp h
      exact (openedBy_le_of_exec hs x).trans (ih hrest)

end Monotone
end SnifferStaSend.SockClient
