import SnifferStaSend.PacketReport
import SnifferStaSend.Reading

/-!
# The bytes of a frame that the callback reads

`wifi_sniffer_packet_handler` again, with every read of `payload` kept: two `memcpy`, the
`memcmp` of the flags, and what is printed. The handler takes no notice of `type` nor of
`sig_len`, so that it always reads as far as `addr2`, also where a frame has none.
-/

namespace SnifferStaSend.PacketReads
open CLib Sniffer PacketReport

/-- `wifi_promiscuous_pkt_type_t`, by the names in `def_vars.h`. -/
inductive PktType
  | mgmt | data | misc
  deriving DecidableEq

def scanMacSnifapsta : List UInt8 := [0x4c, 0x11, 0xae, 0x6e, 0x38, 0x18]

def scanMacSnifstaap : List UInt8 := [0x4c, 0x11, 0xae, 0x6e, 0x38, 0x19]

def scanMacAp : List UInt8 := [0xbc, 0xdd, 0xc2, 0xcf, 0x48, 0xb1]

def scanMacSta : List UInt8 := [0x98, 0xcd, 0xac, 0x85, 0x14, 0x94]

def scanMacPhone : List UInt8 := [0xe4, 0x33, 0xae, 0x0c, 0x0d, 0x39]

/-- `memcpy(send_pkt.addr, hdr->addr, 6)`. -/
def memcpyAddr (mem : ℕ → UInt8) (offset : ℕ) : Reading (Buf 6) := do
  let addr ← Reading.bytes mem offset 6
  return Buf.ofBytes 6 addr

/-- The two comparisons of `boolAp` and `boolSta`; the second one is made when the first fails. -/
def memcmpEither (mem : ℕ → UInt8) (mac : List UInt8) : Reading Bool := do
  let first ← Reading.memcmpIsZero mem mac addr1Offset
  if first then return true else Reading.memcmpIsZero mem mac addr2Offset

def logPacket (s : Vars) (pkt : PromiscuousPkt) : Reading (Vars × List Line) :=
  if sinceFirst s < 120 * 1000000 then do
    let addr1 ← Reading.bytes pkt.payload (addr1Offset + 4) 2
    let addr2 ← Reading.bytes pkt.payload (addr2Offset + 4) 2
    return (s, [.packet s.successTimes s.failedTimes pkt.timestamp pkt.channel pkt.rssi addr1 addr2
      (s.macDes.bytes.drop 4)])
  else if s.timeOut = 0 ∧ 120 * 1000000 ≤ sinceFirst s then
    return ({ s with timeOut := s.timeOut + 1 }, [.timesUp])
  else return (s, [])

def wifiSnifferPacketHandler (s : Vars) (isConnectAP : Bool) (pkt : PromiscuousPkt) (_ : PktType)
    (sent : Bool) : Reading (Vars × List Line × List UInt8) := do
  let addr1 ← memcpyAddr pkt.payload addr1Offset
  let addr2 ← memcpyAddr pkt.payload addr2Offset
  let s := { s with sendPkt := ⟨pkt.timestamp, pkt.channel, pkt.rssi, addr1, addr2, s.macDes⟩ }
  let _boolSnifsta ← Reading.memcmpIsZero pkt.payload scanMacSnifapsta addr2Offset
  let _boolSnifap ← Reading.memcmpIsZero pkt.payload scanMacSnifstaap addr1Offset
  let _boolAp ← memcmpEither pkt.payload scanMacAp
  let _boolSta ← memcmpEither pkt.payload scanMacSta
  let _boolPhone ← Reading.memcmpIsZero pkt.payload scanMacPhone addr2Offset
  let s := if s.fstPktTime = 0 then { s with fstPktTime := s.sendPkt.timestamp.toInt32 } else s
  let (s, lines) ← logPacket s pkt
  let (s, datagram) := socketDataSend s s.sendPkt.bytes isConnectAP sent
  return (s, lines, datagram)

section Refinement

variable {mem : ℕ → UInt8} (log : List ℕ)

theorem memcpyAddr_apply (offset : ℕ) :
    memcpyAddr mem offset log = (readAddr mem offset, log ++ List.range' offset 6) := by
  rw [memcpyAddr, Reading.bind_apply, Reading.bytes_apply]
  rfl

theorem logPacket_fst (s : Vars) (pkt : PromiscuousPkt)
    (h1 : s.sendPkt.addr1 = readAddr pkt.payload addr1Offset)
    (h2 : s.sendPkt.addr2 = readAddr pkt.payload addr2Offset) :
    (logPacket s pkt log).1 = Sniffer.logPacket s pkt := by
  unfold logPacket Sniffer.logPacket
  by_cases hopen : sinceFirst s < 120 * 1000000
  · rw [if_pos hopen, if_pos hopen, h1, h2]
    simp only [Reading.bind_apply, Reading.bytes_apply]
    rfl
  · rw [if_neg hopen, if_neg hopen]
    by_cases hfirst : s.timeOut = 0 ∧ 120 * 1000000 ≤ sinceFirst s
    · rw [if_pos hfirst, if_pos hfirst]
      rfl
    · rw [if_neg hfirst, if_neg hfirst]
      rfl

theorem handler_fst (s : Vars) (isConnectAP : Bool) (pkt : PromiscuousPkt) (type : PktType)
    (sent : Bool) : (wifiSnifferPacketHandler s isConnectAP pkt type sent log).1 =
      Sniffer.wifiSnifferPacketHandler s isConnectAP pkt sent := by
  simp only [wifiSnifferPacketHandler, Sniffer.wifiSnifferPacketHandler, Reading.bind_apply,
    Reading.pure_apply, memcpyAddr_apply]
  rw [logPacket_fst]
  · rfl
  · split_ifs <;> rfl
  · split_ifs <;> rfl

end Refinement

/-- A frame of `sig_len` bytes at the start of `payload`. The first ones are its MAC header, how
many depends on its type and subtype, and the last four are the FCS. -/
structure Captured extends Arrival where
  type : PktType
  sigLen : ℕ
  header : ℕ
  header_le : header ≤ sigLen - 4

def Captured.reads (c : Captured) (s : Vars) : List ℕ :=
  (wifiSnifferPacketHandler s c.isConnectAP c.pkt c.type c.sent []).2

/-- The two addresses in the datagram, as its receiver reads them. -/
def Captured.reported (c : Captured) (s : Vars) : List UInt8 × List UInt8 :=
  let result := (wifiSnifferPacketHandler s c.isConnectAP c.pkt c.type c.sent []).1
  ((readReport result.2.2).addr1, (readReport result.2.2).addr2)

/-- The same capture with other bytes in memory. -/
def Captured.withPayload (c : Captured) (mem : ℕ → UInt8) : Captured :=
  { c with pkt := { c.pkt with payload := mem } }

/-- No byte behind the frame is read, and the addresses reported depend on the MAC header only. -/
structure ReadsOnlyCaptured (s : Vars) (c : Captured) : Prop where
  captured : ∀ i ∈ c.reads s, i < c.sigLen
  reported : ∀ mem, (∀ i < c.header, mem i = c.pkt.payload i) →
    (c.withPayload mem).reported s = c.reported s

section Reads

variable {mem : ℕ → UInt8}

def upToAddr2 : Set ℕ := {i | i < 16}

theorem within_bytes {offset n : ℕ} (h : offset + n ≤ 16) :
    (Reading.bytes mem offset n).Within upToAddr2 :=
  Reading.within_bytes (fun _ _ hlt => lt_of_lt_of_le hlt h)

theorem within_memcpyAddr {offset : ℕ} (h : offset + 6 ≤ 16) :
    (memcpyAddr mem offset).Within upToAddr2 :=
  (within_bytes h).bind (fun _ => Reading.within_pure _)

theorem within_memcmpIsZero {mac : List UInt8} {offset : ℕ} (h : offset + mac.length ≤ 16) :
    (Reading.memcmpIsZero mem mac offset).Within upToAddr2 :=
  Reading.within_memcmpIsZero (fun _ _ hlt => lt_of_lt_of_le hlt h)

theorem within_memcmpEither {mac : List UInt8} (h : mac.length = 6) :
    (memcmpEither mem mac).Within upToAddr2 := by
  have h1 : addr1Offset + mac.length ≤ 16 := by
    rw [h]
    decide
  have h2 : addr2Offset + mac.length ≤ 16 := by
    rw [h]
    decide
  apply (within_memcmpIsZero h1).bind
  intro log
  apply Reading.Within.ite
  · intro _
    exact Reading.within_pure true
  · intro _
    exact within_memcmpIsZero h2

theorem within_logPacket (s : Vars) (pkt : PromiscuousPkt) :
    (logPacket s pkt).Within upToAddr2 := by
  apply Reading.Within.ite
  · intro _
    apply (within_bytes (by decide)).bind
    intro _
    apply (within_bytes (by decide)).bind
    intro _
    exact Reading.within_pure _
  · intro _
    apply Reading.Within.ite
    · intro _
      exact Reading.within_pure _
    · intro _
      exact Reading.within_pure _

theorem within_handler (s : Vars) (isConnectAP : Bool) (pkt : PromiscuousPkt) (type : PktType)
    (sent : Bool) : (wifiSnifferPacketHandler s isConnectAP pkt type sent).Within upToAddr2 := by
  apply (within_memcpyAddr (by decide)).bind
  intro _
  apply (within_memcpyAddr (by decide)).bind
  intro _
  apply (within_memcmpIsZero (by decide)).bind
  intro _
  apply (within_memcmpIsZero (by decide)).bind
  intro _
  apply (within_memcmpEither rfl).bind
  intro _
  apply (within_memcmpEither rfl).bind
  intro _
  apply (within_memcmpIsZero (by decide)).bind
  intro _
  apply (within_logPacket _ _).bind
  intro _
  exact Reading.within_pure _

theorem Captured.lt_of_mem_reads {c : Captured} {s : Vars} {i : ℕ} (hi : i ∈ c.reads s) :
    i < 16 := by
  obtain ⟨reads, heq, hreads⟩ := within_handler s c.isConnectAP c.pkt c.type c.sent []
  rw [Captured.reads, heq, List.nil_append] at hi
  exact hreads i hi

end Reads

section Reported

variable {s : Vars} {c : Captured}

theorem Captured.reported_eq (c : Captured) (s : Vars) : c.reported s =
    ((readAddr c.pkt.payload addr1Offset).bytes, (readAddr c.pkt.payload addr2Offset).bytes) := by
  rw [Captured.reported, handler_fst, datagram_handler, readReport_bytes]
  rfl

theorem readAddr_congr {mem mem' : ℕ → UInt8} {offset : ℕ}
    (h : ∀ i < offset + 6, mem' i = mem i) : readAddr mem' offset = readAddr mem offset := by
  have hbytes (i : ℕ) (hi : i ∈ List.range 6) : mem' (offset + i) = mem (offset + i) :=
    h _ (Nat.add_lt_add_left (List.mem_range.mp hi) offset)
  exact Buf.ext (List.map_congr_left hbytes)

theorem reported_last (c : Captured) (s : Vars) :
    (c.reported s).2[5]? = some (c.pkt.payload 15) := by
  rw [c.reported_eq]
  rfl

/-- A header that ends before the second address does leaves that byte open. -/
theorem sixteen_le_of_reported (h : ∀ mem, (∀ i < c.header, mem i = c.pkt.payload i) →
    (c.withPayload mem).reported s = c.reported s) : 16 ≤ c.header := by
  by_contra! hshort
  let mem := Function.update c.pkt.payload 15 (c.pkt.payload 15 + 1)
  have hagree : ∀ i < c.header, mem i = c.pkt.payload i :=
    fun i hi => Function.update_of_ne (by omega) _ _
  have hlast : mem 15 = c.pkt.payload 15 := by
    apply Option.some.inj
    rw [← reported_last c s, ← h mem hagree]
    exact (reported_last (c.withPayload mem) s).symm
  have hchanged : mem 15 = c.pkt.payload 15 + 1 := Function.update_self _ _ _
  have hone : (1 : UInt8) = 0 := by simpa using hchanged.symm.trans hlast
  exact absurd hone (by decide)

end Reported

/-- The callback keeps to the frame, and to its MAC header for the addresses, exactly when the
header has both of them. -/
theorem readsOnlyCaptured_iff (s : Vars) (c : Captured) :
    ReadsOnlyCaptured s c ↔ 16 ≤ c.header := by
  constructor
  · intro h
    exact sixteen_le_of_reported h.reported
  · intro hlong
    have hle := c.header_le
    constructor
    · intro i hi
      have hlt := Captured.lt_of_mem_reads hi
      omega
    · intro mem hmem
      have hagree (offset : ℕ) (hoffset : offset + 6 ≤ 16) :
          readAddr mem offset = readAddr c.pkt.payload offset :=
        readAddr_congr (fun i hi => hmem i (by omega))
      rw [Captured.reported_eq, Captured.reported_eq, ← hagree addr1Offset (by decide),
        ← hagree addr2Offset (by decide)]
      rfl

/-- An acknowledgement: ten bytes with the receiver as the only address, and the FCS. -/
def acknowledgement : Captured where
  isConnectAP := true
  pkt := ⟨1, 1, -40, fun i => [0xd4, 0, 0, 0, 1, 2, 3, 4, 5, 6, 0xf1, 0xf2, 0xf3, 0xf4].getD i 0xee⟩
  sent := true
  type := .misc
  sigLen := 14
  header := 10
  header_le := by decide

/-- The FCS and two bytes behind the frame are reported as the sender. -/
theorem not_readsOnlyCaptured : ¬ ReadsOnlyCaptured (Vars.initial (Buf.fill 6 0)) acknowledgement ∧
    15 ∈ acknowledgement.reads (Vars.initial (Buf.fill 6 0)) ∧
    (acknowledgement.reported (Vars.initial (Buf.fill 6 0))).2 =
      [0xf1, 0xf2, 0xf3, 0xf4, 0xee, 0xee] := by
  have hread : 15 ∈ acknowledgement.reads (Vars.initial (Buf.fill 6 0)) := by decide +kernel
  refine ⟨?_, hread, ?_⟩
  · intro h
    have hlt : 15 < 14 := h.captured 15 hread
    omega
  · rw [Captured.reported_eq]
    decide

end SnifferStaSend.PacketReads
