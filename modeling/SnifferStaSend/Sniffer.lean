import SnifferStaSend.CString
import SnifferStaSend.IntArith

/-!
# The promiscuous callback

`wifi_sniffer_packet_handler` and `socket_data_send` of `sniffer.c`. The frame is read at the
fixed offsets of `wifi_ieee80211_mac_hdr_t`; the buffer sent from is `send_pkt`, all 24 bytes.
The five `memcmp` flags of the handler are never used and are left out. `ckSniffAlive` is the
other user of the settings in this file.
-/

namespace SnifferStaSend.Sniffer
open CLib

structure EspSnifPacket where
  timestamp : UInt32
  channel : UInt8
  rssi : Int8
  addr1 : Buf 6
  addr2 : Buf 6
  macDes : Buf 6
  deriving DecidableEq

/-- The layout in memory: a little-endian word, two single bytes, three addresses. -/
def EspSnifPacket.bytes (p : EspSnifPacket) : List UInt8 :=
  [p.timestamp.toUInt8, (p.timestamp >>> 8).toUInt8, (p.timestamp >>> 16).toUInt8,
    (p.timestamp >>> 24).toUInt8, p.channel, p.rssi.toUInt8] ++
    p.addr1.bytes ++ p.addr2.bytes ++ p.macDes.bytes

/-- The `rx_ctrl` fields that are read, and the memory from `payload[0]` on. -/
structure PromiscuousPkt where
  timestamp : UInt32
  channel : UInt8
  rssi : Int8
  payload : ℕ → UInt8

/-- Offsets of the addresses behind the 16-bit fields `frame_ctrl` and `duration_id`. -/
def addr1Offset : ℕ := 4

def addr2Offset : ℕ := 10

def readAddr (mem : ℕ → UInt8) (offset : ℕ) : Buf 6 :=
  ⟨(List.range 6).map (fun i => mem (offset + i)), by simp⟩

/-- What the handler prints; of each address the last two bytes. -/
inductive Line
  | packet (successTimes failedTimes : Int32) (timestamp : UInt32) (channel : UInt8) (rssi : Int8)
      (addr1 addr2 macDes : List UInt8)
  | timesUp
  deriving DecidableEq

/-- The globals of `sniffer.c` that the callback uses. -/
structure Vars where
  timeOut : Int32
  fstPktTime : Int32
  successTimes : Int32
  failedTimes : Int32
  sendPkt : EspSnifPacket
  macDes : Buf 6
  deriving DecidableEq

def Vars.initial (macDes : Buf 6) : Vars :=
  ⟨0, 0, 0, 0, ⟨0, 0, 0, Buf.fill 6 0, Buf.fill 6 0, Buf.fill 6 0⟩, macDes⟩

/-- `sizeof(esp_snif_packet_t)`. -/
def sizeofEspSnifPacket : ℕ := 24

/-- The datagram that `sendto` takes from `buf`, and the accounting behind the call; `sent` tells
that it returned no error. The two counters are only printed, so they wrap. -/
def socketDataSend (s : Vars) (buf : List UInt8) (isConnectAP sent : Bool) :
    Vars × List UInt8 :=
  let datagram := buf.take sizeofEspSnifPacket
  if sent then
    if isConnectAP then ({ s with successTimes := s.successTimes + 1 }, datagram)
    else (s, datagram)
  else
    if isConnectAP then ({ s with failedTimes := s.failedTimes + 1 }, datagram)
    else (s, datagram)

def fillSendPkt (s : Vars) (pkt : PromiscuousPkt) : EspSnifPacket where
  timestamp := pkt.timestamp
  channel := pkt.channel
  rssi := pkt.rssi
  addr1 := readAddr pkt.payload addr1Offset
  addr2 := readAddr pkt.payload addr2Offset
  macDes := s.macDes

def sinceFirst (s : Vars) : UInt32 := s.sendPkt.timestamp - s.fstPktTime.toUInt32

def logPacket (s : Vars) (pkt : PromiscuousPkt) : Vars × List Line :=
  if sinceFirst s < 120 * 1000000 then
    (s, [.packet s.successTimes s.failedTimes pkt.timestamp pkt.channel pkt.rssi
      (s.sendPkt.addr1.bytes.drop 4) (s.sendPkt.addr2.bytes.drop 4) (s.macDes.bytes.drop 4)])
  else if s.timeOut = 0 ∧ 120 * 1000000 ≤ sinceFirst s then
    ({ s with timeOut := s.timeOut + 1 }, [.timesUp])
  else (s, [])

/-- The state after the call, the lines printed and the datagram passed to `sendto`. -/
def wifiSnifferPacketHandler (s : Vars) (isConnectAP : Bool) (pkt : PromiscuousPkt)
    (sent : Bool) : Vars × List Line × List UInt8 :=
  let s := { s with sendPkt := fillSendPkt s pkt }
  let s := if s.fstPktTime = 0 then { s with fstPktTime := s.sendPkt.timestamp.toInt32 } else s
  let (s, lines) := logPacket s pkt
  let (s, datagram) := socketDataSend s s.sendPkt.bytes isConnectAP sent
  (s, lines, datagram)

/-- The period that `ckSniffAlive` passes to `esp_timer_start_periodic`, in microseconds; `none`
when the product is no `int`. -/
def ckSniffAlive (gReportFrequency : Int32) : Option UInt64 :=
  (mulInt gReportFrequency 1000).map toUint64

/-- The counter for the sends with the given outcome. -/
def Vars.tally (s : Vars) (sent : Bool) : Int32 := if sent then s.successTimes else s.failedTimes

theorem EspSnifPacket.length_bytes (p : EspSnifPacket) :
    p.bytes.length = sizeofEspSnifPacket := by
  simp [EspSnifPacket.bytes, p.addr1.size_eq, p.addr2.size_eq, p.macDes.size_eq,
    sizeofEspSnifPacket]

section Send

variable (s : Vars) (buf : List UInt8) (isConnectAP sent : Bool)

theorem socketDataSend_datagram :
    (socketDataSend s buf isConnectAP sent).2 = buf.take sizeofEspSnifPacket := by
  unfold socketDataSend
  split_ifs <;> rfl

theorem socketDataSend_keeps : (socketDataSend s buf isConnectAP sent).1.timeOut = s.timeOut ∧
    (socketDataSend s buf isConnectAP sent).1.fstPktTime = s.fstPktTime ∧
    (socketDataSend s buf isConnectAP sent).1.macDes = s.macDes := by
  unfold socketDataSend
  split_ifs <;> exact ⟨rfl, rfl, rfl⟩

end Send

theorem tally_socketDataSend (s : Vars) (buf : List UInt8) (isConnectAP sent b : Bool) :
    (socketDataSend s buf isConnectAP sent).1.tally b =
      if isConnectAP = true ∧ sent = b then s.tally b + 1 else s.tally b := by
  cases isConnectAP with
  | false => cases sent <;> rfl
  | true => cases sent <;> cases b <;> rfl

theorem tally_logPacket (s : Vars) (pkt : PromiscuousPkt) (b : Bool) :
    (logPacket s pkt).1.tally b = s.tally b := by
  unfold logPacket
  split_ifs <;> rfl

/-- A callback counts its own send, and only under the flag. -/
theorem tally_handler (s : Vars) (isConnectAP : Bool) (pkt : PromiscuousPkt) (sent b : Bool) :
    (wifiSnifferPacketHandler s isConnectAP pkt sent).1.tally b =
      if isConnectAP = true ∧ sent = b then s.tally b + 1 else s.tally b := by
  have hcount (s' : Vars) (h : s'.tally b = s.tally b) :
      (socketDataSend (logPacket s' pkt).1 (logPacket s' pkt).1.sendPkt.bytes isConnectAP
        sent).1.tally b =
        if isConnectAP = true ∧ sent = b then s.tally b + 1 else s.tally b := by
    rw [tally_socketDataSend, tally_logPacket, h]
  apply hcount
  by_cases hfirst : s.fstPktTime = 0
  · rw [if_pos hfirst]
    rfl
  · rw [if_neg hfirst]
    rfl

end SnifferStaSend.Sniffer
