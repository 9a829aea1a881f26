import Mathlib.Data.List.Forall2
import Mathlib.Data.Nat.Digits.Defs
import SnifferStaSend.Mealy
import SnifferStaSend.Sniffer

/-!
# The report of a packet

Every call of the promiscuous callback passes the 24 bytes of `send_pkt` to `sendto`. Read at
the packed little-endian layout they tell about this packet alone: all fields of the global are
assigned anew by each call.
-/

namespace SnifferStaSend.PacketReport
open CLib Sniffer

/-- One call of the callback, with the result of its `sendto`. -/
structure Arrival where
  isConnectAP : Bool
  pkt : PromiscuousPkt
  sent : Bool

def handle (s : Vars) (a : Arrival) : Vars × List Line × List UInt8 :=
  wifiSnifferPacketHandler s a.isConnectAP a.pkt a.sent

/-- The line about a packet, with the counters as they stand when it is printed. -/
def packetLine (successTimes failedTimes : Int32) (macDes : Buf 6) (a : Arrival) : Line :=
  .packet successTimes failedTimes a.pkt.timestamp a.pkt.channel a.pkt.rssi
    ((readAddr a.pkt.payload addr1Offset).bytes.drop 4)
    ((readAddr a.pkt.payload addr2Offset).bytes.drop 4) (macDes.bytes.drop 4)

/-- A frame that lies in the memory behind `payload`, with room for both addresses. -/
structure Capture extends Arrival where
  frame : List UInt8
  header : 16 ≤ frame.length
  holds : ∀ i (h : i < frame.length), pkt.payload i = frame[i]

def datagrams (s : Vars) (captures : List Capture) : List (List UInt8) :=
  (answers handle s (captures.map Capture.toArrival)).map Prod.snd

structure Report where
  timestamp : ℕ
  channel : ℕ
  rssi : ℤ
  addr1 : List UInt8
  addr2 : List UInt8
  macDes : List UInt8

def readReport (d : List UInt8) : Report where
  timestamp := Nat.ofDigits 256 ((d.take 4).map UInt8.toNat)
  channel := (d.getD 4 0).toNat
  rssi := (d.getD 5 0).toInt8.toInt
  addr1 := (d.drop 6).take 6
  addr2 := (d.drop 12).take 6
  macDes := (d.drop 18).take 6

def Capture.report (c : Capture) (macDes : Buf 6) : Report where
  timestamp := c.pkt.timestamp.toNat
  channel := c.pkt.channel.toNat
  rssi := c.pkt.rssi.toInt
  addr1 := (c.frame.drop 4).take 6
  addr2 := (c.frame.drop 10).take 6
  macDes := macDes.bytes

section Layout

variable {p : EspSnifPacket}

theorem ofDigits_word (t : UInt32) : Nat.ofDigits 256 ([t.toUInt8, (t >>> 8).toUInt8,
    (t >>> 16).toUInt8, (t >>> 24).toUInt8].map UInt8.toNat) = t.toNat := by
  have hlt := t.toNat_lt
  simp only [List.map_cons, List.map_nil, Nat.ofDigits_cons, Nat.ofDigits_nil,
    UInt32.toNat_toUInt8, UInt32.toNat_shiftRight, UInt32.reduceToNat, Nat.shiftRight_eq_div_pow,
    Nat.reduceMod, Nat.reducePow]
  omega

theorem readReport_bytes (p : EspSnifPacket) : readReport p.bytes =
    ⟨p.timestamp.toNat, p.channel.toNat, p.rssi.toInt, p.addr1.bytes, p.addr2.bytes,
      p.macDes.bytes⟩ := by
  have h1 := p.addr1.size_eq
  have h2 := p.addr2.size_eq
  have haddr1 : (p.bytes.drop 6).take 6 = p.addr1.bytes := by
    rw [EspSnifPacket.bytes, List.append_assoc, List.append_assoc,
      List.drop_left' (by simp), List.take_left' h1]
  have haddr2 : (p.bytes.drop 12).take 6 = p.addr2.bytes := by
    rw [EspSnifPacket.bytes, List.append_assoc, List.drop_left' (by simp [h1]),
      List.take_left' h2]
  have hmacDes : (p.bytes.drop 18).take 6 = p.macDes.bytes := by
    rw [EspSnifPacket.bytes, List.drop_left' (by simp [h1, h2]),
      List.take_of_length_le p.macDes.size_eq.le]
  rw [readReport, haddr1, haddr2, hmacDes]
  exact congrArg (Report.mk · p.channel.toNat p.rssi.toInt _ _ _) (ofDigits_word p.timestamp)

theorem readAddr_eq {mem : ℕ → UInt8} {frame : List UInt8} {offset : ℕ}
    (hlen : offset + 6 ≤ frame.length) (h : ∀ i (hi : i < frame.length), mem i = frame[i]) :
    (readAddr mem offset).bytes = (frame.drop offset).take 6 := by
  apply List.ext_getElem
  · simp [readAddr]
    omega
  · intro i hi hi'
    simp only [readAddr, List.getElem_map, List.getElem_range, List.getElem_take,
      List.getElem_drop]
    exact h _ _

end Layout

def Capture.record (c : Capture) (macDes : Buf 6) : EspSnifPacket :=
  ⟨c.pkt.timestamp, c.pkt.channel, c.pkt.rssi, readAddr c.pkt.payload addr1Offset,
    readAddr c.pkt.payload addr2Offset, macDes⟩

theorem readReport_record (c : Capture) (macDes : Buf 6) :
    readReport (c.record macDes).bytes = c.report macDes := by
  have hlen := c.header
  rw [readReport_bytes]
  simp only [Capture.record, Capture.report]
  rw [readAddr_eq (by rw [addr1Offset]; omega) c.holds,
    readAddr_eq (by rw [addr2Offset]; omega) c.holds]
  rfl

theorem logPacket_keeps (s : Vars) (pkt : PromiscuousPkt) :
    (logPacket s pkt).1.sendPkt = s.sendPkt ∧ (logPacket s pkt).1.macDes = s.macDes := by
  unfold logPacket
  split_ifs <;> exact ⟨rfl, rfl⟩

theorem macDes_handle (s : Vars) (a : Arrival) : (handle s a).1.macDes = s.macDes := by
  have hlog (t : Vars) := (logPacket_keeps t a.pkt).2
  simp only [handle, wifiSnifferPacketHandler]
  rw [(socketDataSend_keeps _ _ _ _).2.2]
  split_ifs <;> exact hlog _

theorem lines_handle (s : Vars) (a : Arrival) : ∀ l ∈ (handle s a).2.1,
    l = packetLine s.successTimes s.failedTimes s.macDes a ∨ l = .timesUp := by
  have hlog (t : Vars) (hsend : t.sendPkt = fillSendPkt s a.pkt) (hmac : t.macDes = s.macDes)
      (hsuccess : t.successTimes = s.successTimes) (hfailed : t.failedTimes = s.failedTimes) :
      ∀ l ∈ (logPacket t a.pkt).2,
        l = packetLine s.successTimes s.failedTimes s.macDes a ∨ l = .timesUp := by
    intro l hl
    unfold logPacket at hl
    split_ifs at hl
    · rw [hsuccess, hfailed, hsend, hmac] at hl
      exact Or.inl (List.mem_singleton.mp hl)
    · exact Or.inr (List.mem_singleton.mp hl)
    · cases hl
  by_cases hfirst : s.fstPktTime = 0
  · simp only [handle, wifiSnifferPacketHandler, if_pos hfirst]
    exact hlog _ rfl rfl rfl rfl
  · simp only [handle, wifiSnifferPacketHandler, if_neg hfirst]
    exact hlog _ rfl rfl rfl rfl

/-- The record is complete whatever `send_pkt` held before. -/
theorem datagram_handler (s : Vars) (isConnectAP : Bool) (pkt : PromiscuousPkt) (sent : Bool) :
    (wifiSnifferPacketHandler s isConnectAP pkt sent).2.2 = (fillSendPkt s pkt).bytes := by
  have hlog (t : Vars) := (logPacket_keeps t pkt).1
  simp only [wifiSnifferPacketHandler, socketDataSend_datagram]
  split_ifs <;> rw [hlog, List.take_of_length_le (EspSnifPacket.length_bytes _).le]

theorem datagram_handle (s : Vars) (c : Capture) :
    (handle s c.toArrival).2.2 = (c.record s.macDes).bytes :=
  datagram_handler s c.isConnectAP c.pkt c.sent

theorem datagrams_eq (s : Vars) (captures : List Capture) :
    datagrams s captures = captures.map (fun c => (c.record s.macDes).bytes) := by
  induction captures generalizing s with
  | nil => rfl
  | cons c rest ih =>
      have hrest := ih (handle s c.toArrival).1
      rw [macDes_handle] at hrest
      rw [datagrams, List.map_cons, answers, List.map_cons, datagram_handle, List.map_cons, ← hrest]
      rfl

theorem forall₂_datagrams (s : Vars) (captures earlier : List Capture) :
    List.Forall₂ (fun c d => d.length = 24 ∧ readReport d = c.report s.macDes) captures
        (datagrams s captures) ∧
      datagrams s (earlier ++ captures) = datagrams s earlier ++ datagrams s captures := by
  constructor
  · rw [datagrams_eq, List.forall₂_map_right_iff, List.forall₂_same]
    intro c _
    exact ⟨EspSnifPacket.length_bytes _, readReport_record c s.macDes⟩
  · simp only [datagrams_eq, List.map_append]

/-- A frame that fills the memory behind `payload`. -/
def capture (timestamp : UInt32) (sent : Bool) (frame : List UInt8) (header : 16 ≤ frame.length) :
    Capture where
  isConnectAP := true
  pkt := ⟨timestamp, 6, -40, fun i => frame.getD i 0⟩
  sent := sent
  frame := frame
  header := header
  holds i h := by simp [List.getD_eq_getElem?_getD, h]

/-- The start of a request to send, and of the data frame behind it. -/
def twoCaptures : List Capture :=
  [capture 4294967295 true [180, 0, 58, 1, 188, 221, 194, 207, 72, 177, 152, 205, 172, 133, 20, 148]
      (by decide),
    capture 7 false ([8, 1, 44, 0, 188, 221, 194, 207, 72, 177, 228, 51, 174, 12, 13, 57] ++
      List.replicate 20 255) (by decide)]

theorem forall₂_datagrams_two : List.Forall₂
      (fun c d => d.length = 24 ∧ readReport d = c.report (Buf.fill 6 0)) twoCaptures
      (datagrams (Vars.initial (Buf.fill 6 0)) twoCaptures) ∧
    twoCaptures.map (fun c => (c.report (Buf.fill 6 0)).addr2) =
      [[152, 205, 172, 133, 20, 148], [228, 51, 174, 12, 13, 57]] :=
  ⟨(forall₂_datagrams (Vars.initial (Buf.fill 6 0)) twoCaptures []).1, by decide⟩

end SnifferStaSend.PacketReport
