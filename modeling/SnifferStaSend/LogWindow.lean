import SnifferStaSend.PacketReport

/-!
# The log window of the callback

Runs of the callback over packets whose 32-bit timestamps come from a true time that never goes
back. The window starts with the first timestamp that is not 0 and is 120 seconds long by the
counter, so it comes back with every period of the counter.
-/

namespace SnifferStaSend.LogWindow
open CLib Sniffer PacketReport

/-- Microseconds. -/
def window : ℕ := 120 * 1000000

/-- Of the counter in `rx_ctrl.timestamp`. -/
def period : ℕ := 2 ^ 32

/-- A packet with the time at which it has been captured. -/
structure Timed extends Arrival where
  time : ℕ
  stamped : pkt.timestamp = UInt32.ofNat time

def times (packets : List Timed) : List ℕ := packets.map Timed.time

/-- A call of the callback, for the lines it prints. -/
def logged (s : Vars) (p : Timed) : Vars × List Line :=
  ((handle s p.toArrival).1, (handle s p.toArrival).2.1)

def printed (macDes : Buf 6) (packets : List Timed) : List (List Line) :=
  answers logged (Vars.initial macDes) packets

def Line.isPacket : Line → Bool
  | .packet .. => true
  | .timesUp => false

/-- The time of the packet that `fstPktTime` is set by, 0 when there is none. -/
def origin (ts : List ℕ) : ℕ := (ts.find? (fun t => t % period ≠ 0)).getD 0

/-- By the counter, `t` lies outside the window of the run. -/
def Beyond (ts : List ℕ) (t : ℕ) : Prop := window ≤ (t - origin ts) % period

instance (ts : List ℕ) (t : ℕ) : Decidable (Beyond ts t) := inferInstanceAs (Decidable (_ ≤ _))

/-- After "Times up" no packet is logged any more, and it is printed only once. -/
structure StaysClosed (lines : List (List Line)) : Prop where
  quiet : ∀ i j (hi : i < lines.length) (hj : j < lines.length), i < j → .timesUp ∈ lines[i] →
    ∀ l ∈ lines[j], Line.isPacket l = false
  once : lines.flatten.count .timesUp ≤ 1

section Origin

variable {ts rest : List ℕ} {t : ℕ}

theorem ne_zero_of_mod (h : t % period ≠ 0) : t ≠ 0 := by
  rintro rfl
  exact h rfl

theorem origin_append (ts rest : List ℕ) :
    origin (ts ++ rest) = if origin ts = 0 then origin rest else origin ts := by
  cases hfind : ts.find? (fun t => t % period ≠ 0) with
  | none =>
      have horigin : origin ts = 0 := by rw [origin, hfind, Option.getD_none]
      rw [if_pos horigin, origin, List.find?_append, hfind, Option.none_or]
      rfl
  | some o =>
      have horigin : origin ts = o := by rw [origin, hfind, Option.getD_some]
      have hne : o ≠ 0 := ne_zero_of_mod (by simpa using List.find?_some hfind)
      rw [horigin, if_neg hne, origin, List.find?_append, hfind, Option.some_or, Option.getD_some]

theorem origin_cases (ts : List ℕ) :
    (origin ts = 0 ∧ ∀ u ∈ ts, u % period = 0) ∨ (origin ts ∈ ts ∧ origin ts % period ≠ 0) := by
  cases hfind : ts.find? (fun t => t % period ≠ 0) with
  | none => exact Or.inl ⟨by rw [origin, hfind]; rfl, by simpa using hfind⟩
  | some o =>
      have horigin : origin ts = o := by rw [origin, hfind, Option.getD_some]
      rw [horigin]
      exact Or.inr ⟨List.mem_of_find?_eq_some hfind, by simpa using List.find?_some hfind⟩

theorem origin_le (hlast : ∀ u ∈ ts, u ≤ t) : origin ts ≤ t := by
  rcases origin_cases ts with ⟨hzero, -⟩ | ⟨hmem, -⟩
  · rw [hzero]
    exact Nat.zero_le t
  · exact hlast _ hmem

theorem beyond_append (hsorted : (ts ++ rest).Pairwise (· ≤ ·)) (ht : t ∈ ts) :
    Beyond (ts ++ rest) t ↔ Beyond ts t := by
  rcases origin_cases ts with ⟨hzero, hall⟩ | ⟨-, hne⟩
  · -- the origin is still to come: no distance so far
    have hlater : (t - origin rest) % period = 0 := by
      rcases origin_cases rest with ⟨hzero', -⟩ | ⟨hmem, -⟩
      · rw [hzero']
        exact hall t ht
      · have hle := (List.pairwise_append.mp hsorted).2.2 t ht _ hmem
        rw [Nat.sub_eq_zero_of_le hle]
        rfl
    rw [Beyond, Beyond, origin_append, if_pos hzero, hlater, hzero, Nat.sub_zero, hall t ht]
  · have hpos : origin ts ≠ 0 := ne_zero_of_mod hne
    rw [Beyond, Beyond, origin_append, if_neg hpos]

end Origin

section Step

variable {s : Vars} {p : Timed}

theorem logged_eq (s : Vars) (p : Timed) : ∃ t : Vars,
    t.sendPkt.timestamp = p.pkt.timestamp ∧ t.timeOut = s.timeOut ∧
      t.fstPktTime = (if s.fstPktTime = 0 then p.pkt.timestamp.toInt32 else s.fstPktTime) ∧
      (logged s p).2 = (logPacket t p.pkt).2 ∧
      (logged s p).1.timeOut = (logPacket t p.pkt).1.timeOut ∧
      (logged s p).1.fstPktTime = t.fstPktTime := by
  have hlog (t : Vars) : (logPacket t p.pkt).1.fstPktTime = t.fstPktTime := by
    unfold logPacket
    split_ifs <;> rfl
  have hsend (t : Vars) (buf : List UInt8) (b c : Bool) :
      (socketDataSend t buf b c).1.timeOut = t.timeOut ∧
        (socketDataSend t buf b c).1.fstPktTime = t.fstPktTime :=
    ⟨(socketDataSend_keeps t buf b c).1, (socketDataSend_keeps t buf b c).2.1⟩
  have hstamp : (fillSendPkt s p.pkt).timestamp = p.pkt.timestamp := rfl
  by_cases hfirst : s.fstPktTime = 0
  · refine ⟨{ s with sendPkt := fillSendPkt s p.pkt, fstPktTime := p.pkt.timestamp.toInt32 },
      rfl, rfl, (if_pos hfirst).symm, ?_⟩
    simp only [logged, handle, wifiSnifferPacketHandler, if_pos hfirst, hsend, hlog, hstamp,
      and_self]
  · refine ⟨{ s with sendPkt := fillSendPkt s p.pkt }, rfl, rfl, (if_neg hfirst).symm, ?_⟩
    simp only [logged, handle, wifiSnifferPacketHandler, if_neg hfirst, hsend, hlog, and_self]

theorem fstPktTime_logged (s : Vars) (p : Timed) : (logged s p).1.fstPktTime =
    if s.fstPktTime = 0 then p.pkt.timestamp.toInt32 else s.fstPktTime := by
  obtain ⟨t, -, -, hfirst, -, -, heq⟩ := logged_eq s p
  rw [heq, hfirst]

theorem logged_of_lt
    (h : p.pkt.timestamp - (logged s p).1.fstPktTime.toUInt32 < 120 * 1000000) :
    (logged s p).1.timeOut = s.timeOut ∧ ∃ l, (logged s p).2 = [l] ∧ Line.isPacket l = true := by
  obtain ⟨t, hstamp, hflag, -, hlines, htimeOut, heq⟩ := logged_eq s p
  rw [heq, ← hstamp] at h
  have hlt : sinceFirst t < 120 * 1000000 := h
  rw [hlines, htimeOut, logPacket, if_pos hlt, ← hflag]
  exact ⟨rfl, _, rfl, rfl⟩

theorem logged_of_ge
    (h : ¬ p.pkt.timestamp - (logged s p).1.fstPktTime.toUInt32 < 120 * 1000000) :
    (s.timeOut = 0 ∧ (logged s p).1.timeOut = 1 ∧ (logged s p).2 = [.timesUp]) ∨
      (s.timeOut ≠ 0 ∧ (logged s p).1.timeOut = s.timeOut ∧ (logged s p).2 = []) := by
  obtain ⟨t, hstamp, hflag, -, hlines, htimeOut, heq⟩ := logged_eq s p
  rw [heq, ← hstamp] at h
  have hge : 120 * 1000000 ≤ sinceFirst t := UInt32.not_lt.mp h
  rw [hlines, htimeOut, logPacket, if_neg (UInt32.not_lt.mpr hge), ← hflag]
  by_cases hopen : t.timeOut = 0
  · rw [if_pos ⟨hopen, hge⟩]
    exact Or.inl ⟨hopen, by rw [hopen]; rfl, rfl⟩
  · rw [if_neg (fun hboth => hopen hboth.1)]
    exact Or.inr ⟨hopen, rfl, rfl⟩

end Step
section Run

/-- What a run over packets of the times `ts` has led to. -/
structure Tracked (ts : List ℕ) (out : List (List Line)) (s : Vars) : Prop where
  first : s.fstPktTime.toUInt32 = UInt32.ofNat (origin ts)
  flag : (s.timeOut = 0 ∧ out.flatten.count .timesUp = 0 ∧ ¬ ∃ t ∈ ts, Beyond ts t) ∨
    (s.timeOut = 1 ∧ out.flatten.count .timesUp = 1 ∧ ∃ t ∈ ts, Beyond ts t)

variable {ts : List ℕ} {out : List (List Line)} {s : Vars} {p : Timed}

theorem tracked_initial (macDes : Buf 6) : Tracked [] [] (Vars.initial macDes) where
  first := rfl
  flag := Or.inl ⟨rfl, rfl, by simp⟩

theorem ofNat_eq_zero {t : ℕ} : UInt32.ofNat t = 0 ↔ t % period = 0 := by
  rw [← UInt32.toNat_inj, UInt32.toNat_ofNat']
  rfl

theorem Tracked.first_logged (h : Tracked ts out s) (p : Timed) :
    (logged s p).1.fstPktTime.toUInt32 = UInt32.ofNat (origin (ts ++ [p.time])) := by
  have hzero : s.fstPktTime = 0 ↔ origin ts % period = 0 := by
    rw [← ofNat_eq_zero, ← h.first]
    constructor
    · intro hfirst
      rw [hfirst]
      rfl
    · intro hfirst
      rw [← Int32.toInt32_toUInt32 s.fstPktTime, hfirst]
      rfl
  rw [fstPktTime_logged, origin_append]
  rcases origin_cases ts with ⟨horigin, -⟩ | ⟨-, hne⟩
  · rw [if_pos (hzero.mpr (by rw [horigin]; rfl)), if_pos horigin, UInt32.toUInt32_toInt32,
      p.stamped]
    rcases origin_cases [p.time] with ⟨hnone, hall⟩ | ⟨hmem, -⟩
    · rw [hnone]
      exact ofNat_eq_zero.mpr (hall _ (List.mem_singleton_self _))
    · rw [List.mem_singleton.mp hmem]
  · have hpos : origin ts ≠ 0 := ne_zero_of_mod hne
    rw [if_neg (fun hfirst => hne (hzero.mp hfirst)), if_neg hpos]
    exact h.first

/-- The unsigned distance is that of the true times, up to whole periods. -/
theorem Tracked.beyond_iff (h : Tracked ts out s) (hlast : ∀ t ∈ ts, t ≤ p.time) :
    ¬ p.pkt.timestamp - (logged s p).1.fstPktTime.toUInt32 < 120 * 1000000 ↔
      Beyond (ts ++ [p.time]) p.time := by
  have hle : origin (ts ++ [p.time]) ≤ p.time := by
    apply origin_le
    intro u hu
    rcases List.mem_append.mp hu with hold | hnew
    · exact hlast u hold
    · exact (List.mem_singleton.mp hnew).le
  have hwindow : (120 * 1000000 : UInt32).toNat = 120 * 1000000 := rfl
  rw [h.first_logged p, p.stamped, UInt32.not_lt, UInt32.le_iff_toNat_le, UInt32.toNat_sub,
    UInt32.toNat_ofNat', UInt32.toNat_ofNat', hwindow, Beyond, window, period]
  omega

theorem Tracked.lines (h : Tracked ts out s) (hsorted : (ts ++ [p.time]).Pairwise (· ≤ ·)) :
    (¬ Beyond (ts ++ [p.time]) p.time ∧ ∃ l, (logged s p).2 = [l] ∧ Line.isPacket l = true) ∨
      (Beyond (ts ++ [p.time]) p.time ∧ (∀ t ∈ ts, ¬ Beyond (ts ++ [p.time]) t) ∧
        (logged s p).2 = [.timesUp]) ∨
      (Beyond (ts ++ [p.time]) p.time ∧ (∃ t ∈ ts, Beyond (ts ++ [p.time]) t) ∧
        (logged s p).2 = []) := by
  have hlast : ∀ t ∈ ts, t ≤ p.time := fun t ht =>
    (List.pairwise_append.mp hsorted).2.2 t ht _ (List.mem_singleton_self _)
  have hbeyond := h.beyond_iff hlast
  by_cases hout : Beyond (ts ++ [p.time]) p.time
  · right
    rcases h.flag with ⟨hopen, -, hnone⟩ | ⟨hclosed, -, t, ht, hold⟩
    · left
      refine ⟨hout, fun t ht hold => ?_, ?_⟩
      · exact hnone ⟨t, ht, (beyond_append hsorted ht).mp hold⟩
      · rcases logged_of_ge (hbeyond.mpr hout) with ⟨-, -, hlines⟩ | ⟨hclosed, -⟩
        · exact hlines
        · exact absurd hopen hclosed
    · right
      refine ⟨hout, ⟨t, ht, (beyond_append hsorted ht).mpr hold⟩, ?_⟩
      rcases logged_of_ge (hbeyond.mpr hout) with ⟨hopen, -⟩ | ⟨-, -, hlines⟩
      · rw [hclosed] at hopen
        exact absurd hopen (by decide)
      · exact hlines
  · exact Or.inl ⟨hout, (logged_of_lt (not_not.mp (mt hbeyond.mp hout))).2⟩

theorem Tracked.timeOut (h : Tracked ts out s) (hsorted : (ts ++ [p.time]).Pairwise (· ≤ ·)) :
    (logged s p).1.timeOut = if Beyond (ts ++ [p.time]) p.time then 1 else s.timeOut := by
  have hlast : ∀ t ∈ ts, t ≤ p.time := fun t ht =>
    (List.pairwise_append.mp hsorted).2.2 t ht _ (List.mem_singleton_self _)
  have hbeyond := h.beyond_iff hlast
  split_ifs with hout
  · rcases logged_of_ge (hbeyond.mpr hout) with ⟨-, hflag, -⟩ | ⟨hclosed, hflag, -⟩
    · exact hflag
    · rcases h.flag with ⟨hopen, -⟩ | ⟨hone, -⟩
      · exact absurd hopen hclosed
      · rw [hflag, hone]
  · exact (logged_of_lt (not_not.mp (mt hbeyond.mp hout))).1

theorem count_packet {l : Line} (h : Line.isPacket l = true) : [l].count .timesUp = 0 := by
  cases l with
  | packet => rfl
  | timesUp => cases h

theorem Tracked.logged (h : Tracked ts out s) (hsorted : (ts ++ [p.time]).Pairwise (· ≤ ·)) :
    Tracked (ts ++ [p.time]) (out ++ [(LogWindow.logged s p).2]) (LogWindow.logged s p).1 where
  first := h.first_logged p
  flag := by
    have htimeOut := h.timeOut hsorted
    have hstay : (∃ t ∈ ts ++ [p.time], Beyond (ts ++ [p.time]) t) ↔
        (∃ t ∈ ts, Beyond ts t) ∨ Beyond (ts ++ [p.time]) p.time := by
      constructor
      · rintro ⟨t, ht, hout⟩
        rcases List.mem_append.mp ht with hold | hnew
        · exact Or.inl ⟨t, hold, (beyond_append hsorted hold).mp hout⟩
        · obtain rfl := List.mem_singleton.mp hnew
          exact Or.inr hout
      · rintro (⟨t, ht, hout⟩ | hout)
        · exact ⟨t, List.mem_append_left _ ht, (beyond_append hsorted ht).mpr hout⟩
        · exact ⟨p.time, List.mem_append_right _ (List.mem_singleton_self _), hout⟩
    rw [List.flatten_append, List.count_append, List.flatten_singleton, hstay, htimeOut]
    rcases h.lines hsorted with
      ⟨hin, l, hl, hpacket⟩ | ⟨hout, hnone, hl⟩ | ⟨hout, ⟨t, ht, hold⟩, hl⟩
    · rw [hl, count_packet hpacket, Nat.add_zero, if_neg hin, or_iff_left hin]
      exact h.flag
    · rcases h.flag with ⟨-, hcount, -⟩ | ⟨-, -, t, ht, hold⟩
      · rw [hl, hcount, if_pos hout]
        exact Or.inr ⟨rfl, rfl, Or.inr hout⟩
      · exact absurd ((beyond_append hsorted ht).mpr hold) (hnone t ht)
    · rcases h.flag with ⟨-, -, hnone⟩ | ⟨-, hcount, hsome⟩
      · exact absurd ⟨t, ht, (beyond_append hsorted ht).mp hold⟩ hnone
      · rw [hl, hcount, if_pos hout]
        exact Or.inr ⟨rfl, rfl, Or.inl hsome⟩

theorem tracked_run (macDes : Buf 6) (packets : List Timed)
    (hsorted : (times packets).Pairwise (· ≤ ·)) : Tracked (times packets)
      (printed macDes packets) (final LogWindow.logged (Vars.initial macDes) packets) := by
  have hrun : (times packets).Pairwise (· ≤ ·) → Tracked (times packets)
      (printed macDes packets) (final LogWindow.logged (Vars.initial macDes) packets) := by
    refine final_invariant LogWindow.logged
      (P := fun ps out s => (times ps).Pairwise (· ≤ ·) → Tracked (times ps) out s) ?_ ?_ packets
    · intro ps out s p ih hsorted
      have htimes : times (ps ++ [p]) = times ps ++ [p.time] := List.map_append
      rw [htimes] at hsorted ⊢
      exact (ih (List.pairwise_append.mp hsorted).1).logged hsorted
    · intro _
      exact tracked_initial macDes
  exact hrun hsorted

/-- What the packet with the number `i` prints, in a run from the start. -/
theorem printed_getElem (macDes : Buf 6) (packets : List Timed)
    (hsorted : (times packets).Pairwise (· ≤ ·)) (i : ℕ) (hi : i < packets.length)
    (hi' : i < (printed macDes packets).length) :
    (¬ Beyond (times packets) packets[i].time ∧
        ∃ l, (printed macDes packets)[i] = [l] ∧ Line.isPacket l = true) ∨
      (Beyond (times packets) packets[i].time ∧
        (∀ j (hj : j < i), ¬ Beyond (times packets) packets[j].time) ∧
        (printed macDes packets)[i] = [.timesUp]) ∨
      (Beyond (times packets) packets[i].time ∧
        (∃ j, ∃ _ : j < i, Beyond (times packets) packets[j].time) ∧
        (printed macDes packets)[i] = []) := by
  have hpackets : packets = packets.take i ++ packets[i] :: packets.drop (i + 1) := by
    rw [List.getElem_cons_drop, List.take_append_drop]
  have hsplit : times packets =
      (times (packets.take i) ++ [packets[i].time]) ++ times (packets.drop (i + 1)) := by
    apply (congrArg times hpackets).trans
    rw [times, List.map_append, List.map_cons, List.append_assoc]
    rfl
  have hmem {t : ℕ} : t ∈ times (packets.take i) ↔ ∃ j, ∃ _ : j < i, packets[j].time = t := by
    constructor
    · intro ht
      obtain ⟨p, hp, rfl⟩ := List.mem_map.mp ht
      obtain ⟨j, hj, rfl⟩ := List.mem_take_iff_getElem.mp hp
      exact ⟨j, (lt_min_iff.mp hj).1, rfl⟩
    · rintro ⟨j, hj, rfl⟩
      exact List.mem_map_of_mem (List.mem_take_iff_getElem.mpr
        ⟨j, lt_min hj (hj.trans hi), rfl⟩)
  have hupto : (times (packets.take i) ++ [packets[i].time]).Pairwise (· ≤ ·) := by
    rw [hsplit] at hsorted
    exact (List.pairwise_append.mp hsorted).1
  have hbeyond {t : ℕ} (ht : t ∈ times (packets.take i) ++ [packets[i].time]) :
      Beyond (times packets) t ↔ Beyond (times (packets.take i) ++ [packets[i].time]) t := by
    have hwhole := hsplit ▸ hsorted
    rw [hsplit]
    exact beyond_append hwhole ht
  have hlast := hbeyond (List.mem_append_right _ (List.mem_singleton_self packets[i].time))
  have hrun := tracked_run macDes (packets.take i) (List.pairwise_append.mp hupto).1
  have hprinted : (printed macDes packets)[i] =
      (LogWindow.logged (final LogWindow.logged (Vars.initial macDes) (packets.take i))
        packets[i]).2 := answers_getElem _ _ packets i hi hi'
  rw [hlast, hprinted]
  rcases hrun.lines hupto with ⟨hin, hl⟩ | ⟨hout, hnone, hl⟩ | ⟨hout, ⟨t, ht, hold⟩, hl⟩
  · exact Or.inl ⟨hin, hl⟩
  · refine Or.inr (Or.inl ⟨hout, fun j hj hold => ?_, hl⟩)
    have hj' := hmem.mpr ⟨j, hj, rfl⟩
    exact hnone _ hj' ((hbeyond (List.mem_append_left _ hj')).mp hold)
  · obtain ⟨j, hj, rfl⟩ := hmem.mp ht
    exact Or.inr (Or.inr ⟨hout, ⟨j, hj, (hbeyond (List.mem_append_left _ ht)).mpr hold⟩, hl⟩)

variable {macDes : Buf 6} {packets : List Timed} {i : ℕ}

theorem length_printed (macDes : Buf 6) (packets : List Timed) :
    (printed macDes packets).length = packets.length := length_answers _ _ _

theorem printed_packetLine (macDes : Buf 6) (packets : List Timed) (hi : i < packets.length)
    (hi' : i < (printed macDes packets).length) :
    ∀ l ∈ (printed macDes packets)[i], Line.isPacket l = true →
      ∃ successTimes failedTimes,
        l = packetLine successTimes failedTimes macDes packets[i].toArrival := by
  have hmac : (final LogWindow.logged (Vars.initial macDes) (packets.take i)).macDes = macDes :=
    final_invariant LogWindow.logged (P := fun _ _ s => s.macDes = macDes)
      (fun _ _ s p h => (macDes_handle s p.toArrival).trans h) rfl _
  have hprinted : (printed macDes packets)[i] =
      (LogWindow.logged (final LogWindow.logged (Vars.initial macDes) (packets.take i))
        packets[i]).2 := answers_getElem _ _ packets i hi hi'
  intro l hl hpacket
  rw [hprinted] at hl
  rcases lines_handle _ _ l hl with hline | rfl
  · exact ⟨_, _, hmac ▸ hline⟩
  · cases hpacket

theorem length_printed_le (hsorted : (times packets).Pairwise (· ≤ ·)) (hi : i < packets.length)
    (hi' : i < (printed macDes packets).length) : (printed macDes packets)[i].length ≤ 1 := by
  rcases printed_getElem macDes packets hsorted i hi hi' with
    ⟨-, l, hl, -⟩ | ⟨-, -, hl⟩ | ⟨-, -, hl⟩
  · rw [hl, List.length_singleton]
  · rw [hl, List.length_singleton]
  · rw [hl]
    exact Nat.zero_le 1

theorem isPacket_iff (hsorted : (times packets).Pairwise (· ≤ ·)) (hi : i < packets.length)
    (hi' : i < (printed macDes packets).length) :
    (∃ l ∈ (printed macDes packets)[i], Line.isPacket l = true) ↔
      ¬ Beyond (times packets) packets[i].time := by
  rcases printed_getElem macDes packets hsorted i hi hi' with
    ⟨hin, l, hl, hpacket⟩ | ⟨hout, -, hl⟩ | ⟨hout, -, hl⟩
  · exact iff_of_true ⟨l, hl ▸ List.mem_singleton_self l, hpacket⟩ hin
  · apply iff_of_false _ (not_not.mpr hout)
    rw [hl]
    rintro ⟨l, hmem, hpacket⟩
    obtain rfl := List.mem_singleton.mp hmem
    cases hpacket
  · apply iff_of_false _ (not_not.mpr hout)
    rw [hl]
    rintro ⟨l, hmem, -⟩
    cases hmem

/-- "Times up" comes with the first packet beyond the window, and with no other. -/
theorem timesUp_iff (hsorted : (times packets).Pairwise (· ≤ ·)) (hi : i < packets.length)
    (hi' : i < (printed macDes packets).length) :
    .timesUp ∈ (printed macDes packets)[i] ↔ Beyond (times packets) packets[i].time ∧
      ∀ j (hj : j < i), ¬ Beyond (times packets) packets[j].time := by
  rcases printed_getElem macDes packets hsorted i hi hi' with
    ⟨hin, l, hl, hpacket⟩ | ⟨hout, hnone, hl⟩ | ⟨hout, ⟨j, hj, hold⟩, hl⟩
  · apply iff_of_false _ (fun hfirst => hin hfirst.1)
    rw [hl]
    intro hmem
    rw [← List.mem_singleton.mp hmem] at hpacket
    cases hpacket
  · apply iff_of_true _ ⟨hout, hnone⟩
    rw [hl]
    exact List.mem_singleton_self _
  · apply iff_of_false _ (fun hfirst => hfirst.2 j hj hold)
    rw [hl]
    exact List.not_mem_nil

theorem exists_timesUp (macDes : Buf 6) (hsorted : (times packets).Pairwise (· ≤ ·))
    (hi : i < packets.length) (hout : Beyond (times packets) packets[i].time) :
    ∃ k, ∃ hk : k < (printed macDes packets).length, k ≤ i ∧
      .timesUp ∈ (printed macDes packets)[k] := by
  induction i using Nat.strong_induction_on with
  | _ i ih =>
      by_cases hfirst : ∃ j, ∃ hj : j < i, Beyond (times packets) packets[j].time
      · obtain ⟨j, hj, hold⟩ := hfirst
        obtain ⟨k, hk, hle, hmem⟩ := ih j hj (hj.trans hi) hold
        exact ⟨k, hk, hle.trans hj.le, hmem⟩
      · push Not at hfirst
        have hi' : i < (printed macDes packets).length := by
          rwa [length_printed]
        exact ⟨i, hi', le_rfl, (timesUp_iff hsorted hi hi').mpr ⟨hout, hfirst⟩⟩

end Run

/-- The log stays closed exactly in the runs in which no packet falls into the window again, by
the counter, after another one has left it. -/
theorem staysClosed_iff (macDes : Buf 6) (packets : List Timed)
    (hsorted : (times packets).Pairwise (· ≤ ·)) : StaysClosed (printed macDes packets) ↔
      (times packets).Pairwise (fun t u => Beyond (times packets) t → Beyond (times packets) u) := by
  have hlength := length_printed macDes packets
  rw [times, List.pairwise_map, List.pairwise_iff_getElem]
  constructor
  · intro hclosed i j hi hj hij hout
    obtain ⟨k, hk, hki, hmem⟩ := exists_timesUp macDes hsorted hi hout
    have hquiet := hclosed.quiet k j hk (hlength ▸ hj) (by omega) hmem
    by_contra hin
    obtain ⟨l, hl, hpacket⟩ := (isPacket_iff hsorted hj (hlength ▸ hj)).mpr hin
    exact Bool.false_ne_true ((hquiet l hl).symm.trans hpacket)
  · intro hstays
    constructor
    · intro i j hi hj hij hmem l hl
      rw [hlength] at hi hj
      have hout := ((timesUp_iff hsorted hi (hlength ▸ hi)).mp hmem).1
      have hnone := mt (isPacket_iff hsorted hj (hlength ▸ hj)).mp
        (not_not.mpr (hstays i j hi hj hij hout))
      exact Bool.eq_false_iff.mpr (fun hpacket => hnone ⟨l, hl, hpacket⟩)
    · rcases (tracked_run macDes packets hsorted).flag with ⟨-, hcount, -⟩ | ⟨-, hcount, -⟩
      · rw [hcount]
        exact Nat.zero_le 1
      · rw [hcount]

def arriving (t : ℕ) : Timed where
  isConnectAP := true
  pkt := ⟨UInt32.ofNat t, 6, -40, fun _ => 0⟩
  sent := true
  time := t
  stamped := rfl

theorem staysClosed_two_minutes :
    StaysClosed (printed (Buf.fill 6 0) [arriving 1, arriving 120000001, arriving 120000002]) :=
  (staysClosed_iff (Buf.fill 6 0) [arriving 1, arriving 120000001, arriving 120000002]
    (by decide)).mpr (by decide)

/-- A period after the first packet the log is open again. -/
theorem not_staysClosed : (times [arriving 1, arriving 120000001, arriving (1 + period)]).Pairwise
      (· ≤ ·) ∧
    ¬ StaysClosed (printed (Buf.fill 6 0)
      [arriving 1, arriving 120000001, arriving (1 + period)]) := by
  refine ⟨by decide, fun hclosed => ?_⟩
  have hquiet := hclosed.quiet 1 2 (by decide) (by decide) (by decide) (by decide)
  exact absurd hquiet (by decide)

section OnePeriod

variable {p q : Timed} {rest : List Timed}

theorem origin_cons (hfirst : p.pkt.timestamp ≠ 0) : origin (times (p :: rest)) = p.time := by
  have hnonzero : p.time % period ≠ 0 := by
    intro hzero
    rw [p.stamped] at hfirst
    exact hfirst (ofNat_eq_zero.mpr hzero)
  rw [origin, times, List.map_cons, List.find?_cons_of_pos (by simpa using hnonzero)]
  rfl

theorem beyond_iff_of_lt {ts : List ℕ} {t : ℕ} (hspan : t < origin ts + period) :
    Beyond ts t ↔ window ≤ t - origin ts := by
  have hpos : 0 < period := by decide
  rw [Beyond, Nat.mod_eq_of_lt (by omega)]

theorem beyond_iff_of_span (hfirst : p.pkt.timestamp ≠ 0) (hspan : q.time < p.time + period) :
    Beyond (times (p :: rest)) q.time ↔ window ≤ q.time - p.time := by
  rw [beyond_iff_of_lt (by rwa [origin_cons hfirst]), origin_cons hfirst]

end OnePeriod

/-- Within one period of the counter the window is exact, and each line tells of its packet. -/
theorem printed_iff (macDes : Buf 6) (p : Timed) (rest : List Timed)
    (hsorted : (times (p :: rest)).Pairwise (· ≤ ·))
    (hspan : ∀ q ∈ p :: rest, q.time < p.time + period) (hfirst : p.pkt.timestamp ≠ 0) (i : ℕ)
    (hi : i < (p :: rest).length) (hi' : i < (printed macDes (p :: rest)).length) :
    (printed macDes (p :: rest))[i].length ≤ 1 ∧
      ((∃ l ∈ (printed macDes (p :: rest))[i], Line.isPacket l = true) ↔
        (p :: rest)[i].time - p.time < window) ∧
      (∀ l ∈ (printed macDes (p :: rest))[i], Line.isPacket l = true →
        ∃ successTimes failedTimes,
          l = packetLine successTimes failedTimes macDes (p :: rest)[i].toArrival) ∧
      (.timesUp ∈ (printed macDes (p :: rest))[i] ↔ window ≤ (p :: rest)[i].time - p.time ∧
        ∀ j (hj : j < i), (p :: rest)[j].time - p.time < window) := by
  have hbeyond (j : ℕ) (hj : j < (p :: rest).length) :
      Beyond (times (p :: rest)) (p :: rest)[j].time ↔ window ≤ (p :: rest)[j].time - p.time :=
    beyond_iff_of_span hfirst (hspan _ (List.getElem_mem hj))
  refine ⟨length_printed_le hsorted hi hi', ?_, printed_packetLine macDes _ hi hi', ?_⟩
  · rw [isPacket_iff hsorted hi hi', hbeyond i hi, not_le]
  · rw [timesUp_iff hsorted hi hi', hbeyond i hi]
    apply and_congr_right
    intro _
    apply forall₂_congr
    intro j hj
    rw [hbeyond j (hj.trans hi), not_le]

/-- The counter wraps between the two packets, and the origin is -1 as an `int`. -/
theorem printed_across_wrap : .timesUp ∈ (printed (Buf.fill 6 0)
    [arriving (period - 1), arriving (period - 1 + window)])[1] :=
  (printed_iff (Buf.fill 6 0) (arriving (period - 1)) [arriving (period - 1 + window)]
    (by decide) (by decide) (by decide) 1 (by decide) (by decide)).2.2.2.mpr
      ⟨by decide, by decide⟩

end SnifferStaSend.LogWindow
