import SnifferStaSend.LogWindow
import SnifferStaSend.Printf

/-!
# The log on the console

What the calls of `printf` in the promiscuous callback put out, and a reader of that text. The
reader gets back every line of a run, so the text can stand for the lines; they tell of every
packet inside the window, and of the sends before it.
-/

namespace SnifferStaSend.ConsoleLog
open CLib Sniffer PacketReport LogWindow

def lit (s : String) : Piece := .text (CString.ofString s).bytes

def addrPieces (a : List UInt8) : List Piece :=
  [.x02 true (a.getD 0 0).toNat, lit ":", .x02 true (a.getD 1 0).toNat]

/-- The arguments of the calls of `printf`; `timestamp` is passed to `%d`. -/
def printfLine : Line → List Piece
  | .packet successTimes failedTimes timestamp channel rssi addr1 addr2 macDes =>
    [.d successTimes.toInt, lit ", ", .d failedTimes.toInt, lit ", ", .d timestamp.toInt32.toInt,
      lit ", ", .d channel.toNat, lit ", ", .d rssi.toInt, lit ", "] ++
      addrPieces addr1 ++ [lit ", "] ++ addrPieces addr2 ++ [lit ", "] ++
      addrPieces macDes ++ [lit "\n"]
  | .timesUp => [lit "Times up\n"]

def consoleText (lines : List Line) : List UInt8 := lines.flatMap (fun l => format (printfLine l))

def readInt (field : List UInt8) : ℤ :=
  if (scanNumeral field).negative then -(digitsValue (scanNumeral field).digits : ℤ)
  else digitsValue (scanNumeral field).digits

/-- The hexadecimal digits of a field, without blanks and colons. -/
def readPair (field : List UInt8) : List UInt8 := unhex (field.filter isxdigit)

def readLine (text : List UInt8) : Option Line :=
  match text.splitOn 44 with
  | [f₀, f₁, f₂, f₃, f₄, f₅, f₆, f₇] =>
    some (.packet (Int32.ofInt (readInt f₀)) (Int32.ofInt (readInt f₁))
      (Int32.ofInt (readInt f₂)).toUInt32 (UInt8.ofNat (readInt f₃).toNat)
      (Int8.ofInt (readInt f₄)) (readPair f₅) (readPair f₆) (readPair f₇))
  | [f] => if f = (CString.ofString "Times up").bytes then some .timesUp else none
  | _ => none

/-- Every line ends with a newline. -/
def readLog (text : List UInt8) : Option (List Line) :=
  ((text.splitOn 10).dropLast).mapM readLine

def runLines (s : Vars) (arrivals : List Arrival) : List Line :=
  (answers handle s arrivals).flatMap Prod.fst

def Complete : Line → Prop
  | .packet _ _ _ _ _ addr1 addr2 macDes =>
    addr1.length = 2 ∧ addr2.length = 2 ∧ macDes.length = 2
  | .timesUp => True

section Fields

def numberField (blanks : ℕ) (v : ℤ) : List UInt8 := List.replicate blanks 32 ++ (Piece.d v).bytes

def pairField (a : List UInt8) : List UInt8 := 32 :: format (addrPieces a)

def lineFields : Line → List (List UInt8)
  | .packet successTimes failedTimes timestamp channel rssi addr1 addr2 macDes =>
    [numberField 0 successTimes.toInt, numberField 1 failedTimes.toInt,
      numberField 1 timestamp.toInt32.toInt, numberField 1 channel.toNat,
      numberField 1 rssi.toInt, pairField addr1, pairField addr2, pairField macDes]
  | .timesUp => [(CString.ofString "Times up").bytes]

theorem readInt_numberField (blanks : ℕ) (v : ℤ) : readInt (numberField blanks v) = v := by
  rw [readInt, numberField, scanNumeral_d, digitsValue_numeral]
  by_cases hneg : v < 0
  · rw [decide_eq_true hneg, if_pos rfl]
    omega
  · rw [decide_eq_false hneg, if_neg Bool.false_ne_true]
    omega

theorem exists_pair {a : List UInt8} (h : a.length = 2) : ∃ x y, a = [x, y] :=
  List.length_eq_two.mp h

theorem format_addrPieces (x y : UInt8) : format (addrPieces [x, y]) =
    (Piece.x02 true x.toNat).bytes ++ 58 :: (Piece.x02 true y.toNat).bytes := by
  have hcolon : (lit ":").bytes = [58] := by decide
  simp only [format, addrPieces, List.flatMap_cons, List.flatMap_nil, hcolon, List.append_nil,
    List.getD_cons_zero, List.getD_cons_succ, List.singleton_append]

theorem readPair_pairField {a : List UInt8} (h : a.length = 2) : readPair (pairField a) = a := by
  obtain ⟨x, y, rfl⟩ := exists_pair h
  have hdigits (c : UInt8) : (Piece.x02 true c.toNat).bytes.filter isxdigit =
      (Piece.x02 true c.toNat).bytes :=
    List.filter_eq_self.mpr (fun _ hx => isxdigit_of_mem_x02 hx)
  have hblank : isxdigit 32 = false := by decide
  have hcolon : isxdigit 58 = false := by decide
  rw [readPair, pairField, format_addrPieces, List.filter_cons_of_neg (by simp [hblank]),
    List.filter_append, List.filter_cons_of_neg (by simp [hcolon]), hdigits, hdigits, unhex_x02]
  have hlast := unhex_x02 true y []
  rw [List.append_nil] at hlast
  rw [hlast]
  rfl

def plain (c : UInt8) : Bool := c != 44 && c != 10

theorem plain_of_isxdigit {c : UInt8} (h : isxdigit c = true) : plain c = true := by
  by_contra hno
  have hcase : c = 44 ∨ c = 10 := by
    simp only [plain, Bool.and_eq_true, bne_iff_ne, ne_eq, not_and_or, not_not] at hno
    exact hno
  rcases hcase with rfl | rfl
  · revert h
    decide
  · revert h
    decide

theorem plain_numberField (blanks : ℕ) (v : ℤ) : ∀ c ∈ numberField blanks v, plain c = true := by
  intro c hc
  rcases List.mem_append.mp hc with hblank | hnumber
  · rw [(List.mem_replicate.mp hblank).2]
    rfl
  · rcases mem_d hnumber with rfl | hdigit
    · rfl
    · exact plain_of_isxdigit (by rw [isxdigit, hdigit]; rfl)

theorem plain_pairField {a : List UInt8} (h : a.length = 2) :
    ∀ c ∈ pairField a, plain c = true := by
  obtain ⟨x, y, rfl⟩ := exists_pair h
  intro c hc
  rw [pairField, format_addrPieces, List.mem_cons, List.mem_append, List.mem_cons] at hc
  rcases hc with rfl | hx | rfl | hy
  · rfl
  · exact plain_of_isxdigit (isxdigit_of_mem_x02 hx)
  · rfl
  · exact plain_of_isxdigit (isxdigit_of_mem_x02 hy)

theorem plain_lineFields {l : Line} (h : Complete l) :
    ∀ f ∈ lineFields l, ∀ c ∈ f, plain c = true := by
  cases l with
  | timesUp => decide +kernel
  | packet su fa ts ch rs a1 a2 md =>
      obtain ⟨h1, h2, h3⟩ := h
      simp only [lineFields, List.forall_mem_cons]
      exact ⟨plain_numberField _ _, plain_numberField _ _, plain_numberField _ _,
        plain_numberField _ _, plain_numberField _ _, plain_pairField h1, plain_pairField h2,
        plain_pairField h3, by simp⟩

end Fields

section Reading

theorem format_printfLine {l : Line} (h : Complete l) :
    format (printfLine l) = [44].intercalate (lineFields l) ++ [10] := by
  cases l with
  | timesUp => decide
  | packet su fa ts ch rs a1 a2 md =>
      obtain ⟨h1, h2, h3⟩ := h
      obtain ⟨x1, y1, rfl⟩ := exists_pair h1
      obtain ⟨x2, y2, rfl⟩ := exists_pair h2
      obtain ⟨x3, y3, rfl⟩ := exists_pair h3
      have hcomma : (lit ", ").bytes = [44, 32] := by decide
      have hnewline : (lit "\n").bytes = [10] := by decide
      simp only [printfLine, lineFields, List.intercalate_cons_cons, List.intercalate_singleton,
        numberField, pairField, format, addrPieces, List.flatMap_cons, List.flatMap_nil,
        hcomma, hnewline, List.append_nil, List.append_assoc, List.cons_append, List.nil_append,
        List.replicate_zero, List.replicate_one]

theorem splitOn_lineFields {l : Line} (h : Complete l) :
    ([44].intercalate (lineFields l)).splitOn 44 = lineFields l := by
  have hne : lineFields l ≠ [] := by
    cases l <;> simp [lineFields]
  apply List.splitOn_intercalate 44 _ hne
  intro f hf hcomma
  have hplain := plain_lineFields h f hf 44 hcomma
  revert hplain
  decide

theorem newline_not_mem {l : Line} (h : Complete l) :
    10 ∉ [44].intercalate (lineFields l) := by
  intro hmem
  have hplain := plain_lineFields h
  generalize lineFields l = fs at hmem hplain
  induction fs with
  | nil => cases hmem
  | cons f fs ih =>
      have hfirst : 10 ∉ f := fun hin => by
        have hten := hplain f List.mem_cons_self 10 hin
        revert hten
        decide
      have hrest : 10 ∉ [44].intercalate fs :=
        fun hin => ih hin (fun g hg => hplain g (List.mem_cons_of_mem f hg))
      cases fs with
      | nil =>
          rw [List.intercalate_singleton] at hmem
          exact hfirst hmem
      | cons g fs =>
          rw [List.intercalate_cons_cons, List.mem_append, List.mem_append] at hmem
          rcases hmem with (hin | hin) | hin
          · exact hfirst hin
          · revert hin
            decide
          · exact hrest hin

theorem readLine_fields {l : Line} (h : Complete l) :
    readLine ([44].intercalate (lineFields l)) = some l := by
  rw [readLine, splitOn_lineFields h]
  cases l with
  | timesUp => rfl
  | packet su fa ts ch rs a1 a2 md =>
      obtain ⟨h1, h2, h3⟩ := h
      simp only [lineFields, readInt_numberField, readPair_pairField h1, readPair_pairField h2,
        readPair_pairField h3, Int32.ofInt_toInt, UInt32.toUInt32_toInt32, Int8.ofInt_toInt,
        Int.toNat_natCast, UInt8.ofNat_toNat]

theorem splitOn_terminated (bodies : List (List UInt8)) (h : ∀ b ∈ bodies, 10 ∉ b) :
    (bodies.flatMap (fun b => b ++ [10])).splitOn 10 = bodies ++ [[]] := by
  induction bodies with
  | nil => rfl
  | cons b bodies ih =>
      have hfirst : ∀ c ∈ b, (c == 10) = false := by
        intro c hc
        have hne : c ≠ 10 := fun h10 => h b List.mem_cons_self (h10 ▸ hc)
        simpa using hne
      rw [List.flatMap_cons, List.append_assoc, List.singleton_append, List.splitOn_eq_splitOnP,
        List.splitOnP_append_cons_of_forall_mem hfirst 10 rfl, ← List.splitOn_eq_splitOnP,
        ih (fun c hc => h c (List.mem_cons_of_mem b hc))]
      rfl

theorem mapM_readLine {lines : List Line} (h : ∀ l ∈ lines, Complete l) :
    (lines.map (fun l => [44].intercalate (lineFields l))).mapM readLine = some lines := by
  induction lines with
  | nil => rfl
  | cons l lines ih =>
      rw [List.map_cons, List.mapM_cons, readLine_fields (h l List.mem_cons_self),
        ih (fun l' hl' => h l' (List.mem_cons_of_mem l hl'))]
      rfl

theorem readLog_of_complete {lines : List Line} (h : ∀ l ∈ lines, Complete l) :
    readLog (consoleText lines) = some lines := by
  have htext : consoleText lines =
      (lines.map (fun l => [44].intercalate (lineFields l))).flatMap (fun b => b ++ [10]) := by
    rw [List.flatMap_map]
    exact List.flatMap_congr (fun l hl => format_printfLine (h l hl))
  have hsplit : (consoleText lines).splitOn 10 =
      lines.map (fun l => [44].intercalate (lineFields l)) ++ [[]] := by
    rw [htext]
    apply splitOn_terminated
    intro b hb
    obtain ⟨l, hl, rfl⟩ := List.mem_map.mp hb
    exact newline_not_mem (h l hl)
  rw [readLog, hsplit, List.dropLast_concat]
  exact mapM_readLine h

end Reading

section Run

theorem complete_logPacket (s : Vars) (pkt : PromiscuousPkt) :
    ∀ l ∈ (logPacket s pkt).2, Complete l := by
  have hdrop (a : Buf 6) : (a.bytes.drop 4).length = 2 := by
    rw [List.length_drop, a.size_eq]
  intro l hl
  unfold logPacket at hl
  split_ifs at hl with hinside houtside
  · rw [List.mem_singleton.mp hl]
    exact ⟨hdrop _, hdrop _, hdrop _⟩
  · rw [List.mem_singleton.mp hl]
    trivial
  · cases hl

theorem complete_runLines (s : Vars) (arrivals : List Arrival) :
    ∀ l ∈ runLines s arrivals, Complete l := by
  induction arrivals generalizing s with
  | nil => simp [runLines, answers]
  | cons a arrivals ih =>
      intro l hl
      rw [runLines, answers, List.flatMap_cons, List.mem_append] at hl
      rcases hl with hfirst | hrest
      · exact complete_logPacket _ a.pkt l hfirst
      · exact ih _ l hrest

end Run

/-- The text of a run, read line by line, gives the lines that have been printed. -/
theorem readLog_consoleText (s : Vars) (arrivals : List Arrival) :
    readLog (consoleText (runLines s arrivals)) = some (runLines s arrivals) :=
  readLog_of_complete (complete_runLines s arrivals)

/-- The sends made under the flag, with the given outcome. -/
def sends (packets : List Timed) (sent : Bool) : ℕ :=
  packets.countP (fun a => a.isConnectAP && a.sent == sent)

/-- Every packet, with those before it. -/
def withEarlier : List Timed → List Timed → List (List Timed × Timed)
  | _, [] => []
  | earlier, a :: rest => (earlier, a) :: withEarlier (earlier ++ [a]) rest

/-- The line tells of the packet behind `c.1`, and how many sends there had been. -/
def IsEntry (macDes : Buf 6) (c : List Timed × Timed) (l : Line) : Prop :=
  ∃ successTimes failedTimes, l = packetLine successTimes failedTimes macDes c.2.toArrival ∧
    successTimes.toInt = sends c.1 true ∧ failedTimes.toInt = sends c.1 false

/-- The packets that do not lie beyond the window by the counter. -/
def withinWindow (packets : List Timed) : List (List Timed × Timed) :=
  (withEarlier [] packets).filter (fun c => ¬ Beyond (times packets) c.2.time)

/-- The last line, once a packet lies beyond the window. -/
def closing (packets : List Timed) : List Line :=
  if ∃ t ∈ times packets, Beyond (times packets) t then [.timesUp] else []

section Expected

variable (packets : List Timed) (a : Timed)

theorem withEarlier_concat (earlier : List Timed) :
    withEarlier earlier (packets ++ [a]) =
      withEarlier earlier packets ++ [(earlier ++ packets, a)] := by
  induction packets generalizing earlier with
  | nil => simp [withEarlier]
  | cons b packets ih =>
      rw [List.cons_append, withEarlier, withEarlier, ih, List.append_assoc]
      rfl

theorem mem_of_mem_withEarlier {earlier : List Timed} {c : List Timed × Timed}
    (h : c ∈ withEarlier earlier packets) : c.2 ∈ packets := by
  induction packets generalizing earlier with
  | nil => cases h
  | cons b packets ih =>
      rcases List.mem_cons.mp h with rfl | h
      · exact List.mem_cons_self
      · exact List.mem_cons_of_mem b (ih h)

theorem sends_concat (sent : Bool) : sends (packets ++ [a]) sent =
    sends packets sent + if a.isConnectAP = true ∧ a.sent = sent then 1 else 0 := by
  rw [sends, List.countP_append, List.countP_singleton]
  simp only [Bool.and_eq_true, beq_iff_eq]
  rfl

theorem toInt_sends {packets : List Timed} (h : packets.length < 2 ^ 31) (sent : Bool) :
    (Int32.ofNat (sends packets sent)).toInt = sends packets sent :=
  Int32.toInt_ofNat_of_lt (List.countP_le_length.trans_lt h)

variable {packets a}

theorem times_concat : times (packets ++ [a]) = times packets ++ [a.time] := List.map_append

theorem withinWindow_concat (hsorted : (times (packets ++ [a])).Pairwise (· ≤ ·)) :
    withinWindow (packets ++ [a]) = withinWindow packets ++
      if Beyond (times (packets ++ [a])) a.time then [] else [(packets, a)] := by
  rw [withinWindow, withEarlier_concat, List.filter_append, withinWindow]
  congr 1
  · apply List.filter_congr
    intro c hc
    have hmem := mem_of_mem_withEarlier packets hc
    rw [times_concat] at hsorted ⊢
    simp only [beyond_append hsorted (List.mem_map_of_mem hmem)]
  · by_cases hout : Beyond (times (packets ++ [a])) a.time
    · rw [if_pos hout]
      exact List.filter_cons_of_neg (by simpa using hout)
    · rw [if_neg hout]
      exact List.filter_cons_of_pos (by simpa using hout)

theorem exists_beyond_concat (hsorted : (times (packets ++ [a])).Pairwise (· ≤ ·)) :
    (∃ t ∈ times (packets ++ [a]), Beyond (times (packets ++ [a])) t) ↔
      (∃ t ∈ times packets, Beyond (times packets) t) ∨ Beyond (times (packets ++ [a])) a.time := by
  rw [times_concat] at hsorted ⊢
  constructor
  · rintro ⟨t, ht, hout⟩
    rcases List.mem_append.mp ht with ht | ht
    · exact Or.inl ⟨t, ht, (beyond_append hsorted ht).mp hout⟩
    · exact Or.inr (List.mem_singleton.mp ht ▸ hout)
  · rintro (⟨t, ht, hout⟩ | hout)
    · exact ⟨t, List.mem_append_left _ ht, (beyond_append hsorted ht).mpr hout⟩
    · exact ⟨a.time, List.mem_append_right _ (List.mem_singleton_self _), hout⟩

end Expected

section Told

/-- What the packets of a run have led to. -/
structure Told (macDes : Buf 6) (packets : List Timed) (lines : List Line) (s : Vars) : Prop where
  counters : ∀ sent, s.tally sent = Int32.ofNat (sends packets sent)
  mac : s.macDes = macDes
  log : ∃ entries, lines = entries ++ closing packets ∧
    List.Forall₂ (IsEntry macDes) (withinWindow packets) entries

variable {macDes : Buf 6} {packets : List Timed} {lines : List Line} {s : Vars} {a : Timed}

theorem Told.isEntry (h : Told macDes packets lines s) (hfew : packets.length < 2 ^ 31) {l : Line}
    (hl : l ∈ (LogWindow.logged s a).2) (hpacket : Line.isPacket l = true) :
    IsEntry macDes (packets, a) l := by
  rcases lines_handle s a.toArrival l hl with hline | rfl
  · refine ⟨_, _, h.mac ▸ hline, ?_, ?_⟩
    · exact (congrArg Int32.toInt (h.counters true)).trans (toInt_sends hfew true)
    · exact (congrArg Int32.toInt (h.counters false)).trans (toInt_sends hfew false)
  · cases hpacket

theorem Told.logged (h : Told macDes packets lines s) {out : List (List Line)}
    (htracked : Tracked (times packets) out s)
    (hsorted : (times (packets ++ [a])).Pairwise (· ≤ ·))
    (hstays : ∀ t ∈ times packets, Beyond (times packets) t →
      Beyond (times (packets ++ [a])) a.time)
    (hfew : packets.length < 2 ^ 31) :
    Told macDes (packets ++ [a]) (lines ++ (LogWindow.logged s a).2) (LogWindow.logged s a).1 where
  counters := by
    intro sent
    have htally : (LogWindow.logged s a).1.tally sent =
        if a.isConnectAP = true ∧ a.sent = sent then s.tally sent + 1 else s.tally sent :=
      tally_handler s a.isConnectAP a.pkt a.sent sent
    rw [htally, h.counters sent, sends_concat]
    split_ifs
    · exact (Int32.ofNat_add _ _).symm
    · rfl
  mac := (macDes_handle s a.toArrival).trans h.mac
  log := by
    obtain ⟨entries, hlines, hentries⟩ := h.log
    have hbefore {t : ℕ} (ht : t ∈ times packets) :
        Beyond (times (packets ++ [a])) t ↔ Beyond (times packets) t := by
      rw [times_concat] at hsorted ⊢
      exact beyond_append hsorted ht
    have hcases := htracked.lines (times_concat ▸ hsorted)
    rw [← times_concat] at hcases
    rw [withinWindow_concat hsorted, hlines, closing, closing,
      if_congr (exists_beyond_concat hsorted) rfl rfl]
    rcases hcases with ⟨hin, l, hl, hpacket⟩ | ⟨hout, hnone, hl⟩ | ⟨hout, ⟨t, ht, hold⟩, hl⟩
    · -- no packet has left the window yet
      have hopen : ¬ ∃ t ∈ times packets, Beyond (times packets) t :=
        fun ⟨t, ht, hout⟩ => hin (hstays t ht hout)
      have hentry : IsEntry macDes (packets, a) l :=
        h.isEntry hfew (hl ▸ List.mem_singleton_self l) hpacket
      rw [if_neg hopen, if_neg (not_or.mpr ⟨hopen, hin⟩), if_neg hin, hl]
      exact ⟨entries ++ [l], by simp, List.rel_append hentries (.cons hentry .nil)⟩
    · have hopen : ¬ ∃ t ∈ times packets, Beyond (times packets) t :=
        fun ⟨t, ht, hold⟩ => hnone t ht ((hbefore ht).mpr hold)
      rw [if_neg hopen, if_pos (Or.inr hout), if_pos hout, hl, List.append_nil, List.append_nil]
      exact ⟨entries, rfl, hentries⟩
    · have hclosed : ∃ t ∈ times packets, Beyond (times packets) t :=
        ⟨t, ht, (hbefore ht).mp hold⟩
      rw [if_pos hclosed, if_pos (Or.inl hclosed), if_pos hout, hl, List.append_nil,
        List.append_nil]
      exact ⟨entries, rfl, hentries⟩

theorem told_initial (macDes : Buf 6) : Told macDes [] [] (Vars.initial macDes) where
  counters := fun sent => by cases sent <;> rfl
  mac := rfl
  log := ⟨[], rfl, .nil⟩

/-- The window has not come back at the end of any part of the run. -/
theorem told_run (macDes : Buf 6) (packets : List Timed)
    (hsorted : (times packets).Pairwise (· ≤ ·))
    (hstays : (times packets).Pairwise fun t u =>
      Beyond (times packets) t → Beyond (times packets) u)
    (hfew : packets.length ≤ 2 ^ 31) : Told macDes packets (printed macDes packets).flatten
      (final LogWindow.logged (Vars.initial macDes) packets) := by
  induction packets using List.reverseRecOn with
  | nil => exact told_initial macDes
  | append_singleton packets a ih =>
      have hsorted' := hsorted
      rw [times_concat] at hsorted' hstays
      obtain ⟨hbefore, -, hlast⟩ := List.pairwise_append.mp hstays
      have hold {t : ℕ} (ht : t ∈ times packets) :
          Beyond (times packets ++ [a.time]) t ↔ Beyond (times packets) t :=
        beyond_append hsorted' ht
      have hsortedBefore := (List.pairwise_append.mp hsorted').1
      rw [List.length_append, List.length_singleton] at hfew
      have htold := ih hsortedBefore
        (hbefore.imp_of_mem fun ht hu himp hout => (hold hu).mp (himp ((hold ht).mpr hout)))
        (by omega)
      rw [final_append_singleton, printed, answers_append_singleton, List.flatten_append,
        List.flatten_singleton]
      refine htold.logged (tracked_run macDes packets hsortedBefore) hsorted (fun t ht hout => ?_)
        (by omega)
      rw [times_concat]
      exact hlast t ht _ (List.mem_singleton_self _) ((hold ht).mpr hout)

theorem runLines_timed (s : Vars) (packets : List Timed) :
    runLines s (packets.map Timed.toArrival) = (answers LogWindow.logged s packets).flatten := by
  induction packets generalizing s with
  | nil => rfl
  | cons a packets ih =>
      rw [answers, List.flatten_cons, ← ih]
      rfl

end Told

/-- In a run that is shorter than a period of the counter, from the first timestamp that is not 0
on, the text on the console has one entry for each packet within the first 120 seconds, with its
own data and the number of sends so far, and then tells once that the window is over, if there is
a later packet. -/
theorem readLog_run (macDes : Buf 6) (packets : List Timed)
    (hsorted : (times packets).Pairwise (· ≤ ·))
    (hspan : ∀ q ∈ packets, q.time < origin (times packets) + period)
    (hfew : packets.length ≤ 2 ^ 31) :
    ∃ entries, readLog (consoleText (runLines (Vars.initial macDes)
        (packets.map Timed.toArrival))) =
          some (entries ++ if ∃ q ∈ packets, window ≤ q.time - origin (times packets)
            then [.timesUp] else []) ∧
      List.Forall₂ (IsEntry macDes) ((withEarlier [] packets).filter
        (fun c => c.2.time - origin (times packets) < window)) entries := by
  have hbeyond (q : Timed) (hq : q ∈ packets) :
      Beyond (times packets) q.time ↔ window ≤ q.time - origin (times packets) :=
    beyond_iff_of_lt (hspan q hq)
  have hstays : (times packets).Pairwise fun t u =>
      Beyond (times packets) t → Beyond (times packets) u := by
    refine hsorted.imp_of_mem fun ht hu hle hout => ?_
    obtain ⟨q, hq, rfl⟩ := List.mem_map.mp ht
    obtain ⟨r, hr, rfl⟩ := List.mem_map.mp hu
    have hfar := (hbeyond q hq).mp hout
    exact (hbeyond r hr).mpr (by omega)
  obtain ⟨entries, hlines, hentries⟩ := (told_run macDes packets hsorted hstays hfew).log
  have hclosing : closing packets = if ∃ q ∈ packets, window ≤ q.time - origin (times packets)
      then [.timesUp] else [] := by
    have hiff : (∃ t ∈ times packets, Beyond (times packets) t) ↔
        ∃ q ∈ packets, window ≤ q.time - origin (times packets) := by
      constructor
      · rintro ⟨t, ht, hout⟩
        obtain ⟨q, hq, rfl⟩ := List.mem_map.mp ht
        exact ⟨q, hq, (hbeyond q hq).mp hout⟩
      · rintro ⟨q, hq, hfar⟩
        exact ⟨q.time, List.mem_map_of_mem hq, (hbeyond q hq).mpr hfar⟩
    rw [closing]
    exact if_congr hiff rfl rfl
  have hwithin : withinWindow packets = (withEarlier [] packets).filter
      (fun c => c.2.time - origin (times packets) < window) := by
    apply List.filter_congr
    intro c hc
    have hq := hbeyond c.2 (mem_of_mem_withEarlier packets hc)
    simp only [hq, not_le]
  refine ⟨entries, ?_, hwithin ▸ hentries⟩
  rw [readLog_of_complete (complete_runLines _ _), runLines_timed, ← hclosing, ← hlines]
  rfl

/-- Two packets within the window and two behind it, across the wrap of the counter. -/
def fourPackets : List Timed :=
  [arriving (period - 2), arriving (period - 1), arriving (period - 2 + window),
    arriving (period + window)]

theorem readLog_run_fourPackets : ∃ first second,
    readLog (consoleText (runLines (Vars.initial (Buf.fill 6 0))
      (fourPackets.map Timed.toArrival))) = some [first, second, .timesUp] ∧
      IsEntry (Buf.fill 6 0) ([], arriving (period - 2)) first ∧
      IsEntry (Buf.fill 6 0) ([arriving (period - 2)], arriving (period - 1)) second := by
  obtain ⟨entries, hread, hentries⟩ := readLog_run (Buf.fill 6 0) fourPackets (by decide)
    (by decide) (by decide)
  have hwithin : (withEarlier [] fourPackets).filter
      (fun c => c.2.time - origin (times fourPackets) < window) =
        [([], arriving (period - 2)), ([arriving (period - 2)], arriving (period - 1))] := rfl
  rw [hwithin] at hentries
  obtain ⟨first, rest, hfirst, hrest, rfl⟩ := List.forall₂_cons_left_iff.mp hentries
  obtain ⟨second, rest, hsecond, hnil, rfl⟩ := List.forall₂_cons_left_iff.mp hrest
  obtain rfl := List.forall₂_nil_left_iff.mp hnil
  rw [if_pos (by decide)] at hread
  exact ⟨first, second, hread, hfirst, hsecond⟩

end SnifferStaSend.ConsoleLog
