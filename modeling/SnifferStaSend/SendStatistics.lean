import SnifferStaSend.Station

/-!
# What `successTimes` and `failedTimes` count

The counters are to count the sends made while the station is connected. They are gated by
`isConnectAP`, which the first statement of the first `GOT_IP` handler sets and nothing clears:
they also count the sends between a disconnect and the next address.
-/

namespace SnifferStaSend.SendStatistics
open CLib GetSettings SockClient Sniffer Station

section Ledger

/-- An account of a run kept from its labels alone. `connected` tells that the latest of the
events `GOT_IP` and `DISCONNECTED` was the former, `flagged` that a handler of `GOT_IP` has
executed a statement. The three tables are by outcome of the send. -/
structure Ledger where
  gotIp : Bool
  flagged : Bool
  connected : Bool
  sends : Bool → ℕ
  missed : Bool → ℕ
  stale : Bool → ℕ

def Ledger.empty : Ledger := ⟨false, false, false, fun _ => 0, fun _ => 0, fun _ => 0⟩

/-- One more for the outcome `sent`, if the condition holds. -/
def bump (cond : Bool) (f : Bool → ℕ) (sent : Bool) : Bool → ℕ :=
  fun b => if cond = true ∧ sent = b then f b + 1 else f b

/-- `sends` are the sends of a connected station, `missed` those of them that come before the
flag, `stale` the sends of a disconnected station under the flag. -/
def Ledger.note (l : Ledger) : Label → Ledger
  | .event .staGotIp => { l with gotIp := true, connected := true }
  | .event .staDisconnected => { l with connected := false }
  | .event _ => l
  | .advance => { l with flagged := l.gotIp }
  | .interrupt p =>
    { l with
      sends := bump l.connected l.sends p.sent
      missed := bump (l.connected && !l.flagged) l.missed p.sent
      stale := bump (!l.connected && l.flagged) l.stale p.sent }

def ledger (ls : List Label) : Ledger := ls.foldl Ledger.note Ledger.empty

theorem ledger_append_singleton (ls : List Label) (l : Label) :
    ledger (ls ++ [l]) = (ledger ls).note l := List.foldl_append

/-- No packet was captured where flag and connection differ. -/
def Ledger.InStep (l : Ledger) : Prop := ∀ sent, l.missed sent = 0 ∧ l.stale sent = 0

instance (l : Ledger) : Decidable l.InStep := inferInstanceAs (Decidable (∀ _, _))

section Bump

variable {cond cond' : Bool} {f g : Bool → ℕ} {sent b : Bool}

theorem le_bump : f b ≤ bump cond f sent b := by
  unfold bump
  split_ifs <;> omega

theorem bump_le_bump (hcond : cond = true → cond' = true) (hle : f b ≤ g b) :
    bump cond f sent b ≤ bump cond' g sent b := by
  unfold bump
  by_cases hboth : cond = true ∧ sent = b
  · rw [if_pos hboth, if_pos ⟨hcond hboth.1, hboth.2⟩]
    omega
  · rw [if_neg hboth]
    exact hle.trans le_bump

theorem bump_add_bump_le (hcond : cond = true → cond' = false) :
    bump cond f sent b + bump cond' g sent b ≤ f b + g b + 1 := by
  unfold bump
  by_cases hboth : cond = true ∧ sent = b
  · rw [if_pos hboth, hcond hboth.1, if_neg (by simp)]
    omega
  · rw [if_neg hboth]
    split_ifs <;> omega

end Bump

/-- Counters kept under the flag have moved by what the account calls for. -/
theorem Ledger.flagged_note (l : Ledger) (p : Capture) (b : Bool) :
    (l.note (.interrupt p)).sends b + (l.note (.interrupt p)).stale b + l.missed b =
      l.sends b + l.stale b + (l.note (.interrupt p)).missed b +
        if l.flagged = true ∧ p.sent = b then 1 else 0 := by
  simp only [Ledger.note, bump]
  by_cases hb : p.sent = b
  · cases l.connected <;> cases l.flagged <;> simp [hb] <;> omega
  · simp [hb]

theorem ledger_bounds (ls : List Label) (b : Bool) :
    (ledger ls).missed b ≤ (ledger ls).sends b ∧
      (ledger ls).sends b + (ledger ls).stale b ≤ (EventTask.interrupts ls).length := by
  induction ls using List.reverseRecOn with
  | nil => exact ⟨le_rfl, le_rfl⟩
  | append_singleton ls l ih =>
      rw [ledger_append_singleton]
      cases l with
      | event e =>
          rw [EventTask.interrupts_append_event]
          cases e <;> exact ih
      | advance =>
          rw [EventTask.interrupts_append_advance]
          exact ih
      | interrupt p =>
          rw [EventTask.interrupts_append_interrupt, List.length_append, List.length_singleton]
          refine ⟨bump_le_bump (fun h => (Bool.and_eq_true_iff.mp h).1) ih.1, ?_⟩
          have hexcludes : (ledger ls).connected = true →
              (!(ledger ls).connected && (ledger ls).flagged) = false := by
            intro h
            rw [h]
            rfl
          exact (bump_add_bump_le hexcludes).trans (Nat.add_le_add_right ih.2 1)

theorem Ledger.le_note (l : Ledger) (lab : Label) (b : Bool) :
    l.missed b ≤ (l.note lab).missed b ∧ l.stale b ≤ (l.note lab).stale b := by
  cases lab with
  | event e => cases e <;> exact ⟨le_rfl, le_rfl⟩
  | advance => exact ⟨le_rfl, le_rfl⟩
  | interrupt p => exact ⟨le_bump, le_bump⟩

theorem inStep_of_prefix {ls ls' : List Label} (hpre : ls' <+: ls) (h : (ledger ls).InStep) :
    (ledger ls').InStep := by
  obtain ⟨rest, rfl⟩ := hpre
  induction rest using List.reverseRecOn with
  | nil => rwa [List.append_nil] at h
  | append_singleton rest l ih =>
      rw [← List.append_assoc, ledger_append_singleton] at h
      apply ih
      intro sent
      have hle := (ledger (ls' ++ rest)).le_note l sent
      have hzero := h sent
      omega

/-- The first packet out of step changes one table only. -/
theorem Ledger.inStep_note {l : Ledger} {lab : Label} (h : l.InStep)
    (heq : ∀ sent, (l.note lab).missed sent = (l.note lab).stale sent) : (l.note lab).InStep := by
  cases lab with
  | event e => cases e <;> exact h
  | advance => exact h
  | interrupt p =>
      intro sent
      have hsent := heq sent
      obtain ⟨hmissed, hstale⟩ := h sent
      simp only [Ledger.note, bump, hmissed, hstale] at hsent ⊢
      revert hsent
      cases l.connected <;> cases l.flagged <;> simp

theorem inStep_of_balance {ls : List Label}
    (h : ∀ ls', ls' <+: ls → ∀ sent, (ledger ls').missed sent = (ledger ls').stale sent) :
    (ledger ls).InStep := by
  induction ls using List.reverseRecOn with
  | nil => exact fun _ => ⟨rfl, rfl⟩
  | append_singleton ls l ih =>
      have hlast := h _ (List.prefix_refl _)
      rw [ledger_append_singleton] at hlast ⊢
      exact Ledger.inStep_note
        (ih (fun ls' hpre => h ls' (hpre.trans (List.prefix_append _ _)))) hlast

end Ledger

section Counters

variable {inetPton : CString → Option UInt32}

@[simp] theorem exec_sniffer (w : State) (st : Station.Stmt) :
    (exec inetPton w st).sniffer = w.sniffer := by
  cases st with
  | sock s =>
      dsimp only [exec]
      split <;> rfl
  | _ => rfl

theorem exec_isConnectAP (w : State) {st : Station.Stmt} (h : st ≠ .setConnected) :
    (exec inetPton w st).isConnectAP = w.isConnectAP := by
  cases st with
  | setConnected => exact absurd rfl h
  | sock s =>
      dsimp only [exec]
      split <;> rfl
  | _ => rfl

/-- The flag and the counters against the account of the labels taken. A `GOT_IP` that the flag
does not show yet has its `setConnected` next. -/
structure Balanced (ls : List Label) (c : EventTask.Config State Station.Stmt) : Prop where
  tail : .setConnected ∉ c.pending.tail
  next : (ledger ls).gotIp ≠ (ledger ls).flagged → c.pending.head? = some .setConnected
  gotIp : .setConnected ∈ c.pending → (ledger ls).gotIp = true
  flag : c.state.isConnectAP = (ledger ls).flagged
  tally : (EventTask.interrupts ls).length < 2 ^ 31 → ∀ sent,
    (c.state.sniffer.tally sent).toInt + (ledger ls).missed sent =
      (ledger ls).sends sent + (ledger ls).stale sent

variable {ls : List Label} {w : State} {pending rest : List Station.Stmt}

theorem Balanced.exec {st : Station.Stmt} (h : Balanced ls ⟨w, st :: rest⟩) :
    Balanced (ls ++ [.advance]) ⟨exec inetPton w st, rest⟩ := by
  have hledger : ledger (ls ++ [.advance]) = (ledger ls).note .advance :=
    ledger_append_singleton ls .advance
  have hrest : .setConnected ∉ rest := h.tail
  refine ⟨fun hmem => hrest (List.mem_of_mem_tail hmem), ?_, fun hmem => absurd hmem hrest, ?_, ?_⟩
  · rw [hledger]
    exact fun hne => absurd rfl hne
  · rw [hledger]
    change _ = (ledger ls).gotIp
    by_cases hst : st = .setConnected
    · subst hst
      exact (h.gotIp List.mem_cons_self).symm
    · have hsame : (ledger ls).gotIp = (ledger ls).flagged := by
        by_contra hne
        exact hst (Option.some.inj (h.next hne))
      rw [exec_isConnectAP w hst, hsame]
      exact h.flag
  · rw [hledger, EventTask.interrupts_append_advance, exec_sniffer]
    exact h.tally

theorem setConnected_not_mem_handler (g : Globals) {e : SystemEvent} (he : e ≠ .staGotIp) :
    .setConnected ∉ eventHandlerSta g e := by
  cases e with
  | staGotIp => exact absurd rfl he
  | _ => simp [eventHandlerSta]

theorem Balanced.event (h : Balanced ls ⟨w, []⟩) (e : SystemEvent) :
    Balanced (ls ++ [.event e]) ⟨w, eventHandlerSta w.g e⟩ := by
  have hledger : ledger (ls ++ [.event e]) = (ledger ls).note (.event e) :=
    ledger_append_singleton ls (.event e)
  have hsame : (ledger ls).gotIp = (ledger ls).flagged := by
    by_contra hne
    cases h.next hne
  have hflag : ((ledger ls).note (.event e)).flagged = (ledger ls).flagged := by
    cases e <;> rfl
  have htables : ((ledger ls).note (.event e)).sends = (ledger ls).sends ∧
      ((ledger ls).note (.event e)).missed = (ledger ls).missed ∧
      ((ledger ls).note (.event e)).stale = (ledger ls).stale := by
    cases e <;> exact ⟨rfl, rfl, rfl⟩
  have htally := h.tally
  rw [← htables.1, ← htables.2.1, ← htables.2.2, ← hledger,
    ← EventTask.interrupts_append_event ls e] at htally
  have hflagged : w.isConnectAP = (ledger (ls ++ [.event e])).flagged := by
    rw [hledger, hflag]
    exact h.flag
  by_cases he : e = .staGotIp
  · subst he
    refine ⟨?_, fun _ => rfl, fun _ => by rw [hledger]; rfl, hflagged, htally⟩
    simp [eventHandlerSta, initSocketClient, initSocket]
  · have hnot := setConnected_not_mem_handler w.g he
    refine ⟨fun hmem => hnot (List.mem_of_mem_tail hmem), fun hne => ?_,
      fun hmem => absurd hmem hnot, hflagged, htally⟩
    have hgotIp : ((ledger ls).note (.event e)).gotIp = (ledger ls).gotIp := by
      cases e with
      | staGotIp => exact absurd rfl he
      | _ => rfl
    rw [hledger, hgotIp, hflag] at hne
    exact absurd hsame hne

theorem Balanced.packet (h : Balanced ls ⟨w, pending⟩) (p : Capture) :
    Balanced (ls ++ [.interrupt p]) ⟨packetCallback w p, pending⟩ := by
  have hledger : ledger (ls ++ [.interrupt p]) = (ledger ls).note (.interrupt p) :=
    ledger_append_singleton ls (.interrupt p)
  have hlength : (EventTask.interrupts (ls ++ [.interrupt p])).length =
      (EventTask.interrupts ls).length + 1 := by
    rw [EventTask.interrupts_append_interrupt, List.length_append, List.length_singleton]
  refine ⟨h.tail, ?_, ?_, ?_, ?_⟩
  · rw [hledger]
    exact h.next
  · rw [hledger]
    exact h.gotIp
  · rw [hledger]
    exact h.flag
  · intro hbound sent
    rw [hlength] at hbound
    have hold : (w.sniffer.tally sent).toInt + (ledger ls).missed sent =
        (ledger ls).sends sent + (ledger ls).stale sent := h.tally (by omega) sent
    have hmove := (ledger ls).flagged_note p sent
    obtain ⟨hmissed, htotal⟩ := ledger_bounds ls sent
    have hflag : w.isConnectAP = (ledger ls).flagged := h.flag
    rw [hledger]
    change ((wifiSnifferPacketHandler w.sniffer w.isConnectAP p.pkt p.sent).1.tally sent).toInt +
      _ = _
    rw [tally_handler, hflag]
    split_ifs at hmove ⊢ with hand
    · have hone : (1 : Int32).toInt = 1 := rfl
      rw [addInt_eq_some.mp (addInt_add (by omega) (by omega)), hone]
      omega
    · omega

theorem balanced_of_run {g : Globals} {flash : Nvs.Flash} {pool : Pool} {macDes : Buf 6}
    {c : EventTask.Config State Station.Stmt}
    (hrun : run (station inetPton).step ⟨State.initial g flash pool macDes, []⟩ ls = some c) :
    Balanced ls c := by
  refine (station inetPton).invariant_of_run (P := Balanced) ?_ ?_ ?_ ?_ hrun
  · intro ls w e _ h
    exact h.event e
  · intro ls w st rest _ h
    exact h.exec
  · intro ls w pending p _ h
    exact h.packet p
  · refine ⟨List.not_mem_nil, fun hne => absurd rfl hne, fun hmem => ?_, rfl, fun _ sent => ?_⟩
    · cases hmem
    · cases sent <;> rfl

end Counters

/-- The counters are the connected sends of the labels taken, by outcome. -/
def CountsConnected (ls : List Label) (w : State) : Prop :=
  w.sniffer.successTimes.toInt = (ledger ls).sends true ∧
    w.sniffer.failedTimes.toInt = (ledger ls).sends false

theorem Balanced.counts_iff {ls : List Label} {c : EventTask.Config State Station.Stmt}
    (h : Balanced ls c) (hpackets : (EventTask.interrupts ls).length < 2 ^ 31) :
    CountsConnected ls c.state ↔ ∀ sent, (ledger ls).missed sent = (ledger ls).stale sent := by
  have hsuccess : c.state.sniffer.successTimes.toInt + (ledger ls).missed true =
      (ledger ls).sends true + (ledger ls).stale true := h.tally hpackets true
  have hfailed : c.state.sniffer.failedTimes.toInt + (ledger ls).missed false =
      (ledger ls).sends false + (ledger ls).stale false := h.tally hpackets false
  rw [CountsConnected, Bool.forall_bool]
  omega

/-- All along a run the counters are the connected sends exactly when no packet is captured
between a disconnect and the next address, nor before the first handler of an address has set
the flag. -/
theorem countsConnected_iff (inetPton : CString → Option UInt32) (g : Globals) (flash : Nvs.Flash)
    (pool : Pool) (macDes : Buf 6) (ls : List Label) (c : EventTask.Config State Station.Stmt)
    (hrun : run (station inetPton).step ⟨State.initial g flash pool macDes, []⟩ ls = some c)
    (hpackets : (EventTask.interrupts ls).length < 2 ^ 31) :
    (∀ ls' c', ls' <+: ls →
      run (station inetPton).step ⟨State.initial g flash pool macDes, []⟩ ls' = some c' →
      CountsConnected ls' c'.state) ↔ (ledger ls).InStep := by
  have hfew {ls' : List Label} (hpre : ls' <+: ls) :
      (EventTask.interrupts ls').length < 2 ^ 31 :=
    (hpre.filterMap EventTask.Label.interrupt?).length_le.trans_lt hpackets
  constructor
  · intro hcounts
    apply inStep_of_balance
    intro ls' hpre
    obtain ⟨rest, rfl⟩ := hpre
    obtain ⟨c', hrun', _⟩ := (run_append_eq_some _).mp hrun
    exact ((balanced_of_run hrun').counts_iff (hfew (List.prefix_append _ _))).mp
      (hcounts ls' c' (List.prefix_append _ _) hrun')
  · intro hstep ls' c' hpre hrun'
    refine ((balanced_of_run hrun').counts_iff (hfew hpre)).mpr (fun sent => ?_)
    obtain ⟨hmissed, hstale⟩ := inStep_of_prefix hpre hstep sent
    rw [hmissed, hstale]

def threePackets : List Label :=
  [.interrupt ⟨somePacket, false⟩, .event .staGotIp] ++ List.replicate 9 .advance ++
    [.interrupt ⟨somePacket, true⟩, .interrupt ⟨somePacket, false⟩]

theorem countsConnected_threePackets : ∃ c,
    run (station dottedQuad).step atBoot threePackets = some c ∧
      c.state.sniffer.successTimes.toInt = 1 ∧ c.state.sniffer.failedTimes.toInt = 1 := by
  obtain ⟨c, hrun⟩ : ∃ c, run (station dottedQuad).step atBoot threePackets = some c := ⟨_, rfl⟩
  have hcounts := (countsConnected_iff dottedQuad _ _ _ _ _ _ hrun (by decide)).mpr (by decide)
  exact ⟨c, hrun, hcounts _ c (List.prefix_refl _) hrun⟩

/-- A packet after the disconnect is counted, although the station is not connected. -/
theorem not_countsConnected : ∃ ls c,
    run (station dottedQuad).step atBoot ls = some c ∧ (EventTask.interrupts ls).length = 1 ∧
      c.state.sniffer.failedTimes.toInt = 1 ∧ (ledger ls).sends false = 0 :=
  ⟨.event .staGotIp :: List.replicate 9 .advance ++
    [.event .staDisconnected, .interrupt ⟨somePacket, false⟩], _, rfl, rfl, rfl, rfl⟩

end SnifferStaSend.SendStatistics
