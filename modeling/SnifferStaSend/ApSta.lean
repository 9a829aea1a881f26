import Mathlib.Algebra.Order.Group.Int
import Mathlib.Data.List.Infix
import Mathlib.Data.List.Induction
import SnifferStaSend.IntArith
import SnifferStaSend.Loop

/-!
# Event accounting of the AP and station mode

`event_handler_apsta` counts joined stations and retries. On `SYSTEM_EVENT_STA_GOT_IP` it calls
`ping`, whose `while( 1 )` has no way out, so that the event task handles no event after this one.
-/

namespace SnifferStaSend.ApSta
open CLib

/-- The event's `ip_info`, and the globals `ip`, `msk` and `gw` it is copied to. -/
structure IpInfo where
  ip : UInt32
  netmask : UInt32
  gw : UInt32
  deriving DecidableEq

inductive SystemEvent
  | apStaConnected | apStaDisconnected
  | staStart | staGotIp (ipInfo : IpInfo) | staDisconnected
  | other
  deriving DecidableEq

/-- An option of `esp_ping_set_target` and its value. -/
inductive PingTarget
  | ipAddressCount (n : UInt32)
  | rcvTimeo (ms : UInt32)
  | delayTime (ms : UInt32)
  | ipAddress (addr : UInt32)
  | resFnPingResults
  deriving DecidableEq

inductive Call
  | espWifiConnect
  | espPingSetTarget (target : PingTarget)
  | pingInit
  | vTaskDelay (ticks : UInt32)
  deriving DecidableEq

/-- The globals the handler writes, and the library calls made so far in their order. -/
structure State where
  isConnectAP : Bool
  gotStaConn : Int32
  sRetryNum : Int32
  ipInfo : IpInfo
  calls : List Call

def State.initial : State := ⟨false, 0, 0, ⟨0, 0, 0⟩, []⟩

def State.call (s : State) (cs : List Call) : State := { s with calls := s.calls ++ cs }

@[simp] theorem State.call_gotStaConn (s : State) (cs : List Call) :
    (s.call cs).gotStaConn = s.gotStaConn := rfl

@[simp] theorem State.call_sRetryNum (s : State) (cs : List Call) :
    (s.call cs).sRetryNum = s.sRetryNum := rfl

@[simp] theorem State.call_calls (s : State) (cs : List Call) :
    (s.call cs).calls = s.calls ++ cs := rfl

/-- `1000 / CONFIG_FREERTOS_HZ`. -/
def portTickPeriodMs : UInt32 := 10

def pingRound (s : State) : State :=
  let pingCount : UInt32 := 100000
  let pingTimeout : UInt32 := 1000
  let pingDelay : UInt32 := 10
  let s :=
    if s.isConnectAP then
      s.call [.espPingSetTarget (.ipAddressCount pingCount),
        .espPingSetTarget (.rcvTimeo pingTimeout), .espPingSetTarget (.delayTime pingDelay),
        .espPingSetTarget (.ipAddress s.ipInfo.gw), .espPingSetTarget .resFnPingResults, .pingInit]
    else s
  s.call [.vTaskDelay (pingDelay / portTickPeriodMs)]

def ping (fuel : ℕ) (s : State) : Option State :=
  whileLoop (fun _ => true) (fun s => some (pingRound s)) fuel s

/-- `none` if the handler has not returned within `fuel` rounds of a loop, or has let an `int`
overflow. -/
def eventHandlerApsta (fuel : ℕ) (s : State) : SystemEvent → Option State
  | .apStaConnected => (addInt s.gotStaConn 1).map (fun n => { s with gotStaConn := n })
  | .apStaDisconnected => (addInt s.gotStaConn (-1)).map (fun n => { s with gotStaConn := n })
  | .staStart => some (s.call [.espWifiConnect])
  | .staGotIp ipInfo => ping fuel { s with ipInfo := ipInfo, isConnectAP := true, sRetryNum := 0 }
  | .staDisconnected =>
    let s := s.call [.espWifiConnect]
    (addInt s.sRetryNum 1).map (fun n => { s with sRetryNum := n })
  | .other => some s

/-- The event task hands over an event when the handler has returned from the one before. -/
def dispatch (fuel : ℕ) (es : List SystemEvent) : Option State :=
  es.foldlM (eventHandlerApsta fuel) State.initial

def SystemEvent.isGotIp : SystemEvent → Bool
  | .staGotIp _ => true
  | _ => false

def stations (es : List SystemEvent) : ℤ :=
  (es.count .apStaConnected : ℤ) - es.count .apStaDisconnected

def retries (es : List SystemEvent) : ℕ :=
  (es.reverse.takeWhile (fun e => !e.isGotIp)).count .staDisconnected

/-- The counters and the connection attempts agree with the events. -/
structure Balanced (es : List SystemEvent) (s : State) : Prop where
  stations : s.gotStaConn.toInt = stations es
  retries : s.sRetryNum.toInt = retries es
  connects : s.calls.count .espWifiConnect = es.count .staStart + es.count .staDisconnected

def Accounted (es : List SystemEvent) : Prop :=
  ∃ fuel s, dispatch fuel es = some s ∧ Balanced es s

def InRange (es : List SystemEvent) : Prop :=
  (-2 ^ 31 ≤ stations es ∧ stations es < 2 ^ 31) ∧ (retries es : ℤ) < 2 ^ 31

section Ping

/-- Whatever it has been told about the connection, `ping` does not return. -/
theorem ping_eq_none (fuel : ℕ) (s : State) : ping fuel s = none := by
  cases h : ping fuel s with
  | none => rfl
  | some s' => cases cond_of_whileLoop h

end Ping

section Counts

variable (es : List SystemEvent) (e : SystemEvent)

theorem stations_concat : stations (es ++ [e]) =
    stations es + (if e = .apStaConnected then 1 else 0) -
      (if e = .apStaDisconnected then 1 else 0) := by
  simp only [stations, List.count_append, List.count_singleton, beq_iff_eq]
  split_ifs <;> omega

theorem retries_concat : retries (es ++ [e]) =
    if e.isGotIp then 0 else retries es + if e = .staDisconnected then 1 else 0 := by
  rw [retries, List.reverse_append, List.reverse_singleton, List.singleton_append]
  cases he : e.isGotIp with
  | true => simp [he]
  | false => simp [he, retries, List.count_cons]

end Counts

section Step

variable {es : List SystemEvent} {e : SystemEvent} {s s' : State} {fuel : ℕ}

theorem Balanced.inRange (h : Balanced es s) : InRange es := by
  have hstations := h.stations
  have hretries := h.retries
  have hle := s.gotStaConn.le_toInt
  have hlt := s.gotStaConn.toInt_lt
  have hlt' := s.sRetryNum.toInt_lt
  unfold InRange
  omega

theorem balanced_initial : Balanced [] State.initial where
  stations := rfl
  retries := rfl
  connects := rfl

theorem Balanced.concat (h : Balanced es s) (he : e.isGotIp = false)
    (hstations : s'.gotStaConn.toInt = s.gotStaConn.toInt +
      (if e = .apStaConnected then 1 else 0) - (if e = .apStaDisconnected then 1 else 0))
    (hretries : s'.sRetryNum.toInt = s.sRetryNum.toInt + if e = .staDisconnected then 1 else 0)
    (hconnects : s'.calls.count .espWifiConnect =
      s.calls.count .espWifiConnect + [e].count .staStart + [e].count .staDisconnected) :
    Balanced (es ++ [e]) s' where
  stations := by rw [hstations, h.stations, stations_concat]
  retries := by
    rw [hretries, h.retries, retries_concat, he, if_neg Bool.false_ne_true]
    split_ifs <;> simp
  connects := by
    rw [hconnects, h.connects, List.count_append, List.count_append]
    omega

/-- An event whose handler returns is accounted for. -/
theorem Balanced.handle (h : Balanced es s) (hret : eventHandlerApsta fuel s e = some s') :
    e.isGotIp = false ∧ Balanced (es ++ [e]) s' := by
  cases e with
  | apStaConnected =>
      obtain ⟨n, hn, rfl⟩ := Option.map_eq_some_iff.mp hret
      have hexact : n.toInt = s.gotStaConn.toInt + 1 := addInt_eq_some.mp hn
      exact ⟨rfl, h.concat rfl (by simpa using hexact) (by simp) (by simp)⟩
  | apStaDisconnected =>
      obtain ⟨n, hn, rfl⟩ := Option.map_eq_some_iff.mp hret
      have hexact : n.toInt = s.gotStaConn.toInt - 1 := addInt_eq_some.mp hn
      exact ⟨rfl, h.concat rfl (by simpa using hexact) (by simp) (by simp)⟩
  | staStart =>
      obtain rfl := Option.some.inj hret
      exact ⟨rfl, h.concat rfl (by simp) (by simp) (by simp)⟩
  | staGotIp ipInfo =>
      rw [eventHandlerApsta, ping_eq_none] at hret
      cases hret
  | staDisconnected =>
      obtain ⟨n, hn, rfl⟩ := Option.map_eq_some_iff.mp hret
      have hexact : n.toInt = s.sRetryNum.toInt + 1 := addInt_eq_some.mp hn
      exact ⟨rfl, h.concat rfl (by simp) (by simpa using hexact) (by simp)⟩
  | other =>
      obtain rfl := Option.some.inj hret
      exact ⟨rfl, h.concat rfl (by simp) (by simp) (by simp)⟩

theorem Balanced.returns (h : Balanced es s) (he : e.isGotIp = false)
    (hrange : InRange (es ++ [e])) (fuel : ℕ) :
    ∃ s', eventHandlerApsta fuel s e = some s' := by
  obtain ⟨⟨hle, hlt⟩, hretries⟩ := hrange
  rw [stations_concat, ← h.stations] at hle hlt
  rw [retries_concat, he] at hretries
  cases e with
  | apStaConnected =>
      have hone : -2 ^ 31 ≤ s.gotStaConn.toInt + 1 ∧ s.gotStaConn.toInt + 1 < 2 ^ 31 := by
        simp only [if_true, reduceCtorEq, if_false] at hle hlt
        omega
      obtain ⟨n, hn⟩ := exists_toInt32? hone.1 hone.2
      exact ⟨_, Option.map_eq_some_iff.mpr ⟨n, hn, rfl⟩⟩
  | apStaDisconnected =>
      have hone : -2 ^ 31 ≤ s.gotStaConn.toInt + -1 ∧ s.gotStaConn.toInt + -1 < 2 ^ 31 := by
        simp only [if_true, reduceCtorEq, if_false] at hle hlt
        omega
      obtain ⟨n, hn⟩ := exists_toInt32? hone.1 hone.2
      exact ⟨_, Option.map_eq_some_iff.mpr ⟨n, hn, rfl⟩⟩
  | staGotIp ipInfo => cases he
  | staDisconnected =>
      have hnow := h.retries
      have hone : -2 ^ 31 ≤ s.sRetryNum.toInt + 1 ∧ s.sRetryNum.toInt + 1 < 2 ^ 31 := by
        simp only [Bool.false_eq_true, if_false, if_true] at hretries
        omega
      obtain ⟨n, hn⟩ := exists_toInt32? hone.1 hone.2
      exact ⟨_, Option.map_eq_some_iff.mpr ⟨n, hn, rfl⟩⟩
  | _ => exact ⟨_, rfl⟩

end Step

section Run

variable {es : List SystemEvent} {s : State} {fuel : ℕ}

theorem dispatch_concat (fuel : ℕ) (es : List SystemEvent) (e : SystemEvent) :
    dispatch fuel (es ++ [e]) =
      (dispatch fuel es).bind (fun s => eventHandlerApsta fuel s e) := by
  rw [dispatch, List.foldlM_append]
  simp only [List.foldlM_cons, List.foldlM_nil, bind_pure]
  rfl

/-- No address arrives, and on no prefix of the events does a count leave the range of `int`. -/
structure Handleable (es : List SystemEvent) : Prop where
  noAddress : ∀ e ∈ es, e.isGotIp = false
  inRange : ∀ es', es' <+: es → InRange es'

theorem inRange_nil : InRange [] := balanced_initial.inRange

theorem handleable_nil : Handleable [] where
  noAddress := by simp
  inRange := by
    intro es' h
    rw [List.prefix_nil.mp h]
    exact inRange_nil

theorem Handleable.concat {e : SystemEvent} (h : Handleable es) (he : e.isGotIp = false)
    (hrange : InRange (es ++ [e])) : Handleable (es ++ [e]) where
  noAddress := by
    intro e' he'
    rcases List.mem_append.mp he' with hmem | hlast
    · exact h.noAddress e' hmem
    · rw [List.mem_singleton.mp hlast]
      exact he
  inRange := by
    intro es' hes
    rcases List.prefix_concat_iff.mp hes with rfl | hes'
    · exact hrange
    · exact h.inRange es' hes'

theorem Handleable.of_prefix {es' : List SystemEvent} (h : Handleable es) (hes : es' <+: es) :
    Handleable es' where
  noAddress := fun e he => h.noAddress e (hes.subset he)
  inRange := fun _ h' => h.inRange _ (h'.trans hes)

theorem handleable_of_dispatch (hrun : dispatch fuel es = some s) :
    Handleable es ∧ Balanced es s := by
  induction es using List.reverseRecOn generalizing s with
  | nil =>
      obtain rfl := Option.some.inj hrun
      exact ⟨handleable_nil, balanced_initial⟩
  | append_singleton es e ih =>
      rw [dispatch_concat] at hrun
      obtain ⟨s₁, hbefore, hhandle⟩ := Option.bind_eq_some_iff.mp hrun
      obtain ⟨hes, hbalanced⟩ := ih hbefore
      obtain ⟨he, hbalanced'⟩ := hbalanced.handle hhandle
      exact ⟨hes.concat he hbalanced'.inRange, hbalanced'⟩

theorem dispatch_of_handleable (h : Handleable es) (fuel : ℕ) :
    ∃ s, dispatch fuel es = some s := by
  induction es using List.reverseRecOn with
  | nil => exact ⟨_, rfl⟩
  | append_singleton es e ih =>
      obtain ⟨s, hs⟩ := ih (h.of_prefix (List.prefix_append es [e]))
      have hbalanced := (handleable_of_dispatch hs).2
      have he : e.isGotIp = false := h.noAddress e (by simp)
      obtain ⟨s', hs'⟩ := hbalanced.returns he (h.inRange _ List.prefix_rfl) fuel
      exact ⟨s', by rw [dispatch_concat, hs]; exact hs'⟩

/-- The account is right for the sequences without an address, as long as the counts fit. -/
theorem accounted_iff (es : List SystemEvent) :
    Accounted es ↔ (∀ ipInfo, .staGotIp ipInfo ∉ es) ∧ ∀ es', es' <+: es → InRange es' := by
  have haddress : (∀ e ∈ es, e.isGotIp = false) ↔ ∀ ipInfo, .staGotIp ipInfo ∉ es := by
    constructor
    · intro h ipInfo hmem
      cases h _ hmem
    · intro h e he
      cases e with
      | staGotIp ipInfo => exact absurd he (h ipInfo)
      | _ => rfl
  rw [← haddress]
  constructor
  · rintro ⟨fuel, s, hrun, -⟩
    obtain ⟨hnone, hrange⟩ := (handleable_of_dispatch hrun).1
    exact ⟨hnone, hrange⟩
  · rintro ⟨hnone, hrange⟩
    obtain ⟨s, hrun⟩ := dispatch_of_handleable ⟨hnone, hrange⟩ 0
    exact ⟨0, s, hrun, (handleable_of_dispatch hrun).2⟩

/-- A station that starts and gets its address handles nothing any more. -/
theorem not_accounted_gotIp :
    ¬ Accounted [.staStart, .staGotIp ⟨0x0228a8c0, 0x00ffffff, 0x0128a8c0⟩, .staDisconnected] := by
  rintro ⟨fuel, s, hrun, -⟩
  have hnone := (handleable_of_dispatch hrun).1.noAddress _
    (List.mem_cons_of_mem _ List.mem_cons_self)
  cases hnone

end Run
end SnifferStaSend.ApSta
