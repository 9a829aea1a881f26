import SnifferStaSend.GetSettings
import SnifferStaSend.Reading

/-!
# The UDP server

The receive loop of `init_socket_server` and the command recognisers. `recvfrom` copies a
datagram to the start of `message` and adds no terminator; its return value is not used. Each
turn then reads `message` as a C string.
-/

namespace SnifferStaSend.SockServer
open CLib GetSettings

def isSetChannelCmd (string : CString) (retStr : Buf 30) (last : Last) :
    Except Fault (Bool × Last) := do
  let (retStr, last) ← getStrtokString last string 0 retStr
  return (retStr.strcmpIsZero (CString.ofString "Channel"), last)

/-- The three tests by characters read the memory at `string`. -/
def isHttpsCmd (string : ℕ → UInt8) : Reading Bool :=
  Reading.charsAre string 0 (CString.ofString "https").bytes

def isGetInfoCmd (string : ℕ → UInt8) : Reading Bool :=
  Reading.charsAre string 0 (CString.ofString "GET").bytes

def isRebootCmd (string : ℕ → UInt8) : Reading Bool :=
  Reading.charsAre string 0 (CString.ofString "REBOOT").bytes

/-- `recvfrom(socket_des, message, 512, ...)`; the part of a datagram past 512 bytes is lost. -/
def recvfrom (message : Buf 512) (datagram : List UInt8) : Buf 512 := message.overwrite datagram

/-- The buffer after the loop of `init_socket_server` has received `datagrams` in turn. -/
def messageAfter (message : Buf 512) (datagrams : List (List UInt8)) : Buf 512 :=
  datagrams.foldl recvfrom message

/-- What `printf("%s", message)` reads after each receive. `none` means the read leaves the
buffer. -/
def printed (message : Buf 512) : List (List UInt8) → List (Option CString)
  | [] => []
  | d :: ds => (recvfrom message d).str? :: printed (recvfrom message d) ds

theorem getElem?_printed (message : Buf 512) (ds : List (List UInt8)) (i : ℕ) (hi : i < ds.length) :
    (printed message ds)[i]? = some (messageAfter message (ds.take (i + 1))).str? := by
  induction ds generalizing message i with
  | nil => cases hi
  | cons d ds ih =>
      cases i with
      | zero => rfl
      | succ i => exact ih (recvfrom message d) i (Nat.lt_of_succ_lt_succ hi)

/-- After every receive the text read is the one just received. -/
def PrintsEachDatagram (message : Buf 512) (ds : List (List UInt8)) : Prop :=
  ∀ i (hi : i < ds.length), (printed message ds)[i]? = some (some (CString.text ds[i]))

/-- Datagram `i` carries a NUL, or the byte left behind it by the receives before is one. -/
def Terminated (message : Buf 512) (ds : List (List UInt8)) (i : ℕ) (hi : i < ds.length) : Prop :=
  0 ∈ ds[i] ∨ message.lastStored ds[i].length (ds.take i).reverse = some 0

/-- The loop prints what it received exactly when every datagram is terminated by itself or by
the latest earlier datagram that is longer. -/
theorem printsEachDatagram_iff (message : Buf 512) (ds : List (List UInt8))
    (hlen : ∀ d ∈ ds, d.length ≤ 512) :
    PrintsEachDatagram message ds ↔ ∀ i (hi : i < ds.length), Terminated message ds i hi := by
  have hstep (i : ℕ) (hi : i < ds.length) :
      (printed message ds)[i]? = some (some (CString.text ds[i])) ↔
        Terminated message ds i hi := by
    have hprefix : ds.take (i + 1) = ds.take i ++ [ds[i]] := by simp
    have hmem : ds[i] ∈ ds := List.getElem_mem hi
    rw [getElem?_printed message ds i hi, Option.some.injEq, messageAfter, hprefix,
      List.foldl_append, List.foldl_cons, List.foldl_nil, recvfrom,
      Buf.str?_overwrite_eq_text _ (hlen _ hmem)]
    have hstale := Buf.getElem?_foldl_overwrite message (ds.take i)
      (fun d hd => hlen d (List.mem_of_mem_take hd)) ds[i].length
    rw [Terminated, ← hstale]
    rfl
  constructor
  · intro h i hi
    exact (hstep i hi).mp (h i hi)
  · intro h i hi
    exact (hstep i hi).mpr (h i hi)

/-- The NUL of the first datagram terminates the second, and the third has one of its own. -/
theorem printsEachDatagram_terminated :
    PrintsEachDatagram (Buf.fill 512 0) [[71, 69, 84, 0], [82, 69, 66], [82, 0]] :=
  (printsEachDatagram_iff _ _ (by decide)).mpr fun i hi =>
    match i, hi with
    | 0, _ => Or.inl (by simp)
    | 1, _ => Or.inr rfl
    | 2, _ => Or.inl (by simp)

/-- "REBOOT" and then "GET": the second text read is "GETOOT". -/
theorem not_printsEachDatagram :
    ¬ PrintsEachDatagram (Buf.fill 512 0) [[82, 69, 66, 79, 79, 84], [71, 69, 84]] := by
  intro h
  have h1 := h 1 (by decide)
  rw [getElem?_printed _ _ 1 (by decide)] at h1
  revert h1
  decide +kernel

end SnifferStaSend.SockServer
