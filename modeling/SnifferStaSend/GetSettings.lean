import Mathlib.Data.List.FinRange
import SnifferStaSend.Atoi
import SnifferStaSend.Nvs
import SnifferStaSend.Strtok

/-!
# The settings message and the settings record

Functions of `get_settings.c`. Local arrays that the source leaves uninitialised are
arguments (`Frame`, `retStr`), as is the position `strtok` keeps between calls (`last`). A
store past a declared size ends the run with a `Fault`.
-/

namespace SnifferStaSend.GetSettings
open CLib Nvs

structure Globals where
  gChannel : Int32
  gDestIp : CharArray 30
  gCkPort : Int32
  gRssiPort : Int32
  gReportFrequency : Int32
  deriving DecidableEq

/-- The initialisers, with the values `sdkconfig` gives them. -/
def Globals.compiledIn : Globals where
  gChannel := 1
  gDestIp := ⟨CString.ofString "192.168.1.2", by decide⟩
  gCkPort := 8889
  gRssiPort := 8888
  gReportFrequency := 3000

def delim (c : UInt8) : Bool := c == 44

abbrev Last := SavePtr UInt8

/-- The loop calls `strtok` until `index` reaches `getStrNum`, also after a NULL. -/
def getStrtokString (last : Last) (srcStr : CString) (getStrNum : ℕ) (retStr : Buf 30) :
    Except Fault (Buf 30 × Last) := do
  let cpSrcStr ← CharArray.sprintf 50 srcStr
  match strtokAgain delim getStrNum (strtok delim (some cpSrcStr.str.bytes) last) with
  | (some temp, last) =>
    let retStr ← retStr.sprintf (CString.text temp)
    return (retStr, last)
  | (none, last) => return (retStr, last)

def dbIndexChannel : Fin 7 := 0
def dbIndexDestIp : Fin 7 := 2
def dbIndexCkPort : Fin 7 := 3
def dbIndexRssiPort : Fin 7 := 4
def dbIndexFreq : Fin 7 := 6

/-- What the stack holds where `db_strtok` is placed, and what `atoi` makes of row `i` when the
row ends before the numeral does. -/
structure Frame where
  dbStrtok : Fin 7 → Buf 30
  overread : Fin 7 → Int32

/-- The `for` loop that both readers of a message start with. -/
def fillDbStrtok (msg : CString) :
    List (Fin 7) → (Fin 7 → Buf 30) → Last → Except Fault ((Fin 7 → Buf 30) × Last)
  | [], rows, last => return (rows, last)
  | i :: is, rows, last => do
    let (row, last) ← getStrtokString last msg i (rows i)
    fillDbStrtok msg is (Function.update rows i row) last

def portInRange (v : Int32) : Bool := 0 < v && v < 65535

def checkDbSettings (dbSettingsString : CString) (frame : Frame) (last : Last) :
    Except Fault (Bool × Last) := do
  let (dbStrtok, last) ← fillDbStrtok dbSettingsString (List.finRange 7) frame.dbStrtok last
  let atoi (i : Fin 7) : Int32 := (dbStrtok i).atoi (frame.overread i)
  if !(0 < atoi 0 && atoi 0 < 15) then return (false, last)
  else if !portInRange (atoi 3) then return (false, last)
  else if !portInRange (atoi 4) then return (false, last)
  else if !portInRange (atoi 5) then return (false, last)
  else return (true, last)

/-- The four checks of `check_db_settings`, of what `atoi` makes of each row. -/
def rowsInRange (atoi : Fin 7 → Int32) : Bool :=
  (0 < atoi 0 && atoi 0 < 15) &&
    portInRange (atoi 3) && portInRange (atoi 4) && portInRange (atoi 5)

/-- The six calls that `use_db_settings` and `use_sdk_settings` both end with. -/
def writeSettings (g : Globals) : List Write :=
  [nvsWriteStringToFlash "CONFIG_FILE" "WRITE" (CString.ofString "Y"),
    nvsWriteInt32ToFlash "CONFIG_FILE" "CHANNEL" g.gChannel,
    nvsWriteStringToFlash "CONFIG_FILE" "DEST_IP" g.gDestIp.str,
    nvsWriteInt32ToFlash "CONFIG_FILE" "CK_PORT" g.gCkPort,
    nvsWriteInt32ToFlash "CONFIG_FILE" "RSSI_PORT" g.gRssiPort,
    nvsWriteInt32ToFlash "CONFIG_FILE" "REPORT_FREQ" g.gReportFrequency]

/-- The globals after the assignments, the writes in order, and the `strtok` position. -/
structure Applied where
  globals : Globals
  writes : List Write
  last : Last
  deriving DecidableEq

def useDbSettings (dbSettingsString : CString) (frame : Frame) (last : Last) :
    Except Fault Applied := do
  let (dbStrtok, last) ← fillDbStrtok dbSettingsString (List.finRange 7) frame.dbStrtok last
  let atoi (i : Fin 7) : Int32 := (dbStrtok i).atoi (frame.overread i)
  let gDestIp ← CharArray.sprintfBuf (dbStrtok dbIndexDestIp)
  let g : Globals := {
    gChannel := atoi dbIndexChannel
    gDestIp := gDestIp
    gCkPort := atoi dbIndexCkPort
    gRssiPort := atoi dbIndexRssiPort
    gReportFrequency := atoi dbIndexFreq }
  return ⟨g, writeSettings g, last⟩

/-- `isWrite` has room for one character. -/
def checkRomSettings (fl : Flash) : Bool :=
  let isWrite : CharArray 2 := ⟨CString.ofString "N", by decide⟩
  (nvsReadStringFromFlash fl "CONFIG_FILE" "WRITE" isWrite).str = CString.ofString "Y"

def useRomSettings (fl : Flash) (g : Globals) : Globals :=
  if checkRomSettings fl then
    { gChannel := nvsReadInt32FromFlash fl "CONFIG_FILE" "CHANNEL"
      gDestIp := nvsReadStringFromFlash fl "CONFIG_FILE" "DEST_IP" g.gDestIp
      gCkPort := nvsReadInt32FromFlash fl "CONFIG_FILE" "CK_PORT"
      gRssiPort := nvsReadInt32FromFlash fl "CONFIG_FILE" "RSSI_PORT"
      gReportFrequency := nvsReadInt32FromFlash fl "CONFIG_FILE" "REPORT_FREQ" }
  else g

def useSdkSettings (g : Globals) : List Write := writeSettings g

/-- With the request loop commented out, `get_settings` only stores the globals. -/
def getSettings (g : Globals) : List Write := useSdkSettings g

end SnifferStaSend.GetSettings
