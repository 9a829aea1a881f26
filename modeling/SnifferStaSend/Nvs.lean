import Mathlib.Logic.Function.Basic
import SnifferStaSend.CString

/-!
# The NVS flash and its four access functions

NVS is a map from a namespace and a key to a typed value. A write function that returns has
committed one key; one that fails an `ESP_ERROR_CHECK` aborts the run before its commit. A
run of several writes cut anywhere is therefore a prefix of the list of its commits.
-/

namespace SnifferStaSend.Nvs
open CLib

/-- `nvs_fileName` and `param`. -/
abbrev Key := String × String

/-- An item: of the two types that this program stores, or of another one (`nvs_set_u8`,
`nvs_set_blob`, ...). -/
inductive Value
  | i32 (v : Int32)
  | str (s : CString)
  | other (type : UInt8) (data : List UInt8)
  deriving DecidableEq

abbrev Flash := Key → Option Value

/-- The key committed by one call of a write function. -/
structure Write where
  key : Key
  value : Value
  deriving DecidableEq

def nvsWriteInt32ToFlash (nvsFileName param : String) (value : Int32) : Write :=
  ⟨(nvsFileName, param), .i32 value⟩

def nvsWriteStringToFlash (nvsFileName param : String) (string : CString) : Write :=
  ⟨(nvsFileName, param), .str string⟩

/-- `value` starts as 0 and keeps it when `nvs_get_i32` finds no number under the key. -/
def nvsReadInt32FromFlash (fl : Flash) (nvsFileName param : String) : Int32 :=
  match fl (nvsFileName, param) with
  | some (.i32 v) => v
  | _ => 0

/-- `nvs_get_str` writes nothing when the key holds no string or the string and its
terminator do not fit in the `n` bytes of `strData`. -/
def nvsReadStringFromFlash {n : ℕ} (fl : Flash) (nvsFileName param : String)
    (strData : CharArray n) : CharArray n :=
  match fl (nvsFileName, param) with
  | some (.str s) => if h : s.length < n then ⟨s, h⟩ else strData
  | _ => strData

def Write.commit (fl : Flash) (w : Write) : Flash := Function.update fl w.key (some w.value)

def commitAll (ws : List Write) (fl : Flash) : Flash := ws.foldl Write.commit fl

@[simp] theorem commitAll_nil (fl : Flash) : commitAll [] fl = fl := rfl

@[simp] theorem commitAll_cons (w : Write) (ws : List Write) (fl : Flash) :
    commitAll (w :: ws) fl = commitAll ws (w.commit fl) := rfl

theorem commit_self (fl : Flash) (w : Write) : w.commit fl w.key = some w.value :=
  Function.update_self _ _ _

theorem commit_of_ne (fl : Flash) (w : Write) {k : Key} (h : w.key ≠ k) : w.commit fl k = fl k :=
  Function.update_of_ne h.symm _ _

/-- Frame rule: a key that no write names keeps its value. -/
theorem commitAll_of_not_mem (ws : List Write) (fl : Flash) (k : Key)
    (h : ∀ w ∈ ws, w.key ≠ k) : commitAll ws fl k = fl k := by
  induction ws generalizing fl with
  | nil => rfl
  | cons w ws ih =>
      rw [commitAll_cons, ih _ (fun v hv => h v (List.mem_cons_of_mem w hv)),
        commit_of_ne fl w (h w List.mem_cons_self)]

theorem commitAll_of_mem (ws : List Write) (fl : Flash)
    (hd : (ws.map Write.key).Nodup) (w : Write) (hw : w ∈ ws) :
    commitAll ws fl w.key = some w.value := by
  induction ws generalizing fl with
  | nil => cases hw
  | cons v ws ih =>
      rw [List.map_cons, List.nodup_cons] at hd
      rw [commitAll_cons]
      rcases List.mem_cons.mp hw with rfl | hmem
      · have hne : ∀ u ∈ ws, u.key ≠ w.key := by
          intro u hu he
          exact hd.1 (he ▸ List.mem_map_of_mem hu)
        rw [commitAll_of_not_mem ws _ _ hne, commit_self]
      · exact ih _ hd.2 hmem

theorem nvsReadInt32FromFlash_eq {fl : Flash} {f p : String} {v : Int32}
    (h : fl (f, p) = some (.i32 v)) : nvsReadInt32FromFlash fl f p = v := by
  rw [nvsReadInt32FromFlash, h]

theorem nvsReadStringFromFlash_eq {n : ℕ} {fl : Flash} {f p : String} (a b : CharArray n)
    (h : fl (f, p) = some (.str a.str)) : nvsReadStringFromFlash fl f p b = a := by
  rw [nvsReadStringFromFlash, h]
  exact dif_pos a.fits

end SnifferStaSend.Nvs
