import Mathlib.Order.CompletePartialOrder
import Mathlib.Order.Interval.Set.Disjoint
import SnifferStaSend.Memory
import SnifferStaSend.SettingsMessage

/-!
# `getStrtokString` on the memory it works in

The function copies the source string to its own array, lets `strtok` cut that copy up, and
copies the field it arrives at to the caller's array. Here the three arrays are places of one
memory, so that what is written, and what is not, can be seen.
-/

namespace SnifferStaSend.FieldExtraction
open CLib CLib.Memory GetSettings

/-- The body of the `while` loop: `temp = strtok(NULL, delim)` and `index++`. -/
def nextToken (fuel : ℕ) (locals : ℕ × Token) : Option (ℕ × Token) := do
  let temp ← strtok fuel delim none locals.2.mem locals.2.last
  return (locals.1 + 1, temp)

def deliver (fuel : ℕ) (retStr : ℕ) (temp : Token) : Option (Memory × Option ℕ) :=
  match temp.ptr with
  | some ptr => do
    let mem ← sprintf fuel temp.mem retStr ptr
    return (mem, temp.last)
  | none => some (temp.mem, temp.last)

/-- The arrays are given by their addresses, `last` is the position `strtok` has been left with. -/
def getStrtokString (fuel : ℕ) (cpSrcStr srcStr getStrNum retStr : ℕ) (mem : Memory)
    (last : Option ℕ) : Option (Memory × Option ℕ) := do
  let mem ← sprintf fuel mem cpSrcStr srcStr
  let temp ← strtok fuel delim (some cpSrcStr) mem last
  let locals ← whileLoop (fun l => l.1 != getStrNum) (nextToken fuel) fuel (0, temp)
  deliver fuel retStr locals.2

/-- The copy, the string and the result do not overlap. -/
structure Layout (len : ℕ) where
  cpSrcStr : ℕ
  srcStr : ℕ
  retStr : ℕ
  cp_src : Disjoint (Set.Ico cpSrcStr (cpSrcStr + 50)) (Set.Ico srcStr (srcStr + len + 1))
  cp_ret : Disjoint (Set.Ico cpSrcStr (cpSrcStr + 50)) (Set.Ico retStr (retStr + 30))
  src_ret : Disjoint (Set.Ico srcStr (srcStr + len + 1)) (Set.Ico retStr (retStr + 30))

/-- The result holds the `n`-th field, or what it held before; nothing else has changed but the
copy. -/
structure Extracted (msg : CString) (l : Layout msg.length) (n : ℕ) (mem mem' : Memory) : Prop where
  present : ∀ f, (messageFields msg)[n]? = some f → StringAt mem' l.retStr f.bytes ∧
    Set.EqOn mem' mem (Set.Ico (l.retStr + f.length + 1) (l.retStr + 30))
  missing : (messageFields msg)[n]? = none → Set.EqOn mem' mem (Set.Ico l.retStr (l.retStr + 30))
  source : Set.EqOn mem' mem (Set.Ico l.srcStr (l.srcStr + msg.length + 1))
  elsewhere : Set.EqOn mem' mem (Set.Ico l.cpSrcStr (l.cpSrcStr + 50) ∪
    Set.Ico l.retStr (l.retStr + 30))ᶜ

theorem delim_nul : delim 0 = false := rfl

section Loop

variable {n fuel lo hi : ℕ} {t : Token} {r : Option (List UInt8) × SavePtr UInt8}

/-- After `index` rounds the tokenizer stands where as many further calls on the list do. -/
structure Turned (n lo hi : ℕ) (t : Token) (r : Option (List UInt8) × SavePtr UInt8)
    (locals : ℕ × Token) : Prop where
  index_le : locals.1 ≤ n
  represents : Represents lo hi locals.2 (strtokAgain delim locals.1 r)
  unchanged : Set.EqOn locals.2.mem t.mem (Set.Ico lo hi)ᶜ

theorem Turned.next {locals : ℕ × Token} (h : Turned n lo hi t r locals) (hfuel : hi < lo + fuel)
    (hmore : (locals.1 != n) = true) :
    ∃ locals', nextToken fuel locals = some locals' ∧ Turned n lo hi t r locals' ∧
      n - locals'.1 < n - locals.1 := by
  obtain ⟨index, temp⟩ := locals
  obtain ⟨hle, hrep, hsame⟩ := h
  have hlt : index < n := lt_of_le_of_ne hle (by simpa using hmore)
  obtain ⟨temp', hcall, hrep', hsame'⟩ := strtok_null_represents delim_nul hrep hfuel
  refine ⟨(index + 1, temp'), ?_, ⟨hlt, ?_, hsame'.trans hsame⟩, Nat.sub_succ_lt_self n index hlt⟩
  · rw [nextToken, hcall]
    rfl
  · rw [strtokAgain_succ]
    exact hrep'

/-- The loop ends after `n` rounds. -/
theorem whileLoop_nextToken (h : Represents lo hi t r) (hfuel : hi < lo + fuel) (hn : n < fuel) :
    ∃ temp, whileLoop (fun l => l.1 != n) (nextToken fuel) fuel (0, t) = some (n, temp) ∧
      Represents lo hi temp (strtokAgain delim n r) ∧
      Set.EqOn temp.mem t.mem (Set.Ico lo hi)ᶜ := by
  have hstart : Turned n lo hi t r (0, t) := ⟨Nat.zero_le n, h, Set.eqOn_refl _ _⟩
  obtain ⟨⟨index, temp⟩, hrun, ⟨-, hrep, hsame⟩, hend⟩ :=
    whileLoop_ends (fun locals => n - locals.1) (fun _ hl hc => hl.next hfuel hc) hstart
      (lt_of_le_of_lt (Nat.sub_le n 0) hn)
  obtain rfl : index = n := by simpa using hend
  exact ⟨temp, hrun, hrep, hsame⟩

end Loop

theorem deliver_some {mem : Memory} {p fuel : ℕ} {f : List UInt8} (h : StringAt mem p f)
    (hfuel : f.length < fuel) (retStr : ℕ) (last : Option ℕ) :
    ∃ mem', deliver fuel retStr ⟨some p, mem, last⟩ = some (mem', last) ∧
      StringAt mem' retStr f ∧ Set.EqOn mem' mem (Set.Ico retStr (retStr + f.length + 1))ᶜ := by
  obtain ⟨mem', hcopy, hstring, hsame⟩ := sprintf_of_stringAt h retStr hfuel
  refine ⟨mem', ?_, hstring, hsame⟩
  change (sprintf fuel mem retStr p).bind _ = _
  rw [hcopy]
  rfl

section Run

variable {msg : CString} (l : Layout msg.length) {mem : Memory} {n fuel : ℕ}

theorem exists_token (hlen : msg.length ≤ 49) (hsrc : StringAt mem l.srcStr msg.bytes)
    (hfuel : 50 ≤ fuel) (hn : n < fuel) :
    ∃ temp : Token,
      (∀ last, getStrtokString fuel l.cpSrcStr l.srcStr n l.retStr mem last =
        deliver fuel l.retStr temp) ∧
      Option.Rel (fun p f => StringAt temp.mem p f ∧ f.length ≤ 49) temp.ptr
        (fields delim msg.bytes)[n]? ∧
      Set.EqOn temp.mem mem (Set.Ico l.cpSrcStr (l.cpSrcStr + 50))ᶜ := by
  have hbytes : msg.bytes.length ≤ 49 := hlen
  have hpatience : msg.bytes.length < fuel := by omega
  obtain ⟨mem₁, hcopy, hstring, hsame₁⟩ := sprintf_of_stringAt hsrc l.cpSrcStr hpatience
  obtain ⟨first, hfirst, hrep, hsame₂⟩ :=
    strtok_represents delim_nul hstring le_rfl rfl hpatience none none
  obtain ⟨temp, hloop, hrep', hsame₃⟩ := whileLoop_nextToken hrep (by omega) hn
  have hfield := hrep'.token
  rw [strtokAgain_spec] at hfield
  refine ⟨temp, ?_, ?_, ?_⟩
  · intro last
    rw [getStrtokString, hcopy]
    change (strtok fuel delim (some l.cpSrcStr) mem₁ none).bind _ = _
    rw [hfirst, Option.bind_some, hloop]
    rfl
  · obtain ⟨ptr, mem₂, save⟩ := temp
    generalize (fields delim msg.bytes)[n]? = field at hfield ⊢
    cases hfield with
    | none => exact .none
    | some h => exact .some ⟨h.1, by omega⟩
  · have hcp : Set.Ico l.cpSrcStr (l.cpSrcStr + msg.bytes.length) ⊆
        Set.Ico l.cpSrcStr (l.cpSrcStr + 50) := Set.Ico_subset_Ico_right (by omega)
    have hcp' : Set.Ico l.cpSrcStr (l.cpSrcStr + msg.bytes.length + 1) ⊆
        Set.Ico l.cpSrcStr (l.cpSrcStr + 50) := Set.Ico_subset_Ico_right (by omega)
    have hcut := (hsame₃.trans hsame₂).mono (Set.compl_subset_compl.mpr hcp)
    exact hcut.trans (hsame₁.mono (Set.compl_subset_compl.mpr hcp'))

theorem extracted_missing {mem' : Memory} (h : (messageFields msg)[n]? = none)
    (hsame : Set.EqOn mem' mem (Set.Ico l.cpSrcStr (l.cpSrcStr + 50))ᶜ) :
    Extracted msg l n mem mem' where
  present := by
    intro f hf
    rw [h] at hf
    cases hf
  missing := fun _ => hsame.mono l.cp_ret.symm.subset_compl_right
  source := hsame.mono l.cp_src.symm.subset_compl_right
  elsewhere := hsame.mono (Set.compl_subset_compl.mpr Set.subset_union_left)

theorem extracted_present {mem₁ mem' : Memory} {f : CString} (h : (messageFields msg)[n]? = some f)
    (hlen : f.length ≤ 29) (hstring : StringAt mem' l.retStr f.bytes)
    (hcp : Set.EqOn mem₁ mem (Set.Ico l.cpSrcStr (l.cpSrcStr + 50))ᶜ)
    (hret : Set.EqOn mem' mem₁ (Set.Ico l.retStr (l.retStr + f.length + 1))ᶜ) :
    Extracted msg l n mem mem' := by
  have hin : Set.Ico l.retStr (l.retStr + f.length + 1) ⊆ Set.Ico l.retStr (l.retStr + 30) :=
    Set.Ico_subset_Ico_right (by omega)
  have hout : Set.EqOn mem' mem₁ (Set.Ico l.retStr (l.retStr + 30))ᶜ :=
    hret.mono (Set.compl_subset_compl.mpr hin)
  refine ⟨?_, ?_, ?_, ?_⟩
  · intro g hg
    obtain rfl : f = g := Option.some.inj (h.symm.trans hg)
    refine ⟨hstring, ?_⟩
    intro q hq
    have hbehind : q ∉ Set.Ico l.retStr (l.retStr + f.length + 1) := fun hq' => by
      have hlt := hq'.2
      have hle := hq.1
      omega
    have hinside : q ∈ Set.Ico l.retStr (l.retStr + 30) := ⟨by have := hq.1; omega, hq.2⟩
    exact (hret hbehind).trans (hcp (l.cp_ret.symm.subset_compl_right hinside))
  · intro hnone
    rw [h] at hnone
    cases hnone
  · exact (hout.mono l.src_ret.subset_compl_right).trans
      (hcp.mono l.cp_src.symm.subset_compl_right)
  · rw [Set.compl_union]
    exact (hout.mono Set.inter_subset_right).trans (hcp.mono Set.inter_subset_left)

/-- The call returns, and the result is the `n`-th field whatever earlier calls have done. -/
theorem getStrtokString_exact (hlen : msg.length ≤ 49) (hsrc : StringAt mem l.srcStr msg.bytes)
    (hfuel : 50 ≤ fuel) (hn : n < fuel) :
    ∃ mem' last', (∀ last, getStrtokString fuel l.cpSrcStr l.srcStr n l.retStr mem last =
        some (mem', last')) ∧
      ((∀ f, (messageFields msg)[n]? = some f → f.length ≤ 29) → Extracted msg l n mem mem') := by
  obtain ⟨⟨ptr, mem₁, last'⟩, hrun, hfield, hsame⟩ := exists_token l hlen hsrc hfuel hn
  cases hf : (fields delim msg.bytes)[n]? with
  | none =>
      rw [hf] at hfield
      have hnone := messageFields_eq_none.mpr hf
      cases hfield with
      | none => exact ⟨mem₁, last', hrun, fun _ => extracted_missing l hnone hsame⟩
  | some f =>
      rw [hf] at hfield
      cases hfield with
      | @some p _ h =>
          obtain ⟨hstring, hle⟩ := h
          have hpatience : f.length < fuel := by omega
          obtain ⟨mem', hdeliver, hstring', hsame'⟩ :=
            deliver_some hstring hpatience l.retStr last'
          have hfield : (messageFields msg)[n]? = some (CString.text f) :=
            messageFields_eq_some.mpr ⟨f, hf, rfl⟩
          have htext : (CString.text f).bytes = f := CString.bytes_text hstring.noNul
          have hlength : (CString.text f).length = f.length := congrArg List.length htext
          refine ⟨mem', last', fun last => (hrun last).trans hdeliver, fun hfits => ?_⟩
          apply extracted_present l hfield (hfits _ hfield) _ hsame
          · rwa [hlength]
          · rwa [htext]

end Run

section Sample

def stored (msg : CString) : Memory := fun p => (msg.bytes[p - 100]?).getD 0

theorem getStrtokString_sample :
    ∃ mem' last', (∀ last, getStrtokString 50 0 100 1 200 (stored (CString.ofString ",ab,,cd"))
        last = some (mem', last')) ∧
      StringAt mem' 200 (CString.ofString "cd").bytes ∧
      StringAt mem' 100 (CString.ofString ",ab,,cd").bytes := by
  have hlen : (CString.ofString ",ab,,cd").length = 7 := by decide
  have hsrc : StringAt (stored (CString.ofString ",ab,,cd")) 100
      (CString.ofString ",ab,,cd").bytes := ⟨by decide, (CString.ofString ",ab,,cd").no_nul⟩
  have hsecond : (messageFields (CString.ofString ",ab,,cd"))[1]? =
      some (CString.ofString "cd") := by decide
  obtain ⟨mem', last', hrun, hextracted⟩ := getStrtokString_exact
    ⟨0, 100, 200, by simp [hlen], by simp, by simp [hlen]⟩ (by decide) hsrc le_rfl
    (by decide : 1 < 50)
  have h := hextracted (by
    intro f hf
    obtain rfl : CString.ofString "cd" = f := Option.some.inj (hsecond.symm.trans hf)
    decide)
  exact ⟨mem', last', hrun, (h.present _ hsecond).1, hsrc.of_eqOn h.source Set.Subset.rfl⟩

end Sample

section Refinement

variable {msg : CString} {l : Layout msg.length} {mem mem' : Memory} {n : ℕ} {ret ret' : Buf 30}

/-- The array that the function on lists returns is the one in memory. -/
theorem Extracted.holds (h : Extracted msg l n mem mem') (hlen : msg.length ≤ 49)
    (hret : Holds mem l.retStr ret.bytes) {last last' : Last}
    (hrun : GetSettings.getStrtokString last msg n ret = .ok (ret', last')) :
    Holds mem' l.retStr ret'.bytes := by
  have hsize : ret.bytes.length = 30 := ret.size_eq
  cases hf : (messageFields msg)[n]? with
  | none =>
      obtain ⟨_, hpure⟩ := getStrtokString_missing last msg n ret (by omega) hf
      obtain ⟨rfl, -⟩ := Prod.ext_iff.mp (Except.ok.inj (hpure.symm.trans hrun))
      exact hret.of_eqOn (h.missing hf) (by rw [hsize])
  | some f =>
      obtain ⟨_, hpure⟩ := getStrtokString_present last msg n ret (by omega) hf
      rw [hpure] at hrun
      by_cases hlen' : f.length < 30
      · have hcount : (f.bytes ++ [0]).length = f.length + 1 := List.length_append
        obtain ⟨row, hrow, hbytes⟩ := ret.store_of_le (hcount.trans_le hlen')
        rw [Buf.sprintf, hrow] at hrun
        obtain ⟨rfl, -⟩ := Prod.ext_iff.mp (Except.ok.inj hrun)
        obtain ⟨hstring, hrest⟩ := h.present f hf
        have hbehind := hret.drop (by omega : f.length + 1 ≤ ret.bytes.length)
        rw [hbytes, holds_append, hcount]
        refine ⟨hstring.holds, hbehind.of_eqOn hrest ?_⟩
        rw [List.length_drop, hsize]
        exact Set.Ico_subset_Ico (by omega) (by omega)
      · rw [Buf.sprintf_of_le _ (by omega)] at hrun
        cases hrun

end Refinement
end SnifferStaSend.FieldExtraction
