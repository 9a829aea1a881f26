import SnifferStaSend.EventTask
import SnifferStaSend.Printf
import SnifferStaSend.SockClient

/-!
# The Ethernet task

`eth_task` polls the interface. As long as `got_ip` is 0 a successful poll sets it to the first
octet, which is what the comma operator of `IP2STR` leaves, and then prints the address into
`ip_address`, one byte after the other. Between any two stores any other task may call
`isEthGotIp`, which returns `got_ip`, or take a step of its own `getIP`, which copies `ip_address`
up to its terminator.
-/

namespace SnifferStaSend.EthTask
open CLib SockClient EventTask

/-- The result of `tcpip_adapter_get_ip_info`, 0 for success, and the address found. -/
structure Poll where
  err : Int32
  ip : UInt32

/-- `ip4_addr1_16` and the following: the first octet is the lowest byte. -/
def ipOctet (ip : UInt32) (i : ℕ) : ℕ := ip.toNat / 256 ^ i % 256

/-- `IPSTR` with `IP2STR(&ip)`. -/
def ipText (ip : UInt32) : List UInt8 :=
  format [.d (ipOctet ip 0), .text [46], .d (ipOctet ip 1), .text [46], .d (ipOctet ip 2),
    .text [46], .d (ipOctet ip 3)]

inductive Stmt
  | setGotIp (c : UInt8)
  | store (index : ℕ) (c : UInt8)
  deriving DecidableEq

/-- The stores of `sprintf`, from an index on. -/
def stores : ℕ → List UInt8 → List Stmt
  | _, [] => []
  | i, c :: bs => .store i c :: stores (i + 1) bs

/-- The two globals, what the task `r` has copied in a running `getIP` and what its calls of it
have returned, the latest first, and what all calls of `isEthGotIp` have returned. -/
structure State (ι : Type) where
  gotIp : UInt8
  ipAddress : Buf 20
  copied : ι → Option (List UInt8)
  returned : ι → List (List UInt8)
  answers : List UInt8
  overrun : Bool

/-- The task `r` calls `isEthGotIp` or `getIP`, or goes on with the latter. -/
inductive Reader (ι : Type)
  | isEthGotIp (r : ι)
  | getIP (r : ι)
  | copyByte (r : ι)

section Semantics

variable {ι : Type} [DecidableEq ι]

def State.initial : State ι := ⟨0, Buf.fill 20 0, fun _ => none, fun _ => [], [], false⟩

def exec (s : State ι) : Stmt → State ι
  | .setGotIp c => { s with gotIp := c }
  | .store index c =>
    match s.ipAddress.storeAt index [c] with
    | .ok ipAddress => { s with ipAddress := ipAddress }
    | .error _ => { s with overrun := true }

/-- `sprintf(ret_ip, "%s", ip_address)` reads on until it meets a NUL. -/
def copyByte (s : State ι) (r : ι) (copied : List UInt8) : State ι :=
  match s.ipAddress.bytes[copied.length]? with
  | none => { s with overrun := true }
  | some c =>
    if c = 0 then
      { s with
        copied := Function.update s.copied r none
        returned := Function.update s.returned r (copied :: s.returned r) }
    else { s with copied := Function.update s.copied r (some (copied ++ [c])) }

/-- A task has one `getIP` at a time, and a step of it only while it is in one. -/
def interrupt (s : State ι) : Reader ι → State ι
  | .isEthGotIp _ => { s with answers := s.gotIp :: s.answers }
  | .getIP r =>
    if (s.copied r).isNone then { s with copied := Function.update s.copied r (some []) } else s
  | .copyByte r =>
    match s.copied r with
    | none => s
    | some copied => copyByte s r copied

def handler (s : State ι) (p : Poll) : List Stmt :=
  if p.err = 0 ∧ s.gotIp = 0 then
    .setGotIp (UInt8.ofNat (ipOctet p.ip 0)) :: stores 0 (ipText p.ip ++ [0])
  else []

def ethTask : EventTask (State ι) Stmt Poll (Reader ι) where
  handler := handler
  exec := exec
  interrupt := interrupt
  halted := State.overrun

abbrev Config (ι : Type) := EventTask.Config (State ι) Stmt

def start : Config ι := ⟨State.initial, []⟩

end Semantics

section Text

variable (ip : UInt32)

theorem ipOctet_lt (i : ℕ) : ipOctet ip i < 256 := Nat.mod_lt _ (by omega)

theorem length_octet (i : ℕ) : (numeral 10 false (ipOctet ip i)).length ≤ 3 := by
  apply length_numeral_le false (by omega) (by omega)
  have hlt := ipOctet_lt ip i
  omega

theorem ipText_eq : ipText ip = [46].intercalate
    ([ipOctet ip 0, ipOctet ip 1, ipOctet ip 2, ipOctet ip 3].map (numeral 10 false)) := by
  simp only [ipText, format, List.flatMap_cons, List.flatMap_nil, List.map_cons, List.map_nil,
    List.intercalate_cons_cons, List.intercalate_singleton, Piece.bytes_natCast,
    Piece.bytes_text, List.append_nil, List.append_assoc]

theorem length_ipText : (ipText ip).length ≤ 15 := by
  have h0 := length_octet ip 0
  have h1 := length_octet ip 1
  have h2 := length_octet ip 2
  have h3 := length_octet ip 3
  simp only [ipText, format, List.flatMap_cons, List.flatMap_nil, Piece.bytes_natCast,
    Piece.bytes_text, List.length_append, List.length_cons, List.length_nil]
  omega

theorem mem_ipText {c : UInt8} (hc : c ∈ ipText ip) : c = 46 ∨ isdigit c = true := by
  simp only [ipText, format, List.flatMap_cons, List.flatMap_nil, Piece.bytes_natCast,
    Piece.bytes_text, List.mem_append, List.mem_singleton, List.not_mem_nil, or_false] at hc
  rcases hc with h | h | h | h | h | h | h
  · exact Or.inr (isdigit_of_mem_numeral c h)
  · exact Or.inl h
  · exact Or.inr (isdigit_of_mem_numeral c h)
  · exact Or.inl h
  · exact Or.inr (isdigit_of_mem_numeral c h)
  · exact Or.inl h
  · exact Or.inr (isdigit_of_mem_numeral c h)

theorem nul_not_mem_ipText : 0 ∉ ipText ip := by
  intro h
  rcases mem_ipText ip h with h | h
  · cases h
  · revert h
    decide

/-- The value of the octets, the first one in the lowest byte. -/
def quadValue (a b c d : ℕ) : UInt32 := UInt32.ofNat (a + 256 * b + 65536 * c + 16777216 * d)

/-- What is documented of `inet_pton` for `AF_INET`: it takes four decimal numbers up to 255, one
after the other with dots between them, as the bytes of an address in this order. -/
def ReadsQuads (inetPton : CString → Option UInt32) : Prop :=
  ∀ a b c d : ℕ, a < 256 → b < 256 → c < 256 → d < 256 → ∀ text : CString,
    text.bytes = [46].intercalate ([a, b, c, d].map (numeral 10 false)) →
      inetPton text = some (quadValue a b c d)

theorem inetPton_ipText {inetPton : CString → Option UInt32} (hinet : ReadsQuads inetPton) :
    inetPton ⟨ipText ip, nul_not_mem_ipText ip⟩ = some ip := by
  have hvalue : ipOctet ip 0 + 256 * ipOctet ip 1 + 65536 * ipOctet ip 2 +
      16777216 * ipOctet ip 3 = ip.toNat := by
    have hlt := ip.toNat_lt
    simp only [ipOctet]
    omega
  rw [hinet _ _ _ _ (ipOctet_lt ip 0) (ipOctet_lt ip 1) (ipOctet_lt ip 2) (ipOctet_lt ip 3) _
    (ipText_eq ip), quadValue, hvalue, UInt32.ofNat_toNat]

theorem octet_numeral {n : ℕ} (hn : n < 256) : octet (numeral 10 false n) = some n := by
  have hlength : (numeral 10 false n).length ≤ 3 :=
    length_numeral_le false (by omega) (by omega) (by omega)
  have hdigits : (numeral 10 false n).all isdigit = true :=
    List.all_eq_true.mpr isdigit_of_mem_numeral
  rw [octet, if_pos ⟨numeral_ne_nil false (by omega), hlength, hdigits,
    by rw [digitsValue_numeral]; omega⟩, digitsValue_numeral]

theorem readsQuads_dottedQuad : ReadsQuads dottedQuad := by
  intro a b c d ha hb hc hd text htext
  have hsplit : text.bytes.splitOn 46 = [a, b, c, d].map (numeral 10 false) := by
    rw [htext]
    apply List.splitOn_intercalate 46 _ (by simp)
    intro l hl hdot
    obtain ⟨n, -, rfl⟩ := List.mem_map.mp hl
    have hdigit := isdigit_of_mem_numeral 46 hdot
    revert hdigit
    decide
  have hoctets : (text.bytes.splitOnP (· == 46)).map octet =
      [some a, some b, some c, some d] := by
    rw [← List.splitOn_eq_splitOnP, hsplit]
    simp only [List.map_cons, List.map_nil, octet_numeral ha, octet_numeral hb, octet_numeral hc,
      octet_numeral hd]
  rw [dottedQuad, hoctets]
  rfl

end Text

def firstOctet (found : Option UInt32) : ℕ := found.elim 0 (fun ip => ipOctet ip 0)

def note (found : Option UInt32) (p : Poll) : Option UInt32 :=
  if p.err = 0 ∧ firstOctet found = 0 then some p.ip else found

def address (ps : List Poll) : Option UInt32 := ps.foldl note none

def Poll.latches (p : Poll) : Bool := p.err == 0 && ipOctet p.ip 0 != 0

/-- The address of the first such poll. -/
def latched (ps : List Poll) : Option UInt32 := (ps.find? Poll.latches).map Poll.ip

section Latch

theorem address_concat (ps : List Poll) (p : Poll) : address (ps ++ [p]) = note (address ps) p := by
  simp [address]

theorem latched_concat (ps : List Poll) (p : Poll) :
    latched (ps ++ [p]) = (latched ps).or (if p.latches then some p.ip else none) := by
  rw [latched, List.find?_append, latched]
  cases h : ps.find? Poll.latches with
  | some q => rfl
  | none => cases hp : p.latches <;> simp [hp]

/-- The polls have found no octet but 0, or the address of the first poll that did. -/
theorem address_cases (ps : List Poll) : (latched ps = none ∧ firstOctet (address ps) = 0) ∨
    ∃ ip, latched ps = some ip ∧ address ps = some ip ∧ ipOctet ip 0 ≠ 0 := by
  induction ps using List.reverseRecOn with
  | nil => exact Or.inl ⟨rfl, rfl⟩
  | append_singleton ps p ih =>
      rw [address_concat, latched_concat]
      rcases ih with ⟨hnone, hzero⟩ | ⟨ip, hsome, haddr, hne⟩
      · rw [hnone, Option.none_or]
        by_cases herr : p.err = 0
        · have hnote : note (address ps) p = some p.ip := if_pos ⟨herr, hzero⟩
          rw [hnote]
          by_cases hoctet : ipOctet p.ip 0 = 0
          · have hlatch : p.latches = false := by simp [Poll.latches, hoctet]
            exact Or.inl ⟨by simp [hlatch], hoctet⟩
          · have hlatch : p.latches = true := by simp [Poll.latches, herr, hoctet]
            exact Or.inr ⟨p.ip, if_pos hlatch, rfl, hoctet⟩
        · have hnote : note (address ps) p = address ps := if_neg (fun hboth => herr hboth.1)
          have hlatch : p.latches = false := by simp [Poll.latches, herr]
          exact Or.inl ⟨by simp [hlatch], by rw [hnote]; exact hzero⟩
      · have hfirst : firstOctet (address ps) = ipOctet ip 0 := by
          rw [haddr]
          rfl
        have hnote : note (address ps) p = address ps :=
          if_neg (fun hboth => hne (hfirst.symm.trans hboth.2))
        rw [hsome, hnote, haddr]
        exact Or.inr ⟨ip, rfl, rfl, hne⟩

end Latch

section Invariant

variable {ι : Type}

/-- How far the task has come with the address found so far. -/
inductive Stage : Option UInt32 → Config ι → Prop
  | searching (s : State ι) : s.gotIp = 0 → Stage none ⟨s, []⟩
  | found (ip : UInt32) (s : State ι) : s.gotIp = 0 → Stage (some ip)
      ⟨s, .setGotIp (UInt8.ofNat (ipOctet ip 0)) :: stores 0 (ipText ip ++ [0])⟩
  | printing (ip : UInt32) (s : State ι) (stored rest : List UInt8) :
      s.gotIp = UInt8.ofNat (ipOctet ip 0) → stored ++ rest = ipText ip ++ [0] →
      stored <+: s.ipAddress.bytes → Stage (some ip) ⟨s, stores stored.length rest⟩

def Short (copied : List UInt8) : Prop := copied.length ≤ 15 ∧ 0 ∉ copied

structure Inv (found : Option UInt32) (c : Config ι) : Prop where
  inside : c.state.overrun = false
  zeros : c.state.ipAddress.bytes.drop 15 = List.replicate 5 0
  copied : ∀ r, ∀ text ∈ c.state.copied r, Short text
  returned : ∀ r, ∀ text ∈ c.state.returned r, Short text
  answers : ∃ m n, c.state.answers = List.replicate m c.state.gotIp ++ List.replicate n 0
  stage : Stage found c

variable {found : Option UInt32} {s : State ι} {st : Stmt} {rest : List Stmt}

theorem stores_eq_nil {i : ℕ} {bs : List UInt8} (h : stores i bs = []) : bs = [] := by
  cases bs with
  | nil => rfl
  | cons c bs => cases h

theorem Stage.idle (h : Stage found ⟨s, []⟩) : s.gotIp = UInt8.ofNat (firstOctet found) ∧
    ∀ ip ∈ found, ipText ip ++ [0] <+: s.ipAddress.bytes := by
  generalize hc : (⟨s, []⟩ : Config ι) = c at h
  cases h with
  | searching s' hgot =>
      cases hc
      exact ⟨hgot, by simp⟩
  | found ip s' hgot => cases hc
  | printing ip s' stored rest hgot htext hstored =>
      obtain ⟨rfl, hrest⟩ := EventTask.Config.mk.inj hc
      obtain rfl := stores_eq_nil hrest.symm
      rw [List.append_nil] at htext
      refine ⟨hgot, ?_⟩
      intro ip' hip'
      obtain rfl := Option.mem_some_iff.mp hip'
      rwa [← htext]

theorem ofNat_octet_eq_zero {n : ℕ} (hn : n < 256) : UInt8.ofNat n = 0 ↔ n = 0 := by
  rw [← UInt8.toNat_inj, UInt8.toNat_ofNat', Nat.mod_eq_of_lt hn]
  rfl

theorem firstOctet_lt (found : Option UInt32) : firstOctet found < 256 := by
  cases found with
  | none => exact Nat.zero_lt_succ _
  | some ip => exact ipOctet_lt ip 0

theorem Stage.event (h : Stage found ⟨s, []⟩) (p : Poll) :
    Stage (note found p) ⟨s, handler s p⟩ := by
  have hgot := h.idle.1
  have hzero : s.gotIp = 0 ↔ firstOctet found = 0 := by
    rw [hgot]
    exact ofNat_octet_eq_zero (firstOctet_lt found)
  by_cases hsearch : p.err = 0 ∧ s.gotIp = 0
  · rw [note, if_pos ⟨hsearch.1, hzero.mp hsearch.2⟩, handler, if_pos hsearch]
    exact .found p.ip s hsearch.2
  · rw [note, if_neg (fun hboth => hsearch ⟨hboth.1, hzero.mpr hboth.2⟩), handler, if_neg hsearch]
    exact h

/-- A store lands inside the array, and the last five bytes stay 0. -/
theorem exec_store {ip : UInt32} {stored bs : List UInt8} {c : UInt8}
    (htext : stored ++ c :: bs = ipText ip ++ [0]) (hstored : stored <+: s.ipAddress.bytes)
    (hzeros : s.ipAddress.bytes.drop 15 = List.replicate 5 0) :
    ∃ b : Buf 20, exec s (.store stored.length c) = { s with ipAddress := b } ∧
      stored ++ [c] <+: b.bytes ∧ b.bytes.drop 15 = List.replicate 5 0 := by
  have hlen := length_ipText ip
  have hlengths := congrArg List.length htext
  rw [List.length_append, List.length_append, List.length_cons, List.length_singleton] at hlengths
  have hfits : stored.length + [c].length ≤ 20 := by
    rw [List.length_singleton]
    omega
  obtain ⟨b, hb, hlonger, hsame⟩ := s.ipAddress.storeAt_of_prefix hstored hfits
  rw [List.length_singleton] at hsame
  refine ⟨b, ?_, hlonger, ?_⟩
  · rw [exec, hb]
  · by_cases hshort : stored.length < 15
    · have hdrop (l : List UInt8) :
          l.drop 15 = (l.drop (stored.length + 1)).drop (14 - stored.length) := by
        rw [List.drop_drop]
        congr 1
        omega
      rw [hdrop, hsame, ← hdrop, hzeros]
    · -- the terminator of the longest address
      have hlast : stored.length = 15 := by omega
      obtain rfl : bs = [] := List.length_eq_zero_iff.mp (by omega)
      obtain rfl : c = 0 := by
        have hget := congrArg List.getLast? htext
        rw [List.getLast?_append, List.getLast?_append] at hget
        simpa using hget
      obtain ⟨tail, htail⟩ := hlonger
      have hbytes : b.bytes.drop 15 = 0 :: tail := by
        rw [← htail, List.append_assoc, ← hlast, List.drop_left]
        rfl
      have hrest : b.bytes.drop 16 = tail := by
        rw [← htail, List.drop_left' (by simp [hlast])]
      rw [hlast] at hsame
      have hfour : s.ipAddress.bytes.drop 16 = List.replicate 4 0 := by
        rw [show 16 = 15 + 1 by rfl, ← List.drop_drop, hzeros]
        rfl
      rw [hbytes, ← hrest, hsame, hfour]
      rfl

theorem Inv.advance (h : Inv found ⟨s, st :: rest⟩) : Inv found ⟨exec s st, rest⟩ := by
  obtain ⟨hin, hzeros, hcopied, hreturned, hanswers, hstage⟩ := h
  generalize hc : (⟨s, st :: rest⟩ : Config ι) = c at hstage
  cases hstage with
  | searching s' hgot => cases hc
  | found ip s' hgot =>
      cases hc
      have hzeroAnswers : ∃ n, s.answers = List.replicate n 0 := by
        obtain ⟨m, n, heq⟩ := hanswers
        refine ⟨m + n, heq.trans ?_⟩
        rw [hgot, List.replicate_append_replicate]
      obtain ⟨n, heq⟩ := hzeroAnswers
      exact ⟨hin, hzeros, hcopied, hreturned, ⟨0, n, heq⟩,
        .printing ip _ [] _ rfl rfl (List.nil_prefix)⟩
  | printing ip s' stored bs hgot htext hstored =>
      cases bs with
      | nil => cases hc
      | cons c bs =>
          obtain ⟨rfl, hpending⟩ := EventTask.Config.mk.inj hc
          obtain ⟨rfl, rfl⟩ := List.cons.inj hpending
          obtain ⟨b, hexec, hlonger, hzeros'⟩ := exec_store htext hstored hzeros
          rw [hexec]
          refine ⟨hin, hzeros', hcopied, hreturned, hanswers, ?_⟩
          have hlen : stored.length + 1 = (stored ++ [c]).length := by
            rw [List.length_append, List.length_singleton]
          rw [hlen]
          exact .printing ip _ (stored ++ [c]) bs hgot (by rw [List.append_assoc]; exact htext)
            hlonger

theorem Stage.of_same {s' : State ι} {pending : List Stmt} (h : Stage found ⟨s, pending⟩)
    (hgot : s'.gotIp = s.gotIp) (haddr : s'.ipAddress = s.ipAddress) :
    Stage found ⟨s', pending⟩ := by
  generalize hc : (⟨s, pending⟩ : Config ι) = c at h
  cases h with
  | searching t ht =>
      cases hc
      exact .searching s' (hgot.trans ht)
  | found ip t ht =>
      cases hc
      exact .found ip s' (hgot.trans ht)
  | printing ip t stored bs ht htext hstored =>
      cases hc
      exact .printing ip s' stored bs (hgot.trans ht) htext (haddr ▸ hstored)

theorem inv_start : Inv none (start : Config ι) where
  inside := rfl
  zeros := rfl
  copied := fun _ _ htext => absurd htext (Option.not_mem_none _)
  returned := fun _ _ htext => absurd htext List.not_mem_nil
  answers := ⟨0, 0, rfl⟩
  stage := .searching _ rfl

variable [DecidableEq ι]

theorem Inv.copyByte {pending : List Stmt} {r : ι} {copied : List UInt8}
    (h : Inv found ⟨s, pending⟩) (hcopied : s.copied r = some copied) :
    Inv found ⟨copyByte s r copied, pending⟩ := by
  obtain ⟨hin, hzeros, hshort, hreturned, hanswers, hstage⟩ := h
  obtain ⟨hlen, hnul⟩ : Short copied := hshort r copied hcopied
  have hlt : copied.length < s.ipAddress.bytes.length := by
    rw [s.ipAddress.size_eq]
    omega
  have hget := List.getElem?_eq_getElem hlt
  rw [EthTask.copyByte, hget]
  dsimp only
  by_cases hend : s.ipAddress.bytes[copied.length] = 0
  · rw [if_pos hend]
    refine ⟨hin, hzeros, ?_, ?_, hanswers, hstage.of_same rfl rfl⟩
    · refine (Function.forall_update_iff s.copied fun _ c => ∀ text ∈ c, Short text).mpr ?_
      exact ⟨by simp, fun r' _ => hshort r'⟩
    · refine (Function.forall_update_iff s.returned fun _ l => ∀ text ∈ l, Short text).mpr ?_
      exact ⟨List.forall_mem_cons.mpr ⟨⟨hlen, hnul⟩, hreturned r⟩, fun r' _ => hreturned r'⟩
  · rw [if_neg hend]
    have hbefore : copied.length ≠ 15 := by
      intro hlast
      have hfirst := congrArg List.head? hzeros
      rw [List.head?_drop, ← hlast, hget] at hfirst
      exact hend (Option.some.inj hfirst)
    refine ⟨hin, hzeros, ?_, hreturned, hanswers, hstage.of_same rfl rfl⟩
    refine (Function.forall_update_iff s.copied fun _ c => ∀ text ∈ c, Short text).mpr
      ⟨?_, fun r' _ => hshort r'⟩
    intro text htext
    obtain rfl := Option.mem_some_iff.mp htext
    constructor
    · rw [List.length_append, List.length_singleton]
      omega
    · rw [List.mem_append, List.mem_singleton, not_or]
      exact ⟨hnul, fun h0 => hend h0.symm⟩

theorem Inv.interrupt {pending : List Stmt} (h : Inv found ⟨s, pending⟩) (x : Reader ι) :
    Inv found ⟨interrupt s x, pending⟩ := by
  cases x with
  | isEthGotIp r =>
      obtain ⟨m, n, hanswers⟩ := h.answers
      exact ⟨h.inside, h.zeros, h.copied, h.returned, ⟨m + 1, n, congrArg (s.gotIp :: ·) hanswers⟩,
        h.stage.of_same rfl rfl⟩
  | getIP r =>
      by_cases hidle : (s.copied r).isNone = true
      · rw [EthTask.interrupt, if_pos hidle]
        refine ⟨h.inside, h.zeros, ?_, h.returned, h.answers, h.stage.of_same rfl rfl⟩
        refine (Function.forall_update_iff s.copied fun _ c => ∀ text ∈ c, Short text).mpr
          ⟨?_, fun r' _ => h.copied r'⟩
        intro text htext
        obtain rfl := Option.mem_some_iff.mp htext
        exact ⟨Nat.zero_le 15, List.not_mem_nil⟩
      · rw [EthTask.interrupt, if_neg hidle]
        exact h
  | copyByte r =>
      cases hcopied : s.copied r with
      | none =>
          rw [EthTask.interrupt, hcopied]
          exact h
      | some copied =>
          rw [EthTask.interrupt, hcopied]
          exact h.copyByte hcopied

theorem inv_of_run {ls : List (Label Poll (Reader ι))} {c : Config ι}
    (hrun : run ethTask.step start ls = some c) : Inv (address (events ls)) c := by
  refine ethTask.invariant_of_run (P := fun ls c => Inv (address (events ls)) c) ?_ ?_ ?_
    inv_start hrun
  · intro ls s p _ h
    rw [events_append_event, address_concat]
    exact ⟨h.inside, h.zeros, h.copied, h.returned, h.answers, h.stage.event p⟩
  · intro ls s st rest _ h
    rw [events_append_advance]
    exact h.advance
  · intro ls s pending x _ h
    rw [events_append_interrupt]
    exact h.interrupt x

end Invariant

/-- Whatever the polls find and whenever `getIP` runs, no store and no read leaves `ip_address`,
and 16 bytes are room enough for what `getIP` writes. -/
theorem getIP_short {ι : Type} [DecidableEq ι] {ls : List (Label Poll (Reader ι))} {c : Config ι}
    (hrun : run ethTask.step start ls = some c) : c.state.overrun = false ∧
      ∀ r, ∀ text ∈ c.state.returned r, text.length < 16 ∧ 0 ∉ text := by
  have hinv := inv_of_run hrun
  refine ⟨hinv.inside, fun r text htext => ?_⟩
  obtain ⟨hlen, hnul⟩ := hinv.returned r text htext
  exact ⟨Nat.lt_succ_of_le hlen, hnul⟩

/-- Two tasks run `getIP`, one before the first of the stores and one behind it. -/
def tooEarly : List (Label Poll (Reader Bool)) :=
  [.event ⟨0, 0x0700000a⟩, .advance, .interrupt (.getIP false), .interrupt (.copyByte false),
    .advance, .interrupt (.getIP true), .interrupt (.copyByte true), .interrupt (.copyByte true)]

/-- `got_ip` is set before the address is there: nothing and 1 are all that is found of
10.0.0.7. -/
theorem getIP_short_tooEarly : ∃ c, run ethTask.step start tooEarly = some c ∧
    c.state.gotIp = 10 ∧ c.state.returned false = [[]] ∧ c.state.returned true = [[49]] ∧
      c.state.overrun = false ∧ ∀ r, ∀ text ∈ c.state.returned r, text.length < 16 ∧ 0 ∉ text := by
  have hrun : run ethTask.step start tooEarly = some _ := rfl
  exact ⟨_, hrun, rfl, rfl, rfl, getIP_short hrun⟩

theorem Inv.gotIp {ι : Type} {ps : List Poll} {c : Config ι} (h : Inv (address ps) c) :
    c.state.gotIp = 0 ∨
      ∃ ip, latched ps = some ip ∧ c.state.gotIp = UInt8.ofNat (ipOctet ip 0) := by
  by_cases hzero : c.state.gotIp = 0
  · exact Or.inl hzero
  · right
    have hstage := h.stage
    generalize hfound : address ps = found at hstage
    cases hstage with
    | searching s hgot => exact absurd hgot hzero
    | found ip s hgot => exact absurd hgot hzero
    | printing ip s stored rest hgot htext hstored =>
        rcases address_cases ps with ⟨-, hfirst⟩ | ⟨ip', hsome, haddr, -⟩
        · rw [hfound] at hfirst
          exact absurd (hgot.trans (congrArg UInt8.ofNat hfirst)) hzero
        · obtain rfl := Option.some.inj (haddr.symm.trans hfound)
          exact ⟨ip', hsome, hgot⟩

/-- Whoever waits by calling `isEthGotIp` until it is not 0: in every run the answers are first
0 and then, for good, the first octet of the address of the first poll that found one. -/
theorem isEthGotIp_answers {ι : Type} [DecidableEq ι] {ls : List (Label Poll (Reader ι))}
    {c : Config ι} (hrun : run ethTask.step start ls = some c) :
    ∃ m n, c.state.answers = List.replicate m c.state.gotIp ++ List.replicate n 0 ∧
      (c.state.gotIp = 0 ∨
        ∃ ip, latched (events ls) = some ip ∧ c.state.gotIp = UInt8.ofNat (ipOctet ip 0)) := by
  have hinv := inv_of_run hrun
  obtain ⟨m, n, hanswers⟩ := hinv.answers
  exact ⟨m, n, hanswers, hinv.gotIp⟩

/-- Asked before the poll, before the first of its stores and behind it. -/
def waiting : List (Label Poll (Reader Bool)) :=
  [.interrupt (.isEthGotIp true), .event ⟨0, 0x0700000a⟩, .interrupt (.isEthGotIp false), .advance,
    .interrupt (.isEthGotIp true)]

theorem isEthGotIp_answers_waiting : ∃ c, run ethTask.step start waiting = some c ∧
    c.state.answers = [10, 0, 0] ∧ ∃ ip, latched (events waiting) = some ip ∧
      c.state.gotIp = UInt8.ofNat (ipOctet ip 0) := by
  have hrun : run ethTask.step start waiting = some _ := rfl
  obtain ⟨m, n, -, hzero | hsome⟩ := isEthGotIp_answers hrun
  · cases hzero
  · exact ⟨_, hrun, rfl, hsome⟩

section Settled

variable {ι : Type} {ip : UInt32} {s₀ s : State ι}

/-- What a task has copied and returned since `s₀`: it is still in a `getIP` that it had begun, or
that one, if there was any, has returned and every other has returned the address. -/
inductive Later (ip : UInt32) (s₀ s : State ι) (r : ι) : Prop
  | still (hcopied : s.copied r ≠ none) (hbegun : s₀.copied r ≠ none)
      (hreturned : s.returned r = s₀.returned r)
  | fresh (hcopied : ∀ text ∈ s.copied r, text <+: ipText ip) (k : ℕ) (early : List (List UInt8))
      (hreturned : s.returned r = List.replicate k (ipText ip) ++ (early ++ s₀.returned r))
      (hearly : early.length ≤ 1) (hnone : s₀.copied r = none → early = [])

theorem Later.congr {s' : State ι} {r : ι} (h : Later ip s₀ s r)
    (hcopied : s'.copied r = s.copied r) (hreturned : s'.returned r = s.returned r) :
    Later ip s₀ s' r := by
  cases h with
  | still hc hbegun hr => exact .still (hcopied ▸ hc) hbegun (hreturned.trans hr)
  | fresh hc k early hr hearly hnone =>
      exact .fresh (hcopied ▸ hc) k early (hreturned.trans hr) hearly hnone

theorem Later.returned {r : ι} (h : Later ip s₀ s r) : ∃ k early,
    s.returned r = List.replicate k (ipText ip) ++ (early ++ s₀.returned r) ∧
      early.length ≤ 1 ∧ (s₀.copied r = none → early = []) := by
  cases h with
  | still hc hbegun hreturned => exact ⟨0, [], hreturned, Nat.zero_le 1, fun _ => rfl⟩
  | fresh hc k early hreturned hearly hnone => exact ⟨k, early, hreturned, hearly, hnone⟩

structure Settled (ip : UInt32) (s₀ : State ι) (c : Config ι) : Prop where
  idle : c.pending = []
  gotIp : c.state.gotIp = s₀.gotIp
  ipAddress : c.state.ipAddress = s₀.ipAddress
  later : ∀ r, Later ip s₀ c.state r

theorem getElem?_of_prefix {copied text bytes : List UInt8} (htext : text ++ [0] <+: bytes)
    (hnul : 0 ∉ text) (hcopied : copied <+: text) :
    (copied = text ∧ bytes[copied.length]? = some 0) ∨
      ∃ c, c ≠ 0 ∧ bytes[copied.length]? = some c ∧ copied ++ [c] <+: text := by
  obtain ⟨rest, rfl⟩ := hcopied
  obtain ⟨tail, rfl⟩ := htext
  cases rest with
  | nil => exact Or.inl ⟨(List.append_nil _).symm, by simp⟩
  | cons c rest =>
      have hne : c ≠ 0 := by
        rintro rfl
        exact hnul (List.mem_append_right _ List.mem_cons_self)
      refine Or.inr ⟨c, hne, by simp, rest, by rw [List.append_assoc]; rfl⟩

variable [DecidableEq ι]

theorem Later.copyByte {r : ι} {copied : List UInt8} (h : Later ip s₀ s r)
    (htext : ipText ip ++ [0] <+: s.ipAddress.bytes) (hcopied : s.copied r = some copied) :
    Later ip s₀ (copyByte s r copied) r := by
  cases h with
  | still hc hbegun hreturned =>
      rw [EthTask.copyByte]
      cases hget : s.ipAddress.bytes[copied.length]? with
      | none => exact .still hc hbegun hreturned
      | some c =>
          dsimp only
          by_cases hend : c = 0
          · rw [if_pos hend]
            refine .fresh (by simp) 0 [copied] (by simp [hreturned]) le_rfl
              (fun hnone => absurd hnone hbegun)
          · rw [if_neg hend]
            exact .still (by simp) hbegun hreturned
  | fresh hc k early hreturned hearly hnone =>
      rcases getElem?_of_prefix htext (nul_not_mem_ipText ip) (hc copied hcopied) with
        ⟨rfl, hget⟩ | ⟨c, hne, hget, hlonger⟩
      · rw [EthTask.copyByte, hget]
        refine .fresh (by simp) (k + 1) early ?_ hearly hnone
        simp [hreturned, List.replicate_succ]
      · rw [EthTask.copyByte, hget]
        dsimp only
        rw [if_neg hne]
        refine .fresh ?_ k early hreturned hearly hnone
        simpa using hlonger

theorem Later.copyByte_of_ne {r r' : ι} (h : Later ip s₀ s r') (hr : r' ≠ r)
    (copied : List UInt8) : Later ip s₀ (EthTask.copyByte s r copied) r' := by
  rw [EthTask.copyByte]
  cases s.ipAddress.bytes[copied.length]? with
  | none => exact h.congr rfl rfl
  | some c =>
      dsimp only
      split
      · exact h.congr (Function.update_of_ne hr _ _) (Function.update_of_ne hr _ _)
      · exact h.congr (Function.update_of_ne hr _ _) rfl

theorem Settled.interrupt (h : Settled ip s₀ ⟨s, []⟩)
    (htext : ipText ip ++ [0] <+: s₀.ipAddress.bytes) (x : Reader ι) :
    Settled ip s₀ ⟨interrupt s x, []⟩ := by
  cases x with
  | isEthGotIp r => exact ⟨rfl, h.gotIp, h.ipAddress, fun r' => (h.later r').congr rfl rfl⟩
  | getIP r =>
      by_cases hidle : (s.copied r).isNone = true
      · rw [EthTask.interrupt, if_pos hidle]
        refine ⟨rfl, h.gotIp, h.ipAddress, fun r' => ?_⟩
        by_cases hr : r' = r
        · subst hr
          cases h.later r' with
          | still hc hbegun hreturned => exact absurd (Option.isNone_iff_eq_none.mp hidle) hc
          | fresh hc k early hreturned hearly hnone =>
              exact .fresh (by simp) k early hreturned hearly hnone
        · exact (h.later r').congr (Function.update_of_ne hr _ _) rfl
      · rw [EthTask.interrupt, if_neg hidle]
        exact h
  | copyByte r =>
      cases hcopied : s.copied r with
      | none =>
          rw [EthTask.interrupt, hcopied]
          exact h
      | some copied =>
          rw [EthTask.interrupt, hcopied]
          have htext' : ipText ip ++ [0] <+: s.ipAddress.bytes := by
            rw [show s.ipAddress = s₀.ipAddress from h.ipAddress]
            exact htext
          have hglobals : (copyByte s r copied).gotIp = s.gotIp ∧
              (copyByte s r copied).ipAddress = s.ipAddress := by
            rw [EthTask.copyByte]
            split
            · exact ⟨rfl, rfl⟩
            · split <;> exact ⟨rfl, rfl⟩
          refine ⟨rfl, hglobals.1.trans h.gotIp, hglobals.2.trans h.ipAddress, fun r' => ?_⟩
          by_cases hr : r' = r
          · exact hr ▸ (h.later r).copyByte htext' hcopied
          · exact (h.later r').copyByte_of_ne hr copied

/-- Once latched, the address stays: the loop only goes on polling. -/
theorem settled_of_run {ms : List (Label Poll (Reader ι))} {c : Config ι} (hgot : s₀.gotIp ≠ 0)
    (htext : ipText ip ++ [0] <+: s₀.ipAddress.bytes)
    (hrun : run ethTask.step ⟨s₀, []⟩ ms = some c) : Settled ip s₀ c := by
  refine ethTask.invariant_of_run (P := fun _ c => Settled ip s₀ c) ?_ ?_ ?_ ?_ hrun
  · intro ls s p _ h
    have hdone : ethTask.handler s p = [] :=
      if_neg (fun hboth => hgot (h.gotIp.symm.trans hboth.2))
    exact ⟨hdone, h.gotIp, h.ipAddress, h.later⟩
  · intro ls s st rest _ h
    exact absurd h.idle (List.cons_ne_nil st rest)
  · intro ls s pending x _ h
    obtain rfl : pending = [] := h.idle
    exact h.interrupt htext x
  · refine ⟨rfl, rfl, rfl, fun r => ?_⟩
    by_cases hnone : s₀.copied r = none
    · exact .fresh (by simp [hnone]) 0 [] rfl (Nat.zero_le 1) (fun _ => rfl)
    · exact .still hnone hnone rfl

end Settled

/-- Between two polls `got_ip` tells whether some poll has found an address. It is that of the
first such poll, an `inet_pton` as documented reads it back from `ip_address`, and neither changes
again. Each task returns this text from all its later calls of `getIP`; only a call that it is in
already may return something else. -/
theorem latched_of_run {ι : Type} [DecidableEq ι] {inetPton : CString → Option UInt32}
    (hinet : ReadsQuads inetPton) {ls : List (Label Poll (Reader ι))} {s : State ι}
    (hrun : run ethTask.step start ls = some ⟨s, []⟩) :
    (s.gotIp = 0 ↔ latched (events ls) = none) ∧
      ∀ ip, latched (events ls) = some ip →
        (∃ text, s.ipAddress.str? = some text ∧ text.bytes = ipText ip ∧
          inetPton text = some ip) ∧
        ∀ ms c, run ethTask.step ⟨s, []⟩ ms = some c →
          c.pending = [] ∧ c.state.gotIp = s.gotIp ∧ c.state.ipAddress = s.ipAddress ∧
            ∀ r, ∃ k early,
              c.state.returned r = List.replicate k (ipText ip) ++ (early ++ s.returned r) ∧
                early.length ≤ 1 ∧ (s.copied r = none → early = []) := by
  obtain ⟨hgot, htext⟩ := (inv_of_run hrun).stage.idle
  have hzero : s.gotIp = 0 ↔ firstOctet (address (events ls)) = 0 := by
    rw [hgot]
    exact ofNat_octet_eq_zero (firstOctet_lt _)
  rcases address_cases (events ls) with ⟨hnone, hfirst⟩ | ⟨ip, hsome, haddr, hne⟩
  · rw [hnone]
    exact ⟨iff_of_true (hzero.mpr hfirst) rfl, fun ip hip => by cases hip⟩
  · have hset : s.gotIp ≠ 0 := by
      rw [Ne, hzero, haddr]
      exact hne
    rw [hsome]
    refine ⟨iff_of_false hset (Option.some_ne_none ip), ?_⟩
    intro ip' hip'
    obtain rfl := Option.some.inj hip'
    have hholds : ipText ip ++ [0] <+: s.ipAddress.bytes := htext ip haddr
    refine ⟨⟨⟨ipText ip, nul_not_mem_ipText ip⟩, ?_, rfl, inetPton_ipText ip hinet⟩, ?_⟩
    · apply Buf.Holds.str?
      obtain ⟨tail, htail⟩ := hholds
      exact ⟨tail, by rw [← htail, List.append_assoc]; rfl⟩
    · intro ms c hlater
      have hsettled := settled_of_run hset hholds hlater
      exact ⟨hsettled.idle, hsettled.gotIp, hsettled.ipAddress,
        fun r => (hsettled.later r).returned⟩

/-- A poll that fails, one that finds 10.0.0.7, and the whole handler, with a `getIP` of one task
in between. -/
def secondPoll : List (Label Poll (Reader Bool)) :=
  [.event ⟨-1, 0⟩, .event ⟨0, 0x0700000a⟩, .interrupt (.getIP true)] ++ List.replicate 10 .advance

/-- A third poll finds another address, and both tasks run `getIP`. -/
def thirdPoll : List (Label Poll (Reader Bool)) :=
  [.event ⟨0, 0x0900000a⟩, .interrupt (.getIP false)] ++
    List.replicate 9 (.interrupt (.copyByte false)) ++
    List.replicate 9 (.interrupt (.copyByte true))

theorem latched_secondPoll : ∃ s, run ethTask.step start secondPoll = some ⟨s, []⟩ ∧
    ¬ s.gotIp = 0 ∧
      (∃ text, s.ipAddress.str? = some text ∧ dottedQuad text = some 0x0700000a) ∧
      ∃ c, run ethTask.step ⟨s, []⟩ thirdPoll = some c ∧ c.state.ipAddress = s.ipAddress ∧
        c.state.returned false = [ipText 0x0700000a] := by
  have hrun : run ethTask.step start secondPoll = some ⟨_, []⟩ := rfl
  obtain ⟨hzero, hlatched⟩ := latched_of_run readsQuads_dottedQuad hrun
  obtain ⟨⟨text, hstr, -, hquad⟩, hlater⟩ := hlatched 0x0700000a rfl
  obtain ⟨-, -, haddr, -⟩ := hlater thirdPoll _ rfl
  exact ⟨_, hrun, mt hzero.mp (by decide), ⟨text, hstr, hquad⟩, _, rfl, haddr, by decide +kernel⟩

end SnifferStaSend.EthTask
