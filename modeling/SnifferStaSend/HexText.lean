import SnifferStaSend.Printf

/-!
# Digests and addresses in hexadecimal

`print_sha256` prints a digest byte by byte into its own array, each `sprintf` over the
terminator of the one before; `get_settings` prints the MAC address of the station into `msg`.
-/

namespace SnifferStaSend.HexText
open CLib

def hashLen : ℕ := 32

def printByte (imageHash : Buf hashLen) (hashPrint : Buf (hashLen * 2 + 1)) (i : ℕ) :
    Except Fault (Buf (hashLen * 2 + 1)) :=
  hashPrint.storeAt (i * 2) ((Piece.x02 false (imageHash.bytes.getD i 0).toNat).bytes ++ [0])

/-- What `hash_print` holds when it is logged; `hashPrint` is what the stack held there. -/
def printSha256 (imageHash : Buf hashLen) (hashPrint : Buf (hashLen * 2 + 1)) :
    Except Fault (Buf (hashLen * 2 + 1)) := do
  let hashPrint ← hashPrint.storeAt (hashLen * 2) [0]
  (List.range hashLen).foldlM (printByte imageHash) hashPrint

def macPieces (mac : Buf 6) : List Piece :=
  ((mac.bytes.map (fun c => Piece.x02 false c.toNat)).intersperse (.text [58]))

def getSettingsMsg (mac : Buf 6) : Except Fault (Buf 30) :=
  (Buf.fill 30 0).store (format (macPieces mac) ++ [0])

def hexText (bs : List UInt8) : List UInt8 :=
  bs.flatMap (fun c => (Piece.x02 false c.toNat).bytes)

section Loop

theorem length_hexText (bs : List UInt8) : (hexText bs).length = 2 * bs.length := by
  induction bs with
  | nil => rfl
  | cons c bs ih =>
      rw [hexText, List.flatMap_cons, List.length_append, x02_bytes, ← hexText, ih,
        List.length_cons]
      simp only [List.length_cons, List.length_nil]
      omega

theorem isxdigit_of_mem_hexText {bs : List UInt8} : ∀ x ∈ hexText bs, isxdigit x = true := by
  intro x hx
  obtain ⟨c, -, hmem⟩ := List.mem_flatMap.mp hx
  exact isxdigit_of_mem_x02 hmem

theorem nul_not_mem_hexText (bs : List UInt8) : 0 ∉ hexText bs := by
  intro h
  have hdigit := isxdigit_of_mem_hexText 0 h
  revert hdigit
  decide

variable (imageHash : Buf hashLen)

theorem printByte_step {b : Buf (hashLen * 2 + 1)} {i : ℕ} (hi : i < hashLen)
    (hb : hexText (imageHash.bytes.take i) <+: b.bytes) :
    ∃ c, printByte imageHash b i = .ok c ∧
      hexText (imageHash.bytes.take (i + 1)) ++ [0] <+: c.bytes := by
  have hlen : i < imageHash.bytes.length := by rwa [imageHash.size_eq]
  have hstart : (hexText (imageHash.bytes.take i)).length = i * 2 := by
    rw [length_hexText, List.length_take_of_le hlen.le, Nat.mul_comm]
  have hnext : hexText (imageHash.bytes.take (i + 1)) = hexText (imageHash.bytes.take i) ++
      (Piece.x02 false (imageHash.bytes.getD i 0).toNat).bytes := by
    rw [List.take_succ_eq_append_getElem hlen, hexText, List.flatMap_append,
      List.flatMap_singleton, List.getD_eq_getElem?_getD, List.getElem?_eq_getElem hlen]
    rfl
  have hfits : (hexText (imageHash.bytes.take i)).length +
      ((Piece.x02 false (imageHash.bytes.getD i 0).toNat).bytes ++ [0]).length ≤
        hashLen * 2 + 1 := by
    rw [hstart, x02_bytes]
    change i * 2 + 3 ≤ _
    omega
  obtain ⟨c, hc, hlonger, -⟩ := b.storeAt_of_prefix hb hfits
  rw [hstart] at hc
  refine ⟨c, hc, ?_⟩
  rwa [hnext, List.append_assoc]

theorem foldlM_printByte {k : ℕ} (hk : k ≤ hashLen) (b : Buf (hashLen * 2 + 1)) :
    ∃ c, (List.range k).foldlM (printByte imageHash) b = .ok c ∧
      hexText (imageHash.bytes.take k) <+: c.bytes ∧
        (0 < k → hexText (imageHash.bytes.take k) ++ [0] <+: c.bytes) := by
  induction k with
  | zero => exact ⟨b, rfl, List.nil_prefix, fun h => absurd h (lt_irrefl 0)⟩
  | succ k ih =>
      obtain ⟨c, hloop, htext, -⟩ := ih (Nat.le_of_succ_le hk)
      obtain ⟨d, hbody, hlonger⟩ := printByte_step imageHash hk htext
      refine ⟨d, ?_, (List.prefix_append _ _).trans hlonger, fun _ => hlonger⟩
      rw [List.range_succ, List.foldlM_append, hloop]
      change (List.foldlM (printByte imageHash) c [k]) = _
      rw [List.foldlM_cons, hbody]
      rfl

end Loop

/-- No digest makes `print_sha256` store past its array, and the text it logs has the 64 digits
of the digest and no others. -/
theorem printSha256_digits (imageHash : Buf hashLen) (hashPrint : Buf (hashLen * 2 + 1)) :
    ∃ b text, printSha256 imageHash hashPrint = .ok b ∧ b.str? = some text ∧ text.length = 64 ∧
      (∀ c ∈ text.bytes, isxdigit c = true) ∧ unhex text.bytes = imageHash.bytes := by
  obtain ⟨b, hfirst, -⟩ := hashPrint.storeAt_of_le
    (show hashLen * 2 + ([0] : List UInt8).length ≤ hashLen * 2 + 1 from le_rfl)
  obtain ⟨c, hloop, -, htext⟩ := foldlM_printByte imageHash le_rfl b
  have hall : imageHash.bytes.take hashLen = imageHash.bytes :=
    List.take_of_length_le imageHash.size_eq.le
  obtain ⟨tail, htail⟩ := htext (Nat.zero_lt_succ 31)
  rw [hall] at htail
  refine ⟨c, ⟨hexText imageHash.bytes, nul_not_mem_hexText _⟩, ?_, ?_, ?_,
    isxdigit_of_mem_hexText, unhex_flatMap false imageHash.bytes⟩
  · rw [printSha256, hfirst]
    exact hloop
  · apply Buf.Holds.str?
    exact ⟨tail, by rw [← htail, List.append_assoc]; rfl⟩
  · change (hexText imageHash.bytes).length = 64
    rw [length_hexText, imageHash.size_eq]
    rfl

section Mac

theorem exists_six {bs : List UInt8} (h : bs.length = 6) :
    ∃ a b c d e f, bs = [a, b, c, d, e, f] := by
  obtain ⟨a, bs, rfl⟩ := List.exists_of_length_succ bs h
  obtain ⟨b, bs, rfl⟩ := List.exists_of_length_succ bs (Nat.succ.inj h)
  obtain ⟨c, bs, rfl⟩ := List.exists_of_length_succ bs (Nat.succ.inj (Nat.succ.inj h))
  obtain ⟨d, e, f, hrest⟩ := List.length_eq_three.mp
    (Nat.succ.inj (Nat.succ.inj (Nat.succ.inj h)))
  exact ⟨a, b, c, d, e, f, by rw [hrest]⟩

theorem format_macPieces (mac : Buf 6) : (format (macPieces mac)).length = 17 ∧
    (format (macPieces mac)).filter isxdigit = hexText mac.bytes ∧ 0 ∉ format (macPieces mac) := by
  obtain ⟨a, b, c, d, e, f, hmac⟩ := exists_six mac.size_eq
  have hpair (x : UInt8) : (Piece.x02 false x.toNat).bytes.filter isxdigit =
      (Piece.x02 false x.toNat).bytes :=
    List.filter_eq_self.mpr (fun _ hx => isxdigit_of_mem_x02 hx)
  have hlen (x : UInt8) : (Piece.x02 false x.toNat).bytes.length = 2 := by
    rw [x02_bytes]
    rfl
  have hnul (x : UInt8) : 0 ∉ (Piece.x02 false x.toNat).bytes := by
    intro h
    have hdigit := isxdigit_of_mem_x02 h
    revert hdigit
    decide
  have hcolon : [58].filter isxdigit = [] := by decide
  rw [macPieces, hmac]
  simp only [format, hexText, List.map_cons, List.map_nil, List.intersperse_cons_cons,
    List.intersperse_singleton, List.flatMap_cons, List.flatMap_nil, Piece.bytes_text,
    List.filter_append, List.filter_nil, List.length_append, List.length_nil,
    List.length_singleton, List.mem_append, hpair, hlen, hnul, hcolon, List.nil_append]
  decide

/-- `msg` has room for the address, and the address can be read from it. -/
theorem getSettingsMsg_digits (mac : Buf 6) : ∃ b text, getSettingsMsg mac = .ok b ∧
    b.str? = some text ∧ text.length = 17 ∧ unhex (text.bytes.filter isxdigit) = mac.bytes := by
  obtain ⟨hlen, hdigits, hnul⟩ := format_macPieces mac
  have hfits : (format (macPieces mac) ++ [0]).length ≤ 30 := by
    rw [List.length_append, hlen]
    decide
  obtain ⟨b, hstore, hbytes⟩ := (Buf.fill 30 0).store_of_le hfits
  refine ⟨b, ⟨format (macPieces mac), hnul⟩, hstore, ?_, hlen, ?_⟩
  · apply Buf.Holds.str?
    exact ⟨_, by rw [hbytes, List.append_assoc]; rfl⟩
  · rw [hdigits]
    exact unhex_flatMap false mac.bytes

end Mac
end SnifferStaSend.HexText
