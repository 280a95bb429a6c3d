import ShardedCache.OrderKey.Reader
import ShardedCache.Proofs.Text.Digits

/-!
# Which texts are order keys

The digits of a byte string are read two bytes at a time, wherever characters end. Along pairs of digits
both go together, so what is read first is a run of pairs; the text is an order key if that is all. What
follows the run decides the fault (`pairBytes_of_stuck`): where two bytes would end inside a character, there is
no pair at all to be read. A plus sign is taken for a digit in front of another, so that more is accepted
than pairs of digits; and every order key is read back from its own text (`ofText_reads`).
-/

namespace ShardedCache.OrderKey

open String (utf8EncodeChar)
open Text (IsDecimal IsHexDigit digit?)

variable {c d : Char} {cs : List Char} {b : UInt8} {bytes : Bytes} {text : String}

/-! ## Bytes of characters -/

/-- What holds of each number below 256 holds of every byte. -/
theorem forall_byte {p : UInt8 → Prop} (h : ∀ n < 256, p (UInt8.ofNat n)) (b : UInt8) : p b := by
  have hp := h b.toNat b.toNat_lt
  rwa [UInt8.ofNat_toNat] at hp

theorem isContinuation_mask : ∀ b : UInt8, isContinuation (b &&& 0x3f ||| 0x80) = true :=
  forall_byte (by decide +kernel)

theorem not_isContinuation_of_first : ∀ b : UInt8, b.IsUTF8FirstByte → isContinuation b = false :=
  forall_byte (by decide +kernel)

theorem digit?_of_isContinuation :
    ∀ b : UInt8, isContinuation b = true → digit? 16 (Char.ofNat b.toNat) = none :=
  forall_byte (by decide +kernel)

/-- A character takes one byte, or two, or goes on after the second one. -/
theorem utf8EncodeChar_cases (c : Char) :
    c.utf8Size = 1 ∧ utf8EncodeChar c = [c.val.toUInt8] ∨
    (c.utf8Size = 2 ∧ ∃ first second, utf8EncodeChar c = [first, second] ∧ isContinuation second = true) ∨
    (3 ≤ c.utf8Size ∧ ∃ first second third rest, utf8EncodeChar c = first :: second :: third :: rest ∧
      isContinuation second = true ∧ isContinuation third = true) := by
  match hsize : c.utf8Size, c.utf8Size_pos, c.utf8Size_le_four with
  | 1, _, _ => exact .inl ⟨rfl, String.utf8EncodeChar_eq_singleton hsize⟩
  | 2, _, _ =>
    exact .inr (.inl ⟨rfl, _, _, String.utf8EncodeChar_eq_cons_cons hsize, isContinuation_mask _⟩)
  | 3, _, _ =>
    exact .inr (.inr ⟨by decide, _, _, _, _, String.utf8EncodeChar_eq_cons_cons_cons hsize,
      isContinuation_mask _, isContinuation_mask _⟩)
  | 4, _, _ =>
    exact .inr (.inr ⟨by decide, _, _, _, _, String.utf8EncodeChar_eq_cons_cons_cons_cons hsize,
      isContinuation_mask _, isContinuation_mask _⟩)

/-- The bytes of some characters. -/
def utf8 (cs : List Char) : Bytes := cs.flatMap utf8EncodeChar

theorem utf8_cons (c : Char) (cs : List Char) : utf8 (c :: cs) = utf8EncodeChar c ++ utf8 cs :=
  List.flatMap_cons

/-- Text does not begin inside a character. -/
theorem head?_utf8 (cs : List Char) : (utf8 cs).head?.any isContinuation = false := by
  cases cs with
  | nil => rfl
  | cons c cs =>
    have hpos : 0 < (utf8EncodeChar c).length := by
      rw [String.length_utf8EncodeChar]
      exact c.utf8Size_pos
    rw [utf8_cons, List.head?_append, List.head?_eq_getElem?, List.getElem?_eq_getElem hpos,
      Option.some_or, Option.any_some]
    exact not_isContinuation_of_first _ UInt8.isUTF8FirstByte_getElem_zero_utf8EncodeChar

theorem ofNat_of_utf8Size (h : c.utf8Size = 1) : Char.ofNat c.val.toUInt8.toNat = c := by
  have hle : c.toNat ≤ 127 := UInt32.le_iff_toNat_le.1 (Char.utf8Size_eq_one_iff.1 h)
  have htoNat : c.val.toUInt8.toNat = c.toNat := by
    rw [UInt32.toNat_toUInt8]
    exact Nat.mod_eq_of_lt (by change c.toNat < 256; omega)
  rw [htoNat, Char.ofNat_toNat]

theorem utf8Size_of_isHexDigit {v : Nat} (h : IsHexDigit c v) : c.utf8Size = 1 := by
  have hlt := Text.toNat_lt_of_digit? (Text.digit?_sixteen.2 h)
  refine Char.utf8Size_eq_one_iff.2 (UInt32.le_iff_toNat_le.2 ?_)
  change c.toNat ≤ 127
  omega

/-! ## Pairs of digits -/

/-- What may stand first in a pair, and its value there. -/
def Leads (c : Char) (v : Nat) : Prop := IsHexDigit c v ∨ c = '+' ∧ v = 0

/-- Pairs spell bytes: a character that may stand first, and a digit. -/
inductive Spells (first : Char → Nat → Prop) : List Char → Bytes → Prop where
  | nil : Spells first [] []
  | pair {c d : Char} {high low : Nat} {cs : List Char} {bytes : Bytes} (hc : first c high)
    (hd : IsHexDigit d low) (h : Spells first cs bytes) :
    Spells first (c :: d :: cs) (UInt8.ofNat (high * 16 + low) :: bytes)

theorem not_isHexDigit_plus {v : Nat} : ¬IsHexDigit '+' v := by
  rw [← Text.digit?_sixteen]
  have hnone : digit? 16 '+' = none := by decide
  rw [hnone]
  exact fun h => by cases h

theorem utf8Size_of_leads {v : Nat} (h : Leads c v) : c.utf8Size = 1 := by
  rcases h with h | ⟨rfl, -⟩
  · exact utf8Size_of_isHexDigit h
  · decide

/-- Pairs of digits are the pairs without a plus sign. -/
theorem spells_isHexDigit_iff : Spells IsHexDigit cs bytes ↔ Spells Leads cs bytes ∧ '+' ∉ cs := by
  constructor
  · intro h
    induction h with
    | nil => exact ⟨.nil, List.not_mem_nil⟩
    | pair hc hd _ ih =>
      refine ⟨.pair (.inl hc) hd ih.1, ?_⟩
      simp only [List.mem_cons, not_or]
      exact ⟨fun h => not_isHexDigit_plus (h ▸ hc), fun h => not_isHexDigit_plus (h ▸ hd), ih.2⟩
  · rintro ⟨h, hplus⟩
    induction h with
    | nil => exact .nil
    | pair hc hd _ ih =>
      simp only [List.mem_cons, not_or] at hplus
      rcases hc with hc | ⟨rfl, -⟩
      · exact .pair hc hd (ih hplus.2.2)
      · exact absurd rfl hplus.1

theorem pairByte?_eq (first second : UInt8) :
    pairByte? first second = (digit? 16 (Char.ofNat second.toNat)).bind fun low =>
      (if first = '+'.toUInt8 then some 0 else digit? 16 (Char.ofNat first.toNat)).map fun high =>
        UInt8.ofNat (high * 16 + low) := by
  unfold pairByte?
  dsimp only
  cases digit? 16 (Char.ofNat second.toNat) with
  | none => rfl
  | some low =>
    by_cases hplus : first = '+'.toUInt8
    · simp [hplus]
    · cases digit? 16 (Char.ofNat first.toNat) <;> simp [hplus]

theorem pairByte?_of_isContinuation (first : UInt8) {second : UInt8} (h : isContinuation second = true) :
    pairByte? first second = none := by
  rw [pairByte?_eq, digit?_of_isContinuation second h]
  rfl

/-- Two characters of one byte each are read as a pair if they are one. -/
theorem pairByte?_eq_some (hc : c.utf8Size = 1) (hd : d.utf8Size = 1) :
    pairByte? c.val.toUInt8 d.val.toUInt8 = some b ↔
      ∃ high low, Leads c high ∧ IsHexDigit d low ∧ UInt8.ofNat (high * 16 + low) = b := by
  have hplus : c.val.toUInt8 = '+'.toUInt8 ↔ c = '+' := by
    constructor
    · intro h
      rw [← ofNat_of_utf8Size hc, h]
      rfl
    · rintro rfl
      rfl
  have hleads : ∀ v, (if c = '+' then some 0 else digit? 16 c) = some v ↔ Leads c v := by
    intro v
    split
    · next heq =>
      subst heq
      simp [Leads, not_isHexDigit_plus, eq_comm]
    · next hne => simp [Leads, hne, Text.digit?_sixteen]
  rw [pairByte?_eq, ofNat_of_utf8Size hc, ofNat_of_utf8Size hd, Option.bind_eq_some_iff]
  simp only [hplus, Option.map_eq_some_iff, hleads, Text.digit?_sixteen]
  constructor
  · rintro ⟨low, hlow, high, hhigh, heq⟩
    exact ⟨high, low, hhigh, hlow, heq⟩
  · rintro ⟨high, low, hhigh, hlow, heq⟩
    exact ⟨low, hlow, high, hhigh, heq⟩

/-! ## Reading pairs -/

theorem pairBytes_cons_cons {first second : UInt8} {rest : Bytes}
    (hrest : rest.head?.any isContinuation = false) :
    pairBytes text (first :: second :: rest) =
      match pairByte? first second with
      | some b => (pairBytes text rest).map (b :: ·)
      | none => .error (.invalidBytes text) := by
  rw [pairBytes, hrest]
  rfl

/-- A run of pairs is read, and then what follows it. -/
theorem Spells.pairBytes_append {pairs : List Char} (h : Spells Leads pairs bytes) (cs : List Char) :
    pairBytes text (utf8 (pairs ++ cs)) = (pairBytes text (utf8 cs)).map (bytes ++ ·) := by
  induction h with
  | nil =>
    rw [List.nil_append]
    cases pairBytes text (utf8 cs) <;> rfl
  | pair hc hd _ ih =>
    have hc' := utf8Size_of_leads hc
    have hd' := utf8Size_of_isHexDigit hd
    rw [List.cons_append, List.cons_append, utf8_cons, utf8_cons, String.utf8EncodeChar_eq_singleton hc',
      String.utf8EncodeChar_eq_singleton hd', List.singleton_append, List.singleton_append,
      pairBytes_cons_cons (head?_utf8 _), (pairByte?_eq_some hc' hd').2 ⟨_, _, hc, hd, rfl⟩, ih]
    cases pairBytes text (utf8 cs) <;> rfl

/-- What follows begins with no pair. -/
def Stuck (cs : List Char) : Prop :=
  ∀ c d rest, cs = c :: d :: rest → ∀ high low, Leads c high → ¬IsHexDigit d low

/-- The first two bytes end inside a character. -/
def Cuts : List Char → Prop
  | c :: d :: _ => c.utf8Size = 1 ∧ 2 ≤ d.utf8Size ∨ 3 ≤ c.utf8Size
  | [c] => 3 ≤ c.utf8Size
  | [] => False

/-- Every text is a run of pairs and what follows it. -/
theorem exists_run : ∀ cs : List Char,
    ∃ pairs bytes rest, cs = pairs ++ rest ∧ Spells Leads pairs bytes ∧ Stuck rest
  | [] => ⟨[], [], [], rfl, .nil, fun _ _ _ h => by cases h⟩
  | [c] => ⟨[], [], [c], rfl, .nil, fun _ _ _ h => by cases h⟩
  | c :: d :: cs => by
    by_cases hpair : ∃ high low, Leads c high ∧ IsHexDigit d low
    · obtain ⟨high, low, hc, hd⟩ := hpair
      obtain ⟨pairs, bytes, rest, rfl, hspells, hstuck⟩ := exists_run cs
      exact ⟨c :: d :: pairs, _, rest, rfl, .pair hc hd hspells, hstuck⟩
    · refine ⟨[], [], c :: d :: cs, rfl, .nil, ?_⟩
      rintro _ _ _ ⟨⟩ high low hc hd
      exact hpair ⟨high, low, hc, hd⟩

theorem pairBytes_of_split {first second : UInt8} {rest : Bytes}
    (hrest : rest.head?.any isContinuation = true) :
    pairBytes text (first :: second :: rest) = .error (.splitsCharacter text) := by
  rw [pairBytes, hrest]
  rfl

/-- The first two bytes lie within the first character. -/
theorem pairBytes_of_wide (h : 3 ≤ c.utf8Size) (cs : List Char) :
    pairBytes text (utf8 (c :: cs)) = .error (.splitsCharacter text) := by
  rcases utf8EncodeChar_cases c with ⟨hsize, -⟩ | ⟨hsize, -⟩ |
    ⟨-, first, second, third, rest, hc, -, hthird⟩
  · omega
  · omega
  · rw [utf8_cons, hc]
    exact pairBytes_of_split hthird

theorem pairBytes_of_cuts (h : Cuts cs) : pairBytes text (utf8 cs) = .error (.splitsCharacter text) := by
  match cs with
  | [] => exact h.elim
  | [c] => exact pairBytes_of_wide h []
  | c :: d :: rest =>
    rcases h with ⟨hc, hd⟩ | hc
    · rw [utf8_cons, utf8_cons, String.utf8EncodeChar_eq_singleton hc]
      rcases utf8EncodeChar_cases d with ⟨hsize, -⟩ | ⟨-, first, second, hd, hsecond⟩ |
        ⟨-, first, second, third, more, hd, hsecond, -⟩
      · omega
      · rw [hd]
        exact pairBytes_of_split hsecond
      · rw [hd]
        exact pairBytes_of_split hsecond
    · exact pairBytes_of_wide hc _

/-- A character of two bytes is no pair of digits. -/
theorem pairBytes_of_two (h : c.utf8Size = 2) (cs : List Char) :
    pairBytes text (utf8 (c :: cs)) = .error (.invalidBytes text) := by
  rcases utf8EncodeChar_cases c with ⟨hsize, -⟩ | ⟨-, first, second, hc, hsecond⟩ | ⟨hsize, -⟩
  · omega
  · rw [utf8_cons, hc]
    change pairBytes text (first :: second :: utf8 cs) = _
    rw [pairBytes_cons_cons (head?_utf8 cs), pairByte?_of_isContinuation first hsecond]
  · omega

/-- What follows a run of pairs and begins inside no character is invalid. -/
theorem pairBytes_of_stuck (hne : cs ≠ []) (heven : (utf8 cs).length % 2 = 0) (hstuck : Stuck cs)
    (hcuts : ¬Cuts cs) : pairBytes text (utf8 cs) = .error (.invalidBytes text) := by
  match cs with
  | [] => exact absurd rfl hne
  | [c] =>
    have hlength : (utf8 [c]).length = c.utf8Size := by
      rw [utf8_cons, utf8, List.flatMap_nil, List.append_nil, String.length_utf8EncodeChar]
    have hpos := c.utf8Size_pos
    have hwide : ¬3 ≤ c.utf8Size := hcuts
    exact pairBytes_of_two (by omega) []
  | c :: d :: rest =>
    have hpos := c.utf8Size_pos
    have hpos' := d.utf8Size_pos
    have hnot : ¬(c.utf8Size = 1 ∧ 2 ≤ d.utf8Size ∨ 3 ≤ c.utf8Size) := hcuts
    rcases Nat.lt_or_ge c.utf8Size 2 with hc | hc
    · have hc : c.utf8Size = 1 := by omega
      have hd : d.utf8Size = 1 := by omega
      rw [utf8_cons, utf8_cons, String.utf8EncodeChar_eq_singleton hc,
        String.utf8EncodeChar_eq_singleton hd, List.singleton_append, List.singleton_append,
        pairBytes_cons_cons (head?_utf8 rest)]
      cases hpair : pairByte? c.val.toUInt8 d.val.toUInt8 with
      | none => rfl
      | some b =>
        obtain ⟨high, low, hhigh, hlow, -⟩ := (pairByte?_eq_some hc hd).1 hpair
        exact absurd hlow (hstuck c d rest rfl high low hhigh)
    · exact pairBytes_of_two (by omega) _

theorem Spells.even {pairs : List Char} (h : Spells Leads pairs bytes) :
    (utf8 pairs).length % 2 = 0 := by
  induction h with
  | nil => rfl
  | pair hc hd _ ih =>
    rw [utf8_cons, utf8_cons, String.utf8EncodeChar_eq_singleton (utf8Size_of_leads hc),
      String.utf8EncodeChar_eq_singleton (utf8Size_of_isHexDigit hd)]
    simp only [List.singleton_append, List.length_cons]
    omega

theorem Spells.pairBytes {pairs : List Char} (h : Spells Leads pairs bytes) :
    pairBytes text (utf8 pairs) = .ok bytes := by
  have hread : OrderKey.pairBytes text (utf8 (pairs ++ [])) = .ok (bytes ++ []) := h.pairBytes_append []
  rwa [List.append_nil, List.append_nil] at hread

/-- What is read after the run of pairs that a text begins with. -/
theorem pairBytes_of_run {pairs rest : List Char} (h : Spells Leads pairs bytes) (hstuck : Stuck rest)
    (heven : (utf8 (pairs ++ rest)).length % 2 = 0) :
    rest = [] ∧ pairBytes text (utf8 (pairs ++ rest)) = .ok bytes ∨
    Cuts rest ∧ pairBytes text (utf8 (pairs ++ rest)) = .error (.splitsCharacter text) ∨
    pairBytes text (utf8 (pairs ++ rest)) = .error (.invalidBytes text) := by
  have hrest : (utf8 rest).length % 2 = 0 := by
    have hpairs := h.even
    rw [utf8, List.flatMap_append, List.length_append] at heven
    change ((utf8 pairs).length + (utf8 rest).length) % 2 = 0 at heven
    omega
  by_cases hempty : rest = []
  · rw [hempty, List.append_nil]
    exact .inl ⟨rfl, h.pairBytes⟩
  · rw [h.pairBytes_append]
    by_cases hcuts : Cuts rest
    · rw [pairBytes_of_cuts hcuts]
      exact .inr (.inl ⟨hcuts, rfl⟩)
    · rw [pairBytes_of_stuck hempty hrest hstuck hcuts]
      exact .inr (.inr rfl)

/-- Bytes are read if the whole text is a run of pairs. -/
theorem pairBytes_eq_ok (heven : (utf8 cs).length % 2 = 0) :
    pairBytes text (utf8 cs) = .ok bytes ↔ Spells Leads cs bytes := by
  constructor
  · intro h
    obtain ⟨pairs, run, rest, rfl, hspells, hstuck⟩ := exists_run cs
    rcases pairBytes_of_run hspells hstuck heven with ⟨rfl, hread⟩ | ⟨-, hread⟩ | hread
    · cases h.symm.trans hread
      rw [List.append_nil]
      exact hspells
    · cases h.symm.trans hread
    · cases h.symm.trans hread
  · exact Spells.pairBytes

/-- Reading stops inside a character where a run of pairs ends in front of one that is cut. -/
theorem pairBytes_eq_splitsCharacter (heven : (utf8 cs).length % 2 = 0) :
    pairBytes text (utf8 cs) = .error (.splitsCharacter text) ↔
      ∃ pairs bytes rest, cs = pairs ++ rest ∧ Spells Leads pairs bytes ∧ Cuts rest := by
  constructor
  · intro h
    obtain ⟨pairs, run, rest, rfl, hspells, hstuck⟩ := exists_run cs
    rcases pairBytes_of_run hspells hstuck heven with ⟨-, hread⟩ | ⟨hcuts, -⟩ | hread
    · cases h.symm.trans hread
    · exact ⟨pairs, run, rest, rfl, hspells, hcuts⟩
    · cases h.symm.trans hread
  · rintro ⟨pairs, run, rest, rfl, hspells, hcuts⟩
    rw [hspells.pairBytes_append, pairBytes_of_cuts hcuts]
    rfl

/-! ## Order keys -/

theorem map_bytes_eq_ok {x : Except OrderKeyFault Bytes} {k : OrderKey} :
    x.map .bytes = .ok k ↔ ∃ b, x = .ok b ∧ .bytes b = k := by
  cases x with
  | ok b => simp [Except.map]
  | error fault => simp [Except.map]

theorem map_bytes_eq_error {x : Except OrderKeyFault Bytes} {fault : OrderKeyFault} :
    x.map OrderKey.bytes = .error fault ↔ x = .error fault := by
  cases x with
  | ok b => simp [Except.map]
  | error fault => simp [Except.map]

theorem exists_digits (h : ['0', 'x'] <+: text.toList) :
    ∃ digits, text.toList = '0' :: 'x' :: digits := by
  obtain ⟨digits, hdigits⟩ := h
  exact ⟨digits, hdigits.symm⟩

/-- What is read of a text that begins as those of byte strings do. -/
theorem ofText_of_digits {digits : List Char} (h : text.toList = '0' :: 'x' :: digits) :
    ofText text = if (utf8 digits).length % 2 = 1 then .error (.oddDigits text)
      else (pairBytes text (utf8 digits)).map .bytes := by
  rw [ofText, h]
  simp only [Text.Utf8.encode_ofList]
  rfl

theorem ofText_of_no_digits (h : ¬['0', 'x'] <+: text.toList) :
    ofText text = match Text.readU64 text with
      | .ok n => .ok (.number n)
      | .error error => .error (.invalidNumber text error) := by
  rw [ofText]
  split
  · next digits hdigits => exact absurd ⟨digits, hdigits.symm⟩ h
  · rfl

theorem ofText_eq_bytes : ofText text = .ok (.bytes bytes) ↔
    ∃ digits, text.toList = '0' :: 'x' :: digits ∧ Spells Leads digits bytes := by
  constructor
  · intro h
    by_cases hprefix : ['0', 'x'] <+: text.toList
    · obtain ⟨digits, hdigits⟩ := exists_digits hprefix
      rw [ofText_of_digits hdigits] at h
      split at h
      · cases h
      · next heven =>
        obtain ⟨read, hread, heq⟩ := map_bytes_eq_ok.1 h
        cases heq
        exact ⟨digits, hdigits, (pairBytes_eq_ok (by omega)).1 hread⟩
    · rw [ofText_of_no_digits hprefix] at h
      split at h <;> cases h
  · rintro ⟨digits, hdigits, hspells⟩
    have heven := hspells.even
    rw [ofText_of_digits hdigits, if_neg (by omega), hspells.pairBytes]
    rfl

theorem ofText_eq_number {n : UInt64} : ofText text = .ok (.number n) ↔
    ¬['0', 'x'] <+: text.toList ∧ IsDecimal text.toList n.toNat := by
  by_cases hprefix : ['0', 'x'] <+: text.toList
  · refine iff_of_false (fun h => ?_) fun h => h.1 hprefix
    obtain ⟨digits, hdigits⟩ := exists_digits hprefix
    rw [ofText_of_digits hdigits] at h
    split at h
    · cases h
    · obtain ⟨read, -, heq⟩ := map_bytes_eq_ok.1 h
      cases heq
  · rw [ofText_of_no_digits hprefix, ← Text.readU64_eq_ok, and_iff_right hprefix]
    cases Text.readU64 text with
    | ok m => simp
    | error error => simp

theorem ofText_eq_splitsCharacter : ofText text = .error (.splitsCharacter text) ↔
    ∃ digits, text.toList = '0' :: 'x' :: digits ∧ (utf8 digits).length % 2 = 0 ∧
      ∃ pairs bytes rest, digits = pairs ++ rest ∧ Spells Leads pairs bytes ∧ Cuts rest := by
  constructor
  · intro h
    by_cases hprefix : ['0', 'x'] <+: text.toList
    · obtain ⟨digits, hdigits⟩ := exists_digits hprefix
      rw [ofText_of_digits hdigits] at h
      split at h
      · cases h
      · next heven =>
        have heven : (utf8 digits).length % 2 = 0 := by omega
        exact ⟨digits, hdigits, heven, (pairBytes_eq_splitsCharacter heven).1 (map_bytes_eq_error.1 h)⟩
    · rw [ofText_of_no_digits hprefix] at h
      split at h <;> cases h
  · rintro ⟨digits, hdigits, heven, hcut⟩
    rw [ofText_of_digits hdigits, if_neg (by omega), (pairBytes_eq_splitsCharacter heven).2 hcut]
    rfl

/-- The digits of some bytes spell them. -/
theorem spells_hexPairs : ∀ bytes : Bytes,
    Spells Leads (bytes.flatMap (Bytes.hexPair Bytes.upperHexDigits)) bytes
  | [] => .nil
  | b :: rest => by
    have hlt := b.toNat_lt
    have hpair := Spells.pair
      (.inl (Text.isHexDigit_upperHexDigits (v := b.toNat / 16) (by omega)))
      (Text.isHexDigit_upperHexDigits (v := b.toNat % 16) (by omega)) (spells_hexPairs rest)
    rw [Nat.div_add_mod' b.toNat 16, UInt8.ofNat_toNat] at hpair
    exact hpair

/-- **An order key is read from its own text.** -/
theorem ofText_text (k : OrderKey) : ofText k.text = .ok k := by
  cases k with
  | number n =>
    have htext : (text (.number n)).toList = Nat.toDigits 10 n.toNat := String.toList_ofList
    rw [ofText_eq_number, htext]
    refine ⟨?_, Text.isDecimal_toDigits n.toNat⟩
    rintro ⟨rest, hrest⟩
    have hx : 'x' ∈ Nat.toDigits 10 n.toNat := by
      rw [← hrest]
      simp
    exact absurd (Nat.isDigit_of_mem_toDigits (by decide) (by decide) hx) (by decide)
  | bytes b =>
    have htext : (text (.bytes b)).toList =
        '0' :: 'x' :: b.flatMap (Bytes.hexPair Bytes.upperHexDigits) := by
      rw [text, String.toList_append, Bytes.upperHex]
      exact congrArg (['0', 'x'] ++ ·) String.toList_ofList
    exact ofText_eq_bytes.2 ⟨_, htext, spells_hexPairs b⟩

/-- What is read are pairs of digits, except where there is a plus sign in a text that is read all the same. -/
theorem ofText_eq_pairs_iff (text : String) :
    (∀ bytes, ofText text = .ok (.bytes bytes) ↔
      ∃ digits, text.toList = '0' :: 'x' :: digits ∧ Spells IsHexDigit digits bytes) ↔
    ¬∃ digits bytes, text.toList = '0' :: 'x' :: digits ∧ Spells Leads digits bytes ∧ '+' ∈ digits := by
  constructor
  · rintro h ⟨digits, bytes, hdigits, hspells, hplus⟩
    obtain ⟨digits', hdigits', hspells'⟩ := (h bytes).1 (ofText_eq_bytes.2 ⟨digits, hdigits, hspells⟩)
    cases hdigits.symm.trans hdigits'
    exact (spells_isHexDigit_iff.1 hspells').2 hplus
  · intro hnone bytes
    rw [ofText_eq_bytes]
    constructor
    · rintro ⟨digits, hdigits, hspells⟩
      exact ⟨digits, hdigits, spells_isHexDigit_iff.2
        ⟨hspells, fun hplus => hnone ⟨digits, bytes, hdigits, hspells, hplus⟩⟩⟩
    · rintro ⟨digits, hdigits, hspells⟩
      exact ⟨digits, hdigits, (spells_isHexDigit_iff.1 hspells).1⟩

/-- **How a text is read as an order key.** Bytes are read from `0x` and pairs of a digit, or a plus sign in its
place, and a digit: just pairs of digits, then, unless there is a plus sign. A number is read from decimal
digits, behind a plus sign or not, if it fits 64 bits. Reading stops inside a character just if a run of pairs
ends in front of one that the next two bytes cut, and an even number of bytes follows `0x`. Every other text
is refused, but never the text of an order key. -/
theorem ofText_reads (text : String) :
    (∀ bytes, ofText text = .ok (.bytes bytes) ↔
      ∃ digits, text.toList = '0' :: 'x' :: digits ∧ Spells Leads digits bytes) ∧
    ((∀ bytes, ofText text = .ok (.bytes bytes) ↔
        ∃ digits, text.toList = '0' :: 'x' :: digits ∧ Spells IsHexDigit digits bytes) ↔
      ¬∃ digits bytes, text.toList = '0' :: 'x' :: digits ∧ Spells Leads digits bytes ∧ '+' ∈ digits) ∧
    (∀ n : UInt64, ofText text = .ok (.number n) ↔
      ¬['0', 'x'] <+: text.toList ∧ IsDecimal text.toList n.toNat) ∧
    (ofText text = .error (.splitsCharacter text) ↔
      ∃ digits, text.toList = '0' :: 'x' :: digits ∧ (utf8 digits).length % 2 = 0 ∧
        ∃ pairs bytes rest, digits = pairs ++ rest ∧ Spells Leads pairs bytes ∧ Cuts rest) ∧
    ∀ k : OrderKey, ofText k.text = .ok k :=
  ⟨fun _ => ofText_eq_bytes, ofText_eq_pairs_iff text, fun _ => ofText_eq_number,
    ofText_eq_splitsCharacter, ofText_text⟩

/-- A plus sign is read as a digit, and a pair of digits may end inside a character. -/
theorem ofText_of_plus_and_cut : ofText "0x+1" = .ok (.bytes [1]) ∧
    (¬∃ digits, "0x+1".toList = '0' :: 'x' :: digits ∧ Spells IsHexDigit digits [1]) ∧
    ofText "0x1é1" = .error (.splitsCharacter "0x1é1") := by
  have hsign : Leads '+' 0 := .inr ⟨rfl, rfl⟩
  have hone : IsHexDigit '1' 1 := by decide
  have hplus : Spells Leads ['+', '1'] [1] := .pair hsign hone .nil
  have hcut : Cuts ['1', 'é', '1'] := .inl ⟨by decide, by decide⟩
  refine ⟨ofText_eq_bytes.2 ⟨_, by decide, hplus⟩, ?_,
    ofText_eq_splitsCharacter.2 ⟨['1', 'é', '1'], by decide, by decide, [], [], _, rfl, .nil, hcut⟩⟩
  rintro ⟨digits, hdigits, hspells⟩
  obtain ⟨-, hplus⟩ := spells_isHexDigit_iff.1 hspells
  cases hdigits
  exact hplus List.mem_cons_self

end ShardedCache.OrderKey
