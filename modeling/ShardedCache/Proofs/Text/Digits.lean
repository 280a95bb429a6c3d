import ShardedCache.Bytes
import ShardedCache.Text.Number
import ShardedCache.Text.Utf8

/-!
# Digits in text

Which characters are digits and what they are worth (`IsHexDigit`), and which texts are read as decimal
numbers (`IsDecimal`, `readU64_eq_ok`): not more than the reader's grammar, whose plus sign is allowed in
front, and not less. The bytes of a text are those of each of its characters.
-/

namespace ShardedCache.Text

variable {c : Char} {cs : List Char} {n v limit value : Nat}

/-! ## Digits -/

/-- The character is a hexadecimal digit of either case, and this is its value. -/
def IsHexDigit (c : Char) (v : Nat) : Prop :=
  Bytes.upperHexDigits[v]? = some c ∨ Bytes.lowerHexDigits[v]? = some c

instance (c : Char) (v : Nat) : Decidable (IsHexDigit c v) :=
  inferInstanceAs (Decidable (_ ∨ _))

/-- What holds of each character below a bound holds of every character below it. -/
theorem forall_char_lt {b : Nat} {p : Char → Prop} (h : ∀ n < b, p (Char.ofNat n)) :
    ∀ c : Char, c.toNat < b → p c := fun c hc => by
  have hp := h c.toNat hc
  rwa [Char.ofNat_toNat] at hp

theorem toNat_lt_of_digit? {base : Nat} (h : digit? base c = some v) : c.toNat < 128 := by
  unfold digit? at h
  split at h
  · next hdigit =>
    have hle : c.toNat ≤ '9'.toNat := hdigit.2
    exact Nat.lt_of_le_of_lt hle (by decide)
  · split at h
    · next hletter =>
      have hle : c.toNat ≤ 'z'.toNat := hletter.2
      exact Nat.lt_of_le_of_lt hle (by decide)
    · split at h
      · next hletter =>
        have hle : c.toNat ≤ 'Z'.toNat := hletter.2
        exact Nat.lt_of_le_of_lt hle (by decide)
      · cases h

theorem digit?_upperHexDigits : ∀ v < 16, digit? 16 (Bytes.upperHexDigits.getD v '0') = some v := by
  decide +kernel

theorem digit?_lowerHexDigits : ∀ v < 16, digit? 16 (Bytes.lowerHexDigits.getD v '0') = some v := by
  decide +kernel

theorem digit?_sixteen : digit? 16 c = some v ↔ IsHexDigit c v := by
  constructor
  · intro h
    have hdigit : ∀ c : Char, c.toNat < 128 → ∀ v ∈ digit? 16 c, IsHexDigit c v :=
      forall_char_lt (by decide +kernel)
    exact hdigit c (toNat_lt_of_digit? h) v h
  · have hgetD {digits : Array Char} (h : digits[v]? = some c) : digits.getD v '0' = c := by
      rw [Array.getD_eq_getD_getElem?, h, Option.getD_some]
    rintro (h | h)
    · rw [← hgetD h]
      exact digit?_upperHexDigits v (Array.getElem?_eq_some_iff.1 h).1
    · rw [← hgetD h]
      exact digit?_lowerHexDigits v (Array.getElem?_eq_some_iff.1 h).1

theorem isHexDigit_upperHexDigits (h : v < 16) : IsHexDigit (Bytes.upperHexDigits.getD v '0') v :=
  digit?_sixteen.1 (digit?_upperHexDigits v h)

theorem digit?_ten : digit? 10 c = some v ↔ c.isDigit ∧ c.toNat - '0'.toNat = v := by
  have hdigit : c.isDigit ↔ '0' ≤ c ∧ c ≤ '9' := by
    simp [Char.isDigit, Char.le_def]
  rw [hdigit]
  unfold digit?
  split
  · next hrange =>
    have hle : c.toNat ≤ '9'.toNat := hrange.2
    have hlt : c.toNat - '0'.toNat < 10 := by
      change c.toNat ≤ 57 at hle
      change c.toNat - 48 < 10
      omega
    rw [Option.filter_some, if_pos (decide_eq_true hlt), Option.some_inj, and_iff_right hrange]
  · next hrange =>
    have hletter (m : Nat) : (some (m + 10)).filter (· < 10) ≠ some v := by
      rw [Option.filter_some, if_neg (by simp)]
      exact fun h => by cases h
    simp only [hrange, false_and, iff_false]
    split
    · exact hletter _
    · split
      · exact hletter _
      · simp

/-! ## Decimal numbers -/

theorem le_ofDigitChars : value ≤ Nat.ofDigitChars 10 cs value := by
  rw [Nat.ofDigitChars_eq_ofDigitChars_zero]
  exact Nat.le_add_right_of_le (Nat.le_mul_of_pos_left value (Nat.pow_pos (by decide)))

/-- Digits are read if they all are such, and the number that they spell is within the limit. -/
theorem readDigits_eq_ok (hvalue : value ≤ limit) :
    readDigits 10 limit value cs = .ok n ↔
      (∀ c ∈ cs, c.isDigit) ∧ Nat.ofDigitChars 10 cs value = n ∧ n ≤ limit := by
  induction cs generalizing value with
  | nil =>
    rw [readDigits, Nat.ofDigitChars_nil]
    constructor
    · intro h
      cases h
      exact ⟨fun _ hc => absurd hc List.not_mem_nil, rfl, hvalue⟩
    · rintro ⟨-, rfl, -⟩
      rfl
  | cons c cs ih =>
    rw [readDigits, List.forall_mem_cons, Nat.ofDigitChars_cons, Nat.mul_comm 10 value]
    cases hdigit : digit? 10 c with
    | none =>
      have hc : ¬c.isDigit := fun hc => by
        rw [digit?_ten.2 ⟨hc, rfl⟩] at hdigit
        cases hdigit
      simp [hc]
    | some d =>
      obtain ⟨hc, rfl⟩ := digit?_ten.1 hdigit
      dsimp only
      split
      · next hle => rw [ih hle, and_iff_right hc]
      · next hgt =>
        -- the number only grows from here
        have hgrows : value * 10 + (c.toNat - '0'.toNat) ≤
            Nat.ofDigitChars 10 cs (value * 10 + (c.toNat - '0'.toNat)) := le_ofDigitChars
        constructor
        · intro h
          cases h
        · rintro ⟨-, rfl, hle⟩
          exact absurd (Nat.le_trans hgrows hle) hgt

/-- What is read as a decimal number: digits, behind a plus sign or not. -/
def IsDecimal (cs : List Char) (n : Nat) : Prop :=
  ∃ digits, digits ≠ [] ∧ (cs = digits ∨ cs = '+' :: digits) ∧ (∀ c ∈ digits, c.isDigit) ∧
    Nat.ofDigitChars 10 digits 0 = n

theorem readNumber_eq_ok : readNumber 10 limit cs = .ok n ↔ IsDecimal cs n ∧ n ≤ limit := by
  have hplus : ¬ '+'.isDigit := by decide
  unfold readNumber
  split
  · constructor
    · intro h
      cases h
    · rintro ⟨⟨digits, hne, hcs | hcs, -⟩, -⟩
      · exact absurd hcs.symm hne
      · cases hcs
  · constructor
    · intro h
      cases h
    · rintro ⟨⟨digits, hne, rfl | hcs, hdigits, -⟩, -⟩
      · exact absurd (hdigits '+' List.mem_cons_self) hplus
      · exact absurd (List.cons.inj hcs).2.symm hne
  · next digits hne =>
    rw [readDigits_eq_ok (Nat.zero_le limit)]
    constructor
    · rintro ⟨hdigits, hn, hle⟩
      exact ⟨⟨digits, fun h => hne (h ▸ rfl), .inr rfl, hdigits, hn⟩, hle⟩
    · rintro ⟨⟨ds, -, rfl | hcs, hdigits, hn⟩, hle⟩
      · exact absurd (hdigits '+' List.mem_cons_self) hplus
      · obtain rfl := (List.cons.inj hcs).2
        exact ⟨hdigits, hn, hle⟩
  · next hempty _ hsign =>
    rw [readDigits_eq_ok (Nat.zero_le limit)]
    constructor
    · rintro ⟨hdigits, hn, hle⟩
      exact ⟨⟨cs, hempty, .inl rfl, hdigits, hn⟩, hle⟩
    · rintro ⟨⟨ds, -, rfl | hcs, hdigits, hn⟩, hle⟩
      · exact ⟨hdigits, hn, hle⟩
      · exact absurd hcs (hsign ds)

theorem readU64_eq_ok {text : String} {n : UInt64} :
    readU64 text = .ok n ↔ IsDecimal text.toList n.toNat := by
  have hlimit : ∀ {m : Nat}, m ≤ UInt64.size - 1 → (UInt64.ofNat m).toNat = m := fun hm =>
    UInt64.toNat_ofNat_of_lt' (Nat.lt_of_le_of_lt hm (by decide))
  unfold readU64
  cases hread : readNumber 10 (UInt64.size - 1) text.toList with
  | ok m =>
    obtain ⟨hm, hle⟩ := readNumber_eq_ok.1 hread
    constructor
    · intro h
      cases h
      rw [hlimit hle]
      exact hm
    · intro h
      have hm' := readNumber_eq_ok.2 ⟨h, Nat.le_pred_of_lt n.toNat_lt⟩
      cases hread.symm.trans hm'
      exact congrArg Except.ok n.ofNat_toNat
  | error error =>
    constructor
    · intro h
      cases h
    · intro h
      cases hread.symm.trans (readNumber_eq_ok.2 ⟨h, Nat.le_pred_of_lt n.toNat_lt⟩)

/-- A number is read from its decimal digits. -/
theorem isDecimal_toDigits (n : Nat) : IsDecimal (Nat.toDigits 10 n) n :=
  ⟨_, Nat.toDigits_ne_nil, .inl rfl,
    fun _ hc => Nat.isDigit_of_mem_toDigits (by decide) (by decide) hc, Nat.ofDigitChars_ten_toDigits⟩

/-! ## Characters in UTF-8 text -/

namespace Utf8

/-- The bytes of some characters are those of each. -/
theorem encode_ofList (cs : List Char) :
    encode (String.ofList cs) = cs.flatMap String.utf8EncodeChar := by
  rw [encode, String.toUTF8_eq_toByteArray, String.toByteArray_ofList]
  induction cs with
  | nil => rfl
  | cons c cs ih =>
    rw [List.utf8Encode_cons, ByteArray.data_append, Array.toList_append, ih, List.flatMap_cons,
      List.utf8Encode_singleton, List.data_toByteArray]

end Utf8

end ShardedCache.Text
