import Wavm.WASTParse.ParseNumbers
import Mathlib.Data.Nat.Digits

/-!
# The loops of the unsigned-integer parsers

Both loops of `ParseNumbers.cpp` compare the value so far with `(maxValue - digit) / base` before
they take a digit.  When the digit is at most `maxValue` the comparison is exact: the loop takes
the digit exactly when the new value stays within `maxValue`.  Over the body of a literal (digits
and underscores, followed by a character that ends it) the loop therefore returns the value of
the body when it is within `maxValue`, and otherwise records "too large" and returns `maxValue`.

When a digit is above `maxValue` the subtraction wraps and the comparison lets much larger values
through.  The no-wraparound assertions still hold, for every `maxValue`: in base 16 the
comparison alone keeps `16 * result + hexit` below `2 ^ 64`; in base 10 it keeps
`10 * result + digit` at most `2 ^ 64` and reaches `2 ^ 64` only from `1844674407370955161`, a
value that has a zero digit, and a loop whose `maxValue` is below 10 stops at the first zero
digit after a nonzero one.
-/

namespace Wavm.WAST

/-! ## Characters and digits -/

theorem char_le_iff {a b : Char} : a ≤ b ↔ a.toNat ≤ b.toNat := Iff.rfl

theorem char_lt_iff {a b : Char} : a < b ↔ a.toNat < b.toNat := Iff.rfl

/-- The code points of the characters the loops compare with. -/
theorem digitChars_toNat : '0'.toNat = 48 ∧ '9'.toNat = 57 ∧ 'a'.toNat = 97 ∧ 'f'.toNat = 102 ∧
    'A'.toNat = 65 ∧ 'F'.toNat = 70 :=
  ⟨rfl, rfl, rfl, rfl, rfl, rfl⟩

/-- The character after a literal, where the lexer ended its token: not an underscore, a colon or
a hexit, so no parser reads past it. -/
def Separator (c : Char) : Prop := c ≠ '_' ∧ c ≠ ':' ∧ hexitValue c = none

instance : DecidablePred Separator := fun _ => inferInstanceAs (Decidable (_ ∧ _ ∧ _))

theorem hexitValue_lt {c : Char} {hexit : U8} (h : hexitValue c = some hexit) :
    hexit.toNat < 16 := by
  have := digitChars_toNat
  simp only [hexitValue, char_le_iff] at h
  split_ifs at h <;> cases h <;> simp only [BitVec.toNat_ofNat] <;> omega

/-- A character the decimal loop takes as a digit is a hexit of the same value, below ten. -/
theorem decimal_digit {c : Char} (h : ¬(c < '0' ∨ c > '9')) :
    c.toNat - '0'.toNat < 10 ∧ hexitValue c = some (BitVec.ofNat 8 (c.toNat - '0'.toNat)) := by
  have := digitChars_toNat
  simp only [char_lt_iff, not_or, not_lt] at h
  exact ⟨by omega, if_pos ⟨h.1, h.2⟩⟩

theorem not_decimal_digit_of_separator {c : Char} (hc : Separator c) : c < '0' ∨ c > '9' :=
  Classical.byContradiction fun h => Option.some_ne_none _ ((decimal_digit h).2.symm.trans hc.2.2)

theorem setWidth_ofNat_digit {n : Nat} (h : n < 256) :
    (BitVec.ofNat 8 n).setWidth 64 = BitVec.ofNat 64 n := by
  apply BitVec.eq_of_toNat_eq
  simp only [BitVec.toNat_setWidth, BitVec.toNat_ofNat]
  omega

/-- The value of the digits of `body` read after the value `acc` of the digits before them, in
base `base`; characters that are not hexits, the underscores, are skipped. -/
def digitsValue (base acc : Nat) : List Char → Nat
  | [] => acc
  | c :: body => digitsValue base ((hexitValue c).elim acc fun hexit => acc * base + hexit.toNat) body

theorem le_digitsValue {base : Nat} (hbase : 0 < base) :
    ∀ (acc : Nat) (body : List Char), acc ≤ digitsValue base acc body
  | _, [] => le_rfl
  | acc, c :: body => by
    refine le_trans ?_ (le_digitsValue hbase _ body)
    cases hexitValue c with
    | none => exact le_rfl
    | some hexit => exact le_trans (Nat.le_mul_of_pos_right acc hbase) (Nat.le_add_right _ _)

/-! ## What the loops skip -/

theorem skipDigits_append {rest : List Char} (hrest : ∀ c ∈ rest.head?, Separator c) :
    ∀ body : List Char, (∀ c ∈ body, c = '_' ∨ ('0' ≤ c ∧ c ≤ '9')) →
      skipDigits (body ++ rest) = rest
  | [], _ => by
    cases rest with
    | nil => rfl
    | cons c rest =>
      have hc := hrest c rfl
      have hdigit := not_decimal_digit_of_separator hc
      have := digitChars_toNat
      simp only [char_lt_iff, char_le_iff] at hdigit
      simp only [List.nil_append, skipDigits, char_le_iff, hc.1, or_false]
      exact if_neg (by omega)
  | c :: body, hbody => by
    have hc := hbody c (List.mem_cons_self c body)
    rw [List.cons_append, skipDigits, if_pos hc.symm,
      skipDigits_append hrest body fun c hc => hbody c (List.mem_cons_of_mem _ hc)]

theorem skipHexits_append {rest : List Char} (hrest : ∀ c ∈ rest.head?, Separator c) :
    ∀ body : List Char, skipHexits (body ++ rest) = skipHexits body ++ rest
  | [] => by
    cases rest with
    | nil => rfl
    | cons c rest => simp [skipHexits, (hrest c rfl).2.2]
  | c :: body => by
    rw [List.cons_append, skipHexits, skipHexits]
    split
    · exact skipHexits_append hrest body
    · rfl

/-! ## The checks, as natural numbers -/

/-- The bound the loops compare with, `(maxValue - digit) / base`, as a natural number. -/
theorem bound_toNat (maxValue : U64) {digit base : Nat} (hdigit : digit < 2 ^ 64)
    (hbase : base < 2 ^ 64) :
    ((maxValue - BitVec.ofNat 64 digit) / BitVec.ofNat 64 base).toNat =
      (2 ^ 64 - digit + maxValue.toNat) % 2 ^ 64 / base := by
  rw [BitVec.toNat_udiv, BitVec.toNat_sub, BitVec.toNat_ofNat, BitVec.toNat_ofNat,
    Nat.mod_eq_of_lt hdigit, Nat.mod_eq_of_lt hbase]

/-- With the digit at most `maxValue`, the check of the decimal loop is exact. -/
theorem decimal_check_iff {maxValue result : U64} {digit : Nat} (hdigit : digit ≤ maxValue.toNat)
    (h10 : digit < 10) :
    result > (maxValue - BitVec.ofNat 64 digit) / 10 ↔
      maxValue.toNat < result.toNat * 10 + digit := by
  rw [gt_iff_lt, BitVec.lt_def, show (10 : U64) = BitVec.ofNat 64 10 from rfl,
    bound_toNat _ (by omega) (by omega)]
  omega

/-- With the hexit at most `maxValue`, the check of the hexadecimal loop is exact. -/
theorem hex_check_iff {maxValue result : U64} {hexit : Nat} (hhexit : hexit ≤ maxValue.toNat)
    (h16 : hexit < 16) :
    result > (maxValue - BitVec.ofNat 64 hexit) / 16 ↔
      maxValue.toNat < result.toNat * 16 + hexit := by
  rw [gt_iff_lt, BitVec.lt_def, show (16 : U64) = BitVec.ofNat 64 16 from rfl,
    bound_toNat _ (by omega) (by omega)]
  omega

/-- Whatever `maxValue`, a value the hexadecimal check lets through does not wrap. -/
theorem hex_check_no_wraparound {maxValue result : U64} {hexit : Nat} (h16 : hexit < 16)
    (hcheck : ¬result > (maxValue - BitVec.ofNat 64 hexit) / 16) :
    result.toNat * 16 + hexit < 2 ^ 64 := by
  rw [gt_iff_lt, BitVec.lt_def, show (16 : U64) = BitVec.ofNat 64 16 from rfl,
    bound_toNat _ (by omega) (by omega)] at hcheck
  omega

/-- Whatever `maxValue`, a value the decimal check lets through is at most
`(2 ^ 64 - 1) / 10`. -/
theorem decimal_check_le {maxValue result : U64} {digit : Nat} (h10 : digit < 10)
    (hcheck : ¬result > (maxValue - BitVec.ofNat 64 digit) / 10) :
    result.toNat ≤ 1844674407370955161 := by
  rw [gt_iff_lt, BitVec.lt_def, show (10 : U64) = BitVec.ofNat 64 10 from rfl,
    bound_toNat _ (by omega) (by omega)] at hcheck
  omega

theorem step_toNat {result : U64} {base digit : Nat} (hbase : base < 2 ^ 64)
    (h : result.toNat * base + digit < 2 ^ 64) :
    (result * BitVec.ofNat 64 base + BitVec.ofNat 64 digit).toNat = result.toNat * base + digit := by
  rw [BitVec.toNat_add, BitVec.toNat_mul, BitVec.toNat_ofNat, BitVec.toNat_ofNat,
    Nat.mod_eq_of_lt hbase, Nat.mod_eq_of_lt (by omega : digit < 2 ^ 64),
    Nat.mod_eq_of_lt (by omega : result.toNat * base < 2 ^ 64), Nat.mod_eq_of_lt h]

/-- A step that does not wrap passes the assertion `result * base + digit >= result`. -/
theorem step_ge {result : U64} {base digit : Nat} (hbase : 0 < base) (hbase' : base < 2 ^ 64)
    (h : result.toNat * base + digit < 2 ^ 64) :
    result * BitVec.ofNat 64 base + BitVec.ofNat 64 digit ≥ result := by
  rw [ge_iff_le, BitVec.le_def, step_toNat hbase' h]
  exact le_trans (Nat.le_mul_of_pos_right _ hbase) (Nat.le_add_right _ _)

theorem decimal_step_toNat {result : U64} {digit : Nat} (h : result.toNat * 10 + digit < 2 ^ 64) :
    (result * 10 + BitVec.ofNat 64 digit).toNat = result.toNat * 10 + digit :=
  step_toNat (show 10 < 2 ^ 64 by norm_num) h

theorem decimal_step_ge {result : U64} {digit : Nat} (h : result.toNat * 10 + digit < 2 ^ 64) :
    result * 10 + BitVec.ofNat 64 digit ≥ result :=
  step_ge (show 0 < 10 by norm_num) (by norm_num) h

theorem hex_step_toNat {result : U64} {hexit : Nat} (h : result.toNat * 16 + hexit < 2 ^ 64) :
    (result * 16 + BitVec.ofNat 64 hexit).toNat = result.toNat * 16 + hexit :=
  step_toNat (show 16 < 2 ^ 64 by norm_num) h

theorem hex_step_ge {result : U64} {hexit : Nat} (h : result.toNat * 16 + hexit < 2 ^ 64) :
    result * 16 + BitVec.ofNat 64 hexit ≥ result :=
  step_ge (show 0 < 16 by norm_num) (by norm_num) h

/-! ## The decimal loop -/

section Decimal

variable {firstDigit : List Char} {maxValue : U64} {context : String}

/-- The character after a literal ends the decimal loop. -/
theorem parseDecimalLoop_separator {rest : List Char} (hrest : ∀ c ∈ rest.head?, Separator c)
    (result : U64) (parseState : ParseState) :
    parseDecimalLoop firstDigit maxValue context rest result parseState =
      some (result, rest, parseState) := by
  cases rest with
  | nil => rfl
  | cons c rest =>
    have hc := hrest c rfl
    rw [parseDecimalLoop, if_neg hc.1, if_pos (not_decimal_digit_of_separator hc)]

/-- One digit of the decimal loop: the check, then the assertion, then the next step. -/
theorem parseDecimalLoop_digit {c : Char} (hc : ¬(c < '0' ∨ c > '9')) (nextChar : List Char)
    (result : U64) (parseState : ParseState) :
    parseDecimalLoop firstDigit maxValue context (c :: nextChar) result parseState =
      if result > (maxValue - BitVec.ofNat 64 (c.toNat - '0'.toNat)) / 10 then
        some (maxValue, skipDigits nextChar,
          parseState.parseErrorf firstDigit (context ++ " is too large"))
      else if result * 10 + BitVec.ofNat 64 (c.toNat - '0'.toNat) ≥ result then
        parseDecimalLoop firstDigit maxValue context nextChar
          (result * 10 + BitVec.ofNat 64 (c.toNat - '0'.toNat)) parseState
      else none := by
  have hunderscore : c ≠ '_' := fun h => hc (.inr (by rw [h]; decide))
  rw [parseDecimalLoop, if_neg hunderscore, if_neg hc]
  dsimp only
  rw [setWidth_ofNat_digit (by have := (decimal_digit hc).1; omega)]

/-- Over the body of a literal, with `maxValue` at least 9 and the value so far within it, the
decimal loop returns the value of the body when it is within `maxValue`, and otherwise records
"too large" and returns `maxValue`; either way it stops after the body. -/
theorem parseDecimalLoop_body (hmax : 9 ≤ maxValue.toNat) {rest : List Char}
    (hrest : ∀ c ∈ rest.head?, Separator c) :
    ∀ body : List Char, (∀ c ∈ body, c = '_' ∨ ('0' ≤ c ∧ c ≤ '9')) →
    ∀ (result : U64) (parseState : ParseState), result.toNat ≤ maxValue.toNat →
      parseDecimalLoop firstDigit maxValue context (body ++ rest) result parseState =
        if digitsValue 10 result.toNat body ≤ maxValue.toNat then
          some (BitVec.ofNat 64 (digitsValue 10 result.toNat body), rest, parseState)
        else some (maxValue, rest, parseState.parseErrorf firstDigit (context ++ " is too large"))
  | [], _, result, parseState, hresult => by
    rw [List.nil_append, parseDecimalLoop_separator hrest, digitsValue, if_pos hresult,
      BitVec.ofNat_toNat, BitVec.setWidth_eq]
  | c :: body, hbody, result, parseState, hresult => by
    have ih := parseDecimalLoop_body hmax hrest body fun c hc => hbody c (List.mem_cons_of_mem _ hc)
    rcases hbody c (List.mem_cons_self _ _) with rfl | hdigit
    · -- an underscore is skipped
      rw [List.cons_append, parseDecimalLoop, if_pos rfl, ih result parseState hresult]
      rfl
    · have hc : ¬(c < '0' ∨ c > '9') := by
        simp only [char_le_iff, char_lt_iff] at hdigit ⊢
        omega
      obtain ⟨hd, hhex⟩ := decimal_digit hc
      have hvalue : digitsValue 10 result.toNat (c :: body) =
          digitsValue 10 (result.toNat * 10 + (c.toNat - '0'.toNat)) body := by
        rw [digitsValue, hhex, Option.elim, BitVec.toNat_ofNat, Nat.mod_eq_of_lt (by omega)]
      rw [List.cons_append, parseDecimalLoop_digit hc, hvalue]
      by_cases hcheck : result > (maxValue - BitVec.ofNat 64 (c.toNat - '0'.toNat)) / 10
      · -- too large: the rest of the body is skipped
        have hover := (decimal_check_iff (by omega) hd).mp hcheck
        rw [if_pos hcheck, skipDigits_append hrest body fun c hc => hbody c (List.mem_cons_of_mem _ hc),
          if_neg (by
            have := le_digitsValue (show 0 < 10 by norm_num)
              (result.toNat * 10 + (c.toNat - '0'.toNat)) body
            omega)]
      · have hle := not_lt.mp (mt (decimal_check_iff (by omega) hd).mpr hcheck)
        have hstep := decimal_step_toNat (show result.toNat * 10 + (c.toNat - '0'.toNat) < 2 ^ 64 by omega)
        rw [if_neg hcheck, if_pos (decimal_step_ge (by omega)),
          ih _ parseState (by rw [hstep]; exact hle), hstep]

end Decimal

/-! ## The hexadecimal loop -/

section Hex

variable {firstHexit : List Char} {maxValue : U64}

theorem setWidth_hexit (hexit : U8) : hexit.setWidth 64 = BitVec.ofNat 64 hexit.toNat := by
  apply BitVec.eq_of_toNat_eq
  simp only [BitVec.toNat_setWidth, BitVec.toNat_ofNat]

/-- The character after a literal ends the hexadecimal loop. -/
theorem parseHexLoop_separator {rest : List Char} (hrest : ∀ c ∈ rest.head?, Separator c)
    (result : U64) (parseState : ParseState) :
    parseHexLoop firstHexit maxValue rest result parseState = some (result, rest, parseState) := by
  cases rest with
  | nil => rfl
  | cons c rest =>
    have hc := hrest c rfl
    rw [parseHexLoop, if_neg hc.1, hc.2.2]

/-- One hexit of the hexadecimal loop: the check, then the assertion, then the next step. -/
theorem parseHexLoop_hexit {c : Char} {hexit : U8} (hc : hexitValue c = some hexit)
    (nextChar : List Char) (result : U64) (parseState : ParseState) :
    parseHexLoop firstHexit maxValue (c :: nextChar) result parseState =
      if result > (maxValue - BitVec.ofNat 64 hexit.toNat) / 16 then
        some (maxValue, skipHexits nextChar,
          parseState.parseErrorf firstHexit "integer literal is too large")
      else if result * 16 + BitVec.ofNat 64 hexit.toNat ≥ result then
        parseHexLoop firstHexit maxValue nextChar (result * 16 + BitVec.ofNat 64 hexit.toNat)
          parseState
      else none := by
  have hunderscore : c ≠ '_' := fun h => by subst h; cases hc
  rw [parseHexLoop, if_neg hunderscore, hc]
  dsimp only
  rw [setWidth_hexit]

/-- Over the body of a literal, with `maxValue` at least 15 and the value so far within it, the
hexadecimal loop returns the value of the body when it is within `maxValue`, and otherwise
records "too large" and returns `maxValue`, having skipped the hexits that follow the digit that
was too large. -/
theorem parseHexLoop_body (hmax : 15 ≤ maxValue.toNat) {rest : List Char}
    (hrest : ∀ c ∈ rest.head?, Separator c) :
    ∀ body : List Char, (∀ c ∈ body, c = '_' ∨ (hexitValue c).isSome) →
    ∀ (result : U64) (parseState : ParseState), result.toNat ≤ maxValue.toNat →
      (digitsValue 16 result.toNat body ≤ maxValue.toNat →
        parseHexLoop firstHexit maxValue (body ++ rest) result parseState =
          some (BitVec.ofNat 64 (digitsValue 16 result.toNat body), rest, parseState)) ∧
      (maxValue.toNat < digitsValue 16 result.toNat body →
        ∃ skipped, parseHexLoop firstHexit maxValue (body ++ rest) result parseState =
          some (maxValue, skipped ++ rest,
            parseState.parseErrorf firstHexit "integer literal is too large"))
  | [], _, result, parseState, hresult => by
    rw [List.nil_append, parseHexLoop_separator hrest, digitsValue, BitVec.ofNat_toNat,
      BitVec.setWidth_eq]
    exact ⟨fun _ => rfl, fun h => absurd hresult (not_le.mpr h)⟩
  | c :: body, hbody, result, parseState, hresult => by
    have ih := parseHexLoop_body hmax hrest body fun c hc => hbody c (List.mem_cons_of_mem _ hc)
    rcases hbody c (List.mem_cons_self _ _) with rfl | hhexit
    · -- an underscore is skipped
      rw [List.cons_append, parseHexLoop, if_pos rfl]
      exact ih result parseState hresult
    · obtain ⟨hexit, hc⟩ := Option.isSome_iff_exists.mp hhexit
      have hlt := hexitValue_lt hc
      have hvalue : digitsValue 16 result.toNat (c :: body) =
          digitsValue 16 (result.toNat * 16 + hexit.toNat) body := by
        rw [digitsValue, hc, Option.elim]
      rw [List.cons_append, parseHexLoop_hexit hc, hvalue]
      by_cases hcheck : result > (maxValue - BitVec.ofNat 64 hexit.toNat) / 16
      · -- too large: the hexits after this one are skipped
        have hover := (hex_check_iff (by omega) hlt).mp hcheck
        have hmono := le_digitsValue (show 0 < 16 by norm_num)
          (result.toNat * 16 + hexit.toNat) body
        rw [if_pos hcheck, skipHexits_append hrest]
        exact ⟨fun h => absurd h (by omega), fun _ => ⟨_, rfl⟩⟩
      · have hle := not_lt.mp (mt (hex_check_iff (by omega) hlt).mpr hcheck)
        have hstep := hex_step_toNat (show result.toNat * 16 + hexit.toNat < 2 ^ 64 by omega)
        rw [if_neg hcheck, if_pos (hex_step_ge (by omega))]
        have := ih _ parseState (by rw [hstep]; exact hle)
        rwa [hstep] at this

end Hex

/-! ## The no-wraparound assertions -/

/-- A digit of the value at the place of `10 ^ k` is one of its decimal digits. -/
theorem mem_digits_of_mem_digits_div {x : Nat} :
    ∀ (k n : Nat), x ∈ Nat.digits 10 (n / 10 ^ k) → x ∈ Nat.digits 10 n
  | 0, n, h => by simpa using h
  | k + 1, n, h => by
    refine mem_digits_of_mem_digits_div k n ?_
    rw [pow_succ, ← Nat.div_div_eq_div_mul] at h
    rcases Nat.eq_zero_or_pos (n / 10 ^ k) with hzero | hpos
    · rw [hzero] at h ⊢
      simp at h
    · rw [Nat.digits_def' (by norm_num) hpos]
      exact List.mem_cons_of_mem _ h

/-- Up to `(2 ^ 64 - 1) / 10`, a value none of whose decimal digits is zero is below
`1844674400000000000`: from there up, its digit at the place of `10 ^ 10` is zero. -/
theorem lt_of_zero_not_mem_digits {n : Nat} (hn : 0 ∉ Nat.digits 10 n)
    (hle : n ≤ 1844674407370955161) : n < 1844674400000000000 := by
  by_contra hge
  have hplace : n / 10 ^ 10 = 184467440 := by norm_num; omega
  refine hn (mem_digits_of_mem_digits_div 10 n ?_)
  rw [hplace, Nat.digits_def' (by norm_num) (by norm_num)]
  exact List.mem_cons_self _ _

/-- What holds of the value so far at every step of the decimal loop: with `maxValue` at most 9,
none of its decimal digits is zero, since the check lets a zero digit through only while the
value is zero. -/
def DecimalLoopInvariant (maxValue result : U64) : Prop :=
  maxValue.toNat ≤ 9 → 0 ∉ Nat.digits 10 result.toNat

theorem decimalLoopInvariant_zero (maxValue : U64) : DecimalLoopInvariant maxValue 0 :=
  fun _ => by simp

/-- A step of the decimal loop that passes the check keeps the invariant and does not wrap. -/
theorem decimal_step_no_wraparound {maxValue result : U64} {digit : Nat} (h10 : digit < 10)
    (hinv : DecimalLoopInvariant maxValue result)
    (hcheck : ¬result > (maxValue - BitVec.ofNat 64 digit) / 10) :
    result.toNat * 10 + digit < 2 ^ 64 ∧
      DecimalLoopInvariant maxValue (result * 10 + BitVec.ofNat 64 digit) := by
  have hbound : result.toNat * 10 + digit < 2 ^ 64 := by
    by_cases hdigit : digit ≤ maxValue.toNat
    · have := not_lt.mp (mt (decimal_check_iff hdigit h10).mpr hcheck)
      have := maxValue.isLt
      omega
    · have := lt_of_zero_not_mem_digits (hinv (by omega)) (decimal_check_le h10 hcheck)
      omega
  refine ⟨hbound, fun hmax => ?_⟩
  rw [decimal_step_toNat hbound]
  by_cases hzero : digit = 0
  · -- a zero digit passes the check only after a zero value
    subst hzero
    have := not_lt.mp (mt (decimal_check_iff (Nat.zero_le _) h10).mpr hcheck)
    rw [show result.toNat * 10 + 0 = 0 by omega]
    simp
  · rw [show result.toNat * 10 + digit = digit + 10 * result.toNat by ring,
      Nat.digits_add 10 (by norm_num) digit result.toNat h10 (.inl hzero)]
    exact List.not_mem_cons_of_ne_of_not_mem (Ne.symm hzero) (hinv hmax)

/-- From a value that satisfies the invariant, the decimal loop never fails its assertion. -/
theorem parseDecimalLoop_isSome (firstDigit : List Char) (maxValue : U64) (context : String) :
    ∀ (nextChar : List Char) (result : U64) (parseState : ParseState),
      DecimalLoopInvariant maxValue result →
      (parseDecimalLoop firstDigit maxValue context nextChar result parseState).isSome
  | [], _, _, _ => rfl
  | c :: nextChar, result, parseState, hinv => by
    by_cases hunderscore : c = '_'
    · rw [parseDecimalLoop, if_pos hunderscore]
      exact parseDecimalLoop_isSome firstDigit maxValue context nextChar result parseState hinv
    by_cases hc : c < '0' ∨ c > '9'
    · rw [parseDecimalLoop, if_neg hunderscore, if_pos hc]
      rfl
    have hstep := decimal_step_no_wraparound (decimal_digit hc).1 hinv
    rw [parseDecimalLoop_digit hc]
    split_ifs with hcheck hge
    · rfl
    · exact parseDecimalLoop_isSome firstDigit maxValue context nextChar _ parseState
        (hstep hcheck).2
    · exact absurd (decimal_step_ge (hstep hcheck).1) hge

/-- The hexadecimal loop never fails its assertion. -/
theorem parseHexLoop_isSome (firstHexit : List Char) (maxValue : U64) :
    ∀ (nextChar : List Char) (result : U64) (parseState : ParseState),
      (parseHexLoop firstHexit maxValue nextChar result parseState).isSome
  | [], _, _ => rfl
  | c :: nextChar, result, parseState => by
    by_cases hunderscore : c = '_'
    · rw [parseHexLoop, if_pos hunderscore]
      exact parseHexLoop_isSome firstHexit maxValue nextChar result parseState
    cases hc : hexitValue c with
    | none =>
      rw [parseHexLoop, if_neg hunderscore, hc]
      rfl
    | some hexit =>
      rw [parseHexLoop_hexit hc]
      split_ifs with hcheck hge
      · rfl
      · exact parseHexLoop_isSome firstHexit maxValue nextChar _ parseState
      · exact absurd (hex_step_ge (hex_check_no_wraparound (hexitValue_lt hc) hcheck)) hge

/-- Whatever `maxValue`, the no-wraparound assertions of `parseHexUnsignedInt` and
`parseDecimalUnsignedInt` hold.  A hexit that passes the check keeps `16 * result + hexit` below
`2 ^ 64`.  The decimal invariant holds of the start value, and a digit that passes the check
keeps it and keeps `10 * result + digit` below `2 ^ 64`.  So on every text neither function fails
an assertion. -/
theorem parseUnsignedInt_no_wraparound (maxValue : U64) :
    (∀ (result : U64) (hexit : Nat), hexit < 16 →
      ¬result > (maxValue - BitVec.ofNat 64 hexit) / 16 → result.toNat * 16 + hexit < 2 ^ 64) ∧
    DecimalLoopInvariant maxValue 0 ∧
    (∀ (result : U64) (digit : Nat), digit < 10 → DecimalLoopInvariant maxValue result →
      ¬result > (maxValue - BitVec.ofNat 64 digit) / 10 →
        result.toNat * 10 + digit < 2 ^ 64 ∧
          DecimalLoopInvariant maxValue (result * 10 + BitVec.ofNat 64 digit)) ∧
    ∀ (nextChar : List Char) (parseState : ParseState) (context : String),
      (parseDecimalUnsignedInt nextChar parseState maxValue context).isSome ∧
      ∀ x, x = 'x' ∨ x = 'X' →
        (parseHexUnsignedInt ('0' :: x :: nextChar) parseState maxValue).isSome :=
  ⟨fun _ _ => hex_check_no_wraparound, decimalLoopInvariant_zero maxValue,
    fun _ _ => decimal_step_no_wraparound, fun nextChar parseState context =>
      ⟨parseDecimalLoop_isSome nextChar maxValue context nextChar 0 parseState
        (decimalLoopInvariant_zero maxValue), fun x hx => by
          rw [parseHexUnsignedInt, if_pos hx]
          exact parseHexLoop_isSome _ maxValue nextChar 0 parseState⟩⟩

end Wavm.WAST
