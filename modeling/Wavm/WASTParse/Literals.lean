import Wavm.WASTParse.Loops

/-!
# Literals and what the parsers make of them

The lexer accepts an integer literal as an optional sign, then decimal digits, or `0x` and
hexits, with underscores anywhere among them; and a NaN as an optional sign, `nan`, and an
optional payload `:0x` followed by hexits and underscores.  `IntLiteral` and `NaNLiteral` are
those texts, with their grammar as fields.  The lexer ends a token where a separator follows.

`tryParseInt` declines a negative literal when the lower bound is zero, without taking the token.
Otherwise it takes the token, and it stores the literal's value modulo `2 ^ w` exactly when the
value lies between the bounds; outside them it records "too large".

`parseNaN` sets the sign and all exponent bits.  Without a payload it sets the top significand
bit.  With a payload it stores the payload in the significand, or `maxSignificand` when the
payload is too large.  A zero payload is reported as an error, and the significand it leaves is
zero: those are the bits of an infinity, not of a NaN.

`parseFloat` copies a number's characters lazily, only from its first underscore on; what it
hands `strtod` is still the number without its underscores, followed by the rest of the text
only when there were none.
-/

namespace Wavm.WAST

/-- `parseSign` leaves a text that starts with neither sign as it is. -/
theorem parseSign_of_ne {c : Char} (hminus : c ≠ '-') (hplus : c ≠ '+') (nextChar : List Char) :
    parseSign (c :: nextChar) = (false, c :: nextChar) := by
  unfold parseSign
  split <;> simp_all

/-- The sign of a literal: none, `+` or `-`. -/
def SignText (sign : List Char) : Prop := sign = [] ∨ sign = ['+'] ∨ sign = ['-']

/-- `parseSign` of a sign followed by a text that starts with neither sign. -/
theorem parseSign_append {sign : List Char} (hsign : SignText sign) {c : Char} (hminus : c ≠ '-')
    (hplus : c ≠ '+') (nextChar : List Char) :
    parseSign (sign ++ c :: nextChar) = (decide (sign = ['-']), c :: nextChar) := by
  rcases hsign with rfl | rfl | rfl
  · exact parseSign_of_ne hminus hplus nextChar
  · rfl
  · rfl

/-! ## Integer literals -/

/-- Modelled from the spec: the text of a `t_decimalInt` or `t_hexInt` token. -/
structure IntLiteral where
  sign : List Char
  hex : Bool
  /-- The digits (hexits when `hex`) and underscores after the sign and the `0x`. -/
  body : List Char
  sign_text : SignText sign
  body_chars : ∀ c ∈ body,
    c = '_' ∨ if hex then (hexitValue c).isSome = true else '0' ≤ c ∧ c ≤ '9'
  digit_mem : ∃ c ∈ body, c ≠ '_'

namespace IntLiteral

variable (literal : IntLiteral)

def negative : Bool := decide (literal.sign = ['-'])

/-- The text after the sign: `0x` for a hexadecimal literal, then the body. -/
def digits : List Char := (if literal.hex then ['0', 'x'] else []) ++ literal.body

def text : List Char := literal.sign ++ literal.digits

/-- The value of the digits. -/
def magnitude : Nat := digitsValue (if literal.hex then 16 else 10) 0 literal.body

/-- The mathematical value of the literal. -/
def value : Int := if literal.negative then -(literal.magnitude : Int) else literal.magnitude

def tokenType : TokenType := if literal.hex then .hexInt else .decimalInt

/-- The unsigned parse `tryParseInt` runs, after the sign, on a token of this literal's type. -/
def parseMagnitude (nextChar : List Char) (parseState : ParseState) (maxValue : U64) :
    Option (U64 × List Char × ParseState) :=
  if literal.hex then parseHexUnsignedInt nextChar parseState maxValue
  else parseDecimalUnsignedInt nextChar parseState maxValue "int literal"

/-- The message of the "too large" error of this literal's type. -/
def tooLarge : String :=
  if literal.hex then "integer literal is too large" else "int literal is too large"

/-- The text after the sign starts with `0`, an underscore or a digit, not with a sign. -/
theorem digits_eq_cons : ∃ c cs, literal.digits = c :: cs ∧ c ≠ '-' ∧ c ≠ '+' := by
  unfold digits
  cases hhex : literal.hex
  · obtain ⟨c, hc, -⟩ := literal.digit_mem
    obtain ⟨d, ds, hbody⟩ := List.exists_cons_of_ne_nil (List.ne_nil_of_mem hc)
    have hd := literal.body_chars d (hbody ▸ List.mem_cons_self d ds)
    simp only [hhex, if_false, Bool.false_eq_true] at hd
    refine ⟨d, ds, by simp [hbody], ?_, ?_⟩ <;> rintro rfl <;> revert hd <;> decide
  · exact ⟨'0', _, rfl, by decide, by decide⟩

theorem parseSign_text (rest : List Char) :
    parseSign (literal.text ++ rest) = (literal.negative, literal.digits ++ rest) := by
  obtain ⟨c, cs, hdigits, hminus, hplus⟩ := literal.digits_eq_cons
  rw [text, List.append_assoc, hdigits, List.cons_append,
    parseSign_append literal.sign_text hminus hplus]
  rfl

/-- On the digits of a literal followed by a separator, with `maxValue` at least 15, the unsigned
parse returns the value of the digits when it is within `maxValue`, and otherwise records "too
large" at the digits and returns `maxValue`. -/
theorem parseMagnitude_digits {maxValue : U64} (hmax : 15 ≤ maxValue.toNat) {rest : List Char}
    (hrest : ∀ c ∈ rest.head?, Separator c) (parseState : ParseState) :
    (literal.magnitude ≤ maxValue.toNat →
      literal.parseMagnitude (literal.digits ++ rest) parseState maxValue =
        some (BitVec.ofNat 64 literal.magnitude, rest, parseState)) ∧
    (maxValue.toNat < literal.magnitude → ∃ skipped,
      literal.parseMagnitude (literal.digits ++ rest) parseState maxValue =
        some (maxValue, skipped ++ rest,
          parseState.parseErrorf (literal.digits ++ rest) literal.tooLarge)) := by
  have hbody := literal.body_chars
  unfold parseMagnitude magnitude digits tooLarge
  cases hhex : literal.hex
  · simp only [hhex, if_false, Bool.false_eq_true, List.nil_append] at hbody ⊢
    rw [parseDecimalUnsignedInt,
      parseDecimalLoop_body (by omega) hrest _ hbody 0 parseState (Nat.zero_le _),
      show (0 : U64).toNat = 0 from rfl]
    exact ⟨fun h => if_pos h, fun h => ⟨[], by rw [if_neg (not_le.mpr h)]; rfl⟩⟩
  · simp only [hhex, if_true, List.append_assoc, List.cons_append, List.nil_append] at hbody ⊢
    rw [parseHexUnsignedInt, if_pos (.inl rfl)]
    exact parseHexLoop_body (by omega) hrest _ hbody 0 parseState (Nat.zero_le _)

/-- Whatever `maxValue`, the unsigned parse of a literal's digits returns. -/
theorem parseMagnitude_isSome (nextChar : List Char) (parseState : ParseState) (maxValue : U64) :
    (literal.parseMagnitude (literal.digits ++ nextChar) parseState maxValue).isSome := by
  unfold parseMagnitude digits
  cases literal.hex <;> simp only [if_false, if_true, Bool.false_eq_true, List.append_assoc,
    List.cons_append, List.nil_append]
  · exact parseDecimalLoop_isSome _ maxValue _ _ 0 parseState (decimalLoopInvariant_zero maxValue)
  · rw [parseHexUnsignedInt, if_pos (.inl rfl)]
    exact parseHexLoop_isSome _ maxValue _ 0 parseState

end IntLiteral

/-! ## `tryParseInt` -/

/-- Narrowing the `U64` of a magnitude to `w` bits gives the magnitude modulo `2 ^ w`. -/
theorem setWidth_ofNat_magnitude {w : Nat} (hw : w ≤ 64) (n : Nat) :
    (BitVec.ofNat 64 n).setWidth w = BitVec.ofInt w (n : Int) := by
  rw [BitVec.setWidth_ofNat_of_le hw, BitVec.ofInt_natCast]

/-- Narrowing the negated `U64` of a magnitude to `w` bits gives its negation modulo `2 ^ w`. -/
theorem setWidth_neg_ofNat {w : Nat} (hw : w ≤ 64) {n : Nat} (hn : n < 2 ^ 64) :
    (-(BitVec.ofNat 64 n)).setWidth w = BitVec.ofInt w (-(n : Int)) := by
  apply BitVec.eq_of_toNat_eq
  rw [BitVec.toNat_setWidth, BitVec.toNat_neg, BitVec.toNat_ofNat, BitVec.toNat_ofInt,
    Nat.mod_eq_of_lt hn]
  obtain ⟨k, hk⟩ : 2 ^ w ∣ 2 ^ 64 := pow_dvd_pow 2 hw
  have hpos : 0 < 2 ^ w := by positivity
  zify [show n ≤ 2 ^ 64 from hn.le]
  rw [Int.toNat_of_nonneg (Int.emod_nonneg _ (by exact_mod_cast hpos.ne'))]
  push_cast
  rw [Int.emod_emod_of_dvd _ (by exact_mod_cast (⟨k, hk⟩ : 2 ^ w ∣ 2 ^ 64)),
    show (18446744073709551616 : Int) = 2 ^ w * k by exact_mod_cast hk,
    show (2 ^ w * k : Int) - n = -n + 2 ^ w * k by ring, Int.add_mul_emod_self_left]

/-- The bound `-U64(minSignedValue)` of a negative `minSignedValue` is its magnitude. -/
theorem neg_toNat_of_toInt_neg {x : I64} (hx : x.toInt < 0) : ((-x).toNat : Int) = -x.toInt := by
  rw [BitVec.toInt_neg_iff] at hx
  rw [BitVec.toNat_neg, BitVec.toInt_eq_toNat_cond, if_neg (by omega)]
  have := x.isLt
  omega

/-- `tryParseInt` on a cursor at a literal's token: the sign, then the unsigned parse of the
literal's type with the bound for its sign, then the three outcomes of the code. -/
theorem tryParseInt_literal_eq {w : Nat} (cursor : CursorState) (outUnsignedInt : BitVec w)
    (minSignedValue : I64) (maxUnsignedValue : U64) (literal : IntLiteral) {token : Token}
    {tokens : List Token} {rest : List Char}
    (hcursor : cursor.nextToken = token :: tokens) (htype : token.type = literal.tokenType)
    (htext : cursor.parseState.string.drop token.begin = literal.text ++ rest) :
    tryParseInt w cursor outUnsignedInt minSignedValue maxUnsignedValue =
      match literal.parseMagnitude (literal.digits ++ rest) cursor.parseState
          (if literal.negative then -minSignedValue else maxUnsignedValue) with
      | none => none
      | some (u64, nextChar, parseState) =>
        if minSignedValue = 0 ∧ literal.negative then some (false, { cursor with parseState }, 0)
        else if tokens.head?.all fun next => offset cursor.parseState.string nextChar ≤ next.begin
        then
          some (true, ⟨parseState, tokens⟩,
            if literal.negative then (-u64).setWidth w else u64.setWidth w)
        else none := by
  unfold tryParseInt
  rw [hcursor]
  dsimp only
  rw [htype, htext, literal.parseSign_text]
  unfold IntLiteral.tokenType IntLiteral.parseMagnitude
  cases literal.hex <;> simp only [if_false, if_true, Bool.false_eq_true]
  · generalize parseDecimalUnsignedInt _ _ _ _ = parsed
    rcases parsed with _ | ⟨u64, nextChar, parseState⟩ <;> rfl
  · generalize parseHexUnsignedInt _ _ _ = parsed
    rcases parsed with _ | ⟨u64, nextChar, parseState⟩ <;> rfl

section Bounds

variable {minSignedValue : I64} {maxUnsignedValue : U64} (literal : IntLiteral)

/-- Unless the literal is negative with a lower bound of zero, the bound `tryParseInt` passes is
at least 15, and the literal's value lies between the bounds exactly when its magnitude is within
that bound. -/
theorem maxValue_of_bounds (hmax : 15 ≤ maxUnsignedValue.toNat)
    (hmin : minSignedValue = 0 ∨ minSignedValue.toInt ≤ -15)
    (hdeclined : ¬(literal.negative ∧ minSignedValue = 0)) :
    15 ≤ (if literal.negative then -minSignedValue else maxUnsignedValue).toNat ∧
      ((minSignedValue.toInt ≤ literal.value ∧ literal.value ≤ maxUnsignedValue.toNat) ↔
        literal.magnitude ≤ (if literal.negative then -minSignedValue else maxUnsignedValue).toNat) := by
  have hminInt : minSignedValue.toInt ≤ 0 := by
    rcases hmin with rfl | hmin
    · rfl
    · omega
  unfold IntLiteral.value
  cases hneg : literal.negative
  · simp only [if_false, Bool.false_eq_true]
    exact ⟨hmax, ⟨fun h => by exact_mod_cast h.2, fun h => ⟨by omega, by exact_mod_cast h⟩⟩⟩
  · have hmin' : minSignedValue.toInt ≤ -15 := hmin.resolve_left fun hzero => hdeclined ⟨hneg, hzero⟩
    have hbound := neg_toNat_of_toInt_neg (show minSignedValue.toInt < 0 by omega)
    simp only [if_true]
    exact ⟨by omega, ⟨fun h => by omega, fun h => ⟨by omega, by omega⟩⟩⟩

end Bounds

/-- `tryParseInt` on the token of an integer literal followed by a separator, for a bound pair
with `maxUnsignedValue` at least 15 and `minSignedValue` zero or at most -15.  A negative literal
with a lower bound of zero is declined: `tryParseInt` returns false and leaves the token.
Otherwise the token is taken and `true` returned; if the value lies between the bounds, no error is
recorded and the value modulo `2 ^ w` is stored; if not, "too large" is recorded at the digits. -/
theorem tryParseInt_literal {w : Nat} (hw : w ≤ 64) {minSignedValue : I64}
    {maxUnsignedValue : U64} (hmax : 15 ≤ maxUnsignedValue.toNat)
    (hmin : minSignedValue = 0 ∨ minSignedValue.toInt ≤ -15) (literal : IntLiteral)
    {cursor : CursorState} {token : Token} {tokens : List Token} {rest : List Char}
    (outUnsignedInt : BitVec w) (hcursor : cursor.nextToken = token :: tokens)
    (htype : token.type = literal.tokenType)
    (htext : cursor.parseState.string.drop token.begin = literal.text ++ rest)
    (hrest : ∀ c ∈ rest.head?, Separator c)
    (hnext : ∀ next ∈ tokens.head?, token.begin + literal.text.length ≤ next.begin) :
    if literal.negative ∧ minSignedValue = 0 then
      ∃ parseState, tryParseInt w cursor outUnsignedInt minSignedValue maxUnsignedValue =
        some (false, { cursor with parseState }, 0)
    else if minSignedValue.toInt ≤ literal.value ∧ literal.value ≤ maxUnsignedValue.toNat then
      tryParseInt w cursor outUnsignedInt minSignedValue maxUnsignedValue =
        some (true, ⟨cursor.parseState, tokens⟩, BitVec.ofInt w literal.value)
    else
      ∃ out, tryParseInt w cursor outUnsignedInt minSignedValue maxUnsignedValue =
        some (true,
          ⟨cursor.parseState.parseErrorf (literal.digits ++ rest) literal.tooLarge, tokens⟩, out) := by
  rw [tryParseInt_literal_eq cursor outUnsignedInt minSignedValue maxUnsignedValue literal hcursor
    htype htext]
  have hlength := congrArg List.length htext
  rw [List.length_drop, List.length_append] at hlength
  -- the parse stops inside the token, before the next one
  have hnextChar : ∀ skipped : List Char,
      tokens.head?.all (fun next => offset cursor.parseState.string (skipped ++ rest) ≤ next.begin) := by
    intro skipped
    cases tokens with
    | nil => rfl
    | cons next tokens =>
      have := hnext next rfl
      simp only [List.head?_cons, Option.all_some, decide_eq_true_eq, offset, List.length_append]
      omega
  by_cases hdeclined : literal.negative ∧ minSignedValue = 0
  · -- declined: whatever the unsigned parse returns, the token stays
    rw [if_pos hdeclined]
    obtain ⟨⟨u64, nextChar, parseState⟩, hparse⟩ :=
      Option.isSome_iff_exists.mp (literal.parseMagnitude_isSome rest cursor.parseState
        (if literal.negative then -minSignedValue else maxUnsignedValue))
    rw [hparse]
    exact ⟨parseState, if_pos ⟨hdeclined.2, hdeclined.1⟩⟩
  have ⟨hM, hiff⟩ := maxValue_of_bounds literal hmax hmin hdeclined
  rw [if_neg hdeclined]
  by_cases hrange : minSignedValue.toInt ≤ literal.value ∧ literal.value ≤ maxUnsignedValue.toNat
  · -- within the bounds: the value, and no error
    have hmagnitude := hiff.mp hrange
    rw [if_pos hrange, (literal.parseMagnitude_digits hM hrest cursor.parseState).1 hmagnitude]
    dsimp only
    rw [if_neg fun h => hdeclined ⟨h.2, h.1⟩, if_pos (by simpa using hnextChar [])]
    have hlt : literal.magnitude < 2 ^ 64 := lt_of_le_of_lt hmagnitude (BitVec.isLt _)
    unfold IntLiteral.value
    cases literal.negative
    · simp only [if_false, Bool.false_eq_true, setWidth_ofNat_magnitude hw]
    · simp only [if_true, setWidth_neg_ofNat hw hlt]
  · -- outside the bounds: "too large"
    obtain ⟨skipped, hparse⟩ :=
      (literal.parseMagnitude_digits hM hrest cursor.parseState).2 (not_le.mp (mt hiff.mpr hrange))
    rw [if_neg hrange, hparse]
    dsimp only
    rw [if_neg fun h => hdeclined ⟨h.2, h.1⟩, if_pos (hnextChar skipped)]
    exact ⟨_, rfl⟩

/-- The width of `UnsignedInt` and the bounds that each caller of `tryParseInt` passes:
`tryParseU64`, `tryParseUptr` (on a 64-bit host), `parseU32`, `parseI8`, `parseI16`, `parseI32` and
`parseI64`. -/
def callerBounds : List (Nat × I64 × U64) :=
  [(64, 0, BitVec.allOnes 64), (64, 0, BitVec.allOnes 64), (32, 0, BitVec.ofNat 64 (2 ^ 32 - 1)),
    (32, BitVec.ofInt 64 (-2 ^ 7), BitVec.ofNat 64 (2 ^ 8 - 1)),
    (32, BitVec.ofInt 64 (-2 ^ 15), BitVec.ofNat 64 (2 ^ 16 - 1)),
    (32, BitVec.ofInt 64 (-2 ^ 31), BitVec.ofNat 64 (2 ^ 32 - 1)),
    (64, BitVec.ofInt 64 (-2 ^ 63), BitVec.allOnes 64)]

theorem callerBounds_admissible :
    ∀ b ∈ callerBounds, b.1 ≤ 64 ∧ 15 ≤ b.2.2.toNat ∧ (b.2.1 = 0 ∨ b.2.1.toInt ≤ -15) := by
  decide

/-- `tryParseInt` on the token of an integer literal, for the bounds of each of its callers.  A
negative literal with a lower bound of zero is declined: `tryParseInt` returns false and leaves the
token.  Otherwise it takes the token and returns true; if the literal's value lies between the
bounds, it records no error and stores the value modulo `2 ^ w`; if not, it records "too large". -/
theorem tryParseInt_spec {w : Nat} {minSignedValue : I64} {maxUnsignedValue : U64}
    (hbounds : (w, minSignedValue, maxUnsignedValue) ∈ callerBounds) (literal : IntLiteral)
    {cursor : CursorState} {token : Token} {tokens : List Token} {rest : List Char}
    (outUnsignedInt : BitVec w) (hcursor : cursor.nextToken = token :: tokens)
    (htype : token.type = literal.tokenType)
    (htext : cursor.parseState.string.drop token.begin = literal.text ++ rest)
    (hrest : ∀ c ∈ rest.head?, Separator c)
    (hnext : ∀ next ∈ tokens.head?, token.begin + literal.text.length ≤ next.begin) :
    if literal.negative ∧ minSignedValue = 0 then
      ∃ parseState, tryParseInt w cursor outUnsignedInt minSignedValue maxUnsignedValue =
        some (false, { cursor with parseState }, 0)
    else if minSignedValue.toInt ≤ literal.value ∧ literal.value ≤ maxUnsignedValue.toNat then
      tryParseInt w cursor outUnsignedInt minSignedValue maxUnsignedValue =
        some (true, ⟨cursor.parseState, tokens⟩, BitVec.ofInt w literal.value)
    else
      ∃ out, tryParseInt w cursor outUnsignedInt minSignedValue maxUnsignedValue =
        some (true,
          ⟨cursor.parseState.parseErrorf (literal.digits ++ rest) literal.tooLarge, tokens⟩, out) :=
  have ⟨hw, hmax, hmin⟩ := callerBounds_admissible _ hbounds
  tryParseInt_literal hw hmax hmin literal outUnsignedInt hcursor htype htext hrest hnext

/-- The literal `-128`. -/
def sampleInt8Min : IntLiteral :=
  ⟨['-'], false, ['1', '2', '8'], .inr (.inr rfl), by decide, by decide⟩

/-- A cursor at the token `-128`, followed by `)`. -/
def sampleInt8MinCursor : CursorState :=
  ⟨⟨"-128)".toList, []⟩, [⟨.decimalInt, 0⟩, ⟨.other, 4⟩]⟩

theorem tryParseInt_spec_int8Min :
    (32, BitVec.ofInt 64 (-2 ^ 7), BitVec.ofNat 64 (2 ^ 8 - 1)) ∈ callerBounds ∧
    if sampleInt8Min.negative ∧ BitVec.ofInt 64 (-2 ^ 7) = 0 then
      ∃ parseState, tryParseInt 32 sampleInt8MinCursor 0 (BitVec.ofInt 64 (-2 ^ 7))
        (BitVec.ofNat 64 (2 ^ 8 - 1)) = some (false, { sampleInt8MinCursor with parseState }, 0)
    else if (BitVec.ofInt 64 (-2 ^ 7)).toInt ≤ sampleInt8Min.value ∧
        sampleInt8Min.value ≤ (BitVec.ofNat 64 (2 ^ 8 - 1)).toNat then
      tryParseInt 32 sampleInt8MinCursor 0 (BitVec.ofInt 64 (-2 ^ 7)) (BitVec.ofNat 64 (2 ^ 8 - 1)) =
        some (true, ⟨sampleInt8MinCursor.parseState, [⟨.other, 4⟩]⟩,
          BitVec.ofInt 32 sampleInt8Min.value)
    else
      ∃ out, tryParseInt 32 sampleInt8MinCursor 0 (BitVec.ofInt 64 (-2 ^ 7))
        (BitVec.ofNat 64 (2 ^ 8 - 1)) =
        some (true, ⟨sampleInt8MinCursor.parseState.parseErrorf (sampleInt8Min.digits ++ [')'])
          sampleInt8Min.tooLarge, [⟨.other, 4⟩]⟩, out) :=
  ⟨by decide, tryParseInt_spec (by decide) sampleInt8Min 0 rfl rfl (by decide) (by decide)
    (by decide)⟩

/-! ## NaN literals -/

/-- Modelled from the spec: the text of a `t_floatNaN` token. -/
structure NaNLiteral where
  sign : List Char
  /-- The hexits and underscores after `:0x`, when the literal has a payload. -/
  payload : Option (List Char)
  sign_text : SignText sign
  payload_chars : ∀ body ∈ payload, ∀ c ∈ body, c = '_' ∨ (hexitValue c).isSome = true

namespace NaNLiteral

variable (literal : NaNLiteral)

def negative : Bool := decide (literal.sign = ['-'])

/-- The text after `nan`: the payload with its `:0x`, if any. -/
def afterNan : List Char := (literal.payload.map fun body => ':' :: '0' :: 'x' :: body).getD []

def text : List Char := literal.sign ++ 'n' :: 'a' :: 'n' :: literal.afterNan

theorem parseSign_text (rest : List Char) :
    parseSign (literal.text ++ rest) =
      (literal.negative, 'n' :: 'a' :: 'n' :: (literal.afterNan ++ rest)) := by
  rw [text, List.append_assoc, List.cons_append,
    parseSign_append literal.sign_text (by decide) (by decide)]
  rfl

end NaNLiteral

theorem FloatType.maxSignificand_toNat (F : FloatType) :
    F.maxSignificand.toNat = 2 ^ F.numSignificandBits - 1 := by
  cases F <;> rfl

theorem FloatType.numSignificandBits_le (F : FloatType) : F.numSignificandBits ≤ 64 := by
  cases F <;> decide

/-- `parseNaN` of a NaN literal followed by a separator sets the literal's sign and all exponent
bits.  Without a payload it sets the top significand bit and records nothing.  With a payload it
stores the payload in the significand, or all ones when the payload is above `maxSignificand`,
where it records "too large".  A zero payload is stored as it is: the significand is zero, and the
error "NaN significand must be non-zero" is recorded. -/
theorem parseNaN_spec (F : FloatType) (literal : NaNLiteral) {rest : List Char}
    (hrest : ∀ c ∈ rest.head?, Separator c) (parseState : ParseState) :
    ∃ components nextChar parseState',
      parseNaN F (literal.text ++ rest) parseState = some (components, nextChar, parseState') ∧
      components.sign = (if literal.negative then 1 else 0) ∧
      components.exponent = F.maxExponentBits ∧
      match literal.payload with
      | none =>
        components.significand = BitVec.ofNat _ (2 ^ (F.numSignificandBits - 1)) ∧
          parseState' = parseState
      | some body =>
        components.significand = (if digitsValue 16 0 body ≤ F.maxSignificand.toNat then
          BitVec.ofNat _ (digitsValue 16 0 body) else BitVec.allOnes _) ∧
        parseState' = if digitsValue 16 0 body = 0 then
            parseState.parseErrorf (literal.text ++ rest) "NaN significand must be non-zero"
          else if F.maxSignificand.toNat < digitsValue 16 0 body then
            parseState.parseErrorf ('0' :: 'x' :: (body ++ rest)) "integer literal is too large"
          else parseState := by
  have hmax : 15 ≤ F.maxSignificand.toNat := by cases F <;> decide
  unfold parseNaN
  rw [literal.parseSign_text]
  dsimp only
  cases hpayload : literal.payload with
  | none =>
    -- no payload: the character after `nan` is the separator, not a colon, so the match takes
    -- its default branch (simp discharges the branch's side condition with `hcolon`)
    have hafter : literal.afterNan = [] := by rw [NaNLiteral.afterNan, hpayload]; rfl
    rw [hafter, List.nil_append]
    have hcolon : ∀ nextChar, rest ≠ ':' :: nextChar := fun nextChar h => by
      subst h; exact (hrest ':' rfl).2.1 rfl
    simp only []
    refine ⟨⟨if literal.negative then 1 else 0, F.maxExponentBits,
      BitVec.ofNat _ (2 ^ (F.numSignificandBits - 1))⟩, rest, parseState, ?_, rfl, rfl, rfl, rfl⟩
    rw [← Nat.one_shiftLeft]
    rfl
  | some body =>
    have hafter : literal.afterNan = ':' :: '0' :: 'x' :: body := by
      rw [NaNLiteral.afterNan, hpayload]; rfl
    have hbody := literal.payload_chars body hpayload
    rw [hafter, List.cons_append, List.cons_append, List.cons_append]
    simp only []
    rw [parseHexUnsignedInt, if_pos (.inl rfl)]
    have hloop := @parseHexLoop_body ('0' :: 'x' :: (body ++ rest)) _ hmax _ hrest body hbody 0
      parseState (Nat.zero_le _)
    rw [show (0 : U64).toNat = 0 from rfl] at hloop
    by_cases hle : digitsValue 16 0 body ≤ F.maxSignificand.toNat
    · -- the payload is stored, and a zero payload is reported
      rw [hloop.1 hle]
      have hlt : digitsValue 16 0 body < 2 ^ 64 := lt_of_le_of_lt hle (BitVec.isLt _)
      have hzero : BitVec.ofNat 64 (digitsValue 16 0 body) = 0 ↔ digitsValue 16 0 body = 0 := by
        rw [BitVec.toNat_eq, BitVec.toNat_ofNat, Nat.mod_eq_of_lt hlt]
        rfl
      refine ⟨_, _, _, rfl, ?_, ?_, ?_, ?_⟩ <;> dsimp only
      · split <;> rfl
      · split <;> rfl
      · rw [if_pos hle, BitVec.setWidth_ofNat_of_le F.numSignificandBits_le]
      · rw [if_neg (not_lt.mpr hle), apply_ite Prod.snd, if_congr hzero rfl rfl]
    · -- too large: `maxSignificand`, which is not zero
      obtain ⟨skipped, hparse⟩ := hloop.2 (not_le.mp hle)
      rw [hparse]
      have hne : F.maxSignificand ≠ 0 := fun h => by
        have := congrArg BitVec.toNat h
        rw [show (0 : U64).toNat = 0 from rfl] at this
        omega
      have hpos : digitsValue 16 0 body ≠ 0 := by omega
      refine ⟨_, _, _, rfl, ?_, ?_, ?_, ?_⟩ <;> dsimp only
      · rw [if_neg hne]
      · rw [if_neg hne]
      · rw [if_neg hle]
        apply BitVec.eq_of_toNat_eq
        rw [BitVec.toNat_setWidth, F.maxSignificand_toNat, BitVec.toNat_allOnes,
          Nat.mod_eq_of_lt (Nat.sub_lt (by positivity) one_pos)]
      · rw [if_neg hne, if_neg hpos, if_pos (not_le.mp hle)]

/-- A NaN literal whose payload is zero parses to all exponent bits and a zero significand: the
bits of an infinity, not of a NaN.  The significand of 1 that the error branch sets is overwritten
by the payload. -/
theorem parseNaN_zero_payload_infinity (F : FloatType) (literal : NaNLiteral) {rest : List Char}
    (hrest : ∀ c ∈ rest.head?, Separator c) {body : List Char}
    (hpayload : literal.payload = some body) (hzero : digitsValue 16 0 body = 0)
    (parseState : ParseState) :
    ∃ components nextChar parseState',
      parseNaN F (literal.text ++ rest) parseState = some (components, nextChar, parseState') ∧
      components.exponent = F.maxExponentBits ∧ components.significand = 0 := by
  obtain ⟨components, nextChar, parseState', hparse, -, hexponent, hpayloadSpec⟩ :=
    parseNaN_spec F literal hrest parseState
  rw [hpayload] at hpayloadSpec
  refine ⟨components, nextChar, parseState', hparse, hexponent, ?_⟩
  rw [hpayloadSpec.1, if_pos (by rw [hzero]; exact Nat.zero_le _), hzero]
  rfl

/-- The text "nan:0x0". -/
def sampleZeroNaN : NaNLiteral := ⟨[], some ['0'], .inl rfl, fun _ h => by cases h; decide⟩

theorem parseNaN_zero_payload_infinity_sampleZeroNaN :
    sampleZeroNaN.text = "nan:0x0".toList ∧ sampleZeroNaN.payload = some ['0'] ∧
      digitsValue 16 0 ['0'] = 0 ∧
      ∃ components nextChar parseState',
        parseNaN .f32 (sampleZeroNaN.text ++ []) ⟨"nan:0x0".toList, []⟩ =
          some (components, nextChar, parseState') ∧
        components.exponent = FloatType.f32.maxExponentBits ∧ components.significand = 0 :=
  ⟨rfl, rfl, by decide,
    parseNaN_zero_payload_infinity .f32 sampleZeroNaN (by decide) rfl (by decide) _⟩

/-! ## Other float literals -/

/-- The loop of `parseFloat` from any point of the text, with `done` the characters it has taken
so far: if `hasUnderscores` says whether they hold an underscore and, once they do,
`noUnderscoreString` is them without underscores, then the loop stops after the numeric
characters, and the same holds of everything it took. -/
theorem parseFloatLoop_spec {firstChar : List Char} (nextChar : List Char) {done : List Char}
    {hasUnderscores : Bool} {noUnderscoreString : List Char} (hsplit : firstChar = done ++ nextChar)
    (hhas : hasUnderscores = true ↔ '_' ∈ done)
    (hcopy : hasUnderscores = true → noUnderscoreString = done.filter (· != '_')) :
    ∃ hasUnderscores' noUnderscoreString',
      parseFloatLoop firstChar nextChar hasUnderscores noUnderscoreString =
        (nextChar.dropWhile isNumericChar, hasUnderscores', noUnderscoreString') ∧
      (hasUnderscores' = true ↔ '_' ∈ done ++ nextChar.takeWhile isNumericChar) ∧
      (hasUnderscores' = true →
        noUnderscoreString' = (done ++ nextChar.takeWhile isNumericChar).filter (· != '_')) := by
  induction nextChar generalizing done hasUnderscores noUnderscoreString with
  | nil => exact ⟨_, _, rfl, by simpa using hhas, by simpa using hcopy⟩
  | cons c nextChar ih =>
    by_cases hc : isNumericChar c = false
    · exact ⟨hasUnderscores, noUnderscoreString, by simp [parseFloatLoop, hc],
        by simpa [hc] using hhas, by simpa [hc] using hcopy⟩
    rw [Bool.not_eq_false] at hc
    have hsplit' : firstChar = (done ++ [c]) ++ nextChar := by simp [hsplit]
    have htake : done ++ (c :: nextChar).takeWhile isNumericChar =
        (done ++ [c]) ++ nextChar.takeWhile isNumericChar := by simp [List.takeWhile_cons, hc]
    rw [htake, List.dropWhile_cons, if_pos hc]
    simp only [parseFloatLoop, hc, Bool.not_true, Bool.false_eq_true, if_false]
    split_ifs with hfirst hafter
    · -- the first underscore: copy what came before it
      obtain ⟨rfl, hfalse⟩ := hfirst
      have hnot : '_' ∉ done := fun h => by simp [hhas.mpr h] at hfalse
      refine ih hsplit' (by simp) fun _ => ?_
      rw [hsplit, offset, List.length_append, List.length_cons, Nat.add_sub_cancel_right,
        List.take_left', List.filter_append,
        List.filter_eq_self.mpr fun a ha => bne_iff_ne.mpr fun h : a = '_' => hnot (h ▸ ha)]
      · simp
      · rfl
    · -- after it: append what is not an underscore
      obtain ⟨hne, htrue⟩ := hafter
      exact ih hsplit' (by simp [hhas.mp htrue, htrue]) fun _ => by simp [hcopy htrue, hne]
    · -- an underscore after the first, or no underscore yet
      by_cases hunderscore : c = '_'
      · subst hunderscore
        have htrue : hasUnderscores = true := by simpa using hfirst
        exact ih hsplit' (by simp [htrue]) fun _ => by simp [hcopy htrue]
      · have hfalse : hasUnderscores = false := by simpa [hunderscore] using hafter
        exact ih hsplit' (by simp [← hhas, hfalse, Ne.symm hunderscore]) fun h => by
          simp [hfalse] at h

/-- `parseFloat` hands `strtof` or `strtod` the characters of the number without their
underscores, followed by the rest of the text only when there were none; the copy it makes from
the first underscore on is that text.  It leaves the text after the number, and records "float
literal is too large" exactly when the value is infinite. -/
theorem parseFloat_strips_underscores {Float : Type}
    (parseNonSpecialFloat : List Char → Float × Nat) (isInf : Float → Bool) (nextChar : List Char)
    (parseState : ParseState) :
    parseFloat parseNonSpecialFloat isInf nextChar parseState =
      let numeric := nextChar.takeWhile isNumericChar
      let rest := nextChar.dropWhile isNumericChar
      let parsed := parseNonSpecialFloat
        (numeric.filter (· != '_') ++ if '_' ∈ numeric then [] else rest)
      if parsed.2 = 0 then none
      else
        some (parsed.1, rest,
          if isInf parsed.1 then parseState.parseErrorf nextChar "float literal is too large"
          else parseState) := by
  obtain ⟨hasUnderscores, noUnderscoreString, hloop, hhas, hcopy⟩ :=
    @parseFloatLoop_spec nextChar nextChar [] false [] (List.nil_append _).symm (by simp) (by simp)
  rw [List.nil_append] at hhas hcopy
  have hcopied : (if hasUnderscores then noUnderscoreString else nextChar) =
      (nextChar.takeWhile isNumericChar).filter (· != '_') ++
        if '_' ∈ nextChar.takeWhile isNumericChar then []
        else nextChar.dropWhile isNumericChar := by
    by_cases hunderscore : '_' ∈ nextChar.takeWhile isNumericChar
    · rw [if_pos (hhas.mpr hunderscore), hcopy (hhas.mpr hunderscore), if_pos hunderscore,
        List.append_nil]
    · rw [if_neg (fun h => hunderscore (hhas.mp h)), if_neg hunderscore,
        List.filter_eq_self.mpr fun a ha =>
          bne_iff_ne.mpr fun h : a = '_' => hunderscore (h ▸ ha),
        List.takeWhile_append_dropWhile]
  simp only [parseFloat, hloop, hcopied]

end Wavm.WAST
