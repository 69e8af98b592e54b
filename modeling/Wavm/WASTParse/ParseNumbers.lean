import Mathlib.Data.BitVec

/-!
# Parsing numeric literals of the text format

`ParseNumbers.cpp` turns the numeric tokens the lexer produced into values.  Its functions read
the text through a `const char*` that they advance, and report problems with `parseErrorf`,
which records an error and lets the parse go on.  Here the pointer is the text from it to the end
(`nextChar : List Char`): the character at the pointer is the head of the list, and past the end
the NUL terminator, which no loop accepts.  An error records where it points by the text from
there on.

The integer loops check before each step that the next digit keeps the value within `maxValue`;
once it would not, they record "too large", return `maxValue` and skip the rest of the digits.
Each step also asserts that it does not wrap (`wavmAssert(result * 10 + digit >= result)`); a
failed assertion ends the process and is `none` here.

`tryParseInt` parses the token under the cursor as an integer between `minSignedValue` and
`maxUnsignedValue`, and `parseNaN` builds the bits of a NaN from its optional hexadecimal payload.
`parseFloat` scans the characters of a number, copies them without their underscores, and hands
the copy to `gdtoa`'s `strtof` or `strtod`; those two are a parameter here, given as the value
they return and the number of characters they read.
-/

namespace Wavm.WAST

abbrev U8 := BitVec 8

abbrev U64 := BitVec 64

abbrev I64 := BitVec 64

/-! ## Parse state -/

/-- An error that `parseErrorf` records: the text from where it points on, and its message. -/
structure ParseError where
  locus : List Char
  message : String
  deriving DecidableEq, Repr

/-- `ParseState`: the text being parsed and the errors recorded so far. -/
structure ParseState where
  string : List Char
  errors : List ParseError
  deriving DecidableEq, Repr

/-- `parseErrorf`: record an error at `locus`. -/
def ParseState.parseErrorf (parseState : ParseState) (locus : List Char) (message : String) :
    ParseState :=
  { parseState with errors := parseState.errors ++ [⟨locus, message⟩] }

/-- Modelled from the spec: the token types of the lexer that `tryParseInt` tells apart. -/
inductive TokenType
  | decimalInt
  | hexInt
  | other
  deriving DecidableEq, Repr

/-- Modelled from the spec: a token of the lexer, its type and where its text begins. -/
structure Token where
  type : TokenType
  begin : Nat
  deriving DecidableEq, Repr

/-- `CursorState`: the parse state, and the token `nextToken` points at with those after it. -/
structure CursorState where
  parseState : ParseState
  nextToken : List Token
  deriving DecidableEq, Repr

/-- Where in `string` the text `nextChar` starts, as `nextChar - string`. -/
def offset (string nextChar : List Char) : Nat := string.length - nextChar.length

/-! ## Digits -/

/-- Modelled from the spec: the value `tryParseHexit` gives a hexadecimal digit. -/
def hexitValue (c : Char) : Option U8 :=
  if '0' ≤ c ∧ c ≤ '9' then some (BitVec.ofNat 8 (c.toNat - '0'.toNat))
  else if 'a' ≤ c ∧ c ≤ 'f' then some (BitVec.ofNat 8 (c.toNat - 'a'.toNat + 10))
  else if 'A' ≤ c ∧ c ≤ 'F' then some (BitVec.ofNat 8 (c.toNat - 'A'.toNat + 10))
  else none

/-- `while(tryParseHexit(nextChar, hexit)) {}`: skip the hexits at `nextChar`. -/
def skipHexits : List Char → List Char
  | [] => []
  | c :: nextChar => if (hexitValue c).isSome then skipHexits nextChar else c :: nextChar

/-- `while((*nextChar >= '0' && *nextChar <= '9') || *nextChar == '_') { ++nextChar; }`. -/
def skipDigits : List Char → List Char
  | [] => []
  | c :: nextChar => if ('0' ≤ c ∧ c ≤ '9') ∨ c = '_' then skipDigits nextChar else c :: nextChar

/-- `parseSign`: whether a `-` was parsed, and the text after the sign. -/
def parseSign : List Char → Bool × List Char
  | '-' :: nextChar => (true, nextChar)
  | '+' :: nextChar => (false, nextChar)
  | nextChar => (false, nextChar)

/-! ## Unsigned integers -/

/-- The loop of `parseHexUnsignedInt` from `nextChar` on, with `result` so far: the value, the
text after the literal and the parse state, or `none` when the no-wraparound assertion fails. -/
def parseHexLoop (firstHexit : List Char) (maxValue : U64) :
    List Char → U64 → ParseState → Option (U64 × List Char × ParseState)
  | [], result, parseState => some (result, [], parseState)
  | c :: nextChar, result, parseState =>
    if c = '_' then parseHexLoop firstHexit maxValue nextChar result parseState
    else match hexitValue c with
      | none => some (result, c :: nextChar, parseState)
      | some hexit =>
        if result > (maxValue - hexit.setWidth 64) / 16 then
          some (maxValue, skipHexits nextChar,
            parseState.parseErrorf firstHexit "integer literal is too large")
        else if result * 16 + hexit.setWidth 64 ≥ result then
          parseHexLoop firstHexit maxValue nextChar (result * 16 + hexit.setWidth 64) parseState
        else none

/-- `parseHexUnsignedInt`: the literal starts with `0x`. -/
def parseHexUnsignedInt (nextChar : List Char) (parseState : ParseState) (maxValue : U64) :
    Option (U64 × List Char × ParseState) :=
  match nextChar with
  | '0' :: x :: hexits =>
    if x = 'x' ∨ x = 'X' then parseHexLoop nextChar maxValue hexits 0 parseState else none
  | _ => none

/-- The loop of `parseDecimalUnsignedInt` from `nextChar` on, with `result` so far. -/
def parseDecimalLoop (firstDigit : List Char) (maxValue : U64) (context : String) :
    List Char → U64 → ParseState → Option (U64 × List Char × ParseState)
  | [], result, parseState => some (result, [], parseState)
  | c :: nextChar, result, parseState =>
    if c = '_' then parseDecimalLoop firstDigit maxValue context nextChar result parseState
    else if c < '0' ∨ c > '9' then some (result, c :: nextChar, parseState)
    else
      let digit : U8 := BitVec.ofNat 8 (c.toNat - '0'.toNat)
      if result > (maxValue - digit.setWidth 64) / 10 then
        some (maxValue, skipDigits nextChar,
          parseState.parseErrorf firstDigit (context ++ " is too large"))
      else if result * 10 + digit.setWidth 64 ≥ result then
        parseDecimalLoop firstDigit maxValue context nextChar (result * 10 + digit.setWidth 64)
          parseState
      else none

/-- `parseDecimalUnsignedInt`. -/
def parseDecimalUnsignedInt (nextChar : List Char) (parseState : ParseState) (maxValue : U64)
    (context : String) : Option (U64 × List Char × ParseState) :=
  parseDecimalLoop nextChar maxValue context nextChar 0 parseState

/-! ## NaN -/

/-- Modelled from the spec: the two instantiations of `FloatComponents`, for `F32` and `F64`. -/
inductive FloatType
  | f32
  | f64
  deriving DecidableEq, Repr

/-- Modelled from the spec: `FloatComponents<Float>::numSignificandBits`. -/
def FloatType.numSignificandBits : FloatType → Nat
  | .f32 => 23
  | .f64 => 52

/-- Modelled from the spec: the width of the exponent field of `FloatComponents<Float>`. -/
def FloatType.numExponentBits : FloatType → Nat
  | .f32 => 8
  | .f64 => 11

/-- Modelled from the spec: `FloatComponents<Float>::maxSignificand`, as the `U64` that
`parseNaN` passes to `parseHexUnsignedInt`. -/
def FloatType.maxSignificand (F : FloatType) : U64 := BitVec.ofNat 64 (2 ^ F.numSignificandBits - 1)

/-- Modelled from the spec: `FloatComponents<Float>::bits`, the three fields of the float. -/
structure FloatComponents (F : FloatType) where
  sign : BitVec 1
  exponent : BitVec F.numExponentBits
  significand : BitVec F.numSignificandBits
  deriving DecidableEq, Repr

/-- Modelled from the spec: `FloatComponents<Float>::maxExponentBits`. -/
def FloatType.maxExponentBits (F : FloatType) : BitVec F.numExponentBits := BitVec.allOnes _

/-- `parseNaN<Float>`: the components of the NaN, the text after it and the parse state. -/
def parseNaN (F : FloatType) (nextChar : List Char) (parseState : ParseState) :
    Option (FloatComponents F × List Char × ParseState) :=
  let firstChar := nextChar
  let (isNegative, nextChar) := parseSign nextChar
  let resultComponents : FloatComponents F :=
    ⟨if isNegative then 1 else 0, F.maxExponentBits, 0⟩
  match nextChar with
  | 'n' :: 'a' :: 'n' :: nextChar =>
    match nextChar with
    | ':' :: nextChar => do
      let (significandBits, nextChar, parseState) ←
        parseHexUnsignedInt nextChar parseState F.maxSignificand
      let (resultComponents, parseState) :=
        if significandBits = 0 then
          ({ resultComponents with significand := 1 },
            parseState.parseErrorf firstChar "NaN significand must be non-zero")
        else (resultComponents, parseState)
      pure ({ resultComponents with significand := significandBits.setWidth _ }, nextChar,
        parseState)
    | nextChar =>
      pure ({ resultComponents with significand := 1 <<< (F.numSignificandBits - 1) }, nextChar,
        parseState)
  | _ => none

/-- `parseInfinity<Float>`: the components of the infinity; it does not advance the text. -/
def parseInfinity (F : FloatType) (nextChar : List Char) : FloatComponents F :=
  ⟨if (parseSign nextChar).1 then 1 else 0, F.maxExponentBits, 0⟩

/-! ## Other floats -/

/-- The characters `parseFloat` takes as part of the number. -/
def isNumericChar (c : Char) : Bool :=
  ('0' ≤ c && c ≤ '9') || ('a' ≤ c && c ≤ 'f') || ('A' ≤ c && c ≤ 'F') || c == 'x' ||
    c == 'X' || c == 'p' || c == 'P' || c == '+' || c == '-' || c == '.' || c == '_'

/-- The loop of `parseFloat` from `nextChar` on, with `hasUnderscores` and `noUnderscoreString`
so far: the text after the number and the two at its end.  At the first underscore the
characters before it are copied, `std::string(firstChar, nextChar)`; after it each character
that is not an underscore is appended. -/
def parseFloatLoop (firstChar : List Char) :
    List Char → Bool → List Char → List Char × Bool × List Char
  | [], hasUnderscores, noUnderscoreString => ([], hasUnderscores, noUnderscoreString)
  | c :: nextChar, hasUnderscores, noUnderscoreString =>
    if !isNumericChar c then (c :: nextChar, hasUnderscores, noUnderscoreString)
    else if c = '_' ∧ hasUnderscores = false then
      parseFloatLoop firstChar nextChar true (firstChar.take (offset firstChar (c :: nextChar)))
    else if c ≠ '_' ∧ hasUnderscores = true then
      parseFloatLoop firstChar nextChar hasUnderscores (noUnderscoreString ++ [c])
    else parseFloatLoop firstChar nextChar hasUnderscores noUnderscoreString

/-- `parseFloat<Float>`, with `parseNonSpecialFloat` the value `strtof` or `strtod` returns for a
text and the number of its characters they read, and `isInf` whether a value is infinite: the
value, the text after the number and the parse state.  `Errors::fatalf` when they read nothing is
`none`. -/
def parseFloat {Float : Type} (parseNonSpecialFloat : List Char → Float × Nat)
    (isInf : Float → Bool) (nextChar : List Char) (parseState : ParseState) :
    Option (Float × List Char × ParseState) :=
  let firstChar := nextChar
  let (nextChar, hasUnderscores, noUnderscoreString) := parseFloatLoop firstChar firstChar false []
  let noUnderscoreFirstChar := if hasUnderscores then noUnderscoreString else firstChar
  let (result, parsedLength) := parseNonSpecialFloat noUnderscoreFirstChar
  if parsedLength = 0 then none
  else
    some (result, nextChar,
      if isInf result then parseState.parseErrorf firstChar "float literal is too large"
      else parseState)

/-! ## Integers of a range -/

/-- `tryParseInt<UnsignedInt>` with `UnsignedInt` of `w` bits: whether the token under the cursor
was taken, the cursor after it, and `outUnsignedInt`. -/
def tryParseInt (w : Nat) (cursor : CursorState) (outUnsignedInt : BitVec w)
    (minSignedValue : I64) (maxUnsignedValue : U64) : Option (Bool × CursorState × BitVec w) :=
  match cursor.nextToken with
  | [] => some (false, cursor, outUnsignedInt)
  | token :: tokens =>
    let string := cursor.parseState.string
    let nextChar := string.drop token.begin
    let maxValue (isNegative : Bool) : U64 :=
      if isNegative then -minSignedValue else maxUnsignedValue
    let parsed : Option (Option (Bool × U64 × List Char × ParseState)) :=
      match token.type with
      | .decimalInt =>
        let (isNegative, nextChar) := parseSign nextChar
        (parseDecimalUnsignedInt nextChar cursor.parseState (maxValue isNegative)
          "int literal").map fun parsed => some (isNegative, parsed)
      | .hexInt =>
        let (isNegative, nextChar) := parseSign nextChar
        (parseHexUnsignedInt nextChar cursor.parseState (maxValue isNegative)).map
          fun parsed => some (isNegative, parsed)
      | .other => some none
    match parsed with
    | none => none
    | some none => some (false, cursor, outUnsignedInt)
    | some (some (isNegative, u64, nextChar, parseState)) =>
      if minSignedValue = 0 ∧ isNegative then some (false, { cursor with parseState }, 0)
      else if tokens.head?.all fun next => offset string nextChar ≤ next.begin then
        some (true, ⟨parseState, tokens⟩, if isNegative then (-u64).setWidth w else u64.setWidth w)
      else none

/-- `tryParseU64`. -/
def tryParseU64 (cursor : CursorState) (outI64 : U64) : Option (Bool × CursorState × U64) :=
  tryParseInt 64 cursor outI64 0 (BitVec.allOnes 64)

/-- `tryParseUptr`, on a 64-bit host. -/
def tryParseUptr (cursor : CursorState) (outUptr : BitVec 64) :
    Option (Bool × CursorState × BitVec 64) :=
  tryParseInt 64 cursor outUptr 0 (BitVec.allOnes 64)

/-- The text of the token under the cursor, where `parseErrorf(cursor->parseState,
cursor->nextToken, ...)` points. -/
def CursorState.tokenLocus (cursor : CursorState) : List Char :=
  cursor.parseState.string.drop ((cursor.nextToken.head?.map Token.begin).getD
    cursor.parseState.string.length)

/-- `parseU32`, `parseI8`, `parseI16`, `parseI32` and `parseI64`: `tryParseInt` into a `w`-bit
`result`, and on failure the error `message` and `RecoverParseException`, here `none` in the
second component. -/
def parseIntLiteral (w : Nat) (minSignedValue : I64) (maxUnsignedValue : U64) (message : String)
    (cursor : CursorState) : Option (CursorState × Option (BitVec w)) := do
  let (parsed, cursor, result) ← tryParseInt w cursor 0 minSignedValue maxUnsignedValue
  if parsed then pure (cursor, some result)
  else
    pure ({ cursor with parseState := cursor.parseState.parseErrorf cursor.tokenLocus message },
      none)

/-- `parseU32`. -/
def parseU32 (cursor : CursorState) : Option (CursorState × Option (BitVec 32)) :=
  parseIntLiteral 32 0 (BitVec.ofNat 64 (2 ^ 32 - 1)) "expected u32 literal" cursor

/-- `parseI8`: the `U32` result narrowed to `I8`. -/
def parseI8 (cursor : CursorState) : Option (CursorState × Option (BitVec 8)) :=
  (parseIntLiteral 32 (BitVec.ofInt 64 (-2 ^ 7)) (BitVec.ofNat 64 (2 ^ 8 - 1))
    "expected i8 literal" cursor).map fun (cursor, result) => (cursor, result.map (·.setWidth 8))

/-- `parseI16`: the `U32` result narrowed to `I16`. -/
def parseI16 (cursor : CursorState) : Option (CursorState × Option (BitVec 16)) :=
  (parseIntLiteral 32 (BitVec.ofInt 64 (-2 ^ 15)) (BitVec.ofNat 64 (2 ^ 16 - 1))
    "expected i16 literal" cursor).map fun (cursor, result) => (cursor, result.map (·.setWidth 16))

/-- `parseI32`. -/
def parseI32 (cursor : CursorState) : Option (CursorState × Option (BitVec 32)) :=
  parseIntLiteral 32 (BitVec.ofInt 64 (-2 ^ 31)) (BitVec.ofNat 64 (2 ^ 32 - 1))
    "expected i32 literal" cursor

/-- `parseI64`. -/
def parseI64 (cursor : CursorState) : Option (CursorState × Option (BitVec 64)) :=
  parseIntLiteral 64 (BitVec.ofInt 64 (-2 ^ 63)) (BitVec.allOnes 64) "expected i64 literal" cursor

end Wavm.WAST
