import Deduction.Toml.Value

/-!
# Numbers, times and truth values of TOML

These values are written without quotes, so each is a run of letters, digits, signs, points, colons and underscores.
The functions here decide what such a run stands for.  Readers of a part yield the characters after it.
-/

namespace Deduction

namespace Toml

/-! ### Digits -/

/-- A digit to the given base, letters counting from ten. -/
def digitValue? (base : Nat) (c : Char) : Option Nat :=
  let value := if c.isDigit then c.toNat - 48
    else if 'a' ≤ c ∧ c ≤ 'f' then c.toNat - 87
    else if 'A' ≤ c ∧ c ≤ 'F' then c.toNat - 55
    else base
  if value < base then some value else none

/-- The value of digits that are all valid to the base. -/
def number? (base : Nat) (digits : List Char) : Option Nat :=
  digits.foldlM (fun n c => (digitValue? base c).map (base * n + ·)) 0

/-- The parts between underscores. -/
def groups : List Char → List (List Char)
  | [] => [[]]
  | c :: rest =>
    if c = '_' then [] :: groups rest
    else match groups rest with
      | [] => [[c]]
      | group :: more => (c :: group) :: more

/-- Digits without the underscores between them, of which each stands between two digits. -/
def digits? (base : Nat) (text : List Char) : Option (List Char) :=
  let parts := groups text
  if parts.all (fun part => !part.isEmpty && part.all fun c => (digitValue? base c).isSome) then some parts.flatten
  else none

/-- A sign, which may be missing, and what follows it.  The sign is true for minus. -/
def splitSign : List Char → Bool × List Char
  | '+' :: rest => (false, rest)
  | '-' :: rest => (true, rest)
  | text => (false, text)

/-- Decimal digits, the first of which is zero only if it is the only one. -/
def decimalDigits? (text : List Char) : Option (List Char) :=
  match digits? 10 text with
  | some ('0' :: _ :: _) => none
  | other => other

/-! ### Integers -/

/-- Integers of 64 bits with a sign lie below this bound, and not below its negation. -/
def integerBound : Nat := Nat.pow 2 63

/-- An integer that fits into 64 bits with a sign. -/
def bounded? (n : Int) : Option Int := if -(integerBound : Int) ≤ n ∧ n < integerBound then some n else none

/-- An integer. -/
def integer? (text : List Char) : Option Int :=
  let based (base : Nat) (rest : List Char) : Option Int := do
    bounded? (← number? base (← digits? base rest))
  match text with
  | '0' :: 'x' :: rest => based 16 rest
  | '0' :: 'o' :: rest => based 8 rest
  | '0' :: 'b' :: rest => based 2 rest
  | _ => do
    let (negative, rest) := splitSign text
    let n ← number? 10 (← decimalDigits? rest)
    bounded? (if negative then -(n : Int) else n)

/-! ### Floats -/

/-- Positive decimals from this bound on are rounded to infinity by the binary format of 64 bits. -/
def floatBound : Nat := Nat.pow 2 1024 - Nat.pow 2 970

/-- `mantissa * 10 ^ exponent` reaches `floatBound`.  The first two tests settle all but the exponents near the
bound. -/
def overflows (mantissa : Nat) (exponent : Int) : Bool :=
  let magnitude := (Nat.toDigits 10 mantissa).length + exponent
  if mantissa = 0 ∨ magnitude < 300 then false
  else if 320 < magnitude then true
  else if 0 ≤ exponent then floatBound ≤ mantissa * Nat.pow 10 exponent.toNat
  else floatBound * Nat.pow 10 (-exponent).toNat ≤ mantissa

/-- The exponent of a float. -/
def exponent? (text : List Char) : Option Int := do
  let (negative, rest) := splitSign text
  let n ← number? 10 (← digits? 10 rest)
  return if negative then -(n : Int) else n

/-- A float is a decimal with a fraction, an exponent or both, or a special value.  It is not beyond the range. -/
def isFloat (text : List Char) : Bool :=
  let (negative, rest) := splitSign text
  if rest = ['i', 'n', 'f'] ∨ rest = ['n', 'a', 'n'] then true
  else
    let whole := rest.takeWhile fun c => c.isDigit || c == '_'
    let afterWhole := rest.drop whole.length
    let (fraction, afterFraction) : Option (List Char) × List Char := match afterWhole with
      | '.' :: more =>
        let part := more.takeWhile fun c => c.isDigit || c == '_'
        (some part, more.drop part.length)
      | _ => (none, afterWhole)
    let exponent : Option (List Char) := match afterFraction with
      | 'e' :: more | 'E' :: more => some more
      | _ => none
    let outcome : Option Bool := do
      let wholeDigits ← decimalDigits? whole
      let fractionDigits ← match fraction with
        | some part => digits? 10 part
        | none => some []
      let power ← match exponent with
        | some part => exponent? part
        | none => if afterFraction = [] ∧ fraction.isSome then some 0 else none
      let mantissa ← number? 10 (wholeDigits ++ fractionDigits)
      return negative || !overflows mantissa (power - fractionDigits.length)
    outcome.getD false

/-! ### Dates and times -/

/-- Reads a number of exactly `width` digits within bounds. -/
def fixedNumber? (width low high : Nat) (text : List Char) : Option (Nat × List Char) := do
  let digits := text.take width
  if digits.length = width ∧ digits.all Char.isDigit then
    let n ← number? 10 digits
    if low ≤ n ∧ n ≤ high then some (n, text.drop width) else none
  else none

/-- Reads one given character. -/
def afterChar? (c : Char) : List Char → Option (List Char)
  | x :: rest => if x = c then some rest else none
  | [] => none

/-- The days of a month. -/
def daysIn (year month : Nat) : Nat :=
  if month = 2 then if year % 4 = 0 ∧ (year % 100 ≠ 0 ∨ year % 400 = 0) then 29 else 28
  else if month = 4 ∨ month = 6 ∨ month = 9 ∨ month = 11 then 30
  else 31

/-- Reads a date. -/
def afterDate? (text : List Char) : Option (List Char) := do
  let (year, rest) ← fixedNumber? 4 0 9999 text
  let (month, rest) ← fixedNumber? 2 1 12 (← afterChar? '-' rest)
  let (_, rest) ← fixedNumber? 2 1 (daysIn year month) (← afterChar? '-' rest)
  return rest

/-- Reads a time of day. -/
def afterTime? (text : List Char) : Option (List Char) := do
  let (_, rest) ← fixedNumber? 2 0 23 text
  let (_, rest) ← fixedNumber? 2 0 59 (← afterChar? ':' rest)
  let (_, rest) ← fixedNumber? 2 0 60 (← afterChar? ':' rest)
  match rest with
  | '.' :: more =>
    if (more.takeWhile Char.isDigit).isEmpty then none else some (more.dropWhile Char.isDigit)
  | _ => some rest

/-- Reads an offset from universal time, which may be missing. -/
def afterOffset? : List Char → Option (List Char)
  | 'Z' :: rest | 'z' :: rest => some rest
  | '+' :: rest | '-' :: rest => do
    let (_, rest) ← fixedNumber? 2 0 23 rest
    let (_, rest) ← fixedNumber? 2 0 59 (← afterChar? ':' rest)
    return rest
  | text => some text

/-- A date and nothing else. -/
def isDate (text : List Char) : Bool := afterDate? text == some []

/-- A time of day with an optional offset, as it follows a date. -/
def isTimeWithOffset (text : List Char) : Bool := (afterTime? text >>= afterOffset?) == some []

/-- A date, a time of day, or a date with a time after the letter `T`. -/
def isTime (text : List Char) : Bool :=
  isDate text || afterTime? text == some [] ||
    match afterDate? text with
    | some ('T' :: rest) | some ('t' :: rest) => isTimeWithOffset rest
    | _ => false

/-! ### Values -/

/-- The characters that unquoted values are made of. -/
def isScalarChar (c : Char) : Bool := c.isAlphanum || c == '_' || c == '+' || c == '-' || c == '.' || c == ':'

/-- What a run of such characters stands for. -/
def scalar? (text : List Char) : Option Value :=
  if text = ['t', 'r', 'u', 'e'] then some (.boolean true)
  else if text = ['f', 'a', 'l', 's', 'e'] then some (.boolean false)
  else if isTime text then some (.time text)
  else if isFloat text then some (.float text)
  else (integer? text).map .integer

end Toml

end Deduction
