import Deduction.Toml.Scalar

/-!
# Reading TOML documents

`Toml.parse` reads a document and yields the entries of its root table, or nothing if the text is no TOML document.
-/

namespace Deduction

namespace Toml

/-- A scanner reads the beginning of a text.  Where it fails nothing is read. -/
abbrev Scan := StateT (List Char) Option

namespace Scan

variable {α β : Type}

/-- Reads a character that satisfies `p`. -/
def charWhere (p : Char → Bool) : Scan Char := fun text =>
  match text with
  | c :: rest => if p c then some (c, rest) else none
  | [] => none

/-- Reads the character `c`. -/
def char (c : Char) : Scan Char := charWhere (· == c)

/-- Reads the given characters. -/
def chars : List Char → Scan Unit
  | [] => pure ()
  | c :: rest => do
    let _ ← char c
    chars rest

/-- Reads the longest run of characters that satisfy `p`. -/
def takeWhile (p : Char → Bool) : Scan (List Char) := fun text => some (text.takeWhile p, text.dropWhile p)

/-- Reads `m` as often as it succeeds and gets further. -/
def manyFrom (m : Scan α) (text : List Char) : List α × List Char :=
  match m text with
  | some (a, rest) =>
    if rest.length < text.length then
      let (more, last) := manyFrom m rest
      (a :: more, last)
    else ([], text)
  | none => ([], text)
termination_by text.length

/-- Reads `m` as often as it succeeds and gets further. -/
def many (m : Scan α) : Scan (List α) := fun text => some (manyFrom m text)

/-- Reads `m` one or more times, with `separator` in between. -/
def separated (m : Scan α) (separator : Scan β) : Scan (List α) := do
  let first ← m
  let more ← many (separator *> m)
  return first :: more

/-- Reads `m`, which may be missing. -/
def optional (m : Scan α) : Scan (Option α) := (some <$> m) <|> pure none

/-- The end of the text. -/
def atEnd : Scan Unit := fun text => if text.isEmpty then some ((), []) else none

end Scan

open Scan

/-! ### Blanks, comments, ends of lines -/

/-- A space or a tab. -/
def isBlankChar (c : Char) : Bool := c == ' ' || c == '\t'

/-- A character that may stand in comments and strings: no control character other than the tab. -/
def isTextChar (c : Char) : Bool := c == '\t' || (0x20 ≤ c.toNat && c.toNat ≠ 0x7F)

/-- Blanks within a line. -/
def blanks : Scan Unit := do let _ ← takeWhile isBlankChar

/-- The end of a line. -/
def newline : Scan Unit := chars ['\n'] <|> chars ['\r', '\n']

/-- A comment, up to the end of its line. -/
def comment : Scan Unit := do
  let _ ← char '#'
  let _ ← takeWhile isTextChar

/-- The end of a line or of the document. -/
def lineEnd : Scan Unit := newline <|> atEnd

/-- What may follow a statement on its line. -/
def trailing : Scan Unit := do
  blanks
  let _ ← Scan.optional comment
  lineEnd

/-- Blanks, ends of lines and comments between the elements of an array. -/
def gap : Scan Unit := do let _ ← many ((do let _ ← charWhere isBlankChar) <|> newline <|> comment)

/-! ### Strings -/

/-- The quotation mark, which delimits strings with escape sequences. -/
def quotationMark : Char := Char.ofNat 0x22

/-- The apostrophe, which delimits strings without escape sequences. -/
def apostrophe : Char := Char.ofNat 0x27

/-- The backslash, which starts an escape sequence. -/
def backslash : Char := Char.ofNat 0x5C

/-- The escape sequences of one letter. -/
def shortEscapes : List (Char × Char) :=
  [('b', Char.ofNat 0x08), ('t', Char.ofNat 0x09), ('n', Char.ofNat 0x0A), ('f', Char.ofNat 0x0C),
   ('r', Char.ofNat 0x0D), (quotationMark, quotationMark), (backslash, backslash)]

/-- Reads a character by its code point, given as `width` hexadecimal digits. -/
def codePoint (width : Nat) : Scan Char := fun text => do
  let n ← number? 16 (text.take width)
  if (text.take width).length = width ∧ n.isValidChar then some (Char.ofNat n, text.drop width) else none

/-- Reads an escape sequence. -/
def escape : Scan Char := do
  let _ ← char backslash
  let c ← charWhere fun _ => true
  if c = 'u' then codePoint 4
  else if c = 'U' then codePoint 8
  else match shortEscapes.lookup c with
    | some meant => return meant
    | none => failure

/-- A character that stands for itself in a string between quotation marks. -/
def basicChar : Scan Char := charWhere fun c => isTextChar c && c != quotationMark && c != backslash

/-- A character that stands for itself in a string between apostrophes. -/
def literalChar : Scan Char := charWhere fun c => isTextChar c && c != apostrophe

/-- A string between quotation marks. -/
def basicString : Scan String := do
  let _ ← char quotationMark
  let content ← many (basicChar <|> escape)
  let _ ← char quotationMark
  return String.ofList content

/-- A string between apostrophes. -/
def literalString : Scan String := do
  let _ ← char apostrophe
  let content ← many literalChar
  let _ ← char apostrophe
  return String.ofList content

/-- Reads a run of `quote` that does not close a string of several lines. -/
def innerQuotes (quote : Char) : Scan (List Char) := do
  let run ← takeWhile (· == quote)
  if run.isEmpty ∨ 3 ≤ run.length then failure else return run

/-- Reads the three quotes that close a string of several lines, and up to two before them that belong to it. -/
def closingQuotes (quote : Char) : Scan (List Char) := fun text =>
  let run := text.takeWhile (· == quote)
  if run.length < 3 then none
  else
    let inner := min (run.length - 3) 2
    some (run.take inner, text.drop (inner + 3))

/-- A backslash at the end of a line, with the blank space up to the next character. -/
def lineContinuation : Scan (List Char) := do
  let _ ← char backslash
  blanks
  newline
  let _ ← many ((do let _ ← charWhere isBlankChar) <|> newline)
  return []

/-- A string of several lines.  A line end right after the opening quotes is left out. -/
def longString (quote : Char) (piece : Scan (List Char)) : Scan String := do
  chars [quote, quote, quote]
  let _ ← Scan.optional newline
  let content ← many ((do newline; return ['\n']) <|> piece <|> innerQuotes quote)
  let last ← closingQuotes quote
  return String.ofList (content.flatten ++ last)

/-- A string. -/
def string : Scan String :=
  longString quotationMark (((fun c => [c]) <$> (basicChar <|> escape)) <|> lineContinuation) <|>
  longString apostrophe ((fun c => [c]) <$> literalChar) <|>
  basicString <|> literalString

/-! ### Keys -/

/-- A key without its path. -/
def simpleKey : Scan String :=
  (do
    let key ← takeWhile fun c => c.isAlphanum || c == '_' || c == '-'
    if key.isEmpty then failure else return String.ofList key) <|>
  basicString <|> literalString

/-- Keys, arrays and inline tables nest less deep than this. -/
def nestingBound : Nat := 80

/-- A dotted key, as its path and its last part. -/
def key : Scan (List String × String) := do
  let parts ← separated (do blanks; let part ← simpleKey; blanks; return part) (char '.')
  match parts.getLast? with
  | some last => if parts.length < nestingBound then return (parts.dropLast, last) else failure
  | none => failure

/-! ### Values -/

/-- An unquoted value.  A blank may stand between a date and its time. -/
def scalar : Scan Value := do
  let run ← takeWhile isScalarChar
  let timeAfterDate : Scan Value := do
    if isDate run then
      let _ ← char ' '
      let time ← takeWhile isScalarChar
      if isTimeWithOffset time then return .time (run ++ ' ' :: time) else failure
    else failure
  timeAfterDate <|> StateT.lift (scalar? run)

/-- A key and its value.  Nothing but blanks stands around the equals sign. -/
def keyValue (value : Scan Value) : Scan (List String × String × Value) := do
  let (path, last) ← key
  let _ ← char '='
  blanks
  return (path, last, ← value)

/-- An array of what `element` reads.  A comma may follow the last element. -/
def arrayOf (element : Scan Value) : Scan Value := do
  let _ ← char '['
  let items ← Scan.optional (separated (do gap; let item ← element; gap; return item) (char ','))
  if items.isSome then
    let _ ← Scan.optional (char ',')
  gap
  let _ ← char ']'
  return .array false (items.getD [])

/-- An inline table with values that `element` reads. -/
def inlineTableOf (element : Scan Value) : Scan Value := do
  let _ ← char '\x7b'
  blanks
  let items ← Scan.optional (separated (do let item ← keyValue element; blanks; return item) (char ','))
  blanks
  let _ ← char '\x7d'
  let add (entries : Entries) (item : List String × String × Value) := entries.insert item.1 item.2.1 item.2.2
  StateT.lift do return .table .inline (← (items.getD []).foldlM add [])

/-- A value, with arrays and inline tables nested at most so deep. -/
def value : Nat → Scan Value
  | 0 => (.string <$> string) <|> scalar
  | depth + 1 =>
    (.string <$> string) <|> arrayOf (value depth) <|> inlineTableOf (value depth) <|> scalar

/-! ### Documents -/

/-- A line of a document that says something. -/
inductive Statement where
  | entry (path : List String) (key : String) (value : Value)
  | table (path : List String) (key : String)
  | element (path : List String) (key : String)

/-- Reads a statement, or a line without one. -/
def statement : Scan (Option Statement) := do
  blanks
  (do newline; return none) <|>
  (do comment; lineEnd; return none) <|>
  (do
    chars ['[', '[']
    let (path, last) ← key
    chars [']', ']']
    trailing
    return some (.element path last)) <|>
  (do
    let _ ← char '['
    let (path, last) ← key
    let _ ← char ']'
    trailing
    return some (.table path last)) <|>
  (do
    let (path, last, v) ← keyValue (value (nestingBound - 1))
    trailing
    return some (.entry path last v))

/-- The root table, and the path of the table that entries are added to. -/
structure Build where
  root : Entries
  current : List String

/-- Adds what a statement says. -/
def Build.add (b : Build) : Statement → Option Build
  | .entry path key v => do
    let root ← Entries.update .implicit (fun _ entries => entries.insert path key v) b.current .header b.root
    return { b with root }
  | .table path key => do return ⟨← b.root.openTable path key, path ++ [key]⟩
  | .element path key => do return ⟨← b.root.openElement path key, path ++ [key]⟩

/-- Reads a document.  A byte order mark may come first. -/
def statements : Scan (List Statement) := do
  let _ ← Scan.optional (char (Char.ofNat 0xFEFF))
  let lines ← many statement
  blanks
  atEnd
  return lines.filterMap id

/-- The entries of the root table of a document. -/
def parse (text : String) : Option Entries := do
  let (statements, _) ← statements text.toList
  let built ← statements.foldlM Build.add ⟨[], []⟩
  return built.root

end Toml

end Deduction
