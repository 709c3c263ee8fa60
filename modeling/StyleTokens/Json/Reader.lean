import StyleTokens.Data.Entries
import StyleTokens.Json.Value
import StyleTokens.Text.Numeral
import StyleTokens.Text.Unpaired

/-!
# Reading JSON

The reader takes the documents of the JSON standard, and three words for special numbers. Of
members with one key, the first gives the place and the last the value. There are limits to the
digits of an integer and to the depth of brackets. A document is read from left to right, so what
is wrong with it first is the fault.

## Main definitions

* `Json.ReadFault`: why a document is not read
* `Json.readText`, `Json.readNumber`, `Json.readValue`: texts, numbers and values at the start of
  a document
* `Json.read`: a whole document
-/

namespace StyleTokens.Json

/-- Why a document is not read. -/
inductive ReadFault where
  /-- It is not JSON. -/
  | malformed
  /-- An integer in it has too many digits. -/
  | tooLong (digits : Nat)
  /-- It has too many brackets inside one another. -/
  | tooDeep
  deriving DecidableEq, Repr

/-- How many brackets may be open at a time. -/
def depthLimit : Nat :=
  987

/-- The blanks of a document. -/
def isDocumentBlank (c : Char) : Bool :=
  c = ' ' || c = '\t' || c = '\n' || c = '\r'

/-- The document behind its blanks. -/
def skipBlanks (t : Text) : Text :=
  t.dropWhile isDocumentBlank

/-- The value of a hexadecimal digit. -/
def hexValue? (c : Char) : Option Nat :=
  if c.isDigit then some (c.toNat - 48)
  else if 'a' ≤ c && c ≤ 'f' then some (c.toNat - 87)
  else if 'A' ≤ c && c ≤ 'F' then some (c.toNat - 55)
  else none

/-- The value of four hexadecimal digits. -/
def unit? (a b c d : Char) : Option Nat := do
  return 4096 * (← hexValue? a) + 256 * (← hexValue? b) + 16 * (← hexValue? c) + (← hexValue? d)

/-- The character of an escape by one letter. -/
def letterEscape? : Char → Option Char
  | '"' => some '"'
  | '\\' => some '\\'
  | '/' => some '/'
  | 'b' => some '\x08'
  | 'f' => some '\x0c'
  | 'n' => some '\n'
  | 'r' => some '\r'
  | 't' => some '\t'
  | _ => none

/-- A part of a text: a character, or the escape of a UTF-16 unit. -/
inductive Part where
  /-- A character, or an escape by a letter. -/
  | char (c : Char)
  /-- An escape by a unit. -/
  | unit (n : Nat)
  deriving DecidableEq, Repr

/-- The parts of a text up to its closing quote, and the document behind it. -/
def readParts : Text → Option (List Part × Text)
  | [] => none
  | '"' :: rest => some ([], rest)
  | '\\' :: 'u' :: a :: b :: c :: d :: rest => do
    let n ← unit? a b c d
    let (parts, rest) ← readParts rest
    return (.unit n :: parts, rest)
  | '\\' :: e :: rest => do
    let c ← letterEscape? e
    let (parts, rest) ← readParts rest
    return (.char c :: parts, rest)
  | c :: rest => do
    if c.toNat < 0x20 || c = '\\' then none
    let (parts, rest) ← readParts rest
    return (.char c :: parts, rest)

/-- The first half of a pair of UTF-16 units. -/
def isHighUnit (n : Nat) : Bool :=
  0xd800 ≤ n && n < 0xdc00

/-- The second half of a pair of UTF-16 units. -/
def isLowUnit (n : Nat) : Bool :=
  0xdc00 ≤ n && n < 0xe000

/-- The character of a pair of UTF-16 units. -/
def pairChar (high low : Nat) : Char :=
  Char.ofNat (0x10000 + 0x400 * (high - 0xd800) + (low - 0xdc00))

/-- The character of a UTF-16 unit that has no partner. For a surrogate it is a private-use
character, which is not told apart from the same character as it stands in a document. -/
def unitChar (n : Nat) : Char :=
  if isHighUnit n || isLowUnit n then unpaired n else Char.ofNat n

/-- The text of the parts. Units next to one another make up a pair if they can. -/
def joinParts : List Part → Text
  | [] => []
  | .char c :: rest => c :: joinParts rest
  | .unit high :: .unit low :: rest =>
    if isHighUnit high && isLowUnit low then pairChar high low :: joinParts rest
    else unitChar high :: joinParts (.unit low :: rest)
  | .unit n :: rest => unitChar n :: joinParts rest

/-- The text behind an opening quote, and the document behind it. -/
def readText (t : Text) : Except ReadFault (Text × Text) :=
  match readParts t with
  | some (parts, rest) => .ok (joinParts parts, rest)
  | none => .error .malformed

/-- The digits of a fraction, behind its point. -/
def readFraction : Text → Text × Text
  | '.' :: d :: rest =>
    if d.isDigit then (d :: rest.takeWhile Char.isDigit, rest.dropWhile Char.isDigit)
    else ([], '.' :: d :: rest)
  | t => ([], t)

/-- The digits of an exponent with its sign. -/
def readSignedDigits (t : Text) : Option (Int × Text) :=
  let (negative, t) := match t with
    | '-' :: rest => (true, rest)
    | '+' :: rest => (false, rest)
    | _ => (false, t)
  let digits := t.takeWhile Char.isDigit
  if digits.isEmpty then none
  else
    let n : Int := Text.digitsValue digits
    some (if negative then -n else n, t.dropWhile Char.isDigit)

/-- An exponent, if there is one. -/
def readExponent (t : Text) : Option (Int × Text) :=
  match t with
  | 'e' :: rest => readSignedDigits rest
  | 'E' :: rest => readSignedDigits rest
  | _ => none

/-- The integer with the given digits. -/
def integerOf (negative : Bool) (digits : Text) : Except ReadFault Number :=
  if digitLimit < digits.length then .error (.tooLong digits.length)
  else
    let n : Int := Text.digitsValue digits
    .ok (.integer (if negative then -n else n))

/-- A number behind its sign. -/
def readUnsigned (negative : Bool) (t : Text) : Except ReadFault (Number × Text) :=
  let digits := if t.head? = some '0' then ['0'] else t.takeWhile Char.isDigit
  if digits.isEmpty then .error .malformed
  else
    let (fraction, rest) := readFraction (t.drop digits.length)
    let decimal (exponent : Int) : Number :=
      .decimal negative (Text.digitsValue (digits ++ fraction)) (exponent - fraction.length)
    match readExponent rest with
    | some (exponent, rest) => .ok (decimal exponent, rest)
    | none =>
      if fraction.isEmpty then (integerOf negative digits).map fun n => (n, rest)
      else .ok (decimal 0, rest)

/-- The words of a document and their values. -/
def wordValues : List (Text × Value) :=
  [("null".toList, .null), ("true".toList, .bool true), ("false".toList, .bool false),
    ("NaN".toList, .number .undefined), ("Infinity".toList, .number (.infinity false)),
    ("-Infinity".toList, .number (.infinity true))]

/-- A word at the start of the document. -/
def readWord? (t : Text) : Option (Value × Text) :=
  wordValues.findSome? fun (word, v) => (word.isPrefixOf? t).map fun rest => (v, rest)

/-- A number at the start of the document. -/
def readNumber : Text → Except ReadFault (Number × Text)
  | '-' :: t => readUnsigned true t
  | t => readUnsigned false t

/-- A word or a number at the start of the document. -/
def readPlain (t : Text) : Except ReadFault (Value × Text) :=
  match readWord? t with
  | some result => .ok result
  | none => (readNumber t).map fun (n, rest) => (.number n, rest)

mutual

/-- The value at the start of the document, in which so many brackets may be open. The second
argument bounds the number of steps. -/
def readValue (depth : Nat) : Nat → Text → Except ReadFault (Value × Text)
  | 0, _ => .error .malformed
  | fuel + 1, t =>
    match t, depth with
    | '"' :: rest, _ => (readText rest).map fun (t, rest) => (.text t, rest)
    | '[' :: _, 0 | '{' :: _, 0 => .error .tooDeep
    | '[' :: rest, depth + 1 =>
      match skipBlanks rest with
      | ']' :: rest => .ok (.array [], rest)
      | rest => (readItems depth fuel rest).map fun (vs, rest) => (.array vs, rest)
    | '{' :: rest, depth + 1 =>
      match skipBlanks rest with
      | '}' :: rest => .ok (.object [], rest)
      | rest =>
        (readMembers depth fuel rest).map fun (ms, rest) => (.object (Entries.ofList ms), rest)
    | _, _ => readPlain t

/-- The items of a list up to its closing bracket. -/
def readItems (depth : Nat) : Nat → Text → Except ReadFault (List Value × Text)
  | 0, _ => .error .malformed
  | fuel + 1, t => do
    let (v, rest) ← readValue depth fuel t
    match skipBlanks rest with
    | ']' :: rest => return ([v], rest)
    | ',' :: rest =>
      let (vs, rest) ← readItems depth fuel (skipBlanks rest)
      return (v :: vs, rest)
    | _ => .error .malformed

/-- The members of an object up to its closing brace. -/
def readMembers (depth : Nat) : Nat → Text → Except ReadFault (List (Text × Value) × Text)
  | 0, _ => .error .malformed
  | fuel + 1, t => do
    match t with
    | '"' :: rest =>
      let (key, rest) ← readText rest
      match skipBlanks rest with
      | ':' :: rest =>
        let (v, rest) ← readValue depth fuel (skipBlanks rest)
        match skipBlanks rest with
        | '}' :: rest => return ([(key, v)], rest)
        | ',' :: rest =>
          let (ms, rest) ← readMembers depth fuel (skipBlanks rest)
          return ((key, v) :: ms, rest)
        | _ => .error .malformed
      | _ => .error .malformed
    | _ => .error .malformed

end

/-- The value of a document. -/
def read (t : Text) : Except ReadFault Value := do
  let (v, rest) ← readValue depthLimit (2 * t.length + 2) (skipBlanks t)
  if (skipBlanks rest).isEmpty then return v else .error .malformed

end StyleTokens.Json
