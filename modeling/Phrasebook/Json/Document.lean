import Phrasebook.Json.Basic

/-!
# JSON documents

A `Document` is the syntax of a JSON text: repeated keys, numerals and escapes stand as they were
written. `Document.read` accepts exactly the grammar; `Document.json?` turns a document into a
value, which fails for a numeral out of range, an unpaired surrogate escape, or more than 127
containers inside each other. A repeated key keeps its first place and its last value.

Integers from -2^63 up to below 2^64 keep their value; everything else is a binary64 value: as many
leading digits as fit below 2^64 are taken, and their value is multiplied or divided by a power of
ten, each step rounded once.
-/

namespace Phrasebook

/-- A number as it is written; a digit is its value. -/
structure Numeral where
  negative : Bool
  whole : List Nat
  /-- The digits after the point; none if there is no point. -/
  fraction : List Nat
  /-- The exponent: whether it is negative, and its digits. -/
  exponent : Option (Bool × List Nat)
  deriving DecidableEq, Repr

namespace Numeral

/-- Appends digits to a significand as long as it stays below 2^64. The second component counts
the digits that were taken. -/
def absorb : Nat → List Nat → Nat × Nat
  | significand, [] => (significand, 0)
  | significand, d :: rest =>
    let next := significand * 10 + d
    if next < Nat.pow 2 64 then
      let (taken, count) := absorb next rest
      (taken, count + 1)
    else (significand, 0)

def nearest (n : Nat) : Float := Float.ofScientific n false 0

def powerOfTen (n : Nat) : Float := Float.ofScientific 1 false n

/-- `significand * 10 ^ exponent`, rounded after each operation. There are powers of ten up to
1e308, so a smaller scale takes two divisions, and below that everything is zero. -/
def scale (significand : Nat) (exponent : Int) : Option Float :=
  let base := nearest significand
  if 0 ≤ exponent then
    if significand = 0 then some base
    else if 308 < exponent then none
    else
      let scaled := base * powerOfTen exponent.toNat
      if scaled.isInf then none else some scaled
  else if -308 ≤ exponent then some (base / powerOfTen (-exponent).toNat)
  else if -616 ≤ exponent then some (base / powerOfTen 308 / powerOfTen (-exponent - 308).toNat)
  else some 0.0

def ofDigits (digits : List Nat) : Nat := digits.foldl (fun n d => n * 10 + d) 0

def signed (negative : Bool) (value : Float) : Number :=
  .double (if negative then -value else value).toBits

/-- The number that a numeral writes, if it is in range. -/
def number? (n : Numeral) : Option Number :=
  let (whole, wholeTaken) := absorb 0 n.whole
  let dropped := n.whole.length - wholeTaken
  if n.fraction.isEmpty && n.exponent.isNone && dropped = 0 then
    if !n.negative then some (.int whole)
    else if 0 < whole ∧ whole ≤ Nat.pow 2 63 then some (.int (-(whole : Int)))
    else some (signed true (nearest whole))
  else
    let (significand, fractionTaken) := absorb whole n.fraction
    let start : Int := (dropped : Int) - fractionTaken
    match n.exponent with
    | none => (scale significand start).map (signed n.negative)
    | some (down, digits) =>
      let written := ofDigits digits
      if Nat.pow 2 31 ≤ written then
        if significand ≠ 0 && !down then none else some (signed n.negative 0.0)
      else
        let exponent := if down then start - written else start + written
        (scale significand exponent).map (signed n.negative)

end Numeral

/-! ## Documents -/

inductive Letter where
  | char (c : Char)
  | unit (code : Nat)
  deriving DecidableEq, Repr

/-- The inside of a string as it is written. -/
abbrev Spelling := List Letter

namespace Spelling

def isHigh (code : Nat) : Bool := 0xD800 ≤ code && code ≤ 0xDBFF

def isLow (code : Nat) : Bool := 0xDC00 ≤ code && code ≤ 0xDFFF

/-- The characters that a spelling stands for. Surrogates only count in pairs. -/
def chars? : Spelling → Option (List Char)
  | [] => some []
  | .char c :: rest => (chars? rest).map (c :: ·)
  | .unit high :: .unit low :: rest =>
    if isHigh high then
      if isLow low then
        (chars? rest).map (Char.ofNat (0x10000 + (high - 0xD800) * 0x400 + (low - 0xDC00)) :: ·)
      else none
    else if isLow high then none
    else (chars? (.unit low :: rest)).map (Char.ofNat high :: ·)
  | .unit code :: rest =>
    if isHigh code || isLow code then none
    else (chars? rest).map (Char.ofNat code :: ·)

def text? (spelling : Spelling) : Option String := (chars? spelling).map String.ofList

end Spelling

inductive Document where
  | null
  | bool (value : Bool)
  | number (numeral : Numeral)
  | string (spelling : Spelling)
  | array (items : List Document)
  | object (fields : List (Spelling × Document))
  deriving Repr

namespace Document

/-- The blanks between the tokens of a document. -/
def isBlank (c : Char) : Bool := c = ' ' || c = '\n' || c = '\t' || c = '\r'

def skipBlanks (s : List Char) : List Char := s.dropWhile isBlank

def digits (s : List Char) : List Nat × List Char :=
  ((s.takeWhile Char.isDigit).map fun c => c.toNat - '0'.toNat, s.dropWhile Char.isDigit)

/-- The fraction of a numeral, if there is one: a point and at least one digit. -/
def fraction? : List Char → Option (List Nat × List Char)
  | '.' :: rest =>
    let (ds, rest) := digits rest
    if ds.isEmpty then none else some (ds, rest)
  | s => some ([], s)

/-- The exponent of a numeral, if there is one: its mark, a sign and at least one digit. -/
def exponent? (s : List Char) : Option (Option (Bool × List Nat) × List Char) :=
  match s with
  | c :: rest =>
    if c = 'e' || c = 'E' then
      let (down, rest) :=
        match rest with
        | '-' :: rest => (true, rest)
        | '+' :: rest => (false, rest)
        | _ => (false, rest)
      let (ds, rest) := digits rest
      if ds.isEmpty then none else some (some (down, ds), rest)
    else some (none, s)
  | [] => some (none, s)

/-- The numeral at the start of `s`. A leading zero stands alone before the point. -/
def numeral? (s : List Char) : Option (Numeral × List Char) := do
  let (negative, s) :=
    match s with
    | '-' :: rest => (true, rest)
    | _ => (false, s)
  let (whole, s) := digits s
  guard (!whole.isEmpty && (whole.head? ≠ some 0 || whole.length = 1))
  let (fraction, s) ← fraction? s
  let (exponent, s) ← exponent? s
  some (⟨negative, whole, fraction, exponent⟩, s)

def hexDigit? (c : Char) : Option Nat :=
  if c.isDigit then some (c.toNat - '0'.toNat)
  else if 'a' ≤ c && c ≤ 'f' then some (c.toNat - 'a'.toNat + 10)
  else if 'A' ≤ c && c ≤ 'F' then some (c.toNat - 'A'.toNat + 10)
  else none

/-- The letter that a backslash and `c` write, for the escapes of one letter. -/
def shortEscape? (c : Char) : Option Char :=
  if c = '"' || c = '\\' || c = '/' then some c
  else if c = 'b' then some '\x08'
  else if c = 'f' then some '\x0c'
  else if c = 'n' then some '\n'
  else if c = 'r' then some '\r'
  else if c = 't' then some '\t'
  else none

/-- The inside of a string up to its closing quote, and what follows the quote. -/
def spelling? : List Char → Option (Spelling × List Char)
  | [] => none
  | '"' :: rest => some ([], rest)
  | '\\' :: 'u' :: a :: b :: c :: d :: rest => do
    let a ← hexDigit? a
    let b ← hexDigit? b
    let c ← hexDigit? c
    let d ← hexDigit? d
    let (letters, rest) ← spelling? rest
    some (.unit (((a * 16 + b) * 16 + c) * 16 + d) :: letters, rest)
  | '\\' :: c :: rest => do
    let c ← shortEscape? c
    let (letters, rest) ← spelling? rest
    some (.char c :: letters, rest)
  | c :: rest =>
    if c = '\\' || c.toNat < 0x20 then none
    else do
      let (letters, rest) ← spelling? rest
      some (.char c :: letters, rest)

def word? (word : List Char) (s : List Char) : Option (List Char) :=
  if word.isPrefixOf s then some (s.drop word.length) else none

mutual

/-- The document at the start of `s`, which has no blanks in front. Each call reads a character
or is the only one for its character, so twice the length is enough fuel. -/
def readValue? (fuel : Nat) (s : List Char) : Option (Document × List Char) :=
  match fuel with
  | 0 => none
  | fuel + 1 =>
    match s with
    | '[' :: rest =>
      match skipBlanks rest with
      | ']' :: rest => some (.array [], rest)
      | rest => (readItems? fuel rest).map fun (items, rest) => (.array items, rest)
    | '{' :: rest =>
      match skipBlanks rest with
      | '}' :: rest => some (.object [], rest)
      | rest => (readFields? fuel rest).map fun (fields, rest) => (.object fields, rest)
    | '"' :: rest => (spelling? rest).map fun (letters, rest) => (.string letters, rest)
    | 'n' :: rest => (word? ['u', 'l', 'l'] rest).map fun rest => (.null, rest)
    | 't' :: rest => (word? ['r', 'u', 'e'] rest).map fun rest => (.bool true, rest)
    | 'f' :: rest => (word? ['a', 'l', 's', 'e'] rest).map fun rest => (.bool false, rest)
    | _ => (numeral? s).map fun (numeral, rest) => (.number numeral, rest)

def readItems? (fuel : Nat) (s : List Char) : Option (List Document × List Char) :=
  match fuel with
  | 0 => none
  | fuel + 1 => do
    let (item, rest) ← readValue? fuel s
    match skipBlanks rest with
    | ']' :: rest => some ([item], rest)
    | ',' :: rest =>
      let (items, rest) ← readItems? fuel (skipBlanks rest)
      some (item :: items, rest)
    | _ => none

def readFields? (fuel : Nat) (s : List Char) : Option (List (Spelling × Document) × List Char) :=
  match fuel with
  | 0 => none
  | fuel + 1 =>
    match s with
    | '"' :: rest => do
      let (key, rest) ← spelling? rest
      match skipBlanks rest with
      | ':' :: rest =>
        let (value, rest) ← readValue? fuel (skipBlanks rest)
        match skipBlanks rest with
        | '}' :: rest => some ([(key, value)], rest)
        | ',' :: rest =>
          let (fields, rest) ← readFields? fuel (skipBlanks rest)
          some ((key, value) :: fields, rest)
        | _ => none
      | _ => none
    | _ => none

end

def read (text : String) : Option Document :=
  let s := skipBlanks text.toList
  match readValue? (2 * s.length + 2) s with
  | some (document, rest) => if (skipBlanks rest).isEmpty then some document else none
  | none => none

mutual

/-- The value of a document with at most `depth` containers inside each other. -/
def toJson? (depth : Nat) : Document → Option Json
  | null => some .null
  | bool value => some (.bool value)
  | number numeral => numeral.number?.map .num
  | string spelling => spelling.text?.map .str
  | array items =>
    match depth with
    | 0 => none
    | depth + 1 => (itemsToJson? depth items).map .arr
  | object fields =>
    match depth with
    | 0 => none
    | depth + 1 => (fieldsToJson? depth [] fields).map .obj
termination_by structural document => document

def itemsToJson? (depth : Nat) : List Document → Option (List Json)
  | [] => some []
  | item :: rest => do
    let value ← toJson? depth item
    let values ← itemsToJson? depth rest
    some (value :: values)
termination_by structural items => items

def fieldsToJson? (depth : Nat) (done : Fields) : List (Spelling × Document) → Option Fields
  | [] => some done
  | (key, value) :: rest => do
    let key ← key.text?
    let value ← toJson? depth value
    fieldsToJson? depth (done.put key value) rest
termination_by structural fields => fields

end

def maxDepth : Nat := 127

def json? (document : Document) : Option Json := document.toJson? maxDepth

end Document

/-- The value that a JSON text writes. -/
def Json.read (text : String) : Option Json := (Document.read text).bind Document.json?

end Phrasebook
