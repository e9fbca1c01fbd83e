import Phrasebook.Decimal
import Phrasebook.Text.Basic

/-!
# JSON values

The one dynamic type of the library: schemas, datasets and variables are JSON values. Objects keep
the order of their document.
-/

namespace Phrasebook

/-- A JSON number: an integer as it was written, or a binary64 value given by its bits. -/
inductive Number where
  | int (value : Int)
  | double (bits : UInt64)
  deriving DecidableEq, Repr

namespace Number

def text : Number → String
  | int value => toString value
  | double bits => Decimal.text bits

end Number

inductive Json where
  | null
  | bool (value : Bool)
  | num (value : Number)
  | str (value : String)
  | arr (items : List Json)
  | obj (fields : List (String × Json))
  deriving Repr, Inhabited

/-- Named values in the order of their document. -/
abbrev Fields := List (String × Json)

inductive Kind where
  | null
  | boolean
  | number
  | string
  | array
  | object
  deriving DecidableEq, Repr

def Kind.word : Kind → String
  | null => "null"
  | boolean => "boolean"
  | number => "number"
  | string => "string"
  | array => "array"
  | object => "object"

def Fields.get? (fields : Fields) (key : String) : Option Json := fields.lookup key

/-- `fields` with `key` set: a key that is there keeps its place, a new one goes to the end. -/
def Fields.put (fields : Fields) (key : String) (value : Json) : Fields :=
  match fields with
  | [] => [(key, value)]
  | (k, v) :: rest =>
    if k = key then (k, value) :: rest else (k, v) :: Fields.put rest key value

namespace Json

def kind : Json → Kind
  | null => .null
  | bool _ => .boolean
  | num _ => .number
  | str _ => .string
  | arr _ => .array
  | obj _ => .object

/-- The fields of an object; no other value has any. -/
def fields? : Json → Option Fields
  | obj fields => some fields
  | _ => none

/-- The value under `key`, if the value is an object that has one. -/
def get? (value : Json) (key : String) : Option Json := value.fields?.bind (·.get? key)

/-! ## Compact text

No spaces, fields in their order, and in strings only what has to be escaped is.
-/

/-- The two hexadecimal digits of a code point below 256. -/
def hexPair (n : Nat) : List Char := [Nat.digitChar (n / 16 % 16), Nat.digitChar (n % 16)]

/-- `c` as it is written inside a string. -/
def escapedChar (c : Char) : List Char :=
  if c = '"' then ['\\', '"']
  else if c = '\\' then ['\\', '\\']
  else if c = '\x08' then ['\\', 'b']
  else if c = '\x0c' then ['\\', 'f']
  else if c = '\n' then ['\\', 'n']
  else if c = '\r' then ['\\', 'r']
  else if c = '\t' then ['\\', 't']
  else if c.toNat < 0x20 then ['\\', 'u', '0', '0'] ++ hexPair c.toNat
  else [c]

def escaped (s : String) : List Char := '"' :: s.toList.flatMap escapedChar ++ ['"']

mutual

def chars : Json → List Char
  | null => ['n', 'u', 'l', 'l']
  | bool true => ['t', 'r', 'u', 'e']
  | bool false => ['f', 'a', 'l', 's', 'e']
  | num value => value.text.toList
  | str value => escaped value
  | arr items => '[' :: itemChars items ++ [']']
  | obj fields => '{' :: fieldChars fields ++ ['}']
termination_by structural value => value

def itemChars : List Json → List Char
  | [] => []
  | item :: rest =>
    match rest with
    | [] => chars item
    | _ :: _ => chars item ++ ',' :: itemChars rest
termination_by structural items => items

def fieldChars : List (String × Json) → List Char
  | [] => []
  | (key, value) :: rest =>
    match rest with
    | [] => escaped key ++ ':' :: chars value
    | _ :: _ => escaped key ++ ':' :: chars value ++ ',' :: fieldChars rest
termination_by structural fields => fields

end

def text (value : Json) : String := String.ofList value.chars

/-! ## Pointers

A pointer is a list of reference tokens, each after a slash; `~1` stands for a slash and `~0` for
a tilde inside a token. A token selects a field of an object or, as a decimal index without
leading zeros, an item of an array.
-/

/-- A token without its `~1` escapes. -/
def unescapeSlash : List Char → List Char
  | '~' :: '1' :: rest => '/' :: unescapeSlash rest
  | c :: rest => c :: unescapeSlash rest
  | [] => []

/-- A token without its `~0` escapes. -/
def unescapeTilde : List Char → List Char
  | '~' :: '0' :: rest => '~' :: unescapeTilde rest
  | c :: rest => c :: unescapeTilde rest
  | [] => []

/-- The tokens of a pointer; a text that is not empty has to start with a slash. -/
def tokens? (pointer : List Char) : Option (List (List Char)) :=
  match pointer with
  | [] => some []
  | '/' :: rest =>
    some ((Text.splitOn '/' rest).map fun token => unescapeTilde (unescapeSlash token))
  | _ => none

def index? (token : List Char) : Option Nat :=
  match token with
  | [] => none
  | ['0'] => some 0
  | '0' :: _ => none
  | _ => if token.all Char.isDigit then some (Nat.ofDigitChars 10 token 0) else none

def child? (value : Json) (token : List Char) : Option Json :=
  match value with
  | obj fields => Fields.get? fields (String.ofList token)
  | arr items => (index? token).bind (items[·]?)
  | _ => none

/-- The value that a pointer selects. -/
def pointer? (value : Json) (pointer : String) : Option Json :=
  (tokens? pointer.toList).bind fun tokens => tokens.foldlM child? value

end Json

end Phrasebook
