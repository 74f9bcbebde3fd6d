/-!
# Compact JSON text

A small type of JSON values and its one written form: no white space, record fields
in the order given, and in strings only the escapes that the grammar needs. A quote
and a backslash are preceded by a backslash, the five control characters with a
letter of their own are written with it, the other characters below U+0020 as four
hex digits, and everything else stands as it is.

Every document of this library goes through `Value.render`, so what the written form
determines can be shown once, for all of them.
-/

namespace RtspControl.Json

/-- A JSON value, as far as documents of this library use one. -/
inductive Value where
  | text (s : String)
  | number (n : Nat)
  | list (items : List Value)
  | record (fields : List (String × Value))
  deriving Repr, Inhabited

/-! ### Strings -/

def hexDigit (n : Nat) : Char :=
  if n < 10 then Char.ofNat ('0'.toNat + n) else Char.ofNat ('a'.toNat + (n - 10))

def escaped (c : Char) : List Char :=
  if c = '"' then ['\\', '"']
  else if c = '\\' then ['\\', '\\']
  else if c = '\x08' then ['\\', 'b']
  else if c = '\x0c' then ['\\', 'f']
  else if c = '\n' then ['\\', 'n']
  else if c = '\r' then ['\\', 'r']
  else if c = '\t' then ['\\', 't']
  else if c.toNat < 0x20 then
    ['\\', 'u', '0', '0', hexDigit (c.toNat / 16), hexDigit (c.toNat % 16)]
  else [c]

/-- The written form of a string: its characters between quotes. -/
def quoted (cs : List Char) : List Char :=
  '"' :: (cs.flatMap escaped ++ ['"'])

/-! ### Values -/

mutual

def Value.render : Value → List Char
  | .text s => quoted s.toList
  | .number n => Nat.toDigits 10 n
  | .list items => '[' :: renderItems items
  | .record fields => '{' :: renderFields fields

/-- What follows the opening bracket of a list. -/
def renderItems : List Value → List Char
  | [] => [']']
  | [v] => v.render ++ [']']
  | v :: w :: rest => v.render ++ ',' :: renderItems (w :: rest)

/-- What follows the opening brace of a record. -/
def renderFields : List (String × Value) → List Char
  | [] => ['}']
  | [(k, v)] => quoted k.toList ++ ':' :: (v.render ++ ['}'])
  | (k, v) :: field :: rest =>
    quoted k.toList ++ ':' :: (v.render ++ ',' :: renderFields (field :: rest))

end

def Value.toText (v : Value) : String := String.ofList v.render

/-- An optional field: absent when there is nothing to write. -/
def optional (key : String) (s : Option String) : List (String × Value) :=
  (s.map fun t => (key, Value.text t)).toList

end RtspControl.Json
