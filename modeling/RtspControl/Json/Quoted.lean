import RtspControl.Json.Reader

/-!
# Strings of a JSON text

Between its quotes a string holds any characters but quotes, backslashes and those below
U+0020; a backslash introduces an escape. A code escape names a UTF-16 unit by four hex
digits, so a character beyond U+FFFF takes two of them.

A string that is wanted must have its surrogates in pairs. A string that is only skipped
may have any, and then every unit stands for a character of its own.
-/

namespace RtspControl.Json

/-! ### Code escapes -/

def hexValue? (c : Char) : Option Nat :=
  if '0' ≤ c ∧ c ≤ '9' then some (c.toNat - '0'.toNat)
  else if 'a' ≤ c ∧ c ≤ 'f' then some (c.toNat - 'a'.toNat + 10)
  else if 'A' ≤ c ∧ c ≤ 'F' then some (c.toNat - 'A'.toNat + 10)
  else none

/-- How many bytes a text takes in UTF-8. -/
def byteCount (cs : List Char) : Nat := cs.foldl (fun n c => n + c.utf8Size) 0

/-- Takes the four hex digits of a UTF-16 unit. A text too short to hold four digits is
truncated, whatever it holds. -/
def hexUnit (cs : List Char) : Except Defect (Nat × Rest cs) :=
  match cs with
  | a :: b :: c :: d :: r =>
    match hexValue? a, hexValue? b, hexValue? c, hexValue? d with
    | some a', some b', some c', some d' =>
      .ok (((a' * 16 + b') * 16 + c') * 16 + d', (Rest.tail d r).ofTail.ofTail.ofTail)
    | _, _, _, _ => .error .malformed
  | short => .error (if byteCount short < 4 then .truncated else .malformed)

def isHighSurrogate (u : Nat) : Bool := decide (0xD800 ≤ u) && decide (u < 0xDC00)

def isLowSurrogate (u : Nat) : Bool := decide (0xDC00 ≤ u) && decide (u < 0xE000)

def pairedChar (high low : Nat) : Char :=
  Char.ofNat (0x10000 + (high - 0xD800) * 0x400 + (low - 0xDC00))

/-- Takes the second half of a surrogate pair, the backslash included. -/
def lowSurrogate (cs : List Char) : Except Defect (Nat × Rest cs) :=
  match cs with
  | [] => .error .truncated
  | [c] => .error (if c = '\\' then .truncated else .malformed)
  | c :: d :: r =>
    if c = '\\' ∧ d = 'u' then do
      let (low, r') ← hexUnit r
      if isLowSurrogate low then .ok (low, r'.ofTail.ofTail) else .error .malformed
    else .error .malformed

/-- Takes what follows `\u`. -/
def codeEscape (paired : Bool) : Reader Char := fun cs => do
  let (unit, r) ← hexUnit cs
  -- A pair starts with its first unit; the second alone is no character.
  if paired && isLowSurrogate unit then .error .malformed
  else if paired && isHighSurrogate unit then do
    let (low, r') ← lowSurrogate r.text
    .ok (pairedChar unit low, r.trans r')
  else .ok (Char.ofNat unit, r)

/-! ### Strings -/

def letterEscape? (c : Char) : Option Char :=
  if c = '"' then some '"'
  else if c = '\\' then some '\\'
  else if c = '/' then some '/'
  else if c = 'b' then some '\x08'
  else if c = 'f' then some '\x0c'
  else if c = 'n' then some '\n'
  else if c = 'r' then some '\r'
  else if c = 't' then some '\t'
  else none

/-- Takes what follows a backslash. -/
def escape (paired : Bool) : Reader Char
  | [] => .error .truncated
  | c :: cs =>
    if c = 'u' then do
      let (x, r) ← codeEscape paired cs
      .ok (x, r.ofTail)
    else match letterEscape? c with
      | some x => .ok (x, .tail c cs)
      | none => .error .malformed

/-- Takes one character of a string, which may be written as an escape; `c` is the first
character of its written form. -/
def stringChar (paired : Bool) (c : Char) (cs : List Char) :
    Except Defect (Char × Rest (c :: cs)) :=
  if c = '\\' then do
    let (x, r) ← escape paired cs
    .ok (x, r.ofTail)
  else if c.toNat < 0x20 then .error .malformed
  else .ok (c, .tail c cs)

/-- Takes what follows the opening quote of a string, up to and with the closing one. -/
def string (paired : Bool) (cs : List Char) : Except Defect (List Char × Rest cs) :=
  match cs with
  | [] => .error .truncated
  | c :: cs =>
    if c = '"' then .ok ([], .tail c cs)
    else
      match stringChar paired c cs with
      | .error d => .error d
      | .ok (x, r) => do
        let (xs, r') ← string paired r.text
        .ok (x :: xs, r.trans r')
termination_by cs.length
decreasing_by exact r.shorter

end RtspControl.Json
