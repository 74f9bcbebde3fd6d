import RtspControl.Json.Number
import RtspControl.Json.Quoted

/-!
# Skipping a value

A value that nobody asked for is still read to its end, because what follows it is
wanted and because a text that breaks the grammar anywhere is refused. Nothing is built
for it: the brackets that are still open are all that has to be remembered, so nesting
of any depth is one loop.
-/

namespace RtspControl.Json

/-- What a bracket encloses. -/
inductive Bracket where
  | list
  | record
  deriving DecidableEq, Repr

def Bracket.close : Bracket → Char
  | .list => ']'
  | .record => '}'

def Bracket.ofOpening? (c : Char) : Option Bracket :=
  if c = '[' then some .list else if c = '{' then some .record else none

/-- Where in a value the loop stands. -/
inductive Place where
  | value
  | key
  /-- Behind a value: at a comma, a closing bracket or the end. -/
  | behind
  deriving DecidableEq, Repr

/-- Where the entries of a bracket start. -/
def Bracket.entry : Bracket → Place
  | .list => .value
  | .record => .key

/-- Skips a value that is no list and no record and starts with `c`. -/
def skipScalar (c : Char) (cs : List Char) : Except Defect (Remainder cs) :=
  match literalTail? c with
  | some tail => word tail cs
  | none =>
    if c = '"' then do
      let (_, r) ← string false cs
      .ok r.toRemainder
    else if startsNumber c then do
      let (_, r) ← number .malformed c cs
      .ok r
    else .error .malformed

/-- Takes a key that nobody asks for, with its quotes and the colon after it. -/
def skipKey (cs : List Char) : Except Defect (Rest cs) := do
  let r₁ ← mark '"' cs
  let (_, r₂) ← string false r₁.text
  let r₃ ← mark ':' r₂.text
  .ok ((r₁.trans r₂).trans r₃)

/-- Skips to the end of the outermost of the brackets in `opened`, innermost first, and
gives what follows it. -/
def skipFrom (opened : List Bracket) (place : Place) (cs : List Char) :
    Except Defect (List Char) :=
  match place with
  | .value =>
    match firstMark cs with
    | .error d => .error d
    | .ok (c, r) =>
      match Bracket.ofOpening? c with
      | some b =>
        match firstMark r.text with
        | .error d => .error d
        | .ok (c', r') =>
          -- An empty bracket is a value at once; otherwise its first entry is due.
          if c' = b.close then skipFrom opened .behind r'.text
          else skipFrom (b :: opened) b.entry r.text
      | none =>
        match skipScalar c r.text with
        | .error d => .error d
        | .ok r' => skipFrom opened .behind r'.text
  | .key =>
    match skipKey cs with
    | .error d => .error d
    | .ok r => skipFrom opened .value r.text
  | .behind =>
    match opened with
    | [] => .ok cs
    | b :: outer =>
      match firstMark cs with
      | .error d => .error d
      | .ok (c, r) =>
        if c = ',' then skipFrom (b :: outer) b.entry r.text
        else if c = b.close then skipFrom outer .behind r.text
        else .error .malformed
termination_by cs.length
decreasing_by
  · exact Nat.lt_trans r'.shorter r.shorter
  · exact r.shorter
  · exact Nat.lt_of_le_of_lt r'.notLonger r.shorter
  · exact r.shorter
  · exact r.shorter
  · exact r.shorter

theorem length_le_of_skipFrom {opened : List Bracket} {place : Place} {cs t : List Char}
    (h : skipFrom opened place cs = .ok t) : t.length ≤ cs.length := by
  fun_induction skipFrom opened place cs with grind [Rest.length_le, Remainder.notLonger]

def skip (cs : List Char) : Except Defect (Remainder cs) :=
  match h : skipFrom [] .value cs with
  | .error d => .error d
  | .ok t => .ok ⟨t, length_le_of_skipFrom h⟩

end RtspControl.Json
