import RtspControl.Json.Skip

/-!
# Reading a record of one field

The records that are read have one field each, which may be left out. Such a record is
written as an object, where fields of other names are skipped, or as a list of its
fields in order, so here as a list of at most one entry.
-/

namespace RtspControl.Json

/-- The defect of what was not read, or of what was read and not wanted. -/
def defectOr {α : Type} (result : Except Defect α) (otherwise : α → Defect) : Defect :=
  match result with
  | .error d => d
  | .ok a => otherwise a

/-- What is wrong with a value that is not of the wanted kind and starts with `c`: it is of
another kind, unless it is no value at all. Lists and records are not looked into. -/
def unexpected (c : Char) (cs : List Char) : Defect :=
  match literalTail? c with
  | some tail => defectOr (word tail cs) fun _ => .mistyped
  | none =>
    if c = '"' then defectOr (string true cs) fun _ => .mistyped
    else if startsNumber c then
      -- A number too large to read is no value of any kind.
      defectOr (number .truncated c cs) fun (x, _) =>
        if x.double?.isSome then .mistyped else .malformed
    else if (Bracket.ofOpening? c).isSome then .mistyped
    else .malformed

def double : Reader Binary64 := fun cs => do
  let (c, r) ← firstMark cs
  if startsNumber c then do
    let (x, r') ← number .truncated c r.text
    match x.double? with
    | some y => .ok (y, r.thenMaybe r')
    | none => .error .malformed
  else .error (unexpected c r.text)

variable {α : Type}

/-- Reads a key that may be wanted, with its quotes. -/
def key : Reader (List Char) := fun cs => do
  let r₁ ← mark '"' cs
  let (k, r₂) ← string true r₁.text
  .ok (k, r₁.trans r₂)

/-- Reads one field of an object; `found` is the value of the wanted field, if that has been
read, and it must not be there twice. -/
def oneField (wanted : List Char) (field : Reader α) (found : Option α) : Reader (Option α) :=
  fun cs => do
    let (k, r₁) ← key cs
    if k = wanted then
      -- A second field of the name is refused for its key, whatever comes after that.
      if found.isSome then .error .mistyped
      else do
        let r₂ ← mark ':' r₁.text
        let (a, r₃) ← field r₂.text
        .ok (some a, (r₁.trans r₂).trans r₃)
    else do
      let r₂ ← mark ':' r₁.text
      let r₃ ← skip r₂.text
      .ok (found, (r₁.trans r₂).thenMaybe r₃)

/-- Reads the fields of an object up to its closing brace, from before a key. -/
def fields (wanted : List Char) (field : Reader α) (found : Option α) (cs : List Char) :
    Except Defect (Option α × Rest cs) :=
  match oneField wanted field found cs with
  | .error d => .error d
  | .ok (found', r) =>
    match firstMark r.text with
    | .error d => .error d
    | .ok (c, r') =>
      if c = ',' then do
        let (a, s) ← fields wanted field found' r'.text
        .ok (a, (r.trans r').trans s)
      else if c = Bracket.record.close then .ok (found', r.trans r')
      else .error .malformed
termination_by cs.length
decreasing_by exact Nat.lt_trans r'.shorter r.shorter

/-- Reads what a bracket encloses, from before the first entry: a list has the wanted field
as its only entry, an object has it by name. -/
def entries (wanted : List Char) (default : α) (field : Reader α) (cs : List Char) :
    Bracket → Except Defect (α × Rest cs)
  | .list => do
    let (a, r) ← field cs
    let r' ← mark Bracket.list.close r.text
    .ok (a, r.trans r')
  | .record => do
    let (found, r) ← fields wanted field none cs
    .ok (found.getD default, r)

/-- Reads a record with the one field `wanted`, which has the value `default` where it is
left out. -/
def record (wanted : List Char) (default : α) (field : Reader α) : Reader α := fun cs => do
  let (c, r) ← firstMark cs
  match Bracket.ofOpening? c with
  | none => .error (unexpected c r.text)
  | some b => do
    let (c', r') ← firstMark r.text
    if c' = b.close then .ok (default, r.trans r')
    else do
      let (a, s) ← entries wanted default field r.text b
      .ok (a, r.trans s)

/-- Reads a text that is one value and nothing else but blanks. -/
def whole (reader : Reader α) (cs : List Char) : Except Defect α := do
  let (a, r) ← reader cs
  -- Behind a complete value the text cannot end too early, only go on too long.
  if skipBlanks r.text = [] then .ok a else .error .malformed

end RtspControl.Json
