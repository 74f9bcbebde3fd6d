/-!
# Defects of a JSON text

A text is read once, from left to right, and the first thing wrong with it decides. Only
three kinds of wrong are told apart.
-/

namespace RtspControl.Json

/-- What was wrong with a JSON text, where it first went wrong. -/
inductive Defect where
  | truncated
  /-- The text breaks the grammar, or has a number too large to read. -/
  | malformed
  /-- The grammar is kept, but this is not the value that was asked for. -/
  | mistyped
  deriving DecidableEq, Repr

end RtspControl.Json
