import RtspControl.History

/-!
# Outlines

An outline is a history with its nesting made visible: what lies between the beginning
and the end of something is inside it. `outline` reads a history from its newest entry
backwards, so that it meets every end before the beginning it belongs to.
-/

namespace RtspControl

/-- A part of a history. -/
inductive Node where
  | entry (entry : Entry)
  /-- From a beginning to its end, and what lies between. -/
  | span (first : Entry) (inner : List Node) (last : Entry)

/-- Something whose end has been met and whose beginning has not. -/
structure OpenSpan where
  last : Entry
  /-- What comes after it. -/
  later : List Node

/-- Reads a history backwards; `inner` is what has been met inside the innermost of the open
spans. A beginning without an end is still going on, and is an entry like others. -/
def outlineFrom (inner : List Node) (spans : List OpenSpan) : List Entry → List Node
  | [] => inner
  | e :: older =>
    -- Going backwards, an end comes first: it opens a span, and the beginning completes it.
    if e.closes then outlineFrom [] (⟨e, inner⟩ :: spans) older
    else if e.opens then
      match spans with
      | span :: outer => outlineFrom (.span e inner span.last :: span.later) outer older
      | [] => outlineFrom (.entry e :: inner) [] older
    else outlineFrom (.entry e :: inner) spans older

/-- The outline of a history, the oldest part first. -/
def outline (history : List Entry) : List Node := outlineFrom [] [] history

def outlineWithoutNotes (history : List Entry) : List Node :=
  outline (history.filter fun e => !e.isNote)

end RtspControl
