import RtspControl.Track

/-!
# Listings of tracks

The listing of a track is a line for people who look for a fault: every field by name,
strings in quotes, and two dots for what a track holds besides.
-/

namespace RtspControl.Listing

def hex (n : Nat) : String := String.ofList (Nat.toDigits 16 n)

def character (c : Char) : String :=
  if c = '"' then "\\\""
  else if c = '\\' then "\\\\"
  else if c = '\n' then "\\n"
  else if c = '\r' then "\\r"
  else if c = '\t' then "\\t"
  else if c = '\x00' then "\\0"
  -- The other control characters have no letter and are written by number.
  else if c.toNat < 0x20 ∨ c.toNat = 0x7f then "\\u\x7b" ++ hex c.toNat ++ "\x7d"
  else c.toString

def text (s : String) : String :=
  "\"" ++ String.join (s.toList.map character) ++ "\""

def optionalText : Option String → String
  | none => "None"
  | some s => "Some(" ++ text s ++ ")"

/-- Values one after the other. -/
def items (vs : List String) : String := ", ".intercalate vs

/-- A record: its name and its fields. -/
def record (name : String) (fields : List (String × String)) : String :=
  name ++ " \x7b " ++ items (fields.map fun (k, v) => k ++ ": " ++ v) ++ " \x7d"

def direction : Direction → String
  | .receiveOnly => "RecvOnly"
  | .sendOnly => "SendOnly"
  | .sendReceive => "SendRecv"

def codec (c : Codec) : String :=
  record "Codec" [("name", text c.name),
                  ("clock_rate", toString c.clockRate.toNat),
                  ("channels", toString c.channels.toNat),
                  ("payload_type", toString c.payloadType.toNat),
                  ("fmtp", optionalText c.fmtp)]

def media (m : Media) : String :=
  record "Media" [("kind", text m.kind),
                  ("direction", direction m.direction),
                  ("codecs", "[" ++ items (m.codecs.map codec) ++ "]"),
                  ("control", text m.control)]

def track (t : Track) (closed : Bool) : String :=
  "Track \x7b " ++
    items ["media: " ++ media t.media.toMedia,
           "codec: " ++ codec t.codec,
           "id: " ++ toString t.channel.toNat,
           "closed: " ++ (if closed then "true" else "false"),
           ".."] ++ " \x7d"

end RtspControl.Listing
