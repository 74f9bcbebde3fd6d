import RtspControl.Fault

/-!
# Requests to the peer

Five requests make up all traffic that a control connection starts on its own. Which of
them fails, and when, is up to the peer: it follows a list of rules, each of which lets
a number of requests of one kind pass and then fails the next.
-/

namespace RtspControl

/-- What a control connection can ask of its peer. -/
inductive Request where
  | dial
  /-- Fetch the session description (RFC 2326 §10.2). -/
  | describe
  /-- Negotiate one media section (RFC 2326 §10.4). -/
  | setUp
  /-- Start delivery (RFC 2326 §10.5). -/
  | play
  | close
  deriving DecidableEq, Repr

/-- A failure to come. -/
structure Rule where
  request : Request
  /-- How many of them pass before it strikes. -/
  after : Nat
  fault : Fault
  deriving DecidableEq, Repr

/-- What a list of rules says to a request: only the first rule about it is looked at. If
it is due, it strikes and is used up; if not, it comes closer. -/
def Rule.consult (r : Request) : List Rule → Option Fault × List Rule
  | [] => (none, [])
  | rule :: rules =>
    -- Later rules about the same request wait until this one is used up.
    if rule.request = r then
      match rule.after with
      | 0 => (some rule.fault, rules)
      | n + 1 => (none, { rule with after := n } :: rules)
    else
      let (fault, rules') := consult r rules
      (fault, rule :: rules')

/-- The other end of a control connection. -/
structure Peer where
  rules : List Rule := []
  /-- The channel that the next negotiated section gets. -/
  nextChannel : UInt8 := 0
  deriving DecidableEq, Repr, Inhabited

namespace Peer

/-- The peer's reaction to a request: the fault, if it fails. -/
def answer (p : Peer) (r : Request) : Option Fault × Peer :=
  let (fault, rules) := Rule.consult r p.rules
  (fault, { p with rules })

/-- A peer that has given its next channel away; it numbers them in pairs, modulo 256. -/
def advance (p : Peer) : Peer := { p with nextChannel := p.nextChannel + 2 }

end Peer

end RtspControl
