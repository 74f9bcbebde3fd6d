import RtspControl.Session

/-!
# Issuing identifiers

Identifiers come from one counter that grows by one for each descriptor created and
wraps around at 64 bits. Copying a descriptor, or filling in one of its fields, draws
no identifier; opening a connection draws exactly one, whatever descriptor the
connection is given afterwards.

A `Stock` is the counter together with all that has come of it: every descriptor and
every connection there has been, in order. An `Acquisition` adds one to them, and refers
to those it is made from by number. None of them ever changes, so a connection that is
given another descriptor is a new entry, as is a descriptor with one more field filled in.
-/

namespace RtspControl

/-- The counter that identifiers are drawn from. -/
structure Issuer where
  next : UInt64
  deriving DecidableEq, Repr, Inhabited

namespace Issuer

def create (i : Issuer) (protocol : String) : Descriptor × Issuer :=
  (⟨i.next, "rtsp", protocol, none, none, none, none, none⟩, ⟨i.next + 1⟩)

/-- The descriptor that a newly opened connection starts with. -/
def openConnection (i : Issuer) : Descriptor × Issuer :=
  i.create Descriptor.defaultProtocol

end Issuer

/-! ### Stocks -/

/-- Whoever has a descriptor: a caller, or a connection. -/
inductive Holder where
  | caller (d : Descriptor)
  | connection (s : Session)

namespace Holder

def descriptor : Holder → Descriptor
  | .caller d => d
  | .connection s => s.descriptor

def session? : Holder → Option Session
  | .caller _ => none
  | .connection s => some s

end Holder

/-- One way to come by a descriptor or a connection, given all that there have been. -/
inductive Acquisition where
  | create (protocol : String)
  | standard
  | connection (role : Role)
  | copy (k : Nat)
  | fill (k : Nat) (detail : Descriptor.Detail) (text : String)
  /-- The connection `k`, from now on with the descriptor of `d`. -/
  | describe (k d : Nat)
  | configure (k : Nat) (settings : Settings)
  /-- The connection `k`, from now on with an event handler. -/
  | monitor (k : Nat)

/-- The counter, and all holders of descriptors that there have been, the oldest first. -/
structure Stock where
  issuer : Issuer
  holders : List Holder := []

namespace Stock

def descriptor? (s : Stock) (k : Nat) : Option Descriptor := s.holders[k]?.map Holder.descriptor

def session? (s : Stock) (k : Nat) : Option Session := s.holders[k]?.bind Holder.session?

def add (s : Stock) (h : Holder) : Stock := { s with holders := s.holders ++ [h] }

/-- Adds the holder of a descriptor that has been created for it. -/
def addCreated (s : Stock) (hold : Descriptor → Holder) : Descriptor × Issuer → Stock
  | (d, issuer) => { s with issuer }.add (hold d)

/-- Adds what a step gives, unless it refers to something that is not there. -/
def acquire (s : Stock) : Acquisition → Option Stock
  | .create protocol => some (s.addCreated .caller (s.issuer.create protocol))
  | .standard => some (s.addCreated .caller (s.issuer.create Descriptor.defaultProtocol))
  | .connection role =>
    some (s.addCreated (fun d => .connection (Session.opened role d default false))
      s.issuer.openConnection)
  | .copy k => do
    let d ← s.descriptor? k
    return s.add (.caller d)
  | .fill k detail text => do
    let d ← s.descriptor? k
    return s.add (.caller (d.fill detail text))
  | .describe k d => do
    let connection ← s.session? k
    let descriptor ← s.descriptor? d
    return s.add (.connection { connection with descriptor })
  | .configure k settings => do
    let connection ← s.session? k
    return s.add (.connection { connection with settings })
  | .monitor k => do
    let connection ← s.session? k
    return s.add (.connection { connection with monitored := true })

def acquireAll (s : Stock) (as : List Acquisition) : Option Stock := as.foldlM acquire s

/-! What each step does to a stock that has what the step refers to. -/

variable {s s' : Stock} {k : Nat} {x : Holder} {c : Session}

theorem acquire_copy (h : s.holders[k]? = some x) :
    s.acquire (.copy k) = some (s.add (.caller x.descriptor)) := by
  rw [acquire, descriptor?, h]
  rfl

theorem acquire_fill (h : s.holders[k]? = some x) (detail : Descriptor.Detail) (text : String) :
    s.acquire (.fill k detail text) = some (s.add (.caller (x.descriptor.fill detail text))) := by
  rw [acquire, descriptor?, h]
  rfl

theorem session?_eq_some (h : s.holders[k]? = some x) (hc : x.session? = some c) :
    s.session? k = some c := by
  rw [session?, h, Option.bind_some, hc]

theorem acquire_describe {d : Nat} {y : Holder} (h : s.holders[k]? = some x)
    (hc : x.session? = some c) (hd : s.holders[d]? = some y) :
    s.acquire (.describe k d) =
      some (s.add (.connection { c with descriptor := y.descriptor })) := by
  rw [acquire, session?_eq_some h hc, descriptor?, hd]
  rfl

theorem acquire_configure (h : s.holders[k]? = some x) (hc : x.session? = some c)
    (settings : Settings) :
    s.acquire (.configure k settings) = some (s.add (.connection { c with settings })) := by
  rw [acquire, session?_eq_some h hc]
  rfl

theorem acquire_monitor (h : s.holders[k]? = some x) (hc : x.session? = some c) :
    s.acquire (.monitor k) = some (s.add (.connection { c with monitored := true })) := by
  rw [acquire, session?_eq_some h hc]
  rfl

theorem acquireAll_cons {a : Acquisition} (h : s.acquire a = some s') (as : List Acquisition) :
    s.acquireAll (a :: as) = s'.acquireAll as := by
  rw [acquireAll, List.foldlM_cons, h]
  rfl

theorem acquireAll_concat (s : Stock) (as : List Acquisition) (a : Acquisition) :
    s.acquireAll (as ++ [a]) = (s.acquireAll as).bind (·.acquire a) := by
  rw [acquireAll, List.foldlM_append]
  congr 1
  funext s'
  exact bind_pure _

theorem getElem?_add (s : Stock) (x : Holder) :
    (s.add x).holders[s.holders.length]? = some x :=
  List.getElem?_concat_length

theorem getLast?_add (s : Stock) (x : Holder) : (s.add x).holders.getLast? = some x :=
  List.getLast?_concat

theorem length_add (s : Stock) (x : Holder) :
    (s.add x).holders.length = s.holders.length + 1 :=
  List.length_append

end Stock

/-! ### Chains -/

/-- One way to come by a descriptor, given the last one. -/
inductive Derivation where
  | fresh
  | standard
  | copy
  /-- The last one with its address and its description filled in. -/
  | filled (url sdp : String)
  | connection
  deriving DecidableEq, Repr

/-- What a derivation consists of if there have been `n` holders, of whom the last one has
the last descriptor. -/
def Derivation.acquisitions (n : Nat) : Derivation → List Acquisition
  | .fresh => [.create "x"]
  | .standard => [.standard]
  | .copy => [.copy (n - 1)]
  | .filled url sdp => [.fill (n - 1) .url url, .fill n .sdp sdp]
  | .connection => [.connection .activeProducer, .copy n]

/-- The stocks that a chain of derivations passes through, the first included. -/
def Derivation.chain (s : Stock) : List Derivation → List Stock
  | [] => [s]
  | step :: steps =>
    match s.acquireAll (step.acquisitions s.holders.length) with
    | some s' => s :: chain s' steps
    | none => [s]

/-- Whoever has the last descriptor, there is a next one. -/
theorem Derivation.exists_acquireAll (d : Derivation) (s : Stock) (x : Holder) :
    ∃ (s' : Stock) (x' : Holder),
      (s.add x).acquireAll (d.acquisitions (s.add x).holders.length) = some (s'.add x') := by
  have last : (s.add x).holders[(s.add x).holders.length - 1]? = some x := by
    rw [Stock.length_add, Nat.add_sub_cancel, Stock.getElem?_add]
  cases d with
  | fresh | standard => exact ⟨_, _, rfl⟩
  | copy => exact ⟨_, _, Stock.acquireAll_cons (Stock.acquire_copy last) []⟩
  | filled url sdp =>
    exact ⟨_, _, (Stock.acquireAll_cons (Stock.acquire_fill last .url url) _).trans
      (Stock.acquireAll_cons (Stock.acquire_fill (Stock.getElem?_add _ _) .sdp sdp) [])⟩
  | connection =>
    have opened : (s.add x).acquire (.connection .activeProducer) =
        some ({ s.add x with issuer := ⟨s.issuer.next + 1⟩ }.add _) := rfl
    exact ⟨_, _, (Stock.acquireAll_cons opened _).trans
      (Stock.acquireAll_cons (Stock.acquire_copy (Stock.getElem?_add _ _)) [])⟩

/-- A chain goes on to its end. -/
theorem Derivation.length_chain (steps : List Derivation) (s : Stock) (x : Holder) :
    (chain (s.add x) steps).length = steps.length + 1 := by
  induction steps generalizing s x with
  | nil => rfl
  | cons d steps ih =>
    obtain ⟨s', x', run⟩ := d.exists_acquireAll s x
    simp only [chain, run, List.length_cons, ih]

/-- All along a chain there is somebody who has the last descriptor. -/
theorem Derivation.getLast?_of_mem_chain (steps : List Derivation) (s : Stock) (x : Holder) :
    ∀ s' ∈ chain (s.add x) steps, s'.holders.getLast?.isSome = true := by
  have last (s : Stock) (x : Holder) : (s.add x).holders.getLast?.isSome = true := by
    rw [Stock.getLast?_add]
    rfl
  induction steps generalizing s x with
  | nil => exact List.forall_mem_singleton.mpr (last s x)
  | cons d steps ih =>
    obtain ⟨s', x', run⟩ := d.exists_acquireAll s x
    simp only [chain, run]
    exact List.forall_mem_cons.mpr ⟨last s x, ih s' x'⟩

/-- How far the identifiers of a chain lie beyond that of a descriptor created just
before its first one. -/
def Derivation.offsets (i : Issuer) (steps : List Derivation) : List UInt64 :=
  match (Stock.mk i []).acquireAll [.standard, .create "x"] with
  | some s =>
    (chain s steps).filterMap fun s' => s'.holders.getLast?.map (·.descriptor.id - i.next)
  | none => []

/-- Every derivation has an identifier to show, and so has the beginning of the chain. -/
theorem Derivation.length_offsets (i : Issuer) (steps : List Derivation) :
    (offsets i steps).length = steps.length + 1 := by
  obtain ⟨s, x, start⟩ : ∃ (s : Stock) (x : Holder),
      (Stock.mk i []).acquireAll [.standard, .create "x"] = some (s.add x) := ⟨_, _, rfl⟩
  have all : ∀ s' ∈ chain (s.add x) steps,
      (s'.holders.getLast?.map (·.descriptor.id - i.next)).isSome = true := by
    intro s' hs
    rw [Option.isSome_map]
    exact getLast?_of_mem_chain steps s x s' hs
  simp only [offsets, start]
  rw [List.filterMap_length_eq_length.mpr all, length_chain]

end RtspControl
