import RtspControl.Proofs.Nesting

/-!
# What tracks go through

Closing a track runs its hooks, and these may close any tracks, the same one among them, and leave
further hooks with any. What of this happens to tracks, and in which order, is read off the outline
of a history: `doingsAll` lists calls and their answers, hooks that are left with a track, and hooks
that begin and end, for the track that is being closed at that moment.

`Ledger` is what holds of such a list, whatever the hooks are. A call finds the track open or
closed. If it is open the track is marked, runs the hooks that it has by then, and answers after
that; if not, the answer is the next that happens. Nobody else runs a hook. The laws can be put
together: ledgers that follow each other make a ledger (`Ledger.trans`), and so does a call around
the ledger of the hooks that it runs (`Ledger.closing`).
-/

namespace RtspControl

/-! ## Reading an outline -/

/-- Something that happens to a track. -/
inductive Doing where
  /-- A hook is left with a track. -/
  | hooked (track : Track) (hook : Hook)
  /-- There is no track at the place that an operation names. -/
  | missed (place : Nat)
  /-- A track is asked to close. -/
  | called (track : Track)
  /-- A track that is open is marked closed. -/
  | granted (track : Track)
  /-- A hook begins, of the track that is being closed if there is one. -/
  | began (track : Option Track) (hook : Hook)
  | ended (track : Option Track) (hook : Hook)
  /-- What a track answers that was asked to close. -/
  | answered (track : Track) (answer : Answer)
  /-- Which of the known tracks are closed, as anybody can see now. -/
  | saw (closed : List Track)

namespace Operation

/-- What an operation with this answer does to a track at first. -/
def begun (known : List Track) : Operation → Answer → List Doing
  | .closeTrack n, .noTrack => [.missed n]
  | .onClose n _ _, .noTrack => [.missed n]
  | .closeTrack n, _ => known[n]?.toList.map .called
  | _, _ => []

/-- What an operation with this answer has done to a track in the end. -/
def finished (known : List Track) : Operation → Answer → List Doing
  | _, .noTrack => []
  | .closeTrack n, a => known[n]?.toList.map (.answered · a)
  | .onClose n label ops, _ => known[n]?.toList.map (.hooked · ⟨label, ops⟩)
  | _, _ => []

end Operation

namespace Node

/-- The operation that a part tells of. -/
def operation? : Node → Option Operation
  | .span (.began op) _ _ => some op
  | _ => none

/-- The track that is marked closed here. -/
def granted? : Node → Option Track
  | .entry e => e.closed?
  | .span _ _ _ => none

end Node

mutual

/-- What happens to tracks in a part of a history, while `closing` runs its hooks. Tracks are named
by their places among the known ones. -/
def Node.doings (known : List Track) (closing : Option Track) : Node → List Doing
  | .entry e => e.closed?.toList.map .granted
  | .span (.began op) inner (.ended a v) =>
    op.begun known a ++ doingsAll known none inner ++ op.finished known a ++ [.saw v.closed]
  | .span .hookBegan inner (.hookEnded label) =>
    .began closing ⟨label, inner.filterMap Node.operation?⟩ ::
      (doingsAll known none inner ++ [.ended closing ⟨label, inner.filterMap Node.operation?⟩])
  | .span _ inner _ => doingsAll known none inner

/-- What happens to tracks in parts in a row. The hooks that follow the closing of a track are its
own. -/
def doingsAll (known : List Track) (closing : Option Track) : List Node → List Doing
  | [] => []
  | n :: ns => n.doings known closing ++ doingsAll known (n.granted?.or closing) ns

end

theorem doingsAll_append {known : List Track} {closing : Option Track} {ns : List Node}
    (ungranted : ∀ n ∈ ns, n.granted? = none) (ms : List Node) :
    doingsAll known closing (ns ++ ms) =
      doingsAll known closing ns ++ doingsAll known closing ms := by
  induction ns with
  | nil => rfl
  | cons n ns ih =>
    obtain ⟨hn, hns⟩ := List.forall_mem_cons.mp ungranted
    rw [List.cons_append, doingsAll, doingsAll, hn, Option.none_or, ih hns, List.append_assoc]

theorem doingsAll_singleton (known : List Track) (closing : Option Track) (n : Node) :
    doingsAll known closing [n] = n.doings known closing := by
  rw [doingsAll, doingsAll, List.append_nil]

/-! ## What has been done -/

namespace Doing

def granted? : Doing → Option Nat
  | .granted t => some t.serial
  | _ => none

/-- The hook that is left with the track of this number. -/
def hookFor? (n : Nat) : Doing → Option Hook
  | .hooked t hook => if t.serial = n then some hook else none
  | _ => none

/-- Does a hook of the track with this number begin or end? -/
def isRunOf (n : Nat) : Doing → Bool
  | .began (some t) _ => t.serial == n
  | .ended (some t) _ => t.serial == n
  | _ => false

/-- Does a hook run that is no track's? -/
def isStray : Doing → Bool
  | .began none _ => true
  | .ended none _ => true
  | _ => false

/-- Is this something about hooks, and not about calls? -/
def isPlain : Doing → Bool
  | .hooked _ _ => true
  | .missed _ => true
  | .began (some _) _ => true
  | .ended (some _) _ => true
  | _ => false

theorem isStray_of_isPlain {d : Doing} (h : d.isPlain = true) : d.isStray = false := by
  cases d with
  | began t hook | ended t hook =>
    cases t with
    | none => cases h
    | some t => rfl
  | _ => rfl

/-- The track and the label of a hook that begins. -/
def begun? : Doing → Option (Option Nat × String)
  | .began t hook => some (t.map Track.serial, hook.label)
  | _ => none

/-- The track that has been closed by a call that ends now. -/
def succeeded? : Doing → Option Nat
  | .answered t .done => some t.serial
  | _ => none

end Doing

/-- The numbers of the tracks that are marked closed. -/
def grantedIn (ds : List Doing) : List Nat := ds.filterMap Doing.granted?

/-- The hooks that are left with a track, the first one first. -/
def hookedIn (n : Nat) (ds : List Doing) : List Hook := ds.filterMap (Doing.hookFor? n)

/-- The beginnings and ends of the hooks of a track. -/
def runsIn (n : Nat) (ds : List Doing) : List Doing := ds.filter (Doing.isRunOf n)

/-- The numbers of the tracks that calls have closed. -/
def succeededIn (ds : List Doing) : List Nat := ds.filterMap Doing.succeeded?

/-- Hooks that run one after the other. -/
def runsOf (t : Track) (hooks : List Hook) : List Doing :=
  hooks.flatMap fun hook => [.began (some t) hook, .ended (some t) hook]

section

variable (n : Nat) (ds ds' : List Doing)

theorem grantedIn_append : grantedIn (ds ++ ds') = grantedIn ds ++ grantedIn ds' :=
  List.filterMap_append

theorem hookedIn_append : hookedIn n (ds ++ ds') = hookedIn n ds ++ hookedIn n ds' :=
  List.filterMap_append

theorem runsIn_append : runsIn n (ds ++ ds') = runsIn n ds ++ runsIn n ds' :=
  List.filter_append ..

theorem succeededIn_append : succeededIn (ds ++ ds') = succeededIn ds ++ succeededIn ds' :=
  List.filterMap_append

end

theorem exists_granted {n : Nat} {ds : List Doing} (h : n ∈ grantedIn ds) :
    ∃ before t after, ds = before ++ .granted t :: after ∧ t.serial = n := by
  obtain ⟨d, hd, same⟩ := List.mem_filterMap.mp h
  obtain ⟨before, after, rfl⟩ := List.append_of_mem hd
  cases d with
  | granted t => exact ⟨before, t, after, rfl, Option.some.inj same⟩
  | _ => cases same

/-- Something that stands in one of two lists stands in the first one or in the second one. -/
theorem split_append {α : Type} {as bs before after : List α} {a : α}
    (h : as ++ bs = before ++ a :: after) :
    (∃ later, as = before ++ a :: later ∧ after = later ++ bs) ∨
      ∃ earlier, before = as ++ earlier ∧ bs = earlier ++ a :: after := by
  rcases List.append_eq_append_iff.mp h with ⟨earlier, rfl, rfl⟩ | ⟨later, rfl, same⟩
  · exact .inr ⟨earlier, rfl, rfl⟩
  · rcases List.cons_eq_append_iff.mp same with ⟨rfl, rfl⟩ | ⟨later, rfl, rfl⟩
    · exact .inr ⟨[], by simp, by simp⟩
    · exact .inl ⟨later, rfl, rfl⟩

theorem split_cons {α : Type} {as before after : List α} {a b : α}
    (h : b :: as = before ++ a :: after) :
    (before = [] ∧ a = b ∧ after = as) ∨
      ∃ earlier, before = b :: earlier ∧ as = earlier ++ a :: after := by
  cases before with
  | nil =>
    obtain ⟨rfl, rfl⟩ := List.cons.inj h
    exact .inl ⟨rfl, rfl, rfl⟩
  | cons c before =>
    obtain ⟨rfl, rfl⟩ := List.cons.inj h
    exact .inr ⟨before, rfl, rfl⟩

/-! ## The ledger -/

namespace TrackTable

/-- The hooks that wait for the track of this number to be closed. -/
def waiting (table : TrackTable) (n : Nat) : List Hook :=
  (table.hooks.filter fun h => h.1 == n).map Prod.snd

/-- Is a track closed once so much has been done? -/
def ClosedAfter (table : TrackTable) (ds : List Doing) (n : Nat) : Prop :=
  n ∈ table.closed ∨ n ∈ grantedIn ds

end TrackTable

/-- A call to close a track. Unless the track is closed already, its hooks run, all that it has by
then, and the call succeeds after that. -/
inductive Answers (table : TrackTable) (before : List Doing) (t : Track) : List Doing → Prop where
  | granted (inside later : List Doing) (opened : ¬ table.ClosedAfter before t.serial)
      (ran : runsIn t.serial inside =
        runsOf t (table.waiting t.serial ++ hookedIn t.serial before)) :
      Answers table before t (.granted t :: (inside ++ .answered t .done :: later))
  | refused (later : List Doing) (closed : table.ClosedAfter before t.serial) :
      Answers table before t (.answered t (.failed (.trackClosed t.channel)) :: later)

/-- What is done to tracks between two moments, and how. If hooks of a track are being run then, its
number is `running`, and nothing is said about these hooks. -/
structure Ledger (running : Option Nat) (table table' : TrackTable) (ds : List Doing) : Prop where
  known : table.known <+: table'.known
  /-- Whatever is known is found. -/
  found : ∀ n, .missed n ∈ ds → table.known.length ≤ n
  running_closed : ∀ n, running = some n → n ∈ table.closed
  /-- What is marked closed is closed from then on, and nothing else. -/
  closed : ∀ n, n ∈ table'.closed ↔ table.ClosedAfter ds n
  /-- As long as a track is open, its hooks wait. -/
  waiting : ∀ n, n ∉ table'.closed → table'.waiting n = table.waiting n ++ hookedIn n ds
  calls : ∀ before t after, ds = before ++ .called t :: after → Answers table before t after
  /-- Only the first call for a track succeeds. -/
  succeeded : (succeededIn ds).Nodup ∧ succeededIn ds ⊆ grantedIn ds
  /-- The others fail at once. -/
  answers : ∀ before t a after, ds = before ++ .answered t a :: after →
    a = .done ∨ a = .failed (.trackClosed t.channel) ∧ ∃ earlier, before = earlier ++ [.called t]
  /-- It takes a call to close a track. Each hook that the track has then is run once, and no other
  is. -/
  granted : ∀ before t after, ds = before ++ .granted t :: after →
    (∃ earlier, before = earlier ++ [.called t]) ∧ ¬ table.ClosedAfter before t.serial ∧
      runsIn t.serial ds = runsOf t (table.waiting t.serial ++ hookedIn t.serial before)
  idle : ∀ n, n ∉ grantedIn ds → running ≠ some n → runsIn n ds = []
  owned : ∀ d ∈ ds, d.isStray = false
  /-- Whether a track is closed is what everybody sees. -/
  seen : ∀ before closed after, ds = before ++ .saw closed :: after →
    ∀ t ∈ table.known, t ∈ closed ↔ table.ClosedAfter before t.serial

namespace Ledger

variable {running : Option Nat} {table table₁ table' : TrackTable} {ds ds' : List Doing}

theorem closedAfter (h : Ledger running table table₁ ds) (ds' : List Doing) (n : Nat) :
    table₁.ClosedAfter ds' n ↔ table.ClosedAfter (ds ++ ds') n := by
  rw [TrackTable.ClosedAfter, h.closed, TrackTable.ClosedAfter, TrackTable.ClosedAfter,
    grantedIn_append, List.mem_append, or_assoc]

theorem not_mem_of_granted (h : Ledger running table table' ds) {n : Nat}
    (granted : n ∈ grantedIn ds) : n ∉ table.closed := by
  obtain ⟨before, t, after, split, rfl⟩ := exists_granted granted
  exact fun closed => (h.granted before t after split).2.1 (.inl closed)

theorem not_granted_of_mem (h : Ledger running table table' ds) {n : Nat}
    (closed : n ∈ table.closed) : n ∉ grantedIn ds :=
  fun granted => h.not_mem_of_granted granted closed

theorem mem_of_granted (h : Ledger running table table' ds) {n : Nat}
    (granted : n ∈ grantedIn ds) : n ∈ table'.closed :=
  (h.closed n).mpr (.inr granted)

theorem mem_of_mem (h : Ledger running table table' ds) {n : Nat} (closed : n ∈ table.closed) :
    n ∈ table'.closed :=
  (h.closed n).mpr (.inl closed)

end Ledger

theorem Answers.append {table : TrackTable} {before after : List Doing} {t : Track}
    (h : Answers table before t after) (ds : List Doing) :
    Answers table before t (after ++ ds) := by
  cases h with
  | granted inside later opened ran =>
    have same : .granted t :: (inside ++ .answered t .done :: later) ++ ds =
        .granted t :: (inside ++ .answered t .done :: (later ++ ds)) := by
      simp only [List.cons_append, List.append_assoc]
    rw [same]
    exact .granted inside (later ++ ds) opened ran
  | refused later closed => exact .refused (later ++ ds) closed

namespace Ledger

variable {running : Option Nat} {table table₁ table' : TrackTable} {ds ds' : List Doing}

theorem answers_trans (h : Ledger running table table₁ ds) {before after : List Doing} {t : Track}
    (later : Answers table₁ before t after) : Answers table (ds ++ before) t after := by
  cases later with
  | granted inside later opened ran =>
    have unclosed : t.serial ∉ table₁.closed := fun closed => opened (.inl closed)
    refine .granted inside later (fun closed => opened ((h.closedAfter before _).mpr closed)) ?_
    rw [ran, h.waiting _ unclosed, hookedIn_append, List.append_assoc]
  | refused later closed => exact .refused later ((h.closedAfter before _).mp closed)

/-- Ledgers that follow each other make one. -/
theorem trans (h : Ledger running table table₁ ds) (h' : Ledger running table₁ table' ds') :
    Ledger running table table' (ds ++ ds') := by
  -- A track that is open in between has not been closed before, so none of its hooks has run.
  have apart {n : Nat} (closed : n ∉ table₁.closed) : runsIn n ds = [] := by
    refine h.idle n (fun granted => closed (h.mem_of_granted granted)) ?_
    intro same
    exact closed (h.mem_of_mem (h.running_closed n same))
  constructor
  case known => exact h.known.trans h'.known
  case found =>
    intro n missed
    rcases List.mem_append.mp missed with missed | missed
    · exact h.found n missed
    · exact Nat.le_trans h.known.length_le (h'.found n missed)
  case running_closed => exact h.running_closed
  case closed =>
    intro n
    rw [h'.closed, h.closedAfter]
  case waiting =>
    intro n opened
    have before : n ∉ table₁.closed := fun closed => opened (h'.mem_of_mem closed)
    rw [h'.waiting n opened, h.waiting n before, hookedIn_append, List.append_assoc]
  case calls =>
    intro before t after split
    rcases split_append split with ⟨later, first, rfl⟩ | ⟨earlier, rfl, second⟩
    · exact (h.calls before t later first).append ds'
    · exact h.answers_trans (h'.calls earlier t after second)
  case succeeded =>
    obtain ⟨once, granted⟩ := h.succeeded
    obtain ⟨once', granted'⟩ := h'.succeeded
    rw [succeededIn_append, grantedIn_append]
    refine ⟨List.nodup_append.mpr ⟨once, once', ?_⟩, ?_⟩
    · rintro n hn m hm rfl
      exact h'.not_mem_of_granted (granted' hm) (h.mem_of_granted (granted hn))
    · exact List.append_subset.mpr ⟨List.Subset.trans granted (List.subset_append_left _ _),
        List.Subset.trans granted' (List.subset_append_right _ _)⟩
  case answers =>
    intro before t a after split
    rcases split_append split with ⟨later, first, rfl⟩ | ⟨earlier, rfl, second⟩
    · exact h.answers before t a later first
    · refine (h'.answers earlier t a after second).imp_right fun ⟨refused, called⟩ => ⟨refused, ?_⟩
      obtain ⟨first, rfl⟩ := called
      exact ⟨ds ++ first, by rw [List.append_assoc]⟩
  case granted =>
    intro before t after split
    rw [runsIn_append]
    rcases split_append split with ⟨later, first, rfl⟩ | ⟨earlier, rfl, second⟩
    · obtain ⟨called, opened, ran⟩ := h.granted before t later first
      have marked : t.serial ∈ grantedIn ds := by
        rw [first]
        exact List.mem_filterMap.mpr ⟨.granted t, by simp, rfl⟩
      -- It is closed from then on, so nothing of it runs later.
      have done : runsIn t.serial ds' = [] := by
        refine h'.idle _ (h'.not_granted_of_mem (h.mem_of_granted marked)) ?_
        intro same
        exact opened (.inl (h.running_closed _ same))
      rw [ran, done, List.append_nil]
      exact ⟨called, opened, rfl⟩
    · obtain ⟨⟨first, called⟩, opened, ran⟩ := h'.granted earlier t after second
      have unclosed : t.serial ∉ table₁.closed := fun closed => opened (.inl closed)
      rw [apart unclosed, List.nil_append, ran, h.waiting _ unclosed, hookedIn_append,
        List.append_assoc]
      exact ⟨⟨ds ++ first, by rw [called, List.append_assoc]⟩,
        fun closed => opened ((h.closedAfter earlier _).mpr closed), rfl⟩
  case idle =>
    intro n unmarked other
    rw [grantedIn_append, List.mem_append, not_or] at unmarked
    rw [runsIn_append, h.idle n unmarked.1 other, h'.idle n unmarked.2 other]
    rfl
  case owned => exact List.forall_mem_append.mpr ⟨h.owned, h'.owned⟩
  case seen =>
    intro before closed after split t ht
    rcases split_append split with ⟨later, first, rfl⟩ | ⟨earlier, rfl, second⟩
    · exact h.seen before closed later first t ht
    · rw [h'.seen earlier closed after second t (h.known.subset ht), h.closedAfter]

/-! ### Single steps -/

/-- What has to do with no call: hooks are left with tracks, or hooks run whose track is closed. -/
theorem of_plain (known : table.known <+: table'.known)
    (found : ∀ n, .missed n ∈ ds → table.known.length ≤ n)
    (running_closed : ∀ n, running = some n → n ∈ table.closed)
    (closed : table'.closed = table.closed)
    (waiting : ∀ n, table'.waiting n = table.waiting n ++ hookedIn n ds)
    (plain : ∀ d ∈ ds, d.isPlain = true)
    (idle : ∀ n, running ≠ some n → runsIn n ds = []) : Ledger running table table' ds := by
  have unmarked : grantedIn ds = [] := by
    refine List.filterMap_eq_nil_iff.mpr fun d hd => ?_
    have := plain d hd
    cases d with
    | granted t => cases this
    | _ => rfl
  have unanswered : succeededIn ds = [] := by
    refine List.filterMap_eq_nil_iff.mpr fun d hd => ?_
    have := plain d hd
    cases d with
    | answered t a => cases this
    | _ => rfl
  have absent {before after : List Doing} {d : Doing} (split : ds = before ++ d :: after) :
      d.isPlain = true := plain d (by rw [split]; simp)
  refine ⟨known, found, running_closed, ?_, fun n _ => waiting n, ?_, ?_, ?_, ?_,
    fun n _ => idle n, ?_, ?_⟩
  · intro n
    rw [closed, TrackTable.ClosedAfter, unmarked]
    simp
  · exact fun before t after split => nomatch absent split
  · rw [unanswered]
    exact ⟨.nil, List.nil_subset _⟩
  · exact fun before t a after split => nomatch absent split
  · exact fun before t after split => nomatch absent split
  · exact fun d hd => Doing.isStray_of_isPlain (plain d hd)
  · exact fun before closed after split => nomatch absent split

/-- Nothing happens. -/
theorem nil (table : TrackTable) : Ledger none table table [] :=
  of_plain List.prefix_rfl nofun nofun rfl (fun _ => (List.append_nil _).symm)
    (List.forall_mem_nil _) fun _ _ => rfl

/-- What is named is not known. -/
theorem of_missed {n : Nat} (unknown : table.known.length ≤ n) :
    Ledger none table table [.missed n] := by
  refine of_plain List.prefix_rfl ?_ nofun rfl (fun _ => (List.append_nil _).symm)
    (List.forall_mem_singleton.mpr rfl) fun _ _ => rfl
  intro m missed
  obtain rfl := Doing.missed.inj (List.mem_singleton.mp missed)
  exact unknown

/-- A hook is left with a track. -/
theorem of_hooked {t : Track} {hook : Hook} (known : table.known <+: table'.known)
    (closed : table'.closed = table.closed)
    (hooks : table'.hooks = table.hooks ++ [(t.serial, hook)]) :
    Ledger none table table' [.hooked t hook] := by
  refine of_plain known (by simp) nofun closed ?_ (List.forall_mem_singleton.mpr rfl)
    fun _ _ => rfl
  intro n
  rw [TrackTable.waiting, hooks, List.filter_append, List.map_append, TrackTable.waiting]
  congr 1
  by_cases same : t.serial = n
  · simp [hookedIn, Doing.hookFor?, same]
  · simp [hookedIn, Doing.hookFor?, same]

/-- A hook of the track that is being closed begins or ends. -/
theorem of_run {t : Track} {hook : Hook} {d : Doing} (closed : t.serial ∈ table.closed)
    (run : d = .began (some t) hook ∨ d = .ended (some t) hook) :
    Ledger (some t.serial) table table [d] := by
  have own {n : Nat} (other : some t.serial ≠ some n) : (t.serial == n) = false :=
    beq_eq_false_iff_ne.mpr fun same => other (congrArg some same)
  refine of_plain List.prefix_rfl ?_ (fun n same => Option.some.inj same ▸ closed) rfl ?_ ?_ ?_
  · rcases run with rfl | rfl <;> simp
  · rcases run with rfl | rfl <;> exact fun n => (List.append_nil _).symm
  · rcases run with rfl | rfl <;> exact List.forall_mem_singleton.mpr rfl
  · rcases run with rfl | rfl
    all_goals
      intro n other
      exact List.filter_cons_of_neg (by simp [Doing.isRunOf, own other])

theorem of_seen {closed : List Track} (known : table.known <+: table'.known)
    (same : table'.closed = table.closed) (waiting : table'.hooks = table.hooks)
    (seen : ∀ t ∈ table.known, t ∈ closed ↔ t.serial ∈ table.closed) :
    Ledger none table table' [.saw closed] := by
  have only {before after : List Doing} {d : Doing}
      (split : [.saw closed] = before ++ d :: after) : before = [] ∧ d = .saw closed := by
    rcases split_cons split with ⟨rfl, rfl, -⟩ | ⟨earlier, -, none⟩
    · exact ⟨rfl, rfl⟩
    · cases earlier <;> cases none
  refine ⟨known, by simp, nofun, ?_, ?_, ?_, ⟨.nil, List.nil_subset _⟩, ?_, ?_, fun _ _ _ => rfl,
    ?_, ?_⟩
  · intro n
    rw [same, TrackTable.ClosedAfter]
    simp [grantedIn, Doing.granted?]
  · intro n _
    rw [TrackTable.waiting, waiting]
    exact (List.append_nil _).symm
  · exact fun before t after split => nomatch (only split).2
  · exact fun before t a after split => nomatch (only split).2
  · exact fun before t after split => nomatch (only split).2
  · exact List.forall_mem_singleton.mpr rfl
  · intro before closed' after split t ht
    obtain ⟨rfl, same⟩ := only split
    obtain rfl := Doing.saw.inj same
    rw [seen t ht, TrackTable.ClosedAfter]
    simp [grantedIn]

/-- A call for a track that is closed already. -/
theorem refused {t : Track} (closed : t.serial ∈ table.closed) :
    Ledger none table table [.called t, .answered t (.failed (.trackClosed t.channel))] := by
  have only {before after : List Doing} {d : Doing}
      (split : [.called t, .answered t (.failed (.trackClosed t.channel))] =
        before ++ d :: after) :
      (before = [] ∧ d = .called t ∧
          after = [.answered t (.failed (.trackClosed t.channel))]) ∨
        (before = [.called t] ∧ d = .answered t (.failed (.trackClosed t.channel))) := by
    rcases split_cons split with ⟨rfl, rfl, rfl⟩ | ⟨earlier, rfl, rest⟩
    · exact .inl ⟨rfl, rfl, rfl⟩
    · rcases split_cons rest with ⟨rfl, rfl, -⟩ | ⟨earlier, -, none⟩
      · exact .inr ⟨rfl, rfl⟩
      · cases earlier <;> cases none
  refine ⟨List.prefix_rfl, by simp, nofun, ?_, ?_, ?_, ⟨.nil, List.nil_subset _⟩, ?_, ?_,
    fun _ _ _ => rfl, ?_, ?_⟩
  · intro n
    rw [TrackTable.ClosedAfter]
    simp [grantedIn, Doing.granted?]
  · exact fun n _ => (List.append_nil _).symm
  · intro before t' after split
    rcases only split with ⟨rfl, same, rfl⟩ | ⟨-, none⟩
    · obtain rfl := Doing.called.inj same
      exact .refused [] (.inl closed)
    · cases none
  · intro before t' a after split
    rcases only split with ⟨-, none, -⟩ | ⟨rfl, same⟩
    · cases none
    · obtain ⟨rfl, rfl⟩ := Doing.answered.inj same
      exact .inr ⟨rfl, [], rfl⟩
  · intro before t' after split
    rcases only split with ⟨-, none, -⟩ | ⟨-, none⟩ <;> cases none
  · exact List.forall_mem_cons.mpr ⟨rfl, List.forall_mem_singleton.mpr rfl⟩
  · intro before closed' after split
    rcases only split with ⟨-, none, -⟩ | ⟨-, none⟩ <;> cases none

/-! ### Calls that succeed -/

/-- In the hooks of a track other tracks are the same as before. -/
theorem weaken (h : Ledger none table table' ds) {n : Nat} (closed : n ∈ table.closed) :
    Ledger (some n) table table' ds :=
  { h with
    running_closed := fun _ same => Option.some.inj same ▸ closed
    idle := fun m unmarked _ => h.idle m unmarked nofun }

end Ledger

/-- An open track has been marked closed, and its hooks have been taken off it. -/
structure TrackTable.Grants (table table' : TrackTable) (t : Track) : Prop where
  opened : t.serial ∉ table.closed
  known : table'.known = table.known
  closed : table'.closed = t.serial :: table.closed
  waiting : ∀ n, n ≠ t.serial → table'.waiting n = table.waiting n

/-- A call that finds a track open, with all that its hooks do. -/
def grantedCall (t : Track) (ds : List Doing) : List Doing :=
  .called t :: .granted t :: (ds ++ [.answered t .done])

section

variable (t : Track) (n : Nat) (ds : List Doing)

theorem grantedIn_grantedCall : grantedIn (grantedCall t ds) = t.serial :: grantedIn ds := by
  show t.serial :: grantedIn (ds ++ [.answered t .done]) = _
  rw [grantedIn_append]
  exact congrArg _ (List.append_nil _)

theorem succeededIn_grantedCall :
    succeededIn (grantedCall t ds) = succeededIn ds ++ [t.serial] :=
  succeededIn_append ds _

theorem hookedIn_grantedCall : hookedIn n (grantedCall t ds) = hookedIn n ds := by
  show hookedIn n (ds ++ [.answered t .done]) = _
  rw [hookedIn_append]
  exact List.append_nil _

theorem runsIn_grantedCall : runsIn n (grantedCall t ds) = runsIn n ds :=
  (runsIn_append n ds _).trans (List.append_nil _)

end

/-- What a call amounts to is the call, the mark, something that hooks do, or the answer. -/
theorem split_grantedCall {t : Track} {ds before after : List Doing} {d : Doing}
    (h : grantedCall t ds = before ++ d :: after) :
    (before = [] ∧ d = .called t ∧ after = .granted t :: (ds ++ [.answered t .done])) ∨
      (before = [.called t] ∧ d = .granted t) ∨
      (∃ earlier later, before = .called t :: .granted t :: earlier ∧
        ds = earlier ++ d :: later ∧ after = later ++ [.answered t .done]) ∨
      d = .answered t .done := by
  rcases split_cons h with ⟨rfl, rfl, rfl⟩ | ⟨earlier, rfl, rest⟩
  · exact .inl ⟨rfl, rfl, rfl⟩
  rcases split_cons rest with ⟨rfl, rfl, rfl⟩ | ⟨earlier, rfl, inner⟩
  · exact .inr (.inl ⟨rfl, rfl⟩)
  rcases split_append inner with ⟨later, inside, rfl⟩ | ⟨earlier, rfl, last⟩
  · exact .inr (.inr (.inl ⟨earlier, later, rfl, inside, rfl⟩))
  rcases split_cons last with ⟨-, rfl, -⟩ | ⟨earlier, -, none⟩
  · exact .inr (.inr (.inr rfl))
  · cases earlier <;> cases none

namespace TrackTable.Grants

variable {table table₁ : TrackTable} {t u : Track} {n : Nat} {before after : List Doing}

theorem mem_closed (h : table.Grants table₁ t) : t.serial ∈ table₁.closed :=
  h.closed ▸ List.mem_cons_self

theorem not_closedAfter (h : table.Grants table₁ t) : ¬ table.ClosedAfter [.called t] t.serial := by
  rintro (closed | granted)
  · exact h.opened closed
  · cases granted

theorem closedAfter (h : table.Grants table₁ t) :
    table₁.ClosedAfter before n ↔ table.ClosedAfter (.called t :: .granted t :: before) n := by
  show n ∈ table₁.closed ∨ _ ↔ n ∈ table.closed ∨ n ∈ t.serial :: grantedIn before
  rw [h.closed, List.mem_cons, List.mem_cons]
  exact or_assoc.trans or_left_comm

/-- What waits for another track that is still open has not been touched. -/
theorem waiting_of_open (h : table.Grants table₁ t) (opened : n ∉ table₁.closed) :
    table₁.waiting n = table.waiting n := by
  refine h.waiting n ?_
  rintro rfl
  exact opened h.mem_closed

theorem answers (h : table.Grants table₁ t) (inside : Answers table₁ before u after) :
    Answers table (.called t :: .granted t :: before) u after := by
  cases inside with
  | granted inner later opened ran =>
    have unclosed : u.serial ∉ table₁.closed := fun closed => opened (.inl closed)
    rw [h.waiting_of_open unclosed] at ran
    exact .granted inner later (fun closed => opened (h.closedAfter.mpr closed)) ran
  | refused later closed => exact .refused later (h.closedAfter.mp closed)

end TrackTable.Grants

/-- A call for an open track, which runs its hooks and then succeeds. -/
theorem Ledger.closing {table table₁ table' : TrackTable} {t : Track} {ds : List Doing}
    (grants : table.Grants table₁ t) (h : Ledger (some t.serial) table₁ table' ds)
    (ran : runsIn t.serial ds = runsOf t (table.waiting t.serial)) :
    Ledger none table table' (grantedCall t ds) := by
  -- The hooks may call for the track again, but they find it closed.
  have once : t.serial ∉ succeededIn ds :=
    fun again => h.not_granted_of_mem grants.mem_closed (h.succeeded.2 again)
  have own : runsIn t.serial ds = runsOf t (table.waiting t.serial ++ []) := by
    rw [ran, List.append_nil]
  constructor
  case known => exact grants.known ▸ h.known
  case found =>
    intro n missed
    exact grants.known ▸ h.found n (by simpa [grantedCall] using missed)
  case running_closed => exact nofun
  case closed =>
    intro n
    rw [h.closed, grants.closedAfter, TrackTable.ClosedAfter, TrackTable.ClosedAfter,
      grantedIn_grantedCall]
    rfl
  case waiting =>
    intro n opened
    have before : n ∉ table₁.closed := fun closed => opened (h.mem_of_mem closed)
    rw [h.waiting n opened, grants.waiting_of_open before, hookedIn_grantedCall]
  case calls =>
    intro before u after split
    rcases split_grantedCall split with
      ⟨rfl, same, rfl⟩ | ⟨-, none⟩ | ⟨earlier, later, rfl, inside, rfl⟩ | none
    · obtain rfl := Doing.called.inj same
      exact .granted ds [] grants.not_closedAfter own
    · cases none
    · exact (grants.answers (h.calls earlier u later inside)).append _
    · cases none
  case succeeded =>
    rw [succeededIn_grantedCall, grantedIn_grantedCall]
    refine ⟨List.nodup_append.mpr ⟨h.succeeded.1, by simp, ?_⟩, ?_⟩
    · rintro n hn m hm rfl
      rw [List.mem_singleton.mp hm] at hn
      exact once hn
    · have inside := List.Subset.trans h.succeeded.2 (List.subset_cons_self t.serial _)
      exact List.append_subset.mpr ⟨inside, by simp⟩
  case answers =>
    intro before u a after split
    rcases split_grantedCall split with
      ⟨-, none, -⟩ | ⟨-, none⟩ | ⟨earlier, later, rfl, inside, -⟩ | same
    · cases none
    · cases none
    · refine (h.answers earlier u a later inside).imp_right fun ⟨refused, first, called⟩ => ?_
      exact ⟨refused, .called t :: .granted t :: first, by rw [called]; rfl⟩
    · exact .inl (Doing.answered.inj same).2
  case granted =>
    intro before u after split
    rw [runsIn_grantedCall]
    rcases split_grantedCall split with
      ⟨-, none, -⟩ | ⟨rfl, same⟩ | ⟨earlier, later, rfl, inside, -⟩ | none
    · cases none
    · obtain rfl := Doing.granted.inj same
      exact ⟨⟨[], rfl⟩, grants.not_closedAfter, own⟩
    · obtain ⟨⟨first, rfl⟩, opened, ran'⟩ := h.granted earlier u later inside
      have unclosed : u.serial ∉ table₁.closed := fun closed => opened (.inl closed)
      rw [ran', grants.waiting_of_open unclosed]
      exact ⟨⟨.called t :: .granted t :: first, rfl⟩,
        fun closed => opened (grants.closedAfter.mpr closed), rfl⟩
    · cases none
  case idle =>
    intro n unmarked _
    rw [grantedIn_grantedCall, List.mem_cons, not_or] at unmarked
    rw [runsIn_grantedCall]
    exact h.idle n unmarked.2 fun same => unmarked.1 (Option.some.inj same).symm
  case owned =>
    refine List.forall_mem_cons.mpr ⟨rfl, List.forall_mem_cons.mpr ⟨rfl, ?_⟩⟩
    exact List.forall_mem_append.mpr ⟨h.owned, List.forall_mem_singleton.mpr rfl⟩
  case seen =>
    intro before closed after split u hu
    rcases split_grantedCall split with
      ⟨-, none, -⟩ | ⟨-, none⟩ | ⟨earlier, later, rfl, inside, -⟩ | none
    · cases none
    · cases none
    · rw [h.seen earlier closed later inside u (grants.known ▸ hu), grants.closedAfter]
    · cases none

end RtspControl
