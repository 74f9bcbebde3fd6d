import RtspControl.Proofs.Closings

/-!
# Sessions that are opened, played and closed

The session with the peer is opened by a dial, delivers media from a play on, and is over when it
is closed. The phase of the connection is meant to tell which of these has come last, but it is
kept by hand: building the session anew opens another one and leaves the phase as it is. So a
client that reconnects while it is idle has a session that no stop closes, and one that reconnects
while it is playing has a session that was never played.

`Move.passage` lists what a client's move does to the session and to the phase. From it follow,
by induction on the moves, the only way to an open session that a stop leaves behind
(`Course.stopped_isOpen_iff`), and the only one to a playing connection whose session has not been
played (`Course.playing_isPlayed_iff`).
-/

namespace RtspControl

open Session

/-! ## Milestones -/

/-- What decides whether a session is open, and whether it delivers media. -/
inductive Milestone where
  | opened
  | played
  | closed
  deriving DecidableEq

/-- A dial or a play counts if it is granted; a session that is closed is over in any case. -/
def Entry.milestone? : Entry → Option Milestone
  | .requested .dial none => some .opened
  | .requested .play none => some .played
  | .requested .close _ => some .closed
  | _ => none

/-- The milestones that a part of a history tells of, the first one first. -/
def milestones (es : List Entry) : List Milestone := es.reverse.filterMap Entry.milestone?

theorem milestones_append (es es' : List Entry) :
    milestones (es ++ es') = milestones es' ++ milestones es := by
  rw [milestones, List.reverse_append, List.filterMap_append]
  rfl

theorem milestones_cons (e : Entry) (es : List Entry) :
    milestones (e :: es) = milestones es ++ e.milestone?.toList := by
  rw [milestones, List.reverse_cons, List.filterMap_append]
  cases h : e.milestone? <;> simp [milestones, h]

/-- Is an entry about none of the milestones? -/
def Entry.isPlain (e : Entry) : Bool := e.milestone?.isNone

theorem milestones_of_isPlain {es : List Entry} (h : Only Entry.isPlain es) :
    milestones es = [] := by
  refine List.filterMap_eq_nil_iff.mpr ?_
  intro e he
  exact Option.isNone_iff_eq_none.mp (h e (List.mem_reverse.mp he))

theorem Only.isPlain_of_silent {es : List Entry} (h : Silent es) : Only Entry.isPlain es := by
  refine h.mono ?_
  intro e he
  cases e with
  | requested | setUp => simp [Entry.isSilent, Entry.call?] at he
  | _ => rfl

theorem milestones_of_silent {es : List Entry} (h : Silent es) : milestones es = [] :=
  milestones_of_isPlain (.isPlain_of_silent h)

section

variable {ts : List Track} {es : List Entry}

theorem isPlain_of_replayed {r : Except Fault Unit} (h : Replayed ts r es) :
    Only Entry.isPlain es := by
  induction h with
  | done => exact .nil
  | refused => exact .cons rfl .nil
  | assigned channel later ih => exact ih.append (.cons rfl .nil)

theorem milestones_of_dismissed (h : Dismissed es) : milestones es = [.closed] := by
  cases h <;> rfl

/-- The old session is closed in any case, and a new one is opened unless that is what fails. -/
theorem milestones_of_rebuilt {r : Except Fault Unit} (h : Rebuilt ts r es) :
    milestones es = [.closed, .opened] ∨ milestones es = [.closed] ∧ ∃ f, r = .error f := by
  have old {es : List Entry} (closing : Dismissed es) :
      milestones (es ++ [.note (.raised reconnectEvent)]) = [.closed] := by
    rw [milestones_append, milestones_of_dismissed closing]
    rfl
  have replayed {r : Except Fault Unit} {es : List Entry} (h : Replayed ts r es) :
      milestones es = [] :=
    milestones_of_isPlain (isPlain_of_replayed h)
  cases h with
  | undialled closing f =>
    refine Or.inr ⟨?_, f, rfl⟩
    rw [milestones_cons, old closing]
    rfl
  | undescribed closing f =>
    left
    rw [milestones_cons, milestones_cons, old closing]
    rfl
  | refused closing f h =>
    left
    rw [milestones_append, milestones_cons, milestones_cons, old closing, replayed h]
    rfl
  | done closing receivers senders h =>
    left
    rw [milestones_cons, milestones_append, milestones_cons, milestones_cons, old closing,
      replayed h]
    rfl

end

namespace Session

/-- Is a session open: has one been opened, and has nobody asked to close it since? -/
def IsOpen (s : Session) : Prop := Since (· = .opened) (· ≠ .closed) (milestones s.history)

/-- Has the session that was opened last been played? -/
def IsPlayed (s : Session) : Prop := Since (· = .played) (· ≠ .opened) (milestones s.history)

section

variable {s s' : Session} {ms : List Milestone}

theorem isOpen_of_opened (h : milestones s.history = ms ++ [.opened]) : s.IsOpen := by
  rw [IsOpen, h]
  exact since_concat.mpr (Or.inl rfl)

theorem not_isOpen_of_closed (h : milestones s.history = ms ++ [.closed]) : ¬ s.IsOpen := by
  rw [IsOpen, h]
  exact not_since_concat (by decide) (by decide)

theorem isPlayed_of_played (h : milestones s.history = ms ++ [.played]) : s.IsPlayed := by
  rw [IsPlayed, h]
  exact since_concat.mpr (Or.inl rfl)

theorem not_isPlayed_of_opened (h : milestones s.history = ms ++ [.opened]) : ¬ s.IsPlayed := by
  rw [IsPlayed, h]
  exact not_since_concat (by decide) (by decide)

/-- That a session is closed does not change whether it was played. -/
theorem isPlayed_of_closed (h : milestones s'.history = milestones s.history ++ [.closed]) :
    s'.IsPlayed ↔ s.IsPlayed := by
  rw [IsPlayed, h, since_concat]
  simp only [reduceCtorEq, false_or, ne_eq, not_false_eq_true, true_and]
  rfl

end

end Session

/-! ## What moves do to the session -/

/-- Does a frame handler set the phase here? -/
def Task.setsPhase : Task → Bool
  | .perform .frameHandler (.setPhase _) => true
  | _ => false

namespace Move

def Reconnects (x : Move) : Prop := ∃ caller, x.task = .perform caller .reconnect

/-- What a client's move does to the session, and to the phase along with it. -/
inductive Passage (x : Move) : Prop where
  | plain (milestones : milestones x.entries = []) (unattempted : ¬ x.Reconnects)
      (phase : x.left.control.phase = x.found.control.phase ∨ x.left.control.phase = .ready)
  | connected (milestones : milestones x.entries = [.opened])
      (phase : x.left.control.phase = .connected)
  | played (milestones : milestones x.entries = [.played])
      (ready : x.found.control.phase = .ready) (phase : x.left.control.phase = .playing)
  | stopped (milestones : milestones x.entries = [.closed])
      (busy : x.found.control.phase ≠ .idle) (phase : x.left.control.phase = .idle)
  /-- The session is built anew, or at least closed, and the phase does not show it. -/
  | unshown (milestones : milestones x.entries = [.closed, .opened] ∨
        milestones x.entries = [.closed])
      (cause : x.Reconnects ∨
        x.found.control.phase = .playing ∧ ∃ f, x.result? = some (.error f))
      (phase : x.left.control.phase = x.found.control.phase)
  | renewed (milestones : milestones x.entries = [.closed, .opened])
      (phase : x.left.control.phase = .ready)

variable {x : Move}

theorem not_reconnects_of_perform {caller : Caller} {op : Operation}
    (h : x.task = .perform caller op) (hop : op ≠ .reconnect) : ¬ x.Reconnects := by
  rintro ⟨_, ht⟩
  exact hop (Task.perform.inj (h.symm.trans ht)).2

theorem not_reconnects_of_request? {m : MediaSection} {c : Codec}
    (h : x.task.request? = some (m, c)) : ¬ x.Reconnects := by
  rintro ⟨_, ht⟩
  rw [ht] at h
  cases h

theorem not_reconnects_of_pass? {handled : Option Outcome} (h : x.task.pass? = some handled) :
    ¬ x.Reconnects := by
  rintro ⟨_, ht⟩
  rw [ht] at h
  cases h

theorem Passage.of_silent (es : List Entry) (history : x.left.history = es ++ x.found.history)
    (silent : Silent es) (unattempted : ¬ x.Reconnects)
    (phase : x.left.control.phase = x.found.control.phase) : x.Passage :=
  .plain (by rw [entries_of_history history, milestones_of_silent silent]) unattempted
    (Or.inl phase)

theorem Passage.of_connecting {caller : Caller} {r : Except Fault Unit}
    (kind : x.task = .perform caller .connect)
    (h : Connecting (x.found.log (.began .connect)) (r, x.left)) : x.Passage := by
  have other := not_reconnects_of_perform kind (by simp)
  have entries (es : List Entry) (hh : x.left.history = es ++ x.found.history) :
      milestones x.entries = milestones es := by
    rw [entries_of_history hh]
  generalize hl : x.left = s' at h entries
  cases h with
  | refused f h =>
    exact .plain (entries [.began .connect] rfl) other (Or.inl (by rw [hl]; rfl))
  | undialled f p =>
    exact .plain (entries [.requested .dial (some f), .began .connect] rfl) other
      (Or.inl (by rw [hl]; rfl))
  | undescribed f p client idle =>
    exact .connected (entries [.requested .describe (some f),
      .note (.transition .idle .connected), .requested .dial none, .began .connect] rfl)
      (by rw [hl]; rfl)
  | connected p client idle =>
    exact .connected (entries [.note .connected, .requested .describe none,
      .note (.transition .idle .connected), .requested .dial none, .began .connect] rfl)
      (by rw [hl]; rfl)

theorem Passage.of_isStop (h : x.isStop = true) : x.Passage := by
  have other : ¬ x.Reconnects := by
    rintro ⟨caller, ht⟩
    rw [isStop, ht] at h
    cases h
  have stops := x.stops h
  obtain ⟨fault, closing, aside, entries, -, -⟩ := stops.ended
  have quiet := milestones_of_silent (.of_isAside aside)
  have phase : x.left.control.phase = .idle := by rw [stops.control]
  by_cases idle : x.found.control.phase = .idle
  · refine .plain ?_ other (Or.inl (phase.trans idle.symm))
    rw [entries, if_pos idle, milestones_append, quiet]
    rfl
  · refine .stopped ?_ idle phase
    rw [entries, if_neg idle, milestones_append, quiet]
    rfl

theorem Passage.of_passing {handled : Option Outcome} {r : Except Fault (Option Outcome)}
    {s₁ : Session} (kind : x.task.pass? = some handled) (client : x.found.role = .activeProducer)
    (h : Passing handled (x.task.underway x.found) (r, s₁)) (called : Aside s₁ x.left) :
    x.Passage := by
  have other := not_reconnects_of_pass? kind
  have hu := Task.aside_underway x.task x.found
  obtain ⟨es, hes, history⟩ := Task.history_called (t := x.task) (s := x.found) called
  have entries (es₁ : List Entry) (hh : s₁.history = es₁ ++ (x.task.underway x.found).history) :
      milestones x.entries = milestones es₁ := by
    rw [entries_of_history (history es₁ hh), milestones_append, milestones_append,
      milestones_of_silent (.opening x.task), milestones_of_silent (.of_isAside hes),
      List.nil_append, List.append_nil]
  -- A pass that neither plays nor moves on.
  have still (es₁ : List Entry) (hh : s₁.history = es₁ ++ (x.task.underway x.found).history)
      (nothing : milestones es₁ = []) (hc : s₁.control = (x.task.underway x.found).control) :
      x.Passage := by
    refine .plain ((entries es₁ hh).trans nothing) other (Or.inl ?_)
    rw [called.control, hc, hu.control]
  cases h with
  | first | early | busy | broken => exact still [] rfl rfl rfl
  | stopped es₁ idle result h aside =>
    exact still es₁ rfl (milestones_of_silent (.of_isAside aside)) rfl
  | unplayed f p => exact still [.requested .play (some f)] rfl rfl rfl
  | played p ready =>
    refine .played
      (entries [.note (.transition .ready .playing), .requested .play none] rfl) ?_ ?_
    · rw [← hu.control, ready]
    · rw [called.control]
      rfl
  | served _ server =>
    rw [hu.role] at server
    exact absurd client server

/-- What is asked of the peer for one more section, after the preparations for it. -/
theorem Passage.of_prepared (later : List Entry) {es : List Entry} {s₁ : Session}
    {m : MediaSection} {c : Codec} {r : Except Fault Track} (kind : x.task.request? = some (m, c))
    (result : x.result? = some r) (prepared : Prepared (x.task.underway x.found) s₁ es)
    (entries : x.entries = later ++ (es ++ x.task.opening)) (plain : Only Entry.isPlain later)
    (ended : (∃ t, r = .ok t) ∧ x.left.control.phase = .ready ∨
      (∃ f, r = .error f) ∧ x.left.control.phase = x.found.control.phase) : x.Passage := by
  have hu := Task.aside_underway x.task x.found
  have asked : milestones x.entries = milestones es := by
    rw [entries, milestones_append, milestones_append, milestones_of_isPlain plain,
      milestones_of_silent (.opening x.task), List.nil_append, List.append_nil]
  cases prepared with
  | ready resting =>
    refine .plain asked (not_reconnects_of_request? kind) ?_
    exact (ended.imp And.right And.right).symm
  | rebuilt playing rebuilt =>
    have renewed : milestones x.entries = [.closed, .opened] := by
      rcases milestones_of_rebuilt rebuilt with h | ⟨-, f, hf⟩
      · exact asked.trans h
      · cases hf
    rcases ended with ⟨-, phase⟩ | ⟨⟨f, rfl⟩, phase⟩
    · exact .renewed renewed phase
    · exact .unshown (Or.inl renewed) (Or.inr ⟨hu.control ▸ playing, f, result⟩) phase

theorem Passage.of_request {m : MediaSection} {c : Codec} (kind : x.task.request? = some (m, c))
    (client : x.found.role = .activeProducer) : x.Passage := by
  obtain ⟨r, s', result, hl, negotiation⟩ := x.negotiation kind
  have other := not_reconnects_of_request? kind
  have hu := Task.aside_underway x.task x.found
  cases negotiation with
  | served t hit =>
    refine .of_silent (.note (.servedFromRegistry t) :: x.task.opening) ?_
      (Only.cons rfl (Silent.opening x.task)) other ?_
    · rw [hl, history_log, Task.history_underway]
      rfl
    · rw [hl, control_log, hu.control]
  | refused f =>
    refine .of_silent x.task.opening ?_ (.opening x.task) other ?_
    · rw [hl, Task.history_underway]
    · rw [hl, hu.control]
  | @unbuilt f p es miss _ direction playing rebuilt =>
    have asked : milestones x.entries = milestones es := by
      rw [entries_of_request hl rfl, milestones_append, milestones_of_silent (.opening x.task),
        List.nil_append]
    have phase : x.left.control.phase = x.found.control.phase := by
      rw [hl, control_heard, control_alerted, hu.control]
    refine .unshown ?_ (Or.inr ⟨hu.control ▸ playing, f, result⟩) phase
    rw [asked]
    exact (milestones_of_rebuilt rebuilt).imp id And.left
  | @unassigned f p s₁ es miss _ direction prepared =>
    refine .of_prepared [.setUp m (.error f)] kind result prepared ?_ (.cons rfl .nil)
      (Or.inr ⟨⟨f, rfl⟩, ?_⟩)
    · exact entries_of_request hl (by rw [history_heard, prepared.history])
    · rw [hl, control_heard, prepared.control, hu.control]
  | @assigned channel p s₁ es miss _ direction prepared =>
    obtain ⟨later, silent, entries⟩ := entries_of_assigned hl prepared
    refine .of_prepared (later ++ [.setUp m (.ok channel)]) kind result prepared ?_
      ((Only.isPlain_of_silent silent).append (.cons rfl .nil)) (Or.inl ⟨⟨_, rfl⟩, ?_⟩)
    · rw [entries, List.append_assoc]
      rfl
    · rw [hl]
      rfl
  | allotted channel miss server =>
    rw [hu.role, client] at server
    cases server

/-- A client's move does one of six things to the session, unless a frame handler sets the
phase. -/
theorem passage (suits : x.task.Suits x.found.role) (client : x.found.role = .activeProducer)
    (unset : x.task.setsPhase = false) : x.Passage := by
  have he := x.effect suits
  generalize hl : x.left = s' at he
  cases he with
  | aside kind aside =>
    subst hl
    obtain ⟨es, history, hes⟩ := aside.history
    refine .of_silent es history (.of_isAside hes) ?_ (by rw [aside.control])
    rintro ⟨_, ht⟩
    simp [ht, Task.isAside] at kind
  | connect kind connecting => exact .of_connecting kind (hl ▸ connecting)
  | stop kind => exact .of_isStop (by rw [isStop, kind])
  | unable kind server => exact absurd client server
  | @reconnect caller r es p kind _ rebuilt =>
    have history : x.left.history = (es ++ [.began .reconnect]) ++ x.found.history := by
      rw [hl, List.append_assoc]
      rfl
    have asked : milestones x.entries = milestones es := by
      rw [entries_of_history history, milestones_append]
      rfl
    refine .unshown ?_ (Or.inl ⟨caller, kind⟩) (by rw [hl]; rfl)
    rw [asked]
    exact (milestones_of_rebuilt rebuilt).imp id And.left
  | unknown kind | barred kind =>
    exact .of_silent [_] (by rw [hl]; rfl) (.cons rfl .nil)
      (not_reconnects_of_perform kind (by simp)) (by rw [hl]; rfl)
  | @addSender caller n times track kind known =>
    refine .of_silent _ (by rw [hl]; rfl) ((Only.replicate times rfl).append (.cons rfl .nil))
      (not_reconnects_of_perform kind (by simp)) (by rw [hl]; rfl)
  | setPhase kind =>
    rw [kind] at unset
    cases unset
  | startless kind consumer =>
    rw [client] at consumer
    cases consumer
  | pass kind producer passing called => exact .of_passing kind client passing (hl ▸ called)
  | request kind => exact .of_request kind client

theorem milestones_left (suits : x.task.Suits x.found.role) :
    milestones x.left.history = milestones x.found.history ++ milestones x.entries := by
  rw [x.history_left suits, milestones_append]

end Move

/-- Is no phase set by a frame handler? -/
def Steady (moves : List Move) : Prop := ∀ x ∈ moves, x.task.setsPhase = false

theorem Steady.of_append {moves moves' : List Move} (h : Steady (moves ++ moves')) :
    Steady moves ∧ Steady moves' :=
  List.forall_mem_append.mp h

/-! ## Sessions that a stop leaves open -/

/-- Does a reconnect open a session while the connection is idle, and stays so? -/
def Move.Strays (x : Move) : Prop :=
  x.Reconnects ∧ x.left.control.phase = .idle ∧ .opened ∈ milestones x.entries

/-- Has a session been opened by a reconnect while the connection was idle, and has the
connection stayed idle since then, without another attempt to reconnect? -/
def Strayed (past : List Move) : Prop :=
  Since Move.Strays (fun x => x.left.control.phase = .idle ∧ ¬ x.Reconnects) past

section

variable {role : Role} {past : List Move} {s : Session} {x : Move}

theorem strayed_concat :
    Strayed (past ++ [x]) ↔ x.left.control.phase = .idle ∧
      (x.Reconnects ∧ .opened ∈ milestones x.entries ∨ ¬ x.Reconnects ∧ Strayed past) := by
  rw [Strayed, since_concat, Move.Strays, and_assoc, and_left_comm, ← and_or_left]
  rfl

theorem Reached.idle_of_strayed (h : Reached role past s) (strayed : Strayed past) :
    s.control.phase = .idle := by
  cases h with
  | opened => exact absurd strayed not_since_nil
  | moved earlier t => exact (strayed_concat.mp strayed).1

/-- An idle connection has an open session only if a reconnect has left it. -/
theorem Reached.isOpen_iff (h : Reached role past s) (client : role = .activeProducer)
    (steady : Steady past) (idle : s.control.phase = .idle) : s.IsOpen ↔ Strayed past := by
  induction h using Reached.induct with
  | opened => exact iff_of_false not_since_nil not_since_nil
  | moved past x earlier _ suits ih =>
    obtain ⟨steady, still⟩ := steady.of_append
    have unset := still x (List.mem_singleton_self x)
    have ih := ih steady
    have hm := x.milestones_left suits
    rw [strayed_concat]
    cases x.passage suits (earlier.role_eq.trans client) unset with
    | plain none unattempted phase =>
      have resting : x.found.control.phase = .idle := by
        rcases phase with same | ready
        · rw [← same, idle]
        · rw [idle] at ready
          cases ready
      rw [none, List.append_nil] at hm
      rw [Session.IsOpen, hm, ← Session.IsOpen, ih resting]
      simp only [idle, unattempted, false_and, false_or, not_false_eq_true, true_and]
    | connected _ phase | played _ _ phase | renewed _ phase =>
      rw [idle] at phase
      cases phase
    | stopped closed busy =>
      rw [closed] at hm
      refine iff_of_false (Session.not_isOpen_of_closed hm) ?_
      rintro ⟨-, ⟨-, opened⟩ | ⟨-, strayed⟩⟩
      · simp [closed] at opened
      · exact busy (earlier.idle_of_strayed strayed)
    | unshown closed cause phase =>
      have attempted : x.Reconnects := by
        refine cause.resolve_right ?_
        rintro ⟨playing, -⟩
        rw [← phase, idle] at playing
        cases playing
      simp only [idle, attempted, not_true_eq_false, false_and, or_false, true_and]
      rcases closed with closed | closed
      · rw [closed, List.append_cons] at hm
        exact iff_of_true (Session.isOpen_of_opened hm) (by simp [closed])
      · rw [closed] at hm
        exact iff_of_false (Session.not_isOpen_of_closed hm) (by simp [closed])

end

/-- Whatever calls fail, a stop leaves a client's session open exactly if a reconnect has opened it
while the connection was idle, and the connection has stayed idle since, without another
reconnect. -/
theorem Course.stopped_isOpen_iff (r : Course) (client : r.role = .activeProducer)
    (steady : Steady r.moves) {past later : List Move} {x : Move}
    (h : r.moves = past ++ x :: later) (stop : x.isStop = true) :
    x.left.IsOpen ↔ Strayed past := by
  have hr : Reached r.role (past ++ x :: later) r.session := h ▸ r.reached
  rw [h, List.append_cons] at steady
  have idle : x.left.control.phase = .idle := by rw [(x.stops stop).control]
  have unattempted : ¬ x.Reconnects := by
    rintro ⟨caller, ht⟩
    rw [Move.isStop, ht] at stop
    cases stop
  rw [hr.after.isOpen_iff client steady.of_append.1 idle, strayed_concat]
  simp only [idle, unattempted, false_and, false_or, not_false_eq_true, true_and]

/-- A client that reconnects while it is idle, and stops when the new session is not described. -/
def Course.strandedClient : Course :=
  { role := .activeProducer, descriptor := default, settings := default, monitored := false
    peer := {}, script := {}
    callers := [[.expectFault ⟨.describe, 0, .transport "describe failed"⟩, .reconnect, .stop]]
    schedule := List.replicate 7 0 }

/-- The move with which it stops. -/
def strandedStop : Move := Course.strandedClient.moves.get ⟨5, by decide⟩

/-- A stop may leave a session open that has been opened before. -/
theorem Course.strandedClient_isOpen :
    ¬ ∀ r : Course, r.role = .activeProducer → Steady r.moves →
      ∀ x ∈ r.moves, x.isStop = true → ¬ x.left.IsOpen := by
  intro h
  have steady : Steady strandedClient.moves := by
    unfold Steady
    decide
  have hm : milestones strandedStop.left.history = [.closed] ++ [.opened] := by decide
  exact h strandedClient rfl steady strandedStop (List.get_mem _ _) rfl
    (Session.isOpen_of_opened hm)

/-- It is the reconnect that has left the session. -/
theorem Course.strandedClient_strayed :
    strandedStop.isStop = true ∧ Strayed (strandedClient.moves.take 5) := by
  have steady : Steady strandedClient.moves := by
    unfold Steady
    decide
  have split : strandedClient.moves = strandedClient.moves.take 5 ++
      strandedStop :: strandedClient.moves.drop 6 := rfl
  have hm : milestones strandedStop.left.history = [.closed] ++ [.opened] := by decide
  have strayed := Course.stopped_isOpen_iff strandedClient rfl steady split rfl
  exact ⟨rfl, strayed.mp (Session.isOpen_of_opened hm)⟩

/-! ## Playing sessions that were not played -/

/-- Does a reconnect, or a request that fails, open a session while the connection is playing, and
goes on playing? -/
def Move.Reopens (x : Move) : Prop :=
  (x.Reconnects ∨ ∃ f, x.result? = some (.error f)) ∧ x.left.control.phase = .playing ∧
    .opened ∈ milestones x.entries

/-- Has the session been opened again since the connection began to play? -/
def Reopened (past : List Move) : Prop :=
  Since Move.Reopens (fun x => x.left.control.phase = .playing) past

section

variable {role : Role} {past : List Move} {s : Session} {x : Move}

theorem reopened_concat :
    Reopened (past ++ [x]) ↔ x.left.control.phase = .playing ∧
      ((x.Reconnects ∨ ∃ f, x.result? = some (.error f)) ∧ .opened ∈ milestones x.entries ∨
        Reopened past) := by
  rw [Reopened, since_concat, Move.Reopens, and_left_comm, ← and_or_left]
  rfl

theorem Reached.playing_of_reopened (h : Reached role past s) (reopened : Reopened past) :
    s.control.phase = .playing := by
  cases h with
  | opened => exact absurd reopened not_since_nil
  | moved earlier t => exact (reopened_concat.mp reopened).1

/-- A playing connection has a session that was not played only if it was opened while it was
playing. -/
theorem Reached.isPlayed_iff (h : Reached role past s) (client : role = .activeProducer)
    (steady : Steady past) (playing : s.control.phase = .playing) :
    s.IsPlayed ↔ ¬ Reopened past := by
  induction h using Reached.induct with
  | opened => cases playing
  | moved past x earlier _ suits ih =>
    obtain ⟨steady, still⟩ := steady.of_append
    have unset := still x (List.mem_singleton_self x)
    have ih := ih steady
    have hm := x.milestones_left suits
    rw [reopened_concat]
    cases x.passage suits (earlier.role_eq.trans client) unset with
    | plain none _ phase =>
      have same : x.left.control.phase = x.found.control.phase := by
        refine phase.resolve_right fun ready => ?_
        rw [playing] at ready
        cases ready
      rw [none, List.append_nil] at hm
      rw [Session.IsPlayed, hm, ← Session.IsPlayed, ih (same.symm.trans playing)]
      simp only [playing, none, List.not_mem_nil, and_false, false_or, true_and]
    | connected _ phase | stopped _ _ phase | renewed _ phase =>
      rw [playing] at phase
      cases phase
    | played played ready =>
      rw [played] at hm
      refine iff_of_true (Session.isPlayed_of_played hm) ?_
      rintro ⟨-, ⟨-, opened⟩ | reopened⟩
      · simp [played] at opened
      · rw [earlier.playing_of_reopened reopened] at ready
        cases ready
    | unshown closed cause phase =>
      rcases closed with closed | closed
      · have reopens : .opened ∈ milestones x.entries := by simp [closed]
        rw [closed, List.append_cons] at hm
        refine iff_of_false (Session.not_isPlayed_of_opened hm) (not_not_intro ?_)
        exact ⟨playing, Or.inl ⟨cause.imp_right And.right, reopens⟩⟩
      · rw [closed] at hm
        rw [Session.isPlayed_of_closed hm, ih (phase.symm.trans playing), closed]
        simp only [playing, List.mem_singleton, reduceCtorEq, and_false, false_or, true_and]

end

/-- Whatever calls fail, a client's connection that is playing has a session that was played,
unless since the connection began to play its session has been opened again by a reconnect, or for
a request that failed. -/
theorem Course.playing_isPlayed_iff (r : Course) (client : r.role = .activeProducer)
    (steady : Steady r.moves) {past later : List Move} {x : Move}
    (h : r.moves = past ++ x :: later) (playing : x.left.control.phase = .playing) :
    x.left.IsPlayed ↔ ¬ Reopened (past ++ [x]) := by
  have hr : Reached r.role (past ++ x :: later) r.session := h ▸ r.reached
  rw [h, List.append_cons] at steady
  exact hr.after.isPlayed_iff client steady.of_append.1 playing

/-- A client that plays a video stream while a handler reconnects. -/
def Course.reconnectingClient : Course :=
  { role := .activeProducer, descriptor := default, settings := default, monitored := false
    peer := {}, script := {}
    callers := [[.connect, .getTrack videoSection videoRequest,
      .pushStep [.reconnect, .showControl] (.ok ()), .start]]
    schedule := List.replicate 14 0 }

/-- The move with which the handler reconnects. -/
def reconnectingMove : Move := Course.reconnectingClient.moves.get ⟨8, by decide⟩

/-- A connection may be playing while its session was never played. -/
theorem Course.reconnectingClient_unplayed :
    ¬ ∀ r : Course, r.role = .activeProducer → Steady r.moves →
      ∀ x ∈ r.moves, x.left.control.phase = .playing → x.left.IsPlayed := by
  intro h
  have steady : Steady reconnectingClient.moves := by
    unfold Steady
    decide
  have hm : milestones reconnectingMove.left.history =
      [.opened, .played, .closed] ++ [.opened] := by decide
  have playing : reconnectingMove.left.control.phase = .playing := by decide
  exact Session.not_isPlayed_of_opened hm
    (h reconnectingClient rfl steady reconnectingMove (List.get_mem _ _) playing)

/-- The session has been opened again by the handler; it was played before. -/
theorem Course.reconnectingClient_reopened :
    reconnectingMove.left.control.phase = .playing ∧ reconnectingMove.found.IsPlayed ∧
      Reopened (reconnectingClient.moves.take 8 ++ [reconnectingMove]) := by
  have steady : Steady reconnectingClient.moves := by
    unfold Steady
    decide
  have split : reconnectingClient.moves = reconnectingClient.moves.take 8 ++
      reconnectingMove :: reconnectingClient.moves.drop 9 := rfl
  have before : milestones reconnectingMove.found.history = [.opened] ++ [.played] := by decide
  have hm : milestones reconnectingMove.left.history =
      [.opened, .played, .closed] ++ [.opened] := by decide
  have playing : reconnectingMove.left.control.phase = .playing := by decide
  have played := Course.playing_isPlayed_iff reconnectingClient rfl steady split playing
  refine ⟨playing, Session.isPlayed_of_played before, not_not.mp fun kept => ?_⟩
  exact Session.not_isPlayed_of_opened hm (played.mpr kept)

end RtspControl
