import RtspControl.Proofs.Course
import Mathlib.Data.List.DropRight

/-!
# The registries and the log of a course

What is registered can be told from the moves alone, without a look at the registries: the
inbound tracks are those that requests have made since the last stop, and the outbound ones
those that `addSender` has been given since then, both in the order of the moves.

`Move.registries_left` is the step: whatever a move does other than to stop the connection, it
appends to the registries what the log says of it, and nothing else. It rests on one fact about
whole courses, `Reached.serial_lt`: a registered track has been made, so that a track which is
handed out a second time is not taken for a new one.
-/

namespace RtspControl

open Session

/-! ## The log -/

/-- The inbound track that a request on `m` has made, if it has made one; `made` tracks had
been made before. -/
def freshlyReceived (m : MediaSection) (made : Nat) : Except Fault Track → List Track
  | .ok t => if m.direction = .receiveOnly ∧ made ≤ t.serial then [t] else []
  | .error _ => []

namespace Move

/-- How the request for a track ends that a move makes, if it makes one. -/
def result? (x : Move) : Option (Except Fault Track) :=
  x.task.request?.map fun (m, c) => (outcome (negotiate m c) (x.task.underway x.found)).1

/-- What a move adds to the inbound tracks by the log. -/
def received (x : Move) : List Track :=
  match x.task.request?, x.result? with
  | some (m, _), some r => freshlyReceived m x.found.tracks.made r
  | _, _ => []

/-- What a move adds to the outbound tracks by the log. -/
def sent (x : Move) : List Track :=
  match x.task with
  | .perform _ (.addSender n times) =>
    match x.found.track? n with
    | some t => List.replicate times t
    | none => []
  | _ => []

def isStop (x : Move) : Bool :=
  match x.task with
  | .perform _ .stop => true
  | _ => false

/-- Is everything registered as it was? -/
def KeepsRegistries (x : Move) : Prop :=
  x.left.control.receivers = x.found.control.receivers ∧
    x.left.control.senders = x.found.control.senders

/-- Is a move one that may add to the registries or empty them? -/
def isRegistering (x : Move) : Bool :=
  match x.task with
  | .perform _ .stop => true
  | .perform _ (.addSender _ _) => true
  | t => t.request?.isSome

end Move

/-- The moves since the last stop, or all of them if there was none. -/
def sinceStop (moves : List Move) : List Move := moves.rtakeWhile fun x => !x.isStop

theorem sinceStop_concat {moves : List Move} {x : Move} (h : x.isStop = false) :
    sinceStop (moves ++ [x]) = sinceStop moves ++ [x] :=
  List.rtakeWhile_concat_pos _ _ _ (by simp [h])

theorem sinceStop_concat_of_isStop {moves : List Move} {x : Move} (h : x.isStop = true) :
    sinceStop (moves ++ [x]) = [] :=
  List.rtakeWhile_concat_neg _ _ _ (by simp [h])

/-! ## Moves that are not in the log -/

namespace Move

variable {x : Move}

theorem isRegistering_of_isAside (h : x.task.isAside = true) : x.isRegistering = false := by
  have hr := Task.request?_of_isAside h
  unfold isRegistering
  split
  · next ht => simp [ht, Task.isAside] at h
  · next ht => simp [ht, Task.isAside] at h
  · simp [hr]

theorem isRegistering_of_pass? {handled : Option Outcome} (h : x.task.pass? = some handled) :
    x.isRegistering = false := by
  have hr := Task.request?_of_pass? h
  unfold isRegistering
  split
  · next ht => simp [ht, Task.pass?] at h
  · next ht => simp [ht, Task.pass?] at h
  · simp [hr]

theorem request?_of_isRegistering (h : x.isRegistering = false) : x.task.request? = none := by
  unfold isRegistering at h
  split at h
  · cases h
  · cases h
  · exact Option.isNone_iff_eq_none.mp (by simpa using h)

/-- The log has nothing of such moves. -/
theorem unlogged (h : x.isRegistering = false) :
    x.isStop = false ∧ x.received = [] ∧ x.sent = [] := by
  refine ⟨?_, ?_, ?_⟩
  · unfold isStop
    split
    · next ht => simp [isRegistering, ht] at h
    · rfl
  · simp only [received, request?_of_isRegistering h]
  · unfold sent
    split
    · next ht => simp [isRegistering, ht] at h
    · rfl

theorem sent_of_request? {m : MediaSection} {c : Codec} (h : x.task.request? = some (m, c)) :
    x.sent = [] := by
  unfold sent
  split
  · next ht => simp [ht, Task.request?] at h
  · rfl

theorem isStop_of_request? {m : MediaSection} {c : Codec}
    (h : x.task.request? = some (m, c)) : x.isStop = false := by
  unfold isStop
  split
  · next ht => simp [ht, Task.request?] at h
  · rfl

end Move

/-! ## What single pieces of work do to the registries -/

/-- `c'` has the tracks of `c` registered, and more. -/
structure Extends (c c' : Control) (received sent : List Track) : Prop where
  receivers : c'.receivers = c.receivers ++ received
  senders : c'.senders = c.senders ++ sent

theorem Extends.of_eq {c c' : Control} (hr : c'.receivers = c.receivers)
    (hs : c'.senders = c.senders) : Extends c c' [] [] :=
  ⟨by rw [hr, List.append_nil], by rw [hs, List.append_nil]⟩

theorem Extends.refl (c : Control) : Extends c c [] [] := .of_eq rfl rfl

theorem extends_of_connecting {s : Session} {o : Except Fault Unit × Session}
    (h : Connecting s o) : Extends s.control o.2.control [] [] := by
  cases h <;> exact .of_eq rfl rfl

theorem extends_of_passing {handled : Option Outcome} {s : Session}
    {o : Except Fault (Option Outcome) × Session} (h : Passing handled s o) :
    Extends s.control o.2.control [] [] := by
  cases h <;> exact .of_eq rfl rfl

theorem emptied_of_stopping {s : Session} {o : Except Fault Unit × Session} (h : Stopping s o) :
    o.2.control.receivers = [] ∧ o.2.control.senders = [] := by
  cases h with
  | idle _ closed =>
    rw [closed.control]
    exact ⟨rfl, rfl⟩
  | tornDown fault p _ closed =>
    rw [control_heard, control_inPhase, closed.control]
    exact ⟨rfl, rfl⟩

theorem mem_receivers_of_served? {m : MediaSection} {c : Codec} {s : Session} {t : Track}
    (h : s.served? m c = some t) : t ∈ s.control.receivers := by
  unfold served? at h
  split at h
  · exact List.mem_of_find?_eq_some h
  · cases h

theorem served?_of_control {m : MediaSection} {c : Codec} {s s' : Session}
    (h : s'.control = s.control) : s'.served? m c = s.served? m c := by
  simp only [served?, h]

/-- A track is new if its number is not below those of the tracks made before. -/
theorem freshlyReceived_nextTrack (m : MediaSection) (c : Codec) (channel : UInt8) {made : Nat}
    {s : Session} (h : made ≤ s.tracks.made) :
    freshlyReceived m made (.ok (s.nextTrack m c channel)) =
      if m.direction = .receiveOnly then [s.nextTrack m c channel] else [] := by
  have hn : made ≤ (s.nextTrack m c channel).serial := h
  simp only [freshlyReceived, hn, and_true]

/-- A negotiation registers the track that it has made if that is inbound. A track from the
registry is not made by it, as long as registered tracks are among those that were made. -/
theorem extends_of_negotiation {m : MediaSection} {c : Codec} {s : Session} {made : Nat}
    {o : Except Fault Track × Session} (h : Negotiation m c s o) (hm : made ≤ s.tracks.made)
    (serials : ∀ t ∈ s.control.receivers, t.serial < made) :
    Extends s.control o.2.control (freshlyReceived m made o.1) [] := by
  cases h with
  | served t hit =>
    have hlt : t.serial < made := serials t (mem_receivers_of_served? hit)
    have hnew : freshlyReceived m made (.ok t) = [] := by
      apply if_neg
      rintro ⟨-, hle⟩
      exact Nat.not_le_of_lt hlt hle
    rw [hnew]
    exact .refl _
  | refused f | unbuilt f p => exact .refl _
  | unassigned f p miss client direction prepared =>
    exact .of_eq (by rw [control_heard, prepared.control]) (by rw [control_heard, prepared.control])
  | @assigned channel p s' es miss client direction prepared =>
    rw [freshlyReceived_nextTrack m c channel hm]
    have hc : s'.control = s.control := prepared.control
    refine ⟨?_, ?_⟩
    · show s'.control.receivers ++ _ = _
      rw [hc]
      rfl
    · show s'.control.senders = _
      rw [hc, List.append_nil]
  | allotted channel =>
    rw [freshlyReceived_nextTrack m c channel hm]
    exact ⟨rfl, (List.append_nil _).symm⟩

/-! ## What moves do to the registries -/

theorem Move.registries_left {x : Move} (suits : x.task.Suits x.found.role)
    (serials : ∀ t ∈ x.found.control.receivers, t.serial < x.found.tracks.made)
    (h : x.isStop = false) :
    Extends x.found.control x.left.control x.received x.sent := by
  have quiet (hr : x.isRegistering = false)
      (he : Extends x.found.control x.left.control [] []) :
      Extends x.found.control x.left.control x.received x.sent := by
    obtain ⟨-, hx, hs⟩ := x.unlogged hr
    rw [hx, hs]
    exact he
  have he := x.effect suits
  generalize x.left = s' at he quiet ⊢
  have hu : (x.task.underway x.found).control = x.found.control :=
    (Task.aside_underway x.task x.found).control
  cases he with
  | aside kind aside =>
    refine quiet (isRegistering_of_isAside kind) ?_
    rw [aside.control]
    exact .refl _
  | connect kind connecting =>
    exact quiet (by simp only [isRegistering, kind]; rfl) (extends_of_connecting connecting)
  | stop kind => simp [isStop, kind] at h
  | unable kind | reconnect p kind | barred kind | setPhase kind =>
    exact quiet (by simp only [isRegistering, kind]; rfl) (.of_eq rfl rfl)
  | unknown kind unknown =>
    have hr : x.received = [] := by simp only [received, kind, Task.request?]
    have hs : x.sent = [] := by simp only [sent, kind, unknown]
    rw [hr, hs]
    exact .refl _
  | @addSender caller n times track kind known =>
    have hr : x.received = [] := by simp only [received, kind, Task.request?]
    have hs : x.sent = List.replicate times track := by simp only [sent, kind, known]
    rw [hr, hs]
    exact ⟨(List.append_nil _).symm, rfl⟩
  | startless kind =>
    refine quiet (isRegistering_of_pass? kind) ?_
    rw [hu]
    exact .refl _
  | pass kind producer passing called =>
    refine quiet (isRegistering_of_pass? kind) ?_
    rw [called.control, ← hu]
    exact extends_of_passing passing
  | @request m c r s' kind ended negotiation =>
    have hr : x.received = freshlyReceived m x.found.tracks.made r := by
      simp only [received, result?, kind, Option.map_some, ended]
    rw [hr, sent_of_request? kind, ← hu]
    refine extends_of_negotiation negotiation (Task.aside_underway x.task x.found).made ?_
    rw [hu]
    exact serials

theorem Move.registries_left_of_isStop {x : Move} (h : x.isStop = true) :
    x.left.control.receivers = [] ∧ x.left.control.senders = [] := by
  obtain ⟨t, s⟩ := x
  cases t with
  | perform caller op =>
    cases op with
    | stop =>
      have hs : (Move.left ⟨.perform caller .stop, s⟩) =
          (outcome stop (s.log (.began .stop))).2 := by
        simp only [left, Task.step, Task.begin, Task.whole_eq]
      rw [hs]
      exact emptied_of_stopping (outcome_stop _)
    | _ => simp [isStop] at h
  | _ => simp [isStop] at h

/-- A move that makes a request negotiates, and leaves what the negotiation leaves. -/
theorem Move.negotiation {x : Move} {m : MediaSection} {c : Codec}
    (h : x.task.request? = some (m, c)) :
    ∃ r s', x.result? = some r ∧ x.left = s' ∧
      Negotiation m c (x.task.underway x.found) (r, s') := by
  refine ⟨(outcome (negotiate m c) (x.task.underway x.found)).1, _, ?_, left_of_request h,
    outcome_negotiate m _ c⟩
  simp only [result?, h, Option.map_some]

/-- A track that is handed out has been made. -/
theorem serial_lt_of_negotiation {m : MediaSection} {c : Codec} {s s' : Session} {t : Track}
    (h : Negotiation m c s (.ok t, s'))
    (serials : ∀ t ∈ s.control.receivers, t.serial < s.tracks.made) :
    t.serial < s'.tracks.made := by
  cases h with
  | served t hit => exact serials t (mem_receivers_of_served? hit)
  | @assigned channel p s' es miss client direction prepared =>
    have hm : s'.tracks.made = s.tracks.made := congrArg TrackTable.made prepared.tracks
    show s.tracks.made < s'.tracks.made + 1
    rw [hm]
    exact Nat.lt_succ_self _
  | allotted channel => exact Nat.lt_succ_self _

theorem Move.serial_lt_of_received {x : Move}
    (serials : ∀ t ∈ x.found.control.receivers, t.serial < x.found.tracks.made) :
    ∀ t ∈ x.received, t.serial < x.left.tracks.made := by
  intro t ht
  unfold received at ht
  split at ht
  · next m c r hm hr =>
    obtain ⟨r', s', hr', hl, negotiation⟩ := x.negotiation hm
    obtain rfl : r = r' := Option.some.inj (hr.symm.trans hr')
    cases r with
    | error f => cases ht
    | ok t' =>
      have hu := Task.aside_underway x.task x.found
      have hlt : t'.serial < s'.tracks.made := by
        refine serial_lt_of_negotiation negotiation ?_
        intro t'' ht''
        rw [hu.control] at ht''
        exact Nat.lt_of_lt_of_le (serials t'' ht'') hu.made
      simp only [freshlyReceived] at ht
      split at ht
      · rw [List.mem_singleton.mp ht, hl]
        exact hlt
      · cases ht
  · cases ht

/-! ## Whole courses -/

/-- A registered track has been made. -/
theorem Reached.serial_lt {role : Role} {past : List Move} {s : Session}
    (h : Reached role past s) : ∀ t ∈ s.control.receivers, t.serial < s.tracks.made := by
  induction h using Reached.induct with
  | opened =>
    intro t ht
    cases ht
  | moved past x earlier _ suits ih =>
    intro t ht
    cases hs : x.isStop with
    | true =>
      rw [(Move.registries_left_of_isStop hs).1] at ht
      cases ht
    | false =>
      rw [(x.registries_left suits ih hs).receivers] at ht
      rcases List.mem_append.mp ht with ht | ht
      · exact Nat.lt_of_lt_of_le (ih t ht) (Task.onward_step suits).made
      · exact x.serial_lt_of_received ih t ht

theorem Reached.registries {role : Role} {past : List Move} {s : Session}
    (h : Reached role past s) :
    s.control.receivers = (sinceStop past).flatMap Move.received ∧
      s.control.senders = (sinceStop past).flatMap Move.sent := by
  induction h using Reached.induct with
  | opened => exact ⟨rfl, rfl⟩
  | moved past x earlier _ suits ih =>
    cases hs : x.isStop with
    | true =>
      rw [sinceStop_concat_of_isStop hs]
      exact Move.registries_left_of_isStop hs
    | false =>
      have he := x.registries_left suits earlier.serial_lt hs
      rw [sinceStop_concat hs, List.flatMap_append, List.flatMap_append, ← ih.1, ← ih.2,
        List.flatMap_singleton, List.flatMap_singleton]
      exact ⟨he.receivers, he.senders⟩

theorem received_of_error {x : Move} {f : Fault} (h : x.result? = some (.error f)) :
    x.received = [] := by
  unfold Move.received
  rw [h]
  split
  · next hr =>
    obtain rfl := Option.some.inj hr
    rfl
  · rfl

theorem received_of_direction {x : Move} {m : MediaSection} {c : Codec}
    (h : x.task.request? = some (m, c)) (hd : m.direction ≠ .receiveOnly) : x.received = [] := by
  obtain ⟨r, s', hr, -, -⟩ := x.negotiation h
  simp only [Move.received, h, hr]
  cases r with
  | error f => rfl
  | ok t =>
    apply if_neg
    rintro ⟨inbound, -⟩
    exact hd inbound

theorem Extends.keeps {x : Move} (h : Extends x.found.control x.left.control [] []) :
    x.KeepsRegistries :=
  ⟨h.receivers.trans (List.append_nil _), h.senders.trans (List.append_nil _)⟩

/-- The registries are what the log says. Between stops they only grow at the end, by what
requests make and what `addSender` is given; all other moves keep them as they are, and so do
requests that fail and requests for tracks that are not inbound. -/
theorem Course.registries_eq_log (r : Course) :
    (r.session.control.receivers = (sinceStop r.moves).flatMap Move.received ∧
      r.session.control.senders = (sinceStop r.moves).flatMap Move.sent) ∧
    (∀ x ∈ r.moves, x.isStop = false →
      x.left.control.receivers = x.found.control.receivers ++ x.received ∧
        x.left.control.senders = x.found.control.senders ++ x.sent) ∧
    (∀ x ∈ r.moves, x.isRegistering = false → x.KeepsRegistries) ∧
    (∀ x ∈ r.moves, ∀ f, x.result? = some (.error f) → x.KeepsRegistries) ∧
    ∀ x ∈ r.moves, ∀ m c, x.task.request? = some (m, c) → m.direction ≠ .receiveOnly →
      x.KeepsRegistries := by
  have extends_left : ∀ x ∈ r.moves, x.isStop = false →
      Extends x.found.control x.left.control x.received x.sent := by
    intro x hx hs
    obtain ⟨_, _, -, found, suits⟩ := Course.reached_found hx
    exact x.registries_left suits found.serial_lt hs
  -- A request that adds no inbound track adds nothing.
  have quiet : ∀ x ∈ r.moves, ∀ m c, x.task.request? = some (m, c) → x.received = [] →
      x.KeepsRegistries := by
    intro x hx m c h hr
    have he := extends_left x hx (Move.isStop_of_request? h)
    rw [hr, Move.sent_of_request? h] at he
    exact he.keeps
  refine ⟨r.reached.registries, ?_, ?_, ?_, ?_⟩
  · intro x hx hs
    have he := extends_left x hx hs
    exact ⟨he.receivers, he.senders⟩
  · intro x hx h
    obtain ⟨hs, hr, ht⟩ := x.unlogged h
    have he := extends_left x hx hs
    rw [hr, ht] at he
    exact he.keeps
  · intro x hx f h
    cases ht : x.task.request? with
    | none => simp [Move.result?, ht] at h
    | some mc => exact quiet x hx mc.1 mc.2 ht (received_of_error h)
  · intro x hx m c h hd
    exact quiet x hx m c h (received_of_direction h hd)

end RtspControl
