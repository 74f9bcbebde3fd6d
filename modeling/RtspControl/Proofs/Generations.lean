import RtspControl.Proofs.Phases
import RtspControl.Proofs.Serving

/-!
# Sections and the session that they were negotiated in

Every dial opens a new session with the peer, which knows nothing of the sections that were
negotiated in an older one. A client that builds its session anew negotiates them all again,
but one that connects does not: if tracks are registered then, they are carried over into a
session in which they were never negotiated, and requests for them are served from the registry.

`Course.played_negotiated_iff` says exactly when a client without faults plays a registered
track whose section is not negotiated in the present session, and `Course.secondSession` is a
course in which it does.
-/

namespace RtspControl

open Session

/-! ## Sections of the present session -/

namespace Entry

/-- Does a new session with the peer begin here? -/
def isDial : Entry → Bool
  | .requested .dial none => true
  | _ => false

/-- The section that is negotiated here. -/
def section? : Entry → Option MediaSection
  | .setUp m (.ok _) => some m
  | _ => none

/-- Did the peer fail to do what it was asked? -/
def isFault : Entry → Bool
  | .requested _ (some _) => true
  | .setUp _ (.error _) => true
  | _ => false

/-- Does an entry leave it as it was what is negotiated? -/
def isInert (e : Entry) : Bool := !e.isDial && e.section?.isNone

end Entry

/-- The sections that have been negotiated since the last dial, or at all if there was none. -/
def negotiated : List Entry → List MediaSection
  | [] => []
  | e :: es => if e.isDial then [] else e.section?.toList ++ negotiated es

/-- Are no sections negotiated here, and is there no new session? -/
abbrev Inert (es : List Entry) : Prop := Only Entry.isInert es

theorem Entry.isInert_of_isAside {e : Entry} (h : e.isAside = true) : e.isInert = true := by
  cases e with
  | requested | setUp => simp [isAside] at h
  | _ => rfl

theorem Inert.of_isAside {es : List Entry} (h : Only Entry.isAside es) : Inert es :=
  Only.mono (fun _ => Entry.isInert_of_isAside) h

theorem negotiated_append {es : List Entry} (h : Inert es) (rest : List Entry) :
    negotiated (es ++ rest) = negotiated rest := by
  induction es with
  | nil => rfl
  | cons e es ih =>
    obtain ⟨he, hes⟩ := List.forall_mem_cons.mp h
    simp only [Entry.isInert, Bool.and_eq_true, Bool.not_eq_true', Option.isNone_iff_eq_none]
      at he
    rw [List.cons_append, negotiated, he.1, he.2, if_neg (by decide), ih hes]
    rfl

/-- Negotiating tracks again ends well only if all their sections are negotiated. -/
theorem negotiated_of_replayed {ts : List Track} {r : Except Fault Unit} {es : List Entry}
    (h : Replayed ts r es) (ok : r = .ok ()) (rest : List Entry) :
    negotiated (es ++ rest) = (ts.map Track.media).reverse ++ negotiated rest := by
  induction h generalizing rest with
  | done => rfl
  | refused => cases ok
  | @assigned t ts r es channel later ih =>
    rw [List.append_assoc, ih ok, List.map_cons, List.reverse_cons, List.append_assoc]
    rfl

/-- Is there no fault among entries? -/
def Faultless (es : List Entry) : Prop := ∀ e ∈ es, e.isFault = false

theorem Faultless.of_append {es es' : List Entry} (h : Faultless (es ++ es')) :
    Faultless es ∧ Faultless es' :=
  List.forall_mem_append.mp h

theorem not_faultless {es : List Entry} {e : Entry} (hm : e ∈ es) (he : e.isFault = true) :
    ¬ Faultless es := by
  intro h
  rw [h e hm] at he
  cases he

theorem not_faultless_of_replayed {ts : List Track} {r : Except Fault Unit} {es : List Entry}
    {f : Fault} (h : Replayed ts r es) (hr : r = .error f) : ¬ Faultless es := by
  induction h with
  | done => cases hr
  | refused t ts f => exact not_faultless (List.mem_singleton_self _) rfl
  | assigned channel later ih =>
    intro hf
    apply ih hr
    exact hf.of_append.1

theorem not_faultless_of_rebuilt {ts : List Track} {es : List Entry} {f : Fault}
    (h : Rebuilt ts (.error f) es) : ¬ Faultless es := by
  cases h with
  | undialled | undescribed => exact not_faultless List.mem_cons_self rfl
  | refused closing f replayed =>
    intro hf
    apply not_faultless_of_replayed replayed rfl
    exact hf.of_append.1

/-- Without faults, building a session anew negotiates the sections of all tracks. -/
theorem negotiated_of_rebuilt {ts : List Track} {r : Except Fault Unit} {es : List Entry}
    (h : Rebuilt ts r es) (sound : Faultless es) (rest : List Entry) :
    negotiated (es ++ rest) = (ts.map Track.media).reverse := by
  rcases r with f | ⟨⟩
  · exact absurd sound (not_faultless_of_rebuilt h)
  cases h with
  | done closing receivers senders replayed =>
    rw [List.cons_append, List.append_assoc]
    show negotiated (_ ++ _) = _
    rw [negotiated_of_replayed replayed rfl]
    exact List.append_nil _

/-! ## What moves do to the sections of the session -/

namespace Move

/-- Does a client dial here, without looking at what is registered? -/
def Dials (x : Move) : Prop :=
  (∃ caller, x.task = .perform caller .connect) ∧ x.found.control.phase = .idle

/-- Is a section negotiated here? Building the session anew negotiates those of all tracks, a
request that the registry does not serve its own, and all others as well if the session is
playing. -/
def Renews (x : Move) (m : MediaSection) : Prop :=
  (∃ caller, x.task = .perform caller .reconnect) ∨
    ∃ m' c, x.task.request? = some (m', c) ∧ x.found.served? m' c = none ∧
      m'.direction ≠ .sendReceive ∧ (x.found.control.phase = .playing ∨ m' = m)

/-- What a client's move without faults does to the sections of the session. -/
inductive Turn (x : Move) : Prop where
  | dialled (dials : x.Dials) (renews : ∀ m, ¬ x.Renews m)
      (receivers : x.left.control.receivers ⊆ x.found.control.receivers)
      (sections : negotiated x.left.history = [])
  | kept (dials : ¬ x.Dials) (renews : ∀ m, ¬ x.Renews m)
      (receivers : x.left.control.receivers ⊆ x.found.control.receivers)
      (sections : negotiated x.left.history = negotiated x.found.history)
  | added (m : MediaSection) (dials : ¬ x.Dials) (renews : ∀ m', x.Renews m' ↔ m = m')
      (receivers : ∀ t ∈ x.left.control.receivers, t ∈ x.found.control.receivers ∨ t.media = m)
      (sections : negotiated x.left.history = m :: negotiated x.found.history)
  | renewed (dials : ¬ x.Dials) (renews : ∀ m, x.Renews m)
      (sections : ∀ t ∈ x.left.control.receivers, t.media ∈ negotiated x.left.history)

variable {x : Move}

theorem not_dials_of_request? {m : MediaSection} {c : Codec}
    (h : x.task.request? = some (m, c)) : ¬ x.Dials := by
  rintro ⟨⟨caller, ht⟩, -⟩
  rw [ht] at h
  cases h

theorem not_dials_of_pass? {handled : Option Outcome} (h : x.task.pass? = some handled) :
    ¬ x.Dials := by
  rintro ⟨⟨_, ht⟩, -⟩
  rw [ht] at h
  cases h

theorem not_dials_of_perform {caller : Caller} {op : Operation}
    (h : x.task = .perform caller op) (hop : op ≠ .connect) : ¬ x.Dials := by
  rintro ⟨⟨_, ht⟩, -⟩
  exact hop (Task.perform.inj (h.symm.trans ht)).2

theorem not_renews_of_request? (h : x.task.request? = none)
    (hr : ∀ caller, x.task ≠ .perform caller .reconnect) (m : MediaSection) : ¬ x.Renews m := by
  rintro (⟨caller, ht⟩ | ⟨m', c, ht, -⟩)
  · exact hr caller ht
  · rw [h] at ht
    cases ht

theorem not_renews_of_perform {caller : Caller} {op : Operation}
    (h : x.task = .perform caller op) (hop : op ≠ .reconnect) (hr : x.task.request? = none) :
    ∀ m, ¬ x.Renews m := by
  apply not_renews_of_request? hr
  intro _ ht
  exact hop (Task.perform.inj (h.symm.trans ht)).2

theorem not_renews_of_pass? {handled : Option Outcome} (h : x.task.pass? = some handled) :
    ∀ m, ¬ x.Renews m := by
  apply not_renews_of_request? (Task.request?_of_pass? h)
  intro _ ht
  rw [ht] at h
  cases h

theorem renews_iff {m : MediaSection} {c : Codec} (h : x.task.request? = some (m, c))
    (m' : MediaSection) :
    x.Renews m' ↔ x.found.served? m c = none ∧ m.direction ≠ .sendReceive ∧
      (x.found.control.phase = .playing ∨ m = m') := by
  constructor
  · rintro (⟨caller, ht⟩ | ⟨m₁, c₁, ht, hm⟩)
    · rw [ht] at h
      cases h
    · rw [h] at ht
      cases ht
      exact hm
  · intro hm
    exact Or.inr ⟨m, c, h, hm⟩

/-- A move that neither dials nor negotiates anything, and registers nothing. -/
theorem Turn.of_inert {es : List Entry} (dials : ¬ x.Dials) (renews : ∀ m, ¬ x.Renews m)
    (hh : x.left.history = es ++ x.found.history) (h : Inert es)
    (hc : x.left.control.receivers ⊆ x.found.control.receivers) : x.Turn :=
  .kept dials renews hc (by rw [hh, negotiated_append h])

theorem Turn.of_connecting {caller : Caller} {r : Except Fault Unit}
    (kind : x.task = .perform caller .connect) (client : x.found.role = .activeProducer)
    (sound : Faultless x.entries)
    (h : Connecting (x.found.log (.began .connect)) (r, x.left)) : x.Turn := by
  have renews := not_renews_of_perform kind (by simp) (by rw [kind]; rfl)
  generalize hl : x.left = s' at h
  cases h with
  | refused f h =>
    have dials : ¬ x.Dials := by
      intro hd
      exact h client hd.2
    have hh : x.left.history = [.began .connect] ++ x.found.history := by rw [hl]; rfl
    exact of_inert dials renews hh (.cons rfl .nil) (by rw [hl]; exact List.Subset.refl _)
  | undialled f p =>
    have hh : x.left.history = [.requested .dial (some f), .began .connect] ++ x.found.history := by
      rw [hl]
      rfl
    rw [entries_of_history hh] at sound
    exact absurd sound (not_faultless List.mem_cons_self rfl)
  | undescribed f p client idle =>
    have hh : x.left.history = [.requested .describe (some f), .note (.transition .idle .connected),
        .requested .dial none, .began .connect] ++ x.found.history := by
      rw [hl]
      rfl
    rw [entries_of_history hh] at sound
    exact absurd sound (not_faultless List.mem_cons_self rfl)
  | connected p client idle =>
    refine .dialled ⟨⟨caller, kind⟩, idle⟩ renews ?_ ?_
    · rw [hl]
      exact List.Subset.refl _
    · rw [hl]
      rfl

theorem Turn.of_stopping {caller : Caller} {r : Except Fault Unit}
    (kind : x.task = .perform caller .stop)
    (h : Stopping (x.found.log (.began .stop)) (r, x.left)) : x.Turn := by
  have dials := not_dials_of_perform kind (by simp)
  have renews := not_renews_of_perform kind (by simp) (by rw [kind]; rfl)
  have receivers : x.left.control.receivers ⊆ x.found.control.receivers := by
    rw [(emptied_of_stopping h).1]
    exact List.nil_subset _
  generalize hl : x.left = s' at h
  cases h with
  | idle _ closed =>
    obtain ⟨es, he, hes⟩ := Task.history_closed closed
    exact of_inert dials renews (by rw [hl]; exact he) (.of_isAside hes) receivers
  | tornDown fault p hp closed =>
    obtain ⟨es, he, hes⟩ := Task.history_closed closed
    have torn : Inert [.requested .close fault, .note .stopped,
      .note (.transition x.found.control.phase .idle)] := .cons rfl (.cons rfl (.cons rfl .nil))
    refine of_inert dials renews ?_ (torn.append (Inert.of_isAside hes)) receivers
    rw [hl, history_heard, history_inPhase, he]
    rfl

theorem Turn.of_passing {handled : Option Outcome} {r : Except Fault (Option Outcome)}
    {s₁ : Session} (kind : x.task.pass? = some handled)
    (h : Passing handled (x.task.underway x.found) (r, s₁)) (called : Aside s₁ x.left) :
    x.Turn := by
  have dials := not_dials_of_pass? kind
  have renews := not_renews_of_pass? kind
  have hu := Task.aside_underway x.task x.found
  obtain ⟨es, hes, history⟩ := Task.history_called (t := x.task) (s := x.found) called
  -- A pass may play, but that neither dials nor negotiates.
  have still (es₁ : List Entry)
      (hc : s₁.control.receivers = (x.task.underway x.found).control.receivers)
      (hh : s₁.history = es₁ ++ (x.task.underway x.found).history) (h₁ : Inert es₁) :
      x.Turn := by
    refine of_inert dials renews (history es₁ hh)
      ((Inert.of_isAside hes).append (h₁.append (Inert.of_isAside x.task.aside_opening))) ?_
    rw [called.control, hc, hu.control]
    exact List.Subset.refl _
  cases h with
  | first | early | busy | broken => exact still [] rfl rfl .nil
  | stopped es₁ idle result h aside => exact still es₁ rfl rfl (.of_isAside aside)
  | unplayed f p => exact still [_] rfl rfl (.cons rfl .nil)
  | played p => exact still [_, _] rfl rfl (.cons rfl (.cons rfl .nil))
  | served => exact still [_] rfl rfl (.cons rfl .nil)

/-- A section for which a channel is assigned is negotiated, and after it has been built anew
so are all others of the session. -/
theorem Turn.of_assigned {m : MediaSection} {c : Codec} {channel : UInt8} {s s₁ : Session}
    {later es before : List Entry} (kind : x.task.request? = some (m, c))
    (miss : x.found.served? m c = none) (direction : m.direction ≠ .sendReceive)
    (hc : s.control = x.found.control) (prepared : Prepared s s₁ es) (sound : Faultless x.entries)
    (hh : x.left.history =
      (later ++ .setUp m (.ok channel) :: (es ++ before)) ++ x.found.history)
    (hl : Inert later) (hb : Inert before)
    (receivers : ∀ t ∈ x.left.control.receivers, t ∈ x.found.control.receivers ∨ t.media = m) :
    x.Turn := by
  have dials := not_dials_of_request? kind
  have hm : negotiated x.left.history =
      m :: negotiated (es ++ (before ++ x.found.history)) := by
    rw [hh, List.append_assoc, negotiated_append hl, List.cons_append, List.append_assoc]
    rfl
  cases prepared with
  | ready resting =>
    refine .added m dials ?_ receivers ?_
    · intro m'
      rw [renews_iff kind, ← hc]
      constructor
      · rintro ⟨-, -, h⟩
        exact h.resolve_left resting
      · intro h
        exact ⟨miss, direction, Or.inr h⟩
    · rw [hm, List.nil_append, negotiated_append hb]
  | rebuilt playing rebuilt =>
    have faultless : Faultless es := by
      rw [entries_of_history hh] at sound
      intro e he
      exact sound e (by simp [he])
    refine .renewed dials ?_ ?_
    · intro m'
      rw [renews_iff kind, ← hc]
      exact ⟨miss, direction, Or.inl playing⟩
    · intro t ht
      rw [hm, negotiated_of_rebuilt rebuilt faultless, hc]
      rcases receivers t ht with ht | ht
      · refine List.mem_cons_of_mem _ (List.mem_reverse.mpr ?_)
        exact List.mem_map_of_mem (List.mem_append_left _ ht)
      · rw [ht]
        exact List.mem_cons_self

theorem Turn.of_negotiation {m : MediaSection} {c : Codec} {r : Except Fault Track} {s' : Session}
    (kind : x.task.request? = some (m, c)) (client : x.found.role = .activeProducer)
    (sound : Faultless x.entries)
    (h : Negotiation m c (x.task.underway x.found) (r, s')) (hl : x.left = s') :
    x.Turn := by
  have dials := not_dials_of_request? kind
  have hu := Task.aside_underway x.task x.found
  have ho := Inert.of_isAside x.task.aside_opening
  have hs : (x.task.underway x.found).served? m c = x.found.served? m c :=
    served?_of_control hu.control
  have history (es : List Entry) (hh : s'.history = es ++ (x.task.underway x.found).history) :
      x.left.history = (es ++ x.task.opening) ++ x.found.history := by
    rw [hl, hh, Task.history_underway, List.append_assoc]
  have faultless (es : List Entry)
      (hh : s'.history = es ++ (x.task.underway x.found).history) : Faultless es := by
    rw [entries_of_history (history es hh)] at sound
    exact sound.of_append.1
  -- A request for which no section is negotiated.
  have still (es : List Entry)
      (unmet : ¬ (x.found.served? m c = none ∧ m.direction ≠ .sendReceive))
      (hc : s'.control = (x.task.underway x.found).control)
      (hh : s'.history = es ++ (x.task.underway x.found).history) (hi : Inert es) : x.Turn := by
    refine of_inert dials ?_ (history es hh) (hi.append ho) ?_
    · intro m' hm
      obtain ⟨miss, direction, -⟩ := (renews_iff kind m').mp hm
      exact unmet ⟨miss, direction⟩
    · rw [hl, hc, hu.control]
      exact List.Subset.refl _
  cases h with
  | served t hit =>
    refine still [_] ?_ rfl rfl (.cons rfl .nil)
    rintro ⟨miss, -⟩
    rw [← hs, hit] at miss
    cases miss
  | refused f miss direction =>
    refine still [] ?_ rfl rfl .nil
    rintro ⟨-, outward⟩
    exact outward (direction (hu.role.trans client))
  | unbuilt f p miss _ direction playing rebuilt =>
    exact absurd (faultless _ rfl) (not_faultless_of_rebuilt rebuilt)
  | unassigned f p miss _ direction prepared =>
    have hf := faultless _ (by rw [history_heard, prepared.history])
    exact absurd hf (not_faultless List.mem_cons_self rfl)
  | @assigned channel p s₁ es miss _ direction prepared =>
    have hh : x.left.history = (([.note (.trackCreated ((x.task.underway x.found).nextTrack m c
        channel)), .note (.mediaSetUp m channel)] ++
          moved (x.task.underway x.found).control.phase .ready) ++
            .setUp m (.ok channel) :: (es ++ x.task.opening)) ++ x.found.history := by
      rw [hl, history_heard, history_admitting, history_inPhase,
        prepared.history, Task.history_underway]
      simp only [List.append_assoc, List.cons_append, List.nil_append]
    refine of_assigned kind (hs ▸ miss) direction hu.control prepared sound hh
      (Only.append (.cons rfl (.cons rfl .nil)) (.moved rfl)) ho ?_
    intro t ht
    have hr : x.left.control.receivers = s₁.control.receivers ++
        if m.direction = .receiveOnly then [(x.task.underway x.found).nextTrack m c channel]
        else [] := by
      rw [hl]
      rfl
    rw [hr, prepared.control, hu.control] at ht
    rcases List.mem_append.mp ht with ht | ht
    · exact Or.inl ht
    · split at ht
      · exact Or.inr (List.mem_singleton.mp ht ▸ rfl)
      · cases ht
  | allotted channel miss server =>
    rw [hu.role, client] at server
    cases server

/-- A client's move without faults does one of four things to the sections of the session. -/
theorem turn (suits : x.task.Suits x.found.role) (client : x.found.role = .activeProducer)
    (sound : Faultless x.entries) : x.Turn := by
  have he := x.effect suits
  generalize hl : x.left = s' at he
  -- An operation that is neither `connect` nor `reconnect`, and makes no request.
  have still {caller : Caller} {op : Operation} {es : List Entry}
      (kind : x.task = .perform caller op) (hc : op ≠ .connect) (hr : op ≠ .reconnect)
      (ht : x.task.request? = none) (hh : s'.history = es ++ x.found.history) (h : Inert es)
      (hs : s'.control.receivers = x.found.control.receivers) : x.Turn := by
    subst hl
    exact Turn.of_inert (not_dials_of_perform kind hc) (not_renews_of_perform kind hr ht) hh h
      (by rw [hs]; exact List.Subset.refl _)
  cases he with
  | aside kind aside =>
    obtain ⟨es, he, hes⟩ := aside.history
    have dials : ¬ x.Dials := by
      rintro ⟨⟨_, ht⟩, -⟩
      simp [ht, Task.isAside] at kind
    have renews := not_renews_of_request? (Task.request?_of_isAside kind) fun _ ht => by
      simp [ht, Task.isAside] at kind
    subst hl
    refine Turn.of_inert dials renews he (.of_isAside hes) ?_
    rw [aside.control]
    exact List.Subset.refl _
  | connect kind connecting => exact Turn.of_connecting kind client sound (hl ▸ connecting)
  | stop kind stopping => exact Turn.of_stopping kind (hl ▸ stopping)
  | unable kind server => exact absurd client server
  | @reconnect caller r es p kind _ rebuilt =>
    have hh : x.left.history = (es ++ [.began .reconnect]) ++ x.found.history := by
      rw [hl, List.append_assoc]
      rfl
    have faultless : Faultless es := by
      rw [entries_of_history hh] at sound
      exact sound.of_append.1
    refine .renewed (not_dials_of_perform kind (by simp)) (fun _ => Or.inl ⟨caller, kind⟩) ?_
    intro t ht
    have hr : x.left.control.receivers = x.found.control.receivers := by rw [hl]; rfl
    rw [hr] at ht
    rw [hh, List.append_assoc, negotiated_of_rebuilt rebuilt faultless, List.mem_reverse]
    exact List.mem_map_of_mem (List.mem_append_left _ ht)
  | unknown kind | barred kind =>
    exact still kind (by simp) (by simp) (by rw [kind]; rfl) rfl (.cons rfl .nil : Inert [_]) rfl
  | addSender track kind known =>
    refine still kind (by simp) (by simp) (by rw [kind]; rfl) rfl
      ((Only.replicate _ rfl).append (.cons rfl .nil)) rfl
  | setPhase kind =>
    exact still kind (by simp) (by simp) (by rw [kind]; rfl) rfl
      (Only.append (.moved rfl) (.cons rfl .nil)) rfl
  | startless kind consumer =>
    rw [client] at consumer
    cases consumer
  | pass kind producer passing called => exact Turn.of_passing kind passing (hl ▸ called)
  | request kind ended negotiation => exact Turn.of_negotiation kind client sound negotiation hl

end Move

/-! ## Tracks that are carried over -/

/-- Was a track registered when the client dialled, and has its section not been negotiated
since then? -/
def Carried (past : List Move) (t : Track) : Prop :=
  ∃ before x since, past = before ++ x :: since ∧ x.Dials ∧ t ∈ x.found.control.receivers ∧
    ∀ y ∈ since, ¬ y.Renews t.media

theorem carried_iff_since {past : List Move} {t : Track} :
    Carried past t ↔ Since (fun x => x.Dials ∧ t ∈ x.found.control.receivers)
      (fun x => ¬ x.Renews t.media) past := by
  constructor
  · rintro ⟨before, x, since, h, dials, registered, hs⟩
    exact ⟨before, x, since, h, ⟨dials, registered⟩, hs⟩
  · rintro ⟨before, x, since, h, ⟨dials, registered⟩, hs⟩
    exact ⟨before, x, since, h, dials, registered, hs⟩

/-- A track is carried over by a dial, and is carried further by what does not negotiate its
section. -/
theorem carried_concat {past : List Move} {x : Move} {t : Track} :
    Carried (past ++ [x]) t ↔
      x.Dials ∧ t ∈ x.found.control.receivers ∨ Carried past t ∧ ¬ x.Renews t.media := by
  rw [carried_iff_since, since_concat, ← carried_iff_since, and_comm (a := ¬ x.Renews t.media)]

/-- The registered tracks whose sections the present session does not know are those that have
been carried over. -/
theorem Reached.unnegotiated_iff {role : Role} {past : List Move} {s : Session}
    (h : Reached role past s) (client : role = .activeProducer) (sound : Faultless s.history) :
    ∀ t ∈ s.control.receivers, t.media ∉ negotiated s.history ↔ Carried past t := by
  induction h using Reached.induct with
  | opened =>
    intro t ht
    cases ht
  | moved past x earlier _ suits ih =>
    intro t ht
    have hh := x.history_left suits
    rw [hh] at sound
    have ih := ih sound.of_append.2
    have turn := x.turn suits (earlier.role_eq.trans client) sound.of_append.1
    rw [carried_concat]
    cases turn with
    | dialled dials renews receivers sections =>
      rw [sections]
      exact iff_of_true List.not_mem_nil (Or.inl ⟨dials, receivers ht⟩)
    | kept dials renews receivers sections =>
      rw [sections, ih t (receivers ht)]
      simp only [dials, false_and, false_or, renews, not_false_eq_true, and_true]
    | added m dials renews receivers sections =>
      rw [sections, List.mem_cons, not_or, renews]
      rcases receivers t ht with ht | ht
      · rw [ih t ht]
        simp only [dials, false_and, false_or]
        rw [and_comm, eq_comm]
      · simp only [ht, dials, not_true_eq_false, false_and, and_false, or_false]
    | renewed dials renews sections =>
      simp only [sections t ht, dials, renews, not_true_eq_false, false_and, and_false, or_false]

/-- Whenever a client without faults starts to play, the section of a registered track is
negotiated in the present session unless the track was registered already when the client
dialled, and has been carried over since. -/
theorem Course.played_negotiated_iff (r : Course) (client : r.role = .activeProducer)
    (sound : Faultless r.session.history) {past later : List Move} {x : Move}
    (h : r.moves = past ++ x :: later) (plays : x.startsPlaying = true) :
    ∀ t ∈ x.left.control.receivers, t.media ∈ negotiated x.left.history ↔ ¬ Carried past t := by
  intro t ht
  have hr : Reached r.role (past ++ x :: later) r.session := h ▸ r.reached
  have faultless : Faultless x.left.history := by
    have hs := hr.after.history_subset (List.append_cons past x later ▸ hr)
    intro e he
    exact sound e (hs he)
  simp only [Move.startsPlaying, Bool.and_eq_true] at plays
  obtain ⟨handled, hp⟩ := Option.isSome_iff_exists.mp plays.1.1
  have hc : Carried (past ++ [x]) t ↔ Carried past t := by
    rw [carried_concat]
    simp only [Move.not_dials_of_pass? hp, Move.not_renews_of_pass? hp, false_and, false_or,
      not_false_eq_true, and_true]
  rw [← hc]
  exact (not_iff_comm.mp (hr.after.unnegotiated_iff client faultless t ht)).symm

def audioRequest : Codec := { name := Codec.pcma, clockRate := 8000 }

def audioSection : MediaSection := ⟨⟨"audio", .receiveOnly, [audioRequest], "trackID=1"⟩, 1⟩

/-- A client whose frame handler tears the first session down. It connects again, is served
its video track from the registry, gets an audio track, and plays both. -/
def Course.secondSession : Course :=
  { role := .activeProducer, descriptor := default, settings := default, monitored := true
    peer := {}, script := {}
    callers := [[.connect, .getTrack videoSection videoRequest,
      .pushStep [.setPhase .idle] (.ok ()), .start, .connect,
      .getTrack videoSection videoRequest, .getTrack audioSection audioRequest,
      .pushStep [.showControl] (.ok ()), .start]]
    schedule := List.replicate 23 0 }

/-- The move with which the client starts to play a second time. -/
def Course.secondPlay : Move := secondSession.moves.getLast (by decide)

/-- A client without faults may play a track whose section was never negotiated in the session. -/
theorem Course.secondSession_unnegotiated :
    ¬ ∀ r : Course, r.role = .activeProducer → Faultless r.session.history →
      ∀ x ∈ r.moves, x.startsPlaying = true → ∀ t ∈ x.left.control.receivers,
        t.media ∈ negotiated x.left.history := by
  intro h
  have sound : Faultless secondSession.session.history := by
    unfold Faultless
    decide
  have hx : secondPlay ∈ secondSession.moves := List.getLast_mem _
  have ht : ⟨0, videoSection, videoRequest, 0⟩ ∈ secondPlay.left.control.receivers := by decide
  have hn : videoSection ∉ negotiated secondPlay.left.history := by decide
  exact hn (h secondSession rfl sound secondPlay hx (by decide) _ ht)

/-- The video track is the one that is carried over; the audio track is not. -/
theorem Course.secondSession_carried :
    Faultless secondSession.session.history ∧ secondPlay.startsPlaying = true ∧
      Carried secondSession.moves.dropLast ⟨0, videoSection, videoRequest, 0⟩ ∧
      ¬ Carried secondSession.moves.dropLast ⟨1, audioSection, audioRequest, 2⟩ := by
  have sound : Faultless secondSession.session.history := by
    unfold Faultless
    decide
  have hm : secondSession.moves = secondSession.moves.dropLast ++ secondPlay :: [] :=
    (List.dropLast_append_getLast _).symm
  have plays : secondPlay.startsPlaying = true := by decide
  have h := Course.played_negotiated_iff secondSession rfl sound hm plays
  have video := h ⟨0, videoSection, videoRequest, 0⟩ (by decide)
  have audio := h ⟨1, audioSection, audioRequest, 2⟩ (by decide)
  have hn : videoSection ∉ negotiated secondPlay.left.history := by decide
  refine ⟨sound, plays, ?_, audio.mp (by decide)⟩
  by_contra hc
  exact hn (video.mpr hc)

end RtspControl
