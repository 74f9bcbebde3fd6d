import RtspControl.Proofs.Calls
import RtspControl.Proofs.Generations

/-!
# Requests that fail

A request for a track that fails leaves the connection as it was, at whatever call it fails, and
its fault is that of the one call that was denied; a request that fails without a call is one that
has no meaning for the role, or for which there is no channel left (`Session.refusal?`).

A playing client therefore goes on playing when a request fails, and so a later request has the
session built anew once more, for the same tracks. `Course.failures_leave_no_trace` says that
however many requests have failed in a row, the one that succeeds after them asks the peer for the
same, and leaves the same, as it would have without them.
-/

namespace RtspControl

open Session

/-! ## Requests that are refused -/

namespace Session

/-- Why a request on a media section that the registry does not serve fails before the peer is
asked, if it does. -/
def refusal? (s : Session) (m : MediaSection) : Option Fault :=
  match s.role, m.direction with
  | .activeProducer, .sendReceive =>
    some (.internal "get_track: unsupported mode/direction active producer/sendrecv")
  | .activeProducer, _ => none
  | .passiveProducer, _ => some (.wrongRole "get_track" .passiveProducer)
  | .passiveConsumer, .receiveOnly => exhausted s.control.receivers
  | .passiveConsumer, _ => exhausted s.control.senders
where
  /-- Is there no channel left beside those of tracks? -/
  exhausted (ts : List Track) : Option Fault :=
    if Channel.pairs ≤ ts.length then some (.channelsExhausted ts.length) else none

variable {s : Session} {m : MediaSection} {c : Codec} {f : Fault}

theorem exhausted_of_interleaved {ts : List Track} (h : Channel.interleaved ts.length = .error f) :
    refusal?.exhausted ts = some f := by
  unfold Channel.interleaved at h
  split at h
  · cases h
  · next full =>
    cases h
    exact if_pos (Nat.le_of_not_lt full)

/-- A server that has no channel left refuses the request. -/
theorem exhausted_of_error {make : UInt8 → Action Track} (makes : Makes m c make)
    {ts : List Track}
    (h : (outcome (MonadExcept.ofExcept (Channel.interleaved ts.length) >>= make) s).1 =
      .error f) : refusal?.exhausted ts = some f := by
  cases hi : Channel.interleaved ts.length with
  | error g =>
    rw [hi, outcome_bind_error (outcome_ofExcept _ s)] at h
    cases h
    exact exhausted_of_interleaved hi
  | ok channel =>
    rw [hi, outcome_bind_ok (outcome_ofExcept _ s), makes] at h
    cases h

/-- A request that fails although nobody was asked for a section is refused. -/
theorem refusal?_of_error (miss : s.served? m c = none)
    (unasked : s.role = .activeProducer → m.direction = .sendReceive)
    (h : (outcome (negotiate m c) s).1 = .error f) : s.refusal? m = some f := by
  unfold negotiate at h
  rw [outcome_bind_ok (outcome_get s), miss] at h
  change (outcome (makeFor m c) s).1 = .error f at h
  unfold makeFor at h
  rw [outcome_bind_ok (outcome_get s)] at h
  unfold refusal?
  cases hr : s.role <;> cases hd : m.direction <;>
    simp only [hr, hd, outcome_throw, Except.error.injEq, reduceCtorEq, forall_const] at h unasked ⊢
  case activeProducer.sendReceive => rw [← h]; rfl
  case passiveConsumer.receiveOnly => exact exhausted_of_error (makes_receive m c hd) h
  case passiveConsumer.sendOnly | passiveConsumer.sendReceive =>
    exact exhausted_of_error (makes_makeTrack m c (by simp [hd])) h
  all_goals exact congrArg some h

end Session

/-! ## What a failed request leaves -/

/-- A move makes a request on a section that fails: it leaves the connection as it was. -/
structure Move.FailsWith (x : Move) (m : MediaSection) (f : Fault) : Prop where
  control : x.left.control = x.found.control
  /-- The last call was denied, and none before it; or there was no call. -/
  cause : Denied f x.entries ∨ Silent x.entries ∧ x.found.refusal? m = some f

namespace Move

variable {x : Move} {m : MediaSection} {c : Codec} {f : Fault}

theorem failsWith (kind : x.task.request? = some (m, c)) (failed : x.result? = some (.error f)) :
    x.FailsWith m f := by
  obtain ⟨r, s', hr, hl, negotiation⟩ := x.negotiation kind
  obtain rfl : r = .error f := Option.some.inj (hr.symm.trans failed)
  have hu := Task.aside_underway x.task x.found
  have opening := (Silent.opening x.task).granted
  have control {s₁ : Session} (hs : x.left = s₁)
      (hc : s₁.control = (x.task.underway x.found).control) :
      x.left.control = x.found.control := by
    rw [hs, hc, hu.control]
  cases negotiation with
  | refused f miss client =>
    have he : x.entries = [] ++ x.task.opening := entries_of_request hl rfl
    have ho : (outcome (negotiate m c) (x.task.underway x.found)).1 = .error f := by
      rw [result?, kind] at failed
      exact Option.some.inj failed
    have refused : (x.task.underway x.found).refusal? m = some f :=
      refusal?_of_error miss client ho
    refine ⟨control hl rfl, Or.inr ⟨he ▸ Silent.opening x.task, ?_⟩⟩
    rw [refusal?, hu.role, hu.control] at refused
    exact refused
  | @unbuilt f p es miss client direction playing rebuilt =>
    have he : x.entries = es ++ x.task.opening := entries_of_request hl rfl
    have denied : Denied f es := explains_of_rebuilt rebuilt
    exact ⟨control hl rfl, Or.inl (he ▸ denied.append opening)⟩
  | @unassigned f p s₁ es miss client direction prepared =>
    have he : x.entries = (.setUp m (.error f) :: es) ++ x.task.opening := by
      refine entries_of_request hl ?_
      rw [history_heard, prepared.history]
    have denied : Denied f (.setUp m (.error f) :: es) :=
      .head _ rfl (granted_of_prepared prepared)
    refine ⟨control hl ?_, Or.inl (he ▸ denied.append opening)⟩
    rw [control_heard, prepared.control]

/-- A request that succeeds has been denied nothing. -/
theorem granted_of_ok (kind : x.task.request? = some (m, c)) {t : Track}
    (ok : x.result? = some (.ok t)) : Granted x.entries := by
  obtain ⟨r, s', hr, hl, negotiation⟩ := x.negotiation kind
  obtain rfl : r = .ok t := Option.some.inj (hr.symm.trans ok)
  have opening := (Silent.opening x.task).granted
  cases negotiation with
  | served t' hit =>
    have he : x.entries = [.note (.servedFromRegistry t)] ++ x.task.opening :=
      entries_of_request hl rfl
    exact he ▸ Only.append (.cons rfl .nil) opening
  | assigned channel p miss client direction prepared =>
    obtain ⟨later, silent, he⟩ := entries_of_assigned hl prepared
    rw [he]
    exact silent.granted.append (.cons rfl ((granted_of_prepared prepared).append opening))
  | allotted channel =>
    have he : x.entries = [.note (.trackCreated ((x.task.underway x.found).nextTrack m c channel))]
        ++ x.task.opening := entries_of_request hl rfl
    exact he ▸ Only.append (.cons rfl .nil) opening

/-- A request that is served from the registry does not fail. -/
theorem miss_of_failed (kind : x.task.request? = some (m, c))
    (failed : x.result? = some (.error f)) : x.found.served? m c = none := by
  obtain ⟨r, s', hr, hl, negotiation⟩ := x.negotiation kind
  obtain rfl : r = .error f := Option.some.inj (hr.symm.trans failed)
  have hu := Task.aside_underway x.task x.found
  rw [← served?_of_control hu.control]
  cases negotiation with
  | refused f miss | unbuilt f p miss | unassigned f p miss => exact miss

end Move

/-! ## Requests that fail in a row -/

/-- Does a move fail to get a track, or is it about something else than the connection? -/
def Move.isFruitless (x : Move) : Bool :=
  x.task.isAside || x.result?.any fun r => !r.isOk

theorem Move.failed_of_isFruitless {x : Move} {m : MediaSection} {c : Codec}
    (h : x.isFruitless = true) (kind : x.task.request? = some (m, c)) :
    ∃ f, x.result? = some (.error f) := by
  rw [isFruitless, Bool.or_eq_true] at h
  rcases h with aside | failed
  · rw [Task.request?_of_isAside aside] at kind
    cases kind
  · cases hr : x.result? with
    | none => simp [hr] at failed
    | some r =>
      cases r with
      | ok t => simp [hr, Except.isOk, Except.toBool] at failed
      | error f => exact ⟨f, rfl⟩

theorem Move.control_of_isFruitless {x : Move} (h : x.isFruitless = true) :
    x.left.control = x.found.control := by
  cases kind : x.task.request? with
  | some mc =>
    obtain ⟨f, failed⟩ := failed_of_isFruitless h kind
    exact (x.failsWith kind failed).control
  | none =>
    have aside : x.task.isAside = true := by
      simpa [isFruitless, result?, kind] using h
    exact (Task.aside_step aside x.found).control

section

variable {role : Role} {past rest : List Move} {x z : Move} {s : Session}

/-- However many such moves there are, the connection stays as it is. -/
theorem Reached.control_of_isFruitless (h : Reached role (past ++ x :: rest) s)
    (fruitless : ∀ z ∈ x :: rest, z.isFruitless = true) : s.control = x.found.control := by
  induction rest using List.reverseRecOn generalizing s with
  | nil =>
    rw [h.last.2.2]
    exact Move.control_of_isFruitless (fruitless x List.mem_cons_self)
  | append_singleton rest z ih =>
    rw [← List.cons_append, ← List.append_assoc] at h
    rw [← List.cons_append] at fruitless
    obtain ⟨found, -, rfl⟩ := h.last
    obtain ⟨earlier, last⟩ := List.forall_mem_append.mp fruitless
    rw [Move.control_of_isFruitless (last z (List.mem_singleton_self z)), ih found earlier]

theorem Reached.found_of_isFruitless (h : Reached role (past ++ x :: rest) s)
    (fruitless : ∀ z ∈ x :: rest, z.isFruitless = true) (hz : z ∈ x :: rest) :
    z.found.control = x.found.control := by
  rcases List.mem_cons.mp hz with rfl | hz
  · rfl
  · obtain ⟨before, after, rfl⟩ := List.append_of_mem hz
    rw [← List.cons_append, ← List.append_assoc] at h
    rw [← List.cons_append] at fruitless
    exact h.before.1.control_of_isFruitless (List.forall_mem_append.mp fruitless).1

end

/-- A client that was playing in `s` gets a track for a request: the session is built anew for all
tracks, and the request is granted as it would have been in `s`, by whatever peer. -/
structure Move.GrantsFrom (y : Move) (s : Session) (m : MediaSection) (c : Codec) (t : Track) :
    Prop where
  granted : Granted y.entries
  calls : calls y.entries = renewal s.control.registered ++ [.setUp m]
  control : y.left.control = s.control.granting t
  /-- But for its number and its channel the track is the same, and so is all else. -/
  alike : ∀ p t' s', outcome (negotiate m c) { s with peer := p } = (.ok t', s') →
    t' = { t with serial := t'.serial, channel := t'.channel } ∧
      s'.control = s.control.granting t'

theorem Move.grantsFrom {y : Move} {s : Session} {m : MediaSection} {c : Codec} {t : Track}
    (control : y.found.control = s.control) (client : s.role = .activeProducer)
    (found : y.found.role = .activeProducer) (playing : s.control.phase = .playing)
    (miss : s.served? m c = none) (kind : y.task.request? = some (m, c))
    (ok : y.result? = some (.ok t)) : y.GrantsFrom s m c t := by
  have hs := (served?_of_control (m := m) (c := c) control).trans miss
  obtain ⟨hm, hc, left, asked⟩ := y.granted kind found hs ok
  rw [control] at left asked
  rw [if_pos playing] at asked
  refine ⟨y.granted_of_ok kind ok, asked, left, ?_⟩
  intro p t' s' ho
  have negotiation := outcome_negotiate m { s with peer := p } c
  rw [ho] at negotiation
  obtain ⟨hm', hc', left'⟩ := control_of_granted negotiation client miss
  refine ⟨?_, left'⟩
  cases t
  cases t'
  cases hm
  cases hm'
  cases hc
  cases hc'
  rfl

/-- A request that fails leaves the connection as it was and gives the fault of the one call that
was denied, if it made any. However many requests of a playing client fail in a row, the one that
succeeds after them does what it would have done without them. -/
theorem Course.failures_leave_no_trace (r : Course) :
    (∀ x ∈ r.moves, ∀ m c, x.task.request? = some (m, c) →
      (∀ f, x.result? = some (.error f) → x.FailsWith m f) ∧
        ∀ t, x.result? = some (.ok t) → Granted x.entries) ∧
    ∀ past x rest y later, r.moves = past ++ ((x :: rest) ++ y :: later) →
      r.role = .activeProducer → x.found.control.phase = .playing →
      (∀ z ∈ x :: rest, z.isFruitless = true) →
      ∀ m c t, (∃ z ∈ x :: rest, z.task.request? = some (m, c)) →
        y.task.request? = some (m, c) → y.result? = some (.ok t) → y.GrantsFrom x.found m c t := by
  refine ⟨?_, ?_⟩
  · intro x _ m c kind
    exact ⟨fun f failed => x.failsWith kind failed, fun t ok => x.granted_of_ok kind ok⟩
  · rintro past x rest y later h client playing fruitless m c t ⟨z, hz, hk⟩ kind ok
    have hr : Reached r.role (past ++ ((x :: rest) ++ y :: later)) r.session := h ▸ r.reached
    rw [← List.append_assoc] at hr
    have found := hr.before.1
    have hx : x.found.role = .activeProducer := found.before.1.role_eq.trans client
    -- The registry had no track for the request when it failed, and is still the same.
    have miss : x.found.served? m c = none := by
      obtain ⟨f, failed⟩ := Move.failed_of_isFruitless (fruitless z hz) hk
      rw [← served?_of_control (found.found_of_isFruitless fruitless hz)]
      exact z.miss_of_failed hk failed
    exact y.grantsFrom (found.control_of_isFruitless fruitless) hx (found.role_eq.trans client)
      playing miss kind ok

/-- A client that plays a video stream while a handler asks for audio, three times: the first time
the peer cannot be dialled, and the second time it does not negotiate the video section again. -/
def Course.persistentClient : Course :=
  { role := .activeProducer, descriptor := default, settings := default, monitored := true
    peer := {}, script := { reactions := [[.showRole]] }
    callers := [[.connect, .getTrack videoSection videoRequest,
      .pushStep [.expectFault ⟨.dial, 0, .transport "unreachable"⟩,
        .getTrack audioSection audioRequest, .expectFault ⟨.setUp, 0, .transport "refused"⟩,
        .getTrack audioSection audioRequest, .getTrack audioSection audioRequest] (.ok ()),
      .start]]
    schedule := List.replicate 25 0 }

/-- Its third request for audio gets a track, as the first one would have. -/
theorem Course.persistentClient_grants :
    (∀ z ∈ (persistentClient.moves.drop 10).take 14, z.isFruitless = true) ∧
      ∃ x y, persistentClient.moves[10]? = some x ∧ persistentClient.moves[24]? = some y ∧
        y.GrantsFrom x.found audioSection audioRequest ⟨1, audioSection, audioRequest, 4⟩ := by
  have fruitless : ∀ z ∈ (persistentClient.moves.drop 10).take 14, z.isFruitless = true := by
    decide
  have h : persistentClient.moves = persistentClient.moves.take 10 ++
      ((persistentClient.moves.get ⟨10, by decide⟩ :: (persistentClient.moves.drop 11).take 13) ++
        persistentClient.moves.get ⟨24, by decide⟩ :: []) := rfl
  refine ⟨fruitless, _, _, rfl, rfl, ?_⟩
  exact (Course.failures_leave_no_trace persistentClient).2 _ _ _ _ _ h rfl (by decide) fruitless
    _ _ _ ⟨_, List.mem_cons_self, rfl⟩ rfl rfl

end RtspControl
