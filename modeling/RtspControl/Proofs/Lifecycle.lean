import RtspControl.Proofs.Aside

/-!
# How connecting, playing and stopping end

Like negotiations, the other pieces of work that move a connection from one phase to another
end in a few ways, which are listed here with all that they do: `Connecting` for `connect`,
`Passing` for a pass of `start` up to the frame handler, `Stopping` for `stop`.
-/

namespace RtspControl.Session

/-! ## Connecting -/

/-- The ways in which `connect` can end. -/
inductive Connecting (s : Session) : Except Fault Unit × Session → Prop where
  | refused (f : Fault) (h : s.role = .activeProducer → s.control.phase ≠ .idle) :
      Connecting s (.error f, s)
  | undialled (f : Fault) (p : Peer) (client : s.role = .activeProducer)
      (idle : s.control.phase = .idle) :
      Connecting s (.error f, s.heard p [.requested .dial (some f)])
  | undescribed (f : Fault) (p : Peer) (client : s.role = .activeProducer)
      (idle : s.control.phase = .idle) :
      Connecting s (.error f, (s.inPhase .connected).heard p
        [.requested .describe (some f), .note (.transition .idle .connected),
          .requested .dial none])
  | connected (p : Peer) (client : s.role = .activeProducer)
      (idle : s.control.phase = .idle) :
      Connecting s (.ok (), (s.inPhase .connected).heard p
        [.note .connected, .requested .describe none, .note (.transition .idle .connected),
          .requested .dial none])

theorem outcome_connect (s : Session) : Connecting s (outcome connect s) := by
  unfold connect
  rw [outcome_bind_ok (outcome_get s), outcome_bind, outcome_require]
  by_cases client : s.role = .activeProducer
  · rw [if_pos client]
    show Connecting s (outcome (require _ _ >>= _) s)
    rw [outcome_bind, outcome_require]
    by_cases idle : s.control.phase = .idle
    · rw [if_pos idle]
      show Connecting s (outcome (request .dial >>= _) s)
      obtain ⟨p, hd | ⟨f, hd⟩⟩ := outcome_request s .dial
      · rw [outcome_bind_ok hd, outcome_bind_ok (outcome_enter _ _)]
        simp only [inPhase_heard, heard_heard, control_heard, peer_heard, idle]
        obtain ⟨q, hs | ⟨f, hs⟩⟩ := outcome_request ((s.inPhase .connected).heard p
          (moved .idle .connected ++ [.requested .dial none])) .describe
        · rw [outcome_bind_ok hs, heard_heard, outcome_note, log_heard]
          exact .connected q client idle
        · rw [outcome_bind_error hs, heard_heard]
          exact .undescribed f q client idle
      · rw [outcome_bind_error hd]
        exact .undialled f p client idle
    · rw [if_neg idle]
      exact .refused _ fun _ => idle
  · rw [if_neg client]
    exact .refused _ fun h => absurd h client

/-! ## Stopping -/

/-- A session with no track registered. -/
def emptied (s : Session) : Session :=
  { s with control := { s.control with receivers := [], senders := [] } }

/-- The ways in which `stop` can end. In each of them all tracks have been closed, and hooks
may have run. -/
inductive Stopping (s : Session) : Except Fault Unit × Session → Prop where
  | idle {s' : Session} (h : s.control.phase = .idle) (closed : Aside s.emptied s')
      (closing : outcome (closeAll (s.control.receivers ++ s.control.senders)) s.emptied =
        (.ok (), s')) : Stopping s (.ok (), s')
  | tornDown (fault : Option Fault) (p : Peer) {s' : Session} (h : s.control.phase ≠ .idle)
      (closed : Aside s.emptied s')
      (closing : outcome (closeAll (s.control.receivers ++ s.control.senders)) s.emptied =
        (.ok (), s')) :
      Stopping s (fault.elim (.ok ()) .error, (s'.inPhase .idle).heard p
        [.requested .close fault, .note .stopped, .note (.transition s.control.phase .idle)])

theorem outcome_stop (s : Session) : Stopping s (outcome stop s) := by
  unfold stop
  rw [outcome_bind_ok (outcome_get s)]
  obtain ⟨s', hc, apart⟩ := Apart.closeAll (s.control.receivers ++ s.control.senders) s.emptied
  have closed := apart.toAside
  have he : outcome clearRegistries s = (.ok (), s.emptied) := rfl
  rw [outcome_bind_ok he, outcome_bind_ok hc, outcome_onlyIf]
  by_cases h : s.control.phase = .idle
  · rw [if_neg (not_not_intro h)]
    exact .idle h closed hc
  · rw [if_pos h]
    unfold tearDown
    have hp : s'.control.phase = s.control.phase := by rw [closed.control]; rfl
    rw [outcome_bind_ok (outcome_enter _ _), outcome_bind_ok (outcome_note _ _), log_heard, hp,
      moved, if_neg h]
    obtain ⟨q, hr | ⟨f, hr⟩⟩ := outcome_request ((s'.inPhase .idle).heard s'.peer
      [.note .stopped, .note (.transition s.control.phase .idle)]) .close
    · rw [hr, heard_heard]
      exact .tornDown none q h closed hc
    · rw [hr, heard_heard]
      exact .tornDown (some f) q h closed hc

/-! ## Passes of `start` -/

/-- The ways in which a pass can end before the frame handler is called. -/
inductive Passing (handled : Option Outcome) (s : Session) :
    Except Fault (Option Outcome) × Session → Prop where
  | first (idle : s.control.phase = .idle) (h : handled = none) : Passing handled s (.ok none, s)
  | stopped (es : List Entry) (idle : s.control.phase = .idle) (result : Outcome)
      (h : handled = some result) (aside : ∀ e ∈ es, e.isAside = true)
      (notes : ∀ e ∈ es, e.isNote = true) :
      Passing handled s (.ok (some (.ok ())), s.heard s.peer es)
  | early (connected : s.control.phase = .connected) :
      Passing handled s (.error (.wrongPhase "start" .connected), s)
  | unplayed (f : Fault) (p : Peer) (ready : s.control.phase = .ready)
      (client : s.role = .activeProducer) :
      Passing handled s (.error f, s.heard p [.requested .play (some f)])
  | played (p : Peer) (ready : s.control.phase = .ready) (client : s.role = .activeProducer) :
      Passing handled s (.ok none, (s.inPhase .playing).heard p
        [.note (.transition .ready .playing), .requested .play none])
  | served (ready : s.control.phase = .ready) (server : s.role ≠ .activeProducer) :
      Passing handled s (.ok none, (s.inPhase .playing).heard s.peer
        [.note (.transition .ready .playing)])
  | busy (playing : s.control.phase = .playing) (h : handled = none) :
      Passing handled s (.error (.internal "start called on a playing connection"), s)
  | broken (playing : s.control.phase = .playing) (result : Outcome)
      (h : handled = some result) : Passing handled s (.ok (some result), s)

theorem outcome_pass (handled : Option Outcome) (s : Session) :
    Passing handled s (outcome (pass handled) s) := by
  unfold pass
  rw [outcome_bind_ok (outcome_get s)]
  cases hp : s.control.phase with
  | idle =>
    rcases handled with _ | ⟨f | ⟨⟩⟩
    · exact .first hp rfl
    · exact .stopped [.note (.handlerExited f)] hp _ rfl (by simp; rfl) (by simp; rfl)
    · exact .stopped [] hp _ rfl (by simp) (by simp)
  | connected => exact .early hp
  | ready =>
    simp only [outcome_bind, outcome_onlyIf]
    by_cases client : s.role = .activeProducer
    · rw [if_pos client]
      obtain ⟨p, h | ⟨f, h⟩⟩ := outcome_request s .play
      · simp only [h, outcome_enter, control_heard, hp, inPhase_heard, heard_heard, peer_heard]
        exact .played p hp client
      · simp only [h]
        exact .unplayed f p hp client
    · rw [if_neg client]
      simp only [outcome_enter, hp]
      exact .served hp client
  | playing =>
    cases handled with
    | none => exact .busy hp rfl
    | some result => exact .broken hp result rfl

end RtspControl.Session
