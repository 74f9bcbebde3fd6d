import RtspControl.Proofs.Registries

/-!
# Requests that the registry serves

A request on a receive-only section that has succeeded once is served from the registry from
then on, until the connection is stopped: the track that it got is the oldest one that fits, and
it stays so, since registries only grow at the end. `Course.served_again` says so for any two
requests between which there is no stop, whatever else happens in between, and that therefore
no two of them make a track.

The argument needs that a track fits the request it was made for, wildcards and all:
`Codec.satisfies_self`.
-/

namespace RtspControl

open Session

/-! ## The oldest track that fits -/

/-- Every codec answers the request for itself, however open that is. -/
theorem Codec.satisfies_self (c : Codec) : c.satisfies c = true := by
  simp only [Codec.satisfies, beq_self_eq_true, Bool.or_true, Bool.and_self]

theorem serves_nextTrack (s : Session) (m : MediaSection) (c : Codec) (channel : UInt8) :
    (s.nextTrack m c channel).serves m c = true := by
  have hm : m.sameAs m = true := beq_self_eq_true m.index
  have hc := c.satisfies_self
  simp only [Track.serves, nextTrack, hm, hc, Bool.and_self]

section

variable {m : MediaSection} {c : Codec} {s s' : Session} {t : Track}

/-- What is registered later does not get in the way of an older track. -/
theorem served?_of_append (h : s.served? m c = some t) {ts : List Track}
    (hr : s'.control.receivers = s.control.receivers ++ ts) : s'.served? m c = some t := by
  unfold served? at h ⊢
  split at h
  · next hd => rw [if_pos hd, hr, List.find?_append, h, Option.some_or]
  · cases h

/-- A new track serves the request for which there was none. -/
theorem served?_of_miss (hd : m.direction = .receiveOnly) (miss : s.served? m c = none)
    (hr : s'.control.receivers = s.control.receivers ++ [t]) (ht : t.serves m c = true) :
    s'.served? m c = some t := by
  unfold served? at miss ⊢
  rw [if_pos hd] at miss ⊢
  rw [hr, List.find?_append, miss, Option.none_or]
  exact List.find?_cons_of_pos ht

/-- Whether it was made or not, the track that a request gets serves that request. -/
theorem served?_of_negotiation (h : Negotiation m c s (.ok t, s'))
    (hd : m.direction = .receiveOnly) : s'.served? m c = some t := by
  cases h with
  | served t hit => exact served?_of_append hit (List.append_nil _).symm
  | @assigned channel p s₁ es miss client direction prepared =>
    have hn : (s.nextTrack m c channel).media.direction = .receiveOnly := hd
    refine served?_of_miss hd miss ?_ (serves_nextTrack s m c channel)
    show s₁.control.receivers ++ _ = _
    rw [prepared.control, if_pos hn]
  | allotted channel miss =>
    have hn : (s.nextTrack m c channel).media.direction = .receiveOnly := hd
    refine served?_of_miss hd miss ?_ (serves_nextTrack s m c channel)
    show s.control.receivers ++ _ = _
    rw [if_pos hn]

theorem outcome_negotiate_of_hit (hit : s.served? m c = some t) :
    outcome (negotiate m c) s = (.ok t, s.log (.note (.servedFromRegistry t))) := by
  have h := outcome_negotiate m s c
  generalize outcome (negotiate m c) s = o at h ⊢
  cases h with
  | served t' hit' =>
    obtain rfl := Option.some.inj (hit.symm.trans hit')
    rfl
  | _ => simp_all

end

/-! ## Requests that are served again -/

/-- Does an entry tell of a request to the peer, or of an event? -/
def Entry.reachesOut : Entry → Bool
  | .requested _ _ => true
  | .setUp _ _ => true
  | .note (.raised _) => true
  | _ => false

/-- A move that makes a request is served with a track from the registry: that is all it
answers, nobody hears of it, and the connection is as before. -/
structure Move.ServedBy (y : Move) (t : Track) : Prop where
  result : y.result? = some (.ok t)
  /-- Before the answer come events that others have raised, if any wait by then. -/
  next : (y.task.step y.found).1 = [.deliver, y.task.reply (.ok t)]
  pending : y.left.pending = y.found.pending
  left : y.left = (y.task.underway y.found).log (.note (.servedFromRegistry t))
  control : y.left.control = y.found.control
  peer : y.left.peer = y.found.peer
  silent : ∀ e ∈ y.entries, e.reachesOut = false

theorem Entry.reachesOut_of_isAside {e : Entry} (h : e.isAside = true) :
    e.reachesOut = false := by
  cases e with
  | note n => cases n <;> first | rfl | simp [isAside, Note.isAside] at h
  | requested | setUp => simp [isAside] at h
  | _ => rfl

namespace Move

variable {x y : Move} {m : MediaSection} {c : Codec} {t : Track}

/-- A request is served whenever the registry has a track for it. -/
theorem servedBy_of_hit (h : y.task.request? = some (m, c))
    (hit : y.found.served? m c = some t) : y.ServedBy t := by
  have hu := Task.apart_underway y.task y.found
  have ho := outcome_negotiate_of_hit (c := c) ((served?_of_control hu.control).trans hit)
  have hs := Task.step_request h y.found
  rw [Task.thenDeliver_eq, ho] at hs
  have hl : y.left = (y.task.underway y.found).log (.note (.servedFromRegistry t)) :=
    congrArg Prod.snd hs
  obtain ⟨es, he, hes⟩ := hu.history
  refine ⟨?_, congrArg Prod.fst hs, ?_, hl, ?_, ?_, ?_⟩
  · simp only [result?, h, Option.map_some, ho]
  · rw [hl, pending_log, hu.pending]
  · rw [hl, control_log, hu.control]
  · rw [hl, log_eq_heard, peer_heard, Task.peer_underway]
  · have hh : y.left.history = (.note (.servedFromRegistry t) :: es) ++ y.found.history := by
      rw [hl, history_log, he, List.cons_append]
    rw [entries_of_history hh]
    intro e hm
    rcases List.mem_cons.mp hm with rfl | hm
    · rfl
    · exact Entry.reachesOut_of_isAside (hes e hm)

/-- After a request has succeeded the registry has its track. -/
theorem served?_left (h : x.task.request? = some (m, c)) (hd : m.direction = .receiveOnly)
    (granted : x.result? = some (.ok t)) : x.left.served? m c = some t := by
  obtain ⟨r, s', hr, hl, negotiation⟩ := x.negotiation h
  obtain rfl := Option.some.inj (granted.symm.trans hr)
  rw [hl]
  exact (served?_of_control (s := s') rfl).trans (served?_of_negotiation negotiation hd)

end Move

/-- A track that serves a request goes on serving it until the connection is stopped. -/
theorem Reached.served?_after {role : Role} {past between : List Move} {s : Session} {x : Move}
    {m : MediaSection} {c : Codec} {t : Track} (h : Reached role (past ++ x :: between) s)
    (unstopped : ∀ z ∈ between, z.isStop = false) (hit : x.left.served? m c = some t) :
    s.served? m c = some t := by
  induction between using List.reverseRecOn generalizing s with
  | nil =>
    rw [h.last.2.2]
    exact hit
  | append_singleton between z ih =>
    rw [← List.cons_append, ← List.append_assoc] at h
    obtain ⟨found, suits, rfl⟩ := h.last
    have hz := ih found (List.forall_mem_append.mp unstopped).1
    have hs := unstopped z (List.mem_append_right _ (List.mem_singleton_self z))
    have he := z.registries_left (found.suits_task suits) found.serial_lt hs
    exact served?_of_append hz he.receivers

/-- Of two moves the earlier one leads to the session that the later one finds. -/
theorem Course.reached_between {r : Course} {stretch : List Move} (part : stretch <:+: r.moves)
    (unstopped : ∀ x ∈ stretch, x.isStop = false) {x y : Move} (h : [x, y].Sublist stretch) :
    ∃ past between, Reached r.role (past ++ x :: between) y.found ∧
      ∀ z ∈ between, z.isStop = false := by
  obtain ⟨before, later, hm⟩ := part
  obtain ⟨ps, qs, rfl, hx, hy⟩ := List.cons_sublist_iff.mp h
  obtain ⟨ps₁, ps₂, rfl⟩ := List.append_of_mem hx
  obtain ⟨qs₁, qs₂, rfl⟩ := List.append_of_mem (List.singleton_sublist.mp hy)
  refine ⟨before ++ ps₁, ps₂ ++ qs₁, ?_, ?_⟩
  · have hr := r.reached
    rw [← hm] at hr
    have hs : before ++ (ps₁ ++ x :: ps₂ ++ (qs₁ ++ y :: qs₂)) ++ later =
        (before ++ ps₁ ++ x :: (ps₂ ++ qs₁)) ++ y :: (qs₂ ++ later) := by
      simp only [List.append_assoc, List.cons_append]
    exact (hs ▸ hr).before.1
  · intro z hz
    refine unstopped z ?_
    simp only [List.mem_append, List.mem_cons] at hz ⊢
    tauto

theorem Course.served?_found {r : Course} {stretch : List Move} (part : stretch <:+: r.moves)
    (unstopped : ∀ x ∈ stretch, x.isStop = false) {x y : Move} (h : [x, y].Sublist stretch)
    {m : MediaSection} {c : Codec} {t : Track} (hx : x.task.request? = some (m, c))
    (hd : m.direction = .receiveOnly) (granted : x.result? = some (.ok t)) :
    y.found.served? m c = some t := by
  obtain ⟨past, between, hy, hb⟩ := Course.reached_between part unstopped h
  exact hy.served?_after hb (x.served?_left hx hd granted)

/-- What a request makes is what it gets. -/
theorem Move.result?_of_received {x : Move} {t : Track} (h : t ∈ x.received) :
    x.result? = some (.ok t) := by
  unfold received at h
  split at h
  · next m c r hm hr =>
    rw [hr]
    cases r with
    | error f => cases h
    | ok t' =>
      simp only [freshlyReceived] at h
      split at h
      · rw [List.mem_singleton.mp h]
      · cases h
  · cases h

/-- A track that is registered already is not made again. -/
theorem Move.received_of_registered {x : Move} {t : Track} (h : x.result? = some (.ok t))
    (made : t.serial < x.found.tracks.made) : x.received = [] := by
  rw [List.eq_nil_iff_forall_not_mem]
  intro t' ht'
  obtain rfl : t = t' := by
    have := h.symm.trans (result?_of_received ht')
    simpa using this
  unfold received at ht'
  rw [h] at ht'
  split at ht'
  · next hr =>
    obtain rfl := Option.some.inj hr
    simp only [freshlyReceived] at ht'
    split at ht'
    · next hf => exact Nat.not_le_of_lt made hf.2
    · cases ht'
  · cases ht'

theorem countP_le_one {α : Type} {p : α → Bool} {as : List α}
    (h : as.Pairwise fun a b => p a = true → p b = false) : as.countP p ≤ 1 := by
  induction as with
  | nil => exact Nat.zero_le 1
  | cons a as ih =>
    obtain ⟨ha, has⟩ := List.pairwise_cons.mp h
    rw [List.countP_cons]
    cases hp : p a with
    | false => simpa using ih has
    | true =>
      have hz : as.countP p = 0 := List.countP_eq_zero.mpr fun b hb => by simp [ha b hb hp]
      simp [hz]

/-- Between two stops a request on a receive-only section is granted by a negotiation once at
most; whenever it has been granted, by whatever caller, it is served with the same track. -/
theorem Course.served_again (r : Course) (stretch : List Move) (part : stretch <:+: r.moves)
    (unstopped : ∀ x ∈ stretch, x.isStop = false) :
    (stretch.Pairwise fun x y => ∀ m c t, m.direction = .receiveOnly →
      x.task.request? = some (m, c) → x.result? = some (.ok t) →
      y.task.request? = some (m, c) → y.ServedBy t) ∧
    ∀ m c, m.direction = .receiveOnly →
      stretch.countP (fun x => x.task.request? = some (m, c) ∧ x.received ≠ []) ≤ 1 := by
  refine ⟨?_, ?_⟩
  · rw [List.pairwise_iff_forall_sublist]
    intro x y h m c t hd hx granted hy
    have hit := Course.served?_found part unstopped h hx hd granted
    obtain ⟨past, between, found, -⟩ := Course.reached_between part unstopped h
    exact Move.servedBy_of_hit hy hit
  · intro m c hd
    refine countP_le_one ?_
    rw [List.pairwise_iff_forall_sublist]
    intro x y h hx
    obtain ⟨hx, hr⟩ := of_decide_eq_true hx
    obtain ⟨t, ht⟩ := List.exists_mem_of_ne_nil _ hr
    have hit := Course.served?_found part unstopped h hx hd (Move.result?_of_received ht)
    obtain ⟨past, between, found, -⟩ := Course.reached_between part unstopped h
    -- Were the later request not served, it would not be one for the same section and codec.
    refine decide_eq_false fun ⟨hy, hn⟩ => hn ?_
    have served := Move.servedBy_of_hit hy hit
    exact Move.received_of_registered served.result
      (found.serial_lt t (mem_receivers_of_served? hit))

/-- A request for an encoding at the clock rate of video. -/
def videoRequest : Codec := { name := Codec.h264, clockRate := 90000 }

/-- A video stream that is received. -/
def videoSection : MediaSection := ⟨⟨"video", .receiveOnly, [videoRequest], "trackID=0"⟩, 0⟩

/-- A client of two callers. One gets a track and has the session built anew, and then the other
one asks for the same. -/
def Course.twoCallers : Course :=
  { role := .activeProducer, descriptor := default, settings := default, monitored := true
    peer := {}, script := {}
    callers := [[.connect, .getTrack videoSection videoRequest, .reconnect],
      [.getTrack videoSection videoRequest]]
    schedule := [0, 0, 0, 0, 0, 0, 0, 0, 1] }

theorem Course.twoCallers_served_again :
    (∀ x ∈ twoCallers.moves, x.isStop = false) ∧
      ∃ y, twoCallers.moves[8]? = some y ∧ y.ServedBy ⟨0, videoSection, videoRequest, 0⟩ := by
  have unstopped : ∀ x ∈ twoCallers.moves, x.isStop = false := by decide
  obtain ⟨hp, -⟩ := Course.served_again twoCallers twoCallers.moves List.infix_rfl unstopped
  rw [List.pairwise_iff_getElem] at hp
  have hy := hp 2 8 (by decide) (by decide) (by decide) videoSection videoRequest
    ⟨0, videoSection, videoRequest, 0⟩ rfl rfl rfl rfl
  exact ⟨unstopped, _, rfl, hy⟩

end RtspControl
