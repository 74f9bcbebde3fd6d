import RtspControl.Proofs.Serving

/-!
# Registries without redundancy

An inbound track is made only for a request that none of the tracks in the registry answers, so
every track in it is there for a reason: no older track of its section answers the request that it
was made for. The younger track may well answer the request that the older one was made for, since a
request can be more open than any offer: whoever asks for one encoding first and for anything later
is served twice with one track, and whoever asks the other way round gets two.

`Move.received_cases` says when a move makes an inbound track, `Irredundant` what the registry is
like between moves, and `Course.inbound_irredundant` who is served from it, and with which track.
-/

namespace RtspControl

open Session

/-! ## Tracks that moves make -/

/-- A move makes an inbound track, for a request that the registry does not serve. -/
structure Move.Receives (x : Move) (t : Track) : Prop where
  request : x.task.request? = some (t.media, t.codec)
  inbound : t.media.direction = .receiveOnly
  miss : x.found.served? t.media t.codec = none
  fresh : x.found.tracks.made ≤ t.serial
  received : x.received = [t]

/-- A track that a negotiation has made is for what was asked. -/
theorem made_for_of_negotiation {m : MediaSection} {c : Codec} {s s' : Session} {t : Track}
    (h : Negotiation m c s (.ok t, s')) (miss : s.served? m c = none) :
    t.media = m ∧ t.codec = c := by
  cases h with
  | served t hit =>
    rw [miss] at hit
    cases hit
  | assigned | allotted => exact ⟨rfl, rfl⟩

section

variable {x : Move} {m : MediaSection} {c : Codec} {t : Track}

/-- A move adds one inbound track to the log at most. -/
theorem Move.received_cases
    (serials : ∀ t ∈ x.found.control.receivers, t.serial < x.found.tracks.made) :
    x.received = [] ∨ ∃ t, x.Receives t := by
  rcases List.eq_nil_or_concat x.received with none | ⟨_, t, more⟩
  · exact Or.inl none
  right
  have mem : t ∈ x.received := by
    rw [more, List.concat_eq_append]
    exact List.mem_concat_self
  have ok := result?_of_received mem
  cases kind : x.task.request? with
  | none =>
    rw [received, kind] at mem
    cases mem
  | some mc =>
    obtain ⟨m, c⟩ := mc
    simp only [received, kind, ok, freshlyReceived] at mem ⊢
    split at mem
    · next new =>
      obtain ⟨r, s', hr, -, negotiation⟩ := x.negotiation kind
      obtain rfl : r = .ok t := Option.some.inj (hr.symm.trans ok)
      have hu := Task.aside_underway x.task x.found
      have miss : x.found.served? m c = none := by
        cases hit : x.found.served? m c with
        | none => rfl
        | some t' =>
          -- A track from the registry is not new.
          have served := outcome_negotiate_of_hit ((served?_of_control hu.control).trans hit)
          simp only [result?, kind, Option.map_some, served, Option.some.injEq,
            Except.ok.injEq] at ok
          subst ok
          exact absurd (serials t' (mem_receivers_of_served? hit)) (Nat.not_lt_of_le new.2)
      obtain ⟨rfl, rfl⟩ := made_for_of_negotiation negotiation
        ((served?_of_control hu.control).trans miss)
      refine ⟨t, kind, new.1, miss, new.2, ?_⟩
      simp only [received, kind, ok, freshlyReceived, if_pos new]
    · cases mem

end

/-! ## What the registry is like -/

/-- Inbound tracks as they are registered one after the other. -/
structure Irredundant (ts : List Track) : Prop where
  inbound : ∀ t ∈ ts, t.media.direction = .receiveOnly
  distinct : ts.Pairwise fun t u => t.serial ≠ u.serial
  /-- No track could have been handed out for the request that a later one was made for. -/
  needed : ts.Pairwise fun t u => t.serves u.media u.codec = false

namespace Irredundant

variable {ts : List Track} {t : Track}

theorem nil : Irredundant [] := ⟨List.forall_mem_nil _, .nil, .nil⟩

/-- One more track is no harm if it has no number of an older one, and no older one would do. -/
theorem concat (h : Irredundant ts) (inbound : t.media.direction = .receiveOnly)
    (distinct : ∀ u ∈ ts, u.serial ≠ t.serial)
    (needed : ∀ u ∈ ts, u.serves t.media t.codec = false) : Irredundant (ts ++ [t]) := by
  refine ⟨?_, ?_, ?_⟩
  · exact List.forall_mem_append.mpr ⟨h.inbound, List.forall_mem_singleton.mpr inbound⟩
  · refine List.pairwise_append.mpr ⟨h.distinct, List.pairwise_singleton _ t, ?_⟩
    intro u hu t' ht'
    rw [List.mem_singleton.mp ht']
    exact distinct u hu
  · refine List.pairwise_append.mpr ⟨h.needed, List.pairwise_singleton _ t, ?_⟩
    intro u hu t' ht'
    rw [List.mem_singleton.mp ht']
    exact needed u hu

end Irredundant

theorem served?_eq_none_iff {s : Session} {m : MediaSection} {c : Codec}
    (inbound : m.direction = .receiveOnly) :
    s.served? m c = none ↔ ∀ t ∈ s.control.receivers, t.serves m c = false := by
  rw [served?, if_pos inbound, List.find?_eq_none]
  simp only [Bool.not_eq_true]

theorem Reached.irredundant {role : Role} {past : List Move} {s : Session}
    (h : Reached role past s) : Irredundant s.control.receivers := by
  induction h using Reached.induct with
  | opened => exact .nil
  | moved past x earlier _ suits ih =>
    cases stop : x.isStop with
    | true =>
      rw [(Move.registries_left_of_isStop stop).1]
      exact .nil
    | false =>
      rw [(x.registries_left suits earlier.serial_lt stop).receivers]
      rcases x.received_cases earlier.serial_lt with none | ⟨t, receives⟩
      · rw [none, List.append_nil]
        exact ih
      · rw [receives.received]
        apply ih.concat receives.inbound
        · intro u hu
          exact Nat.ne_of_lt (Nat.lt_of_lt_of_le (earlier.serial_lt u hu) receives.fresh)
        · exact (served?_eq_none_iff receives.inbound).mp receives.miss

/-! ## Who is served -/

/-- A track stands at the first place in a list at which a request on a section is answered. -/
def FirstFor (ts : List Track) (m : MediaSection) (c : Codec) (t : Track) : Prop :=
  ∃ k, ∃ h : k < ts.length, ts[k] = t ∧ (t.media.sameAs m = true ∧ t.codec.satisfies c = true) ∧
    ∀ j, (hj : j < k) → ¬ (ts[j].media.sameAs m = true ∧ ts[j].codec.satisfies c = true)

section

variable {x : Move} {m : MediaSection} {c : Codec} {s : Session} {t : Track}

theorem serves_iff :
    t.serves m c = true ↔ t.media.sameAs m = true ∧ t.codec.satisfies c = true := by
  rw [Track.serves, Bool.and_eq_true]

theorem served?_eq_some_iff (inbound : m.direction = .receiveOnly) :
    s.served? m c = some t ↔ FirstFor s.control.receivers m c t := by
  rw [served?, if_pos inbound, List.find?_eq_some_iff_getElem]
  simp only [Bool.not_eq_true', ← Bool.not_eq_true, serves_iff, FirstFor]
  constructor
  · rintro ⟨fits, k, hk, at_k, before⟩
    exact ⟨k, hk, at_k, fits, before⟩
  · rintro ⟨k, hk, at_k, fits, before⟩
    exact ⟨fits, k, hk, at_k, before⟩

theorem isSome_served?_iff (inbound : m.direction = .receiveOnly) :
    (s.served? m c).isSome = true ↔ ∃ t ∈ s.control.receivers,
      t.media.sameAs m = true ∧ t.codec.satisfies c = true := by
  rw [served?, if_pos inbound, List.find?_isSome]
  simp only [serves_iff]

/-- A negotiation that adds nothing to the registry was served from it. -/
theorem served?_of_unchanged {s' : Session} (h : Negotiation m c s (.ok t, s'))
    (inbound : m.direction = .receiveOnly)
    (unchanged : s'.control.receivers = s.control.receivers) : s.served? m c = some t := by
  have hit := served?_of_negotiation h inbound
  rw [served?, if_pos inbound, unchanged] at hit
  rw [served?, if_pos inbound, hit]

/-- A request is served from the registry, with all that this means, exactly if it has a track for
it. -/
theorem Move.servedBy_iff (kind : x.task.request? = some (m, c))
    (inbound : m.direction = .receiveOnly) :
    x.ServedBy t ↔ x.found.served? m c = some t := by
  constructor
  · intro served
    obtain ⟨r, s', hr, hl, negotiation⟩ := x.negotiation kind
    obtain rfl : r = .ok t := Option.some.inj (hr.symm.trans served.result)
    have hu := Task.aside_underway x.task x.found
    rw [← served?_of_control hu.control]
    apply served?_of_unchanged negotiation inbound
    show s'.control.receivers = _
    rw [← hl, served.control, hu.control]
  · exact servedBy_of_hit kind

end

/-- Inbound tracks are different ones, on sections to receive on, and none answers the request that
a later one of its section was made for. Whoever asks for a track on such a section is served from
the registry exactly if some track of that very section answers, and with the first one that
does. -/
theorem Course.inbound_irredundant (r : Course) :
    (r.session.control.receivers.Pairwise fun t u => t.serial ≠ u.serial ∧
      (t.media.sameAs u.media = true → t.codec.satisfies u.codec = false)) ∧
    (∀ t ∈ r.session.control.receivers, t.media.direction = .receiveOnly) ∧
    ∀ task m c, task.request? = some (m, c) → m.direction = .receiveOnly →
      ((∃ t, (⟨task, r.session⟩ : Move).ServedBy t) ↔ ∃ t ∈ r.session.control.receivers,
        t.media.sameAs m = true ∧ t.codec.satisfies c = true) ∧
      ∀ t, (⟨task, r.session⟩ : Move).ServedBy t ↔
        FirstFor r.session.control.receivers m c t := by
  have irredundant := r.reached.irredundant
  refine ⟨?_, irredundant.inbound, ?_⟩
  · refine (irredundant.distinct.and irredundant.needed).imp ?_
    rintro t u ⟨distinct, needed⟩
    refine ⟨distinct, fun same => ?_⟩
    rwa [Track.serves, same, Bool.true_and] at needed
  · intro task m c kind inbound
    have served (t : Track) : (⟨task, r.session⟩ : Move).ServedBy t ↔
        r.session.served? m c = some t :=
      Move.servedBy_iff kind inbound
    refine ⟨?_, fun t => (served t).trans (served?_eq_some_iff inbound)⟩
    rw [exists_congr served, ← Option.isSome_iff_exists]
    exact isSome_served?_iff inbound

end RtspControl
