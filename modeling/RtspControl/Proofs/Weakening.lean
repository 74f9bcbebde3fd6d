import RtspControl.Proofs.Serving

/-!
# Weaker requests

A codec that answers a request may itself be asked for, and what it leaves open then is left open
by the request that it answers as well: `Codec.satisfies` is a preorder, with every wildcard in it
(`Codec.satisfies_self`, `Codec.satisfies_trans`). A request that is answered by another one is
weaker than that one.

Offers and registries are searched from the front, and whoever asks for less stops no later:
whatever answers a request answers every weaker one too (`FirstAt.of_weaker`). So a weaker request
finds an offer wherever the stronger one does, and it is served from the registry whenever the
stronger one is, in both cases at the same place or before it (`Codec.weaker_found_no_later`).
-/

namespace RtspControl

open Session

/-! ## The first place at which something holds -/

/-- An element stands at the first place in a list at which something holds. -/
structure FirstAt {α : Type} (p : α → Bool) (as : List α) (k : Nat) (a : α) : Prop where
  place : as[k]? = some a
  holds : p a = true
  before : ∀ j < k, ∀ b, as[j]? = some b → p b = false

section

variable {α : Type} {p q : α → Bool} {as : List α} {k : Nat} {a : α}

theorem find?_eq_some_iff_firstAt : as.find? p = some a ↔ ∃ k, FirstAt p as k a := by
  rw [List.find?_eq_some_iff_getElem]
  constructor
  · rintro ⟨holds, k, hk, at_k, before⟩
    refine ⟨k, List.getElem?_eq_some_iff.mpr ⟨hk, at_k⟩, holds, ?_⟩
    intro j hj b at_j
    obtain ⟨-, rfl⟩ := List.getElem?_eq_some_iff.mp at_j
    exact Bool.not_eq_true' _ ▸ before j hj
  · rintro ⟨k, place, holds, before⟩
    obtain ⟨hk, at_k⟩ := List.getElem?_eq_some_iff.mp place
    refine ⟨holds, k, hk, at_k, ?_⟩
    intro j hj
    rw [before j hj _ (List.getElem?_eq_getElem (Nat.lt_trans hj hk)), Bool.not_false]

theorem FirstAt.findIdx?_eq (h : FirstAt p as k a) : as.findIdx? p = some k := by
  obtain ⟨hk, at_k⟩ := List.getElem?_eq_some_iff.mp h.place
  rw [List.findIdx?_eq_some_iff_getElem]
  refine ⟨hk, at_k ▸ h.holds, ?_⟩
  intro j hj
  rw [h.before j hj _ (List.getElem?_eq_getElem (Nat.lt_trans hj hk))]
  exact Bool.false_ne_true

/-- Of two searches the one that asks for less ends first. -/
theorem FirstAt.of_weaker (h : FirstAt p as k a) (weaker : ∀ b, p b = true → q b = true) :
    ∃ j ≤ k, ∃ b, FirstAt q as j b := by
  have found : (as.find? q).isSome = true :=
    List.find?_isSome.mpr ⟨a, List.mem_of_getElem? h.place, weaker a h.holds⟩
  obtain ⟨b, hb⟩ := Option.isSome_iff_exists.mp found
  obtain ⟨j, first⟩ := find?_eq_some_iff_firstAt.mp hb
  refine ⟨j, ?_, b, first⟩
  -- Were it to go on beyond `k`, what stands there would not be what it asks for.
  by_contra later
  have missed := first.before k (Nat.lt_of_not_le later) a h.place
  rw [weaker a h.holds] at missed
  cases missed

end

/-! ## Requests that are answered by requests -/

/-- A value is what a request asks for in one of its fields; zero asks for nothing. -/
def FillsIn {α : Type} [OfNat α 0] (value asked : α) : Prop := asked = 0 ∨ value = asked

theorem FillsIn.trans {α : Type} [OfNat α 0] {a b c : α} (hab : FillsIn a b) (hbc : FillsIn b c) :
    FillsIn a c := by
  rcases hbc with rfl | rfl
  · exact .inl rfl
  · exact hab

namespace Codec

variable {a b c : Codec}

theorem satisfies_iff : a.satisfies b = true ↔ b.isOpenRequest = true ∨
    a.name = b.name ∧ FillsIn a.clockRate b.clockRate ∧ FillsIn a.channels b.channels := by
  simp only [satisfies, FillsIn, Bool.or_eq_true, Bool.and_eq_true, beq_iff_eq, and_assoc]

/-- Whether a request asks for a name at all is a matter of its own name. -/
theorem isOpenRequest_congr (h : a.name = b.name) : a.isOpenRequest = b.isOpenRequest := by
  rw [isOpenRequest, isOpenRequest, h]

/-- Whatever answers a request answers all that the request itself would answer. -/
theorem satisfies_trans (hab : a.satisfies b = true) (hbc : b.satisfies c = true) :
    a.satisfies c = true := by
  rw [satisfies_iff] at hab hbc ⊢
  rcases hbc with wild | ⟨name, rate, channels⟩
  · exact .inl wild
  rcases hab with wild | ⟨name', rate', channels'⟩
  · -- A wildcard in the middle only answers requests for its own name, which are wildcards too.
    exact .inl (isOpenRequest_congr name ▸ wild)
  · exact .inr ⟨name'.trans name, rate'.trans rate, channels'.trans channels⟩

end Codec

/-! ## Offers -/

namespace Media

/-- A request finds an offer, which is the first one that answers it, at its place among all. -/
structure FindsAt (m : Media) (request : Codec) (k : Nat) (offer : Codec) : Prop where
  found : m.firstMatch? request = some offer
  index : m.firstMatchIndex? request = some k
  first : FirstAt (·.satisfies request) m.codecs k offer

variable {m : Media} {request offer : Codec}

theorem findsAt_of_firstAt {k : Nat} (h : FirstAt (·.satisfies request) m.codecs k offer) :
    m.FindsAt request k offer :=
  ⟨find?_eq_some_iff_firstAt.mpr ⟨k, h⟩, h.findIdx?_eq, h⟩

theorem exists_findsAt (h : m.firstMatch? request = some offer) :
    ∃ k, m.FindsAt request k offer := by
  obtain ⟨k, first⟩ := find?_eq_some_iff_firstAt.mp h
  exact ⟨k, findsAt_of_firstAt first⟩

end Media

/-! ## The registry -/

namespace Session

/-- A request on a section is served with a track from the registry, which is the first one there
that serves it. That is noted, and nothing else happens. -/
structure ServesAt (s : Session) (m : MediaSection) (request : Codec) (k : Nat) (t : Track) :
    Prop where
  served : outcome (negotiate m request) s = (.ok t, s.log (.note (.servedFromRegistry t)))
  first : FirstAt (·.serves m request) s.control.receivers k t

variable {s : Session} {m : MediaSection} {request : Codec} {t : Track}

/-- That a track comes from the registry is noted of such tracks only. -/
theorem served?_of_outcome_negotiate
    (h : outcome (negotiate m request) s = (.ok t, s.log (.note (.servedFromRegistry t)))) :
    s.served? m request = some t := by
  have negotiation := outcome_negotiate m s request
  rw [h] at negotiation
  generalize ho : (Except.ok t, s.log (.note (.servedFromRegistry t))) = o at negotiation
  have history := congrArg (fun o : Except Fault Track × Session => o.2.history.head?) ho
  cases negotiation with
  | served u hit =>
    cases ho
    exact hit
  -- The last that is noted of a new track is that it was made.
  | assigned | allotted => cases history
  | refused | unbuilt | unassigned => cases congrArg Prod.fst ho

theorem served?_eq_some_iff_find? : s.served? m request = some t ↔
    m.direction = .receiveOnly ∧ s.control.receivers.find? (·.serves m request) = some t := by
  rw [served?]
  split
  · next inbound => rw [and_iff_right inbound]
  · next outbound => simp [outbound]

theorem servesAt_of_firstAt {k : Nat} (inbound : m.direction = .receiveOnly)
    (h : FirstAt (·.serves m request) s.control.receivers k t) : s.ServesAt m request k t := by
  have found := find?_eq_some_iff_firstAt.mpr ⟨k, h⟩
  exact ⟨outcome_negotiate_of_hit (served?_eq_some_iff_find?.mpr ⟨inbound, found⟩), h⟩

/-- Only sections to receive on are served from the registry. -/
theorem exists_servesAt
    (h : outcome (negotiate m request) s = (.ok t, s.log (.note (.servedFromRegistry t)))) :
    m.direction = .receiveOnly ∧ ∃ k, s.ServesAt m request k t := by
  obtain ⟨inbound, found⟩ := served?_eq_some_iff_find?.mp (served?_of_outcome_negotiate h)
  obtain ⟨k, first⟩ := find?_eq_some_iff_firstAt.mp found
  exact ⟨inbound, k, h, first⟩

end Session

/-! ## Searching for less -/

theorem Track.serves_of_weaker {t : Track} {m : MediaSection} {r w : Codec}
    (weaker : r.satisfies w = true) (h : t.serves m r = true) : t.serves m w = true := by
  rw [Track.serves, Bool.and_eq_true] at h ⊢
  exact ⟨h.1, Codec.satisfies_trans h.2 weaker⟩

/-- Every codec answers the request for itself, and whatever answers a request answers each request
that this one answers. Hence to ask for less is never to find less, nor to find it later: where a
request finds an offer, a weaker one does, at the same place or before it; and where a request is
served from the registry, whatever the registry holds, a weaker one on the same section is, by the
track at the same place or before it. -/
theorem Codec.weaker_found_no_later :
    (∀ c : Codec, c.satisfies c = true) ∧
    (∀ a b c : Codec, a.satisfies b = true → b.satisfies c = true → a.satisfies c = true) ∧
    ∀ r w : Codec, r.satisfies w = true →
      (∀ (m : Media) (offer : Codec), m.firstMatch? r = some offer →
        ∃ i, m.FindsAt r i offer ∧ ∃ j ≤ i, ∃ offer', m.FindsAt w j offer') ∧
      ∀ (s : Session) (m : MediaSection) (t : Track),
        outcome (negotiate m r) s = (.ok t, s.log (.note (.servedFromRegistry t))) →
        ∃ i, s.ServesAt m r i t ∧ ∃ j ≤ i, ∃ u, s.ServesAt m w j u := by
  refine ⟨satisfies_self, fun _ _ _ => satisfies_trans, ?_⟩
  intro r w weaker
  constructor
  · intro m offer found
    obtain ⟨i, finds⟩ := Media.exists_findsAt found
    obtain ⟨j, sooner, offer', first⟩ :=
      finds.first.of_weaker fun _ answers => satisfies_trans answers weaker
    exact ⟨i, finds, j, sooner, offer', Media.findsAt_of_firstAt first⟩
  · intro s m t served
    obtain ⟨inbound, i, serves⟩ := exists_servesAt served
    obtain ⟨j, sooner, u, first⟩ := serves.first.of_weaker fun _ => Track.serves_of_weaker weaker
    exact ⟨i, serves, j, sooner, u, servesAt_of_firstAt inbound first⟩

def monoRequest : Codec := { name := Codec.opus, clockRate := 48000, channels := 1 }

def stereoRequest : Codec := { name := Codec.opus, clockRate := 48000, channels := 2 }

/-- A request for an encoding at any clock rate, with any number of channels. -/
def opusRequest : Codec := { name := Codec.opus, clockRate := 0 }

/-- A request for anything; that it gives a clock rate does not matter. -/
def anyRequest : Codec := { name := Codec.anyName, clockRate := 44100 }

/-- A stream of music that is received, in one of three encodings. -/
def musicSection : MediaSection :=
  ⟨⟨"audio", .receiveOnly, [{ name := Codec.pcma, clockRate := 8000 }, monoRequest, stereoRequest],
    "trackID=3"⟩, 0⟩

/-- A server that has made a track for one channel, and then one for two. -/
def Course.musicServer : Course :=
  { role := .passiveConsumer, descriptor := default, settings := default, monitored := false
    peer := {}, script := {}
    callers := [[.getTrack musicSection monoRequest, .getTrack musicSection stereoRequest]]
    schedule := [0, 0, 0, 0] }

theorem Codec.opusRequest_found_no_later :
    stereoRequest.satisfies anyRequest = true ∧
    (∃ i, musicSection.FindsAt stereoRequest i stereoRequest ∧ ∃ j ≤ i, ∃ offer,
      musicSection.FindsAt opusRequest j offer) ∧
    ∃ i, Course.musicServer.session.ServesAt musicSection stereoRequest i
        ⟨1, musicSection, stereoRequest, 2⟩ ∧
      ∃ j ≤ i, ∃ u, Course.musicServer.session.ServesAt musicSection opusRequest j u := by
  obtain ⟨-, trans, weaker⟩ := weaker_found_no_later
  obtain ⟨offers, registry⟩ := weaker stereoRequest opusRequest (by decide)
  have hit : Course.musicServer.session.served? musicSection stereoRequest =
      some ⟨1, musicSection, stereoRequest, 2⟩ := by decide +kernel
  exact ⟨trans stereoRequest opusRequest anyRequest (by decide) (by decide),
    offers musicSection.toMedia stereoRequest (by decide),
    registry Course.musicServer.session musicSection _ (outcome_negotiate_of_hit hit)⟩

end RtspControl
