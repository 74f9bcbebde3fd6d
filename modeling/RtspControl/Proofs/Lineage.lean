import RtspControl.Descriptor.Issue
import RtspControl.Proofs.Course

/-!
# Lineages of descriptors

However often a descriptor has been copied and filled in, and whatever connection has it by now, it
stems from one creation (`Stems`) and still has the identifier that was drawn there. That is as many
steps of the counter beyond its start as there were creations before (`Issued`). The counter may
wrap around on the way: identifiers are told apart by it as long as it does not come round to where
it has been, which takes more than `UInt64.size` creations.

So identifiers agree exactly within a lineage, and from one creation to the next they go up by one,
for whatever sequence of steps is possible at all (`Stock.id_eq_iff_stems`). That connections are
described anew, and by whom, has no part in it: opening a connection is one creation, and
describing it is none.
-/

namespace RtspControl

/-! ## Sequences of acquisitions -/

namespace Acquisition

/-- The holder whose descriptor is passed on; none if a descriptor is created. -/
def source? : Acquisition → Option Nat
  | .create _ | .standard | .connection _ => none
  | .copy k | .fill k _ _ => some k
  | .describe _ d => some d
  | .configure k _ | .monitor k => some k

def creates (a : Acquisition) : Bool := a.source?.isNone

/-- What becomes of the descriptor that is passed on. -/
def amend : Acquisition → Descriptor → Descriptor
  | .fill _ detail text, d => d.fill detail text
  | _, d => d

theorem id_amend (a : Acquisition) (d : Descriptor) : (a.amend d).id = d.id := by
  cases a with
  | fill k detail text => exact d.id_fill detail text
  | _ => rfl

theorem not_creates {a : Acquisition} {k : Nat} (h : a.source? = some k) : ¬ a.creates = true := by
  rw [creates, h]
  exact Bool.false_ne_true

/-- Does it give a connection? -/
def opens : Acquisition → Bool
  | .connection _ | .describe _ _ | .configure _ _ | .monitor _ => true
  | .create _ | .standard | .copy _ | .fill _ _ _ => false

/-- Is everything there that is referred to, and a connection where it has to be one? -/
def possible (before : List Acquisition) : Acquisition → Bool
  | .create _ | .standard | .connection _ => true
  | .copy k | .fill k _ _ => k < before.length
  | .describe k d => before[k]?.any opens && d < before.length
  | .configure k _ | .monitor k => before[k]?.any opens

end Acquisition

/-- No step refers to anything that has not been come by before it. -/
def Feasible (as : List Acquisition) : Prop :=
  ∀ k, (h : k < as.length) → as[k].possible (as.take k) = true

instance (as : List Acquisition) : Decidable (Feasible as) :=
  inferInstanceAs (Decidable (∀ k, (h : k < as.length) → as[k].possible (as.take k) = true))

/-- How many identifiers are drawn. -/
def drawn (as : List Acquisition) : Nat := as.countP Acquisition.creates

def CreatesAt (as : List Acquisition) (k : Nat) : Prop :=
  ∃ a, as[k]? = some a ∧ a.creates = true

/-- `k` is the next creation after `j`. -/
structure Successive (as : List Acquisition) (j k : Nat) : Prop where
  first : CreatesAt as j
  second : CreatesAt as k
  order : j < k
  between : ∀ i, j < i → i < k → ¬ CreatesAt as i

/-- What the step `k` gives stems from the creation in step `c`. -/
inductive Stems (as : List Acquisition) (c : Nat) : Nat → Prop where
  | created (creates : CreatesAt as c) : Stems as c c
  | passed {a : Acquisition} {j k : Nat} (place : as[k]? = some a) (source : a.source? = some j)
      (earlier : Stems as c j) : Stems as c k

section

variable {as : List Acquisition} {a : Acquisition} {c c' j k : Nat}

theorem Feasible.of_concat (h : Feasible (as ++ [a])) : Feasible as ∧ a.possible as = true :=
  forall_take_concat (R := fun before (a : Acquisition) => a.possible before = true) h

/-! ### How many identifiers are drawn -/

theorem drawn_concat : drawn (as ++ [a]) = drawn as + if a.creates = true then 1 else 0 := by
  rw [drawn, List.countP_append, List.countP_singleton]
  rfl

theorem drawn_take_le (h : j ≤ k) : drawn (as.take j) ≤ drawn (as.take k) :=
  (List.take_prefix_take_left h).sublist.countP_le

theorem drawn_take_succ (h : CreatesAt as k) :
    drawn (as.take (k + 1)) = drawn (as.take k) + 1 := by
  obtain ⟨a, place, creates⟩ := h
  rw [List.take_add_one, place, Option.toList_some, drawn_concat, if_pos creates]

theorem drawn_take_lt (h : CreatesAt as j) (order : j < k) :
    drawn (as.take j) < drawn (as.take k) := by
  apply Nat.lt_of_lt_of_le _ (drawn_take_le order)
  rw [drawn_take_succ h]
  exact Nat.lt_succ_self _

theorem drawn_take_lt_drawn (h : CreatesAt as k) : drawn (as.take k) < drawn as := by
  apply Nat.lt_of_lt_of_le _ (List.take_sublist (k + 1) as).countP_le
  exact drawn_take_lt h (Nat.lt_succ_self k)

theorem drawn_take_inj (hj : CreatesAt as j) (hk : CreatesAt as k) :
    drawn (as.take j) = drawn (as.take k) ↔ j = k := by
  constructor
  · intro same
    rcases Nat.lt_trichotomy j k with order | rfl | order
    · exact absurd same (Nat.ne_of_lt (drawn_take_lt hj order))
    · rfl
    · exact absurd same.symm (Nat.ne_of_lt (drawn_take_lt hk order))
  · rintro rfl
    rfl

/-- Steps that create nothing draw nothing. -/
theorem drawn_take_of_idle (order : j ≤ k) (idle : ∀ i, j ≤ i → i < k → ¬ CreatesAt as i) :
    drawn (as.take k) = drawn (as.take j) := by
  induction order with
  | refl => rfl
  | @step k order ih =>
    rw [← ih fun i hj hk => idle i hj (Nat.lt_succ_of_lt hk), List.take_add_one]
    cases place : as[k]? with
    | none => rw [Option.toList_none, List.append_nil]
    | some a =>
      have creates : ¬ a.creates = true :=
        fun h => idle k order (Nat.lt_succ_self k) ⟨a, place, h⟩
      rw [Option.toList_some, drawn_concat, if_neg creates, Nat.add_zero]

theorem Successive.drawn_eq (h : Successive as j k) :
    drawn (as.take k) = drawn (as.take j) + 1 := by
  rw [drawn_take_of_idle h.order h.between, drawn_take_succ h.first]

/-! ### Where descriptors stem from -/

namespace Stems

theorem createsAt (h : Stems as c k) : CreatesAt as c := by
  induction h with
  | created creates => exact creates
  | passed _ _ _ ih => exact ih

/-- Nothing stems from two creations. -/
theorem unique (h : Stems as c k) (h' : Stems as c' k) : c = c' := by
  have passing {a : Acquisition} {j k : Nat} (place : as[k]? = some a)
      (source : a.source? = some j) : ¬ CreatesAt as k := by
    rintro ⟨b, place', creates⟩
    obtain rfl := Option.some.inj (place.symm.trans place')
    exact Acquisition.not_creates source creates
  induction h with
  | created creates =>
    cases h' with
    | created _ => rfl
    | passed place source _ => exact absurd creates (passing place source)
  | passed place source _ ih =>
    cases h' with
    | created creates => exact absurd creates (passing place source)
    | passed place' source' earlier' =>
      obtain rfl := Option.some.inj (place.symm.trans place')
      obtain rfl := Option.some.inj (source.symm.trans source')
      exact ih earlier'

/-- What comes later does not change where a descriptor stems from. -/
theorem concat (h : Stems as c k) (a : Acquisition) : Stems (as ++ [a]) c k := by
  have kept {b : Acquisition} {k : Nat} (place : as[k]? = some b) : (as ++ [a])[k]? = some b := by
    rw [List.getElem?_append_left (List.getElem?_eq_some_iff.mp place).1, place]
  induction h with
  | created creates =>
    obtain ⟨b, place, creates⟩ := creates
    exact .created ⟨b, kept place, creates⟩
  | passed place source _ ih => exact .passed (kept place) source ih

end Stems

end

/-! ## What a step gives -/

/-- The holder that a step adds to a stock, and the counter after it: either a descriptor is created
for the new holder, or that of an older one is passed on to it. -/
inductive Acquired (s : Stock) (a : Acquisition) (x : Holder) : Issuer → Prop where
  | created (creates : a.creates = true) (id : x.descriptor.id = s.issuer.next) :
      Acquired s a x ⟨s.issuer.next + 1⟩
  | passed {j : Nat} {y : Holder} (source : a.source? = some j) (place : s.holders[j]? = some y)
      (same : x.descriptor = a.amend y.descriptor) : Acquired s a x s.issuer

theorem Holder.descriptor_of_session? {x : Holder} {c : Session} (h : x.session? = some c) :
    x.descriptor = c.descriptor := by
  cases x with
  | caller d => cases h
  | connection c' =>
    cases h
    rfl

/-- Whatever is possible is done, if the holders are what the steps have given. -/
theorem Stock.exists_acquired {s : Stock} {as : List Acquisition} {a : Acquisition}
    (possible : a.possible as = true)
    (kinds : s.holders.map (·.session?.isSome) = as.map Acquisition.opens) :
    ∃ x i, s.acquire a = some ⟨i, s.holders ++ [x]⟩ ∧ x.session?.isSome = a.opens ∧
      Acquired s a x i := by
  have length : s.holders.length = as.length := by
    simpa only [List.length_map] using congrArg List.length kinds
  have held {k : Nat} (h : k < as.length) : ∃ y, s.holders[k]? = some y :=
    ⟨_, List.getElem?_eq_getElem (length ▸ h)⟩
  have connected {k : Nat} (h : as[k]?.any Acquisition.opens = true) :
      ∃ y c, s.holders[k]? = some y ∧ y.session? = some c := by
    obtain ⟨b, place, opens⟩ := (Option.any_eq_true _ _).mp h
    have kind := congrArg (·[k]?) kinds
    simp only [List.getElem?_map, place, Option.map_some, opens] at kind
    obtain ⟨y, hy, connection⟩ := Option.map_eq_some_iff.mp kind
    obtain ⟨c, hc⟩ := Option.isSome_iff_exists.mp connection
    exact ⟨y, c, hy, hc⟩
  cases a with
  | create | standard | connection => exact ⟨_, _, rfl, rfl, .created rfl rfl⟩
  | copy k =>
    obtain ⟨y, hy⟩ := held (of_decide_eq_true possible)
    exact ⟨_, _, acquire_copy hy, rfl, .passed rfl hy rfl⟩
  | fill k detail text =>
    obtain ⟨y, hy⟩ := held (of_decide_eq_true possible)
    exact ⟨_, _, acquire_fill hy detail text, rfl, .passed rfl hy rfl⟩
  | describe k d =>
    obtain ⟨hk, hd⟩ := Bool.and_eq_true_iff.mp possible
    obtain ⟨y, c, hy, hc⟩ := connected hk
    obtain ⟨z, hz⟩ := held (of_decide_eq_true hd)
    exact ⟨_, _, acquire_describe hy hc hz, rfl, .passed rfl hz rfl⟩
  | configure k settings =>
    obtain ⟨y, c, hy, hc⟩ := connected possible
    exact ⟨_, _, acquire_configure hy hc settings, rfl,
      .passed rfl hy (Holder.descriptor_of_session? hc).symm⟩
  | monitor k =>
    obtain ⟨y, c, hy, hc⟩ := connected possible
    exact ⟨_, _, acquire_monitor hy hc, rfl,
      .passed rfl hy (Holder.descriptor_of_session? hc).symm⟩

/-! ## Whole sequences -/

/-- What a sequence of steps leaves. Whatever has been passed on is as it was given away, and the
identifier of each descriptor is as far beyond the start of the counter as there were creations
before the one that it stems from. -/
structure Issued (start : Issuer) (as : List Acquisition) (s : Stock) : Prop where
  kinds : s.holders.map (·.session?.isSome) = as.map Acquisition.opens
  next : s.issuer.next = start.next + .ofNat (drawn as)
  stems : ∀ k x, s.holders[k]? = some x →
    ∃ c, Stems as c k ∧ x.descriptor.id = start.next + .ofNat (drawn (as.take c))
  passed : ∀ (k : Nat) (a : Acquisition) (j : Nat) (x : Holder), as[k]? = some a →
    a.source? = some j → s.holders[k]? = some x →
    ∃ y, s.holders[j]? = some y ∧ x.descriptor = a.amend y.descriptor

theorem getElem?_concat {α : Type} {as : List α} {a b : α} {k : Nat}
    (h : (as ++ [a])[k]? = some b) : as[k]? = some b ∨ k = as.length ∧ b = a := by
  rw [List.getElem?_append] at h
  split at h
  · exact .inl h
  · next le =>
    obtain ⟨hk, rfl⟩ := List.getElem?_eq_some_iff.mp h
    rw [List.length_singleton] at hk
    exact .inr ⟨by omega, List.getElem_singleton _⟩

namespace Issued

variable {start : Issuer} {as : List Acquisition} {a : Acquisition} {s : Stock}

theorem nil (start : Issuer) : Issued start [] ⟨start, []⟩ := by
  refine ⟨rfl, (UInt64.add_zero start.next).symm, ?_, ?_⟩
  · intro k x place
    cases place
  · intro k a j x _ _ place
    cases place

theorem length (h : Issued start as s) : s.holders.length = as.length := by
  simpa only [List.length_map] using congrArg List.length h.kinds

section

variable {x : Holder} {i : Issuer} (h : Issued start as s) (acquired : Acquired s a x i)

include h acquired

theorem next_concat : i.next = start.next + .ofNat (drawn (as ++ [a])) := by
  rw [drawn_concat]
  cases acquired with
  | created creates id =>
    rw [if_pos creates, UInt64.ofNat_add, ← UInt64.add_assoc, ← h.next]
    rfl
  | passed source place same =>
    rw [if_neg (Acquisition.not_creates source), Nat.add_zero, ← h.next]

theorem stems_concat {k : Nat} {y : Holder} (place : (s.holders ++ [x])[k]? = some y) :
    ∃ c, Stems (as ++ [a]) c k ∧
      y.descriptor.id = start.next + .ofNat (drawn ((as ++ [a]).take c)) := by
  have last : (as ++ [a])[as.length]? = some a := List.getElem?_concat_length
  -- Whom there was before stems from where it did, and as many were created before that.
  have old {j : Nat} {z : Holder} (hz : s.holders[j]? = some z) :
      ∃ c, Stems (as ++ [a]) c j ∧
        z.descriptor.id = start.next + .ofNat (drawn ((as ++ [a]).take c)) := by
    obtain ⟨c, stems, id⟩ := h.stems j z hz
    obtain ⟨b, hb, -⟩ := stems.createsAt
    refine ⟨c, stems.concat a, ?_⟩
    rw [id, List.take_append_of_le_length (Nat.le_of_lt (List.getElem?_eq_some_iff.mp hb).1)]
  rcases getElem?_concat place with place | ⟨rfl, rfl⟩
  · exact old place
  rw [h.length]
  cases acquired with
  | created creates id =>
    refine ⟨as.length, .created ⟨a, last, creates⟩, ?_⟩
    rw [id, h.next, List.take_left]
  | passed source given same =>
    obtain ⟨c, stems, id⟩ := old given
    refine ⟨c, .passed last source stems, ?_⟩
    rw [same, a.id_amend, id]

theorem passed_concat {k j : Nat} {b : Acquisition} {y : Holder}
    (step : (as ++ [a])[k]? = some b) (source : b.source? = some j)
    (place : (s.holders ++ [x])[k]? = some y) :
    ∃ z, (s.holders ++ [x])[j]? = some z ∧ y.descriptor = b.amend z.descriptor := by
  have older {z : Holder} (hz : s.holders[j]? = some z) : (s.holders ++ [x])[j]? = some z := by
    rw [List.getElem?_append_left (List.getElem?_eq_some_iff.mp hz).1, hz]
  rcases getElem?_concat place with place | ⟨rfl, rfl⟩
  · have hk : k < as.length := h.length ▸ (List.getElem?_eq_some_iff.mp place).1
    rw [List.getElem?_append_left hk] at step
    obtain ⟨z, hz, same⟩ := h.passed k b j y step source place
    exact ⟨z, older hz, same⟩
  · rw [h.length, List.getElem?_concat_length] at step
    obtain rfl := Option.some.inj step
    cases acquired with
    | created creates id => exact absurd creates (Acquisition.not_creates source)
    | passed source' given same =>
      obtain rfl := Option.some.inj (source.symm.trans source')
      exact ⟨_, older given, same⟩

theorem concat (opens : x.session?.isSome = a.opens) :
    Issued start (as ++ [a]) ⟨i, s.holders ++ [x]⟩ where
  kinds := by
    rw [List.map_append, List.map_append, h.kinds, List.map_singleton, List.map_singleton, opens]
  next := h.next_concat acquired
  stems _ _ place := h.stems_concat acquired place
  passed _ _ _ _ step source place := h.passed_concat acquired step source place

end

end Issued

/-- Nothing that is feasible fails. -/
theorem exists_issued {as : List Acquisition} (start : Issuer) (feasible : Feasible as) :
    ∃ s, (Stock.mk start []).acquireAll as = some s ∧ Issued start as s := by
  induction as using List.reverseRecOn with
  | nil => exact ⟨_, rfl, .nil start⟩
  | append_singleton as a ih =>
    obtain ⟨before, possible⟩ := feasible.of_concat
    obtain ⟨s, run, issued⟩ := ih before
    obtain ⟨x, i, step, opens, acquired⟩ := Stock.exists_acquired possible issued.kinds
    refine ⟨_, ?_, issued.concat acquired opens⟩
    rw [Stock.acquireAll_concat, run, Option.bind_some, step]

section

variable {start : Issuer} {as : List Acquisition} {s : Stock} {j k : Nat} {x y : Holder}

/-- The identifiers of creations count them. -/
theorem Issued.id_eq (h : Issued start as s) (creates : CreatesAt as k)
    (place : s.holders[k]? = some x) :
    x.descriptor.id = start.next + .ofNat (drawn (as.take k)) := by
  obtain ⟨c, stems, id⟩ := h.stems k x place
  obtain rfl := stems.unique (.created creates)
  exact id

/-- A counter of 64 bits does not come round to a number before it has given all others. -/
theorem add_ofNat_inj {m n : Nat} (a : UInt64) (hm : m < UInt64.size) (hn : n < UInt64.size) :
    a + .ofNat m = a + .ofNat n ↔ m = n := by
  rw [UInt64.add_right_inj, ← UInt64.toNat_inj, UInt64.toNat_ofNat_of_lt' hm,
    UInt64.toNat_ofNat_of_lt' hn]

theorem Issued.id_eq_iff (h : Issued start as s) (few : drawn as ≤ UInt64.size)
    (hx : s.holders[j]? = some x) (hy : s.holders[k]? = some y) :
    x.descriptor.id = y.descriptor.id ↔ ∃ c, Stems as c j ∧ Stems as c k := by
  obtain ⟨c, stems, id⟩ := h.stems j x hx
  obtain ⟨c', stems', id'⟩ := h.stems k y hy
  have least {c : Nat} (creates : CreatesAt as c) : drawn (as.take c) < UInt64.size :=
    Nat.lt_of_lt_of_le (drawn_take_lt_drawn creates) few
  rw [id, id', add_ofNat_inj _ (least stems.createsAt) (least stems'.createsAt),
    drawn_take_inj stems.createsAt stems'.createsAt]
  constructor
  · rintro rfl
    exact ⟨c, stems, stems'⟩
  · rintro ⟨d, hj, hk⟩
    rw [stems.unique hj, stems'.unique hk]

theorem Issued.id_of_successive (h : Issued start as s) (successive : Successive as j k)
    (hx : s.holders[j]? = some x) (hy : s.holders[k]? = some y) :
    y.descriptor.id = x.descriptor.id + 1 := by
  rw [h.id_eq successive.first hx, h.id_eq successive.second hy, successive.drawn_eq,
    UInt64.ofNat_add, ← UInt64.add_assoc]
  rfl

end

/-- Whatever the counter starts from, every sequence of steps goes through that refers to nothing
but what it has come by. Of the descriptors in its course, a connection's included, two have the
same identifier exactly if they stem from the same creation, as long as no more than `UInt64.size`
are created. The identifiers of successive creations are consecutive numbers unless the counter
wraps around between them. Each creation takes one, that of the descriptor which a connection is
opened with as well; that the connection has another one's descriptor later takes none. -/
theorem Stock.id_eq_iff_stems (start : Issuer) (as : List Acquisition) (feasible : Feasible as) :
    ∃ s, (Stock.mk start []).acquireAll as = some s ∧ s.holders.length = as.length ∧
      (drawn as ≤ UInt64.size →
        ∀ (j k : Nat) (x y : Holder), s.holders[j]? = some x → s.holders[k]? = some y →
        (x.descriptor.id = y.descriptor.id ↔ ∃ c, Stems as c j ∧ Stems as c k)) ∧
      (∀ (j k : Nat) (x y : Holder), Successive as j k →
        s.holders[j]? = some x → s.holders[k]? = some y →
        x.descriptor.id.toNat + 1 < UInt64.size →
        y.descriptor.id.toNat = x.descriptor.id.toNat + 1) ∧
      s.issuer.next = start.next + .ofNat (drawn as) ∧
      ∀ (k c d : Nat) (x : Holder), as[k]? = some (.describe c d) → s.holders[k]? = some x →
        ∃ y, s.holders[d]? = some y ∧ x.descriptor = y.descriptor := by
  obtain ⟨s, run, issued⟩ := exists_issued start feasible
  refine ⟨s, run, issued.length, ?_, ?_, issued.next, ?_⟩
  · intro few j k x y hx hy
    exact issued.id_eq_iff few hx hy
  · intro j k x y successive hx hy unwrapped
    rw [issued.id_of_successive successive hx hy, UInt64.toNat_add]
    exact Nat.mod_eq_of_lt unwrapped
  · intro k c d x step hx
    exact issued.passed k _ d x step rfl hx

/-- A caller opens a connection and describes it anew, creates a descriptor after that, and at last
copies the connection's. -/
def redescribed : List Acquisition :=
  [.create "rtsp", .fill 0 .url "rtsp://h/1", .connection .activeProducer, .describe 2 1, .standard,
    .fill 4 .userAgent "probe", .create "rtsp+udp", .copy 3]

theorem redescribed_successive : Successive redescribed 2 4 := by
  refine ⟨⟨_, rfl, rfl⟩, ⟨_, rfl, rfl⟩, by decide, ?_⟩
  intro i first second creates
  obtain rfl : i = 3 := by omega
  obtain ⟨a, place, creates⟩ := creates
  cases place
  cases creates

/-- The counter wraps around before the last creation. -/
theorem redescribed_id_eq_iff_stems :
    Feasible redescribed ∧ drawn redescribed ≤ UInt64.size ∧ Successive redescribed 2 4 ∧
    ∃ s, (Stock.mk ⟨18446744073709551613⟩ []).acquireAll redescribed = some s ∧
      ∃ first opened later copied, s.holders[0]? = some first ∧ s.holders[2]? = some opened ∧
        s.holders[4]? = some later ∧ s.holders[7]? = some copied ∧
        copied.descriptor.id = first.descriptor.id ∧
        copied.descriptor.id ≠ opened.descriptor.id ∧
        later.descriptor.id.toNat = opened.descriptor.id.toNat + 1 := by
  have feasible : Feasible redescribed := by decide
  have few : drawn redescribed ≤ UInt64.size := by decide
  have created : Stems redescribed 0 0 := .created ⟨_, rfl, rfl⟩
  have opened : Stems redescribed 2 2 := .created ⟨_, rfl, rfl⟩
  have copied : Stems redescribed 0 7 := .passed rfl rfl (.passed rfl rfl (.passed rfl rfl created))
  obtain ⟨s, run, -, same, consecutive, -⟩ :=
    Stock.id_eq_iff_stems ⟨18446744073709551613⟩ redescribed feasible
  obtain rfl := Option.some.inj run
  refine ⟨feasible, few, redescribed_successive, _, run, _, _, _, _, rfl, rfl, rfl, rfl, ?_, ?_, ?_⟩
  · exact (same few 7 0 _ _ rfl rfl).mpr ⟨0, copied, created⟩
  · intro equal
    obtain ⟨c, from_c, from_c'⟩ := (same few 7 2 _ _ rfl rfl).mp equal
    exact absurd ((copied.unique from_c).trans (from_c'.unique opened)) (by decide)
  · exact consecutive 2 4 _ _ redescribed_successive rfl rfl (by decide)

end RtspControl
