import RtspControl.Proofs.Documents

/-!
# What a text determines

The written form of a value has neither lengths nor types in it, and a string may hold any
character. Still nothing else has the same form: a value can be told from a text that begins with it
(`splits_render`). A string ends at the first quote that is no escape, because a reader of strings
stops there; a number ends before the first character that is no digit; and a list or a record ends
where an entry is not followed by a comma. Which of these it is shows in the first character.

So two texts are the same only if the values are (`Value.toText_inj`), and documents are the same
only if they agree on every field. A field that may be left out is told from the one after it by
its key (`optional_split`). `Media.toText_eq_iff` is the result for media streams and their codecs.
-/

namespace RtspControl.Json

section

variable {r r' t : List Char}

/-! ## Strings and numbers -/

theorem gives_unique {α : Type} {cs : List Char} {result : Except Defect (α × Rest cs)} {a a' : α}
    (h : Gives result a r) (h' : Gives result a' r') : a = a' ∧ r = r' := by
  obtain ⟨_, read⟩ := h
  obtain ⟨_, read'⟩ := h'
  cases read.symm.trans read'
  exact ⟨rfl, rfl⟩

theorem quoted_split {cs cs' : List Char} (h : quoted cs ++ r = quoted cs' ++ r') :
    cs = cs' ∧ r = r' := by
  have inner : cs.flatMap escaped ++ '"' :: r = cs'.flatMap escaped ++ '"' :: r' := by
    simpa only [quoted, List.cons_append, List.append_assoc, List.nil_append, List.cons.injEq,
      true_and] using h
  have read := (spells_escaped true cs).gives r
  rw [inner] at read
  exact gives_unique read ((spells_escaped true cs').gives r')

theorem toDigits_injective {n n' : Nat} (h : Nat.toDigits 10 n = Nat.toDigits 10 n') : n = n' :=
  calc n = Nat.ofDigitChars 10 (Nat.toDigits 10 n) 0 := Nat.ofDigitChars_ten_toDigits.symm
    _ = Nat.ofDigitChars 10 (Nat.toDigits 10 n') 0 := by rw [h]
    _ = n' := Nat.ofDigitChars_ten_toDigits

theorem toDigits_split {n n' : Nat} (ended : NoDigit r) (ended' : NoDigit r')
    (h : Nat.toDigits 10 n ++ r = Nat.toDigits 10 n' ++ r') : n = n' ∧ r = r' := by
  have read := (isWhole_toDigits n).1.gives .truncated ended
  rw [h] at read
  obtain ⟨digits, rest⟩ := gives_unique read ((isWhole_toDigits n').1.gives .truncated ended')
  exact ⟨toDigits_injective digits, rest⟩

/-! ## The first character -/

inductive Kind where
  | text
  | number
  | list
  | record
  deriving DecidableEq, Repr

def Value.kind : Value → Kind
  | .text _ => .text
  | .number _ => .number
  | .list _ => .list
  | .record _ => .record

/-- The kind of the values that begin with this character. -/
def kindOf (c : Char) : Kind :=
  if c = '"' then .text else if c = '[' then .list else if c = '{' then .record else .number

theorem exists_first (v : Value) : ∃ c t, v.render = c :: t ∧ kindOf c = v.kind ∧ c ≠ ']' := by
  cases v with
  | text s => exact ⟨'"', _, by rw [Value.render, quoted], rfl, by decide⟩
  | list items => exact ⟨'[', _, by rw [Value.render], rfl, by decide⟩
  | record fields => exact ⟨'{', _, by rw [Value.render], rfl, by decide⟩
  | number n =>
    obtain ⟨nonempty, digits⟩ := (isWhole_toDigits n).1
    obtain ⟨c, t, written⟩ := List.exists_cons_of_ne_nil nonempty
    have digit : c.isDigit = true := digits c (written ▸ List.mem_cons_self)
    refine ⟨c, t, by rw [Value.render, written], ?_, ne_of_isDigit digit rfl⟩
    unfold kindOf
    rw [if_neg (ne_of_isDigit digit rfl), if_neg (ne_of_isDigit digit rfl),
      if_neg (ne_of_isDigit digit rfl)]
    rfl

theorem kind_eq {v w : Value} (h : v.render ++ r = w.render ++ r') : v.kind = w.kind := by
  obtain ⟨c, t, written, kind, -⟩ := exists_first v
  obtain ⟨c', t', written', kind', -⟩ := exists_first w
  rw [written, written'] at h
  obtain ⟨rfl, -⟩ := List.cons.inj h
  exact kind.symm.trans kind'

theorem noDigit_cons {c : Char} (h : c.isDigit = false) : NoDigit (c :: t) := by
  rintro _ ⟨⟩
  exact h

end

/-! ## Entries -/

/-- The written form of an entry is not the beginning of another one, up to digits that come after
it. -/
def Splits {α : Type} (write : α → List Char) (a : α) : Prop :=
  ∀ (b : α) (r r' : List Char), NoDigit r → NoDigit r' → write a ++ r = write b ++ r' →
    a = b ∧ r = r'

/-- What comes after an entry: the others behind a comma each, and the closing bracket. -/
def following (close : Char) : List (List Char) → List Char
  | [] => [close]
  | e :: es => ',' :: (e ++ following close es)

def closed (close : Char) : List (List Char) → List Char
  | [] => [close]
  | e :: es => e ++ following close es

theorem renderItems_eq_closed : (items : List Value) →
    renderItems items = closed ']' (items.map Value.render)
  | [] => by rw [renderItems]; rfl
  | [v] => by rw [renderItems]; rfl
  | v :: w :: items => by
    rw [renderItems, renderItems_eq_closed (w :: items)]
    rfl

theorem renderFields_eq_closed : (fields : List (String × Value)) →
    renderFields fields = closed '}' (fields.map fun f => (member f).text)
  | [] => by rw [renderFields]; rfl
  | [(k, v)] => by
    rw [renderFields]
    simp only [member, Member.text, List.map_cons, List.map_nil, closed, following,
      List.append_assoc, List.cons_append, List.nil_append]
  | (k, v) :: f :: fields => by
    rw [renderFields, renderFields_eq_closed (f :: fields)]
    simp only [member, Member.text, List.map_cons, closed, following, List.append_assoc,
      List.cons_append, List.nil_append]

section

variable {α : Type} {write : α → List Char} {close : Char}

theorem noDigit_following (mark : close.isDigit = false) (es : List (List Char)) (r : List Char) :
    NoDigit (following close es ++ r) := by
  cases es with
  | nil => exact noDigit_cons mark
  | cons e es => exact noDigit_cons rfl

theorem following_split (mark : close.isDigit = false) (noComma : close ≠ ',') {as bs : List α}
    {r r' : List Char} (splits : ∀ a ∈ as, Splits write a)
    (h : following close (as.map write) ++ r = following close (bs.map write) ++ r') :
    as = bs ∧ r = r' := by
  induction as generalizing bs with
  | nil =>
    cases bs with
    | nil => exact ⟨rfl, (List.cons.inj h).2⟩
    | cons b bs => exact absurd (List.cons.inj h).1 noComma
  | cons a as ih =>
    cases bs with
    | nil => exact absurd (List.cons.inj h).1.symm noComma
    | cons b bs =>
      obtain ⟨head, tail⟩ := List.forall_mem_cons.mp splits
      have entries : write a ++ (following close (as.map write) ++ r) =
          write b ++ (following close (bs.map write) ++ r') := by
        rw [← List.append_assoc, ← List.append_assoc]
        exact (List.cons.inj h).2
      obtain ⟨rfl, later⟩ :=
        head _ _ _ (noDigit_following mark _ r) (noDigit_following mark _ r') entries
      obtain ⟨rfl, rest⟩ := ih tail later
      exact ⟨rfl, rest⟩

/-- Entries that can be told from what comes after them can be told together, if none of them looks
like the closing bracket. -/
theorem closed_split (mark : close.isDigit = false) (noComma : close ≠ ',') {as bs : List α}
    {r r' : List Char} (first : ∀ a, ∃ c t, write a = c :: t ∧ c ≠ close)
    (splits : ∀ a ∈ as, Splits write a)
    (h : closed close (as.map write) ++ r = closed close (bs.map write) ++ r') :
    as = bs ∧ r = r' := by
  have opens (a : α) (t r s : List Char) : write a ++ t ++ r ≠ close :: s := by
    obtain ⟨c, _, written, other⟩ := first a
    rw [written]
    exact fun same => other (List.cons.inj same).1
  cases as with
  | nil =>
    cases bs with
    | nil => exact ⟨rfl, (List.cons.inj h).2⟩
    | cons b bs => exact absurd h.symm (opens b _ r' _)
  | cons a as =>
    cases bs with
    | nil => exact absurd h (opens a _ r _)
    | cons b bs =>
      -- With a comma before them these are the entries after another one.
      have commas : following close ((a :: as).map write) ++ r =
          following close ((b :: bs).map write) ++ r' := congrArg (',' :: ·) h
      exact following_split mark noComma splits commas

end

/-! ## Values -/

theorem splits_member {f : String × Value} (h : Splits Value.render f.2) :
    Splits (fun f => (member f).text) f := by
  intro g r r' ended ended' same
  simp only [member, Member.text, List.append_assoc, List.cons_append, List.nil_append] at same
  obtain ⟨key, later⟩ := quoted_split same
  obtain ⟨value, rest⟩ := h _ _ _ ended ended' (List.cons.inj later).2
  exact ⟨Prod.ext (String.toList_inj.mp key) value, rest⟩

mutual

/-- What comes after a value tells nothing about it, as long as it does not go on with digits. -/
theorem splits_render : (v : Value) → Splits Value.render v
  | .text s => by
    intro w r r' _ _ same
    cases w with
    | text s' =>
      rw [Value.render, Value.render] at same
      obtain ⟨chars, rest⟩ := quoted_split same
      exact ⟨congrArg Value.text (String.toList_inj.mp chars), rest⟩
    | number | list | record => cases kind_eq same
  | .number n => by
    intro w r r' ended ended' same
    cases w with
    | number n' =>
      rw [Value.render, Value.render] at same
      obtain ⟨rfl, rest⟩ := toDigits_split ended ended' same
      exact ⟨rfl, rest⟩
    | text | list | record => cases kind_eq same
  | .list items => by
    intro w r r' _ _ same
    cases w with
    | list items' =>
      have first (v : Value) : ∃ c t, v.render = c :: t ∧ c ≠ ']' := by
        obtain ⟨c, t, written, -, other⟩ := exists_first v
        exact ⟨c, t, written, other⟩
      rw [Value.render, Value.render, renderItems_eq_closed, renderItems_eq_closed] at same
      obtain ⟨rfl, rest⟩ := closed_split rfl (by decide) first (splits_items items)
        (List.cons.inj same).2
      exact ⟨rfl, rest⟩
    | text | number | record => cases kind_eq same
  | .record fields => by
    intro w r r' _ _ same
    cases w with
    | record fields' =>
      have first (f : String × Value) : ∃ c t, (member f).text = c :: t ∧ c ≠ '}' :=
        ⟨'"', _, rfl, by decide⟩
      rw [Value.render, Value.render, renderFields_eq_closed, renderFields_eq_closed] at same
      obtain ⟨rfl, rest⟩ := closed_split rfl (by decide) first (splits_fields fields)
        (List.cons.inj same).2
      exact ⟨rfl, rest⟩
    | text | number | list => cases kind_eq same

theorem splits_items : (items : List Value) → ∀ v ∈ items, Splits Value.render v
  | [] => List.forall_mem_nil _
  | v :: items => List.forall_mem_cons.mpr ⟨splits_render v, splits_items items⟩

theorem splits_fields : (fields : List (String × Value)) →
    ∀ f ∈ fields, Splits (fun f => (member f).text) f
  | [] => List.forall_mem_nil _
  | (_, v) :: fields =>
    List.forall_mem_cons.mpr ⟨splits_member (splits_render v), splits_fields fields⟩

end

/-- No two values are the same text. -/
theorem Value.toText_inj {v w : Value} : v.toText = w.toText ↔ v = w := by
  constructor
  · intro same
    have ended : NoDigit [] := fun _ none => nomatch none
    have written : v.render ++ [] = w.render ++ [] :=
      congrArg (· ++ []) (String.ofList_injective same)
    exact (splits_render v w [] [] ended ended written).1
  · exact congrArg Value.toText

/-! ## Fields that may be left out -/

/-- A field that is left out is told from an empty one, and from those after it by its key. -/
theorem optional_split {key : String} {s s' : Option String} {fs fs' : List (String × Value)}
    (unlike : ∀ f ∈ fs, f.1 ≠ key) (unlike' : ∀ f ∈ fs', f.1 ≠ key)
    (same : optional key s ++ fs = optional key s' ++ fs') : s = s' ∧ fs = fs' := by
  cases s with
  | none =>
    cases s' with
    | none => exact ⟨rfl, same⟩
    | some t' =>
      obtain rfl : fs = (key, .text t') :: fs' := same
      exact absurd rfl (unlike _ List.mem_cons_self)
  | some t =>
    cases s' with
    | none =>
      obtain rfl : (key, .text t) :: fs = fs' := same
      exact absurd rfl (unlike' _ List.mem_cons_self)
    | some t' =>
      obtain ⟨field, rest⟩ := List.cons.inj same
      obtain rfl : t = t' := Value.text.inj (Prod.mk.inj field).2
      exact ⟨rfl, rest⟩

/-- Whichever of some fields are left out, it shows in those that are left, as no two of the keys
are the same. -/
theorem optionals_inj {fs fs' : List (String × Option String)}
    (keys : fs.map Prod.fst = fs'.map Prod.fst) (distinct : (fs.map Prod.fst).Nodup)
    (same : fs.flatMap (fun f => optional f.1 f.2) = fs'.flatMap fun f => optional f.1 f.2) :
    fs = fs' := by
  have unlike {key : String} {fs : List (String × Option String)} (new : key ∉ fs.map Prod.fst) :
      ∀ f ∈ fs.flatMap (fun f => optional f.1 f.2), f.1 ≠ key := by
    rintro f hf rfl
    obtain ⟨g, hg, given⟩ := List.mem_flatMap.mp hf
    exact new (List.mem_map.mpr ⟨g, hg, (mem_optional given).symm⟩)
  induction fs generalizing fs' with
  | nil => exact (List.map_eq_nil_iff.mp keys.symm).symm
  | cons f fs ih =>
    cases fs' with
    | nil => cases keys
    | cons f' fs' =>
      obtain ⟨key, keys⟩ := List.cons.inj keys
      obtain ⟨new, distinct⟩ := List.nodup_cons.mp distinct
      rw [List.flatMap_cons, List.flatMap_cons, ← key] at same
      obtain ⟨value, rest⟩ := optional_split (unlike new) (unlike (keys ▸ new)) same
      rw [Prod.ext key value, ih keys distinct rest]

theorem optional_inj {key : String} {s s' : Option String} :
    optional key s = optional key s' ↔ s = s' := by
  constructor
  · intro same
    exact (optional_split (List.forall_mem_nil _) (List.forall_mem_nil _)
      (congrArg (· ++ []) same)).1
  · exact congrArg (optional key)

end RtspControl.Json

namespace RtspControl

/-! ## Documents -/

theorem Direction.keyword_injective : Function.Injective Direction.keyword := by
  intro d e same
  cases d <;> cases e <;> first | rfl | exact absurd same (by decide)

theorem Codec.toJson_injective : Function.Injective Codec.toJson := by
  rintro ⟨name, rate, channels, type, fmtp⟩ ⟨name', rate', channels', type', fmtp'⟩ same
  simp only [toJson, List.cons_append, List.nil_append, Json.Value.record.injEq, List.cons.injEq,
    Prod.mk.injEq, true_and, Json.Value.text.injEq, Json.Value.number.injEq, UInt32.toNat_inj,
    UInt16.toNat_inj, UInt8.toNat_inj, Json.optional_inj] at same
  obtain ⟨rfl, rfl, rfl, rfl, rfl⟩ := same
  rfl

theorem Media.toJson_injective : Function.Injective Media.toJson := by
  rintro ⟨kind, direction, codecs, control⟩ ⟨kind', direction', codecs', control'⟩ same
  simp only [toJson, Json.Value.record.injEq, List.cons.injEq, Prod.mk.injEq, true_and,
    Json.Value.text.injEq, Json.Value.list.injEq, and_true,
    Direction.keyword_injective.eq_iff,
    (List.map_injective_iff.mpr Codec.toJson_injective).eq_iff] at same
  obtain ⟨rfl, rfl, rfl, rfl⟩ := same
  rfl

/-- The fields of a descriptor that may be left out. -/
def Descriptor.optionals (d : Descriptor) : List (String × Option String) :=
  [("remote_addr", d.remoteAddr), ("source", d.source), ("url", d.url),
    ("user_agent", d.userAgent), ("sdp", d.sdp)]

theorem Descriptor.toJson_eq (d : Descriptor) : d.toJson =
    .record (("id", .number d.id.toNat) :: ("format_name", .text d.formatName) ::
      ("protocol", .text d.protocol) ::
      d.optionals.flatMap fun f => Json.optional f.1 f.2) := by
  simp only [toJson, optionals, List.flatMap_cons, List.flatMap_nil, List.append_nil,
    List.append_assoc, List.cons_append, List.nil_append]

theorem Descriptor.map_fst_optionals (d : Descriptor) :
    d.optionals.map Prod.fst = ["remote_addr", "source", "url", "user_agent", "sdp"] := rfl

theorem Descriptor.toJson_injective : Function.Injective Descriptor.toJson := by
  intro d e same
  rw [toJson_eq, toJson_eq] at same
  obtain ⟨id, same⟩ := List.cons.inj (Json.Value.record.inj same)
  obtain ⟨format, same⟩ := List.cons.inj same
  obtain ⟨protocol, given⟩ := List.cons.inj same
  have keys : d.optionals.map Prod.fst = e.optionals.map Prod.fst := rfl
  have distinct : (d.optionals.map Prod.fst).Nodup := by
    rw [map_fst_optionals]
    decide
  have optionals := Json.optionals_inj keys distinct given
  cases d
  cases e
  simp only [Descriptor.optionals, List.cons.injEq, Prod.mk.injEq, true_and, and_true]
    at optionals
  simp only [Prod.mk.injEq, true_and, Json.Value.number.injEq, Json.Value.text.injEq,
    UInt64.toNat_inj] at id format protocol
  obtain ⟨rfl, rfl, rfl, rfl, rfl⟩ := optionals
  obtain rfl := id
  obtain rfl := format
  obtain rfl := protocol
  rfl

/-- The documents of two media streams, or of two codecs, are the same text only if these agree in
every field, whatever is in them. -/
theorem Media.toText_eq_iff :
    (∀ m n : Media, m.toJson.toText = n.toJson.toText ↔
      m.kind = n.kind ∧ m.direction = n.direction ∧ m.control = n.control ∧ m.codecs = n.codecs) ∧
    ∀ c d : Codec, c.toJson.toText = d.toJson.toText ↔ c = d := by
  constructor
  · intro m n
    rw [Json.Value.toText_inj, toJson_injective.eq_iff]
    constructor
    · rintro rfl
      exact ⟨rfl, rfl, rfl, rfl⟩
    · rcases m with ⟨_, _, _, _⟩
      rcases n with ⟨_, _, _, _⟩
      rintro ⟨rfl, rfl, rfl, rfl⟩
      rfl
  · intro c d
    rw [Json.Value.toText_inj, Codec.toJson_injective.eq_iff]

end RtspControl
