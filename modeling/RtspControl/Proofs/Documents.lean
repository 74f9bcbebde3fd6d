import RtspControl.Descriptor
import RtspControl.Media
import RtspControl.Proofs.Acceptance

/-!
# Documents that are read again

The documents of this library are written by `Value.render`, and settings are read by readers that
know nothing of it. Still every document is a text that these readers accept: it is one record,
whose fields are all passed over if none of them is wanted.

That is shown by the grammar, with which the readers agree. The written form of a string spells it,
however it has to be escaped (`spells_escaped`), that of a number is a number (`isNumber_toDigits`),
and that of a value of any depth is a value (`isValue_render`). A record whose fields are all
unknown stands for the default (`isRecord_unknown`). From these `Settings.documents_accepted`
follows for descriptors, media streams and codecs.
-/

namespace RtspControl.Json

/-! ## Strings and numbers -/

theorem hexValue?_hexDigit : ∀ n < 16, hexValue? (hexDigit n) = some n := by decide

/-- A control character that is written as four hex digits. -/
theorem hexUnit_of_lt {n : Nat} (h : n < 0x20) :
    HexUnit ['0', '0', hexDigit (n / 16), hexDigit (n % 16)] n := by
  have unit : HexUnit _ (((0 * 16 + 0) * 16 + n / 16) * 16 + n % 16) :=
    .mk (a := '0') (b := '0') rfl rfl (hexValue?_hexDigit (n / 16) (by omega))
      (hexValue?_hexDigit (n % 16) (by omega))
  have value : ((0 * 16 + 0) * 16 + n / 16) * 16 + n % 16 = n := by omega
  rwa [value] at unit

/-- No control character is a surrogate, so it is read whether pairs are wanted or not. -/
theorem codeSpelling_of_lt (paired : Bool) {c : Char} (h : c.toNat < 0x20) :
    CodeSpelling paired ['0', '0', hexDigit (c.toNat / 16), hexDigit (c.toNat % 16)] c := by
  have alone : isLowSurrogate c.toNat = false ∧ isHighSurrogate c.toNat = false := by
    simp only [isLowSurrogate, isHighSurrogate, Bool.and_eq_false_iff, decide_eq_false_iff_not]
    omega
  have code : CodeSpelling paired _ (Char.ofNat c.toNat) := .alone (hexUnit_of_lt h) fun _ => alone
  rwa [Char.ofNat_toNat] at code

theorem spelling_escaped (paired : Bool) (c : Char) : Spelling paired (escaped c) c := by
  by_cases quote : c = '"'
  · exact quote ▸ .letter rfl
  by_cases backslash : c = '\\'
  · exact backslash ▸ .letter rfl
  by_cases backspace : c = '\x08'
  · exact backspace ▸ .letter rfl
  by_cases formFeed : c = '\x0c'
  · exact formFeed ▸ .letter rfl
  by_cases newLine : c = '\n'
  · exact newLine ▸ .letter rfl
  by_cases carriageReturn : c = '\r'
  · exact carriageReturn ▸ .letter rfl
  by_cases tab : c = '\t'
  · exact tab ▸ .letter rfl
  simp only [escaped, quote, backslash, backspace, formFeed, newLine, carriageReturn, tab, if_false]
  by_cases control : c.toNat < 0x20
  · rw [if_pos control]
    exact .code (codeSpelling_of_lt paired control)
  · rw [if_neg control]
    exact .plain quote backslash (Nat.not_lt.mp control)

/-- A string is read as it was written. -/
theorem spells_escaped (paired : Bool) (cs : List Char) :
    Spells paired (cs.flatMap escaped) cs := by
  induction cs with
  | nil => exact .nil
  | cons c cs ih => exact .cons (spelling_escaped paired c) ih

theorem toDigits_head {n : Nat} (h : 0 < n) : (Nat.toDigits 10 n).head? ≠ some '0' := by
  induction n using Nat.strongRecOn with
  | _ n ih =>
    rw [Nat.toDigits_eq_if (by decide)]
    split
    · next small =>
      have digit : ∀ k < 10, 0 < k → k.digitChar ≠ '0' := by decide
      intro zero
      exact digit n small h (Option.some.inj zero)
    · next large =>
      rw [List.head?_append, Option.or_of_isSome (by simp [Nat.toDigits_ne_nil])]
      exact ih (n / 10) (by omega) (by omega)

/-- No number is written with a leading zero. -/
theorem isWhole_toDigits (n : Nat) : IsWhole (Nat.toDigits 10 n) := by
  refine ⟨⟨Nat.toDigits_ne_nil, fun c hc => ?_⟩, fun zero => ?_⟩
  · exact Nat.isDigit_of_mem_toDigits (by decide) (by decide) hc
  · rcases Nat.eq_zero_or_pos n with rfl | positive
    · rw [Nat.toDigits_zero]
    · exact absurd zero (toDigits_head positive)

theorem isNumber_toDigits (n : Nat) : ∃ x, IsNumber (Nat.toDigits 10 n) x := by
  have number := IsNumber.positive (.mk (isWhole_toDigits n) .none .none)
  rw [List.nil_append, List.append_nil] at number
  exact ⟨_, number⟩

/-! ## Values -/

theorem Joined.comma {vs : List (List Char)} {t : List Char} (v : List Char) (h : Joined vs t) :
    Joined (v :: vs) (v ++ ',' :: t) := .cons .nil .nil h

theorem renderItems_eq : (items : List Value) →
    ∃ t, renderItems items = t ++ [']'] ∧ Listed (items.map Value.render) t
  | [] => ⟨[], by rw [renderItems]; rfl, .inl ⟨rfl, .nil⟩⟩
  | [v] => ⟨v.render, by rw [renderItems], .inr (.last v.render)⟩
  | v :: w :: items => by
    obtain ⟨t, written, listed⟩ := renderItems_eq (w :: items)
    have joined := listed.resolve_left fun none => List.cons_ne_nil _ _ none.1
    refine ⟨v.render ++ ',' :: t, ?_, .inr (joined.comma v.render)⟩
    rw [renderItems, written, List.append_assoc, List.cons_append]

/-- A field of a record, as a member of an object. -/
def member (field : String × Value) : Member where
  key := field.1.toList
  label := quoted field.1.toList ++ [':']
  value := field.2.render

theorem renderFields_eq : (fields : List (String × Value)) →
    ∃ t, renderFields fields = t ++ ['}'] ∧ Listed ((fields.map member).map Member.text) t
  | [] => ⟨[], by rw [renderFields]; rfl, .inl ⟨rfl, .nil⟩⟩
  | [(k, v)] => by
    refine ⟨(member (k, v)).text, ?_, .inr (.last _)⟩
    rw [renderFields]
    simp only [member, Member.text, List.append_assoc, List.cons_append, List.nil_append]
  | (k, v) :: f :: fields => by
    obtain ⟨t, written, listed⟩ := renderFields_eq (f :: fields)
    have joined := listed.resolve_left fun none => List.cons_ne_nil _ _ none.1
    refine ⟨(member (k, v)).text ++ ',' :: t, ?_, .inr (joined.comma _)⟩
    rw [renderFields, written]
    simp only [member, Member.text, List.append_assoc, List.cons_append, List.nil_append]

theorem label_quoted (paired : Bool) (k : List Char) : Label paired (quoted k ++ [':']) k := by
  rw [quoted, List.cons_append, List.append_assoc]
  exact .mk (spells_escaped paired k) .nil .nil

mutual

/-- The written form of a value, of any depth, is a value. -/
theorem isValue_render : (v : Value) → IsValue v.render
  | .text s => by
    rw [Value.render, quoted]
    exact .scalar (.text (spells_escaped false s.toList))
  | .number n => by
    obtain ⟨x, number⟩ := isNumber_toDigits n
    rw [Value.render]
    exact .scalar (.number number)
  | .list items => by
    obtain ⟨t, written, listed⟩ := renderItems_eq items
    rw [Value.render, written]
    exact .list (isValue_items items) listed
  | .record fields => by
    obtain ⟨t, written, listed⟩ := renderFields_eq fields
    have keyed := keyed_fields fields
    rw [Value.render, written]
    exact .record (fun m hm => (keyed m hm).label.isLabel) (fun m hm => (keyed m hm).value) listed

theorem isValue_items : (items : List Value) → ∀ v ∈ items.map Value.render, IsValue v
  | [] => List.forall_mem_nil _
  | v :: items => List.forall_mem_cons.mpr ⟨isValue_render v, isValue_items items⟩

theorem keyed_fields : (fields : List (String × Value)) → ∀ m ∈ fields.map member, m.Keyed
  | [] => List.forall_mem_nil _
  | (k, v) :: fields =>
    List.forall_mem_cons.mpr ⟨⟨label_quoted true k.toList, isValue_render v⟩, keyed_fields fields⟩

end

/-! ## Records of unknown fields -/

theorem valuesOf_unknown {wanted : List Char} {fs : List (String × Value)}
    (unknown : ∀ f ∈ fs, f.1.toList ≠ wanted) : valuesOf wanted (fs.map member) = [] := by
  rw [valuesOf, List.map_eq_nil_iff, List.filter_eq_nil_iff]
  intro m hm isWanted
  obtain ⟨f, hf, rfl⟩ := List.mem_map.mp hm
  exact unknown f hf (of_decide_eq_true isWanted)

/-- A record whose fields are all unknown stands for the default. -/
theorem isRecord_unknown {α : Type} {wanted : List Char} (default : α)
    (Field : List Char → α → Prop) {fs : List (String × Value)}
    (unknown : ∀ f ∈ fs, f.1.toList ≠ wanted) :
    IsRecord wanted default Field (Value.record fs).render default := by
  obtain ⟨t, written, listed⟩ := renderFields_eq fs
  rw [Value.render, written]
  refine .object (keyed_fields fs) listed ?_
  rw [valuesOf_unknown unknown]
  exact .absent

theorem mem_optional {key : String} {s : Option String} {f : String × Value}
    (h : f ∈ optional key s) : f.1 = key := by
  cases s with
  | none => cases h
  | some t =>
    obtain rfl := List.mem_singleton.mp h
    rfl

end RtspControl.Json

namespace RtspControl

/-! ## Documents as settings -/

/-- Without settings silence is not limited. -/
theorem Settings.backchannelTimeout_default : ({} : Settings).backchannelTimeout = .zero := by
  decide +kernel

/-- A record that says nothing about the backchannel: any settings are then left as they are by
default, as long as the text goes on with blanks only. -/
theorem Settings.ofText_unknown {fs : List (String × Json.Value)}
    (unknown : ∀ f ∈ fs, f.1 ≠ "backchannel") (more : String) :
    Settings.ofText ((Json.Value.record fs).toText ++ more) =
      if Json.skipBlanks more.toList = [] then .ok {} else .error (.unreadable .malformed) := by
  have unwanted : ∀ f ∈ fs, f.1.toList ≠ "backchannel".toList :=
    fun f hf same => unknown f hf (String.toList_inj.mp same)
  have read : Json.Gives (Json.record _ _ backchannel
      ((Json.Value.record fs).render ++ more.toList)) Binary64.zero more.toList :=
    Json.gives_record reads_backchannel (Json.isRecord_unknown _ _ unwanted) Json.Blank.nil
  have text : ((Json.Value.record fs).toText ++ more).toList =
      (Json.Value.record fs).render ++ more.toList := by
    rw [String.toList_append, Json.Value.toText, String.toList_ofList]
  rw [Settings.ofText, Settings.read, text, Json.whole_of_gives read]
  by_cases blank : Json.skipBlanks more.toList = []
  · rw [if_pos blank, if_pos blank]
    rfl
  · rw [if_neg blank, if_neg blank]
    rfl

/-- A record without a field for the backchannel. -/
def Json.Value.Unrelated (v : Json.Value) : Prop :=
  ∃ fs, v = .record fs ∧ ∀ f ∈ fs, f.1 ≠ "backchannel"

theorem Codec.unrelated_toJson (c : Codec) : c.toJson.Unrelated := by
  refine ⟨_, rfl, fun f hf => ?_⟩
  rcases List.mem_append.mp hf with fixed | given
  · simp only [List.mem_cons, List.not_mem_nil, or_false] at fixed
    rcases fixed with rfl | rfl | rfl | rfl <;> simp
  · rw [Json.mem_optional given]
    decide

theorem Media.unrelated_toJson (m : Media) : m.toJson.Unrelated := by
  refine ⟨_, rfl, fun f hf => ?_⟩
  simp only [List.mem_cons, List.not_mem_nil, or_false] at hf
  rcases hf with rfl | rfl | rfl | rfl <;> simp

theorem Descriptor.unrelated_toJson (d : Descriptor) : d.toJson.Unrelated := by
  refine ⟨_, rfl, fun f hf => ?_⟩
  simp only [List.mem_append, List.mem_cons, List.not_mem_nil, or_false] at hf
  rcases hf with ((((fixed | given) | given) | given) | given) | given
  · rcases fixed with rfl | rfl | rfl <;> simp
  all_goals
    rw [Json.mem_optional given]
    decide

/-- The reader of settings takes a document as a whole, finds nothing in it, and leaves the settings
as they are by default. As a whole: blanks may follow the document, and nothing else. -/
structure Json.Value.PassedOver (doc : Json.Value) : Prop where
  unrelated : doc.Unrelated
  accepted : Settings.ofText doc.toText = .ok {}
  followed : ∀ more : String, Settings.ofText (doc.toText ++ more) =
    if Json.skipBlanks more.toList = [] then .ok {} else .error (.unreadable .malformed)

theorem Json.Value.Unrelated.passedOver {doc : Json.Value} (h : doc.Unrelated) :
    doc.PassedOver := by
  obtain ⟨fs, rfl, unknown⟩ := h
  have followed := Settings.ofText_unknown unknown
  refine ⟨⟨fs, rfl, unknown⟩, ?_, followed⟩
  have alone := followed ""
  rw [String.append_empty] at alone
  exact alone

/-- Whatever a descriptor, a media stream or a codec has in its fields, its document is one record
that the reader of settings passes over: the settings are the default ones, without a limit on
silence. -/
theorem Settings.documents_accepted (d : Descriptor) (m : Media) (c : Codec) :
    d.toJson.PassedOver ∧ m.toJson.PassedOver ∧ c.toJson.PassedOver ∧
      ({} : Settings).backchannelTimeout = .zero :=
  ⟨d.unrelated_toJson.passedOver, m.unrelated_toJson.passedOver, c.unrelated_toJson.passedOver,
    backchannelTimeout_default⟩

end RtspControl
