import GraphGate.Query.Token
import GraphGate.TypeRef

/-! A text and the type that it stands for say the same: the type is written as the text again, and
a type that is made of a name is read back from how it is written. -/
namespace GraphGate

namespace Query.Token

/-- A name as queries and schemas write it: letters, digits and underscores, with no digit in
front. -/
def IsName (name : String) : Prop :=
  ∃ first rest, name.toList = first :: rest ∧ isNameStart first = true ∧
    ∀ c ∈ rest, isNameChar c = true

theorem isNameChar_of_isNameStart {c : Char} (h : isNameStart c = true) : isNameChar c = true := by
  rw [isNameStart, Bool.or_eq_true] at h
  rw [isNameChar, Bool.or_eq_true]
  exact h.imp_left fun ha => by rw [Char.isAlphanum, ha, Bool.true_or]

theorem IsName.isNameChar {name : String} (h : IsName name) {c : Char} (hc : c ∈ name.toList) :
    isNameChar c = true := by
  obtain ⟨first, rest, hn, hf, hr⟩ := h
  rw [hn] at hc
  rcases List.mem_cons.mp hc with rfl | hm
  · exact isNameChar_of_isNameStart hf
  · exact hr c hm

end Query.Token

namespace TypeRef

variable {cs name inner : List Char} {nullable : Bool} {t : TypeRef}

/-- What stands behind a type: an exclamation mark, unless null is one of its values. -/
def mark (nullable : Bool) : List Char := if nullable then [] else ['!']

/-- The text in front of a mark; where no mark follows, it does not end with one either. -/
def Unmarked (cs : List Char) (nullable : Bool) : Prop := nullable = true → cs.getLast? ≠ some '!'

/-- A text says a type: with one mark taken off its end it is what says the element, in brackets,
or else a name, which opens no bracket. -/
inductive Spells : List Char → TypeRef → Prop
  | named {name : List Char} {nullable : Bool} (hb : name.head? ≠ some '[')
    (hm : Unmarked name nullable) :
    Spells (name ++ mark nullable) (.named (String.ofList name) nullable)
  | list {inner : List Char} {element : TypeRef} (nullable : Bool) (h : Spells inner element) :
    Spells (['['] ++ inner ++ [']'] ++ mark nullable) (.list element nullable)

/-- On some level, the outermost or one inside of brackets, a text opens a bracket that its end does
not close. -/
inductive Unclosed : List Char → Prop
  | here {inner : List Char} {nullable : Bool} (hb : inner.getLast? ≠ some ']')
    (hm : Unmarked ('[' :: inner) nullable) : Unclosed ('[' :: inner ++ mark nullable)
  | inside {inner : List Char} (nullable : Bool) (h : Unclosed inner) :
    Unclosed (['['] ++ inner ++ [']'] ++ mark nullable)

theorem splitMark_append_mark (h : Unmarked cs nullable) :
    splitMark (cs ++ mark nullable) = (cs, nullable) := by
  cases nullable with
  | false => simp [splitMark, mark]
  | true => simp [splitMark, mark, h rfl]

theorem exists_append_mark (cs : List Char) :
    ∃ rest nullable, cs = rest ++ mark nullable ∧ Unmarked rest nullable := by
  by_cases h : cs.getLast? = some '!'
  · obtain ⟨rest, rfl⟩ := List.getLast?_eq_some_iff.mp h
    exact ⟨rest, false, rfl, nofun⟩
  · exact ⟨cs, true, (List.append_nil cs).symm, fun _ => h⟩

theorem unmarked_brackets : Unmarked (['['] ++ inner ++ [']']) nullable := by
  intro _
  rw [List.getLast?_concat]
  decide

theorem parse?_named (hb : name.head? ≠ some '[') (hm : Unmarked name nullable) :
    parse? (name ++ mark nullable) = some (.named (String.ofList name) nullable) := by
  rw [parse?]
  split
  next hs =>
    cases (splitMark_append_mark hm).symm.trans hs
    exact absurd rfl hb
  next hs =>
    cases (splitMark_append_mark hm).symm.trans hs
    rfl

theorem parse?_opened (hm : Unmarked ('[' :: inner) nullable) :
    parse? ('[' :: inner ++ mark nullable) =
      if inner.getLast? = some ']' then (parse? inner.dropLast).map (.list · nullable)
      else none := by
  rw [parse?]
  split
  next hs =>
    cases (splitMark_append_mark hm).symm.trans hs
    rfl
  next hn hs =>
    cases (splitMark_append_mark hm).symm.trans hs
    exact absurd rfl (hn _)

theorem parse?_brackets : parse? (['['] ++ inner ++ [']'] ++ mark nullable) =
    (parse? inner).map (.list · nullable) := by
  have hm : Unmarked ('[' :: (inner ++ [']'])) nullable := unmarked_brackets
  have h := parse?_opened hm
  rwa [List.getLast?_concat, if_pos rfl, List.dropLast_concat] at h

theorem parse?_of_spells (h : Spells cs t) : parse? cs = some t := by
  induction h with
  | named hb hm => exact parse?_named hb hm
  | list _ _ ih =>
    rw [parse?_brackets, ih]
    rfl

theorem parse?_of_unclosed (h : Unclosed cs) : parse? cs = none := by
  induction h with
  | here hb hm => rw [parse?_opened hm, if_neg hb]
  | inside _ _ ih =>
    rw [parse?_brackets, ih]
    rfl

/-- Induction on the length: what stands inside of brackets is shorter than the text. -/
theorem spells_or_unclosed (cs : List Char) : (∃ t, Spells cs t) ∨ Unclosed cs := by
  obtain ⟨rest, nullable, rfl, hm⟩ := exists_append_mark cs
  by_cases hb : rest.head? = some '['
  · obtain ⟨opened, rfl⟩ := List.head?_eq_some_iff.mp hb
    by_cases hc : opened.getLast? = some ']'
    · obtain ⟨inner, rfl⟩ := List.getLast?_eq_some_iff.mp hc
      rcases spells_or_unclosed inner with ⟨element, h⟩ | h
      · exact .inl ⟨.list element nullable, .list nullable h⟩
      · exact .inr (.inside nullable h)
    · exact .inr (.here hc hm)
  · exact .inl ⟨_, .named hb hm⟩
termination_by cs.length

theorem parse?_eq_some_iff : parse? cs = some t ↔ Spells cs t := by
  refine ⟨fun h => ?_, parse?_of_spells⟩
  rcases spells_or_unclosed cs with ⟨u, hs⟩ | hu
  · rw [parse?_of_spells hs] at h
    cases h
    exact hs
  · rw [parse?_of_unclosed hu] at h
    cases h

theorem parse?_eq_none_iff : parse? cs = none ↔ Unclosed cs := by
  refine ⟨fun h => (spells_or_unclosed cs).resolve_left ?_, parse?_of_unclosed⟩
  rintro ⟨t, hs⟩
  rw [parse?_of_spells hs] at h
  cases h

theorem chars_of_spells (h : Spells cs t) : t.chars = cs := by
  induction h with
  | named => exact congrArg (· ++ mark _) String.toList_ofList
  | list nullable _ ih => exact congrArg (['['] ++ · ++ [']'] ++ mark nullable) ih

theorem spells_chars (hb : t.innermost.toList.head? ≠ some '[')
    (hm : t.innermost.toList.getLast? ≠ some '!') : Spells t.chars t := by
  induction t with
  | named name nullable =>
    have h : Spells (name.toList ++ mark nullable) (.named (String.ofList name.toList) nullable) :=
      .named hb fun _ => hm
    rwa [String.ofList_toList] at h
  | list _ nullable ih => exact .list nullable (ih hb hm)

/-- All that a text can stand for. -/
theorem ofText_eq_iff {s : String} :
    ofText s = t ↔ Spells s.toList t ∨ Unclosed s.toList ∧ t = .named s true := by
  rw [ofText, ← parse?_eq_some_iff, ← parse?_eq_none_iff]
  cases parse? s.toList with
  | none => simp [eq_comm]
  | some => simp

theorem text_ofText (s : String) : (ofText s).text = s := by
  rcases ofText_eq_iff.mp (rfl : ofText s = ofText s) with hs | ⟨-, hs⟩
  · rw [text, chars_of_spells hs, String.ofList_toList]
  · rw [hs, text, chars, if_pos rfl, List.append_nil, String.ofList_toList]

theorem ofText_text (hb : t.innermost.toList.head? ≠ some '[')
    (hm : t.innermost.toList.getLast? ≠ some '!') : ofText t.text = t := by
  refine ofText_eq_iff.mpr (.inl ?_)
  rw [text, String.toList_ofList]
  exact spells_chars hb hm

/-- A text stands for the type that it says, or, if some level opens a bracket that it does not
close, for a name: the whole text, whatever the other levels say. In either case the type is written
as that text again. And a type that wrappers make of a name is read back from how it is written,
with the name inside. -/
theorem text_round_trip :
    (∀ s t, ofText s = t ↔ Spells s.toList t ∨ Unclosed s.toList ∧ t = .named s true) ∧
    (∀ s, (ofText s).text = s) ∧
    ∀ t : TypeRef, Query.Token.IsName t.innermost →
      ofText t.text = t ∧ (ofText t.text).innermost = t.innermost := by
  refine ⟨fun _ _ => ofText_eq_iff, text_ofText, fun t hn => ?_⟩
  have hb : t.innermost.toList.head? ≠ some '[' := fun h =>
    absurd (hn.isNameChar (List.mem_of_head? h)) (by decide)
  have hm : t.innermost.toList.getLast? ≠ some '!' := fun h =>
    absurd (hn.isNameChar (List.mem_of_getLast? h)) (by decide)
  have ht : ofText t.text = t := ofText_text hb hm
  exact ⟨ht, congrArg innermost ht⟩

/-- A second mark belongs to the name. -/
example : ofText "[Int!!]" = .list (.named "Int!" false) true := by cbv

/-- One bracket too few, and no level is read. -/
example : ofText "[[a]" = .named "[[a]" true := by cbv

end TypeRef

end GraphGate

namespace GraphGate.Sample

open TypeRef

/-- A list of lists of numbers, with marks inside and behind. -/
def rows : TypeRef := .list (.list (.named "Int" false) true) false

theorem text_round_trip_rows :
    rows.text = "[[Int!]]!" ∧ Query.Token.IsName rows.innermost ∧
      ofText rows.text = rows ∧ (ofText rows.text).innermost = "Int" := by
  have hn : Query.Token.IsName rows.innermost :=
    ⟨'I', ['n', 't'], by decide, by decide, List.all_eq_true.mp (by decide)⟩
  exact ⟨by cbv, hn, text_round_trip.2.2 rows hn⟩

end GraphGate.Sample
