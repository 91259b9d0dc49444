import Mathlib.Data.List.Basic
import Mathlib.Data.List.DropRight
import GraphGate.Proofs.Policy
import GraphGate.Settings

/-! A gate set up by an environment denies what the texts of the environment list, however these are
written. -/
namespace GraphGate

namespace Text

variable {separator : Char} {text piece core before after : List Char}

/-- A piece of a text from one separator, or the start, to the next one, or the end. -/
def Between (separator : Char) (text piece : List Char) : Prop :=
  separator ∉ piece ∧ ∃ before after, text = before ++ piece ++ after ∧
    (before = [] ∨ ∃ start, before = start ++ [separator]) ∧
    (after = [] ∨ ∃ rest, after = separator :: rest)

/-- What a text is without blanks at its ends. -/
def Bare (text core : List Char) : Prop :=
  ∃ before after, text = before ++ core ++ after ∧ before.all isBlank ∧ after.all isBlank ∧
    (∀ c ∈ core.head?, isBlank c = false) ∧ ∀ c ∈ core.getLast?, isBlank c = false

theorem pieces_eq_splitOn : pieces separator text = text.splitOn separator := by
  induction text with
  | nil => rfl
  | cons c rest ih =>
    rw [pieces, ih, List.splitOn, List.splitOn, List.splitOnP_cons_eq_if_modifyHead]
    by_cases h : c = separator
    · rw [if_pos h, if_pos (beq_iff_eq.mpr h)]
    · rw [if_neg h, if_neg (mt beq_iff_eq.mp h)]
      cases hr : rest.splitOnP (· == separator) with
      | nil => exact absurd hr (List.splitOnP_ne_nil _ rest)
      | cons first more => rfl

theorem pieces_append_cons {xs ys : List Char} :
    pieces separator (xs ++ separator :: ys) = pieces separator xs ++ pieces separator ys := by
  simp only [pieces_eq_splitOn]
  exact List.splitOnP_append_cons xs ys (beq_self_eq_true separator)

theorem pieces_of_not_mem (h : separator ∉ text) : pieces separator text = [text] := by
  rw [pieces_eq_splitOn]
  refine List.splitOnP_eq_singleton fun c hc => beq_eq_false_iff_ne.mpr ?_
  rintro rfl
  exact h hc

theorem pieces_intercalate {items : List (List Char)} (h : ∀ item ∈ items, separator ∉ item)
    (hne : items ≠ []) : pieces separator ([separator].intercalate items) = items := by
  rw [pieces_eq_splitOn, List.splitOn_intercalate separator h hne]

theorem between_of_mem {text : List Char} (h : piece ∈ pieces separator text) :
    Between separator text piece := by
  by_cases hs : separator ∈ text
  · obtain ⟨first, rest, rfl, hf⟩ := List.eq_append_cons_of_mem hs
    rw [pieces_append_cons, pieces_of_not_mem hf] at h
    rcases List.mem_cons.mp h with rfl | hm
    · exact ⟨hf, [], separator :: rest, rfl, .inl rfl, .inr ⟨rest, rfl⟩⟩
    · obtain ⟨hp, before, after, rfl, hb, ha⟩ := between_of_mem hm
      refine ⟨hp, first ++ separator :: before, after, by simp, .inr ?_, ha⟩
      rcases hb with rfl | ⟨start, rfl⟩
      · exact ⟨first, rfl⟩
      · exact ⟨first ++ separator :: start, by simp⟩
  · rw [pieces_of_not_mem hs] at h
    obtain rfl := List.mem_singleton.mp h
    exact ⟨hs, [], [], by simp, .inl rfl, .inl rfl⟩
termination_by text.length

theorem mem_of_between (h : Between separator text piece) : piece ∈ pieces separator text := by
  obtain ⟨hp, before, after, rfl, hb, ha⟩ := h
  have hend : piece ∈ pieces separator (piece ++ after) := by
    rcases ha with rfl | ⟨rest, rfl⟩
    · simp [pieces_of_not_mem hp]
    · simp [pieces_append_cons, pieces_of_not_mem hp]
  rcases hb with rfl | ⟨start, rfl⟩
  · exact hend
  · rw [List.append_assoc, List.append_assoc, List.singleton_append, pieces_append_cons]
    exact List.mem_append_right _ hend

theorem mem_pieces_iff : piece ∈ pieces separator text ↔ Between separator text piece :=
  ⟨between_of_mem, mem_of_between⟩

theorem stripped_of_blank_append {p : Char → Bool} (hb : before.all p) (ha : after.all p) :
    stripped p (before ++ text ++ after) = stripped p text := by
  have hend : ∀ xs : List Char, (xs ++ after).rdropWhile p = xs.rdropWhile p := by
    intro xs
    rw [List.rdropWhile, List.reverse_append, List.dropWhile_append_of_pos]
    · rfl
    · simpa using ha
  change ((before ++ text ++ after).dropWhile p).rdropWhile p = (text.dropWhile p).rdropWhile p
  rw [List.append_assoc, List.dropWhile_append_of_pos (List.all_eq_true.mp hb),
    List.dropWhile_append]
  split
  case isTrue he =>
    rw [List.isEmpty_iff.mp he, List.dropWhile_eq_nil_iff.mpr (List.all_eq_true.mp ha)]
  case isFalse => exact hend _

theorem stripped_of_ends (hh : ∀ c ∈ core.head?, isBlank c = false)
    (hl : ∀ c ∈ core.getLast?, isBlank c = false) : stripped isBlank core = core := by
  have hd : core.dropWhile isBlank = core := by
    cases core with
    | nil => rfl
    | cons c rest => rw [List.dropWhile_cons_of_neg (by simp [hh c rfl])]
  change (core.dropWhile isBlank).rdropWhile isBlank = core
  rw [hd, List.rdropWhile_eq_self_iff]
  intro hne
  simp [hl _ (List.getLast?_eq_getLast_of_ne_nil hne)]

theorem bare_stripped : Bare text (stripped isBlank text) := by
  let middle := text.dropWhile isBlank
  have hfront : text.takeWhile isBlank ++ middle = text := List.takeWhile_append_dropWhile
  have hmiddle : middle.rdropWhile isBlank ++ middle.rtakeWhile isBlank = middle :=
    List.rdropWhile_append_rtakeWhile
  change Bare text (middle.rdropWhile isBlank)
  refine ⟨text.takeWhile isBlank, middle.rtakeWhile isBlank, ?_, ?_, ?_, fun c hc => ?_,
    fun c hc => ?_⟩
  · rw [List.append_assoc, hmiddle, hfront]
  · exact List.all_eq_true.mpr fun _ => List.mem_takeWhile_imp
  · exact List.all_eq_true.mpr fun _ => List.mem_rtakeWhile_imp
  · have hm : middle.head? = some c := by
      rw [← hmiddle, List.head?_append, hc]
      rfl
    have hnot := List.head?_dropWhile_not isBlank text
    rw [hm] at hnot
    exact hnot
  · obtain ⟨hne, rfl⟩ := List.mem_getLast?_eq_getLast hc
    exact Bool.eq_false_iff.mpr (List.rdropWhile_last_not isBlank middle hne)

theorem stripped_eq_iff : stripped isBlank text = core ↔ Bare text core := by
  constructor
  · rintro rfl
    exact bare_stripped
  · rintro ⟨before, after, rfl, hb, ha, hh, hl⟩
    rw [stripped_of_blank_append hb ha, stripped_of_ends hh hl]

end Text

open Text

/-- Items of a list that are put in another order, repeated, written with other blanks around them,
or joined by empty ones. -/
inductive Respelled : List (List Char) → List (List Char) → Prop
  | refl (items : List (List Char)) : Respelled items items
  | reordered {items items' : List (List Char)} (h : items.Perm items') : Respelled items items'
  | repeated {item : List Char} {items : List (List Char)} (h : item ∈ items) :
    Respelled items (item :: items)
  | spaced {item before after : List Char} {items : List (List Char)} (hb : before.all isBlank)
    (ha : after.all isBlank) : Respelled (item :: items) ((before ++ item ++ after) :: items)
  | emptied (items : List (List Char)) : Respelled items ([] :: items)
  | symm {items items' : List (List Char)} (h : Respelled items items') : Respelled items' items
  | trans {items middle items' : List (List Char)} (h : Respelled items middle)
    (h' : Respelled middle items') : Respelled items items'

/-- Items with commas between them. -/
def joined (items : List (List Char)) : String := String.ofList ([','].intercalate items)

namespace Environment

/-- One of the texts between commas is the entry, once blanks around it are gone. -/
def Entry (text entry : String) : Prop :=
  ∃ piece, Between ',' text.toList piece ∧ Bare piece entry.toList

/-- The text under a key has an entry. -/
def Lists (env : Environment) (key entry : String) : Prop :=
  ∃ text, env.get? key = some text ∧ Entry text entry

def onWords : List String := ["true", "1", "yes", "on", "enabled", "enable"]

def offWords : List String := ["false", "0", "no", "off", "disabled", "disable"]

/-- There is one of some words under a key, in letters of any case, if there is anything. -/
def UnsetOr (env : Environment) (key : String) (words : List String) : Prop :=
  ∀ text, env.get? key = some text → lowercase text ∈ words

/-- The same text or none at all, or the same list in another spelling. -/
def SameList (setting setting' : Option String) : Prop :=
  setting = setting' ∨ ∃ items items',
    (∀ item ∈ items, ',' ∉ item) ∧ (∀ item ∈ items', ',' ∉ item) ∧
    Respelled items items' ∧ setting = some (joined items) ∧ setting' = some (joined items')

/-- Environments that write what is denied in different ways. -/
structure Respells (env env' : Environment) : Prop where
  operationCheck : env.get? Setting.operationCheck = env'.get? Setting.operationCheck
  fieldCheck : env.get? Setting.fieldCheck = env'.get? Setting.fieldCheck
  operations : SameList (env.get? Setting.deniedOperations) (env'.get? Setting.deniedOperations)
  fields : SameList (env.get? Setting.deniedFields) (env'.get? Setting.deniedFields)

variable {env env' : Environment} {key entry text : String} {items items' : List (List Char)}

theorem mem_items_iff_stripped : entry ∈ Environment.items text ↔
    entry.toList ∈ (pieces ',' text.toList).map (stripped isBlank) ∧ entry ≠ "" := by
  rw [Environment.items, List.mem_filter, bne_iff_ne]
  refine and_congr_left' ⟨fun h => ?_, fun h => ?_⟩
  · obtain ⟨piece, hm, rfl⟩ := List.mem_map.mp h
    rw [String.toList_ofList]
    exact List.mem_map_of_mem hm
  · obtain ⟨piece, hm, hp⟩ := List.mem_map.mp h
    exact List.mem_map.mpr ⟨piece, hm, by rw [hp, String.ofList_toList]⟩

theorem mem_items_iff : entry ∈ Environment.items text ↔ Entry text entry ∧ entry ≠ "" := by
  simp only [mem_items_iff_stripped, List.mem_map, mem_pieces_iff, stripped_eq_iff, Entry]

theorem mem_list_iff : entry ∈ env.list key [] ↔ env.Lists key entry ∧ entry ≠ "" := by
  rw [list, Lists]
  cases h : env.get? key with
  | none => simp
  | some text => simp [mem_items_iff]

theorem enabled_of_unsetOr (h : env.UnsetOr key (onWords ++ offWords)) :
    ∃ on, env.enabled key true = .ok on ∧ (on = true ↔ env.UnsetOr key onWords) := by
  rw [enabled]
  cases hk : env.get? key with
  | none =>
    refine ⟨true, rfl, fun _ text ht => ?_, fun _ => rfl⟩
    cases hk.symm.trans ht
  | some text =>
    have honly : env.UnsetOr key onWords ↔ lowercase text ∈ onWords := by
      refine ⟨fun ho => ho text hk, fun ho other ht => ?_⟩
      obtain rfl := Option.some.inj (hk.symm.trans ht)
      exact ho
    rw [honly]
    by_cases hon : lowercase text ∈ onWords
    · refine ⟨true, ?_, fun _ => hon, fun _ => rfl⟩
      have hc : onWords.contains (lowercase text) = true := List.contains_iff_mem.mpr hon
      rw [onWords] at hc
      simp only [switchValue?, hc, if_true]
    · have hoff : lowercase text ∈ offWords := (List.mem_append.mp (h text hk)).resolve_left hon
      refine ⟨false, ?_, nofun, fun ho => absurd ho hon⟩
      have hc : offWords.contains (lowercase text) = true := List.contains_iff_mem.mpr hoff
      have hn : onWords.contains (lowercase text) = false := by simpa using hon
      rw [offWords] at hc
      rw [onWords] at hn
      simp only [switchValue?, hc, hn, if_true, Bool.false_eq_true, if_false]

theorem exists_capabilities (ho : env.UnsetOr Setting.operationCheck (onWords ++ offWords))
    (hf : env.UnsetOr Setting.fieldCheck (onWords ++ offWords)) :
    ∃ capabilities, env.capabilities = .ok capabilities ∧
      (capabilities.operationCheck = true ↔ env.UnsetOr Setting.operationCheck onWords) ∧
      (capabilities.fieldCheck = true ↔ env.UnsetOr Setting.fieldCheck onWords) := by
  obtain ⟨operationCheck, hoe, ho⟩ := enabled_of_unsetOr ho
  obtain ⟨fieldCheck, hfe, hf⟩ := enabled_of_unsetOr hf
  refine ⟨⟨operationCheck, fieldCheck⟩, ?_, ho, hf⟩
  rw [capabilities, Environment.operationCheck, hoe, Environment.fieldCheck, hfe]
  rfl

theorem mem_stripped_of_respelled (h : Respelled items items') {core : List Char}
    (hne : core ≠ []) :
    core ∈ items.map (stripped isBlank) ↔ core ∈ items'.map (stripped isBlank) := by
  induction h with
  | refl => rfl
  | reordered h => exact (h.map _).mem_iff
  | repeated h =>
    rw [List.map_cons, List.mem_cons, or_iff_right_of_imp]
    rintro rfl
    exact List.mem_map_of_mem h
  | spaced hb ha => rw [List.map_cons, List.map_cons, stripped_of_blank_append hb ha]
  | emptied items =>
    rw [List.map_cons, List.mem_cons]
    exact (or_iff_right hne).symm
  | symm _ ih => exact ih.symm
  | trans _ _ ih ih' => exact ih.trans ih'

theorem mem_items_joined (h : ∀ item ∈ items, ',' ∉ item) (hne : entry ≠ "") :
    entry ∈ Environment.items (joined items) ↔ entry.toList ∈ items.map (stripped isBlank) := by
  rw [mem_items_iff_stripped, and_iff_left hne, joined, String.toList_ofList]
  cases items with
  | nil => simpa [pieces, stripped] using hne
  | cons item rest => rw [pieces_intercalate h (List.cons_ne_nil _ _)]

theorem mem_list_of_sameList (h : SameList (env.get? key) (env'.get? key)) :
    entry ∈ env.list key [] ↔ entry ∈ env'.list key [] := by
  rcases h with h | ⟨items, items', hi, hi', hr, h, h'⟩
  · rw [list, list, h]
  · by_cases hne : entry = ""
    · subst hne
      simp only [mem_list_iff, ne_eq, not_true_eq_false, and_false]
    · have hcore : entry.toList ≠ [] := by simpa using hne
      rw [list, list, h, h']
      exact (mem_items_joined hi hne).trans
        ((mem_stripped_of_respelled hr hcore).trans (mem_items_joined hi' hne).symm)

theorem denyList_congr {operations operations' fields fields' : List String}
    (ho : ∀ name, name ∈ operations ↔ name ∈ operations')
    (hf : ∀ entry, entry ∈ fields ↔ entry ∈ fields') :
    Policy.denyList operations fields = Policy.denyList operations' fields' := by
  have hops : ∀ name, operations.contains name = operations'.contains name := by
    intro name
    rw [Bool.eq_iff_iff, List.contains_iff_mem, List.contains_iff_mem, ho]
  have hfields : ∀ entry, fields.contains entry = fields'.contains entry := by
    intro entry
    rw [Bool.eq_iff_iff, List.contains_iff_mem, List.contains_iff_mem, hf]
  simp only [Policy.denyList, hops, hfields]

/-- However it is written what is denied, the gate is the same. -/
theorem gate_of_respells (h : env.Respells env') :
    env'.denyList = env.denyList ∧ env'.capabilities = env.capabilities := by
  constructor
  · exact denyList_congr (fun _ => (mem_list_of_sameList h.operations).symm)
      fun _ => (mem_list_of_sameList h.fields).symm
  · rw [capabilities, operationCheck, fieldCheck, enabled, enabled, ← h.operationCheck,
      ← h.fieldCheck]
    rfl

end Environment

/-- Only one type has a field at a coordinate, as no field has a dot in its name. -/
theorem coordinate_injective (type type' field field' : String) (h : '.' ∉ field.toList)
    (h' : '.' ∉ field'.toList) (he : coordinate type field = coordinate type' field') :
    type = type' ∧ field = field' := by
  have hl : type.toList ++ '.' :: field.toList = type'.toList ++ '.' :: field'.toList := by
    simpa [coordinate] using congrArg String.toList he
  -- What comes after the last dot is the field: the last of the pieces between dots.
  have hp := congrArg (pieces '.') hl
  rw [pieces_append_cons, pieces_append_cons, pieces_of_not_mem h, pieces_of_not_mem h'] at hp
  obtain ⟨-, hf⟩ := List.append_inj' hp rfl
  obtain rfl := String.toList_inj.mp (List.singleton_inj.mp hf)
  exact ⟨String.toList_inj.mp (List.append_cancel_right hl), rfl⟩

def Gate.Denies (gate : Gate) (q : Question) : Prop := (gate.answer q).isAllow = false

theorem denies_denyList_iff {capabilities : Capabilities} {q : Question}
    {operations fields : List String} :
    Gate.Denies ⟨.denyList operations fields, capabilities⟩ q ↔
      q.enabled capabilities = true ∧ q.Listed operations fields := by
  rw [Gate.Denies, ← Bool.not_eq_true, isAllow_iff]
  cases he : q.enabled capabilities with
  | true =>
    rw [answer_of_enabled he, denyList_eq_allow_iff, not_not]
    exact (and_iff_right rfl).symm
  | false =>
    rw [answer_of_disabled he]
    exact ⟨fun h => absurd rfl h, fun h => nomatch h.1⟩

theorem coordinate_ne_empty {type field : String} : coordinate type field ≠ "" := by
  intro h
  have hl := congrArg String.toList h
  simp [coordinate] at hl

/-- A gate set up by an environment denies the fields and operations whose entries are listed there,
and nothing else, as long as the switches can be read. How the lists are spelled makes no
difference. -/
theorem environment_denies_listed (env : Environment)
    (ho : env.UnsetOr Setting.operationCheck (Environment.onWords ++ Environment.offWords))
    (hf : env.UnsetOr Setting.fieldCheck (Environment.onWords ++ Environment.offWords)) :
    ∃ capabilities, env.capabilities = .ok capabilities ∧
      (∀ context, Gate.Denies ⟨env.denyList, capabilities⟩ (.field context) ↔
        env.UnsetOr Setting.fieldCheck Environment.onWords ∧
          env.Lists Setting.deniedFields (context.parentType ++ "." ++ context.field.name)) ∧
      (∀ plan, Gate.Denies ⟨env.denyList, capabilities⟩ (.operation plan) ↔
        env.UnsetOr Setting.operationCheck Environment.onWords ∧
          ∃ name, plan.name = some name ∧ name ≠ "" ∧ env.Lists Setting.deniedOperations name) ∧
      (∀ env', env.Respells env' →
        env'.denyList = env.denyList ∧ env'.capabilities = .ok capabilities) ∧
      ∀ type type' field field', '.' ∉ field.toList → '.' ∉ field'.toList →
        coordinate type field = coordinate type' field' → type = type' ∧ field = field' := by
  obtain ⟨capabilities, hc, hco, hcf⟩ := Environment.exists_capabilities ho hf
  refine ⟨capabilities, hc, fun context => ?_, fun plan => ?_, fun env' hr => ?_,
    coordinate_injective⟩
  · rw [Environment.denyList, denies_denyList_iff, ← hcf]
    refine and_congr_right' (Environment.mem_list_iff.trans ?_)
    exact and_iff_left coordinate_ne_empty
  · rw [Environment.denyList, denies_denyList_iff, ← hco]
    refine and_congr_right' ⟨?_, ?_⟩
    · rintro ⟨name, hm, hn⟩
      obtain ⟨hl, hne⟩ := Environment.mem_list_iff.mp hm
      exact ⟨name, hn, hne, hl⟩
    · rintro ⟨name, hn, hne, hl⟩
      exact ⟨name, Environment.mem_list_iff.mpr ⟨hl, hne⟩, hn⟩
  · obtain ⟨hd, hcap⟩ := Environment.gate_of_respells hr
    exact ⟨hd, hcap.trans hc⟩

end GraphGate

namespace GraphGate.Sample

/-- Settings under which an email, and a secret, are denied to whoever asks for them. -/
def secretive : Environment :=
  .table [(Setting.fieldCheck, "Enabled"), (Setting.deniedFields, "Query.secret,, User.email ,")]

theorem environment_denies_listed_secretive :
    secretive.UnsetOr Setting.operationCheck (Environment.onWords ++ Environment.offWords) ∧
    secretive.UnsetOr Setting.fieldCheck (Environment.onWords ++ Environment.offWords) ∧
    ∃ capabilities, secretive.capabilities = .ok capabilities ∧
      ∀ context : Context, context.coordinate = "User.email" →
        Gate.Denies ⟨secretive.denyList, capabilities⟩ (.field context) := by
  have ho : ∀ words, secretive.UnsetOr Setting.operationCheck words := by
    intro words text h
    cases h
  have hf : ∀ words, "enabled" ∈ words → secretive.UnsetOr Setting.fieldCheck words := by
    intro words hm text h
    obtain rfl := Option.some.inj (h : some "Enabled" = some text)
    exact hm
  have hon : "enabled" ∈ Environment.onWords := by decide
  have hlisted : "User.email" ∈ secretive.list Setting.deniedFields [] := by decide
  have haccepted := hf _ (List.mem_append_left Environment.offWords hon)
  obtain ⟨capabilities, hc, hfield, -⟩ := environment_denies_listed secretive (ho _) haccepted
  refine ⟨ho _, haccepted, capabilities, hc, fun context he => (hfield context).mpr ⟨hf _ hon, ?_⟩⟩
  change secretive.Lists Setting.deniedFields context.coordinate
  rw [he]
  exact (Environment.mem_list_iff.mp hlisted).1

end GraphGate.Sample
