import GraphGate.Plan.Selections

/-! Which fragments selections come to by spreads that no directive keeps out. -/
namespace GraphGate.Plan

open Query

variable {fragments : Table Fragment} {bindings : Bindings}
  {selections selections' : List Selection} {name : String}

/-- A fragment is spread among selections, or inside of their fields and inline fragments. -/
inductive Spreads (bindings : Bindings) : List Selection → String → Prop
  | here {selections : List Selection} {spread : Spread} (hm : .spread spread ∈ selections)
    (hi : included bindings spread.directives ≠ .ok false) :
    Spreads bindings selections spread.name
  | field {selections inner : List Selection} {head : FieldHead} {name : String}
    (hm : .field head inner ∈ selections) (hi : included bindings head.directives ≠ .ok false)
    (h : Spreads bindings inner name) : Spreads bindings selections name
  | inline {selections inner : List Selection} {head : InlineHead} {name : String}
    (hm : .inline head inner ∈ selections) (hi : included bindings head.directives ≠ .ok false)
    (h : Spreads bindings inner name) : Spreads bindings selections name

/-- A fragment is spread by selections, or by fragments that they reach. -/
inductive Reaches (fragments : Table Fragment) (bindings : Bindings) :
    List Selection → String → Prop
  | direct {selections : List Selection} {name : String} (h : Spreads bindings selections name) :
    Reaches fragments bindings selections name
  | through {selections : List Selection} {between name : String} {fragment : Fragment}
    (h : Spreads bindings selections between) (hf : fragments.get? between = some fragment)
    (hr : Reaches fragments bindings fragment.selections name) :
    Reaches fragments bindings selections name

theorem ne_of_included {directives : List Directive}
    (hi : included bindings directives = .ok true) : included bindings directives ≠ .ok false := by
  rw [hi]
  nofun

theorem not_spreads_nil : ¬ Spreads bindings [] name := by
  rintro (⟨hm, -⟩ | ⟨hm, -, -⟩ | ⟨hm, -, -⟩) <;> cases hm

theorem spreads_mono (hs : selections ⊆ selections') (h : Spreads bindings selections name) :
    Spreads bindings selections' name := by
  cases h with
  | here hm hi => exact .here (hs hm) hi
  | field hm hi h => exact .field (hs hm) hi h
  | inline hm hi h => exact .inline (hs hm) hi h

theorem reaches_of_spreads (hs : ∀ between, Spreads bindings selections between →
    Spreads bindings selections' between) (h : Reaches fragments bindings selections name) :
    Reaches fragments bindings selections' name := by
  cases h with
  | direct h => exact .direct (hs _ h)
  | through h hf hr => exact .through (hs _ h) hf hr

theorem reaches_mono (hs : selections ⊆ selections')
    (h : Reaches fragments bindings selections name) :
    Reaches fragments bindings selections' name :=
  reaches_of_spreads (fun _ => spreads_mono hs) h

theorem reaches_field {head : FieldHead} (hi : included bindings head.directives ≠ .ok false)
    (h : Reaches fragments bindings selections name) :
    Reaches fragments bindings [.field head selections] name :=
  reaches_of_spreads (fun _ => .field (by simp) hi) h

theorem reaches_inline {head : InlineHead} (hi : included bindings head.directives ≠ .ok false)
    (h : Reaches fragments bindings selections name) :
    Reaches fragments bindings [.inline head selections] name :=
  reaches_of_spreads (fun _ => .inline (by simp) hi) h

theorem reaches_spread {spread : Spread} {fragment : Fragment}
    (hi : included bindings spread.directives ≠ .ok false)
    (hf : fragments.get? spread.name = some fragment)
    (h : Reaches fragments bindings fragment.selections name) :
    Reaches fragments bindings [.spread spread] name :=
  .through (.here (by simp) hi) hf h

end GraphGate.Plan
