import GraphGate.Json.Basic

/-! Reading a JSON value strictly: nothing but blanks around it, no lone surrogates, at most 127
arrays and objects inside each other. -/
namespace GraphGate.Json

/-- What is left of a text after something was read from its front. -/
abbrev Rest (cs : List Char) := { rest : List Char // rest.length < cs.length }

def isSpace (c : Char) : Bool := c == ' ' || c == '\t' || c == '\n' || c == '\r'

def skip (cs : List Char) : List Char := cs.dropWhile isSpace

theorem length_skip_le (cs : List Char) : (skip cs).length ≤ cs.length :=
  (List.dropWhile_sublist isSpace).length_le

theorem length_of_skip_eq {cs rest : List Char} {c : Char} (h : skip cs = c :: rest) :
    rest.length < cs.length := by
  have := length_skip_le cs
  rw [h, List.length_cons] at this
  omega

def hexValue? (c : Char) : Option Nat :=
  if '0' ≤ c && c ≤ '9' then some (c.toNat - 48)
  else if 'a' ≤ c && c ≤ 'f' then some (c.toNat - 87)
  else if 'A' ≤ c && c ≤ 'F' then some (c.toNat - 55)
  else none

/-- The number written with four hexadecimal digits. -/
def unit? (a b c d : Char) : Option Nat := do
  return (((← hexValue? a) * 16 + (← hexValue? b)) * 16 + (← hexValue? c)) * 16 + (← hexValue? d)

def simpleEscape? : Char → Option Char
  | '"' => some '"'
  | '\\' => some '\\'
  | '/' => some '/'
  | 'b' => some '\x08'
  | 'f' => some '\x0c'
  | 'n' => some '\n'
  | 'r' => some '\r'
  | 't' => some '\t'
  | _ => none

def isHighSurrogate (n : Nat) : Bool := 0xD800 ≤ n && n < 0xDC00

def isLowSurrogate (n : Nat) : Bool := 0xDC00 ≤ n && n < 0xE000

/-- A character in front of what was read. -/
def onto (c : Char) (read : Option (List Char × List Char)) : Option (List Char × List Char) :=
  read.map (Prod.map (c :: ·) id)

/-- The characters up to the closing quotation mark, escapes replaced, and the rest after it. -/
def stringBody : List Char → Option (List Char × List Char)
  | '"' :: rest => some ([], rest)
  | '\\' :: 'u' :: a :: b :: c :: d :: rest =>
    match unit? a b c d with
    | none => none
    | some n =>
      if isHighSurrogate n then
        match rest with
        | '\\' :: 'u' :: e :: f :: g :: h :: rest =>
          match unit? e f g h with
          | some m =>
            if isLowSurrogate m then
              onto (Char.ofNat (0x10000 + (n - 0xD800) * 0x400 + (m - 0xDC00))) (stringBody rest)
            else none
          | none => none
        | _ => none
      else if isLowSurrogate n then none
      else onto (Char.ofNat n) (stringBody rest)
  | '\\' :: c :: rest =>
    match simpleEscape? c with
    | some c => onto c (stringBody rest)
    | none => none
  | c :: rest =>
    if c.toNat < 32 || c == '\\' then none
    else onto c (stringBody rest)
  | [] => none

theorem onto_eq_some {c : Char} {read : Option (List Char × List Char)} {s rest : List Char}
    (h : onto c read = some (s, rest)) : ∃ s', read = some (s', rest) := by
  obtain ⟨⟨s', rest'⟩, hr, he⟩ := Option.map_eq_some_iff.mp h
  simp only [Prod.map, id, Prod.mk.injEq] at he
  exact ⟨s', by rw [hr, he.2]⟩

theorem stringBody_length {cs s rest : List Char} (h : stringBody cs = some (s, rest)) :
    rest.length < cs.length := by
  fun_induction stringBody cs generalizing s rest <;> try contradiction
  case case1 => simp_all
  all_goals
    next ih =>
    obtain ⟨_, h'⟩ := onto_eq_some h
    have := ih h'
    simp only [List.length_cons]
    omega

theorem digits?_length {cs ds rest : List Char} (h : Number.digits? cs = some (ds, rest)) :
    rest.length < cs.length := by
  unfold Number.digits? at h
  split at h
  · simp at h
  · next hd =>
    simp only [Option.some.injEq, Prod.mk.injEq] at h
    have hl := congrArg List.length (List.takeWhile_append_dropWhile (p := Char.isDigit) (l := cs))
    rw [h.2] at hl
    have hp := List.length_pos_iff.mpr hd
    simp only [List.length_append] at hl
    omega

theorem map_digits?_length {β : Type} {f : List Char → β} {cs rest : List Char} {x : β}
    (h : (Number.digits? cs).map (Prod.map f id) = some (x, rest)) :
    rest.length < cs.length := by
  obtain ⟨⟨ds, r⟩, hd, he⟩ := Option.map_eq_some_iff.mp h
  simp only [Prod.map, id, Prod.mk.injEq] at he
  rw [← he.2]
  exact digits?_length hd

theorem fraction?_length {cs rest : List Char} {f : Option (List Char)}
    (h : Number.fraction? cs = some (f, rest)) : rest.length ≤ cs.length := by
  unfold Number.fraction? at h
  split at h
  · have := map_digits?_length h
    simp only [List.length_cons]
    omega
  · simp_all

theorem exponent?_length {cs rest : List Char} {e : Option (Bool × List Char)}
    (h : Number.exponent? cs = some (e, rest)) : rest.length ≤ cs.length := by
  unfold Number.exponent? at h
  split at h
  case h_7 => simp_all
  all_goals
    have := map_digits?_length h
    simp only [List.length_cons]
    omega

theorem whole?_length {cs ds rest : List Char} (h : Number.whole? cs = some (ds, rest)) :
    rest.length < cs.length := by
  unfold Number.whole? at h
  split at h
  · grind
  · exact digits?_length h

theorem parts_length {cs rest : List Char} {n : Number.Numeral} {negative : Bool}
    (h : (do
      let (whole, rest) ← Number.whole? cs
      let (fraction, rest) ← Number.fraction? rest
      let (exponent, rest) ← Number.exponent? rest
      return ((⟨negative, whole, fraction, exponent⟩ : Number.Numeral), rest)) = some (n, rest)) :
    rest.length < cs.length := by
  simp only [Option.bind_eq_bind, Option.bind_eq_some_iff, Option.pure_def] at h
  obtain ⟨⟨w, r₁⟩, hw, ⟨f, r₂⟩, hf, ⟨e, r₃⟩, he, hr⟩ := h
  have h₁ : r₁.length < cs.length := whole?_length hw
  have h₂ : r₂.length ≤ r₁.length := fraction?_length hf
  have h₃ : r₃.length ≤ r₂.length := exponent?_length he
  simp only [Option.some.injEq, Prod.mk.injEq] at hr
  rw [← hr.2]
  omega

theorem scan_length {cs rest : List Char} {n : Number.Numeral}
    (h : Number.Numeral.scan cs = some (n, rest)) : rest.length < cs.length := by
  unfold Number.Numeral.scan at h
  split at h
  next negative unsigned hm =>
  have hu : unsigned.length ≤ cs.length := by
    split at hm <;> grind
  have := parts_length h
  omega

mutual

/-- A value at the front, with room for `depth` more arrays and objects. -/
def value (depth : Nat) (cs : List Char) : Option (Json × Rest cs) :=
  match cs with
  | 'n' :: 'u' :: 'l' :: 'l' :: rest => some (.null, ⟨rest, by simp only [List.length_cons]; omega⟩)
  | 't' :: 'r' :: 'u' :: 'e' :: rest =>
    some (.bool true, ⟨rest, by simp only [List.length_cons]; omega⟩)
  | 'f' :: 'a' :: 'l' :: 's' :: 'e' :: rest =>
    some (.bool false, ⟨rest, by simp only [List.length_cons]; omega⟩)
  | '"' :: rest =>
    match h : stringBody rest with
    | some (s, rest') =>
      some (.str (String.ofList s), ⟨rest', Nat.lt_succ_of_lt (stringBody_length h)⟩)
    | none => none
  | '[' :: rest =>
    match depth with
    | 0 => none
    | depth + 1 =>
      match h : skip rest with
      | ']' :: rest' => some (.arr [], ⟨rest', Nat.lt_succ_of_lt (length_of_skip_eq h)⟩)
      | _ =>
        (elements depth rest).map fun (vs, ⟨rest', h⟩) => (.arr vs, ⟨rest', Nat.lt_succ_of_lt h⟩)
  | '\x7b' :: rest =>
    match depth with
    | 0 => none
    | depth + 1 =>
      match h : skip rest with
      | '\x7d' :: rest' => some (.obj [], ⟨rest', Nat.lt_succ_of_lt (length_of_skip_eq h)⟩)
      | _ =>
        (fields depth rest).map fun (kvs, ⟨rest', h⟩) =>
          (.obj (Table.ofPairs kvs), ⟨rest', Nat.lt_succ_of_lt h⟩)
  | cs =>
    match h : Number.Numeral.scan cs with
    | some (n, rest) =>
      match n.value with
      | .ok n => some (.num n, ⟨rest, scan_length h⟩)
      | .error _ => none
    | none => none
termination_by (cs.length, 0)

/-- The elements of an array up to its closing bracket. -/
def elements (depth : Nat) (cs : List Char) : Option (List Json × Rest cs) :=
  match value depth (skip cs) with
  | none => none
  | some (v, ⟨rest, h⟩) =>
    have hr : rest.length < cs.length := Nat.lt_of_lt_of_le h (length_skip_le cs)
    match h' : skip rest with
    | ']' :: rest' => some ([v], ⟨rest', Nat.lt_trans (length_of_skip_eq h') hr⟩)
    | ',' :: rest' =>
      have hr' : rest'.length < cs.length := Nat.lt_trans (length_of_skip_eq h') hr
      (elements depth rest').map fun (vs, ⟨rest'', h⟩) => (v :: vs, ⟨rest'', Nat.lt_trans h hr'⟩)
    | _ => none
termination_by (cs.length, 1)
decreasing_by
  · rcases Nat.lt_or_eq_of_le (length_skip_le cs) with h | h
    · exact Prod.Lex.left _ _ h
    · rw [h]; exact Prod.Lex.right _ (by decide)
  · exact Prod.Lex.left _ _ hr'

/-- The keys and values of an object up to its closing brace. -/
def fields (depth : Nat) (cs : List Char) : Option (List (String × Json) × Rest cs) :=
  match hk : skip cs with
  | '"' :: afterQuote =>
    match hs : stringBody afterQuote with
    | none => none
    | some (k, afterKey) =>
      match hc : skip afterKey with
      | ':' :: afterColon =>
        have h₀ : afterColon.length < cs.length :=
          Nat.lt_trans (length_of_skip_eq hc)
            (Nat.lt_trans (stringBody_length hs) (length_of_skip_eq hk))
        match value depth (skip afterColon) with
        | none => none
        | some (v, ⟨rest, h⟩) =>
          have h₁ : rest.length < cs.length :=
            Nat.lt_trans (Nat.lt_of_lt_of_le h (length_skip_le _)) h₀
          match h' : skip rest with
          | '\x7d' :: rest' =>
            some ([(String.ofList k, v)], ⟨rest', Nat.lt_trans (length_of_skip_eq h') h₁⟩)
          | ',' :: rest' =>
            have h₂ : rest'.length < cs.length := Nat.lt_trans (length_of_skip_eq h') h₁
            (fields depth rest').map fun (kvs, ⟨rest'', h⟩) =>
              ((String.ofList k, v) :: kvs, ⟨rest'', Nat.lt_trans h h₂⟩)
          | _ => none
      | _ => none
  | _ => none
termination_by (cs.length, 1)
decreasing_by
  · exact Prod.Lex.left _ _ (Nat.lt_of_le_of_lt (length_skip_le _) h₀)
  · exact Prod.Lex.left _ _ h₂

end

/-- How many arrays and objects may be inside each other. -/
def depthLimit : Nat := 127

/-- The value that a text holds. -/
def parse? (cs : List Char) : Option Json :=
  match value depthLimit (skip cs) with
  | some (v, ⟨rest, _⟩) => if skip rest = [] then some v else none
  | none => none

end GraphGate.Json
