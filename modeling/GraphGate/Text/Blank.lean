/-! Blank characters (the `White_Space` property), trimming, and cutting a text at a separator. -/
namespace GraphGate.Text

/-- The characters with the `White_Space` property. -/
def isBlank (c : Char) : Bool :=
  let n := c.toNat
  (9 ≤ n && n ≤ 13) || n == 0x20 || n == 0x85 || n == 0xA0 || n == 0x1680 ||
    (0x2000 ≤ n && n ≤ 0x200A) || n == 0x2028 || n == 0x2029 || n == 0x202F || n == 0x205F ||
    n == 0x3000

/-- Drops the elements with property `p` at both ends. -/
def stripped {α : Type} (p : α → Bool) (xs : List α) : List α :=
  ((xs.dropWhile p).reverse.dropWhile p).reverse

/-- The text without blanks at its ends. -/
def trim (s : String) : String := String.ofList (stripped isBlank s.toList)

/-- Whether nothing but blanks is there. -/
def isBlankText (s : String) : Bool := s.toList.all isBlank

/-- The pieces between separators: one more than there are separators. -/
def pieces (separator : Char) : List Char → List (List Char)
  | [] => [[]]
  | c :: rest =>
    if c = separator then [] :: pieces separator rest
    else match pieces separator rest with
      | [] => [[c]]
      | piece :: more => (c :: piece) :: more

/-- The text in small letters, as far as letters of the basic alphabet go. -/
def lowercase (s : String) : String := String.ofList (s.toList.map Char.toLower)

end GraphGate.Text
