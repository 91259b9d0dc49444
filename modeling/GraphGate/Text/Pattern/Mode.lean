import GraphGate.Text.Blank

/-! How the characters of a search pattern are read, and what may be passed over between them. -/
namespace GraphGate.Text.Pattern

/-- A letter stands for both its cases, every character may occur or those of the basic alphabet
only, and blanks and comments may stand between the parts of a pattern. -/
structure Mode where
  anyCase : Bool
  wide : Bool
  spaced : Bool

/-- How many characters blanks and comments take in front. A comment goes from a number sign to the
end of its line. -/
def gapLength (inComment : Bool) : List Char → Nat
  | [] => 0
  | c :: rest =>
    if inComment then 1 + gapLength (c != '\n') rest
    else if isBlank c then 1 + gapLength false rest
    else if c == '#' then 1 + gapLength true rest
    else 0

namespace Mode

def default : Mode := ⟨false, true, false⟩

/-- What the letters between a question mark and the end of a group's head change. A minus sign
turns off what comes after it. -/
def change (mode : Mode) (letters : List Char) : Mode :=
  let on := letters.takeWhile (· != '-')
  let off := letters.dropWhile (· != '-')
  let apply (letter : Char) (now : Bool) := on.contains letter || (now && !off.contains letter)
  ⟨apply 'i' mode.anyCase, apply 'u' mode.wide, apply 'x' mode.spaced⟩

/-- Outside the basic alphabet the cases of a letter are not known, so no character is read for both
while others may occur. -/
def takesCharacters (mode : Mode) : Bool := !(mode.anyCase && mode.wide)

/-- How many characters are passed over in front of a text. -/
def gap (mode : Mode) (text : List Char) : Nat := if mode.spaced then gapLength false text else 0

/-- The character after a minus sign that tells whether the sign makes a range. Blanks are passed
over, and of a comment its sign only. -/
def ahead? (mode : Mode) (text : List Char) : Option Char :=
  if mode.spaced then
    let mark? := match text.dropWhile isBlank with
      | '#' :: rest => (rest.dropWhile isBlank).head?
      | rest => rest.head?
    mark?.or text.head?
  else text.head?

end Mode

def isModeLetter (c : Char) : Bool := "imsUuRx-".toList.contains c

/-- Every letter at most once, and something behind a minus sign. -/
def areModeLetters (letters : List Char) : Bool :=
  letters.all isModeLetter && decide letters.Nodup && letters.getLast? != some '-'

end GraphGate.Text.Pattern
