import LayeredDiagram.Text.Blank
import LayeredDiagram.Text.LowerCase

namespace LayeredDiagram.Color

open Text

def names : List String :=
  ["black", "white", "red", "green", "blue", "yellow", "orange", "purple", "pink", "gray", "grey",
    "cyan", "magenta", "transparent", "currentcolor"]

def isHex (cs : List Char) : Bool :=
  match cs with
  | '#' :: digits => 3 ≤ digits.length && digits.length ≤ 8 && digits.all isHexDigit
  | _ => false

def isWhole (cs : List Char) : Bool :=
  !cs.isEmpty && cs.all Char.isDigit

def isPercentage (cs : List Char) : Bool :=
  isWhole (if cs.getLast? == some '%' then cs.dropLast else cs)

def isOpacity (cs : List Char) : Bool :=
  !cs.isEmpty && cs.all fun c => c.isDigit || c == '.'

-- What stands between the brackets after a name, the optional letter of opacity included.
def arguments? (name cs : List Char) : Option (List (List Char)) :=
  (afterLetters name cs).bind fun rest =>
    let rest := (afterLetters ['a'] rest).getD rest
    match rest with
    | '(' :: inner =>
      if inner.getLast? == some ')' then some ((inner.dropLast.splitOn ',').map trim) else none
    | _ => none

def isForm (name : List Char) (isFirst isOther : List Char → Bool) (cs : List Char) : Bool :=
  match arguments? name cs with
  | some [a, b, c] => isFirst a && isOther b && isOther c
  | some [a, b, c, d] => isFirst a && isOther b && isOther c && isOpacity d
  | _ => false

def isRgb (cs : List Char) : Bool :=
  isForm ['r', 'g', 'b'] isWhole isWhole cs

def isHsl (cs : List Char) : Bool :=
  isForm ['h', 's', 'l'] isWhole isPercentage cs

-- Hexadecimal, `rgb` and `hsl` forms pass, and a short list of names. What comes back is the colour
-- itself, a listed name in lower case, or nothing.
def safe? (color : String) : Option String :=
  let cs := color.toList
  if isHex cs || isRgb cs || isHsl cs then some color
  else
    let name := String.ofList (lower cs)
    if names.contains name then some name else none

def sanitize (color : Option String) (fallback : String) : String :=
  (color.bind safe?).getD fallback

end LayeredDiagram.Color
