import LayeredDiagram.Json.Basic
import LayeredDiagram.Number.Written
import LayeredDiagram.Text.Half

namespace LayeredDiagram.Json

def hexDigits (n : Nat) : List Char :=
  let digits := Nat.toDigits 16 n
  List.replicate (4 - digits.length) '0' ++ digits

def escapeChar (c : Char) : String :=
  match c with
  | '"' => "\\\""
  | '\\' => "\\\\"
  | '\x08' => "\\b"
  | '\x0c' => "\\f"
  | '\n' => "\\n"
  | '\r' => "\\r"
  | '\t' => "\\t"
  | c => if c.toNat < 0x20 then "\\u" ++ String.ofList (hexDigits c.toNat) else c.toString

def escapeHalf (c : Char) : String :=
  String.ofList ('\\' :: 'u' :: hexDigits (Text.pointOf c))

-- Halves that belong together are written as they are, any other half as an escape.
def writeHalves (out : String) : List Char → String
  | [] => out
  | [c] => if Text.isHalf c then out ++ escapeHalf c else out ++ escapeChar c
  | c :: d :: cs =>
    if Text.isHighHalf c && Text.isLowHalf d then writeHalves ((out.push c).push d) cs
    else if Text.isHalf c then writeHalves (out ++ escapeHalf c) (d :: cs)
    else writeHalves (out ++ escapeChar c) (d :: cs)

def quote (out s : String) : String :=
  if s.any Text.isHalf then writeHalves (out ++ "\"") s.toList ++ "\""
  else (s.foldl (fun out c => out ++ escapeChar c) (out ++ "\"")) ++ "\""

-- What has no numeral is written as null.
def numeral (x : Float) : String :=
  if x.isFinite then Number.text x else "null"

mutual

-- The compact form. Each writer appends to the text so far.
def write (out : String) : Json → String
  | null => out ++ "null"
  | bool b => out ++ (if b then "true" else "false")
  | num x => out ++ numeral x
  | str s => quote out s
  | arr items => writeItems (out ++ "[") "" items ++ "]"
  | obj fields => writeFields (out ++ "\x7b") "" fields ++ "\x7d"

def writeItems (out separator : String) : List Json → String
  | [] => out
  | j :: rest => writeItems (write (out ++ separator) j) "," rest

def writeFields (out separator : String) : List (String × Json) → String
  | [] => out
  | (key, j) :: fs => writeFields (write (quote (out ++ separator) key ++ ":") j) "," fs

end

mutual

-- Every object listed in its order, at all levels.
def arranged : Json → Json
  | arr items => arr (arrangedItems items)
  | obj fields => obj (Record.inOrder (arrangedFields fields))
  | j => j

def arrangedItems : List Json → List Json
  | [] => []
  | j :: rest => arranged j :: arrangedItems rest

def arrangedFields : List (String × Json) → List (String × Json)
  | [] => []
  | (key, j) :: fs => (key, arranged j) :: arrangedFields fs

end

-- A new line indented to a level.
def newline (level : Nat) : String :=
  "\n" ++ String.ofList (List.replicate (2 * level) ' ')

mutual

def writePretty (out : String) (level : Nat) : Json → String
  | arr [] => out ++ "[]"
  | arr items => writePrettyItems (out ++ "[") (level + 1) "" items ++ newline level ++ "]"
  | obj [] => out ++ "\x7b\x7d"
  | obj fields =>
    writePrettyFields (out ++ "\x7b") (level + 1) "" fields ++ newline level ++ "\x7d"
  | j => write out j

def writePrettyItems (out : String) (level : Nat) (separator : String) : List Json → String
  | [] => out
  | j :: rest =>
    writePrettyItems (writePretty (out ++ separator ++ newline level) level j) level "," rest

def writePrettyFields (out : String) (level : Nat) (separator : String) :
    List (String × Json) → String
  | [] => out
  | (key, j) :: fs =>
    writePrettyFields
      (writePretty (quote (out ++ separator ++ newline level) key ++ ": ") level j) level "," fs

end

def compact (j : Json) : String :=
  write "" j.arranged

def pretty (j : Json) : String :=
  writePretty "" 0 j.arranged

end LayeredDiagram.Json
