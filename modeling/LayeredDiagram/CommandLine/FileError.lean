import LayeredDiagram.Json.Writer
import LayeredDiagram.Text.Units

namespace LayeredDiagram.CommandLine

-- Why a file cannot be read or written.
inductive FileError where
  | missing (path : String)
  | denied (path : String)
  -- Something on the way to the file is no folder.
  | notFolder (path : String)
  -- A folder cannot be read as text.
  | folder
  -- A folder cannot be opened for writing.
  | folderOpened (path : String)
  -- A name on the way, or the path as a whole, is longer than names can be.
  | tooLong (path : String)
  -- A path cannot hold the character U+0000.
  | unnameable (path : String)
  | other (reason : String)
deriving DecidableEq, Repr

namespace FileError

def opening (reason path : String) : String :=
  reason ++ ", open '" ++ path ++ "'"

-- Two hexadecimal digits.
def codeDigits (n : Nat) : List Char :=
  ((Json.hexDigits n).drop 2).map Char.toUpper

def showChar (mark c : Char) : List Char :=
  match c with
  | '\x08' => "\\b".toList
  | '\t' => "\\t".toList
  | '\n' => "\\n".toList
  | '\x0c' => "\\f".toList
  | '\r' => "\\r".toList
  | '\\' => "\\\\".toList
  | c =>
    if c == mark then ['\\', c]
    else if c.toNat < 0x20 || (0x7F ≤ c.toNat && c.toNat ≤ 0x9F) then
      "\\x".toList ++ codeDigits c.toNat
    else [c]

-- A dollar sign before a brace stands for more than itself between the third kind of marks.
def holdsInsertion (text : List Char) : Bool :=
  (text.zip (text.drop 1)).contains ('$', '\x7b')

-- The first quotation mark that the text does not hold; the single one if it holds them all.
def quotationMark (text : List Char) : Char :=
  if !text.contains '\'' then '\''
  else if !text.contains '"' then '"'
  else if !text.contains '\x60' && !holdsInsertion text then '\x60'
  else '\''

-- The characters within so many units.
def takeUnits (limit : Nat) : List Char → List Char
  | [] => []
  | c :: cs =>
    if Text.unitWidth c ≤ limit then c :: takeUnits (limit - Text.unitWidth c) cs else []

def shownUnits : Nat := 128

def showPath (path : String) : String :=
  let text := path.toList
  let mark := quotationMark text
  let shown := mark :: text.flatMap (showChar mark) ++ [mark]
  if shownUnits < Text.units shown then String.ofList (takeUnits shownUnits shown) ++ "..."
  else String.ofList shown

def name : FileError → String
  | unnameable _ => "TypeError"
  | _ => "Error"

def message : FileError → String
  | missing path => opening "ENOENT: no such file or directory" path
  | denied path => opening "EACCES: permission denied" path
  | notFolder path => opening "ENOTDIR: not a directory" path
  | folder => "EISDIR: illegal operation on a directory, read"
  | folderOpened path => opening "EISDIR: illegal operation on a directory" path
  | tooLong path => opening "ENAMETOOLONG: name too long" path
  | unnameable path =>
    "The argument 'path' must be a string, Uint8Array, or URL without null bytes. Received " ++
      showPath path
  | other reason => reason

end FileError

end LayeredDiagram.CommandLine
