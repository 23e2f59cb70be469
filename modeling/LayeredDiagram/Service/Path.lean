import LayeredDiagram.Json.Writer
import LayeredDiagram.Text.Blank

namespace LayeredDiagram.Service.Path

open Text

def isSlash (c : Char) : Bool := c == '/' || c == '\\'

def isMark (c : Char) : Bool := c == '?' || c == '#'

-- What follows the host, if a target names one.
def afterHost? (target : List Char) : Option (List Char) :=
  ["http://", "https://"].findSome? fun scheme =>
    if scheme.toList.isPrefixOf target then
      let host := (target.drop scheme.length).dropWhile isSlash
      some (host.dropWhile fun c => !isSlash c && !isMark c)
    else none

-- A target with the slash in front that it may leave out.
def rooted (target : List Char) : List Char :=
  match afterHost? target, target with
  | some rest, _ => rest
  | none, '/' :: _ => target
  | none, _ => '/' :: target

-- Blanks and controls at the end are no part of a target, nor are line breaks and tabs inside it.
def cleaned (target : List Char) : List Char :=
  (target.reverse.dropWhile (·.toNat ≤ 0x20)).reverse.filter fun c =>
    c != '\t' && c != '\n' && c != '\r'

-- A backslash counts as a slash.
def segments (target : List Char) : List (List Char) :=
  let named := (cleaned (rooted target)).takeWhile fun c => !isMark c
  (named.drop 1).splitOnP isSlash

def isHere (segment : List Char) : Bool :=
  let s := String.ofList (segment.map Char.toLower)
  s == "." || s == "%2e"

def isUp (segment : List Char) : Bool :=
  let s := String.ofList (segment.map Char.toLower)
  s == ".." || s == ".%2e" || s == "%2e." || s == "%2e%2e"

-- `done` holds the segments so far, the last one first. A step at the end leaves an empty segment.
def follow (done : List (List Char)) : List (List Char) → List (List Char)
  | [] => done.reverse
  | [s] =>
    if isUp s then ([] :: done.drop 1).reverse
    else if isHere s then ([] :: done).reverse
    else (s :: done).reverse
  | s :: rest =>
    if isUp s then follow (done.drop 1) rest
    else if isHere s then follow done rest
    else follow (s :: done) rest

-- Printable characters that a path does not hold as they are.
def escaped : List Char := ['"', '#', '<', '>', '?', '\x60', '\x7b', '\x7d']

def isPlain (c : Char) : Bool :=
  0x20 < c.toNat && c.toNat ≤ 0x7E && !escaped.contains c

def escapeByte (b : UInt8) : List Char :=
  let digits := (Json.hexDigits b.toNat).drop 2
  '%' :: digits.map Char.toUpper

def escape (cs : List Char) : List Char :=
  cs.flatMap fun c =>
    if isPlain c then [c] else c.toString.toUTF8.toList.flatMap escapeByte

-- An escaped percent sign stays one.
def keepPercents (cs : List Char) : List Char :=
  go cs []
where
  go : List Char → List Char → List Char
    | '%' :: '2' :: '5' :: cs, done => go cs ("5252%".toList ++ done)
    | c :: cs, done => go cs (c :: done)
    | [], done => done.reverse

-- An escape is given by its two digits.
abbrev Escape := Char × Char

namespace Escape

def hexValue (c : Char) : Nat :=
  if c.isDigit then c.toNat - '0'.toNat else c.toLower.toNat - 'a'.toNat + 10

def byte (e : Escape) : UInt8 :=
  UInt8.ofNat (16 * hexValue e.1 + hexValue e.2)

def spell (e : Escape) : List Char :=
  ['%', e.1, e.2]

end Escape

-- Characters that keep their escapes.
def isReserved (c : Char) : Bool :=
  [';', '/', '?', ':', '@', '&', '=', '+', '$', ',', '#'].contains c

def spelled (run : List Escape) : List Char :=
  run.flatMap Escape.spell

-- The text of a run of escapes.
def restore (text : List Char) (run : List Escape) : List Char :=
  go text run []
where
  go : List Char → List Escape → List Char → List Char
    | [], _, done => done.reverse
    | c :: cs, run, done =>
      let form := match run with
        | e :: _ => if isReserved c then e.spell else [c]
        | [] => [c]
      go cs (run.drop c.utf8Size) (form.reverseAux done)

-- A run that is no text stays as it is.
def readRun (run : List Escape) : List Char :=
  match String.fromUTF8? ⟨(run.map Escape.byte).toArray⟩ with
  | some s => restore s.toList run
  | none => spelled run

-- Replaces every run of escapes, as long as it goes.
def mapRuns (f : List Escape → List Char) (cs : List Char) : List Char :=
  go [] cs []
where
  -- `run` holds the escapes that precede, the last one first.
  go (run : List Escape) : List Char → List Char → List Char
    | [], done => ((f run.reverse).reverseAux done).reverse
    | c :: a :: b :: cs, done =>
      if c == '%' && isHexDigit a && isHexDigit b then go ((a, b) :: run) cs done
      else go [] (a :: b :: cs) (c :: (f run.reverse).reverseAux done)
    | c :: cs, done => go [] cs (c :: (f run.reverse).reverseAux done)

def readEscapes (cs : List Char) : List Char :=
  mapRuns readRun (keepPercents cs)

-- An escape that would be read escapes its percent sign.
def guardEscape (e : Escape) : List Char :=
  if e.byte == 0x25 || isReserved (Char.ofNat e.byte.toNat) then e.spell
  else "%25".toList ++ [e.1, e.2]

-- A lone percent sign may form escapes with what was read behind it. They are not read.
def guardRun (run : List Escape) : List Char :=
  if readEscapes (spelled run) == spelled run then spelled run else run.flatMap guardEscape

-- The path that a target names. Queries and fragments are cut off, steps to where one is and back
-- are followed, and escapes are read, except those of characters that part a target and those that
-- are no text. A path that has been read reads as itself.
def ofTarget (target : String) : String :=
  let path := (follow [] (segments (toCharacters target).toList)).flatMap ('/' :: ·)
  ofCharacters (String.ofList (mapRuns guardRun (readEscapes (escape path))))

end LayeredDiagram.Service.Path
