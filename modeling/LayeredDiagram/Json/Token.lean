import LayeredDiagram.Json.Basic
import LayeredDiagram.Number.Reader
import LayeredDiagram.Text.Half

namespace LayeredDiagram.Json

open Text

inductive Token where
  | openObject
  | closeObject
  | openArray
  | closeArray
  | colon
  | comma
  | text (s : String)
  | scalar (j : Json)

-- What the characters since the last token belong to. Collected characters stand in reverse.
inductive Pending where
  | none
  | bare (run : List Char)
  | text (points : List Nat)
  | escape (points : List Nat)
  | hex (points : List Nat) (digits : Nat) (value : Nat)

-- Tokens are read one character at a time. Numbers and literal names are collected as bare runs and
-- judged where the run ends. Text collects code points, so that two escaped halves of a character
-- can be joined.
structure Lexer where
  tokens : List Token := []
  pending : Pending := .none

namespace Token

-- The text of code points and halves, from the last one to the first.
def ofPoints (points : List Nat) : List Char :=
  go points []
where
  go : List Nat → List Char → List Char
    | low :: high :: rest, done =>
      if isLow low && isHigh high then go rest (ofPoint (pairPoint high low) ++ done)
      else go (high :: rest) (ofPoint low ++ done)
    | [last], done => ofPoint last ++ done
    | [], done => done

-- No leading zero, and a digit on both sides of a point.
def number? (cs : List Char) : Option Float :=
  let (negative, rest) := match cs with
    | '-' :: r => (true, r)
    | r => (false, r)
  let whole := rest.takeWhile Char.isDigit
  let after := rest.dropWhile Char.isDigit
  let wholeOk := match whole with
    | [] => false
    | '0' :: _ :: _ => false
    | _ => true
  let fractionOk := match after with
    | '.' :: d :: _ => d.isDigit
    | '.' :: [] => false
    | _ => true
  if wholeOk && fractionOk then
    match Number.Numeral.scan? rest with
    | some (n, []) => some (Number.signed negative n.toFloat)
    | _ => none
  else none

def ofBare? (cs : List Char) : Option Token :=
  if cs == "true".toList then some (scalar (bool true))
  else if cs == "false".toList then some (scalar (bool false))
  else if cs == "null".toList then some (scalar null)
  else (number? cs).map fun x => scalar (num x)

def ofMark? : Char → Option Token
  | '{' => some openObject
  | '}' => some closeObject
  | '[' => some openArray
  | ']' => some closeArray
  | ':' => some colon
  | ',' => some comma
  | _ => none

def isSpace (c : Char) : Bool :=
  c == ' ' || c == '\t' || c == '\n' || c == '\r'

def ofEscape? : Char → Option Nat
  | '"' => some '"'.toNat
  | '\\' => some '\\'.toNat
  | '/' => some '/'.toNat
  | 'b' => some 8
  | 'f' => some 12
  | 'n' => some 10
  | 'r' => some 13
  | 't' => some 9
  | _ => none

end Token

namespace Lexer

open Token

-- Ends a bare run, if one is pending.
def settle? (l : Lexer) : Option Lexer :=
  match l.pending with
  | .none => some l
  | .bare run => (ofBare? run.reverse).map fun t => ⟨t :: l.tokens, .none⟩
  | _ => none

def step? (l : Lexer) (c : Char) : Option Lexer :=
  match l.pending with
  | .text points =>
    if c == '"' then some ⟨.text (String.ofList (ofPoints points)) :: l.tokens, .none⟩
    else if c == '\\' then some { l with pending := .escape points }
    else if c.toNat < 0x20 then none
    else some { l with pending := .text (pointOf c :: points) }
  | .escape points =>
    if c == 'u' then some { l with pending := .hex points 0 0 }
    else (ofEscape? c).map fun n => { l with pending := .text (n :: points) }
  | .hex points digits value =>
    if isHexDigit c then
      let value := 16 * value + Number.digitValue c
      if digits == 3 then some { l with pending := .text (value :: points) }
      else some { l with pending := .hex points (digits + 1) value }
    else none
  | pending =>
    if isSpace c then l.settle?
    else if c == '"' then l.settle?.map fun l => { l with pending := .text [] }
    else match ofMark? c with
      | some t => l.settle?.map fun l => { l with tokens := t :: l.tokens }
      | none =>
        match pending with
        | .bare run => some { l with pending := .bare (c :: run) }
        | _ => some { l with pending := .bare [c] }

def run? (l : Lexer) : List Char → Option Lexer
  | [] => l.settle?
  | c :: cs =>
    match l.step? c with
    | some l => l.run? cs
    | none => none

end Lexer

namespace Token

def ofText? (cs : List Char) : Option (List Token) :=
  (Lexer.run? {} cs).map (·.tokens.reverse)

end Token

end LayeredDiagram.Json
