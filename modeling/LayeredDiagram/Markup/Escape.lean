import LayeredDiagram.Text.Blank

namespace LayeredDiagram.Markup

open Text

def entity (c : Char) : List Char :=
  match c with
  | '&' => "&amp;".toList
  | '<' => "&lt;".toList
  | '>' => "&gt;".toList
  | '"' => "&quot;".toList
  | '\'' => "&apos;".toList
  | c => [c]

def escape (cs : List Char) : List Char :=
  cs.flatMap entity

-- Removes what `find` measures at each place, from left to right; 0 finds nothing there.
def removeAll (find : List Char → Nat) (cs : List Char) : List Char :=
  go 0 cs []
where
  -- `skip` counts the characters of a found stretch that are still to be passed over.
  go : Nat → List Char → List Char → List Char
    | _, [], done => done.reverse
    | skip + 1, _ :: cs, done => go skip cs done
    | 0, c :: cs, done =>
      match find (c :: cs) with
      | 0 => go 0 cs (c :: done)
      | n + 1 => go n cs done

-- Counts on from `n` over blanks up to an equals sign; 0 if something else stands there.
def afterWord (n : Nat) : List Char → Nat
  | [] => 0
  | c :: cs => if c == '=' then n + 1 else if isBlank c then afterWord (n + 1) cs else 0

-- Counts on from `n` over the rest of a word and what follows it.
def afterWordStart (n : Nat) : List Char → Nat
  | [] => 0
  | c :: cs => if isWord c then afterWordStart (n + 1) cs else afterWord n (c :: cs)

-- `on`, a word, blanks and an equals sign.
def handlerLength (cs : List Char) : Nat :=
  match afterLetters ['o', 'n'] cs with
  | some (c :: cs) => if isWord c then afterWordStart 3 cs else 0
  | _ => 0

def leadLength (lead cs : List Char) : Nat :=
  if (afterLetters lead cs).isSome then lead.length else 0

def scriptAddress : List Char := "javascript:".toList

def visualScriptAddress : List Char := "vbscript:".toList

-- Attribute values also lose event handlers and script addresses, letters compared without case, in
-- one pass for each of the three patterns.
def escapeAttribute (cs : List Char) : List Char :=
  removeAll (leadLength visualScriptAddress)
    (removeAll (leadLength scriptAddress) (removeAll handlerLength (escape cs)))

end LayeredDiagram.Markup
