import LayeredDiagram.Text.LowerCase.Table

namespace LayeredDiagram.Text

def lowerChar (c : Char) : Char :=
  match caseRuns.find? (·.covers c.toNat) with
  | some r => Char.ofNat (c.toNat + r.offset).toNat
  | none => c

def inRanges (ranges : List (Nat × Nat)) (c : Char) : Bool :=
  ranges.any fun (first, last) => first ≤ c.toNat && c.toNat ≤ last

-- Does a cased letter come first, once the characters that case looks through are skipped?
def startsCased (cs : List Char) : Bool :=
  match cs.dropWhile (inRanges caseIgnorableRanges) with
  | c :: _ => inRanges casedRanges c
  | [] => false

-- `before` holds what precedes the sigma, nearest first.
def lowerSigma (before after : List Char) : Char :=
  if startsCased before && !startsCased after then 'ς' else 'σ'

-- Two characters need more than the table: a capital I with a dot becomes two characters, and a
-- capital sigma takes its final form at the end of a word.
def lower (cs : List Char) : List Char :=
  go [] cs []
where
  go (before cs done : List Char) : List Char :=
    match cs with
    | [] => done.reverse
    | c :: cs =>
      let form :=
        if c == 'Σ' then [lowerSigma before cs]
        else if c == 'İ' then ['\u0307', 'i']
        else [lowerChar c]
      go (c :: before) cs (form ++ done)

end LayeredDiagram.Text
