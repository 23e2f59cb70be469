namespace LayeredDiagram.Text

-- The Unicode space separators together with tab, the line controls U+000A to U+000D, the two
-- Unicode line separators and the byte order mark.
def isBlank (c : Char) : Bool :=
  let n := c.toNat
  (9 ≤ n && n ≤ 13) || n == 0x20 || n == 0xA0 || n == 0x1680 || (0x2000 ≤ n && n ≤ 0x200A) ||
    n == 0x2028 || n == 0x2029 || n == 0x202F || n == 0x205F || n == 0x3000 || n == 0xFEFF

-- Characters that end a line wherever "the rest of the line" is meant.
def isLineEnd (c : Char) : Bool :=
  c == '\n' || c == '\r' || c == '\u2028' || c == '\u2029'

def isWord (c : Char) : Bool :=
  c.isAlphanum || c == '_'

-- Characters that an identifier may hold.
def isName (c : Char) : Bool :=
  isWord c || c == '-'

def isHexDigit (c : Char) : Bool :=
  c.isDigit || ('a' ≤ c && c ≤ 'f') || ('A' ≤ c && c ≤ 'F')

def trimStart (cs : List Char) : List Char :=
  cs.dropWhile isBlank

def trimEnd (cs : List Char) : List Char :=
  (cs.reverse.dropWhile isBlank).reverse

def trim (cs : List Char) : List Char :=
  trimEnd (trimStart cs)

-- An identifier is a non-empty run of name characters.
def isIdentifier (cs : List Char) : Bool :=
  !cs.isEmpty && cs.all isName

-- The maximal blank-free runs, in order.
def words (cs : List Char) : List (List Char) :=
  (cs.splitOnP isBlank).filter (!·.isEmpty)

-- ASCII letters compare without case, every other character as it is.
def sameLetter (a b : Char) : Bool :=
  a.toLower == b.toLower

-- What follows `lead` at the start of `cs`, letters compared without case.
def afterLetters : (lead cs : List Char) → Option (List Char)
  | [], cs => some cs
  | _ :: _, [] => none
  | a :: lead, c :: cs => if sameLetter a c then afterLetters lead cs else none

end LayeredDiagram.Text
