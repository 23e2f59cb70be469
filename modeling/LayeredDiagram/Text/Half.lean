namespace LayeredDiagram.Text

def isHigh (unit : Nat) : Bool := 0xD800 ≤ unit && unit < 0xDC00

def isLow (unit : Nat) : Bool := 0xDC00 ≤ unit && unit < 0xE000

-- The code point that two halves make.
def pairPoint (high low : Nat) : Nat :=
  0x10000 + (high - 0xD800) * 0x400 + (low - 0xDC00)

def highOf (point : Nat) : Nat := 0xD800 + (point - 0x10000) / 0x400

def lowOf (point : Nat) : Nat := 0xDC00 + (point - 0x10000) % 0x400

-- The first code point that stands for a half.
def firstHalf : Nat := 0x10F800

def isHalf (c : Char) : Bool := firstHalf ≤ c.toNat

-- A character beyond U+FFFF is two UTF-16 units, and a text may hold one of them without the other.
-- The last 2048 code points stand for the units that are such halves. The few characters that have
-- these code points themselves are held as their two halves, so every sequence of units has a text.
def half (unit : Nat) : Char := Char.ofNat (unit - 0xD800 + firstHalf)

-- A code point, or the unit that a half stands for.
def pointOf (c : Char) : Nat :=
  if isHalf c then c.toNat - firstHalf + 0xD800 else c.toNat

def isHighHalf (c : Char) : Bool := isHalf c && isHigh (pointOf c)

def isLowHalf (c : Char) : Bool := isHalf c && isLow (pointOf c)

-- The text of a code point or of a half.
def ofPoint (n : Nat) : List Char :=
  if isHigh n || isLow n then [half n]
  else if firstHalf ≤ n then [half (highOf n), half (lowOf n)]
  else [Char.ofNat n]

-- The first unit of a character as a text of its own.
def firstUnit (c : Char) : Char :=
  if 0x10000 ≤ c.toNat && !isHalf c then half (highOf c.toNat) else c

-- Halves become characters again, those without their counterpart the replacement character.
def joinHalves (cs : List Char) : List Char :=
  go cs []
where
  go : List Char → List Char → List Char
    | [], done => done.reverse
    | [c], done => ((if isHalf c then '\uFFFD' else c) :: done).reverse
    | c :: d :: cs, done =>
      if isHighHalf c && isLowHalf d then
        go cs (Char.ofNat (pairPoint (pointOf c) (pointOf d)) :: done)
      else go (d :: cs) ((if isHalf c then '\uFFFD' else c) :: done)

-- A text out of characters alone.
def ofCharacters (s : String) : String :=
  if s.any isHalf then String.ofList (s.toList.flatMap fun c => ofPoint c.toNat) else s

-- The characters of a text as they are sent and stored.
def toCharacters (s : String) : String :=
  if s.any isHalf then String.ofList (joinHalves s.toList) else s

-- What a text is read back as once it has been sent or stored.
def mended (s : String) : String :=
  ofCharacters (toCharacters s)

end LayeredDiagram.Text
