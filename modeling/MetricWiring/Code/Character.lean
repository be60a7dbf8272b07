import MetricWiring.Code.IdentifierRanges

/-!
# Classes of characters in source text
-/
namespace MetricWiring.Code

def inRanges (ranges : List (Nat × Nat)) (n : Nat) : Bool :=
  ranges.any fun r => decide (r.1 ≤ n) && decide (n ≤ r.2)

/-- Unicode white space. -/
def isWhite (c : Char) : Bool :=
  inRanges [(9, 13), (32, 32), (0x85, 0x85), (0xA0, 0xA0), (0x1680, 0x1680), (0x2000, 0x200A),
    (0x2028, 0x2029), (0x202F, 0x202F), (0x205F, 0x205F), (0x3000, 0x3000)] c.toNat

/-- What separates tokens: white space and the two direction marks. -/
def isBlank (c : Char) : Bool := isWhite c || c.toNat == 0x200E || c.toNat == 0x200F

def isIdentStart (c : Char) : Bool := c == '_' || c.isAlpha || inRanges startRanges c.toNat

def isIdentContinue (c : Char) : Bool :=
  isIdentStart c || c.isDigit || inRanges continueRanges c.toNat

/-- The characters that are signs by themselves. The quote of a lifetime is one too. -/
def isSign (c : Char) : Bool := "~!@#$%^&*-=+|;:,<.>/?'".toList.contains c

end MetricWiring.Code
