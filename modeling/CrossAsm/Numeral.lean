/-!
Positional numerals: the digits of a number in a base, the number that digits stand for, and the
characters that write them.
-/

namespace CrossAsm.Numeral

/-- The number that digits stand for, the most significant digit first. -/
def value (base : Nat) (digits : List Nat) : Nat :=
  digits.foldl (fun n d => base * n + d) 0

/-- The digits of `n` put in front of `tail`, at most `count` of them. -/
def digitsOnto (base : Nat) : Nat → Nat → List Nat → List Nat
  | 0, _, tail => tail
  | count + 1, n, tail =>
    if n < base then n :: tail else digitsOnto base count (n / base) (n % base :: tail)

/-- The digits of `n`, the most significant first. No base from 2 on needs more of them than
base 2 does. -/
def digits (base n : Nat) : List Nat := digitsOnto base (n.log2 + 1) n []

def digitChar (d : Nat) : Char :=
  if d < 10 then Char.ofNat ('0'.toNat + d) else Char.ofNat ('a'.toNat + (d - 10))

/-- The value of a digit, letters of either case standing for ten and up. -/
def digitValue (c : Char) : Nat :=
  if c.isDigit then c.toNat - '0'.toNat
  else if c.isLower then c.toNat - 'a'.toNat + 10
  else c.toNat - 'A'.toNat + 10

def isHexDigit (c : Char) : Bool :=
  c.isDigit || ('a' ≤ c && c ≤ 'f') || ('A' ≤ c && c ≤ 'F')

def isBinaryDigit (c : Char) : Bool := c = '0' || c = '1'

/-- The number that digit characters stand for. -/
def read (base : Nat) (text : List Char) : Nat := value base (text.map digitValue)

def write (base n : Nat) : List Char := (digits base n).map digitChar

/-- Text filled up on the left to at least `width` characters. -/
def padLeft (fill : Char) (width : Nat) (text : List Char) : List Char :=
  List.replicate (width - text.length) fill ++ text

def decimal (n : Nat) : String := String.ofList (write 10 n)

/-- Decimal text, right-aligned in `width` columns. -/
def decimalRight (width n : Nat) : String := String.ofList (padLeft ' ' width (write 10 n))

/-- Lower-case hexadecimal text of at least `width` digits. -/
def hex (width n : Nat) : String := String.ofList (padLeft '0' width (write 16 n))

/-- Decimal text with a minus sign where it is needed. -/
def signed : Int → String
  | .ofNat n => decimal n
  | .negSucc n => "-" ++ decimal (n + 1)

end CrossAsm.Numeral
