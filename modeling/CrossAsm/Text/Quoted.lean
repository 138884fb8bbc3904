import CrossAsm.Numeral
import CrossAsm.Text.Mark
import CrossAsm.Text.Unassigned

/-!
Text in quotation marks. What would end a line or the quotation, and what would not be seen, is
written as an escape.
-/

namespace CrossAsm.Text

/-- Spaces and separators, except for the space itself. -/
def blankRanges : Ranges :=
  [(0xA0, 0xA0), (0x1680, 0x1680), (0x2000, 0x200A), (0x2028, 0x2029), (0x202F, 0x202F),
   (0x205F, 0x205F), (0x3000, 0x3000)]

/-- Controls and formats. -/
def controlRanges : Ranges :=
  [(0x0, 0x1F), (0x7F, 0x9F), (0xAD, 0xAD), (0x600, 0x605), (0x61C, 0x61C), (0x6DD, 0x6DD),
   (0x70F, 0x70F), (0x890, 0x891), (0x8E2, 0x8E2), (0x180E, 0x180E), (0x200B, 0x200F),
   (0x202A, 0x202E), (0x2060, 0x2064), (0x2066, 0x206F), (0xFEFF, 0xFEFF), (0xFFF9, 0xFFFB),
   (0x110BD, 0x110BD), (0x110CD, 0x110CD), (0x13430, 0x1343F), (0x1BCA0, 0x1BCA3),
   (0x1D173, 0x1D17A), (0xE0001, 0xE0001), (0xE0020, 0xE007F)]

/-- Code points left to private agreement. -/
def privateRanges : Ranges := [(0xE000, 0xF8FF), (0xF0000, 0xFFFFD), (0x100000, 0x10FFFD)]

/-- Letters that are drawn as nothing. -/
def fillerRanges : Ranges := [(0x115F, 0x1160), (0x3164, 0x3164), (0xFFA0, 0xFFA0)]

/-- Marks that take up a place of their own. -/
def spacingMarkRanges : Ranges := [(0xFF9E, 0xFF9F)]

/-- Whether a character can be seen where it stands. Most marks would be drawn on the quotation
mark or the letter before them. -/
def isVisible (c : Char) : Bool :=
  if c.toNat < 0x7F then 0x20 ≤ c.toNat
  else !(blankRanges.holds c || controlRanges.holds c || privateRanges.holds c
    || fillerRanges.holds c || (isMark c && !spacingMarkRanges.holds c) || isUnassigned c)

/-- The letter that stands for a character behind a backslash. -/
def escapeLetter? : Char → Option Char
  | '"' => some '"'
  | '\\' => some '\\'
  | '\n' => some 'n'
  | '\r' => some 'r'
  | '\t' => some 't'
  | '\x00' => some '0'
  | _ => none

def quoteChar (c : Char) : String :=
  match escapeLetter? c with
  | some letter => String.ofList ['\\', letter]
  | none =>
    if isVisible c then String.singleton c
    else "\\u\x7b" ++ Numeral.hex 1 c.toNat ++ "\x7d"

def quote (text : String) : String := "\"" ++ String.join (text.toList.map quoteChar) ++ "\""

end CrossAsm.Text
