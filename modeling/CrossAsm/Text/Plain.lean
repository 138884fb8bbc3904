/-!
Text as a terminal without controls shows it: control sequences and control characters are left
out, white space stays.
-/

namespace CrossAsm.Text

/-- The part of a control sequence that a text has come to. -/
inductive Sequence where
  /-- No sequence has begun. -/
  | outside
  /-- After the escape character. -/
  | escape
  /-- After an escape that goes on with punctuation. -/
  | intermediate
  /-- Before the letter that ends the parameters. -/
  | control
  /-- At the head of a string for a device. -/
  | device
  /-- In the parameters of that head. -/
  | deviceParameters
  /-- In its punctuation. -/
  | deviceIntermediate
  /-- In a string that goes up to its terminator. -/
  | string
  /-- In a command that goes up to a bell. -/
  | command
deriving DecidableEq

namespace Sequence

/-- The byte that terminates a string, even within the bytes of a character. -/
def terminator : UInt8 := 0x9C

/-- What the character after an escape begins. -/
def opened (c : Char) : Sequence :=
  if c = '[' then control
  else if c = ']' then command
  else if c = 'P' then device
  else if c = 'X' || c = '^' || c = '_' then string
  else if ' ' ≤ c && c ≤ '/' then intermediate
  else if '0' ≤ c && c ≤ '~' then outside
  else escape

/-- Where a character leads that is not shown. An escape starts over from everywhere, and two
other controls give up on the sequence. -/
def next (s : Sequence) (c : Char) : Sequence :=
  if c = '\x1b' then escape
  else if c = '\x18' || c = '\x1a' then outside
  else
    match s with
    | outside => outside
    | escape => opened c
    | intermediate => if '0' ≤ c && c ≤ '~' then outside else intermediate
    | control => if '@' ≤ c && c ≤ '~' then outside else control
    | device =>
      if ' ' ≤ c && c ≤ '/' then deviceIntermediate
      else if '0' ≤ c && c ≤ '?' then deviceParameters
      else if '@' ≤ c && c ≤ '~' then string
      else device
    | deviceParameters =>
      if ' ' ≤ c && c ≤ '/' then deviceIntermediate
      else if '<' ≤ c && c ≤ '~' then string
      else deviceParameters
    | deviceIntermediate => if '0' ≤ c && c ≤ '~' then string else deviceIntermediate
    | string => if (String.utf8EncodeChar c).contains terminator then outside else string
    | command => if c = '\x07' then outside else command

def isBreak (c : Char) : Bool := c = '\t' || c = '\n' || c = '\x0c' || c = '\r'

/-- Whether a character is shown. Strings swallow the white space too. -/
def shows : Sequence → Char → Bool
  | outside, c => isBreak c || (' ' ≤ c && c ≠ '\x7f')
  | escape, c | intermediate, c | control, c => isBreak c
  | device, _ | deviceParameters, _ | deviceIntermediate, _ | string, _ | command, _ => false

end Sequence

/-- What is shown of a text that stands in a sequence. White space suspends the sequence: what
comes next is shown as it would be outside, until a control takes the sequence up again. A
character beyond ASCII ends a suspended sequence. -/
def plainFrom (s : Sequence) (suspended : Bool) : List Char → List Char
  | [] => []
  | c :: rest =>
    if s.shows c || (suspended && Sequence.outside.shows c) then
      c :: plainFrom (if c.toNat < 0x80 then s else .outside) true rest
    else plainFrom (s.next c) false rest

def plain (text : String) : String := String.ofList (plainFrom .outside false text.toList)

end CrossAsm.Text
