/-!
Texts by lines and by offsets.

A line ends at any of the usual line and paragraph breaks, a carriage return with a line feed
counting as one; a break at the very end starts no further line. Offsets count code points.
-/
namespace Abacus.Text

/-- Line feed, vertical tab, form feed, carriage return, the three information separators, next
line, and the line and paragraph separators. -/
def breakCodes : List Nat := [0x0a, 0x0b, 0x0c, 0x0d, 0x1c, 0x1d, 0x1e, 0x85, 0x2028, 0x2029]

def isLineBreak (c : Char) : Bool := breakCodes.contains c.toNat

/-- The lines of a text, without their breaks. -/
def lines : List Char → List (List Char)
  | [] => []
  | '\r' :: '\n' :: cs => [] :: lines cs
  | c :: cs =>
    if isLineBreak c then [] :: lines cs
    else
      match lines cs with
      | [] => [[c]]
      | line :: rest => (c :: line) :: rest

/-- The line of the given number, counted from one; empty if there is none. -/
def lineAt (cs : List Char) (number : Int) : String :=
  if number < 1 then "" else String.ofList ((lines cs)[(number - 1).toNat]?.getD [])

/-- The characters from one offset up to another. -/
def slice (cs : List Char) (start stop : Nat) : String :=
  String.ofList ((cs.drop start).take (stop - start))

/-- What stands before the first line feed. -/
def firstLine (text : String) : String := String.ofList (text.toList.takeWhile (· ≠ '\n'))

/-- Both kinds of carriage return become line feeds. -/
def plainBreaks : List Char → List Char
  | [] => []
  | '\r' :: '\n' :: cs => '\n' :: plainBreaks cs
  | c :: cs => (if c = '\r' then '\n' else c) :: plainBreaks cs

end Abacus.Text
