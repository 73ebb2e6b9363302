/-!
# Numbers in columns

Listings, dumps and log records write positions with at least four digits; token lists align line
numbers on the right.
-/

namespace StackScript.Text

/-- The decimal digits of a number, filled up on the left to a width. -/
def filled (fill : Char) (width n : Nat) : String :=
  String.ofList ((Nat.toDigits 10 n).leftpad width fill)

/-- A position in the code: four digits or more. -/
def position (n : Nat) : String :=
  filled '0' 4 n

/-- A line number in a column of four. -/
def lineColumn (n : Nat) : String :=
  filled ' ' 4 n

end StackScript.Text
