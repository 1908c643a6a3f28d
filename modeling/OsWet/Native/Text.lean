import OsWet.ForStd.Words
import Mathlib.Algebra.Group.Int.Defs
import Mathlib.Algebra.Group.Nat.Defs

/-!
# Strings of the shell

`std::string` as a list of characters, with the string functions that the shell uses:
trimming, splitting into words, searching, and the conversions to numbers of the C
library. A command line is a C string, so it has no NUL character in it.
-/

namespace OsWet

/-- `std::string`. -/
abbrev Text : Type := List Char

/-- A string literal. -/
def text (s : String) : Text := s.toList

/-- `std::to_string`. -/
def toText (n : Int) : Text := text (toString n)

namespace Text

/-- `WHITESPACE`, which is also what `isspace` accepts and what separates the words of
    an input stream. -/
def WHITESPACE : Text := [' ', '\n', '\r', '\t', '\x0c', '\x0b']

/-- A character that `isspace` accepts. -/
def isSpace (c : Char) : Bool := c ∈ WHITESPACE

/-- `ltrim`: the string from the first character that is not white space. -/
def ltrim (s : Text) : Text := s.dropWhile isSpace

/-- `rtrim`: the string up to the last character that is not white space. -/
def rtrim (s : Text) : Text := s.rdropWhile isSpace

/-- The string without the white space around it. -/
def trim (s : Text) : Text := rtrim (ltrim s)

/-- The words that `iss >> s` reads from a stream. -/
def words (s : Text) : List Text := wordsBy isSpace s

/-- The parts that `getline` with a delimiter reads from a stream. A last part that is
    empty is not there for `getline`. -/
def parts (delimiter : Char) (s : Text) : List Text :=
  let all := s.splitOnP (· == delimiter)
  if all.getLast? = some [] then all.dropLast else all

/-- `s.find(pattern)`, with `none` for `npos`. -/
def find (pattern s : Text) : Option Nat := findPattern pattern s

/-! ## Numbers -/

/-- A decimal digit. -/
def isDigit (c : Char) : Bool := '0' ≤ c && c ≤ '9'

/-- The value of a string of decimal digits. -/
def decimal (s : Text) : Int :=
  s.foldl (fun n c => 10 * n + ((c.toNat : Int) - ('0'.toNat : Int))) 0

/-- `LONG_MIN` and `LONG_MAX`. -/
def LONG_MIN : Int := -2 ^ 63

/-- The largest `long`. -/
def LONG_MAX : Int := 2 ^ 63 - 1

/-- An optional sign: whether it is a minus, and what follows it. -/
def sign : Text → Bool × Text
  | '-' :: s => (true, s)
  | '+' :: s => (false, s)
  | s => (false, s)

/-- `strtol(s, &end, 10)`: the number at the start of `s`, and the string at `end`.
    A string without a number has the value 0 and ends where it starts; a number that
    does not fit a `long` is replaced by the nearest one that does. -/
def strtol (s : Text) : Int × Text :=
  let (negative, rest) := sign (s.dropWhile isSpace)
  let digits := rest.takeWhile isDigit
  if digits = [] then (0, s)
  else
    let value := if negative then -decimal digits else decimal digits
    (max LONG_MIN (min LONG_MAX value), rest.dropWhile isDigit)

/-- The conversion of a `long` to an `int`. -/
def toInt (n : Int) : Int := n.bmod (2 ^ 32)

/-- `atoi`. -/
def atoi (s : Text) : Int := toInt (strtol s).1

end Text

end OsWet
