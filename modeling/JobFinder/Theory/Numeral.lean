/-
# Theory.Numeral -- the texts that are read as a floating-point number

A numeral is a sign, if any, and a decimal or hexadecimal significand with an exponent, if
any, or one of the words for infinity and for no number.  Blanks are no part of it.  Which
texts are numerals is a regular language; `IsNumeral` is decided by its derivatives.
-/
import Mathlib.Computability.RegularExpressions

namespace JobFinder.Theory.Numeral

set_option autoImplicit false

/-- One of some characters. -/
def oneOf (chars : List Char) : RegularExpression Char :=
  chars.foldr (fun c rest => .char c + rest) 0

/-- One or none. -/
def maybe (P : RegularExpression Char) : RegularExpression Char := 1 + P

/-- One or more. -/
def many (P : RegularExpression Char) : RegularExpression Char := P * P.star

/-- A word, in small letters or capitals. -/
def word (letters : String) : RegularExpression Char :=
  letters.toList.foldr (fun c rest => oneOf [c, c.toUpper] * rest) 1

def sign : RegularExpression Char := maybe (oneOf ['+', '-'])

def digit : RegularExpression Char := oneOf "0123456789".toList

def hexDigit : RegularExpression Char := oneOf "0123456789abcdefABCDEF".toList

/-- Digits, with a point before, among or after them. -/
def significand (digit : RegularExpression Char) : RegularExpression Char :=
  many digit * maybe (.char '.' * digit.star) + .char '.' * many digit

/-- A power, after the letter that marks it. -/
def exponent (mark : String) : RegularExpression Char :=
  maybe (word mark * (sign * many digit))

def decimal : RegularExpression Char := significand digit * exponent "e"

def hexadecimal : RegularExpression Char := word "0x" * (significand hexDigit * exponent "p")

def infinity : RegularExpression Char := word "inf" * maybe (word "inity")

def numeral : RegularExpression Char :=
  sign * (decimal + (hexadecimal + (infinity + word "nan")))

end Numeral

/-- The text is a numeral. -/
def IsNumeral (text : String) : Prop := text.toList ∈ Numeral.numeral.matches'

instance (text : String) : Decidable (IsNumeral text) :=
  inferInstanceAs (Decidable (text.toList ∈ Numeral.numeral.matches'))

end JobFinder.Theory
