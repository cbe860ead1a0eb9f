import MethodGroups.Toml.Lexeme
import MethodGroups.Toml.Value

/-!
# TOML numbers

Integers have at most 64 bits, with a sign in decimal and without one in
hexadecimal, octal and binary.  A float must have a fraction or an exponent, and
one that would be rounded to positive infinity is refused.
-/

namespace MethodGroups.Toml.Reader

/-- Take a sign, if there is one, and tell whether it is a minus. -/
def sign : Reader Bool := do
  match ← maybe (satisfy fun c => c = '+' || c = '-') with
  | some '-' => return true
  | _ => return false

/-- Take decimal digits without leading zeros. -/
def decimal : Reader (List Char) :=
  (do
    char '0'
    return ['0']) <|>
  (do
    let first ← satisfy fun c => isDigit c && c ≠ '0'
    let rest ← many (satisfy isDigit <|> char '_' *> satisfy isDigit)
    return first :: rest)

/-- Integers are less than this, and at least its negative. -/
def integerLimit : Nat := Nat.pow 2 63

/-- Halfway between the largest binary float of 64 bits and the next power of
two: numbers from here on are rounded to infinity. -/
def floatLimit : Nat := Nat.pow 2 1024 - Nat.pow 2 970

/-- Take an integer in a base that is marked by a letter. -/
def marked (mark : Char) (base : Nat) (accepts : Char → Bool) : Reader Int := do
  exactly ['0', mark]
  let value := digitsValue base (← groupedDigits accepts)
  require (value < integerLimit)
  return value

/-- Take an integer in decimal. -/
def decimalInteger : Reader Int := do
  let negative ← sign
  let magnitude := digitsValue 10 (← decimal)
  require (magnitude < integerLimit || (negative && magnitude = integerLimit))
  return if negative then -Int.ofNat magnitude else Int.ofNat magnitude

/-- Take an integer. -/
def integer : Reader Int :=
  marked 'x' 16 isHexDigit <|> marked 'o' 8 (fun c => '0' ≤ c && c ≤ '7') <|>
    marked 'b' 2 (fun c => c = '0' || c = '1') <|> decimalInteger

/-- Whether a decimal number, given by its digits and a power of ten, reaches the
limit of floats.  Numbers of far more or far fewer places need no comparison. -/
def overflows (digits : Nat) (exponent : Int) : Bool :=
  let magnitude : Int := (toString digits).length + exponent
  if digits = 0 || magnitude < 309 then false
  else if 309 < magnitude then true
  else if 0 ≤ exponent then floatLimit ≤ digits * Nat.pow 10 exponent.toNat
  else floatLimit * Nat.pow 10 (-exponent).toNat ≤ digits

/-- Take an exponent, or find that there is none. -/
def exponent : Reader Int := do
  let _ ← satisfy fun c => c = 'e' || c = 'E'
  let negative ← sign
  let magnitude : Int := digitsValue 10 (← groupedDigits isDigit)
  return if negative then -magnitude else magnitude

/-- Take a fraction with its point. -/
def fraction : Reader (List Char) := char '.' *> groupedDigits isDigit

/-- Take a float written in digits. -/
def finiteFloat : Reader Unit := do
  let negative ← sign
  let whole ← decimal
  let (fraction, exponent) ←
    (do
      let exponent ← exponent
      return ([], exponent)) <|>
    (do
      let fraction ← fraction
      let exponent ← maybe exponent
      return (fraction, exponent.getD 0))
  let digits := digitsValue 10 (whole ++ fraction)
  require (negative || !overflows digits (exponent - fraction.length))

/-- Take a float that is no number of digits. -/
def specialFloat : Reader Unit := do
  let _ ← sign
  exactly "inf".toList <|> exactly "nan".toList

/-- Take a float, as it is spelled. -/
def float : Reader String := spelling (finiteFloat <|> specialFloat)

end MethodGroups.Toml.Reader
