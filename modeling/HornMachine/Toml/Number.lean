import HornMachine.Toml.Text

/-!
This module contains the numbers and the dates of settings documents.
-/

namespace HornMachine

namespace Toml

open Reader

/--
Digits, among which single underscores may stand.
-/
def digits (isDigit : Char → Bool) : Reader (List Char) := do
  let first ← satisfy isDigit
  let rest ← many (satisfy isDigit <|> (char '_' *> satisfy isDigit))
  return first :: rest

def sign : Reader Bool :=
  (char '-' *> pure true) <|> (char '+' *> pure false) <|> pure false

def decimal : Reader (List Char) :=
  (char '0' *> pure ['0']) <|> digits Char.isDigit

/--
Integers have 64 bits.
-/
def isInteger (n : Int) : Bool :=
  -9223372036854775808 ≤ n && n ≤ 9223372036854775807

def ofBase (letter : Char) (base : Nat) (isDigit : Char → Bool) : Reader Int := do
  word ['0', letter]
  return numeral base (← digits isDigit)

def signedDecimal : Reader Int := do
  let minus ← sign
  let n : Int := numeral 10 (← decimal)
  return if minus then -n else n

/--
Only decimal integers may have a sign.
-/
def integer : Reader Int := do
  let n ← ofBase 'x' 16 isHexDigit <|> ofBase 'o' 8 (fun c => '0' ≤ c && c ≤ '7') <|>
    ofBase 'b' 2 (fun c => c == '0' || c == '1') <|> signedDecimal
  if isInteger n then
    return n
  else
    failure

/--
Whether `mantissa * 10 ^ exponent` is so large that the nearest number with 53 significant bits and
an exponent of 11 bits is infinity.
-/
def overflows (mantissa : Nat) (exponent : Int) : Bool :=
  let bound := 18014398509481983 * Nat.pow 2 970
  let magnitude := (Nat.toDigits 10 mantissa).length + exponent
  if mantissa = 0 ∨ magnitude < 300 then
    false
  else if 320 < magnitude then
    true
  else
    bound * Nat.pow 10 (-exponent).toNat ≤ mantissa * Nat.pow 10 exponent.toNat

def fraction : Reader (List Char) := char '.' *> digits Char.isDigit

def exponent : Reader Int := do
  char 'e' <|> char 'E'
  let minus ← sign
  let n : Int := numeral 10 (← digits Char.isDigit)
  return if minus then -n else n

/--
A number with a fraction, an exponent, or both. It may not be too large.
-/
def finiteFloat : Reader Unit := do
  let minus ← sign
  let whole ← decimal
  let (places, power) ←
    (do return (← fraction, (← exponent <|> pure 0))) <|> (do return ([], ← exponent))
  if !minus && overflows (numeral 10 (whole ++ places)) (power - places.length) then
    failure

def specialFloat : Reader Unit := do
  let _ ← sign
  word ['i', 'n', 'f'] <|> word ['n', 'a', 'n']

def float : Reader String := taken (finiteFloat <|> specialFloat)

def field (count low high : Nat) : Reader Nat := do
  let n := numeral 10 (← takeExactly count Char.isDigit)
  if low ≤ n ∧ n ≤ high then
    return n
  else
    failure

def isLeapYear (year : Nat) : Bool :=
  year % 4 == 0 && (year % 100 != 0 || year % 400 == 0)

def daysInMonth (year month : Nat) : Nat :=
  match month with
  | 2 => if isLeapYear year then 29 else 28
  | 4 | 6 | 9 | 11 => 30
  | _ => 31

def fullDate : Reader Unit := do
  let year ← field 4 0 9999
  char '-'
  let month ← field 2 1 12
  char '-'
  discard (field 2 1 (daysInMonth year month))

def time : Reader Unit := do
  discard (field 2 0 23)
  char ':'
  discard (field 2 0 59)
  char ':'
  discard (field 2 0 60)
  discard (char '.' *> takeWhile1 Char.isDigit) <|> pure ()

def timeOffset : Reader Unit :=
  char 'Z' <|> char 'z' <|> do
    char '+' <|> char '-'
    discard (field 2 0 23)
    char ':'
    discard (field 2 0 59)

def datetime : Reader String :=
  taken ((do
    fullDate
    (do
      char 'T' <|> char 't' <|> char ' '
      time
      timeOffset <|> pure ()) <|> pure ()) <|> time)

end Toml

end HornMachine
