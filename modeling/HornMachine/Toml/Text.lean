import HornMachine.Toml.Reader

/-!
This module contains the strings and keys of settings documents.
-/

namespace HornMachine

namespace Toml

open Reader

def isHexDigit (c : Char) : Bool :=
  c.isDigit || ('a' ≤ c && c ≤ 'f') || ('A' ≤ c && c ≤ 'F')

def digitValue (c : Char) : Nat :=
  if c.isDigit then
    c.toNat - '0'.toNat
  else if c ≤ 'F' then
    c.toNat - 'A'.toNat + 10
  else
    c.toNat - 'a'.toNat + 10

def numeral (base : Nat) (digits : List Char) : Nat :=
  digits.foldl (fun n c => n * base + digitValue c) 0

/--
A character by its code point, which has a fixed number of hexadecimal digits.
-/
def codePoint (count : Nat) : Reader Char := do
  let n := numeral 16 (← takeExactly count isHexDigit)
  if n.isValidChar then
    return Char.ofNat n
  else
    failure

def escapeTail : Reader Char := do
  match ← satisfy fun _ => true with
  | 'b' => return '\x08'
  | 't' => return '\t'
  | 'n' => return '\n'
  | 'f' => return '\x0c'
  | 'r' => return '\r'
  | '"' => return '"'
  | '\\' => return '\\'
  | 'u' => codePoint 4
  | 'U' => codePoint 8
  | _ => failure

def escapeSequence : Reader Char := char '\\' *> escapeTail

def basicString : Reader (List Char) := do
  char '"'
  let cs ← many (satisfy (fun c => isPlain c && c != '"' && c != '\\') <|> escapeSequence)
  char '"'
  return cs

def literalString : Reader (List Char) := do
  char '\''
  let cs ← takeWhile fun c => isPlain c && c != '\''
  char '\''
  return cs

/--
A line end that a backslash removes, with all blanks and line ends behind it.
-/
def foldedLine : Reader Unit := do
  char '\\'
  blanks
  newline
  discard (many (discard (satisfy isBlank) <|> newline))

def multilinePiece (quote : Char) (escapes : Bool) : Reader (List Char) :=
  (do return [← satisfy fun c => isPlain c && c != quote && !(escapes && c == '\\')]) <|>
  (newline *> pure ['\n']) <|>
  (if escapes then (foldedLine *> pure []) <|> (do return [← escapeSequence]) else failure)

/--
The rest of a string on several lines. Up to two quotes are part of the text, also directly before the
three quotes that end it.
-/
def multilineRest (quote : Char) (escapes : Bool) : (rounds : Nat) → Reader (List Char)
  | 0 => failure
  | rounds + 1 => do
    let quotes ← takeWhile (· == quote)
    if 5 < quotes.length then
      failure
    else if 3 ≤ quotes.length then
      return quotes.drop 3
    else
      let piece ← if quotes.isEmpty then multilinePiece quote escapes else pure []
      return quotes ++ piece ++ (← multilineRest quote escapes rounds)

/--
A string on several lines. A line end directly behind the opening quotes is not part of it.
-/
def multilineString (quote : Char) (escapes : Bool) : Reader (List Char) := do
  word [quote, quote, quote]
  newline <|> pure ()
  let rest ← get
  multilineRest quote escapes (rest.length + 1)

def string : Reader String := do
  let cs ← multilineString '"' true <|> multilineString '\'' false <|> basicString <|> literalString
  return String.ofList cs

def isBareKey (c : Char) : Bool :=
  c.isAlphanum || c == '_' || c == '-'

def simpleKey : Reader String := do
  let cs ← basicString <|> literalString <|> takeWhile1 isBareKey
  return String.ofList cs

/--
Keys have fewer parts than this, and values fewer arrays and tables inside one another.
-/
def nestingLimit : Nat := 80

def dottedKey : Reader (List String) := do
  let parts ← separated (blanks *> simpleKey <* blanks) (char '.')
  if parts.length < nestingLimit then
    return parts
  else
    failure

end Toml

end HornMachine
