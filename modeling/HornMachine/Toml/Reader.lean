/-!
This module contains the readers from which the grammar of settings documents is made, and its blanks,
comments and line ends.
-/

namespace HornMachine

namespace Toml

abbrev Reader := StateT (List Char) Option

namespace Reader

def peek : Reader (Option Char) := fun cs => some (cs.head?, cs)

def satisfy (p : Char → Bool) : Reader Char
  | c :: cs => if p c then some (c, cs) else none
  | [] => none

def char (c : Char) : Reader Unit := discard (satisfy (· == c))

def word : List Char → Reader Unit
  | [] => pure ()
  | c :: cs => do
    char c
    word cs

def takeWhile (p : Char → Bool) : Reader (List Char) := fun cs => some (cs.span p)

def takeWhile1 (p : Char → Bool) : Reader (List Char) := do
  let c ← satisfy p
  return c :: (← takeWhile p)

def takeExactly (count : Nat) (p : Char → Bool) : Reader (List Char) :=
  match count with
  | 0 => pure []
  | count + 1 => do
    let c ← satisfy p
    return c :: (← takeExactly count p)

def atEnd : Reader Unit
  | [] => some ((), [])
  | _ => none

/--
Reads as often as possible. A reader that takes nothing is not repeated forever: there is at most one
round for each character.
-/
def many (reader : Reader α) : Reader (List α) := fun cs => go cs.length cs
where
  go : Nat → Reader (List α)
    | 0 => pure []
    | rounds + 1 => (do
        let a ← reader
        return a :: (← go rounds)) <|> pure []

def separated (reader : Reader α) (separator : Reader Unit) : Reader (List α) := do
  let a ← reader
  return a :: (← many (separator *> reader))

def taken (reader : Reader α) : Reader String := fun cs => do
  let (_, rest) ← reader cs
  return (String.ofList (cs.take (cs.length - rest.length)), rest)

end Reader

open Reader

/--
Characters that may stand in comments and strings: all but the controls, of which only the tab may.
-/
def isPlain (c : Char) : Bool :=
  c == '\t' || (' ' ≤ c && c != '\x7f')

def isBlank (c : Char) : Bool :=
  c == ' ' || c == '\t'

def blanks : Reader Unit := discard (takeWhile isBlank)

def newline : Reader Unit := char '\n' <|> word ['\r', '\n']

def comment : Reader Unit := do
  char '#'
  discard (takeWhile isPlain)

/--
What may stand between the parts of an array: blanks, line ends, and comments up to a line end.
-/
def space : Reader Unit :=
  discard (many (discard (satisfy isBlank) <|> newline <|> (comment *> newline)))

def lineEnd : Reader Unit := do
  blanks
  comment <|> pure ()
  newline <|> atEnd

end Toml

end HornMachine
