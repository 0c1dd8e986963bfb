import HornMachine.Toml.Number
import HornMachine.Toml.Table

/-!
This module contains settings documents: their values, their statements line by line, and the table that
the statements build.
-/

namespace HornMachine

namespace Toml

open Reader

def boolean : Reader Bool :=
  (word ['t', 'r', 'u', 'e'] *> pure true) <|> (word ['f', 'a', 'l', 's', 'e'] *> pure false)

/--
A key of several parts: the way to a table and the key in it.
-/
structure KeyPath where
  path : List String
  key : String

def keyPath : Reader KeyPath := do
  let parts ← dottedKey
  match parts.getLast? with
  | some key => return ⟨parts.dropLast, key⟩
  | none => failure

def scalar : Reader Value :=
  (.string <$> string) <|> (.boolean <$> boolean) <|> (.datetime <$> datetime) <|>
    (.float <$> float) <|> (.integer <$> integer)

/--
The elements of an array up to its end. A comma may follow the last one.
-/
def arrayTail (element : Reader Value) : Reader (List Value) := do
  space
  let items ← (do
    let items ← separated (element <* space) (char ',' *> space)
    (char ',' *> space) <|> pure ()
    return items) <|> pure []
  char ']'
  return items

def entry (value : Reader Value) : Reader (KeyPath × Value) := do
  let key ← keyPath
  char '='
  blanks
  return (key, ← value)

def inlineTail (value : Reader Value) : Reader Entries := do
  blanks
  let items ← (separated (entry value <* blanks) (char ',' *> blanks)) <|> pure []
  char '\x7d'
  match items.foldlM (fun entries (key, v) => Entries.add key.path key.key v entries) [] with
  | some entries => return entries
  | none => failure

/--
Values with at most `nesting` arrays and inline tables inside one another.
-/
def value : (nesting : Nat) → Reader Value
  | 0 => scalar
  | nesting + 1 =>
    (.array <$> (char '[' *> arrayTail (value nesting))) <|>
    (.inlineTable <$> (char '\x7b' *> inlineTail (value nesting))) <|>
    scalar

inductive Statement where
  | entry (key : KeyPath) (value : Value)
  | table (key : KeyPath)
  | element (key : KeyPath)

def statement : Reader Statement :=
  (do return .element (← word ['[', '['] *> keyPath <* word [']', ']'])) <|>
  (do return .table (← char '[' *> keyPath <* char ']')) <|>
  (do
    let (key, v) ← entry (value (nestingLimit - 1))
    return .entry key v)

def line : Reader (Option Statement) := do
  blanks
  match ← peek with
  | none => failure
  | some '#' | some '\n' | some '\r' =>
    lineEnd
    return none
  | some _ =>
    let s ← statement
    lineEnd
    return some s

/--
All statements of a document. A byte order mark may come before the first line.
-/
def statements : Reader (List Statement) := do
  char '\ufeff' <|> pure ()
  let lines ← many line
  blanks
  atEnd
  return lines.filterMap id

/--
The document so far: its entries, and the table that the next entry goes to.
-/
structure Building where
  entries : Entries := []
  current : List String := []

namespace Building

def addStatement (b : Building) : Statement → Option Building
  | .entry key v => do
    let entries ← Entries.descend .implied (fun _ entries => Entries.add key.path key.key v entries)
      b.current .header b.entries
    return { b with entries }
  | .table key =>
    return ⟨← Entries.openTable key.path key.key b.entries, key.path ++ [key.key]⟩
  | .element key =>
    return ⟨← Entries.openElement key.path key.key b.entries, key.path ++ [key.key]⟩

end Building

/--
The top table of a document, or `none` if the text is none.
-/
def document? (text : String) : Option Entries := do
  let (lines, _) ← statements text.toList
  let b ← lines.foldlM Building.addStatement {}
  return b.entries

end Toml

end HornMachine
