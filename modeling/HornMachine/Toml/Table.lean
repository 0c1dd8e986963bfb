/-!
This module contains the values and tables of settings documents, and the rules for what may be added to
a table that is there already.
-/

namespace HornMachine

namespace Toml

inductive TableKind where
  /-- A header names it. -/
  | header
  /-- A header names a table inside it. -/
  | implied
  /-- A key of several parts leads through it. -/
  | dotted
deriving DecidableEq, Repr

/--
The text of a number or date is kept as it was written.
-/
inductive Value where
  | string (text : String)
  | integer (n : Int)
  | float (text : String)
  | boolean (b : Bool)
  | datetime (text : String)
  | array (items : List Value)
  /-- A table that is written as a value; nothing can be added to it. -/
  | inlineTable (entries : List (String × Value))
  | table (kind : TableKind) (entries : List (String × Value))
  /-- Tables under one header, of which only the last one can still grow. -/
  | tables (last : List (String × Value)) (earlier : List (List (String × Value)))

abbrev Entries := List (String × Value)

namespace Entries

/--
Changes the value of a key, or adds it. The change sees the old value and may refuse.
-/
def alter (key : String) (change : Option Value → Option Value) : Entries → Option Entries
  | [] => return [(key, ← change none)]
  | (k, v) :: entries =>
    if k = key then
      return (k, ← change (some v)) :: entries
    else
      return (k, v) :: (← alter key change entries)

def get? (entries : Entries) (key : String) : Option Value :=
  entries.lookup key

/--
Changes the table at a path. Missing tables on the way are made, of kind `made`. A path of kind
`dotted` may not lead through a table with a header of its own, and no path through other values.
-/
def descend (made : TableKind) (change : TableKind → Entries → Option Entries)
    : (path : List String) → TableKind → Entries → Option Entries
  | [], kind, entries => change kind entries
  | key :: path, _, entries =>
    entries.alter key fun
      | none => return .table made (← descend made change path made [])
      | some (.table kind inner) =>
        if made = .dotted ∧ kind = .header then
          none
        else
          return .table kind (← descend made change path kind inner)
      | some (.tables last earlier) =>
        return .tables (← descend made change path .header last) earlier
      | some _ => none

/--
Adds a value under a key of several parts. A table that a key of several parts leads to can only grow
by such keys.
-/
def add (path : List String) (key : String) (value : Value) (entries : Entries) : Option Entries :=
  descend .dotted (fun kind entries =>
    if (kind = .dotted) = (path = []) then
      none
    else
      entries.alter key fun
        | none => some value
        | some _ => none) path .header entries

/--
Begins a table under a header of its own. It may be there only because of the headers inside it.
-/
def openTable (path : List String) (key : String) (entries : Entries) : Option Entries :=
  descend .implied (fun _ entries => entries.alter key fun
    | none => some (.table .header [])
    | some (.table .implied inner) => some (.table .header inner)
    | some _ => none) path .header entries

def openElement (path : List String) (key : String) (entries : Entries) : Option Entries :=
  descend .implied (fun _ entries => entries.alter key fun
    | none => some (.tables [] [])
    | some (.tables last earlier) => some (.tables [] (last :: earlier))
    | some _ => none) path .header entries

end Entries

end Toml

end HornMachine
