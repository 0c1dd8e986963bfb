import HornMachine.Machine.Argument
import HornMachine.Outlink

/-!
This module contains tables of ground facts, which answer calls row by row.
-/

namespace HornMachine

/--
A row holds the arguments of a fact and is kept under the label of its predicate, in the order in
which the facts were added.
-/
structure FactTable where
  rows : Array (String × List String) := #[]
deriving DecidableEq, Repr

namespace FactTable

def add (table : FactTable) (functor : String) (args : List String) : FactTable where
  rows := table.rows.push (Signature.label ⟨functor, args.length⟩, args)

def ofList (facts : List (String × List String)) : FactTable :=
  facts.foldl (fun table (functor, args) => table.add functor args) {}

def size (table : FactTable) : Nat :=
  table.rows.size

def isEmpty (table : FactTable) : Bool :=
  table.rows.isEmpty

def claims (table : FactTable) (label : String) : Bool :=
  table.rows.any fun (l, _) => l == label

def rowsOf (table : FactTable) (label : String) : List (List String) :=
  table.rows.toList.filterMap fun (l, row) => if l = label then some row else none

def about (table : FactTable) : String :=
  s!"facts({table.size} rows)"

/--
Binds the arguments of a call from number `index` on to a row, and answers whether they agree with
it. An argument that differs from the row ends the binding.
-/
def bindRow (arity : Nat) (index : Nat) : List String → Exec Bool
  | [] => return true
  | value :: row => do
    match ← Exec.read (·.constantArgument arity index) with
    | some bound =>
      if bound = value then bindRow arity (index + 1) row else return false
    | none =>
      Exec.setArgument arity index value
      bindRow arity (index + 1) row

def answerFeatures (label : String) : Features :=
  Features.ofGoals [⟨"id", [.const label]⟩]

/--
The successor that a row gives, if it agrees with the call. With features computed a successor that
has failed is dropped.
-/
def answer (run : Runner) (s : State) (label : String) (computeFeatures : Bool) (row : List String)
    : Exec (Option Outlink) := do
  Exec.restore s
  if ← bindRow row.length 1 row then
    Exec.onState State.leave
    let _ ← run none computeFeatures
    let after ← Exec.save
    if !computeFeatures then
      return some ⟨none, after⟩
    else if after.failed then
      return none
    else
      return some ⟨some (answerFeatures label), after⟩
  else
    return none

def outlinks (table : FactTable) (run : Runner) (s : State) (computeFeatures : Bool)
    : Exec (List Outlink) := do
  match s.jumpTo with
  | none => return []
  | some label =>
    match table.rowsOf label with
    | [] => return []
    | rows =>
      let sig ← Exec.read fun _ => Signature.ofLabel? label
      let rows := rows.filter (·.length = sig.arity)
      rows.filterMapM (answer run s label computeFeatures)

def plugin (table : FactTable) : Plugin where
  about := table.about
  claims := table.claims
  outlinks := table.outlinks

end FactTable

end HornMachine
