import HornMachine.Clause.Code
import HornMachine.Program.Basic

/-!
This module contains the building of programs out of clauses and queries. A fault leaves the program
as it was built up to there.
-/

namespace HornMachine

inductive Item where
  | clause (clause : Clause)
  /-- Clauses up to the first one that cannot be compiled. -/
  | clauses (clauses : List Clause)
  | query (goals : List Literal)
deriving DecidableEq, Repr

abbrev Build := EStateM Fault Program

namespace Build

def emit (block : List Instruction) : Build Nat :=
  modifyGet fun program => (program.size, program.append block)

def clause (clause : Clause) : Build Nat :=
  match clause.unboundFeatureVariable? with
  | some name => throw (.unboundFeatureVariable name)
  | none => do
    let addr ← emit clause.code
    modify (·.addClause clause.head.signature.label addr)
    return addr

def clauses : List Clause → Build Unit
  | [] => return ()
  | c :: cs => do
    let _ ← clause c
    clauses cs

def query (goals : List Literal) : Build Nat :=
  emit (queryCode goals)

def item : Item → Build (Option Nat)
  | .clause c => some <$> clause c
  | .clauses cs => do
    clauses cs
    return none
  | .query goals => some <$> query goals

end Build

end HornMachine
