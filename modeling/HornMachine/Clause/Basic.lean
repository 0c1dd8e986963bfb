import HornMachine.Signature

/-!
This module contains clauses: a head that follows from a body, with the features that a step by the
clause is to report.
-/

namespace HornMachine

inductive Term where
  | const (name : String)
  | var (name : String)
deriving DecidableEq, Repr

namespace Term

def var? : Term → Option String
  | .const _ => none
  | .var name => some name

end Term

structure Literal where
  functor : String
  args : List Term
deriving DecidableEq, Repr

namespace Literal

def signature (lit : Literal) : Signature :=
  ⟨lit.functor, lit.args.length⟩

def vars (lit : Literal) : List String :=
  lit.args.filterMap Term.var?

end Literal

/--
The head holds if every literal of the body does. A query has only a body and is kept as a list of
literals.
-/
structure Clause where
  head : Literal
  body : List Literal := []
  features : List Literal := []
deriving DecidableEq, Repr

namespace Clause

/--
The distinct variables of a clause in the order in which the head, the features and the body name
them first.
-/
def vars (clause : Clause) : List String :=
  ((clause.head :: clause.features ++ clause.body).flatMap Literal.vars).eraseDups

/--
The first variable of a feature that the head does not name.
-/
def unboundFeatureVariable? (clause : Clause) : Option String :=
  (clause.features.flatMap Literal.vars).find? (· ∉ clause.head.vars)

end Clause

def queryVars (goals : List Literal) : List String :=
  (goals.flatMap Literal.vars).eraseDups

end HornMachine
