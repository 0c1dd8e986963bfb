import HornMachine.Fault

/-!
This module contains predicate signatures and the labels that stand for them in compiled code: the
label of a predicate is its functor and its arity with a slash between them, as in `parent/2`.
-/

namespace HornMachine

/--
A predicate: all clauses with this functor and this number of arguments belong to it.
-/
structure Signature where
  functor : String
  arity : Nat
deriving DecidableEq, Repr

namespace Signature

/--
Arities that can be read from a label are below this bound.
-/
def arityBound : Nat := 18446744073709551616

def label (sig : Signature) : String :=
  s!"{sig.functor}/{sig.arity}"

def splitLast (sep : Char) : List Char → Option (List Char × List Char)
  | [] => none
  | c :: cs =>
    match splitLast sep cs with
    | some (before, after) => some (c :: before, after)
    | none => if c = sep then some ([], cs) else none

/--
Reads decimal digits with at most one plus sign before them.
-/
def readArity (cs : List Char) : Option Nat :=
  let digits := if cs.head? = some '+' then cs.tail else cs
  if digits ≠ [] ∧ digits.all Char.isDigit then
    let arity := Nat.ofDigitChars 10 digits 0
    if arity < arityBound then some arity else none
  else
    none

/--
Reads a label back. The last slash is the one that counts, so a functor may contain slashes.
-/
def ofLabel? (label : String) : Except Fault Signature :=
  match splitLast '/' label.toList with
  | none => .error (.malformedLabel label)
  | some (functor, arity) =>
    match readArity arity with
    | none => .error (.malformedLabel label)
    | some arity => .ok ⟨String.ofList functor, arity⟩

theorem splitLast_eq_none {sep : Char} {cs : List Char} (h : sep ∉ cs) :
    splitLast sep cs = none := by
  induction cs with
  | nil => rfl
  | cons c cs ih =>
    simp only [List.mem_cons, not_or] at h
    simp [splitLast, ih h.2, Ne.symm h.1]

theorem splitLast_append {sep : Char} (before : List Char) {after : List Char} (h : sep ∉ after) :
    splitLast sep (before ++ sep :: after) = some (before, after) := by
  induction before with
  | nil => simp [splitLast, splitLast_eq_none h]
  | cons c cs ih => simp [splitLast, ih]

end Signature

end HornMachine
