import HornMachine.Clause.Basic

/-!
This module contains goals: a functor with arguments that are constants or unbound variables. A goal
is what still has to be proved, or the name of a feature.
-/

namespace HornMachine

/--
An unbound variable is named by the heap address that represents it.
-/
inductive Argument where
  | const (name : String)
  | var (addr : Nat)
deriving DecidableEq, Repr

namespace Argument

def rank : Argument → Nat
  | const _ => 0
  | var _ => 1

def name : Argument → String
  | const name => name
  | var _ => ""

def addr : Argument → Nat
  | const _ => 0
  | var addr => addr

instance : Ord Argument where
  compare := compareLex (compareOn rank) (compareLex (compareOn name) (compareOn addr))

instance : Std.TransOrd Argument :=
  inferInstanceAs <| Std.TransCmp
    (compareLex (compareOn rank) (compareLex (compareOn name) (compareOn addr)))

instance : Std.LawfulEqOrd Argument where
  eq_of_compare {a b} h := by
    have h : compareLex (compareOn rank) (compareLex (compareOn name) (compareOn addr)) a b = .eq :=
      h
    simp only [compareLex_eq_eq, compareOn, Std.compare_eq_iff_eq] at h
    cases a <;> cases b <;> simp_all [rank, name, addr]

def text : Argument → String
  | const name => name
  | var addr => s!"X{addr}"

instance : ToString Argument := ⟨text⟩

end Argument

structure Goal where
  functor : String
  args : List Argument
deriving DecidableEq, Repr

namespace Goal

def arity (goal : Goal) : Nat :=
  goal.args.length

def noFeatures : Goal := ⟨"_no_features_", []⟩

instance : Ord Goal where
  compare := compareLex (compareOn functor) (compareOn args)

instance : Std.TransOrd Goal :=
  inferInstanceAs <| Std.TransCmp (compareLex (compareOn functor) (compareOn args))

instance : Std.LawfulEqOrd Goal where
  eq_of_compare {a b} h := by
    have h : compareLex (compareOn functor) (compareOn args) a b = .eq := h
    simp only [compareLex_eq_eq, compareOn, Std.compare_eq_iff_eq] at h
    cases a
    cases b
    simp_all

def text (goal : Goal) : String :=
  match goal.args with
  | [] => goal.functor
  | args => goal.functor ++ "(" ++ ",".intercalate (args.map Argument.text) ++ ")"

instance : ToString Goal := ⟨text⟩

end Goal

end HornMachine
