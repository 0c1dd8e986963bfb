import HornMachine.Goal.Basic
import Std.Data.ExtTreeMap

/-!
This module contains features: the ones that are being built argument by argument, and the weighted
goals that a step reports once they are finished.
-/

namespace HornMachine

/--
A feature under construction. It is meant to get `arity` arguments, which nothing enforces.
-/
structure Feature where
  functor : String
  arity : Nat
  args : List Argument := []
deriving DecidableEq, Repr

namespace Feature

def append (feature : Feature) (arg : Argument) : Feature :=
  { feature with args := feature.args ++ [arg] }

def goal (feature : Feature) : Goal :=
  ⟨feature.functor, feature.args⟩

def ofGoal (goal : Goal) : Feature :=
  ⟨goal.functor, goal.arity, goal.args⟩

@[simp]
theorem goal_ofGoal (goal : Goal) : (ofGoal goal).goal = goal := rfl

end Feature

abbrev Features := Std.ExtTreeMap Goal Nat

namespace Features

/--
Each goal with weight 1. A goal that occurs twice counts once.
-/
def ofGoals (goals : List Goal) : Features :=
  goals.foldl (fun features goal => features.insert goal 1) ∅

def report (stack : List Feature) : Features :=
  match stack with
  | [] => ofGoals [.noFeatures]
  | stack => ofGoals (stack.map Feature.goal)

def goals (features : Features) : List Goal :=
  features.keys

/--
Puts the features behind the goals found before, in goal order and without those that were found
already.
-/
def gather (found : List Goal) (features : Features) : List Goal :=
  features.goals.foldl (fun found goal => if goal ∈ found then found else found ++ [goal]) found

end Features

end HornMachine
