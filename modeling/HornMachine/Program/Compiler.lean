import HornMachine.Program.Build
import Std.Data.ExtTreeMap

/-!
This module contains the compiler that goes through the arguments of an item one after another and emits an
instruction for each. Its table of variables is the same one for all items and is cleared before each of them.
-/

namespace HornMachine

/--
The register of a variable, and whether an instruction has given it a value.
-/
structure Allotment where
  register : Int
  seen : Bool

structure Compiler where
  allotments : Std.ExtTreeMap String Allotment := ∅
  program : Program := {}

namespace Compiler

inductive Stop where
  | refused (fault : Fault)
  /-- The variable has no register. -/
  | unallotted (name : String)

end Compiler

abbrev Compile := EStateM Compiler.Stop Compiler

namespace Compile

def emit (instr : Instruction) : Compile Nat :=
  modifyGet fun c => (c.program.size, { c with program := c.program.push instr })

def reset : Compile Unit :=
  modify fun c => { c with allotments := ∅ }

/--
Gives a variable the next register below those that are taken, unless it has one.
-/
def allot (name : String) : Compile Unit :=
  modify fun c =>
    if name ∈ c.allotments then c
    else { c with allotments := c.allotments.insert name ⟨-(c.allotments.size : Int) - 1, false⟩ }

def allotAll (lits : List Literal) : Compile Nat := do
  (lits.flatMap Literal.vars).forM allot
  return (← get).allotments.size

def register (name : String) : Compile Int := do
  match (← get).allotments[name]? with
  | some allotment => return allotment.register
  | none => throw (.unallotted name)

def markSeen (name : String) : Compile Bool :=
  modifyGet fun c =>
    match c.allotments[name]? with
    | some allotment =>
      (allotment.seen, { c with allotments := c.allotments.insert name { allotment with seen := true } })
    | none => (false, c)

def headInstruction (offset : Int) : Term → Compile Instruction
  | .const name => return .unifyConst name offset
  | .var name => do
    let reg ← register name
    return if ← markSeen name then .unifyBoundVar reg offset else .initFreeVar reg offset

def featureInstruction : Term → Compile Instruction
  | .const name => return .fpushConst name
  | .var name => return .fpushBoundVar (← register name)

def callInstruction : Term → Compile Instruction
  | .const name => return .pushConst name
  | .var name => do
    let reg ← register name
    return if ← markSeen name then .pushBoundVar reg else .pushFreeVar reg

def emitEach (instruction : α → Compile Instruction) (as : List α) : Compile Unit :=
  as.forM fun a => do
    let _ ← emit (← instruction a)

def head (args : List Term) : Compile Unit :=
  emitEach (fun (term, i) => headInstruction ((i : Int) - args.length) term) args.zipIdx

def feature (lit : Literal) : Compile Unit := do
  let _ ← emit (.fpushStart lit.functor lit.args.length)
  emitEach featureInstruction lit.args

def features (lits : List Literal) : Compile Unit := do
  let _ ← emit .fclear
  lits.forM feature
  let _ ← emit .freport

def call (lit : Literal) : Compile Unit := do
  emitEach callInstruction lit.args
  let _ ← emit (.callp lit.signature.label)

def block (lits : List Literal) (body : Compile Unit) : Compile Nat := do
  reset
  let count ← allotAll lits
  let start ← emit (.grow count)
  body
  let _ ← emit .returnp
  return start

def clause (clause : Clause) : Compile Nat :=
  match clause.unboundFeatureVariable? with
  | some name => throw (.refused (.unboundFeatureVariable name))
  | none => do
    let start ← block (clause.head :: clause.features ++ clause.body) do
      head clause.head.args
      features clause.features
      clause.body.forM call
    modify fun c => { c with program := c.program.addClause clause.head.signature.label start }
    return start

def clauses : List Clause → Compile Unit
  | [] => return ()
  | c :: cs => do
    let _ ← clause c
    clauses cs

def query (goals : List Literal) : Compile Nat :=
  block goals (goals.forM call)

def item : Item → Compile (Option Nat)
  | .clause c => some <$> clause c
  | .clauses cs => do
    clauses cs
    return none
  | .query goals => some <$> query goals

end Compile

namespace Compiler

def compile : List Item → Compiler → List (Except Stop (Option Nat)) × Compiler
  | [], c => ([], c)
  | item :: items, c =>
    match Compile.item item c with
    | .ok addr c =>
      let (answers, c) := compile items c
      (.ok addr :: answers, c)
    | .error stop c =>
      let (answers, c) := compile items c
      (.error stop :: answers, c)

end Compiler

end HornMachine
