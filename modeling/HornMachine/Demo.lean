import HornMachine.Environment.Pending
import HornMachine.Facts
import HornMachine.Program.Build

/-!
This module contains a demonstration: a small family, a query about it, and the graph of its proof.
-/

namespace HornMachine

namespace Demo

def parents : List Clause :=
  [("tom", "bob"), ("bob", "ann"), ("bob", "pat")].map fun (parent, child) =>
    { head := ⟨"parent", [.const parent, .const child]⟩
      features := [⟨"db", [.const "parent"]⟩] }

def grandparent : Clause where
  head := ⟨"grandparent", [.var "X", .var "Z"]⟩
  body := [⟨"parent", [.var "X", .var "Y"]⟩, ⟨"parent", [.var "Y", .var "Z"]⟩]
  features := [⟨"gp", [.var "X"]⟩]

def likes : FactTable :=
  .ofList [("likes", ["ann", "cats"]), ("likes", ["pat", "dogs"])]

def question : List Literal :=
  [⟨"grandparent", [.const "tom", .var "W"]⟩, ⟨"likes", [.var "W", .var "What"]⟩]

def build : Build Nat := do
  Build.clauses (parents ++ [grandparent])
  Build.query question

def maxDepth : Nat := 6

def indent (depth : Nat) (line : String) : String :=
  String.ofList (List.replicate (2 * depth) ' ') ++ line

def listingLine (addr : Nat) (instr : Instruction) : String :=
  let number := toString addr
  String.ofList (List.replicate (4 - number.length) ' ') ++ number ++ ": " ++ toString instr

def listing (program : Program) : List String :=
  program.code.toList.zipIdx.map fun (instr, addr) => listingLine addr instr

def stateLine (env : Environment) (s : State) (depth : Nat) : Exec String := do
  let pending ← if s.completed then pure [] else env.pendingGoals s
  let goals := ", ".intercalate (pending.map Goal.text)
  return indent depth s!"{s} pending: [{goals}]"

def linkLine (link : Outlink) (depth : Nat) : String :=
  let entries := (link.features.getD ∅).toList.map fun (goal, weight) => s!"{goal}={weight}"
  let features := ", ".intercalate (entries.mergeSort (· ≤ ·))
  indent depth s!"via [{features}]"

def layer (env : Environment) (depth : Nat) (states : List State)
    : Exec (List String × List State) := do
  let parts ← states.mapM fun s => do
    let links ← env.outlinks s true
    links.mapM fun link => do
      let line ← stateLine env link.state depth
      return ([linkLine link depth, line], link.state)
  return (parts.flatten.flatMap Prod.fst, parts.flatten.map Prod.snd)

def layers (env : Environment) (depth : Nat) (states : List State)
    : (count : Nat) → Exec (List String)
  | 0 => return []
  | count + 1 => do
    let (lines, next) ← layer env depth states
    if next.isEmpty then
      return lines
    else
      return lines ++ (← layers env (depth + 1) next count)

def graph (env : Environment) (start : Nat) : Exec (List String) := do
  let _ ← env.run (some start) true
  let root ← Exec.save
  let line ← stateLine env root 0
  return line :: (← layers env 1 [root] maxDepth)

def lines : Except Fault (List String) :=
  match build.run {} with
  | .error fault _ => .error fault
  | .ok start program =>
    let env : Environment := { program, plugins := [likes.plugin] }
    match (graph env start).run {} with
    | .error fault _ => .error fault
    | .ok graph _ => .ok (["program:"] ++ listing program ++ ["", "proof graph:"] ++ graph)

end Demo

end HornMachine
