import HornMachine.Clause.Basic
import HornMachine.Instruction

/-!
This module contains the code of clauses and queries. The block of a clause
`h(t1, .., tk) :- b1, .., bm` with features `f1, .., fn` consists of
- `grow` with one register for each variable,
- one instruction for each argument of the head, which unifies it with the argument of the call,
- the feature block from `fclear` to `freport`,
- for each literal of the body its arguments and a call,
- `returnp`.

The block of a query is the same without a head and without features.
-/

namespace HornMachine

namespace Code

/--
The register that holds a variable: the first variable has the top register.
-/
def register (vars : List String) (name : String) : Int :=
  -(vars.idxOf name : Int) - 1

/--
The instructions for the arguments of a head, of which the first lies at `offset`. The variables in
`seen` have a value already.
-/
def head (vars : List String) (offset : Int) (seen : List String) : List Term → List Instruction
  | [] => []
  | .const name :: args => .unifyConst name offset :: head vars (offset + 1) seen args
  | .var name :: args =>
    let reg := register vars name
    if name ∈ seen then
      .unifyBoundVar reg offset :: head vars (offset + 1) seen args
    else
      .initFreeVar reg offset :: head vars (offset + 1) (name :: seen) args

def feature (vars : List String) (lit : Literal) : List Instruction :=
  .fpushStart lit.functor lit.args.length :: lit.args.map fun
    | .const name => .fpushConst name
    | .var name => .fpushBoundVar (register vars name)

def features (vars : List String) (lits : List Literal) : List Instruction :=
  .fclear :: lits.flatMap (feature vars) ++ [.freport]

def arguments (vars : List String) (seen : List String) : List Term → List Instruction
  | [] => []
  | .const name :: args => .pushConst name :: arguments vars seen args
  | .var name :: args =>
    let reg := register vars name
    if name ∈ seen then
      .pushBoundVar reg :: arguments vars seen args
    else
      .pushFreeVar reg :: arguments vars (name :: seen) args

def calls (vars : List String) (seen : List String) : List Literal → List Instruction
  | [] => []
  | lit :: lits =>
    arguments vars seen lit.args ++ .callp lit.signature.label ::
      calls vars (lit.vars ++ seen) lits

end Code

def queryCode (goals : List Literal) : List Instruction :=
  let vars := queryVars goals
  -- there are fewer than 2^63 variables, so this is `allocate` (`Instruction.allocate_eq_grow`)
  .grow vars.length :: Code.calls vars [] goals ++ [.returnp]

namespace Clause

def code (clause : Clause) : List Instruction :=
  let vars := clause.vars
  .grow vars.length ::
    (Code.head vars (-clause.head.args.length) [] clause.head.args ++
      Code.features vars clause.features ++
      Code.calls vars clause.head.vars clause.body ++ [.returnp])

end Clause

end HornMachine
