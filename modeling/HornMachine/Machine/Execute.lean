import HornMachine.Instruction
import HornMachine.Machine.Basic

/-!
This module contains what the instructions do. Its main statement, `execute_position`, says that an
instruction moves on by one and leaves the calls alone, unless it makes a call or returns from one.
-/

namespace HornMachine

namespace Exec

def pushConst (name : String) : Exec Unit := do
  let id ← intern name
  push (.const id)

def pushFreeVar (reg : Int) : Exec Unit := do
  let addr := (← get).state.heap.size
  onState State.pushFree
  setRegister reg addr

def pushBoundVar (reg : Int) : Exec Unit := do
  let root ← root (← register reg)
  push (.ref root)

/--
Unifies the cell at `offset` with a constant. A constant that was never interned is on no heap, so
the comparison with a constant root does not intern.
-/
def unifyConst (name : String) (offset : Int) : Exec Unit := do
  let addr ← relative offset
  let root ← root addr
  match ← constantAt root with
  | some id =>
    let known := (← get).symbols.lookup? name
    setFailed (known != some id)
  | none =>
    if ← isFree root then
      bindConstant name addr root
    else
      throw (.neitherFreeNorConstant root "unifyconst")

def initFreeVar (reg offset : Int) : Exec Unit := do
  let addr ← relative offset
  setRegister reg addr

def bindFree (addr : Nat) (cell : Cell) : Exec Unit := do
  if ← isFree addr then
    write addr cell
  else
    throw (.notFree addr "unifyboundvar")

/--
Makes one root of two that hold the constants `ci` and `cj`, or none, and answers with the roots that the
two sides have then. Of two free roots the lower one is left; a constant is copied to a free root. The state
fails if they are different constants.
-/
def unite (ri rj : Nat) (ci cj : Option Nat) : Exec (Nat × Nat) := do
  if ri = rj then
    return (ri, rj)
  else
    match ci, cj with
    | some a, some b =>
      setFailed (a != b)
      return (ri, rj)
    | some a, none =>
      bindFree rj (.const a)
      return (ri, rj)
    | none, some b =>
      bindFree ri (.const b)
      return (ri, rj)
    | none, none =>
      if ri < rj then
        bindFree rj (.ref ri)
        return (ri, ri)
      else
        bindFree ri (.ref rj)
        return (rj, rj)

def settle (i ri j rj : Nat) : Exec Unit := do
  if !(← get).state.failed then
    collapse i ri
    collapse j rj

def unifyBoundVar (reg offset : Int) : Exec Unit := do
  let i ← relative offset
  let j ← register reg
  let ri ← root i
  let rj ← root j
  let ci ← constantAt ri
  let cj ← constantAt rj
  let (ri, rj) ← unite ri rj ci cj
  settle i ri j rj

def appendArgument (arg : Argument) (operation : String) : Exec Unit :=
  update fun m =>
    match m.features with
    | [] => .error (.emptyFeatureStack operation)
    | feature :: features => .ok { m with features := feature.append arg :: features }

def appendRegister (reg : Int) : Exec Unit := do
  let root ← root (← register reg)
  match ← constantAt root with
  | none => throw (.notConstant root "fpushboundvar")
  | some id =>
    match (← get).symbols.get? id with
    | none => throw (.unknownSymbol id)
    | some name => appendArgument (.const name) "fpushboundvar"

end Exec

/--
Executes an instruction and answers what it reports. Features are collected with `gather`, which may
leave any state behind: the one from before is put back. Without `computeFeatures` the instructions
that build features are passed over.
-/
def execute (gather : Nat → Exec (List Goal)) (computeFeatures : Bool) (instr : Instruction)
    : Exec Features := do
  if instr.isFeature && !computeFeatures then
    Exec.advance
    return ∅
  match instr with
  | .callp label =>
    Exec.onState (·.enter label)
    return ∅
  | .returnp =>
    Exec.onState State.leave
    return ∅
  | .grow count => stepping (Exec.onState (·.grow count))
  | .pushConst name => stepping (Exec.pushConst name)
  | .pushFreeVar reg => stepping (Exec.pushFreeVar reg)
  | .pushBoundVar reg => stepping (Exec.pushBoundVar reg)
  | .unifyConst name offset => stepping (Exec.unifyConst name offset)
  | .initFreeVar reg offset => stepping (Exec.initFreeVar reg offset)
  | .unifyBoundVar reg offset => stepping (Exec.unifyBoundVar reg offset)
  | .fclear => stepping (modify ({ · with features := [] }))
  | .fpushStart functor arity =>
    stepping (modify fun m => { m with features := ⟨functor, arity, []⟩ :: m.features })
  | .fpushConst name => stepping (Exec.appendArgument (.const name) "fpushconst")
  | .fpushBoundVar reg => stepping (Exec.appendRegister reg)
  | .freport =>
    let report := Features.report (← get).features
    Exec.advance
    return report
  | .ffindall addr =>
    let m ← get
    let goals ← gather addr
    stepping (modify ({ · with
      state := m.state
      features := goals.reverse.map Feature.ofGoal ++ m.features }))
where
  stepping (action : Exec Unit) : Exec Features := do
    action
    Exec.advance
    return ∅

def Exec.Still (action : Exec α) : Prop :=
  ∀ (m m' : Machine) (a : α), action m = .ok a m' → m'.state.position = m.state.position

namespace Exec

theorem still_pure (a : α) : Still (pure a : Exec α) := by
  rintro _ _ _ ⟨⟩
  rfl

theorem still_throw (fault : Fault) : Still (throw fault : Exec α) := by
  rintro _ _ _ ⟨⟩

theorem still_get : Still (get : Exec Machine) := by
  rintro _ _ _ ⟨⟩
  rfl

theorem still_bind {action : Exec α} {next : α → Exec β} (h : Still action)
    (hnext : ∀ a, Still (next a)) : Still (action >>= next) := by
  intro m m' b hok
  rcases bind_eq_ok.mp hok with ⟨a, m₁, ha, hb⟩
  exact (hnext a m₁ m' b hb).trans (h m m₁ a ha)

theorem still_onState {f : State → State} (h : ∀ s, (f s).position = s.position)
    : Still (onState f) := by
  rintro _ _ _ ⟨⟩
  exact h _

theorem still_update {f : Machine → Except Fault Machine}
    (h : ∀ {m m'}, f m = .ok m' → m'.state.position = m.state.position) : Still (update f) := by
  intro m m' _ hok
  exact h (update_eq_ok.mp hok)

theorem still_read (f : Machine → Except Fault α) : Still (read f) := by
  intro m m' a hok
  unfold read at hok
  split at hok <;> cases hok
  rfl

theorem still_intern (name : String) : Still (intern name) := by
  intro m m' id hok
  unfold intern at hok
  split at hok <;> cases hok
  rfl

theorem still_push (cell : Cell) : Still (push cell) :=
  still_onState fun _ => rfl

theorem still_setFailed (failed : Bool) : Still (setFailed failed) :=
  still_onState fun _ => rfl

theorem still_write (addr : Nat) (cell : Cell) : Still (write addr cell) := by
  apply still_update
  intro m m' hok
  simp only [Except.bind_eq_ok] at hok
  obtain ⟨_, _, ⟨⟩⟩ := hok
  rfl

theorem still_setRegister (reg : Int) (addr : Nat) : Still (setRegister reg addr) := by
  apply still_update
  intro m m' hok
  simp only [Except.bind_eq_ok] at hok
  obtain ⟨_, hs, ⟨⟩⟩ := hok
  exact State.position_setRegister hs

theorem still_collapse (start root : Nat) : Still (collapse start root) := by
  unfold collapse
  split
  . exact still_write _ _
  . exact still_pure _

theorem still_bindConstant (name : String) (addr root : Nat) : Still (bindConstant name addr root) :=
  still_bind (still_intern _) fun _ => still_bind (still_write _ _) fun _ => still_collapse _ _

theorem still_pushConst (name : String) : Still (pushConst name) :=
  still_bind (still_intern _) fun _ => still_push _

theorem still_pushFreeVar (reg : Int) : Still (pushFreeVar reg) :=
  still_bind still_get fun _ =>
    still_bind (still_onState fun _ => rfl) fun _ => still_setRegister _ _

theorem still_pushBoundVar (reg : Int) : Still (pushBoundVar reg) :=
  still_bind (still_read _) fun _ => still_bind (still_read _) fun _ => still_push _

theorem still_unifyConst (name : String) (offset : Int) : Still (unifyConst name offset) := by
  refine still_bind (still_read _) fun addr => still_bind (still_read _) fun root =>
    still_bind (still_read _) fun value => ?_
  cases value with
  | some id => exact still_bind still_get fun _ => still_setFailed _
  | none =>
    refine still_bind (still_read _) fun free => ?_
    cases free with
    | true => exact still_bindConstant _ _ _
    | false => exact still_throw _

theorem still_initFreeVar (reg offset : Int) : Still (initFreeVar reg offset) :=
  still_bind (still_read _) fun _ => still_setRegister _ _

theorem still_bindFree (addr : Nat) (cell : Cell) : Still (bindFree addr cell) := by
  refine still_bind (still_read _) fun free => ?_
  cases free with
  | true => exact still_write _ _
  | false => exact still_throw _

theorem still_unite (ri rj : Nat) (ci cj : Option Nat) : Still (unite ri rj ci cj) := by
  unfold unite
  split
  . exact still_pure _
  . split
    . exact still_bind (still_setFailed _) fun _ => still_pure _
    . exact still_bind (still_bindFree _ _) fun _ => still_pure _
    . exact still_bind (still_bindFree _ _) fun _ => still_pure _
    . split
      . exact still_bind (still_bindFree _ _) fun _ => still_pure _
      . exact still_bind (still_bindFree _ _) fun _ => still_pure _

theorem still_settle (i ri j rj : Nat) : Still (settle i ri j rj) := by
  refine still_bind still_get fun m => ?_
  split
  . exact still_bind (still_collapse _ _) fun _ => still_collapse _ _
  . exact still_pure _

theorem still_unifyBoundVar (reg offset : Int) : Still (unifyBoundVar reg offset) :=
  still_bind (still_read _) fun _ => still_bind (still_read _) fun _ =>
    still_bind (still_read _) fun _ => still_bind (still_read _) fun _ =>
    still_bind (still_read _) fun _ => still_bind (still_read _) fun _ =>
    still_bind (still_unite _ _ _ _) fun _ => still_settle _ _ _ _

theorem still_appendArgument (arg : Argument) (operation : String)
    : Still (appendArgument arg operation) := by
  apply still_update
  intro m m' hok
  split at hok <;> cases hok
  rfl

theorem still_appendRegister (reg : Int) : Still (appendRegister reg) := by
  refine still_bind (still_read _) fun _ => still_bind (still_read _) fun root =>
    still_bind (still_read _) fun value => ?_
  cases value with
  | none => exact still_throw _
  | some id =>
    refine still_bind still_get fun m => ?_
    split
    . exact still_throw _
    . exact still_appendArgument _ _

end Exec

theorem execute.position_stepping {action : Exec Unit} {m m' : Machine} {report : Features}
    (hstill : Exec.Still action) (h : stepping action m = .ok report m')
    : m'.state.position = m.state.advance.position := by
  simp only [stepping, Exec.bind_eq_ok] at h
  obtain ⟨_, m₁, hm₁, _, m₂, hm₂, h⟩ := h
  have := hstill m m₁ _ hm₁
  cases hm₂
  cases h
  simp_all [State.position, State.advance]

theorem execute_position {gather : Nat → Exec (List Goal)} {computeFeatures : Bool}
    {instr : Instruction} {m m' : Machine} {report : Features}
    (h : execute gather computeFeatures instr m = .ok report m')
    : m'.state.position = m.state.advance.position ∨
      (∃ label, m'.state = m.state.enter label) ∨ m'.state = m.state.leave := by
  have hstepping : ∀ {action : Exec Unit}, Exec.Still action →
      execute.stepping action m = .ok report m' →
      m'.state.position = m.state.advance.position := execute.position_stepping
  unfold execute at h
  split at h
  . left
    cases h
    rfl
  . cases instr with
    | callp label =>
      right; left
      cases h
      exact ⟨_, rfl⟩
    | returnp =>
      right; right
      cases h
      rfl
    | grow count => exact .inl (hstepping (Exec.still_onState fun s => s.position_grow count) h)
    | pushConst name => exact .inl (hstepping (Exec.still_pushConst name) h)
    | pushFreeVar reg => exact .inl (hstepping (Exec.still_pushFreeVar reg) h)
    | pushBoundVar reg => exact .inl (hstepping (Exec.still_pushBoundVar reg) h)
    | unifyConst name offset => exact .inl (hstepping (Exec.still_unifyConst name offset) h)
    | initFreeVar reg offset => exact .inl (hstepping (Exec.still_initFreeVar reg offset) h)
    | unifyBoundVar reg offset => exact .inl (hstepping (Exec.still_unifyBoundVar reg offset) h)
    | fclear => exact .inl (hstepping (by rintro _ _ _ ⟨⟩; rfl) h)
    | fpushStart functor arity => exact .inl (hstepping (by rintro _ _ _ ⟨⟩; rfl) h)
    | fpushConst name => exact .inl (hstepping (Exec.still_appendArgument _ _) h)
    | fpushBoundVar reg => exact .inl (hstepping (Exec.still_appendRegister reg) h)
    | freport =>
      left
      cases h
      rfl
    | ffindall addr =>
      left
      simp only [execute.stepping, Exec.bind_eq_ok] at h
      obtain ⟨_, _, ⟨⟩, _, _, _, _, _, ⟨⟩, _, _, ⟨⟩, ⟨⟩⟩ := h
      rfl

end HornMachine
