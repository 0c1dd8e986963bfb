import HornMachine.Proofs.Interner.Growth
import HornMachine.Proofs.Machine.Opcode

/-!
This module contains machines that agree except for the ids of their constants. The operations of such
machines come to the same outcome and leave such machines behind: no id ever shows, only its name does.
-/

namespace HornMachine

structure Tables where
  left : SymbolTable
  right : SymbolTable

namespace Tables

variable {t t' t'' : Tables}

structure Le (t t' : Tables) : Prop where
  left : t.left ≤ t'.left
  right : t.right ≤ t'.right

instance : LE Tables := ⟨Le⟩

theorem le_refl (t : Tables) : t ≤ t :=
  ⟨Interner.le_refl _, Interner.le_refl _⟩

theorem le_trans (h : t ≤ t') (h' : t' ≤ t'') : t ≤ t'' :=
  ⟨Interner.le_trans h.left h'.left, Interner.le_trans h.right h'.right⟩

/--
The tables have grown, and equal ones in the same way.
-/
structure Grows (t t' : Tables) : Prop where
  le : t ≤ t'
  eq_of_eq : t.left = t.right → t'.left = t'.right

theorem Grows.refl (t : Tables) : t.Grows t :=
  ⟨le_refl t, id⟩

theorem Grows.trans (h : t.Grows t') (h' : t'.Grows t'') : t.Grows t'' :=
  ⟨le_trans h.le h'.le, fun heq => h'.eq_of_eq (h.eq_of_eq heq)⟩

def SameName (t : Tables) (id id' : Nat) : Prop :=
  ∃ name, t.left.get? id = some name ∧ t.right.get? id' = some name

theorem SameName.mono {id id' : Nat} (h : t.SameName id id') (hle : t ≤ t') : t'.SameName id id' := by
  rcases h with ⟨name, hid, hid'⟩
  exact ⟨name, hle.left id name hid, hle.right id' name hid'⟩

theorem SameName.lookup?_iff {id id' : Nat} (h : t.SameName id id') (name : String)
    : t.left.lookup? name = some id ↔ t.right.lookup? name = some id' := by
  rcases h with ⟨name', hid, hid'⟩
  rw [Interner.lookup?_eq_some, Interner.lookup?_eq_some, hid, hid']

theorem SameName.eq_iff {a a' b b' : Nat} (h : t.SameName a a') (h' : t.SameName b b')
    : a = b ↔ a' = b' := by
  rcases h with ⟨name, ha, ha'⟩
  rw [← Interner.lookup?_eq_some] at ha ha'
  have hb := h'.lookup?_iff name
  rw [ha, ha'] at hb
  simpa using hb

theorem SameName.eq_of_eq {id id' : Nat} (h : t.SameName id id') (ht : t.left = t.right) : id' = id := by
  rcases h with ⟨name, hid, hid'⟩
  rw [← ht, ← Interner.lookup?_eq_some] at hid'
  rw [← Interner.lookup?_eq_some, hid'] at hid
  cases hid
  rfl

end Tables

/--
Two operations come to the same outcome: their answers are related, or they have the same fault. Nothing
is said where one of them lacks an id for a name.
-/
inductive Agree (R : α → β → Prop) : Except Fault α → Except Fault β → Prop where
  | ok {a : α} {b : β} (h : R a b) : Agree R (.ok a) (.ok b)
  | fault (fault : Fault) : Agree R (.error fault) (.error fault)
  | leftFull (entries : Nat) (y : Except Fault β) : Agree R (.error (.poolExhausted entries)) y
  | rightFull (x : Except Fault α) (entries : Nat) : Agree R x (.error (.poolExhausted entries))

namespace Agree

variable {R : α → β → Prop} {S : γ → δ → Prop} {x : Except Fault α} {y : Except Fault β}

theorem bind {f : α → Except Fault γ} {g : β → Except Fault δ} (h : Agree R x y)
    (hf : ∀ a b, R a b → Agree S (f a) (g b)) : Agree S (x >>= f) (y >>= g) := by
  cases h with
  | ok h => exact hf _ _ h
  | fault fault => exact .fault fault
  | leftFull entries y => exact .leftFull entries _
  | rightFull x entries => exact .rightFull _ entries

theorem bind_same {f : α → Except Fault γ} {g : α → Except Fault δ}
    (hf : ∀ a, Agree S (f a) (g a)) : Agree S (x >>= f) (x >>= g) := by
  cases x with
  | ok a => exact hf a
  | error fault => exact .fault fault

end Agree

theorem Tables.SameName.agree_name {t : Tables} {id id' : Nat} {R : α → β → Prop}
    {f : String → Except Fault α} {g : String → Except Fault β} (hid : t.SameName id id')
    (hf : ∀ name, Agree R (f name) (g name))
    : Agree R
        (match t.left.get? id with
          | none => .error (.unknownSymbol id)
          | some name => f name)
        (match t.right.get? id' with
          | none => .error (.unknownSymbol id')
          | some name => g name) := by
  rcases hid with ⟨name, hid, hid'⟩
  rw [hid, hid']
  exact hf name

/--
Two cells that say the same, each read with its own symbol table.
-/
inductive Cell.Alike (t : Tables) : Cell → Cell → Prop where
  | const {id id' : Nat} (h : t.SameName id id') : Alike t (.const id) (.const id')
  | ref (addr : Nat) : Alike t (.ref addr) (.ref addr)

theorem Cell.Alike.mono {t t' : Tables} {cell cell' : Cell} (h : cell.Alike t cell') (hle : t ≤ t')
    : cell.Alike t' cell' := by
  cases h with
  | const h => exact .const (h.mono hle)
  | ref addr => exact .ref addr

structure Heap.Alike (t : Tables) (heap heap' : Heap) : Prop where
  size_eq : heap'.size = heap.size
  cell : ∀ {addr : Nat} {cell cell' : Cell}, heap[addr]? = some cell → heap'[addr]? = some cell' →
    cell.Alike t cell'

namespace Heap.Alike

variable {t t' : Tables} {heap heap' : Heap} (h : heap.Alike t heap')

include h in
theorem mono (hle : t ≤ t') : heap.Alike t' heap' :=
  ⟨h.size_eq, fun hcell hcell' => (h.cell hcell hcell').mono hle⟩

include h in
theorem getElem?_cases (addr : Nat)
    : (heap[addr]? = none ∧ heap'[addr]? = none) ∨
      ∃ cell cell', heap[addr]? = some cell ∧ heap'[addr]? = some cell' ∧ cell.Alike t cell' := by
  have hsize := h.size_eq
  by_cases hlt : addr < heap.size
  . have hlt' : addr < heap'.size := by omega
    have hcell : heap[addr]? = some heap[addr] := Array.getElem?_eq_getElem hlt
    have hcell' : heap'[addr]? = some heap'[addr] := Array.getElem?_eq_getElem hlt'
    exact .inr ⟨_, _, hcell, hcell', h.cell hcell hcell'⟩
  . left
    rw [Array.getElem?_eq_none_iff, Array.getElem?_eq_none_iff]
    omega

include h in
theorem eq_of_eq (ht : t.left = t.right) : heap' = heap := by
  apply Array.ext_getElem?
  intro addr
  rcases h.getElem?_cases addr with ⟨hcell, hcell'⟩ | ⟨cell, cell', hcell, hcell', halike⟩
  . rw [hcell, hcell']
  . rw [hcell, hcell']
    cases halike with
    | const hid => rw [hid.eq_of_eq ht]
    | ref addr => rfl

include h in
theorem agree_cell (addr : Nat) : Agree (Cell.Alike t) (heap.cell addr) (heap'.cell addr) := by
  unfold Heap.cell
  rcases h.getElem?_cases addr with ⟨hcell, hcell'⟩ | ⟨cell, cell', hcell, hcell', halike⟩
  . rw [hcell, hcell', h.size_eq]
    exact .fault _
  . rw [hcell, hcell']
    exact .ok halike

include h in
theorem agree_constantAt (addr : Nat)
    : Agree (Option.Rel t.SameName) (heap.constantAt addr) (heap'.constantAt addr) := by
  apply (h.agree_cell addr).bind
  intro cell cell' halike
  cases halike with
  | const h => exact .ok (.some h)
  | ref addr => exact .ok .none

include h in
theorem isFree_eq (addr : Nat) : heap'.isFree addr = heap.isFree addr := by
  unfold Heap.isFree Heap.cell
  rcases h.getElem?_cases addr with ⟨hcell, hcell'⟩ | ⟨cell, cell', hcell, hcell', halike⟩
  . rw [hcell, hcell', h.size_eq]
  . rw [hcell, hcell']
    cases halike with
    | const h => rfl
    | ref addr => rfl

include h in
theorem follow_eq (addr steps : Nat) : heap'.follow addr steps = heap.follow addr steps := by
  induction steps generalizing addr with
  | zero => rfl
  | succ steps ih =>
    unfold Heap.follow
    rcases h.getElem?_cases addr with ⟨hcell, hcell'⟩ | ⟨cell, cell', hcell, hcell', halike⟩
    . rw [hcell, hcell', h.size_eq]
    . rw [hcell, hcell']
      cases halike with
      | const h => rfl
      | ref target => simp only [ih]

include h in
theorem root_eq (addr : Nat) : heap'.root addr = heap.root addr := by
  rw [Heap.root, h.size_eq, h.follow_eq, Heap.root]

include h in
theorem relative_eq (offset : Int) : heap'.relative offset = heap.relative offset := by
  unfold Heap.relative
  rw [h.size_eq]

include h in
theorem agree_write {cell cell' : Cell} (addr : Nat) (halike : cell.Alike t cell')
    : Agree (Heap.Alike t) (heap.write addr cell) (heap'.write addr cell') := by
  have hsize := h.size_eq
  unfold Heap.write
  by_cases hlt : addr < heap.size
  . have hlt' : addr < heap'.size := by omega
    rw [dif_pos hlt, dif_pos hlt']
    apply Agree.ok
    constructor
    . simp [hsize]
    . intro a c c' hc hc'
      rw [Array.getElem?_set] at hc hc'
      split at hc
      . next heq =>
        rw [if_pos heq] at hc'
        cases hc
        cases hc'
        exact halike
      . next hne =>
        rw [if_neg hne] at hc'
        exact h.cell hc hc'
  . rw [dif_neg hlt, dif_neg (by omega), hsize]
    exact .fault _

include h in
theorem agree_collapse (start root : Nat)
    : Agree (Heap.Alike t) (heap.collapse start root) (heap'.collapse start root) := by
  unfold Heap.collapse
  split
  . exact .ok h
  . exact h.agree_write start (.ref root)

include h in
theorem agree_bindFree {cell cell' : Cell} (addr : Nat) (halike : cell.Alike t cell')
    (operation : String)
    : Agree (Heap.Alike t) (heap.bindFree addr cell operation)
        (heap'.bindFree addr cell' operation) := by
  unfold Heap.bindFree
  rw [h.isFree_eq]
  apply Agree.bind_same
  intro free
  cases free with
  | false => exact .fault _
  | true => exact h.agree_write addr halike

include h in
theorem push {cell cell' : Cell} (halike : cell.Alike t cell')
    : Heap.Alike t (heap.push cell) (heap'.push cell') := by
  constructor
  . simp [h.size_eq]
  . intro addr c c' hc hc'
    rw [Array.getElem?_push, h.size_eq] at hc'
    rw [Array.getElem?_push] at hc
    split at hc
    . next heq =>
      rw [if_pos heq] at hc'
      cases hc
      cases hc'
      exact halike
    . next hne =>
      rw [if_neg hne] at hc'
      exact h.cell hc hc'

include h in
theorem take (size : Nat) : Heap.Alike t (heap.take size) (heap'.take size) := by
  constructor
  . simp [h.size_eq]
  . intro addr c c' hc hc'
    simp only [Array.take_eq_extract, Array.getElem?_extract, Nat.zero_add] at hc hc'
    split at hc
    . next hlt =>
      rw [if_pos (by rw [h.size_eq]; exact hlt)] at hc'
      exact h.cell hc hc'
    . contradiction

end Heap.Alike

/--
Two states that agree except for the ids on their heaps, which stand for the same names.
-/
structure State.Alike (t : Tables) (s s' : State) : Prop where
  heap : s.heap.Alike t s'.heap
  registers_eq : s'.registers = s.registers
  calls_eq : s'.calls = s.calls
  pc_eq : s'.pc = s.pc
  jumpTo_eq : s'.jumpTo = s.jumpTo
  failed_eq : s'.failed = s.failed
  completed_eq : s'.completed = s.completed

namespace State.Alike

variable {t t' : Tables} {s s' : State} (h : s.Alike t s')

include h in
theorem mono (hle : t ≤ t') : s.Alike t' s' :=
  { h with heap := h.heap.mono hle }

include h in
theorem eq_heap : s' = { s with heap := s'.heap } := by
  rcases s with ⟨heap, registers, calls, pc, jumpTo, failed, completed⟩
  rcases s' with ⟨heap', registers', calls', pc', jumpTo', failed', completed'⟩
  rcases h with ⟨_, hregisters, hcalls, hpc, hjump, hfailed, hcompleted⟩
  simp only at hregisters hcalls hpc hjump hfailed hcompleted
  simp only [hregisters, hcalls, hpc, hjump, hfailed, hcompleted]

include h in
theorem eq_of_eq (ht : t.left = t.right) : s' = s := by
  rw [h.eq_heap, h.heap.eq_of_eq ht]

theorem of_heap {heap heap' : Heap} (s : State) (h : heap.Alike t heap')
    : State.Alike t { s with heap := heap } { s with heap := heap' } :=
  ⟨h, rfl, rfl, rfl, rfl, rfl, rfl⟩

include h in
theorem with_heap {heap heap' : Heap} (hheap : heap.Alike t heap')
    : State.Alike t { s with heap := heap } { s' with heap := heap' } :=
  { h with heap := hheap }

include h in
theorem next?_eq : s'.next? = s.next? := by
  rw [State.next?, h.failed_eq, h.completed_eq, h.pc_eq, State.next?]

include h in
theorem register_eq (reg : Int) : s'.register reg = s.register reg := by
  unfold State.register
  rw [h.registers_eq]

include h in
theorem advance : s.advance.Alike t s'.advance :=
  { h with pc_eq := by rw [State.advance, State.advance, h.pc_eq] }

include h in
theorem enter (label : String) : (s.enter label).Alike t (s'.enter label) where
  heap := h.heap
  registers_eq := h.registers_eq
  calls_eq := by
    simp only [State.enter, State.pushCall, State.advance, h.heap.size_eq, h.registers_eq, h.pc_eq,
      h.jumpTo_eq, h.calls_eq]
  pc_eq := rfl
  jumpTo_eq := rfl
  failed_eq := h.failed_eq
  completed_eq := h.completed_eq

include h in
theorem leave : s.leave.Alike t s'.leave := by
  rw [h.eq_heap]
  unfold State.leave
  simp only
  split
  . exact .of_heap { s with completed := true } h.heap
  . next frame calls _ =>
    exact .of_heap { s with
        registers := s.registers.take frame.registerCount
        calls := calls
        pc := some frame.pc
        jumpTo := frame.jumpTo } (h.heap.take frame.heapSize)

include h in
theorem push {cell cell' : Cell} (halike : cell.Alike t cell') : (s.push cell).Alike t (s'.push cell') :=
  h.with_heap (h.heap.push halike)

include h in
theorem pushFree : s.pushFree.Alike t s'.pushFree := by
  rw [State.pushFree, State.pushFree, h.heap.size_eq]
  exact h.push (.ref _)

include h in
theorem grow (count : Int) : (s.grow count).Alike t (s'.grow count) := by
  rw [h.eq_heap]
  unfold State.grow
  split
  . exact .of_heap { s with registers := s.registers ++ Array.replicate count.toNat none } h.heap
  . exact .of_heap { s with registers := s.registers.take (s.registers.size + count).toNat } h.heap

include h in
theorem agree_setRegister (reg : Int) (addr : Nat)
    : Agree (State.Alike t) (s.setRegister reg addr) (s'.setRegister reg addr) := by
  rw [h.eq_heap]
  unfold State.setRegister
  simp only
  split
  . exact .fault _
  . exact .ok { h with
      registers_eq := rfl
      calls_eq := rfl
      pc_eq := rfl
      jumpTo_eq := rfl
      failed_eq := rfl
      completed_eq := rfl }

include h in
theorem agree_settle (i ri j rj : Nat)
    : Agree (State.Alike t) (s.settle i ri j rj) (s'.settle i ri j rj) := by
  have hfailed := h.failed_eq
  unfold State.settle
  by_cases hf : s.failed = true
  . rw [if_pos hf, if_pos (hfailed.trans hf)]
    exact .ok h
  . rw [if_neg hf, if_neg (hfailed ▸ hf)]
    apply (h.heap.agree_collapse i ri).bind
    intro heap heap' hheap
    apply (hheap.agree_collapse j rj).bind
    intro heap heap' hheap
    exact .ok (h.with_heap hheap)

include h in
theorem agree_bind {root : Nat} {cell cell' : Cell} (halike : cell.Alike t cell')
    (i ri j rj : Nat)
    : Agree (State.Alike t)
        (s.heap.bindFree root cell "unifyboundvar" >>= fun heap =>
          settle { s with heap := heap } i ri j rj)
        (s'.heap.bindFree root cell' "unifyboundvar" >>= fun heap =>
          settle { s' with heap := heap } i ri j rj) := by
  apply (h.heap.agree_bindFree root halike "unifyboundvar").bind
  intro heap heap' hheap
  exact (h.with_heap hheap).agree_settle i ri j rj

include h in
theorem agree_unify (i j : Nat) : Agree (State.Alike t) (s.unify i j) (s'.unify i j) := by
  unfold State.unify
  rw [h.heap.root_eq, h.heap.root_eq]
  apply Agree.bind_same
  intro ri
  apply Agree.bind_same
  intro rj
  apply (h.heap.agree_cell ri).bind
  intro ci ci' hci
  apply (h.heap.agree_cell rj).bind
  intro cj cj' hcj
  cases hci with
  | const ha =>
    cases hcj with
    | const hb =>
      apply agree_settle
      have hiff := ha.eq_iff hb
      refine { h with failed_eq := ?_ }
      simp only [h.failed_eq, bne, beq_eq_decide, hiff]
    | ref _ => exact h.agree_bind (.const ha) i ri j rj
  | ref _ =>
    cases hcj with
    | const hb => exact h.agree_bind (.const hb) i ri j rj
    | ref _ =>
      show Agree _ (if ri = rj then _ else _) (if ri = rj then _ else _)
      split
      . exact h.agree_settle i ri j rj
      . exact h.agree_bind (.ref _) i _ j _

end State.Alike

/--
Two machines that agree except for ids, whatever features are under construction.
-/
def Machine.Alike (m m' : Machine) : Prop :=
  m.state.Alike ⟨m.symbols, m'.symbols⟩ m'.state

structure Machine.Matched (m m' n n' : Machine) : Prop where
  alike : n.Alike n'
  grows : Tables.Grows ⟨m.symbols, m'.symbols⟩ ⟨n.symbols, n'.symbols⟩
  features_eq : m.features = m'.features → n.features = n'.features

theorem Machine.Matched.of_state {m m' : Machine} {s s' : State}
    (hs : s.Alike ⟨m.symbols, m'.symbols⟩ s')
    : Matched m m' { m with state := s } { m' with state := s' } :=
  ⟨hs, Tables.Grows.refl _, id⟩

namespace Machine.Alike

variable {m m' : Machine} (h : m.Alike m')

theorem agree_intern (t : Tables) (name : String)
    : Agree (fun entry entry' : Nat × SymbolTable =>
          t.Grows ⟨entry.2, entry'.2⟩ ∧ Tables.SameName ⟨entry.2, entry'.2⟩ entry.1 entry'.1)
        (t.left.intern name) (t.right.intern name) := by
  match hleft : t.left.intern name, hright : t.right.intern name with
  | .ok (id, left), .ok (id', right) =>
    refine .ok ⟨⟨⟨Interner.intern_le hleft, Interner.intern_le hright⟩, ?_⟩, name,
      Interner.get?_intern hleft, Interner.get?_intern hright⟩
    intro heq
    rw [heq, hright] at hleft
    cases hleft
    rfl
  | .error fault, y =>
    rw [Interner.intern_eq_error hleft]
    exact .leftFull _ _
  | .ok _, .error fault =>
    rw [Interner.intern_eq_error hright]
    exact .rightFull _ _

include h in
theorem agree_pushConst (name : String)
    : Agree (Matched m m') (m.pushConst name) (m'.pushConst name) := by
  apply (agree_intern ⟨m.symbols, m'.symbols⟩ name).bind
  intro entry entry' hentry
  exact .ok ⟨State.Alike.push (State.Alike.mono h hentry.1.le) (.const hentry.2), hentry.1, id⟩

include h in
theorem agree_setRegister (reg : Int) (addr : Nat)
    : Agree (Matched m m') (m.setRegister reg addr) (m'.setRegister reg addr) := by
  apply (State.Alike.agree_setRegister h reg addr).bind
  intro s s' hs
  exact .ok (.of_state hs)

include h in
theorem agree_pushBoundVar (reg : Int)
    : Agree (Matched m m') (m.pushBoundVar reg) (m'.pushBoundVar reg) := by
  unfold Machine.pushBoundVar
  rw [State.Alike.register_eq h]
  apply Agree.bind_same
  intro addr
  rw [(State.Alike.heap h).root_eq]
  apply Agree.bind_same
  intro root
  exact .ok (.of_state (State.Alike.push h (.ref root)))

include h in
theorem agree_bindName (name : String) (addr root : Nat)
    : Agree (Matched m m')
        (m.symbols.intern name >>= fun entry =>
          m.state.heap.write root (.const entry.1) >>= fun heap =>
            heap.collapse addr root >>= fun heap =>
              .ok { m with symbols := entry.2, state := { m.state with heap := heap } })
        (m'.symbols.intern name >>= fun entry =>
          m'.state.heap.write root (.const entry.1) >>= fun heap =>
            heap.collapse addr root >>= fun heap =>
              .ok { m' with symbols := entry.2, state := { m'.state with heap := heap } }) := by
  apply (agree_intern ⟨m.symbols, m'.symbols⟩ name).bind
  intro entry entry' hentry
  have hstate := State.Alike.mono h hentry.1.le
  apply (hstate.heap.agree_write root (.const hentry.2)).bind
  intro heap heap' hheap
  apply (hheap.agree_collapse addr root).bind
  intro heap heap' hheap
  exact .ok ⟨hstate.with_heap hheap, hentry.1, id⟩

include h in
theorem agree_unifyConst (name : String) (offset : Int)
    : Agree (Matched m m') (m.unifyConst name offset) (m'.unifyConst name offset) := by
  unfold Machine.unifyConst
  rw [(State.Alike.heap h).relative_eq]
  apply Agree.bind_same
  intro addr
  rw [(State.Alike.heap h).root_eq]
  apply Agree.bind_same
  intro root
  apply ((State.Alike.heap h).agree_constantAt root).bind
  intro constant constant' hconstant
  cases hconstant with
  | some hid =>
    apply Agree.ok
    apply Matched.of_state
    have hiff := hid.lookup?_iff name
    refine { (h : State.Alike _ _ _) with failed_eq := ?_ }
    simp only [bne, beq_eq_decide, hiff]
  | none =>
    simp only
    rw [(State.Alike.heap h).isFree_eq]
    apply Agree.bind_same
    intro free
    cases free with
    | false => exact .fault _
    | true => exact h.agree_bindName name addr root

include h in
theorem agree_initFreeVar (reg offset : Int)
    : Agree (Matched m m') (m.initFreeVar reg offset) (m'.initFreeVar reg offset) := by
  unfold Machine.initFreeVar
  rw [(State.Alike.heap h).relative_eq]
  apply Agree.bind_same
  intro addr
  exact h.agree_setRegister reg addr

include h in
theorem agree_unifyBoundVar (reg offset : Int)
    : Agree (Matched m m') (m.unifyBoundVar reg offset) (m'.unifyBoundVar reg offset) := by
  unfold Machine.unifyBoundVar
  rw [(State.Alike.heap h).relative_eq]
  apply Agree.bind_same
  intro i
  rw [State.Alike.register_eq h]
  apply Agree.bind_same
  intro j
  apply (State.Alike.agree_unify h i j).bind
  intro s s' hs
  exact .ok (.of_state hs)

section Features

variable (hfeatures : m.features = m'.features)

include h hfeatures in
theorem agree_appendArgument (arg : Argument) (operation : String)
    : Agree (Matched m m') (m.appendArgument arg operation) (m'.appendArgument arg operation) := by
  unfold Machine.appendArgument
  rw [← hfeatures]
  split
  . exact .fault _
  . exact .ok ⟨h, Tables.Grows.refl _, fun _ => rfl⟩

include h hfeatures in
theorem agree_appendRegister (reg : Int)
    : Agree (Matched m m') (m.appendRegister reg) (m'.appendRegister reg) := by
  unfold Machine.appendRegister
  rw [State.Alike.register_eq h]
  apply Agree.bind_same
  intro addr
  rw [(State.Alike.heap h).root_eq]
  apply Agree.bind_same
  intro root
  apply ((State.Alike.heap h).agree_constantAt root).bind
  intro constant constant' hconstant
  cases hconstant with
  | none => exact .fault _
  | some hid => exact hid.agree_name fun name => h.agree_appendArgument hfeatures _ _

end Features

section Argument

variable (arity index : Nat)

include h in
theorem argumentAddress_eq : m'.argumentAddress arity index = m.argumentAddress arity index := by
  unfold Machine.argumentAddress
  rw [(State.Alike.heap h).size_eq]

include h in
theorem agree_constant (addr : Nat) : Agree Eq (m.constant addr) (m'.constant addr) := by
  apply ((State.Alike.heap h).agree_constantAt addr).bind
  intro constant constant' hconstant
  cases hconstant with
  | none => exact .fault _
  | some hid => exact hid.agree_name fun name => .ok rfl

include h in
theorem agree_argument : Agree Eq (m.argument arity index) (m'.argument arity index) := by
  unfold Machine.argument
  rw [h.argumentAddress_eq]
  apply Agree.bind_same
  intro addr
  unfold Machine.valueAt
  rw [(State.Alike.heap h).root_eq]
  apply Agree.bind_same
  intro root
  unfold Machine.valueOf
  rw [(State.Alike.heap h).isFree_eq]
  apply Agree.bind_same
  intro free
  cases free with
  | true => exact .ok rfl
  | false =>
    apply (h.agree_constant root).bind
    intro name name' hname
    rw [hname]
    exact .ok rfl

include h in
theorem agree_constantArgument
    : Agree Eq (m.constantArgument arity index) (m'.constantArgument arity index) := by
  apply (h.agree_argument arity index).bind
  intro arg arg' harg
  rw [harg]
  cases arg' with
  | const _ => exact .ok rfl
  | var _ => exact .ok rfl

include h in
theorem agree_lastArguments (count : Nat)
    : Agree Eq (m.lastArguments arity count) (m'.lastArguments arity count) := by
  induction count with
  | zero => exact .ok rfl
  | succ count ih =>
    apply (h.agree_argument arity (arity - count)).bind
    intro arg arg' harg
    apply ih.bind
    intro args args' hargs
    rw [harg, hargs]
    exact .ok rfl

include h in
theorem agree_waitingGoal : Agree Eq m.waitingGoal m'.waitingGoal := by
  unfold Machine.waitingGoal
  rw [State.Alike.jumpTo_eq h]
  match m.state.jumpTo with
  | none => exact .fault _
  | some label =>
    apply Agree.bind_same
    intro sig
    apply (h.agree_lastArguments sig.arity sig.arity).bind
    intro args args' hargs
    rw [hargs]
    exact .ok rfl

include h in
theorem agree_setArgument (name : String)
    : Agree (Matched m m') (m.setArgument arity index name) (m'.setArgument arity index name) := by
  unfold Machine.setArgument
  rw [h.argumentAddress_eq]
  apply Agree.bind_same
  intro addr
  rw [(State.Alike.heap h).root_eq]
  apply Agree.bind_same
  intro root
  rw [(State.Alike.heap h).isFree_eq]
  apply Agree.bind_same
  intro free
  cases free with
  | false => exact .fault _
  | true => exact h.agree_bindName name addr root

end Argument

end Machine.Alike

end HornMachine
