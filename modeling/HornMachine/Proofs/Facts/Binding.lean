import HornMachine.Proofs.Environment.Room
import HornMachine.Proofs.Facts.Row
import HornMachine.Proofs.Machine.Binding

/-!
This module contains when the arguments of a call agree with the row of a table, and what is bound if they
do. The constants among them have to be those of the row, and the row must not have different values for the
same variable.
-/

namespace HornMachine

namespace FactTable

def Fits (args : List Argument) (row : List String) : Prop :=
  (∀ (j : Nat) (name : String), args[j]? = some (.const name) → row[j]? = some name) ∧
  ∀ i j root : Nat, args[i]? = some (.var root) → args[j]? = some (.var root) → row[i]? = row[j]?

section Fits

variable {args : List Argument} {root root' j : Nat} {name value : String} {row : List String}

theorem fits_nil : Fits [] [] :=
  ⟨nofun, nofun⟩

theorem fits_const : Fits (.const name :: args) (value :: row) ↔ name = value ∧ Fits args row := by
  constructor
  . intro h
    refine ⟨?_, ?_, ?_⟩
    . simpa using (h.1 0 name rfl).symm
    . intro j
      exact h.1 (j + 1)
    . intro i j
      exact h.2 (i + 1) (j + 1)
  . rintro ⟨rfl, hconst, hvar⟩
    constructor
    . intro j name' hj
      cases j with
      | zero => simpa using hj
      | succ j => exact hconst j name' hj
    . intro i j root hi hj
      match i, j with
      | 0, _ => simp at hi
      | _ + 1, 0 => simp at hj
      | i + 1, j + 1 => exact hvar i j root hi hj

theorem map_fill_eq_const
    : (args.map (Argument.fill root value))[j]? = some (.const name) ↔
      (args[j]? = some (.var root) ∧ value = name) ∨ args[j]? = some (.const name) := by
  rw [List.getElem?_map]
  match args[j]? with
  | none => simp
  | some (.const _) => simp [Argument.fill]
  | some (.var root') =>
    by_cases heq : root' = root
    . simp [Argument.fill, heq]
    . simp [Argument.fill, heq]

theorem map_fill_eq_var
    : (args.map (Argument.fill root value))[j]? = some (.var root') ↔
      args[j]? = some (.var root') ∧ root' ≠ root := by
  rw [List.getElem?_map]
  match args[j]? with
  | none => simp
  | some (.const _) => simp [Argument.fill]
  | some (.var root'') =>
    by_cases heq : root'' = root
    . simp [Argument.fill, heq]
      omega
    . simp [Argument.fill, heq]
      omega

theorem fits_var
    : Fits (.var root :: args) (value :: row) ↔ Fits (args.map (Argument.fill root value)) row := by
  constructor
  . intro h
    constructor
    . intro j name hj
      rcases map_fill_eq_const.mp hj with ⟨hroot, rfl⟩ | hconst
      . exact (h.2 0 (j + 1) root rfl hroot).symm
      . exact h.1 (j + 1) name hconst
    . intro i j root' hi hj
      exact h.2 (i + 1) (j + 1) root' (map_fill_eq_var.mp hi).1 (map_fill_eq_var.mp hj).1
  . intro h
    have hfirst : ∀ {j : Nat}, args[j]? = some (.var root) → row[j]? = some value := by
      intro j hj
      exact h.1 j value (map_fill_eq_const.mpr (.inl ⟨hj, rfl⟩))
    constructor
    . intro j name hj
      cases j with
      | zero => simp at hj
      | succ j => exact h.1 j name (map_fill_eq_const.mpr (.inr hj))
    . intro i j root' hi hj
      match i, j with
      | 0, 0 => rfl
      | 0, j + 1 =>
        cases hi
        exact (hfirst hj).symm
      | i + 1, 0 =>
        cases hj
        exact hfirst hi
      | i + 1, j + 1 =>
        by_cases heq : root' = root
        . subst heq
          exact (hfirst hi).trans (hfirst hj).symm
        . exact h.2 i j root' (map_fill_eq_var.mpr ⟨hi, heq⟩) (map_fill_eq_var.mpr ⟨hj, heq⟩)

end Fits

end FactTable

namespace Machine

variable {m : Machine} {arity j : Nat} {value : Argument}

def readings (m : Machine) (base count : Nat) : List Argument :=
  (List.range' base count).map m.reading

theorem readings_succ (m : Machine) (base count : Nat)
    : m.readings base (count + 1) = m.reading base :: m.readings (base + 1) count := by
  rw [readings, List.range'_succ, List.map_cons]
  rfl

theorem Fills.readings_eq {m' : Machine} {root : Nat} {name : String} (h : m.Fills root name m')
    (base count : Nat) : m'.readings base count = (m.readings base count).map (Argument.fill root name) := by
  unfold readings
  rw [List.map_map]
  apply List.map_congr_left
  intro addr _
  exact h.reading_eq addr

theorem argument_eq_ok (hclosed : m.state.heap.Closed m.symbols) (harity : arity ≤ m.state.heap.size)
    : m.argument arity (j + 1) = .ok value ↔
      (m.readings (m.state.heap.size - arity) arity)[j]? = some value := by
  unfold readings
  match haddress : m.argumentAddress arity (j + 1) with
  | .error fault =>
    have hle : arity ≤ j := by
      by_contra hlt
      rw [argumentAddress_eq_ok.mpr ⟨by omega, by omega, harity, rfl⟩] at haddress
      contradiction
    unfold argument
    rw [haddress, List.getElem?_eq_none (by simpa using hle)]
    simp [bind, Except.bind]
  | .ok addr =>
    rw [argument_eq_reading hclosed haddress]
    rw [argumentAddress_eq_ok] at haddress
    have haddr : m.state.heap.size - arity + j = addr := by omega
    have hlt : j < arity := by omega
    simp [hlt, haddr]

end Machine

namespace FactTable

variable {root index arity : Nat} {args : List Argument} {name value : String} {row : List String}
  {m m₁ m' : Machine}

/--
The variables among the arguments got the values of the row, and no others got any.
-/
structure Takes (m : Machine) (args : List Argument) (row : List String) (m' : Machine) : Prop where
  closed : m'.state.heap.Closed m'.symbols
  size_eq : m'.state.heap.size = m.state.heap.size
  args_eq : ∀ (addr j : Nat) (value : String), args[j]? = some (m.reading addr) → row[j]? = some value →
    m'.reading addr = .const value
  other_eq : ∀ addr : Nat, (∀ root, m.reading addr = .var root → .var root ∉ args) →
    m'.reading addr = m.reading addr

theorem Takes.nil (hclosed : m.state.heap.Closed m.symbols) : Takes m [] [] m where
  closed := hclosed
  size_eq := rfl
  args_eq := nofun
  other_eq _ _ := rfl

theorem Takes.const (h : Takes m args row m') : Takes m (.const name :: args) (name :: row) m' where
  closed := h.closed
  size_eq := h.size_eq
  args_eq addr j value := by
    cases j with
    | zero =>
      intro harg hrow
      cases hrow
      have hreading : m.reading addr = .const name := (Option.some.inj harg).symm
      rw [h.other_eq addr (by simp [hreading]), hreading]
    | succ j => exact h.args_eq addr j value
  other_eq addr hnot := by
    apply h.other_eq addr
    intro root hroot hmem
    exact hnot root hroot (List.mem_cons_of_mem _ hmem)

theorem Takes.var (hfills : m.Fills root value m₁) (h : Takes m₁ (args.map (Argument.fill root value)) row m')
    : Takes m (.var root :: args) (value :: row) m' where
  closed := h.closed
  size_eq := h.size_eq.trans hfills.size_eq
  args_eq addr j value' := by
    have hreading := hfills.reading_eq addr
    cases j with
    | zero =>
      intro harg hrow
      cases hrow
      have hroot : m.reading addr = .var root := (Option.some.inj harg).symm
      rw [hroot, Argument.fill, if_pos rfl] at hreading
      rw [h.other_eq addr (by simp [hreading]), hreading]
    | succ j =>
      intro harg
      apply h.args_eq addr j value'
      rw [List.getElem?_map, hreading]
      exact congrArg (Option.map _) harg
  other_eq addr hnot := by
    have hother : m₁.reading addr = m.reading addr := by
      rw [hfills.reading_eq, Argument.fill, if_neg]
      intro hroot
      exact hnot root hroot (List.mem_cons_self ..)
    rw [← hother]
    apply h.other_eq addr
    intro root' hroot' hmem
    rw [hother] at hroot'
    rcases List.mem_iff_getElem?.mp hmem with ⟨j, hj⟩
    apply hnot root' hroot'
    exact List.mem_cons_of_mem _ (List.mem_iff_getElem?.mpr ⟨j, (map_fill_eq_var.mp hj).1⟩)

/--
A row takes its values to the arguments if it fits, and is refused otherwise, unless the table of constants
is full.
-/
def Answers (args : List Argument) (row : List String) (m : Machine) (x : EStateM.Result Fault Machine Bool)
    : Prop :=
  (∃ entries m', x = .error (.poolExhausted entries) m') ∨
  ∃ agrees m', x = .ok agrees m' ∧ (agrees = true ↔ Fits args row) ∧ (agrees = true → Takes m args row m')

theorem Answers.const {x : EStateM.Result Fault Machine Bool} (h : Answers args row m x)
    : Answers (.const name :: args) (name :: row) m x := by
  rcases h with h | ⟨agrees, m', heq, hfits, htakes⟩
  . exact .inl h
  . refine .inr ⟨agrees, m', heq, ?_, fun hagrees => (htakes hagrees).const⟩
    rw [hfits, fits_const]
    simp

theorem Answers.var {x : EStateM.Result Fault Machine Bool} (hfills : m.Fills root value m₁)
    (h : Answers (args.map (Argument.fill root value)) row m₁ x)
    : Answers (.var root :: args) (value :: row) m x := by
  rcases h with h | ⟨agrees, m', heq, hfits, htakes⟩
  . exact .inl h
  . refine .inr ⟨agrees, m', heq, ?_, fun hagrees => (htakes hagrees).var hfills⟩
    rw [hfits, fits_var]

theorem answers_bindRow (hclosed : m.state.heap.Closed m.symbols) (hpos : 0 < index)
    (hindex : index + row.length = arity + 1) (harity : arity ≤ m.state.heap.size)
    : Answers (m.readings (m.state.heap.size - arity + index - 1) row.length) row m
        (bindRow arity index row m) := by
  -- the argument that is read is the first one, and a variable is filled in for all that follow
  induction row generalizing m index with
  | nil => exact .inr ⟨true, m, rfl, iff_of_true rfl fits_nil, fun _ => .nil hclosed⟩
  | cons value row ih =>
    rw [List.length_cons] at hindex
    have haddress := Machine.argumentAddress_eq hpos (by omega : index ≤ arity) harity
    have hargument := Machine.argument_eq_reading hclosed haddress
    have hnext : m.state.heap.size - arity + (index + 1) - 1 = m.state.heap.size - arity + index - 1 + 1 := by
      omega
    rw [List.length_cons, Machine.readings_succ]
    match hreading : m.reading (m.state.heap.size - arity + index - 1) with
    | .const name =>
      rw [hreading] at hargument
      rw [bindRow_const value row (Machine.constantArgument_eq_some.mpr hargument)]
      by_cases hvalue : name = value
      . subst hvalue
        rw [if_pos rfl, ← hnext]
        exact (ih hclosed (by omega) (by omega) harity).const
      . rw [if_neg hvalue]
        refine .inr ⟨false, m, rfl, ?_, nofun⟩
        rw [fits_const]
        simp [hvalue]
    | .var root =>
      rw [hreading] at hargument
      rw [bindRow_free value row (Machine.constantArgument_eq_none.mpr ⟨root, hargument⟩)]
      have hsets := Machine.sets_setArgument hclosed arity index value
      generalize hset : Machine.setArgument arity index value m = x at hsets
      cases hsets with
      | invalid haddress' =>
        rw [haddress] at haddress'
        contradiction
      | bound hconst =>
        rw [hargument] at hconst
        cases hconst
      | @full _ entries _ _ => exact .inl ⟨entries, m, Exec.bind_of_error (Exec.update_of_error hset)⟩
      | @free _ m₁ hfree _ hfills =>
        rw [hargument] at hfree
        cases hfree
        rw [Exec.bind_of_ok (Exec.update_eq_ok.mpr hset)]
        apply Answers.var hfills
        rw [← hfills.readings_eq, ← hnext, ← hfills.size_eq]
        exact ih hfills.closed (by omega) (by omega) (hfills.size_eq ▸ harity)

theorem fits_iff (hclosed : m.state.heap.Closed m.symbols) (hrow : row.length ≤ m.state.heap.size)
    : Fits (m.readings (m.state.heap.size - row.length) row.length) row ↔
      (∀ j name, m.constantArgument row.length (j + 1) = .ok (some name) → row[j]? = some name) ∧
        ∀ i j root, m.argument row.length (i + 1) = .ok (.var root) →
          m.argument row.length (j + 1) = .ok (.var root) → row[i]? = row[j]? := by
  simp only [Machine.constantArgument_eq_some, Machine.argument_eq_ok hclosed hrow]
  rfl

namespace Takes

variable (hrow : row.length ≤ m.state.heap.size)
  (h : Takes m (m.readings (m.state.heap.size - row.length) row.length) row m')
include hrow h

theorem constantArgument_eq {j : Nat} (hvalue : row[j]? = some value)
    : m'.constantArgument row.length (j + 1) = .ok (some value) := by
  have hlt : j < row.length := (List.getElem?_eq_some_iff.mp hvalue).1
  rw [Machine.constantArgument_eq_some, Machine.argument_eq_ok h.closed (h.size_eq ▸ hrow), h.size_eq]
  simp only [Machine.readings, List.getElem?_map, List.getElem?_range' hlt, Option.map_some,
    Option.some.injEq]
  apply h.args_eq _ j value _ hvalue
  simp only [Machine.readings, List.getElem?_map, List.getElem?_range' hlt, Option.map_some]

theorem valueAt_eq (hclosed : m.state.heap.Closed m.symbols) {addr : Nat}
    (hother : ∀ j root, m.argument row.length j = .ok (.var root) → m.valueAt addr ≠ .ok (.var root))
    : m'.valueAt addr = m.valueAt addr := by
  by_cases haddr : addr < m.state.heap.size
  . rw [Machine.valueAt_eq_reading hclosed haddr, Machine.valueAt_eq_reading h.closed (h.size_eq ▸ haddr),
      h.other_eq addr]
    intro root hroot hmem
    rcases List.mem_iff_getElem?.mp hmem with ⟨j, hj⟩
    apply hother (j + 1) root ((Machine.argument_eq_ok hclosed hrow).mpr hj)
    rw [Machine.valueAt_eq_reading hclosed haddr, hroot]
  . have hsize := Nat.le_of_not_lt haddr
    rw [Machine.valueAt_of_size_le hsize, Machine.valueAt_of_size_le (h.size_eq ▸ hsize), h.size_eq]

end Takes

theorem bind_arguments (hclosed : m.state.heap.Closed m.symbols)
    : (∀ (arity index : Nat) (name : String),
        ((∃ m', Exec.setArgument arity index name m = .ok () m') ↔
          0 < index ∧ index ≤ arity ∧ arity ≤ m.state.heap.size ∧
            m.constantArgument arity index = .ok none ∧ m.symbols.Admits name) ∧
        (∀ m', Exec.setArgument arity index name m = .ok () m' →
          ∃ root, m.argument arity index = .ok (.var root) ∧
            m' = { m with symbols := m'.symbols, state := { m.state with heap := m'.state.heap } } ∧
            (∀ arity' j, m.argument arity' j = .ok (.var root) →
              m'.constantArgument arity' j = .ok (some name)) ∧
            (∀ arity' j, m.argument arity' j ≠ .ok (.var root) →
              m'.argument arity' j = m.argument arity' j) ∧
            (∀ addr, m.valueAt addr ≠ .ok (.var root) → m'.valueAt addr = m.valueAt addr) ∧
            ∀ addr, m'.state.heap.root addr = m.state.heap.root addr) ∧
        (∀ fault m', Exec.setArgument arity index name m = .error fault m' →
          m' = m ∧ (fault = .invalidArgument arity index ∨ (∃ root, fault = .notFree root "set_arg") ∨
            ∃ entries, fault = .poolExhausted entries)) ∧
        ((∃ root, m.argument arity index = .ok (.var root)) ↔ m.constantArgument arity index = .ok none)) ∧
      ∀ row : List String, row.length ≤ m.state.heap.size →
        (¬m.HasRoom row ∧ ∃ entries m', bindRow row.length 1 row m = .error (.poolExhausted entries) m') ∨
        ∃ agrees m', bindRow row.length 1 row m = .ok agrees m' ∧
          (agrees = true ↔
            (∀ j name, m.constantArgument row.length (j + 1) = .ok (some name) → row[j]? = some name) ∧
            ∀ i j root, m.argument row.length (i + 1) = .ok (.var root) →
              m.argument row.length (j + 1) = .ok (.var root) → row[i]? = row[j]?) ∧
          (agrees = true →
            (∀ j value, row[j]? = some value →
              m'.constantArgument row.length (j + 1) = .ok (some value)) ∧
            ∀ addr, (∀ j root, m.argument row.length j = .ok (.var root) →
              m.valueAt addr ≠ .ok (.var root)) → m'.valueAt addr = m.valueAt addr) := by
  constructor
  . intro arity index name
    simp only [Exec.setArgument_eq, Exec.update_eq_ok]
    refine ⟨Machine.exists_setArgument_iff hclosed, ?_, ?_, Machine.constantArgument_eq_none.symm⟩
    . intro m' hset
      rcases Machine.fills_of_setArgument hclosed hset with ⟨root, hvalue, hfills⟩
      refine ⟨root, hvalue, hfills.rest_eq, ?_, ?_, ?_, hfills.root_eq⟩
      . intro arity' j hj
        exact Machine.constantArgument_eq_some.mpr (hfills.argument_of_eq hclosed hj)
      . intro arity' j hj
        exact hfills.argument_of_ne hclosed hj
      . intro addr haddr
        exact hfills.valueAt_of_ne hclosed haddr
    . intro fault m' hupdate
      match hset : Machine.setArgument arity index name m with
      | .ok m₁ =>
        rw [Exec.update_eq_ok.mpr hset] at hupdate
        contradiction
      | .error fault' =>
        rw [Exec.update_of_error hset] at hupdate
        cases hupdate
        exact ⟨rfl, Machine.fault_of_setArgument hclosed hset⟩
  . intro row hrow
    have hanswers := answers_bindRow hclosed Nat.one_pos (Nat.add_comm 1 row.length) hrow
    rw [Nat.add_sub_cancel] at hanswers
    rcases hanswers with ⟨entries, m', heq⟩ | ⟨agrees, m', heq, hfits, htakes⟩
    . left
      refine ⟨fun hroom => ?_, entries, m', heq⟩
      exact (roomy_bindRow (List.Subset.refl row) row.length 1).unexhausted hroom entries m' heq
    . right
      refine ⟨agrees, m', heq, hfits.trans (fits_iff hclosed hrow), ?_⟩
      intro hagrees
      constructor
      . intro j value hvalue
        exact (htakes hagrees).constantArgument_eq hrow hvalue
      . intro addr hother
        exact (htakes hagrees).valueAt_eq hrow hclosed hother

end FactTable

namespace Sample

/--
The first and the third argument of the call are one variable, whose cell lies above that of the first. The
cell below them refers to it too.
-/
def sharedCall : Machine where
  state := { heap := #[.ref 3, .ref 3, .const 0, .ref 3] }
  symbols := Interner.empty.push "a" rfl

end Sample

theorem FactTable.bind_arguments_sample
    : Sample.sharedCall.state.heap.Closed Sample.sharedCall.symbols ∧
      (∃ m, Exec.setArgument 3 1 "b" Sample.sharedCall = .ok () m ∧
        m.constantArgument 3 3 = .ok (some "b")) ∧
      (∃ m, FactTable.bindRow 3 1 ["b", "a", "b"] Sample.sharedCall = .ok true m ∧
        m.constantArgument 3 2 = .ok (some "a")) ∧
      ∃ m, FactTable.bindRow 3 1 ["b", "a", "c"] Sample.sharedCall = .ok false m := by
  have hclosed : Sample.sharedCall.state.heap.Closed Sample.sharedCall.symbols := by
    refine ⟨by decide, ?_⟩
    intro addr id hconst
    have hzero : ∀ addr < 4, Sample.sharedCall.state.heap[addr]? = some (.const 0) ∨
        Sample.sharedCall.state.heap[addr]? = some (.ref 3) := by decide
    rcases hzero addr (Array.getElem?_eq_some_iff.mp hconst).1 with hcell | hcell
    . rw [hcell] at hconst
      cases hconst
      exact ⟨"a", rfl⟩
    . rw [hcell] at hconst
      cases hconst
  have hroom : ∀ row : List String, row.length = 3 → Sample.sharedCall.HasRoom row := by
    intro row hrow
    apply Interner.room_of_length
    rw [hrow]
    decide
  have hfirst : Sample.sharedCall.argument 3 1 = .ok (.var 3) := rfl
  have hsecond : Sample.sharedCall.argument 3 2 = .ok (.const "a") := rfl
  have hthird : Sample.sharedCall.argument 3 3 = .ok (.var 3) := rfl
  have hothers : ∀ j, Sample.sharedCall.argument 3 (j + 4) = .error (.invalidArgument 3 (j + 4)) := by
    intro j
    unfold Machine.argument Machine.argumentAddress
    rw [if_pos (by omega)]
    rfl
  have hvar : ∀ j root, Sample.sharedCall.argument 3 (j + 1) = .ok (.var root) → j = 0 ∨ j = 2 := by
    intro j root hj
    match j with
    | 0 => exact .inl rfl
    | 1 => simp [hsecond] at hj
    | 2 => exact .inr rfl
    | j + 3 => simp [hothers] at hj
  rcases bind_arguments hclosed with ⟨hset, hbind⟩
  refine ⟨hclosed, ?_, ?_, ?_⟩
  . rcases (hset 3 1 "b").1.mpr ⟨by decide, by decide, by decide, rfl, .inr (by decide)⟩ with ⟨m, hm⟩
    rcases (hset 3 1 "b").2.1 m hm with ⟨root, hroot, _, hshared, _⟩
    rw [hfirst] at hroot
    cases hroot
    exact ⟨m, hm, hshared 3 3 hthird⟩
  . rcases hbind ["b", "a", "b"] (by decide) with ⟨hfull, _⟩ | ⟨agrees, m, heq, hiff, hbound⟩
    . exact absurd (hroom _ rfl) hfull
    . have hagrees : agrees = true := by
        rw [hiff]
        simp only [Machine.constantArgument_eq_some, List.length_cons, List.length_nil]
        constructor
        . intro j name hj
          match j with
          | 0 => simp [hfirst] at hj
          | 1 => simpa [hsecond] using hj
          | 2 => simp [hthird] at hj
          | j + 3 => simp [hothers] at hj
        . intro i j root hi hj
          rcases hvar i root hi with rfl | rfl <;> rcases hvar j root hj with rfl | rfl <;> rfl
      subst hagrees
      exact ⟨m, heq, (hbound rfl).1 1 "a" rfl⟩
  . rcases hbind ["b", "a", "c"] (by decide) with ⟨hfull, _⟩ | ⟨agrees, m, heq, hiff, _⟩
    . exact absurd (hroom _ rfl) hfull
    . cases agrees with
      | false => exact ⟨m, heq⟩
      | true => exact absurd ((hiff.mp rfl).2 0 2 3 hfirst hthird) (by decide)

end HornMachine
