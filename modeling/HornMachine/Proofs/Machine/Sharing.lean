import HornMachine.Machine.Group

/-!
This module contains groups whose members all have handles to one symbol table. Whatever one of them
interns, the others see.
-/

namespace HornMachine

namespace Group

structure Shares (group : Group) (i : Nat) : Prop where
  lt : i < group.store.tables.size
  handle : ∀ member ∈ group.members, group.store.handles[member.handle]? = some i

def shared (group : Group) (i : Nat) : SymbolTable :=
  group.store.tables[i]?.getD .empty

theorem shares_sharing (count : Nat) : (sharing count).Shares 0 := by
  constructor
  . exact Nat.one_pos
  . intro member hmember
    rw [(Array.mem_replicate.mp hmember).2]
    rfl

variable {group : Group} {i k : Nat} {m : Machine}

theorem machine_eq (h : k < group.members.size)
    : group.machine k = ⟨group.members[k].state, group.store.table group.members[k].handle,
        group.members[k].features⟩ := by
  unfold machine
  rw [Array.getElem?_eq_getElem h]

theorem setMachine_eq (h : k < group.members.size)
    : group.setMachine k m =
      { store := group.store.setTable group.members[k].handle m.symbols
        members := group.members.setIfInBounds k
          { group.members[k] with state := m.state, features := m.features } } := by
  unfold setMachine
  rw [Array.getElem?_eq_getElem h]

theorem state_machine_setMachine (h : k < group.members.size)
    : ((group.setMachine k m).machine k).state = m.state := by
  have h' : k < (group.setMachine k m).members.size := by
    simpa [setMachine_eq h] using h
  rw [machine_eq h']
  simp [setMachine_eq h]

theorem size_setMachine : (group.setMachine k m).members.size = group.members.size := by
  by_cases h : k < group.members.size
  . simp [setMachine_eq h]
  . unfold setMachine
    rw [Array.getElem?_eq_none (by omega)]

section Shares

variable (hshares : group.Shares i) (h : k < group.members.size)
include hshares h

theorem Shares.setTable_eq (table : SymbolTable)
    : group.store.setTable group.members[k].handle table =
      { group.store with tables := group.store.tables.setIfInBounds i table } := by
  unfold SymbolStore.setTable
  rw [hshares.handle _ (Array.getElem_mem h)]

theorem Shares.symbols_machine : (group.machine k).symbols = group.shared i := by
  rw [machine_eq h]
  show group.store.table _ = _
  unfold SymbolStore.table
  rw [hshares.handle _ (Array.getElem_mem h)]
  rfl

theorem Shares.shared_setMachine : (group.setMachine k m).shared i = m.symbols := by
  rw [setMachine_eq h, hshares.setTable_eq h]
  simp [shared, hshares.lt]

theorem Shares.setMachine : (group.setMachine k m).Shares i := by
  rw [setMachine_eq h, hshares.setTable_eq h]
  constructor
  . simpa using hshares.lt
  . intro member hmember
    rcases Array.mem_or_eq_of_mem_setIfInBounds hmember with hmember | rfl
    . exact hshares.handle member hmember
    . exact hshares.handle group.members[k] (Array.getElem_mem h)

end Shares

end Group

end HornMachine
