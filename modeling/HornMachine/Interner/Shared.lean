import HornMachine.Interner.Basic

/-!
This module contains symbol tables behind handles. Several handles may lead to the same table, and
what one of them adds is then seen through all of them.
-/

namespace HornMachine

/--
Some symbol tables and, for each handle, the number of the table that it leads to.
-/
structure SymbolStore where
  tables : Array SymbolTable := #[.empty]
  handles : Array Nat := #[0]
deriving DecidableEq

namespace SymbolStore

/--
The table that a handle leads to. An unknown handle sees an empty table.
-/
def table (store : SymbolStore) (handle : Nat) : SymbolTable :=
  match store.handles[handle]? with
  | some i => store.tables[i]?.getD .empty
  | none => .empty

def setTable (store : SymbolStore) (handle : Nat) (table : SymbolTable) : SymbolStore :=
  match store.handles[handle]? with
  | some i => { store with tables := store.tables.setIfInBounds i table }
  | none => store

def share (store : SymbolStore) (handle : Nat) : SymbolStore :=
  match store.handles[handle]? with
  | some i => { store with handles := store.handles.push i }
  | none => store

def fresh (store : SymbolStore) : SymbolStore where
  tables := store.tables.push .empty
  handles := store.handles.push store.tables.size

def intern (store : SymbolStore) (handle : Nat) (s : String) : Except Fault (Nat × SymbolStore) := do
  let (id, table) ← (store.table handle).intern s
  return (id, store.setTable handle table)

end SymbolStore

end HornMachine
