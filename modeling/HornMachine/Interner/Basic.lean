import HornMachine.Fault
import Std.Data.ExtTreeMap

/-!
This module contains interners: tables that give every text a number, counting up from 0 in the order
in which the texts first come. The two directions of the table are inverse to each other.
-/

namespace HornMachine

structure Interner (width : Nat) where
  values : Array String := #[]
  ids : Std.ExtTreeMap String Nat := ∅
  ids_eq_some : ∀ (s : String) (i : Nat), ids[s]? = some i ↔ values[i]? = some s := by simp

namespace Interner

variable {width : Nat}

def empty : Interner width := {}

instance : Inhabited (Interner width) := ⟨empty⟩

def size (table : Interner width) : Nat :=
  table.values.size

def lookup? (table : Interner width) (s : String) : Option Nat :=
  table.ids[s]?

theorem lookup?_empty (s : String) : (empty : Interner width).lookup? s = none := by
  simp [lookup?, empty]

def get? (table : Interner width) (id : Nat) : Option String :=
  table.values[id]?

theorem lookup?_eq_some {table : Interner width} {s : String} {id : Nat}
    : table.lookup? s = some id ↔ table.get? id = some s :=
  table.ids_eq_some s id

theorem ids_eq_some_push {values : Array String} {ids : Std.ExtTreeMap String Nat} {s : String}
    (hids : ∀ (t : String) (i : Nat), ids[t]? = some i ↔ values[i]? = some t) (h : ids[s]? = none)
    (t : String) (i : Nat)
    : (ids.insert s values.size)[t]? = some i ↔ (values.push s)[i]? = some t := by
  have hsize : i = values.size → values[i]? = none := fun hi => by simp [hi]
  have hfresh : values[i]? ≠ some s := by
    rw [Ne, ← hids, h]
    simp
  have hti := hids t i
  rw [Std.ExtTreeMap.getElem?_insert, Array.getElem?_push]
  by_cases hi : i = values.size <;> by_cases hst : s = t
  . simp [hi, hst]
  . rw [hsize hi] at hti
    simpa [hst, hi] using hti
  . subst hst
    simp [Ne.symm hi, hfresh, hi]
  . simp [hst, hti, hi]

def push (table : Interner width) (s : String) (h : table.lookup? s = none) : Interner width :=
  match table, h with
  | ⟨values, ids, hids⟩, h =>
    let id := values.size
    ⟨values.push s, ids.insert s id, ids_eq_some_push hids h⟩

def single (s : String) : Interner width :=
  push empty s (lookup?_empty s)

/--
Puts a text into the table if it is new, and answers its id. A new text is refused where its id would
have more than `width` bits.
-/
def add (s : String) : EStateM Fault (Interner width) Nat := fun table =>
  match h : table.lookup? s with
  | some id => .ok id table
  | none =>
    if table.size < Nat.pow 2 width then
      .ok table.size (table.push s h)
    else
      .error (.poolExhausted table.size) table

def addAll (texts : List String) : EStateM Fault (Interner width) (Option Nat) :=
  texts.foldlM (fun _ s => some <$> add s) none

def intern (table : Interner width) (s : String) : Except Fault (Nat × Interner width) :=
  match add s table with
  | .ok id table => .ok (id, table)
  | .error fault _ => .error fault

@[ext]
theorem ext {a b : Interner width} (h : a.values = b.values) : a = b := by
  obtain ⟨values, ids, hids⟩ := a
  obtain ⟨values', ids', hids'⟩ := b
  obtain rfl : values = values' := h
  suffices ids = ids' by subst this; rfl
  apply Std.ExtTreeMap.ext_getElem?
  intro s
  ext i
  rw [hids, hids']

instance : DecidableEq (Interner width) := fun _ _ =>
  decidable_of_decidable_of_iff Interner.ext_iff.symm

end Interner

abbrev SymbolTable := Interner 32

end HornMachine
