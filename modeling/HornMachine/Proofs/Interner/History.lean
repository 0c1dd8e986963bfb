import HornMachine.Proofs.Interner.Growth
import Mathlib.Data.List.Basic
import Mathlib.Data.List.Infix

/-!
This module contains what interners have after a history of additions. The distinct texts have the ids from 0 on
in the order in which they first came, and those for which no id was left are refused each time they come.
-/

namespace HornMachine

namespace Interner

variable {width : Nat}

def added (s : String) (table : Interner width) : Except Fault Nat × Interner width :=
  match add s table with
  | .ok id table => (.ok id, table)
  | .error fault table => (.error fault, table)

def addEach : List String → Interner width → List (Except Fault Nat) × Interner width
  | [], table => ([], table)
  | s :: texts, table =>
    let (answer, table) := added s table
    let (answers, table) := addEach texts table
    (answer :: answers, table)

/--
The distinct texts of a history that there are ids for, in the order in which they first came.
-/
def kept (width : Nat) (texts : List String) : List String :=
  texts.eraseDups.take (2 ^ width)

/--
The id of a text is the number of distinct texts that came before it, if that has no more than `width` bits.
-/
def idAmong (width : Nat) (texts : List String) (s : String) : Except Fault Nat :=
  let id := texts.eraseDups.idxOf s
  if id < 2 ^ width then .ok id else .error (.poolExhausted (2 ^ width))

def Holds (table : Interner width) (texts : List String) : Prop :=
  table.values.toList = kept width texts

/--
The table that a history leads to: its texts and its ids belong to each other one to one, and another addition
changes it only by a new text that there is an id for.
-/
structure Records (table : Interner width) (texts : List String) : Prop where
  get?_eq : ∀ id, table.get? id = (kept width texts)[id]?
  lookup?_iff : ∀ s id, table.lookup? s = some id ↔ table.get? id = some s
  lookup?_ne_none : ∀ s, table.lookup? s ≠ none ↔ s ∈ kept width texts
  size_eq : table.size = (kept width texts).length
  ids : ∀ id, id < table.size ↔ ∃ s, table.lookup? s = some id
  same : ∀ s s' id id', table.lookup? s = some id → table.lookup? s' = some id' → (id = id' ↔ s = s')
  add_old : ∀ s id, table.lookup? s = some id → add s table = .ok id table
  add_new : ∀ s, table.lookup? s = none → table.size < 2 ^ width →
    ∃ table', add s table = .ok table.size table' ∧ table'.values = table.values.push s
  add_full : ∀ s, table.lookup? s = none → 2 ^ width ≤ table.size →
    add s table = .error (.poolExhausted table.size) table

section History

variable {table : Interner width} {texts : List String} {s : String} {id : Nat}

theorem eraseDups_concat (texts : List String) (s : String)
    : (texts ++ [s]).eraseDups = if s ∈ texts then texts.eraseDups else texts.eraseDups ++ [s] := by
  have hone : [s].eraseDups = [s] := by simp [List.eraseDups_cons]
  rw [List.eraseDups_append]
  split
  . next hs => simp [List.removeAll, hs]
  . next hs => simp [List.removeAll, hs, hone]

theorem mem_of_mem_kept (hs : s ∈ kept width texts) : s ∈ texts :=
  List.mem_eraseDups.mp (List.mem_of_mem_take hs)

theorem idAmong_of_mem (hs : s ∈ kept width texts)
    : idAmong width texts s = .ok ((kept width texts).idxOf s) := by
  have hlt := (List.mem_take_iff_idxOf_lt (List.mem_of_mem_take hs)).mp hs
  have hidx : (kept width texts).idxOf s = texts.eraseDups.idxOf s :=
    (List.take_prefix _ _).idxOf_eq_of_mem hs
  unfold idAmong
  rw [if_pos hlt, hidx]

theorem idAmong_of_notMem (hs : s ∈ texts) (hkept : s ∉ kept width texts)
    : idAmong width texts s = .error (.poolExhausted (2 ^ width)) := by
  have hge := mt (List.mem_take_iff_idxOf_lt (List.mem_eraseDups.mpr hs)).mpr hkept
  unfold idAmong
  rw [if_neg hge]

theorem idAmong_append (hs : s ∈ texts) (more : List String)
    : idAmong width (texts ++ more) s = idAmong width texts s := by
  unfold idAmong
  rw [List.eraseDups_append, List.idxOf_append_of_mem (List.mem_eraseDups.mpr hs)]

theorem kept_prefix_append (texts more : List String) : kept width texts <+: kept width (texts ++ more) := by
  unfold kept
  rw [List.eraseDups_append]
  exact (List.prefix_append _ _).take _

theorem lookup?_eq_none : table.lookup? s = none ↔ s ∉ table.values.toList := by
  rw [Option.eq_none_iff_forall_ne_some, List.mem_iff_getElem?, not_exists]
  apply forall_congr'
  intro id
  rw [Ne, lookup?_eq_some, get?, Array.getElem?_toList]

theorem lookup?_of_mem (hs : s ∈ table.values.toList)
    : table.lookup? s = some (table.values.toList.idxOf s) := by
  rw [lookup?_eq_some, get?, ← Array.getElem?_toList]
  exact List.getElem?_idxOf hs

theorem values_push (h : table.lookup? s = none) : (table.push s h).values = table.values.push s := by
  rcases table with ⟨values, ids, hids⟩
  rfl

theorem holds_nil : (empty : Interner width).Holds [] := by
  simp [Holds, kept, empty]

namespace Holds

theorem size_eq (h : table.Holds texts) : table.size = (kept width texts).length := by
  rw [← h, Array.length_toList]
  rfl

theorem lookup?_eq_none_iff (h : table.Holds texts) : table.lookup? s = none ↔ s ∉ kept width texts := by
  rw [← h, lookup?_eq_none]

theorem mem_kept (h : table.Holds texts) (hid : table.lookup? s = some id) : s ∈ kept width texts := by
  by_contra hs
  rw [h.lookup?_eq_none_iff.mpr hs] at hid
  contradiction

theorem idAmong_eq (h : table.Holds texts) (hid : table.lookup? s = some id)
    : idAmong width texts s = .ok id := by
  have hs := h.mem_kept hid
  rw [lookup?_of_mem (h ▸ hs), h, Option.some.injEq] at hid
  rw [idAmong_of_mem hs, hid]

theorem concat_old (h : table.Holds texts) (hid : table.lookup? s = some id)
    : table.Holds (texts ++ [s]) := by
  rw [Holds, kept, eraseDups_concat, if_pos (mem_of_mem_kept (h.mem_kept hid))]
  exact h

theorem concat_new (h : table.Holds texts) (hnew : table.lookup? s = none) (hlt : table.size < 2 ^ width)
    : (table.push s hnew).Holds (texts ++ [s]) := by
  -- while there are ids left, no text was refused
  have hlength : texts.eraseDups.length < 2 ^ width := by
    rw [h.size_eq, kept, List.length_take] at hlt
    omega
  have hkept : kept width texts = texts.eraseDups := List.take_of_length_le (Nat.le_of_lt hlength)
  have hs : s ∉ texts := by
    rw [← List.mem_eraseDups, ← hkept]
    exact h.lookup?_eq_none_iff.mp hnew
  rw [Holds, values_push, Array.toList_push, h, hkept, kept, eraseDups_concat, if_neg hs,
    List.take_of_length_le]
  rwa [List.length_append, List.length_singleton]

theorem concat_full (h : table.Holds texts) (hfull : 2 ^ width ≤ table.size) (s : String)
    : table.Holds (texts ++ [s]) := by
  rw [Holds, h]
  apply (kept_prefix_append texts [s]).eq_of_length_le
  rw [← h.size_eq]
  exact (List.length_take_le _ _).trans hfull

theorem added (h : table.Holds texts) (s : String)
    : (Interner.added s table).1 = idAmong width (texts ++ [s]) s ∧
      (Interner.added s table).2.Holds (texts ++ [s]) := by
  unfold Interner.added
  match hlook : table.lookup? s with
  | some id =>
    have hholds := h.concat_old hlook
    rw [add_old hlook]
    exact ⟨(hholds.idAmong_eq hlook).symm, hholds⟩
  | none =>
    by_cases hlt : table.size < 2 ^ width
    . have hholds := h.concat_new hlook hlt
      rw [add_new hlook hlt]
      exact ⟨(hholds.idAmong_eq (lookup?_eq_some.mpr (get?_push_size table s hlook))).symm, hholds⟩
    . have hfull := Nat.le_of_not_lt hlt
      have hholds := h.concat_full hfull s
      have hsize : table.size = 2 ^ width := by
        apply Nat.le_antisymm _ hfull
        rw [h.size_eq]
        exact List.length_take_le _ _
      rw [add_full hlook hfull, hsize, idAmong_of_notMem (by simp) (hholds.lookup?_eq_none_iff.mp hlook)]
      exact ⟨rfl, hholds⟩

theorem addEach (h : table.Holds texts) (more : List String)
    : (Interner.addEach more table).1 = more.map (idAmong width (texts ++ more)) ∧
      (Interner.addEach more table).2.Holds (texts ++ more) := by
  induction more generalizing table texts with
  | nil => simpa [Interner.addEach] using h
  | cons s more ih =>
    rcases h.added s with ⟨hanswer, hholds⟩
    rcases ih hholds with ⟨hanswers, hholds'⟩
    rw [List.append_assoc, List.singleton_append] at hanswers hholds'
    refine ⟨?_, hholds'⟩
    show (Interner.added s table).1 :: (Interner.addEach more (Interner.added s table).2).1 = _
    rw [hanswers, hanswer, List.map_cons, ← idAmong_append (by simp) more, List.append_assoc,
      List.singleton_append]

theorem mono {table' : Interner width} {more : List String} (h : table.Holds texts)
    (h' : table'.Holds (texts ++ more)) : table ≤ table' := by
  intro id name hid
  rw [get?, ← Array.getElem?_toList] at hid ⊢
  rw [h] at hid
  rw [h']
  have hprefix : kept width texts <+: kept width (texts ++ more) := kept_prefix_append texts more
  rcases hprefix with ⟨rest, hrest⟩
  rw [← hrest, List.getElem?_append_left (List.getElem?_eq_some_iff.mp hid).1, hid]

theorem records (h : table.Holds texts) : table.Records texts where
  get?_eq id := by rw [get?, ← Array.getElem?_toList, h]
  lookup?_iff s id := lookup?_eq_some
  lookup?_ne_none s := by rw [Ne, h.lookup?_eq_none_iff, not_not]
  size_eq := h.size_eq
  ids id := by
    simp only [lookup?_eq_some, get?, size, ← Array.getElem?_toList, ← Array.length_toList]
    constructor
    . intro hlt
      exact ⟨_, List.getElem?_eq_getElem hlt⟩
    . rintro ⟨s, hs⟩
      exact (List.getElem?_eq_some_iff.mp hs).1
  same s s' id id' hid hid' := by
    constructor
    . rintro rfl
      rw [lookup?_eq_some] at hid hid'
      simpa [hid] using hid'
    . rintro rfl
      simpa [hid] using hid'
  add_old s id hid := add_old hid
  add_new s hnew hlt := ⟨_, add_new hnew hlt, values_push hnew⟩
  add_full s hnew hfull := add_full hnew hfull

end Holds

end History

end Interner

end HornMachine
