import HornMachine.Interner.Basic
import Mathlib.Algebra.Group.Nat.Defs
import Mathlib.Data.Finset.Card

/-!
This module contains how interners grow. A table only gains entries, and one that has room for a set of
names never refuses any of them.
-/

namespace HornMachine

namespace Interner

variable {width : Nat}

/--
The later of two tables has all entries of the earlier one.
-/
instance : LE (Interner width) where
  le a b := ∀ (id : Nat) (name : String), a.get? id = some name → b.get? id = some name

theorem le_refl (table : Interner width) : table ≤ table := by
  intro id name h
  exact h

theorem le_trans {a b c : Interner width} (hab : a ≤ b) (hbc : b ≤ c) : a ≤ c := by
  intro id name h
  apply hbc
  apply hab
  exact h

theorem le_push (table : Interner width) (s : String) (h : table.lookup? s = none)
    : table ≤ table.push s h := by
  intro id name hid
  rcases table with ⟨values, ids, hids⟩
  simp only [get?, push] at hid ⊢
  rw [Array.getElem?_push_lt]
  . rw [← hid]
    exact (Array.getElem?_eq_getElem _).symm
  . exact (Array.getElem?_eq_some_iff.mp hid).1

theorem get?_push_size (table : Interner width) (s : String) (h : table.lookup? s = none)
    : (table.push s h).get? table.size = some s := by
  rcases table with ⟨values, ids, hids⟩
  simp [get?, push, size]

theorem size_push (table : Interner width) (s : String) (h : table.lookup? s = none)
    : (table.push s h).size = table.size + 1 := by
  rcases table with ⟨values, ids, hids⟩
  simp [size, push]

section Add

variable {table : Interner width} {s : String}

theorem add_old {id : Nat} (h : table.lookup? s = some id) : add s table = .ok id table := by
  unfold add
  split
  . next id' h' =>
    rw [h, Option.some.injEq] at h'
    rw [h']
  . next hnew =>
    rw [h] at hnew
    contradiction

theorem add_new (h : table.lookup? s = none) (hlt : table.size < 2 ^ width)
    : add s table = .ok table.size (table.push s h) := by
  unfold add
  split
  . next id' h' =>
    rw [h] at h'
    contradiction
  . exact if_pos hlt

theorem add_full (h : table.lookup? s = none) (hfull : 2 ^ width ≤ table.size)
    : add s table = .error (.poolExhausted table.size) table := by
  unfold add
  split
  . next id' h' =>
    rw [h] at h'
    contradiction
  . exact if_neg (Nat.not_lt.mpr hfull)

end Add

theorem intern_cases (table : Interner width) (s : String)
    : (∃ id, table.lookup? s = some id ∧ table.intern s = .ok (id, table)) ∨
      (∃ h : table.lookup? s = none, table.size < 2 ^ width ∧
        table.intern s = .ok (table.size, table.push s h)) ∨
      (table.lookup? s = none ∧ 2 ^ width ≤ table.size ∧
        table.intern s = .error (.poolExhausted table.size)) := by
  unfold intern
  rcases Option.eq_none_or_eq_some (table.lookup? s) with h | ⟨id, h⟩
  . by_cases hlt : table.size < 2 ^ width
    . rw [add_new h hlt]
      exact .inr (.inl ⟨h, hlt, rfl⟩)
    . rw [add_full h (Nat.le_of_not_lt hlt)]
      exact .inr (.inr ⟨h, Nat.le_of_not_lt hlt, rfl⟩)
  . rw [add_old h]
    exact .inl ⟨id, h, rfl⟩

theorem intern_le {table table' : Interner width} {s : String} {id : Nat}
    (h : table.intern s = .ok (id, table')) : table ≤ table' := by
  rcases intern_cases table s with ⟨_, _, heq⟩ | ⟨hnew, _, heq⟩ | ⟨_, _, heq⟩
  . rw [heq] at h
    cases h
    apply le_refl
  . rw [heq] at h
    cases h
    apply le_push
  . rw [heq] at h
    contradiction

theorem get?_intern {table table' : Interner width} {s : String} {id : Nat}
    (h : table.intern s = .ok (id, table')) : table'.get? id = some s := by
  rcases intern_cases table s with ⟨_, hid, heq⟩ | ⟨hnew, _, heq⟩ | ⟨_, _, heq⟩
  . rw [heq] at h
    cases h
    exact lookup?_eq_some.mp hid
  . rw [heq] at h
    cases h
    apply get?_push_size
  . rw [heq] at h
    contradiction

theorem intern_eq_error {table : Interner width} {s : String} {fault : Fault}
    (h : table.intern s = .error fault) : fault = .poolExhausted table.size := by
  rcases intern_cases table s with ⟨_, _, heq⟩ | ⟨_, _, heq⟩ | ⟨_, _, heq⟩
  all_goals
    rw [heq] at h
    cases h
  rfl

def Admits (table : Interner width) (s : String) : Prop :=
  table.lookup? s ≠ none ∨ table.size < 2 ^ width

theorem admits_iff {table : Interner width} {s : String}
    : table.Admits s ↔ ∃ id table', table.intern s = .ok (id, table') := by
  unfold Admits
  rcases intern_cases table s with ⟨id, hid, heq⟩ | ⟨hnew, hlt, heq⟩ | ⟨hnew, hfull, heq⟩
  . simp [hid, heq]
  . simp [hlt, heq]
  . simp [hnew, heq, Nat.not_lt.mpr hfull]

def missing (table : Interner width) (names : List String) : Finset String :=
  names.toFinset.filter fun name => table.lookup? name = none

def Room (table : Interner width) (names : List String) : Prop :=
  table.size + (table.missing names).card ≤ 2 ^ width

theorem room_of_length {table : Interner width} {names : List String}
    (h : table.size + names.length ≤ 2 ^ width) : table.Room names := by
  have hfilter := Finset.card_filter_le names.toFinset fun name => table.lookup? name = none
  have hlength := names.toFinset_card_le
  rw [Room, missing]
  omega

theorem lookup?_push {table : Interner width} {s t : String} {h : table.lookup? s = none}
    (ht : (table.push s h).lookup? t = none) : t ≠ s ∧ table.lookup? t = none := by
  constructor
  . intro hts
    rw [hts, lookup?_eq_some.mpr (get?_push_size table s h)] at ht
    contradiction
  . match hlook : table.lookup? t with
    | none => rfl
    | some id =>
      rw [lookup?_eq_some.mpr (le_push table s h id t (lookup?_eq_some.mp hlook))] at ht
      contradiction

theorem Room.push {table : Interner width} {names : List String} (hroom : table.Room names)
    {s : String} (hs : s ∈ names) (h : table.lookup? s = none) : (table.push s h).Room names := by
  unfold Room at hroom ⊢
  have hmem : s ∈ table.missing names := by
    simp [missing, hs, h]
  have hlt : ((table.push s h).missing names).card < (table.missing names).card := by
    apply Finset.card_lt_card
    rw [Finset.ssubset_iff_of_subset]
    . refine ⟨s, hmem, ?_⟩
      simp only [missing, Finset.mem_filter, not_and]
      intro _ hnone
      exact (lookup?_push hnone).1 rfl
    . intro t ht
      simp only [missing, Finset.mem_filter] at ht ⊢
      exact ⟨ht.1, (lookup?_push ht.2).2⟩
  rw [size_push]
  omega

theorem Room.intern {table : Interner width} {names : List String} (hroom : table.Room names)
    {s : String} (hs : s ∈ names)
    : ∃ id table', table.intern s = .ok (id, table') ∧ table'.Room names := by
  rcases intern_cases table s with ⟨id, _, heq⟩ | ⟨hnew, _, heq⟩ | ⟨hnew, hfull, heq⟩
  . exact ⟨id, table, heq, hroom⟩
  . exact ⟨_, _, heq, hroom.push hs hnew⟩
  . have hmem : s ∈ table.missing names := by
      simp [missing, hs, hnew]
    have := Finset.card_pos.mpr ⟨s, hmem⟩
    unfold Room at hroom
    omega

end Interner

end HornMachine
