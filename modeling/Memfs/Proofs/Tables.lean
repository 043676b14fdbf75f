import Memfs.Table
import Mathlib.Algebra.BigOperators.Group.Finset.Basic
import Mathlib.Algebra.BigOperators.Fin

/-!
# Tables, seen from outside

What the other files need to know about tables: that numbers are given out in
order and never twice, and what a question about all the objects means for each of
them. A sum over a table is a sum over the numbers given out so far, which is how
counts of objects become counts of a set.
-/

namespace Memfs.Table

variable {α : Type} {t : Table α} {id : Nat} {a : α}

theorem get?_lt (h : t.get? id = some a) : id < t.nextId := by
  unfold get? at h
  unfold nextId
  rcases Nat.lt_or_ge id t.slots.size with hlt | hge
  · exact hlt
  · rw [Array.getElem?_eq_none hge] at h
    cases h

theorem get?_of_nextId_le (h : t.nextId ≤ id) : t.get? id = none := by
  cases hg : t.get? id with
  | none => rfl
  | some a => exact absurd (get?_lt hg) (by omega)

@[simp]
theorem get?_nextId : t.get? t.nextId = none := get?_of_nextId_le (Nat.le_refl _)

@[simp]
theorem get?_empty : ({} : Table α).get? id = none := get?_of_nextId_le (Nat.zero_le id)

theorem has_iff : t.has id = true ↔ ∃ a, t.get? id = some a := by
  unfold has
  exact Option.isSome_iff_exists

theorem has_of_get? (h : t.get? id = some a) : t.has id = true := has_iff.2 ⟨a, h⟩

@[simp]
theorem nextId_push : (t.push a).nextId = t.nextId + 1 := by
  simp [nextId, push]

@[simp]
theorem nextId_erase : (t.erase id).nextId = t.nextId := by
  simp [nextId, erase]

@[simp]
theorem nextId_modify {f : α → α} : (t.modify id f).nextId = t.nextId := by
  simp [nextId, modify]

theorem get?_push_self : (t.push a).get? t.nextId = some a := by
  rw [get?_push, if_pos rfl]

theorem get?_push_of_ne (h : id ≠ t.nextId) : (t.push a).get? id = t.get? id := by
  rw [get?_push, if_neg h]

theorem get?_modify_of_ne {f : α → α} {other : Nat} (h : other ≠ id) :
    (t.modify id f).get? other = t.get? other := by
  rw [get?_modify, if_neg h]

theorem get?_erase_of_ne {other : Nat} (h : other ≠ id) :
    (t.erase id).get? other = t.get? other := by
  rw [get?_erase, if_neg h]

/-- An object that was there is there after another was added. -/
theorem get?_push_of_some {b : α} (h : t.get? id = some b) : (t.push a).get? id = some b := by
  rw [get?_push_of_ne (Nat.ne_of_lt (get?_lt h)), h]

theorem has_push : (t.push a).has id = true ↔ t.has id = true ∨ id = t.nextId := by
  unfold has
  rw [get?_push]
  split
  · next e => simp [e]
  · next hne => simp [hne]

theorem has_erase {other : Nat} :
    (t.erase id).has other = true ↔ other ≠ id ∧ t.has other = true := by
  unfold has
  rw [get?_erase]
  split
  · next e => simp [e]
  · next hne => simp [hne]

/-- What is there after an object was removed was there before. -/
theorem get?_of_erase {other : Nat} {b : α} (h : (t.erase id).get? other = some b) :
    t.get? other = some b := by
  rw [get?_erase] at h
  split at h
  · cases h
  · exact h

/-- What is there after a change was there before, and is changed or as it was. -/
theorem get?_of_modify {f : α → α} {other : Nat} {b : α}
    (h : (t.modify id f).get? other = some b) :
    (other = id ∧ ∃ a, t.get? other = some a ∧ f a = b) ∨ other ≠ id ∧ t.get? other = some b := by
  rw [get?_modify] at h
  split at h
  · next same => exact .inl ⟨same, same ▸ Option.map_eq_some_iff.1 h⟩
  · next other => exact .inr ⟨other, h⟩

/-- What is there after an object was added is that object or was there before. -/
theorem get?_of_push {b : α} (h : (t.push a).get? id = some b) :
    (id = t.nextId ∧ a = b) ∨ id ≠ t.nextId ∧ t.get? id = some b := by
  rw [get?_push] at h
  split at h
  · next new => exact .inl ⟨new, Option.some.inj h⟩
  · next old => exact .inr ⟨old, h⟩

theorem has_modify {other : Nat} {f : α → α} : (t.modify id f).has other = t.has other := by
  unfold has
  rw [get?_modify]
  split
  · next e => rw [e, Option.isSome_map]
  · rfl

/-- The table `u` has come from `t`: no number is given out twice, and what is gone does not
come back. -/
structure Grown (t u : Table α) : Prop where
  next : t.nextId ≤ u.nextId
  there : ∀ id, u.has id = true → t.has id = true ∨ t.nextId ≤ id

namespace Grown

variable {u v : Table α}

theorem refl : t.Grown t := ⟨Nat.le_refl _, fun _ => .inl⟩

theorem trans (h : t.Grown u) (h' : u.Grown v) : t.Grown v where
  next := h.next.trans h'.next
  there id there := (h'.there id there).elim (h.there id) fun newer => .inr (h.next.trans newer)

theorem push : t.Grown (t.push a) where
  next := (Nat.le_succ _).trans_eq nextId_push.symm
  there _ there := (has_push.1 there).imp_right fun same => Nat.le_of_eq same.symm

theorem modify {f : α → α} : t.Grown (t.modify id f) where
  next := Nat.le_of_eq nextId_modify.symm
  there _ there := .inl (has_modify ▸ there)

theorem erase : t.Grown (t.erase id) where
  next := Nat.le_of_eq nextId_erase.symm
  there _ there := .inl (has_erase.1 there).2

end Grown

theorem any_iff {p : α → Bool} :
    t.any p = true ↔ ∃ id a, t.get? id = some a ∧ p a = true := by
  unfold any get?
  rw [Array.any_eq_true]
  constructor
  · rintro ⟨id, hlt, h⟩
    obtain ⟨a, hs, hp⟩ := (Option.any_eq_true _ _).1 h
    exact ⟨id, a, by rw [Array.getElem?_eq_getElem hlt, hs]; rfl, hp⟩
  · rintro ⟨id, a, h, hp⟩
    rw [Option.join_eq_some_iff, Array.getElem?_eq_some_iff] at h
    obtain ⟨hlt, hs⟩ := h
    exact ⟨id, hlt, by rw [hs]; exact hp⟩

theorem sum_eq_sum_toList (f : α → Nat) :
    t.sum f = (t.slots.toList.map fun slot => slot.elim 0 f).sum := by
  unfold sum
  exact List.sum_eq_foldr.symm

theorem sum_push (f : α → Nat) : (t.push a).sum f = t.sum f + f a := by
  rw [sum_eq_sum_toList, sum_eq_sum_toList]
  simp [push]

/-- A sum over the objects, as a sum over the numbers given out. -/
theorem sum_eq_sum_range (f : α → Nat) :
    t.sum f = ∑ id ∈ Finset.range t.nextId, (t.get? id).elim 0 f := by
  rw [sum_eq_sum_toList]
  unfold nextId get?
  rw [Finset.sum_range, ← List.sum_ofFn]
  congr 1
  refine List.ext_getElem (by simp) fun id h₁ h₂ => ?_
  have hlt : id < t.slots.size := by simpa using h₁
  rw [List.getElem_map, List.getElem_ofFn, Array.getElem?_eq_getElem hlt, Array.getElem_toList]
  rfl

/-- The numbers of the objects that are there. -/
def ids (t : Table α) : Finset Nat := (Finset.range t.nextId).filter (t.has · = true)

theorem mem_ids : id ∈ t.ids ↔ t.has id = true := by
  unfold ids
  rw [Finset.mem_filter, Finset.mem_range, and_iff_right_iff_imp]
  intro h
  obtain ⟨a, ha⟩ := has_iff.1 h
  exact get?_lt ha

theorem sum_eq_sum_ids (f : α → Nat) : t.sum f = ∑ id ∈ t.ids, (t.get? id).elim 0 f := by
  rw [sum_eq_sum_range]
  unfold ids
  rw [Finset.sum_filter_of_ne]
  intro id _ hne
  cases ha : t.get? id with
  | none =>
      rw [ha] at hne
      exact absurd rfl hne
  | some a => exact has_of_get? ha

/-- The objects are counted by their numbers. -/
theorem sum_one : t.sum (fun _ => 1) = t.ids.card := by
  rw [sum_eq_sum_ids, Finset.card_eq_sum_ones]
  refine Finset.sum_congr rfl fun id h => ?_
  obtain ⟨a, ha⟩ := has_iff.1 (mem_ids.1 h)
  rw [ha]
  rfl

/-- Changing an object that was just added is adding another one. -/
theorem modify_push {f : α → α} : (t.push a).modify t.nextId f = t.push (f a) := by
  obtain ⟨slots⟩ := t
  unfold modify push nextId
  congr 1
  refine Array.ext (by simp) fun k h₁ h₂ => ?_
  rw [Array.getElem_modify, Array.getElem_push, Array.getElem_push]
  by_cases old : k < slots.size
  · rw [if_neg (Nat.ne_of_gt old), dif_pos old, dif_pos old]
  · have last : slots.size = k := by
      simp only [Array.size_push] at h₂
      omega
    rw [if_pos last, dif_neg old, dif_neg old]
    rfl

/-- Of an object that was added and removed only the number is left. -/
theorem erase_push (b : α) : (t.push a).erase t.nextId = (t.push b).erase t.nextId := by
  obtain ⟨slots⟩ := t
  unfold erase push nextId
  congr 1
  refine Array.ext (by simp) fun k h₁ h₂ => ?_
  have size : k < slots.size + 1 := by simpa using h₁
  rw [Array.getElem_setIfInBounds (by rwa [Array.size_push]),
    Array.getElem_setIfInBounds (by rwa [Array.size_push])]
  by_cases last : slots.size = k
  · rw [if_pos last, if_pos last]
  · have old : k < slots.size := by omega
    rw [if_neg last, if_neg last, Array.getElem_push_lt old, Array.getElem_push_lt old]

theorem modify_of_absent {f : α → α} (h : t.get? id = none) : t.modify id f = t := by
  obtain ⟨slots⟩ := t
  simp only [get?, Option.join_eq_none_iff] at h
  unfold modify
  congr 1
  refine Array.ext (by simp) fun k h₁ h₂ => ?_
  rw [Array.getElem_modify]
  split
  · next e =>
      subst e
      rw [Array.getElem?_eq_getElem h₂] at h
      simp only [reduceCtorEq, Option.some.injEq, false_or] at h
      rw [h]
      rfl
  · rfl

theorem sum_modify_of_eq {f : α → Nat} {g : α → α} (h : ∀ a, t.get? id = some a → f (g a) = f a) :
    (t.modify id g).sum f = t.sum f := by
  cases ha : t.get? id with
  | none => rw [modify_of_absent ha]
  | some a =>
      have := t.sum_modify f g ha
      rw [h a ha] at this
      omega

end Memfs.Table
