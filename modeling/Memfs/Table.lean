/-!
# Tables

The filesystem keeps its objects in tables and refers to them by their numbers.
A number is given to one object only: when the object is gone the number names
nothing, for ever. So a reference that outlived its object is noticed instead of
meeting another object in its place.

`get?` is the view through which the operations are described; each of them has
its equation below.
-/

namespace Memfs

/-- Objects by number. A slot is empty once its object is gone. -/
structure Table (α : Type) where
  slots : Array (Option α) := #[]

namespace Table

variable {α : Type}

/-- The object with this number, if it is still there. -/
def get? (t : Table α) (id : Nat) : Option α := (t.slots[id]?).join

/-- Is there still an object with this number? -/
def has (t : Table α) (id : Nat) : Bool := (t.get? id).isSome

/-- The number that the next object gets. -/
def nextId (t : Table α) : Nat := t.slots.size

/-- Adds an object under the next number. -/
def push (t : Table α) (a : α) : Table α := ⟨t.slots.push (some a)⟩

/-- Removes the object with this number. -/
def erase (t : Table α) (id : Nat) : Table α := ⟨t.slots.setIfInBounds id none⟩

/-- Changes the object with this number, if it is there. -/
def modify (t : Table α) (id : Nat) (f : α → α) : Table α :=
  ⟨t.slots.modify id (·.map f)⟩

/-- Does some object have the property? -/
def any (t : Table α) (p : α → Bool) : Bool := t.slots.any (·.any p)

/-- The sum of `f` over the objects. -/
def sum (t : Table α) (f : α → Nat) : Nat :=
  (t.slots.toList.map fun slot => slot.elim 0 f).foldr (· + ·) 0

theorem get?_push (t : Table α) (a : α) (id : Nat) :
    (t.push a).get? id = if id = t.nextId then some a else t.get? id := by
  simp only [get?, push, nextId, Array.getElem?_push]
  split <;> simp_all

theorem get?_erase (t : Table α) (id other : Nat) :
    (t.erase id).get? other = if other = id then none else t.get? other := by
  simp only [get?, erase, Array.getElem?_setIfInBounds]
  by_cases h : id = other
  · subst h
    by_cases hb : id < t.slots.size <;> simp [hb]
  · simp [h, Ne.symm h]

theorem get?_modify (t : Table α) (id other : Nat) (f : α → α) :
    (t.modify id f).get? other = if other = id then (t.get? id).map f else t.get? other := by
  simp only [get?, modify, Array.getElem?_modify]
  by_cases h : id = other
  · subst h
    cases t.slots[id]? <;> simp
  · simp [h, Ne.symm h]

/-- Removing an object takes its share off a sum. -/
theorem sum_erase (t : Table α) (f : α → Nat) {id : Nat} {a : α} (h : t.get? id = some a) :
    (t.erase id).sum f + f a = t.sum f := by
  have slot : t.slots[id]? = some (some a) := by
    simpa [get?, Option.join_eq_some_iff] using h
  have general : ∀ (slots : List (Option α)) (k : Nat), slots[k]? = some (some a) →
      ((slots.set k none).map fun s => s.elim 0 f).foldr (· + ·) 0 + f a
        = (slots.map fun s => s.elim 0 f).foldr (· + ·) 0 := by
    intro slots
    induction slots with
    | nil => intro k hk; simp at hk
    | cons s rest ih =>
      intro k hk
      cases k with
      | zero =>
        simp only [List.getElem?_cons_zero, Option.some.injEq] at hk
        subst hk
        simp only [List.set_cons_zero, List.map_cons, List.foldr_cons, Option.elim]
        omega
      | succ k =>
        simp only [List.getElem?_cons_succ] at hk
        have := ih k hk
        simp only [List.set_cons_succ, List.map_cons, List.foldr_cons]
        omega
  have := general t.slots.toList id (by simpa using slot)
  simpa [sum, erase] using this

/-- Changing an object changes a sum by the difference of its shares. -/
theorem sum_modify (t : Table α) (f : α → Nat) (g : α → α) {id : Nat} {a : α}
    (h : t.get? id = some a) : (t.modify id g).sum f + f a = t.sum f + f (g a) := by
  have slot : t.slots[id]? = some (some a) := by
    simpa [get?, Option.join_eq_some_iff] using h
  have general : ∀ (slots : List (Option α)) (k : Nat), slots[k]? = some (some a) →
      ((slots.modify k (·.map g)).map fun s => s.elim 0 f).foldr (· + ·) 0 + f a
        = (slots.map fun s => s.elim 0 f).foldr (· + ·) 0 + f (g a) := by
    intro slots
    induction slots with
    | nil => intro k hk; simp at hk
    | cons s rest ih =>
      intro k hk
      cases k with
      | zero =>
        simp only [List.getElem?_cons_zero, Option.some.injEq] at hk
        subst hk
        simp only [List.modify_zero_cons, List.map_cons, List.foldr_cons, Option.map, Option.elim]
        omega
      | succ k =>
        simp only [List.getElem?_cons_succ] at hk
        have := ih k hk
        simp only [List.modify_succ_cons, List.map_cons, List.foldr_cons]
        omega
  have := general t.slots.toList id (by simpa using slot)
  simpa [sum, modify] using this

end Table

end Memfs
