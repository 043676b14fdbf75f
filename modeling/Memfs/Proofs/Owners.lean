import Memfs.Proofs.Tables
import Memfs.World.Settle
import Std.Data.TreeMap.Lemmas

/-!
# Who owns what

An object lasts as long as somebody owns it. The program asks that question of all
its tables at once; here the answer is split by who the owner is. A change of the
world mostly changes one owner, so each change says what that one gained and lost
and leaves the others alone.

`Tended` is the invariant: what is owned is there, and what is there is owned or
about to be let go of. With nothing left to do it says that existence and ownership
are the same thing, and this is why nothing leaks and nothing dangles.
-/

namespace Memfs

/-- Those who may own an object. -/
inductive Holder where
  | caller
  | binding (b : BindingId)
  | file (f : FileId)
  | inst (i : InstanceId)
  | context (c : ContextId)
  deriving DecidableEq

def Binding.Owns (x : Binding) : Ref → Prop
  | .node n => x.node = some n
  | .binding c => ∃ name : String, x.children[name]? = some c
  | .inst _ => False

def OpenFile.Owns (x : OpenFile) : Ref → Prop
  | .node n => x.node = some n
  | .binding b => x.binding = b
  | .inst _ => False

def Instance.Owns (x : Instance) : Ref → Prop
  | .node _ => False
  | .binding b => x.root = some b
  | .inst _ => False

def Context.Owns (x : Context) : Ref → Prop
  | .node _ => False
  | .binding b => x.root = some b
  | .inst i => x.made = some i

namespace World

variable {w w' : World} {ref : Ref}

/-- Is the object that `ref` names still there? -/
def Has (w : World) : Ref → Prop
  | .node n => w.nodes.has n = true
  | .binding b => w.bindings.has b = true
  | .inst i => w.instances.has i = true

/-- Does the holder own what `ref` names? -/
def Owner (w : World) (ref : Ref) : Holder → Prop
  | .caller => ref ∈ w.held
  | .binding b => ∃ x, w.bindings.get? b = some x ∧ x.Owns ref
  | .file f => ∃ x, w.files.get? f = some x ∧ x.Owns ref
  | .inst i => ∃ x, w.instances.get? i = some x ∧ x.Owns ref
  | .context c => ∃ x, w.contexts.get? c = some x ∧ x.Owns ref

/-- Does anybody own what `ref` names? -/
def Owned (w : World) (ref : Ref) : Prop := ∃ holder, w.Owner ref holder

theorem owned_of_held (h : ref ∈ w.held) : w.Owned ref := ⟨.caller, h⟩

end World

theorem Binding.mem_below {x : Binding} {c : BindingId} :
    c ∈ x.below ↔ ∃ name : String, x.children[name]? = some c := by
  unfold Binding.below
  rw [List.mem_map]
  constructor
  · rintro ⟨⟨name, b⟩, h, rfl⟩
    exact ⟨name, Std.TreeMap.mem_toList_iff_getElem?_eq_some.1 h⟩
  · rintro ⟨name, h⟩
    exact ⟨(name, c), Std.TreeMap.mem_toList_iff_getElem?_eq_some.2 h, rfl⟩

theorem Binding.owns_negative {name : String} {parent : Option BindingId} {ref : Ref} :
    ¬ Binding.Owns { name, parent } ref := by
  cases ref with
  | node n => exact fun h => nomatch h
  | binding c =>
      rintro ⟨k, hk⟩
      rw [Std.TreeMap.getElem?_emptyc] at hk
      cases hk
  | inst i => exact id

theorem Binding.owned_negative {name : String} {parent : Option BindingId} :
    Binding.owned { name, parent } = [] := by
  have below : Binding.below { name, parent } = [] := by
    refine List.eq_nil_iff_forall_not_mem.2 fun c h => ?_
    have h : Binding.Owns { name, parent } (.binding c) := Binding.mem_below.1 h
    exact Binding.owns_negative h
  unfold Binding.owned
  rw [below]
  rfl

theorem Binding.mem_owned {x : Binding} {ref : Ref} (h : x.Owns ref) : .letGo ref ∈ x.owned := by
  unfold Binding.owned
  cases ref with
  | node n =>
      refine List.mem_append_left _ ?_
      rw [show x.node = some n from h]
      exact List.mem_singleton_self _
  | binding c => exact List.mem_append_right _ (List.mem_map.2 ⟨c, Binding.mem_below.2 h, rfl⟩)
  | inst i => exact h.elim

namespace World

variable {w w' : World} {ref : Ref}

/-- The question that the program asks is the one asked here. -/
theorem owns_iff : w.owns ref = true ↔ w.Owned ref := by
  cases ref with
  | node n =>
      simp only [owns, ownsNode, Bool.or_eq_true, List.contains_iff_mem, Table.any_iff,
        beq_iff_eq]
      constructor
      · rintro ((h | ⟨b, x, hx, h⟩) | ⟨f, x, hx, h⟩)
        · exact ⟨.caller, h⟩
        · exact ⟨.binding b, x, hx, h⟩
        · exact ⟨.file f, x, hx, h⟩
      · rintro ⟨holder, h⟩
        cases holder with
        | caller => exact .inl (.inl h)
        | binding b => exact .inl (.inr ⟨b, h⟩)
        | file f => exact .inr ⟨f, h⟩
        | inst i => exact h.choose_spec.2.elim
        | context c => exact h.choose_spec.2.elim
  | binding b =>
      simp only [owns, ownsBinding, Bool.or_eq_true, List.contains_iff_mem, Table.any_iff,
        beq_iff_eq, Binding.mem_below]
      constructor
      · rintro ((((h | ⟨d, h⟩) | ⟨f, h⟩) | ⟨i, h⟩) | ⟨c, h⟩)
        · exact ⟨.caller, h⟩
        · exact ⟨.binding d, h⟩
        · exact ⟨.file f, h⟩
        · exact ⟨.inst i, h⟩
        · exact ⟨.context c, h⟩
      · rintro ⟨holder, h⟩
        cases holder with
        | caller => exact .inl (.inl (.inl (.inl h)))
        | binding d => exact .inl (.inl (.inl (.inr ⟨d, h⟩)))
        | file f => exact .inl (.inl (.inr ⟨f, h⟩))
        | inst i => exact .inl (.inr ⟨i, h⟩)
        | context c => exact .inr ⟨c, h⟩
  | inst i =>
      simp only [owns, ownsInstance, Bool.or_eq_true, List.contains_iff_mem, Table.any_iff,
        beq_iff_eq]
      constructor
      · rintro (h | ⟨c, h⟩)
        · exact ⟨.caller, h⟩
        · exact ⟨.context c, h⟩
      · rintro ⟨holder, h⟩
        cases holder with
        | caller => exact .inl h
        | binding b => exact h.choose_spec.2.elim
        | file f => exact h.choose_spec.2.elim
        | inst i => exact h.choose_spec.2.elim
        | context c => exact .inr ⟨c, h⟩

theorem owns_eq_false_iff : w.owns ref = false ↔ ¬ w.Owned ref := by
  rw [← owns_iff, Bool.not_eq_true]

instance decidableOwned (w : World) (ref : Ref) : Decidable (w.Owned ref) :=
  decidable_of_iff (w.owns ref = true) owns_iff

/-- A new binding owns nothing. -/
theorem owner_pushBinding {host : Host} {name : String} {parent : Option BindingId}
    {holder : Holder} :
    World.Owner { w with host, bindings := w.bindings.push { name, parent } } ref holder
      ↔ w.Owner ref holder := by
  cases holder with
  | binding c =>
      simp only [Owner, Table.get?_push]
      split
      · next e =>
          rw [e, Table.get?_nextId]
          simp [Binding.owns_negative]
      · exact Iff.rfl
  | _ => exact Iff.rfl

theorem owner_pushNode {host : Host} {node : Node} {holder : Holder} :
    World.Owner { w with host, nodes := w.nodes.push node } ref holder ↔ w.Owner ref holder := by
  cases holder <;> exact Iff.rfl

end World

/-- What is owned is there, and what is there is owned or about to be let go of. -/
structure Tended (w : World) (todo : List Task) : Prop where
  there : ∀ {ref}, w.Owned ref → w.Has ref
  owned : ∀ {ref}, w.Has ref → w.Owned ref ∨ .letGo ref ∈ todo

namespace Tended

open World

variable {w w' : World} {todo todo' : List Task} {new : Ref} {o : Holder}

/-- Nobody owns an object that has yet to be made. -/
theorem fresh_node (t : Tended w todo) : ¬ w.Owned (.node w.nodes.nextId) := fun h => by
  have := t.there h
  simp [Has, Table.has] at this

theorem fresh_binding (t : Tended w todo) : ¬ w.Owned (.binding w.bindings.nextId) := fun h => by
  have := t.there h
  simp [Has, Table.has] at this

/-- A change that touches neither objects nor owners. -/
theorem same (t : Tended w todo) (has : ∀ ref, w'.Has ref ↔ w.Has ref)
    (owner : ∀ ref holder, w'.Owner ref holder ↔ w.Owner ref holder) : Tended w' todo where
  there := fun {ref} ⟨holder, h⟩ => (has ref).2 (t.there ⟨holder, (owner ref holder).1 h⟩)
  owned := fun {ref} h => by
    rcases t.owned ((has ref).1 h) with ⟨holder, h⟩ | h
    · exact .inl ⟨holder, (owner ref holder).2 h⟩
    · exact .inr h

/-- A change of one holder. What it lost has to be let go of, and what waited to be
let go of may now be its own. -/
theorem change (t : Tended w todo) (has : ∀ ref, w'.Has ref ↔ w.Has ref)
    (others : ∀ ref holder, holder ≠ o → (w'.Owner ref holder ↔ w.Owner ref holder))
    (gained : ∀ ref, w'.Owner ref o → w.Has ref)
    (lost : ∀ ref, w.Owner ref o → w'.Owner ref o ∨ .letGo ref ∈ todo')
    (done : ∀ ref, .letGo ref ∈ todo → w'.Owner ref o ∨ .letGo ref ∈ todo') :
    Tended w' todo' where
  there := fun {ref} ⟨holder, h⟩ => by
    rw [has]
    by_cases here : holder = o
    · subst here
      exact gained ref h
    · exact t.there ⟨holder, (others ref holder here).1 h⟩
  owned := fun {ref} h => by
    rw [has] at h
    have settled : w'.Owner ref o ∨ .letGo ref ∈ todo' → w'.Owned ref ∨ .letGo ref ∈ todo' :=
      fun h => h.imp (fun h => ⟨_, h⟩) id
    rcases t.owned h with ⟨holder, h⟩ | h
    · by_cases here : holder = o
      · subst here
        exact settled (lost ref h)
      · exact .inl ⟨holder, (others ref holder here).2 h⟩
    · exact settled (done ref h)

/-- A new object that owns nothing. It waits for an owner. -/
theorem push (t : Tended w todo) (has : ∀ ref, w'.Has ref ↔ w.Has ref ∨ ref = new)
    (owner : ∀ ref holder, w'.Owner ref holder ↔ w.Owner ref holder) :
    Tended w' (.letGo new :: todo) where
  there := fun {ref} ⟨holder, h⟩ =>
    (has ref).2 (.inl (t.there ⟨holder, (owner ref holder).1 h⟩))
  owned := fun {ref} h => by
    rcases (has ref).1 h with h | rfl
    · rcases t.owned h with ⟨holder, h⟩ | h
      · exact .inl ⟨holder, (owner ref holder).2 h⟩
      · exact .inr (List.mem_cons_of_mem _ h)
    · exact .inr List.mem_cons_self

/-- An object that nobody owned is gone, and what it owned is about to be let go of. -/
theorem remove (t : Tended w todo) (old : Ref) (free : ¬ w.Owned old)
    (has : ∀ ref, w'.Has ref ↔ w.Has ref ∧ ref ≠ old)
    (owner : ∀ ref holder, w'.Owner ref holder → w.Owner ref holder)
    (lost : ∀ ref holder, w.Owner ref holder → w'.Owner ref holder ∨ .letGo ref ∈ todo')
    (done : ∀ ref, .letGo ref ∈ todo → ref = old ∨ .letGo ref ∈ todo') : Tended w' todo' where
  there := fun {ref} ⟨holder, h⟩ => by
    have h := owner ref holder h
    exact (has ref).2 ⟨t.there ⟨holder, h⟩, fun e => free (e ▸ ⟨holder, h⟩)⟩
  owned := fun {ref} h => by
    obtain ⟨h, ne⟩ := (has ref).1 h
    rcases t.owned h with ⟨holder, h⟩ | h
    · exact (lost ref holder h).imp (fun h => ⟨holder, h⟩) id
    · exact .inr ((done ref h).resolve_left ne)

/-- What is owned anyway, or is not there, need not be let go of. -/
theorem drop {ref : Ref} (t : Tended w (.letGo ref :: todo))
    (h : w.Has ref → w.Owned ref ∨ .letGo ref ∈ todo) : Tended w todo where
  there := t.there
  owned := fun {other} there => by
    rcases t.owned there with owned | waiting
    · exact .inl owned
    · rcases List.mem_cons.1 waiting with e | waiting
      · cases e
        exact h there
      · exact .inr waiting

theorem mono (t : Tended w todo) (h : ∀ ref, .letGo ref ∈ todo → .letGo ref ∈ todo') :
    Tended w todo' where
  there := t.there
  owned := fun there => (t.owned there).imp id (h _)

end Tended

end Memfs
