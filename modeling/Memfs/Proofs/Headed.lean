import Memfs.Proofs.Changes.Mounts

/-!
# What roots and directories are told by

The program tells a root by its name and by its having no parent, and a symlink by the
type bits of its mode. Neither says much as long as any binding could lose its parent
and any node could have any mode. `Headed` says that neither happens: a binding without
a parent was made as a root, the root of an instance is such a binding, and the type
bits say `directory` of directories alone. No operation is to be looked at for this:
each of the changes that a world may see keeps it.
-/

namespace Memfs

open World

variable {w v : World}

/-- Roots and directories are what they are taken for. -/
structure Headed (w : World) : Prop where
  /-- What was made without a parent bears the name of a root. -/
  named : ∀ {b x}, w.bindings.get? b = some x → x.parent = none → x.name = rootName
  /-- The root of an instance was made without a parent. -/
  top : ∀ {i inst root}, w.instances.get? i = some inst → inst.root = some root → w.Topmost root
  typed : ∀ {n node}, w.nodes.get? n = some node → node.Typed

namespace Headed

/-! ## Each table by itself -/

theorem of_bindings_eq (h : Headed w) (bindings : v.bindings = w.bindings)
    (instances : v.instances = w.instances)
    (typed : ∀ {n node}, v.nodes.get? n = some node → node.Typed) : Headed v where
  named hx := h.named (by rwa [← bindings])
  top hi hroot := by
    unfold Topmost
    rw [bindings]
    exact h.top (by rwa [← instances]) hroot
  typed := typed

theorem modifyNode (h : Headed w) {n : NodeId} {f : Node → Node}
    (kept : ∀ x, (f x).kind = x.kind ∧ (f x).mode = x.mode) : Headed (w.modifyNode n f) := by
  refine h.of_bindings_eq rfl rfl fun {m node} hm => ?_
  rcases Table.get?_of_modify hm with ⟨rfl, x, hx, rfl⟩ | ⟨-, hm⟩
  · have typed : x.Typed := h.typed hx
    unfold Node.Typed at typed ⊢
    rw [(kept x).1, (kept x).2]
    exact typed
  · exact h.typed hm

/-- A change of one binding that is there. What it does to bindings without a parent is
what there is to say. -/
theorem modifyBinding (h : Headed w) {b : BindingId} {f : Binding → Binding}
    (named : ∀ x, w.bindings.get? b = some x → (f x).parent = none → (f x).name = rootName)
    (stays : ∀ x, w.bindings.get? b = some x → x.parent = none → (f x).parent = none) :
    Headed (w.modifyBinding b f) where
  named := by
    intro c x hx parentless
    rcases Table.get?_of_modify hx with ⟨rfl, y, hy, rfl⟩ | ⟨-, hx⟩
    · exact named y hy parentless
    · exact h.named hx parentless
  top := by
    intro i inst root hi hroot
    obtain ⟨x, hx, parentless⟩ := h.top hi hroot
    by_cases same : root = b
    · subst same
      refine ⟨f x, ?_, stays x hx parentless⟩
      rw [World.modifyBinding, Table.get?_modify, if_pos rfl, hx]
      rfl
    · refine ⟨x, ?_, parentless⟩
      rw [World.modifyBinding, Table.get?_modify, if_neg same]
      exact hx
  typed := h.typed

theorem modifyInstance (h : Headed w) {i : InstanceId} {f : Instance → Instance}
    (top : ∀ x root, (f x).root = some root → x.root = some root ∨ w.Topmost root) :
    Headed (w.modifyInstance i f) where
  named := h.named
  top := by
    intro j inst root hj hroot
    rcases Table.get?_of_modify hj with ⟨rfl, x, hx, rfl⟩ | ⟨-, hj⟩
    · exact (top x root hroot).elim (fun had => h.top hx had) id
    · exact h.top hj hroot
  typed := h.typed

/-! ## Each change -/

theorem change {writes : Prop} (c : Change writes w v) (h : Headed w) : Headed v := by
  cases c with
  | aside nodes bindings _ instances =>
      exact h.of_bindings_eq bindings instances fun hn => h.typed (nodes ▸ hn)
  | pushNode typed _ =>
      refine h.of_bindings_eq rfl rfl fun {n node} hn => ?_
      rcases Table.get?_of_push hn with ⟨-, rfl⟩ | ⟨-, hn⟩
      · exact typed
      · exact h.typed hn
  | modifyNode rest => exact h.modifyNode fun x => by rw [rest x]; exact ⟨rfl, rfl⟩
  | content => exact h.modifyNode fun _ => ⟨rfl, rfl⟩
  | evict =>
      exact h.of_bindings_eq rfl rfl fun hn => h.typed (Table.get?_of_erase hn)
  | files => exact h.of_bindings_eq rfl rfl h.typed
  | pushBinding root =>
      refine ⟨fun {b x} hx parentless => ?_, fun hi hroot => ?_, h.typed⟩
      · rcases Table.get?_of_push hx with ⟨-, rfl⟩ | ⟨-, hx⟩
        · exact root parentless
        · exact h.named hx parentless
      · obtain ⟨x, hx, parentless⟩ := h.top hi hroot
        exact ⟨x, Table.get?_push_of_some hx, parentless⟩
  | modifyBinding rest =>
      refine h.modifyBinding (fun x hx parentless => ?_) fun x _ parentless => ?_
      · rw [rest x] at parentless ⊢
        exact h.named (x := x) hx parentless
      · rw [rest x]
        exact parentless
  | readdress filed _ stays =>
      refine h.modifyBinding (fun x hx parentless => ?_) fun x hx parentless => ?_
      · have parented := stays x (filed.2 x hx)
        rw [parentless] at parented
        cases parented
      · have parented := filed.2 x hx
        rw [parentless] at parented
        cases parented
  | @removeBinding b _ _ free =>
      refine ⟨fun hx => h.named (Table.get?_of_erase hx), fun {i inst root} hi hroot => ?_, h.typed⟩
      obtain ⟨x, hx, parentless⟩ := h.top hi hroot
      -- The instance owns its root, so the root is not what is removed.
      have other : root ≠ b := by
        rintro rfl
        exact free ⟨.inst i, inst, hi, hroot⟩
      refine ⟨x, ?_, parentless⟩
      rw [World.removeBinding, Table.get?_erase, if_neg other]
      exact hx
  | pushInstance rootless =>
      refine ⟨h.named, fun {i inst root} hi hroot => ?_, h.typed⟩
      rcases Table.get?_of_push hi with ⟨-, rfl⟩ | ⟨-, hi⟩
      · rw [rootless] at hroot
        cases hroot
      · exact h.top hi hroot
  | modifyInstance root =>
      refine h.modifyInstance fun x r hroot => .inl ?_
      rcases root x with same | gone
      · exact same.symm.trans hroot
      · rw [gone] at hroot
        cases hroot
  | setRoot top =>
      refine h.modifyInstance fun x r hroot => .inr ?_
      cases hroot
      exact top
  | removeInstance =>
      refine ⟨h.named, fun hi => h.top (Table.get?_of_erase hi), h.typed⟩

theorem fresh {clock : Clock} : Headed (World.fresh clock) where
  named hx := by
    rw [World.fresh, Table.get?_empty] at hx
    cases hx
  top hi := by
    rw [World.fresh, Table.get?_empty] at hi
    cases hi
  typed hn := by
    rw [World.fresh, Table.get?_empty] at hn
    cases hn

/-- After any run roots and directories are what they are taken for. -/
theorem run (clock : Clock) (calls : List Call) : Headed ((World.fresh clock).run calls) :=
  World.run_keeps (P := Headed) (fun c h => h.change c) fresh calls

/-! ## What follows for roots and directories -/

theorem of_root (h : Headed w) {i : InstanceId} {inst : Instance} {root : BindingId}
    (hi : w.instances.get? i = some inst) (hroot : inst.root = some root) :
    w.parentOf root = none ∧ w.nameOf root = rootName := by
  obtain ⟨x, hx, parentless⟩ := h.top hi hroot
  refine ⟨?_, (nameOf_of_get? hx).trans (h.named hx parentless)⟩
  unfold parentOf
  rw [hx, Option.bind_some, parentless]
  rfl

/-- What has entries is no symlink. -/
theorem not_symlink (h : Headed w) {b : BindingId} (dir : w.bindsDirectory b = true) :
    w.bindsSymlink b = false := by
  obtain ⟨n, bound, isDir⟩ := bindsDirectory_iff.1 dir
  unfold bindsSymlink
  rw [bound, Option.bind_some]
  unfold isDirectory at isDir
  cases found : w.nodes.get? n with
  | none => rfl
  | some node =>
      rw [found, Option.any_some] at isDir
      have typed : node.kind.isDirectory = node.mode.isDirectory := h.typed found
      have directory : node.mode.isDirectory = true := typed.symm.trans isDir
      rw [Mode.isDirectory, beq_iff_eq] at directory
      rw [Option.any_some, Mode.isSymlink, directory]
      decide

end Headed

end Memfs
