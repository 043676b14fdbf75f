import Memfs.Proofs.Sound.Holders

/-!
# A world in order: names that are made and moved

The three ways in which a binding comes to its place: a fresh one with a node, one
that moves, two that change places. Each is a sequence of small changes, and between
them the bindings that are on the way are owned by nobody.

A move is safe if the new parent does not lie below the binding that moves. When two
bindings change places one of them moves first, and the other must not close a cycle
through the parent that the first one has by then. It cannot: such a cycle would
lead through both of them, and the first of its halves is ruled out for the first
move.
-/

namespace Memfs

namespace Forest

open World

variable {w : World} {a b d : BindingId} {name : String} {n : NodeId} {x : Binding}

/-- Taking a binding out changes no parents. -/
theorem parentOf_detach (f : Forest w) (h : w.child? d name = some b) {c : BindingId} :
    (w.detach b).parentOf c = w.parentOf c := by
  obtain ⟨x, hx, -⟩ := child?_eq_some_iff.1 h
  rw [f.detach_eq h]
  exact parentOf_modifyBinding_of_parent_eq hx rfl

theorem nodeOf_detach (f : Forest w) (h : w.child? d name = some b) {c : BindingId} :
    (w.detach b).nodeOf c = w.nodeOf c := by
  obtain ⟨x, hx, -⟩ := child?_eq_some_iff.1 h
  rw [f.detach_eq h]
  exact nodeOf_modifyBinding_of_node_eq hx rfl

theorem child?_detach (f : Forest w) (h : w.child? d name = some b) {e : BindingId} {k : String} :
    (w.detach b).child? e k = if e = d ∧ k = name then none else w.child? e k := by
  obtain ⟨x, hx, -⟩ := child?_eq_some_iff.1 h
  rw [f.detach_eq h, child?_modifyBinding hx]
  by_cases he : e = d
  · rw [if_pos he, getElem?_erase_name, he, child?_of_get? hx]
    simp
  · rw [if_neg he, if_neg fun h => he h.1]

theorem bindsDirectory_detach (f : Forest w) (h : w.child? d name = some b) {c : BindingId} :
    (w.detach b).bindsDirectory c = w.bindsDirectory c := by
  have kinds : (w.detach b).isDirectory = w.isDirectory := by
    rw [f.detach_eq h]
    rfl
  unfold bindsDirectory
  rw [f.nodeOf_detach h, kinds]

theorem above_detach (f : Forest w) (h : w.child? d name = some b) {top c : BindingId} :
    (w.detach b).Above top c ↔ w.Above top c := by
  unfold Above
  rw [isParent_eq fun _ => f.parentOf_detach h]

/-- An entry leads to a binding that is there, and stays there when another is taken
out. -/
theorem has_of_child? (f : Forest w) (h : w.child? d name = some b) : w.bindings.has b = true :=
  has_of_parentOf (f.entry h).2

theorem has_detach (f : Forest w) (h : w.child? d name = some b) {c : BindingId} :
    (w.detach b).bindings.has c = w.bindings.has c := by
  rw [f.detach_eq h]
  exact has_modifyBinding

end Forest

namespace World

variable {w : World} {a b c d : BindingId} {name : String} {x : Binding}

/-! ## A binding with another name and another parent -/

theorem nameOf_readdress (hx : w.bindings.get? b = some x) :
    (w.readdress b d name).nameOf c = if c = b then name else w.nameOf c :=
  nameOf_modifyBinding hx

theorem child?_readdress (hx : w.bindings.get? b = some x) {k : String} :
    (w.readdress b d name).child? c k = w.child? c k :=
  child?_modifyBinding_of_children_eq hx rfl

theorem nodeOf_readdress (hx : w.bindings.get? b = some x) :
    (w.readdress b d name).nodeOf c = w.nodeOf c :=
  nodeOf_modifyBinding_of_node_eq hx rfl

theorem parentOf_readdress_of_ne (hx : w.bindings.get? b = some x) (hne : c ≠ b) :
    (w.readdress b d name).parentOf c = w.parentOf c := by
  unfold readdress
  rw [parentOf_modifyBinding hx, if_neg hne]

theorem parentOf_readdress_self (hx : w.bindings.get? b = some x) (hd : w.bindings.has d = true) :
    (w.readdress b d name).parentOf b = some d := by
  unfold readdress
  rw [parentOf_modifyBinding hx, if_pos rfl]
  simp [hd]

theorem has_readdress : (w.readdress b d name).bindings.has c = w.bindings.has c :=
  has_modifyBinding

theorem bindsDirectory_readdress (hx : w.bindings.get? b = some x) :
    (w.readdress b d name).bindsDirectory c = w.bindsDirectory c := by
  unfold bindsDirectory
  rw [nodeOf_readdress hx]
  rfl

/-- A walk along the parents that meets something only since a binding has moved goes
through that binding, and so on from its new parent. -/
theorem above_readdress {top c : BindingId} (hx : w.bindings.get? a = some x)
    (hd : w.bindings.has d = true) (h : (w.readdress a d name).Above top c) :
    w.Above top c ∨ (w.readdress a d name).Above top d := by
  induction h with
  | refl => exact .inl .refl
  | @tail m c hm hstep ih =>
      by_cases e : c = a
      · rw [e, IsParent, parentOf_readdress_self hx hd] at hstep
        cases hstep
        exact .inr hm
      · rw [IsParent, parentOf_readdress_of_ne hx e] at hstep
        exact ih.imp (fun h => h.tail hstep) id

/-! ## A binding with an entry -/

theorem nameOf_enter (hd : w.bindings.has d = true) (free : w.child? d name = none) :
    (w.enter d name b).nameOf c = w.nameOf c := by
  obtain ⟨x, hx⟩ := Table.has_iff.1 hd
  rw [enter_eq free]
  exact nameOf_modifyBinding_of_name_eq hx rfl

theorem parentOf_enter (hd : w.bindings.has d = true) (free : w.child? d name = none) :
    (w.enter d name b).parentOf c = w.parentOf c := by
  obtain ⟨x, hx⟩ := Table.has_iff.1 hd
  rw [enter_eq free]
  exact parentOf_modifyBinding_of_parent_eq hx rfl

theorem nodeOf_enter (hd : w.bindings.has d = true) (free : w.child? d name = none) :
    (w.enter d name b).nodeOf c = w.nodeOf c := by
  obtain ⟨x, hx⟩ := Table.has_iff.1 hd
  rw [enter_eq free]
  exact nodeOf_modifyBinding_of_node_eq hx rfl

theorem child?_enter (hd : w.bindings.has d = true) (free : w.child? d name = none)
    {e : BindingId} {k : String} : (w.enter d name b).child? e k
      = if e = d ∧ k = name then some b else w.child? e k := by
  obtain ⟨x, hx⟩ := Table.has_iff.1 hd
  rw [enter_eq free, child?_modifyBinding hx]
  by_cases he : e = d
  · rw [if_pos he, getElem?_insert_name, he, child?_of_get? hx]
    simp
  · rw [if_neg he, if_neg fun h => he h.1]

end World

/-! ## Two places at once -/

section Places

variable {w v : World} {a b d dirA dirB : BindingId} {name nameA nameB : String}

namespace World

/-- Two bindings have two places. -/
theorem places_ne (ha : w.child? dirA nameA = some a) (hb : w.child? dirB nameB = some b)
    (hne : a ≠ b) : ¬ (dirA = dirB ∧ nameA = nameB) := by
  rintro ⟨rfl, rfl⟩
  exact hne (Option.some.inj (ha.symm.trans hb))

/-- In `v` two places are free, and nothing else has changed. -/
structure Lifted (w v : World) (dirA : BindingId) (nameA : String) (dirB : BindingId)
    (nameB : String) : Prop where
  child : ∀ e k, v.child? e k = if e = dirB ∧ k = nameB then none
    else if e = dirA ∧ k = nameA then none else w.child? e k
  parent : ∀ c, v.parentOf c = w.parentOf c
  node : ∀ c, v.nodeOf c = w.nodeOf c
  has : ∀ c, v.bindings.has c = w.bindings.has c

theorem Lifted.freeA (l : w.Lifted v dirA nameA dirB nameB) : v.child? dirA nameA = none := by
  rw [l.child, if_pos (And.intro rfl rfl)]
  exact ite_self none

theorem Lifted.freeB (l : w.Lifted v dirA nameA dirB nameB) : v.child? dirB nameB = none := by
  rw [l.child, if_pos ⟨rfl, rfl⟩]

end World

namespace Forest

open World

variable {e : BindingId} {k : String}

theorem detach (f : Forest w) (h : w.child? d name = some b) : Forest (w.detach b) := by
  obtain ⟨x, hx, -⟩ := child?_eq_some_iff.1 h
  rw [f.detach_eq h]
  exact f.erase hx

/-- Of two bindings the second is still in its place when the first is taken out. -/
theorem child?_detach_other (f : Forest w) (ha : w.child? dirA nameA = some a)
    (hb : w.child? dirB nameB = some b) (hne : a ≠ b) :
    (w.detach a).child? dirB nameB = some b := by
  rw [f.child?_detach ha, if_neg (places_ne hb ha hne.symm), hb]

theorem lifted (f : Forest w) (ha : w.child? dirA nameA = some a)
    (hb : w.child? dirB nameB = some b) (hne : a ≠ b) :
    w.Lifted ((w.detach a).detach b) dirA nameA dirB nameB := by
  have hb := f.child?_detach_other ha hb hne
  refine ⟨fun e k => ?_, fun c => ?_, fun c => ?_, fun c => ?_⟩
  · rw [(f.detach ha).child?_detach hb, f.child?_detach ha]
  · rw [(f.detach ha).parentOf_detach hb, f.parentOf_detach ha]
  · rw [(f.detach ha).nodeOf_detach hb, f.nodeOf_detach ha]
  · rw [(f.detach ha).has_detach hb, f.has_detach ha]

/-- Two bindings that have places give each other theirs. -/
theorem exchangeBindings_eq (f : Forest w) (ha : w.child? dirA nameA = some a)
    (hb : w.child? dirB nameB = some b) : w.exchangeBindings a b
      = (((((w.detach a).detach b).readdress a dirB nameB).readdress b dirA nameA).enter
          dirB nameB a).enter dirA nameA b := by
  obtain ⟨hnameA, hparentA⟩ := f.entry ha
  obtain ⟨hnameB, hparentB⟩ := f.entry hb
  unfold World.exchangeBindings
  simp only [hparentA, hparentB, hnameA, hnameB]

/-- Before they are entered, both places are free. -/
theorem crossed (f : Forest w) (ha : w.child? dirA nameA = some a)
    (hb : w.child? dirB nameB = some b) (hne : a ≠ b) : ∃ v,
      (((w.detach a).detach b).readdress a dirB nameB).readdress b dirA nameA = v ∧
      (∀ e k, v.child? e k = ((w.detach a).detach b).child? e k) ∧
      (∀ c, v.nodeOf c = w.nodeOf c) ∧ ∀ c, v.bindings.has c = w.bindings.has c := by
  have lifted := f.lifted ha hb hne
  obtain ⟨x, hx⟩ := Table.has_iff.1 ((lifted.has a).trans (f.has_of_child? ha))
  have has : ∀ c, (((w.detach a).detach b).readdress a dirB nameB).bindings.has c
      = w.bindings.has c := fun c => has_readdress.trans (lifted.has c)
  obtain ⟨y, hy⟩ := Table.has_iff.1 ((has b).trans (f.has_of_child? hb))
  exact ⟨_, rfl, fun e k => (child?_readdress hy).trans (child?_readdress hx),
    fun c => (nodeOf_readdress hy).trans ((nodeOf_readdress hx).trans (lifted.node c)),
    fun c => has_readdress.trans (has c)⟩

/-! ### What is in the directories after a move -/

theorem child?_moveBinding (f : Forest w) (h : w.child? e k = some a)
    (hd : w.bindings.has d = true) (free : w.child? d name = none) {c : BindingId} {j : String} :
    (w.moveBinding a d name).child? c j = if c = d ∧ j = name then some a
      else if c = e ∧ j = k then none else w.child? c j := by
  obtain ⟨x, hx⟩ := Table.has_iff.1 ((f.has_detach h).trans (f.has_of_child? h))
  have place : ((w.detach a).readdress a d name).child? d name = none := by
    rw [child?_readdress hx, f.child?_detach h, free]
    exact ite_self none
  unfold World.moveBinding
  rw [child?_enter (has_readdress.trans ((f.has_detach h).trans hd)) place,
    child?_readdress hx, f.child?_detach h]

theorem nodeOf_moveBinding (f : Forest w) (h : w.child? e k = some a)
    (hd : w.bindings.has d = true) (free : w.child? d name = none) {c : BindingId} :
    (w.moveBinding a d name).nodeOf c = w.nodeOf c := by
  obtain ⟨x, hx⟩ := Table.has_iff.1 ((f.has_detach h).trans (f.has_of_child? h))
  have place : ((w.detach a).readdress a d name).child? d name = none := by
    rw [child?_readdress hx, f.child?_detach h, free]
    exact ite_self none
  unfold World.moveBinding
  rw [nodeOf_enter (has_readdress.trans ((f.has_detach h).trans hd)) place,
    nodeOf_readdress hx, f.nodeOf_detach h]

/-- The two entries are swapped. -/
theorem entries_exchangeBindings (f : Forest w) (ha : w.child? dirA nameA = some a)
    (hb : w.child? dirB nameB = some b) (hne : a ≠ b) :
    (∀ c j, (w.exchangeBindings a b).child? c j = if c = dirA ∧ j = nameA then some b
      else if c = dirB ∧ j = nameB then some a else w.child? c j) ∧
    ∀ c, (w.exchangeBindings a b).nodeOf c = w.nodeOf c := by
  have places := places_ne ha hb hne
  have lifted := f.lifted ha hb hne
  obtain ⟨v, hv, child, node, has⟩ := f.crossed ha hb hne
  rw [f.exchangeBindings_eq ha hb, hv]
  have hasB := (has dirB).trans (has_parent (f.entry hb).2)
  have freeB := (child dirB nameB).trans lifted.freeB
  have hasA : (v.enter dirB nameB a).bindings.has dirA = true := by
    rw [enter_eq freeB]
    exact has_modifyBinding.trans ((has dirA).trans (has_parent (f.entry ha).2))
  have freeA : (v.enter dirB nameB a).child? dirA nameA = none := by
    rw [child?_enter hasB freeB, if_neg places, child, lifted.freeA]
  refine ⟨fun c j => ?_, fun c => ?_⟩
  · rw [child?_enter hasA freeA, child?_enter hasB freeB, child, lifted.child]
    split
    · rfl
    · split
      · rfl
      · rfl
  · rw [nodeOf_enter hasA freeA, nodeOf_enter hasB freeB, node]

end Forest

end Places

/-- A negative binding for a name that is free. -/
structure Vacant (w : World) (b d : BindingId) (name : String) : Prop where
  negative : w.nodeOf b = none
  bears : w.nameOf b = name
  parent : w.parentOf b = some d
  checked : checkName name = .ok ()
  free : w.child? d name = none

namespace Vacant

open World

variable {w w' : World} {b d : BindingId} {name : String} {n : NodeId}

theorem of_bindings (v : Vacant w b d name) (h : w'.bindings = w.bindings) : Vacant w' b d name where
  negative := by
    unfold World.nodeOf
    rw [h]
    exact v.negative
  bears := by
    unfold World.nameOf
    rw [h]
    exact v.bears
  parent := by
    unfold World.parentOf
    rw [h]
    exact v.parent
  checked := v.checked
  free := by
    unfold World.child?
    rw [h]
    exact v.free

/-- A fresh binding gets its node and its place. -/
theorem instantiate_eq (v : Vacant w b d name) :
    w.instantiate b n = (w.modifyBinding b ({ · with node := some n })).enter d name b := by
  obtain ⟨x, hx⟩ := Table.has_iff.1 (has_of_parentOf v.parent)
  unfold World.instantiate
  simp only [v.negative, Option.toList_none, List.map_nil, settle_nil]
  rw [parentOf_modifyBinding_of_parent_eq hx rfl, v.parent, nameOf_modifyBinding_of_name_eq hx rfl,
    v.bears]

/-- From then on it stands for the node, and nothing else stands for another one. -/
theorem nodeOf_instantiate (v : Vacant w b d name) {c : BindingId} :
    (w.instantiate b n).nodeOf c = if c = b then some n else w.nodeOf c := by
  obtain ⟨x, hx⟩ := Table.has_iff.1 (has_of_parentOf v.parent)
  have free : (w.modifyBinding b ({ · with node := some n })).child? d name = none := by
    rw [child?_modifyBinding_of_children_eq hx rfl, v.free]
  rw [v.instantiate_eq, nodeOf_enter (has_modifyBinding.trans (has_parent v.parent)) free,
    nodeOf_modifyBinding hx]

theorem child?_instantiate (v : Vacant w b d name) {e : BindingId} {k : String} :
    (w.instantiate b n).child? e k = if e = d ∧ k = name then some b else w.child? e k := by
  obtain ⟨x, hx⟩ := Table.has_iff.1 (has_of_parentOf v.parent)
  have same : ∀ {e k}, (w.modifyBinding b ({ · with node := some n })).child? e k = w.child? e k :=
    child?_modifyBinding_of_children_eq hx rfl
  rw [v.instantiate_eq, child?_enter (has_modifyBinding.trans (has_parent v.parent))
    (same.trans v.free), same]

end Vacant

namespace Sound

open World

variable {w : World} {todo : List Task} {a b d : BindingId} {name : String} {n : NodeId}
  {x : Binding}

theorem instantiate (s : Sound w (.letGo (.node n) :: .letGo (.binding b) :: todo))
    (v : Vacant w b d name) (there : w.nodes.has n = true)
    (alone : w.isDirectory n = true → ∀ c, w.nodeOf c ≠ some n) : Sound (w.instantiate b n) todo := by
  obtain ⟨x, hx⟩ := Table.has_iff.1 (has_of_parentOf v.parent)
  have negative : x.node = none := (nodeOf_of_get? hx).symm.trans v.negative
  rw [v.instantiate_eq]
  have placed := s.setNode (g := ({ · with node := some n })) hx rfl rfl rfl (fun _ _ _ => rfl)
    negative there alone
  refine placed.enter ?_ ?_ v.checked ⟨n, ?_⟩ ?_
  · rw [nameOf_modifyBinding_of_name_eq hx rfl, v.bears]
  · rw [parentOf_modifyBinding_of_parent_eq hx rfl, v.parent]
  · rw [nodeOf_modifyBinding hx, if_pos rfl]
  · rw [child?_modifyBinding_of_children_eq hx rfl, v.free]

theorem moveBinding (s : Sound w todo) {k : String} {e : BindingId}
    (h : w.child? e k = some a) (hd : w.bindsDirectory d = true) (apart : ¬ w.Above a d)
    (hchecked : checkName name = .ok ()) (free : w.child? d name = none) :
    Sound (w.moveBinding a d name) todo := by
  have f := s.forest
  have out := f.out_of_detach h
  obtain ⟨x, hx⟩ := Table.has_iff.1 ((f.has_detach h).trans (f.has_of_child? h))
  have hd₁ : (w.detach a).bindsDirectory d = true := (f.bindsDirectory_detach h).trans hd
  have apart₁ : ¬ (w.detach a).Above a d := mt (f.above_detach h).1 apart
  have s₂ : Sound ((w.detach a).readdress a d name) (.letGo (.binding a) :: todo) :=
    (s.detach h).readdress hx out hd₁ apart₁
  refine s₂.enter ?_ (parentOf_readdress_self hx (has_of_bindsDirectory hd₁)) hchecked ?_ ?_
  · rw [nameOf_readdress hx, if_pos rfl]
  · rw [nodeOf_readdress hx, f.nodeOf_detach h]
    exact f.bound h
  · rw [child?_readdress hx, f.child?_detach h, free]
    exact ite_self none

/-- Two bindings that are out of their directories come to each other's places. -/
theorem cross (s : Sound w (.letGo (.binding b) :: .letGo (.binding a) :: todo))
    {dirA dirB : BindingId} {nameA nameB : String} (hne : a ≠ b)
    (hparentA : w.parentOf a = some dirA) (hparentB : w.parentOf b = some dirB)
    (outA : ∀ e k, w.child? e k ≠ some a) (outB : ∀ e k, w.child? e k ≠ some b)
    (freeA : w.child? dirA nameA = none) (freeB : w.child? dirB nameB = none)
    (places : ¬ (dirA = dirB ∧ nameA = nameB))
    (checkedA : checkName nameA = .ok ()) (checkedB : checkName nameB = .ok ())
    (boundA : ∃ n, w.nodeOf a = some n) (boundB : ∃ n, w.nodeOf b = some n)
    (apartA : ¬ w.Above a dirB) (apartB : ¬ w.Above b dirA) :
    Sound ((((w.readdress a dirB nameB).readdress b dirA nameA).enter dirB nameB a).enter
      dirA nameA b) todo := by
  obtain ⟨x, hx⟩ := Table.has_iff.1 (has_of_parentOf hparentA)
  have isDirA := s.forest.above hparentA
  have isDirB := s.forest.above hparentB
  -- `a` goes first, to a place that is not below it
  have s₁ : Sound (w.readdress a dirB nameB) _ := s.readdress hx outA isDirB apartA
  have parentA₁ : (w.readdress a dirB nameB).parentOf a = some dirB :=
    parentOf_readdress_self hx (has_of_bindsDirectory isDirB)
  have parentB₁ : (w.readdress a dirB nameB).parentOf b = some dirB := by
    rw [parentOf_readdress_of_ne hx hne.symm, hparentB]
  have name₁ : (w.readdress a dirB nameB).nameOf a = nameB := by
    rw [nameOf_readdress hx, if_pos rfl]
  have child₁ : ∀ e k, (w.readdress a dirB nameB).child? e k = w.child? e k :=
    fun _ _ => child?_readdress hx
  have isDirA₁ : (w.readdress a dirB nameB).bindsDirectory dirA = true := by
    rw [bindsDirectory_readdress hx, isDirA]
  have node₁ : ∀ c, (w.readdress a dirB nameB).nodeOf c = w.nodeOf c := fun _ => nodeOf_readdress hx
  -- were `b` above its new parent now, it would be above its old one and so above itself
  have apart₁ : ¬ (w.readdress a dirB nameB).Above b dirA := by
    intro h
    rcases above_readdress hx (has_of_bindsDirectory isDirB) h with h | h
    · exact apartB h
    · exact s₁.forest.not_above_self (.tail' h parentB₁)
  generalize w.readdress a dirB nameB = w₁ at *
  obtain ⟨y, hy⟩ := Table.has_iff.1 (has_of_parentOf parentB₁)
  have s₂ : Sound (w₁.readdress b dirA nameA) _ :=
    s₁.readdress hy (fun e k => child₁ e k ▸ outB e k) isDirA₁ apart₁
  have parentB₂ : (w₁.readdress b dirA nameA).parentOf b = some dirA :=
    parentOf_readdress_self hy (has_of_bindsDirectory isDirA₁)
  have parentA₂ : (w₁.readdress b dirA nameA).parentOf a = some dirB := by
    rw [parentOf_readdress_of_ne hy hne, parentA₁]
  have nameB₂ : (w₁.readdress b dirA nameA).nameOf b = nameA := by
    rw [nameOf_readdress hy, if_pos rfl]
  have nameA₂ : (w₁.readdress b dirA nameA).nameOf a = nameB := by
    rw [nameOf_readdress hy, if_neg hne, name₁]
  have child₂ : ∀ e k, (w₁.readdress b dirA nameA).child? e k = w.child? e k :=
    fun e k => (child?_readdress hy).trans (child₁ e k)
  have node₂ : ∀ c, (w₁.readdress b dirA nameA).nodeOf c = w.nodeOf c :=
    fun c => (nodeOf_readdress hy).trans (node₁ c)
  generalize w₁.readdress b dirA nameA = w₂ at *
  have freeB₂ : w₂.child? dirB nameB = none := (child₂ _ _).trans freeB
  have s₃ := s₂.swap.enter nameA₂ parentA₂ checkedB (by rwa [node₂]) freeB₂
  have hasB₂ := has_parent parentA₂
  refine s₃.enter ?_ ?_ checkedA ?_ ?_
  · rw [nameOf_enter hasB₂ freeB₂, nameB₂]
  · rw [parentOf_enter hasB₂ freeB₂, parentB₂]
  · rwa [nodeOf_enter hasB₂ freeB₂, node₂]
  · rw [child?_enter hasB₂ freeB₂, if_neg places, child₂, freeA]

theorem exchangeBindings (s : Sound w todo) {dirA dirB : BindingId} {nameA nameB : String}
    (ha : w.child? dirA nameA = some a) (hb : w.child? dirB nameB = some b) (hne : a ≠ b)
    (apartA : ¬ w.Above a dirB) (apartB : ¬ w.Above b dirA) :
    Sound (w.exchangeBindings a b) todo := by
  have f := s.forest
  have places := places_ne ha hb hne
  have lifted := f.lifted ha hb hne
  have hb₁ := f.child?_detach_other ha hb hne
  have s₁ := s.detach ha
  have above : ∀ top c, ((w.detach a).detach b).Above top c ↔ w.Above top c := fun top c => by
    unfold Above
    rw [isParent_eq lifted.parent]
  rw [f.exchangeBindings_eq ha hb]
  refine (s₁.detach hb₁).cross hne ((lifted.parent a).trans (f.entry ha).2)
    ((lifted.parent b).trans (f.entry hb).2) (fun e k h => ?_) (s₁.forest.out_of_detach hb₁)
    lifted.freeA lifted.freeB places (f.checked ha) (f.checked hb)
    ((lifted.node a).symm ▸ f.bound ha) ((lifted.node b).symm ▸ f.bound hb)
    (mt (above a dirB).1 apartA) (mt (above b dirA).1 apartB)
  rw [s₁.forest.child?_detach hb₁] at h
  split at h
  · cases h
  · exact f.out_of_detach ha e k h

end Sound

end Memfs
