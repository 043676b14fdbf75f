import Memfs.Proofs.Links.Due

/-!
# What is in place, and what takes it out of place

Most changes of the world leave what is in place as it is; `SameShape` says so, and with
it that no node has more or fewer links due to it. The others are made of two steps. A
binding is taken out of its directory, or it is entered into one.

A directory that was taken out while names are in it hangs loose until it is entered
again. `Upheld` names the bindings that do. When there are none, every name is in a
directory in place, and what is in place is what can be reached from a root.
-/

namespace Memfs

namespace World

/-- Something depends on the binding: it is in place, or there are names in it. -/
def InUse (w : World) (b : BindingId) : Prop := w.Placed b ∨ ∃ c, w.Entered b c

/-- The same bindings are in place, for the same nodes. -/
structure SameShape (w w' : World) : Prop where
  rooted : ∀ b, w'.Rooted b ↔ w.Rooted b
  entered : ∀ d c, w'.Entered d c ↔ w.Entered d c
  node : ∀ b, w.InUse b → w'.nodeOf b = w.nodeOf b
  directory : ∀ b n, w.InUse b → w.nodeOf b = some n → w'.isDirectory n = w.isDirectory n
  parentless : ∀ b, w.Rooted b → w.parentOf b = none → w'.parentOf b = none

/-- Names are in directories in place or in loose ones, and roots have no parents. -/
structure Upheld (w : World) (loose : List BindingId) : Prop where
  entered : ∀ {d c}, w.Entered d c → w.Placed d ∨ d ∈ loose
  roots : ∀ {b}, w.Rooted b → w.parentOf b = none

variable {w w' w'' : World} {a b c d e : BindingId} {n : NodeId} {name k : String}
  {loose : List BindingId} {x : Binding}

theorem rooted_of_instances (h : w'.instances = w.instances) : w'.Rooted b ↔ w.Rooted b := by
  unfold Rooted
  rw [h]

theorem entered_of_child? (h : ∀ d name, w'.child? d name = w.child? d name) :
    w'.Entered d c ↔ w.Entered d c := by
  unfold Entered
  simp only [h]

namespace SameShape

theorem refl : SameShape w w :=
  ⟨fun _ => Iff.rfl, fun _ _ => Iff.rfl, fun _ _ => rfl, fun _ _ _ _ => rfl, fun _ _ h => h⟩

theorem placed (s : SameShape w w') : w'.Placed b ↔ w.Placed b :=
  or_congr (s.rooted b) (exists_congr fun d => s.entered d b)

theorem inUse (s : SameShape w w') : w'.InUse b ↔ w.InUse b :=
  or_congr s.placed (exists_congr fun c => s.entered b c)

theorem trans (s : SameShape w w') (t : SameShape w' w'') : SameShape w w'' where
  rooted b := (t.rooted b).trans (s.rooted b)
  entered d c := (t.entered d c).trans (s.entered d c)
  node b h := (t.node b (s.inUse.2 h)).trans (s.node b h)
  directory b n h hn :=
    (t.directory b n (s.inUse.2 h) ((s.node b h).trans hn)).trans (s.directory b n h hn)
  parentless b h none := t.parentless b ((s.rooted b).2 h) (s.parentless b h none)

/-- What the forest does not see changes no shape. -/
theorem of_tree (t : SameTree w w') (instances : w'.instances = w.instances) : SameShape w w' where
  rooted _ := rooted_of_instances instances
  entered _ _ := entered_of_child? fun _ _ => t.child?
  node _ _ := t.nodeOf
  directory _ _ _ := t.directory
  parentless _ _ h := t.parentOf.trans h

theorem own (s : SameShape w w') (h : w.InUse b) : w'.own b n = w.own b n :=
  own_congr (s.node b h) fun n => s.directory b n h

theorem given (s : SameShape w w') (h : w.Entered d b) : w'.given b d n = w.given b d n := by
  have used : w.InUse b := .inl (.inr ⟨d, h⟩)
  exact given_congr (bindsDirectory_congr (s.node b used) fun n => s.directory b n used)
    (s.node d (.inr ⟨b, h⟩))

/-- No node has more or fewer links due to it. -/
theorem due (s : SameShape w w') : w'.due n = w.due n :=
  due_congr fun b => share_congr s.placed (fun d => s.entered d b) (fun h => s.own (.inl h))
    fun _ h => s.given h

theorem upheld (s : SameShape w w') (u : Upheld w loose) : Upheld w' loose where
  entered h := (u.entered ((s.entered _ _).1 h)).imp s.placed.2 id
  roots h := s.parentless _ ((s.rooted _).1 h) (u.roots ((s.rooted _).1 h))

end SameShape

/-! ## Taking out -/

theorem placed_of_entered (h : w.Entered d b) : w.Placed b := .inr ⟨d, h⟩

/-- More may hang loose. -/
theorem Upheld.mono {more : List BindingId} (u : Upheld w loose) (h : ∀ b ∈ loose, b ∈ more) :
    Upheld w more :=
  ⟨fun entered => (u.entered entered).imp id (h _), u.roots⟩

/-- A binding has one entry at most. -/
theorem entered_once (f : Forest w) (h : w.Entered d b) (other : w.Entered e b) : e = d := by
  obtain ⟨_, h⟩ := h
  obtain ⟨_, other⟩ := other
  exact Option.some.inj ((f.entry other).2.symm.trans (f.entry h).2)

/-- No name leads to a root. -/
theorem Upheld.not_rooted (u : Upheld w loose) (f : Forest w) (h : w.Entered d b) :
    ¬ w.Rooted b := by
  intro root
  obtain ⟨_, h⟩ := h
  cases (u.roots root).symm.trans (f.entry h).2

theorem sameNodes_detach (f : Forest w) (h : w.child? d name = some b) :
    SameNodes w (w.detach b) where
  node _ := f.nodeOf_detach h
  directory n := by
    rw [f.detach_eq h]
    rfl

theorem rooted_detach (f : Forest w) (h : w.child? d name = some b) :
    (w.detach b).Rooted c ↔ w.Rooted c := by
  refine rooted_of_instances ?_
  rw [f.detach_eq h]
  rfl

theorem entered_detach (f : Forest w) (h : w.child? d name = some b) :
    (w.detach b).Entered e c ↔ c ≠ b ∧ w.Entered e c := by
  unfold Entered
  simp only [f.child?_detach h]
  constructor
  · rintro ⟨k, hk⟩
    split at hk
    · cases hk
    · next other =>
        refine ⟨fun same => other ?_, k, hk⟩
        subst same
        obtain ⟨hname, hparent⟩ := f.entry h
        obtain ⟨hname', hparent'⟩ := f.entry hk
        exact ⟨Option.some.inj (hparent'.symm.trans hparent), hname'.symm.trans hname⟩
  · rintro ⟨hne, k, hk⟩
    refine ⟨k, ?_⟩
    rw [if_neg, hk]
    rintro ⟨rfl, rfl⟩
    exact hne (Option.some.inj (hk.symm.trans h))

theorem placed_detach (u : Upheld w loose) (f : Forest w) (h : w.child? d name = some b) :
    (w.detach b).Placed c ↔ c ≠ b ∧ w.Placed c := by
  unfold Placed
  simp only [rooted_detach f h, entered_detach f h]
  constructor
  · rintro (root | ⟨e, hne, entered⟩)
    · exact ⟨fun same => u.not_rooted f ⟨name, h⟩ (same ▸ root), .inl root⟩
    · exact ⟨hne, .inr ⟨e, entered⟩⟩
  · rintro ⟨hne, root | ⟨e, entered⟩⟩
    · exact .inl root
    · exact .inr ⟨e, hne, entered⟩

theorem Upheld.detach (u : Upheld w loose) (f : Forest w) (h : w.child? d name = some b) :
    Upheld (w.detach b) (b :: loose) where
  entered {e c} entered := by
    rw [placed_detach u f h]
    by_cases same : e = b
    · exact .inr (same ▸ List.mem_cons_self)
    · exact (u.entered ((entered_detach f h).1 entered).2).imp (⟨same, ·⟩)
        (List.mem_cons_of_mem _)
  roots root := by
    rw [f.parentOf_detach h]
    exact u.roots ((rooted_detach f h).1 root)

/-- A binding that is taken out gives its links no more. -/
theorem due_detach (u : Upheld w loose) (f : Forest w) (h : w.child? d name = some b) :
    (w.detach b).due n + (w.own b n + w.given b d n) = w.due n := by
  have entered : w.Entered d b := ⟨name, h⟩
  have change : (w.detach b).due n + w.share n b = w.due n + (w.detach b).share n b := by
    refine due_change b fun c hne => ?_
    refine share_congr ?_ (fun e => ?_) (fun _ => ?_) fun e _ => ?_
    · rw [placed_detach u f h, and_iff_right hne]
    · rw [entered_detach f h, and_iff_right hne]
    · exact (sameNodes_detach f h).own
    · exact (sameNodes_detach f h).given
  rw [share_of_entered entered fun e => entered_once f entered,
    share_of_not_placed fun placed => ((placed_detach u f h).1 placed).1 rfl] at change
  exact change

/-! ## Entering -/

theorem sameNodes_enter (hd : w.bindings.has d = true) (free : w.child? d name = none) :
    SameNodes w (w.enter d name b) where
  node _ := nodeOf_enter hd free
  directory n := by
    rw [enter_eq free]
    rfl

theorem rooted_enter (free : w.child? d name = none) :
    (w.enter d name b).Rooted c ↔ w.Rooted c := by
  refine rooted_of_instances ?_
  rw [enter_eq free]
  rfl

theorem entered_enter (hd : w.bindings.has d = true) (free : w.child? d name = none) :
    (w.enter d name b).Entered e c ↔ (e = d ∧ c = b) ∨ w.Entered e c := by
  unfold Entered
  simp only [child?_enter hd free]
  constructor
  · rintro ⟨k, hk⟩
    split at hk
    · next here =>
        cases hk
        exact .inl ⟨here.1, rfl⟩
    · exact .inr ⟨k, hk⟩
  · rintro (⟨rfl, rfl⟩ | ⟨k, hk⟩)
    · exact ⟨name, by rw [if_pos ⟨rfl, rfl⟩]⟩
    · refine ⟨k, ?_⟩
      rw [if_neg, hk]
      rintro ⟨rfl, rfl⟩
      cases free.symm.trans hk

theorem placed_enter (hd : w.bindings.has d = true) (free : w.child? d name = none) :
    (w.enter d name b).Placed c ↔ c = b ∨ w.Placed c := by
  unfold Placed
  simp only [rooted_enter free, entered_enter hd free]
  constructor
  · rintro (root | ⟨e, ⟨-, here⟩ | entered⟩)
    · exact .inr (.inl root)
    · exact .inl here
    · exact .inr (.inr ⟨e, entered⟩)
  · rintro (here | root | ⟨e, entered⟩)
    · exact .inr ⟨d, .inl ⟨rfl, here⟩⟩
    · exact .inl root
    · exact .inr ⟨e, .inr entered⟩

/-- A loose binding is entered into a directory that is not loose itself. -/
theorem Upheld.enter (u : Upheld w (b :: loose)) (hd : w.bindings.has d = true)
    (free : w.child? d name = none) (held : w.Placed d ∨ d ∈ loose) :
    Upheld (w.enter d name b) loose where
  entered {e c} entered := by
    rw [placed_enter hd free]
    rcases (entered_enter hd free).1 entered with ⟨rfl, -⟩ | entered
    · exact held.imp .inr id
    · rcases u.entered entered with placed | mem
      · exact .inl (.inr placed)
      · rcases List.mem_cons.1 mem with here | mem
        · exact .inl (.inl here)
        · exact .inr mem
  roots root := by
    rw [parentOf_enter hd free]
    exact u.roots ((rooted_enter free).1 root)

/-- A binding that is entered gives its links from then on. -/
theorem due_enter (hd : w.bindings.has d = true) (free : w.child? d name = none)
    (out : ¬ w.Placed b) :
    (w.enter d name b).due n = w.due n + (w.own b n + w.given b d n) := by
  have none : ∀ e, ¬ w.Entered e b := fun e entered => out (.inr ⟨e, entered⟩)
  have change : (w.enter d name b).due n + w.share n b
      = w.due n + (w.enter d name b).share n b := by
    refine due_change b fun c hne => ?_
    refine share_congr ?_ (fun e => ?_) (fun _ => ?_) fun e _ => ?_
    · rw [placed_enter hd free, or_iff_right hne]
    · rw [entered_enter hd free, or_iff_right fun here => hne here.2]
    · exact (sameNodes_enter hd free).own
    · exact (sameNodes_enter hd free).given
  have entered : (w.enter d name b).Entered d b := (entered_enter hd free).2 (.inl ⟨rfl, rfl⟩)
  have once : ∀ e, (w.enter d name b).Entered e b → e = d := fun e other =>
    ((entered_enter hd free).1 other).elim And.left fun other => absurd other (none e)
  rw [share_of_not_placed out, share_of_entered entered once, (sameNodes_enter hd free).own,
    (sameNodes_enter hd free).given] at change
  exact change

/-! ## Moving -/

theorem sameNodes_readdress (hx : w.bindings.get? b = some x) :
    SameNodes w (w.readdress b d name) :=
  ⟨fun _ => nodeOf_readdress hx, fun _ => rfl⟩

theorem SameShape.readdress (hx : w.bindings.get? b = some x) (unrooted : ¬ w.Rooted b) :
    SameShape w (w.readdress b d name) where
  rooted _ := rooted_of_instances rfl
  entered _ _ := entered_of_child? fun _ _ => child?_readdress hx
  node _ _ := nodeOf_readdress hx
  directory _ _ _ _ := rfl
  parentless c root none := by
    rw [parentOf_readdress_of_ne hx fun same => unrooted (same ▸ root), none]

/-- A binding moves with all that is below it. The link that it gives moves with it. -/
theorem moveBinding_shape (u : Upheld w loose) (f : Forest w) (h : w.child? e k = some a)
    (upheld : w.Placed d ∨ d ∈ loose) (hd : w.bindings.has d = true) (hne : d ≠ a)
    (free : w.child? d name = none) :
    Upheld (w.moveBinding a d name) loose ∧ (∀ c, (w.moveBinding a d name).Placed c ↔ w.Placed c) ∧
      ∀ n, (w.moveBinding a d name).due n + w.given a e n = w.due n + w.given a d n := by
  have entered : w.Entered e a := ⟨k, h⟩
  obtain ⟨x, hx⟩ := Table.has_iff.1 ((f.has_detach h).trans (f.has_of_child? h))
  have unrooted : ¬ (w.detach a).Rooted a := mt (rooted_detach f h).1 (u.not_rooted f entered)
  have out : ∀ c, ((w.detach a).readdress a d name).Placed c ↔ c ≠ a ∧ w.Placed c := fun c =>
    (SameShape.readdress hx unrooted).placed.trans (placed_detach u f h)
  have nodes : SameNodes w ((w.detach a).readdress a d name) :=
    (sameNodes_detach f h).trans (sameNodes_readdress hx)
  have same : ∀ n, ((w.detach a).readdress a d name).due n = (w.detach a).due n := fun _ =>
    (SameShape.readdress hx unrooted).due
  have hd : ((w.detach a).readdress a d name).bindings.has d = true :=
    has_modifyBinding.trans ((f.has_detach h).trans hd)
  have free : ((w.detach a).readdress a d name).child? d name = none := by
    rw [child?_readdress hx, f.child?_detach h, free]
    exact ite_self none
  refine ⟨((SameShape.readdress hx unrooted).upheld (u.detach f h)).enter hd free
    (upheld.imp (fun placed => (out d).2 ⟨hne, placed⟩) id), fun c => ?_, fun n => ?_⟩
  · refine (placed_enter hd free).trans ?_
    rw [out]
    by_cases same : c = a
    · subst same
      simp [placed_of_entered entered]
    · simp [same]
  · have entering := due_enter (n := n) hd free fun again => ((out a).1 again).1 rfl
    rw [nodes.own, nodes.given, same] at entering
    have leaving := due_detach (n := n) u f h
    show (World.enter _ _ _ _).due n + _ = _
    omega

variable {dirA dirB : BindingId} {nameA nameB : String}

/-- Two loose bindings come to each other's places. -/
theorem cross_shape (u : Upheld w (b :: a :: loose)) (hne : a ≠ b) (outA : ¬ w.Placed a) (outB : ¬ w.Placed b)
    (thereA : w.bindings.has a = true) (thereB : w.bindings.has b = true)
    (upheldA : w.Placed dirA ∨ dirA ∈ loose) (upheldB : w.Placed dirB ∨ dirB ∈ loose)
    (hasA : w.bindings.has dirA = true) (hasB : w.bindings.has dirB = true)
    (freeA : w.child? dirA nameA = none) (freeB : w.child? dirB nameB = none)
    (places : ¬ (dirA = dirB ∧ nameA = nameB)) {v : World}
    (hv : (w.readdress a dirB nameB).readdress b dirA nameA = v) :
    Upheld ((v.enter dirB nameB a).enter dirA nameA b) loose ∧
      (∀ c, ((v.enter dirB nameB a).enter dirA nameA b).Placed c
        ↔ (c = a ∨ c = b) ∨ w.Placed c) ∧
      ∀ n, ((v.enter dirB nameB a).enter dirA nameA b).due n
        = w.due n + (w.own a n + w.given a dirB n) + (w.own b n + w.given b dirA n) := by
  obtain ⟨x, hx⟩ := Table.has_iff.1 thereA
  have shapeA : SameShape w (w.readdress a dirB nameB) := .readdress hx fun root => outA (.inl root)
  obtain ⟨y, hy⟩ := Table.has_iff.1
    ((has_modifyBinding (w := w) (g := fun x => { x with name := nameB, parent := some dirB })
      (b := a)).trans thereB)
  have shape : SameShape w ((w.readdress a dirB nameB).readdress b dirA nameA) :=
    shapeA.trans (.readdress hy fun root => outB (.inl ((shapeA.rooted b).1 root)))
  have nodes : SameNodes w ((w.readdress a dirB nameB).readdress b dirA nameA) :=
    (sameNodes_readdress hx).trans (sameNodes_readdress hy)
  have child : ∀ e k, ((w.readdress a dirB nameB).readdress b dirA nameA).child? e k
      = w.child? e k := fun e k => (child?_readdress hy).trans (child?_readdress hx)
  have has : ∀ c, ((w.readdress a dirB nameB).readdress b dirA nameA).bindings.has c
      = w.bindings.has c := fun c => has_modifyBinding.trans has_modifyBinding
  rw [hv] at shape nodes
  simp only [hv] at child has
  have hasB : v.bindings.has dirB = true := (has dirB).trans hasB
  have freeB : v.child? dirB nameB = none := (child _ _).trans freeB
  have outA : ¬ v.Placed a := mt shape.placed.1 outA
  have outB : ¬ v.Placed b := mt shape.placed.1 outB
  -- `a` is entered first
  have swapped : Upheld v (a :: b :: loose) := (shape.upheld u).mono fun c mem => by
    simp only [List.mem_cons] at mem ⊢
    tauto
  have uA := swapped.enter hasB freeB (upheldB.imp shape.placed.2 (List.mem_cons_of_mem _))
  have placedA₁ := placed_enter (b := a) (c := dirA) hasB freeB
  have dueA := fun n => due_enter (n := n) hasB freeB outA
  have nodesA := nodes.trans (sameNodes_enter (b := a) hasB freeB)
  have hasA : (v.enter dirB nameB a).bindings.has dirA = true := by
    rw [enter_eq freeB]
    exact has_modifyBinding.trans ((has dirA).trans hasA)
  have freeA : (v.enter dirB nameB a).child? dirA nameA = none := by
    rw [child?_enter hasB freeB, if_neg places, child, freeA]
  have outB₁ : ¬ (v.enter dirB nameB a).Placed b := fun again =>
    ((placed_enter hasB freeB).1 again).elim (fun same => hne same.symm) outB
  refine ⟨uA.enter hasA freeA (upheldA.imp ?_ id), fun c => ?_, fun n => ?_⟩
  · exact fun placed => placedA₁.2 (.inr (shape.placed.2 placed))
  · rw [placed_enter hasA freeA, placed_enter hasB freeB, shape.placed, or_left_comm, or_assoc]
  · rw [due_enter hasA freeA outB₁, dueA, shape.due, nodes.own, nodes.given, nodesA.own,
      nodesA.given]

/-- Two bindings change places. The links that they give to the directories that they are
in change places with them. -/
theorem exchangeBindings_shape (u : Upheld w loose) (f : Forest w) (ha : w.child? dirA nameA = some a)
    (hb : w.child? dirB nameB = some b) (hne : a ≠ b) (apartA : dirB ≠ a) (apartB : dirA ≠ b) :
    Upheld (w.exchangeBindings a b) loose ∧
      (∀ c, (w.exchangeBindings a b).Placed c ↔ w.Placed c) ∧
      ∀ n, (w.exchangeBindings a b).due n + w.given a dirA n + w.given b dirB n
        = w.due n + w.given a dirB n + w.given b dirA n := by
  have parentA := (f.entry ha).2
  have parentB := (f.entry hb).2
  have aboveSelf : ∀ {c d}, w.parentOf c = some d → d ≠ c := by
    intro c d h same
    subst same
    exact f.not_above_self (.single h)
  have lifted := f.lifted ha hb hne
  have f₁ := f.detach ha
  have hb₁ := f.child?_detach_other ha hb hne
  have u₁ := u.detach f ha
  have placed : ∀ c, ((w.detach a).detach b).Placed c ↔ c ≠ b ∧ c ≠ a ∧ w.Placed c := fun c =>
    (placed_detach u₁ f₁ hb₁).trans (and_congr_right fun _ => placed_detach u f ha)
  have nodes : SameNodes w ((w.detach a).detach b) :=
    (sameNodes_detach f ha).trans (sameNodes_detach f₁ hb₁)
  have dueA := fun n => due_detach (n := n) u f ha
  have dueB := fun n => due_detach (n := n) u₁ f₁ hb₁
  have placedA : w.Placed a := .inr ⟨dirA, nameA, ha⟩
  have placedB : w.Placed b := .inr ⟨dirB, nameB, hb⟩
  have upheld : ∀ {d name c}, w.child? d name = some c → d ≠ a → d ≠ b →
      ((w.detach a).detach b).Placed d ∨ d ∈ loose := fun h outA outB =>
    (u.entered ⟨_, h⟩).imp (fun inPlace => (placed _).2 ⟨outB, outA, inPlace⟩) id
  rw [f.exchangeBindings_eq ha hb]
  obtain ⟨upheld, after, due⟩ := cross_shape (u₁.detach f₁ hb₁) hne
    (fun h => ((placed a).1 h).2.1 rfl) (fun h => ((placed b).1 h).1 rfl)
    ((lifted.has a).trans (f.has_of_child? ha)) ((lifted.has b).trans (f.has_of_child? hb))
    (upheld ha (aboveSelf parentA) apartB) (upheld hb apartA (aboveSelf parentB))
    ((lifted.has dirA).trans (has_parent parentA)) ((lifted.has dirB).trans (has_parent parentB))
    lifted.freeA lifted.freeB (places_ne ha hb hne) rfl
  refine ⟨upheld, fun c => ?_, fun n => ?_⟩
  · rw [after, placed]
    by_cases ca : c = a
    · simp [ca, placedA]
    · by_cases cb : c = b
      · simp [cb, placedB]
      · simp [ca, cb]
  · rw [due, nodes.own, nodes.given, nodes.own, nodes.given]
    have dueA := dueA n
    have dueB := dueB n
    rw [(sameNodes_detach f ha).own, (sameNodes_detach f ha).given] at dueB
    omega

end World

end Memfs
