import Memfs.Proofs.Forest

/-!
# What a forest survives

One lemma for each way in which a single binding is made, changed or removed, with
the condition under which the bindings still form a forest. Most conditions are
about entries; the one that is not is that of `readdress`, where the new parent
must not lie below the binding that gets it.
-/

namespace Memfs

namespace World

variable {w : World} {b c : BindingId} {x : Binding} {g : Binding → Binding}

theorem getElem?_insert_name {children : Std.TreeMap String BindingId} {name k : String} :
    (children.insert name b)[k]? = if k = name then some b else children[k]? := by
  rw [Std.TreeMap.getElem?_insert]
  by_cases e : k = name
  · simp [e]
  · simp [e, Ne.symm e]

theorem getElem?_erase_name {children : Std.TreeMap String BindingId} {name k : String} :
    (children.erase name)[k]? = if k = name then none else children[k]? := by
  rw [Std.TreeMap.getElem?_erase]
  by_cases e : k = name
  · simp [e]
  · simp [e, Ne.symm e]

/-! ## Views of a changed binding -/

theorem modifyBinding_of_absent (hx : w.bindings.get? b = none) : w.modifyBinding b g = w := by
  unfold modifyBinding
  rw [Table.modify_of_absent hx]

theorem get?_modifyBinding (hx : w.bindings.get? b = some x) :
    (w.modifyBinding b g).bindings.get? c = if c = b then some (g x) else w.bindings.get? c := by
  unfold modifyBinding
  rw [Table.get?_modify, hx]
  rfl

theorem has_modifyBinding : (w.modifyBinding b g).bindings.has c = w.bindings.has c := by
  unfold Table.has modifyBinding
  rw [Table.get?_modify]
  split
  · next h => rw [h, Option.isSome_map]
  · rfl

theorem nameOf_modifyBinding (hx : w.bindings.get? b = some x) :
    (w.modifyBinding b g).nameOf c = if c = b then (g x).name else w.nameOf c := by
  unfold nameOf
  rw [get?_modifyBinding hx]
  split
  · rfl
  · rfl

theorem nodeOf_modifyBinding (hx : w.bindings.get? b = some x) :
    (w.modifyBinding b g).nodeOf c = if c = b then (g x).node else w.nodeOf c := by
  unfold nodeOf
  rw [get?_modifyBinding hx]
  split
  · rfl
  · rfl

theorem child?_modifyBinding (hx : w.bindings.get? b = some x) {name : String} :
    (w.modifyBinding b g).child? c name
      = if c = b then (g x).children[name]? else w.child? c name := by
  unfold child?
  rw [get?_modifyBinding hx]
  split
  · rfl
  · rfl

theorem parentOf_modifyBinding (hx : w.bindings.get? b = some x) :
    (w.modifyBinding b g).parentOf c
      = if c = b then (g x).parent.filter w.bindings.has else w.parentOf c := by
  have has : (w.modifyBinding b g).bindings.has = w.bindings.has :=
    funext fun _ => has_modifyBinding
  unfold parentOf
  rw [get?_modifyBinding hx, has]
  split
  · rfl
  · rfl

theorem parentOf_of_get? (hx : w.bindings.get? b = some x) :
    w.parentOf b = x.parent.filter w.bindings.has := by
  unfold parentOf
  rw [hx]
  rfl

/-- A change that keeps a binding's parent keeps all parents. -/
theorem parentOf_modifyBinding_of_parent_eq (hx : w.bindings.get? b = some x)
    (hp : (g x).parent = x.parent) : (w.modifyBinding b g).parentOf c = w.parentOf c := by
  rw [parentOf_modifyBinding hx]
  split
  · next h => rw [h, hp, parentOf_of_get? hx]
  · rfl

theorem nodeOf_modifyBinding_of_node_eq (hx : w.bindings.get? b = some x)
    (hn : (g x).node = x.node) : (w.modifyBinding b g).nodeOf c = w.nodeOf c := by
  rw [nodeOf_modifyBinding hx]
  split
  · next h => rw [h, hn, nodeOf_of_get? hx]
  · rfl

theorem nameOf_modifyBinding_of_name_eq (hx : w.bindings.get? b = some x)
    (hn : (g x).name = x.name) : (w.modifyBinding b g).nameOf c = w.nameOf c := by
  rw [nameOf_modifyBinding hx]
  split
  · next h => rw [h, hn, nameOf_of_get? hx]
  · rfl

theorem child?_modifyBinding_of_children_eq (hx : w.bindings.get? b = some x)
    (hc : (g x).children = x.children) {name : String} :
    (w.modifyBinding b g).child? c name = w.child? c name := by
  rw [child?_modifyBinding hx]
  split
  · next h => rw [h, hc, child?_of_get? hx]
  · rfl

theorem isDirectory_modifyBinding {n : NodeId} :
    (w.modifyBinding b g).isDirectory n = w.isDirectory n := rfl

theorem isParent_eq {w' : World} (h : ∀ c, w'.parentOf c = w.parentOf c) :
    w'.IsParent = w.IsParent := by
  funext p c
  unfold IsParent
  rw [h]

/-- A name that is free is taken without anybody being displaced. -/
theorem enter_eq {d : BindingId} {name : String} (free : w.child? d name = none) :
    w.enter d name b = w.modifyBinding d fun x => { x with children := x.children.insert name b } := by
  unfold enter
  simp only [free, Option.toList_none, List.map_nil]
  rw [settle]

end World

/-! ## Changes that the forest does not see -/

/-- A binding without its pins, which is what the forest sees of it. -/
def Binding.unpinned (x : Binding) : Binding := { x with pins := 0 }

/-- Two worlds with the same names, parents, entries and nodes, and with the same
directories among the nodes that are bound. -/
structure SameTree (w w' : World) : Prop where
  next : w.bindings.nextId ≤ w'.bindings.nextId
  bindings : ∀ b, (w'.bindings.get? b).map Binding.unpinned
    = (w.bindings.get? b).map Binding.unpinned
  directory : ∀ {b n}, w.nodeOf b = some n → w'.isDirectory n = w.isDirectory n

namespace SameTree

open World

variable {w w' : World} {b : BindingId}

theorem has (s : SameTree w w') : w'.bindings.has b = w.bindings.has b := by
  unfold Table.has
  rw [← Option.isSome_map (f := Binding.unpinned), s.bindings, Option.isSome_map]

theorem child? (s : SameTree w w') {name : String} : w'.child? b name = w.child? b name := by
  have view : ∀ v : World, v.child? b name
      = ((v.bindings.get? b).map Binding.unpinned).bind fun x => x.children[name]? := by
    intro v
    unfold World.child?
    cases v.bindings.get? b with
    | none => rfl
    | some x => rfl
  rw [view, view, s.bindings]

theorem nameOf (s : SameTree w w') : w'.nameOf b = w.nameOf b := by
  have view : ∀ v : World, v.nameOf b
      = (((v.bindings.get? b).map Binding.unpinned).map (·.name)).getD "" := by
    intro v
    unfold World.nameOf
    cases v.bindings.get? b with
    | none => rfl
    | some x => rfl
  rw [view, view, s.bindings]

theorem nodeOf (s : SameTree w w') : w'.nodeOf b = w.nodeOf b := by
  have view : ∀ v : World, v.nodeOf b
      = ((v.bindings.get? b).map Binding.unpinned).bind (·.node) := by
    intro v
    unfold World.nodeOf
    cases v.bindings.get? b with
    | none => rfl
    | some x => rfl
  rw [view, view, s.bindings]

theorem parentOf (s : SameTree w w') : w'.parentOf b = w.parentOf b := by
  have view : ∀ v : World, v.parentOf b
      = (((v.bindings.get? b).map Binding.unpinned).bind (·.parent)).filter v.bindings.has := by
    intro v
    unfold World.parentOf
    cases v.bindings.get? b with
    | none => rfl
    | some x => rfl
  have hhas : w'.bindings.has = w.bindings.has := funext fun _ => s.has
  rw [view, view, s.bindings, hhas]

theorem bindsDirectory (s : SameTree w w') : w'.bindsDirectory b = w.bindsDirectory b := by
  unfold World.bindsDirectory
  rw [s.nodeOf]
  cases h : w.nodeOf b with
  | none => rfl
  | some n => exact s.directory h

end SameTree

namespace Forest

open World

variable {w w' : World} {b d : BindingId} {x : Binding} {name : String}

theorem congr (f : Forest w) (s : SameTree w w') : Forest w' where
  known := fun {b x p} hx hp => by
    have h := s.bindings b
    rw [hx] at h
    obtain ⟨y, hy, e⟩ := Option.map_eq_some_iff.1 h.symm
    have hparent : y.parent = x.parent := by
      show y.unpinned.parent = x.unpinned.parent
      rw [e]
    exact Nat.lt_of_lt_of_le (f.known hy (hparent.trans hp)) s.next
  entry := fun h => by
    rw [s.child?] at h
    rw [s.nameOf, s.parentOf]
    exact f.entry h
  above := fun h => by
    rw [s.parentOf] at h
    rw [s.bindsDirectory]
    exact f.above h
  once := fun hb hc hn => by
    rw [s.nodeOf] at hb hc
    rw [s.directory hb] at hn
    exact f.once hb hc hn
  checked := fun h => f.checked (s.child? ▸ h)
  bound := fun h => by
    rw [s.child?] at h
    rw [s.nodeOf]
    exact f.bound h
  grounded := by
    rw [isParent_eq fun _ => s.parentOf]
    exact f.grounded

/-- The bindings are untouched, and so are the kinds of the nodes that they stand
for. -/
theorem of_bindings_eq (f : Forest w) (hb : w'.bindings = w.bindings)
    (hn : ∀ b n, w.nodeOf b = some n → w'.isDirectory n = w.isDirectory n) : Forest w' :=
  f.congr ⟨by rw [hb], fun b => by rw [hb], fun h => hn _ _ h⟩

/-- The forest does not see pins. -/
theorem repinned (f : Forest w) {g : Binding → Binding} (hx : w.bindings.get? b = some x)
    (hg : (g x).unpinned = x.unpinned) : Forest (w.modifyBinding b g) := by
  refine f.congr ⟨?_, fun c => ?_, fun _ => rfl⟩
  · unfold modifyBinding
    rw [Table.nextId_modify]
  · rw [get?_modifyBinding hx]
    split
    · next e => rw [e, hx, Option.map_some, Option.map_some, hg]
    · rfl

/-! ## Entries -/

/-- An entry leads to its binding, so the binding is found where it is to be taken
out. -/
theorem detach_eq (f : Forest w) (h : w.child? d name = some b) : w.detach b
    = w.modifyBinding d fun x => { x with children := x.children.erase name } := by
  obtain ⟨hname, hparent⟩ := f.entry h
  unfold detach
  simp only [hparent, hname, if_pos h]

/-- No entry leads to a binding that was taken out. -/
theorem out_of_detach (f : Forest w) (h : w.child? d name = some b) (e : BindingId) (k : String) :
    (w.detach b).child? e k ≠ some b := by
  intro hc
  rw [f.detach_eq h] at hc
  obtain ⟨x, hx, -⟩ := child?_eq_some_iff.1 h
  have was : w.child? e k = some b := by
    rw [child?_modifyBinding hx] at hc
    split at hc
    · next he =>
        rw [getElem?_erase_name] at hc
        split at hc
        · cases hc
        · rw [he, child?_of_get? hx, hc]
    · exact hc
  obtain ⟨hname, hparent⟩ := f.entry h
  obtain ⟨hk, he⟩ := f.entry was
  have hk : k = name := hk.symm.trans hname
  have he : e = d := Option.some.inj (he.symm.trans hparent)
  subst hk he
  rw [child?_modifyBinding hx, if_pos rfl, getElem?_erase_name, if_pos rfl] at hc
  cases hc

theorem known_modifyBinding (f : Forest w) {g : Binding → Binding}
    (hx : w.bindings.get? b = some x) (here : ∀ p, (g x).parent = some p → p < w.bindings.nextId)
    {c p : BindingId} {y : Binding} (hy : (w.modifyBinding b g).bindings.get? c = some y)
    (hp : y.parent = some p) : p < (w.modifyBinding b g).bindings.nextId := by
  unfold modifyBinding
  rw [Table.nextId_modify]
  rw [get?_modifyBinding hx] at hy
  split at hy
  · cases hy
    exact here p hp
  · exact f.known hy hp

/-- A binding keeps all but its entries, and an entry that is new leads to a binding
that bears its name and points here. -/
theorem reentered (f : Forest w) {g : Binding → Binding} (hx : w.bindings.get? b = some x)
    (hname : (g x).name = x.name) (hparent : (g x).parent = x.parent)
    (hnode : (g x).node = x.node)
    (hsub : ∀ (k : String) c, (g x).children[k]? = some c →
      x.children[k]? = some c ∨
        ((w.nameOf c = k ∧ w.parentOf c = some b) ∧ checkName k = .ok () ∧
          ∃ n, w.nodeOf c = some n)) :
    Forest (w.modifyBinding b g) := by
  have child : ∀ {d k c}, (w.modifyBinding b g).child? d k = some c →
      w.child? d k = some c ∨ ((w.nameOf c = k ∧ w.parentOf c = some d) ∧ checkName k = .ok () ∧
        ∃ n, w.nodeOf c = some n) := by
    intro d k c h
    rw [child?_modifyBinding hx] at h
    split at h
    · next e =>
        rw [e, child?_of_get? hx]
        exact hsub k c h
    · exact .inl h
  have parent : ∀ {c}, (w.modifyBinding b g).parentOf c = w.parentOf c :=
    parentOf_modifyBinding_of_parent_eq hx hparent
  have node : ∀ {c}, (w.modifyBinding b g).nodeOf c = w.nodeOf c :=
    nodeOf_modifyBinding_of_node_eq hx hnode
  exact {
    known := f.known_modifyBinding hx fun p hp => f.known hx (hparent ▸ hp)
    entry := fun h => by
      rw [nameOf_modifyBinding_of_name_eq hx hname, parent]
      rcases child h with h | ⟨here, -, -⟩
      · exact f.entry h
      · exact here
    above := fun h => by
      rw [parent] at h
      have := f.above h
      rw [bindsDirectory_iff] at this ⊢
      simpa only [node, isDirectory_modifyBinding] using this
    once := fun hb hc hn => by
      rw [node] at hb hc
      exact f.once hb hc hn
    checked := fun h => by
      rcases child h with h | ⟨-, hc, -⟩
      · exact f.checked h
      · exact hc
    bound := fun h => by
      rw [node]
      rcases child h with h | ⟨-, -, hn⟩
      · exact f.bound h
      · exact hn
    grounded := by
      rw [isParent_eq fun _ => parent]
      exact f.grounded }

/-- A binding gets its entry in its parent. -/
theorem insert (f : Forest w) {c : BindingId} (hx : w.bindings.get? d = some x)
    (hname : w.nameOf c = name) (hparent : w.parentOf c = some d)
    (hchecked : checkName name = .ok ()) (hbound : ∃ n, w.nodeOf c = some n) :
    Forest (w.modifyBinding d fun x => { x with children := x.children.insert name c }) := by
  refine f.reentered hx rfl rfl rfl fun k c' h => ?_
  rw [getElem?_insert_name] at h
  split at h
  · next e =>
      cases h
      rw [e]
      exact .inr ⟨⟨hname, hparent⟩, hchecked, hbound⟩
  · exact .inl h

theorem erase (f : Forest w) (hx : w.bindings.get? d = some x) :
    Forest (w.modifyBinding d fun x => { x with children := x.children.erase name }) := by
  refine f.reentered hx rfl rfl rfl fun k c h => .inl ?_
  rw [getElem?_erase_name] at h
  split at h
  · cases h
  · exact h

theorem clear (f : Forest w) (hx : w.bindings.get? d = some x) :
    Forest (w.modifyBinding d fun x => { x with children := ∅ }) := by
  refine f.reentered hx rfl rfl rfl fun k c h => ?_
  rw [Std.TreeMap.getElem?_emptyc] at h
  cases h

/-! ## Parents -/

/-- The parents stay without end if only one of them changes, to one that is not
below. The walk from there never comes to the changed place, the walk from the
changed place goes there, and every other walk is as before until it meets it. -/
theorem grounded_of_change (f : Forest w)
    (same : ∀ c p, c ≠ b → w'.IsParent p c → w.IsParent p c)
    (new : ∀ p, w'.IsParent p b → ¬ w.Above b p) : WellFounded w'.IsParent := by
  have apart : ∀ c, ¬ w.Above b c → Acc w'.IsParent c := by
    intro c
    induction c using f.grounded.induction with
    | h c ih =>
        intro hc
        refine Acc.intro c fun p hp => ?_
        have hne : c ≠ b := fun e => hc (e ▸ .refl)
        have hp := same c p hne hp
        exact ih p hp fun h => hc (h.tail hp)
  have here : Acc w'.IsParent b := Acc.intro b fun p hp => apart p (new p hp)
  refine ⟨fun c => ?_⟩
  induction c using f.grounded.induction with
  | h c ih =>
      by_cases e : c = b
      · exact e ▸ here
      · exact Acc.intro c fun p hp => ih p (same c p e hp)

/-- A binding without an entry gets another name and another parent. -/
theorem readdress (f : Forest w) (hx : w.bindings.get? b = some x)
    (out : ∀ e k, w.child? e k ≠ some b) (hd : w.bindsDirectory d = true)
    (apart : ¬ w.Above b d) : Forest (w.readdress b d name) := by
  unfold World.readdress
  have child : ∀ {e k}, (w.modifyBinding b fun x =>
      { x with name, parent := some d }).child? e k = w.child? e k :=
    child?_modifyBinding_of_children_eq hx rfl
  have node : ∀ {c}, (w.modifyBinding b fun x =>
      { x with name, parent := some d }).nodeOf c = w.nodeOf c :=
    nodeOf_modifyBinding_of_node_eq hx rfl
  have parent : ∀ {c p}, c ≠ b → (w.modifyBinding b fun x =>
      { x with name, parent := some d }).parentOf c = some p → w.parentOf c = some p := by
    intro c p hne h
    rwa [parentOf_modifyBinding hx, if_neg hne] at h
  have parentHere : ∀ {p}, (w.modifyBinding b fun x =>
      { x with name, parent := some d }).parentOf b = some p → p = d := by
    intro p h
    rw [parentOf_modifyBinding hx, if_pos rfl] at h
    exact (Option.some.inj (Option.filter_eq_some_iff.1 h).1).symm
  exact {
    known := f.known_modifyBinding hx fun p hp => by
      cases hp
      obtain ⟨z, hz⟩ := Table.has_iff.1 (has_of_bindsDirectory hd)
      exact Table.get?_lt hz
    entry := fun {e k c} h => by
      rw [child] at h
      have hne : c ≠ b := fun e => out _ _ (e ▸ h)
      rw [nameOf_modifyBinding hx, if_neg hne, parentOf_modifyBinding hx, if_neg hne]
      exact f.entry h
    above := fun {c p} h => by
      have hp : w.bindsDirectory p = true := by
        by_cases e : c = b
        · rw [e] at h
          rw [parentHere h]
          exact hd
        · exact f.above (parent e h)
      rw [bindsDirectory_iff] at hp ⊢
      simpa only [node, isDirectory_modifyBinding] using hp
    once := fun hb hc hn => by
      rw [node] at hb hc
      exact f.once hb hc hn
    checked := fun h => f.checked (child ▸ h)
    bound := fun h => by
      rw [node]
      exact f.bound (child ▸ h)
    grounded := f.grounded_of_change (fun c p hne => parent hne) fun p hp => by
      rw [parentHere hp]
      exact apart }

/-! ## Bindings that come and go -/

section Push

variable {host : Host} {parent : Option BindingId}

theorem nameOf_pushBinding (hne : b ≠ w.bindings.nextId) :
    World.nameOf { w with host, bindings := w.bindings.push { name, parent } } b
      = w.nameOf b := by
  unfold World.nameOf
  simp only [Table.get?_push_of_ne hne]

theorem child?_pushBinding {k : String} :
    World.child? { w with host, bindings := w.bindings.push { name, parent } } d k
      = w.child? d k := by
  unfold World.child?
  simp only [Table.get?_push]
  split
  · next e =>
      rw [e, Table.get?_nextId]
      exact Std.TreeMap.getElem?_emptyc
  · rfl

theorem nodeOf_pushBinding :
    World.nodeOf { w with host, bindings := w.bindings.push { name, parent } } b
      = w.nodeOf b := by
  unfold World.nodeOf
  simp only [Table.get?_push]
  split
  · next e =>
      rw [e, Table.get?_nextId]
      rfl
  · rfl

theorem bindsDirectory_pushBinding :
    World.bindsDirectory { w with host, bindings := w.bindings.push { name, parent } } b
      = w.bindsDirectory b := by
  unfold World.bindsDirectory
  rw [nodeOf_pushBinding]
  rfl

theorem parentOf_pushBinding (f : Forest w) (hne : b ≠ w.bindings.nextId) :
    World.parentOf { w with host, bindings := w.bindings.push { name, parent } } b
      = w.parentOf b := by
  unfold World.parentOf
  simp only [Table.get?_push, if_neg hne]
  cases hx : w.bindings.get? b with
  | none => rfl
  | some x =>
      cases hp : x.parent with
      | none => simp [hp]
      | some p =>
          have older : p ≠ w.bindings.nextId := Nat.ne_of_lt (f.known hx hp)
          simp only [Option.bind_some, hp, Option.filter, Table.has, Table.get?_push_of_ne older]
          rfl

theorem parentOf_pushBinding_self {p : BindingId} (hp : w.bindings.has p = true) :
    World.parentOf { w with host, bindings := w.bindings.push { name, parent := some p } }
      w.bindings.nextId = some p := by
  unfold World.parentOf
  simp [Table.get?_push_self, Table.has_push, hp]

/-- A new binding is above nothing but itself. -/
theorem above_pushBinding (f : Forest w) {top : BindingId} (hb : w.bindings.has b = true)
    (h : World.Above { w with host, bindings := w.bindings.push { name, parent } } top b) :
    w.Above top b := by
  induction h with
  | refl => exact .refl
  | @tail m c _ hstep ih =>
      obtain ⟨x, hx⟩ := Table.has_iff.1 hb
      rw [IsParent, parentOf_pushBinding f (Nat.ne_of_lt (Table.get?_lt hx))] at hstep
      exact (ih (has_parent hstep)).tail hstep

/-- A new binding has no node and no entry. -/
theorem pushBinding (f : Forest w) (hp : ∀ p, parent = some p → w.bindsDirectory p = true) :
    Forest { w with host, bindings := w.bindings.push { name, parent } } := by
  have there : ∀ p, parent = some p → p < w.bindings.nextId := by
    intro p e
    obtain ⟨z, hz⟩ := Table.has_iff.1 (has_of_bindsDirectory (hp p e))
    exact Table.get?_lt hz
  have lt_of_get? : ∀ {c y}, w.bindings.get? c = some y → c ≠ w.bindings.nextId :=
    fun hy => Nat.ne_of_lt (Table.get?_lt hy)
  have here : ∀ {p}, World.parentOf { w with host, bindings := w.bindings.push { name, parent } }
      w.bindings.nextId = some p → parent = some p := by
    intro p h
    obtain ⟨⟨y, hy, hyp⟩, -⟩ := parentOf_eq_some_iff.1 h
    simp only [Table.get?_push_self] at hy
    cases hy
    exact hyp
  exact {
    known := fun {c y p} hy hyp => by
      simp only [Table.nextId_push]
      rcases Table.get?_of_push hy with ⟨-, rfl⟩ | ⟨-, hy⟩
      · exact Nat.lt_succ_of_lt (there p hyp)
      · exact Nat.lt_succ_of_lt (f.known hy hyp)
    entry := fun {d k c} h => by
      rw [child?_pushBinding] at h
      obtain ⟨hname, hparent⟩ := f.entry h
      obtain ⟨z, hz⟩ := Table.has_iff.1 (has_of_parentOf hparent)
      rw [parentOf_pushBinding f (lt_of_get? hz), nameOf_pushBinding (lt_of_get? hz)]
      exact ⟨hname, hparent⟩
    above := fun {c p} h => by
      rw [bindsDirectory_pushBinding]
      by_cases e : c = w.bindings.nextId
      · rw [e] at h
        exact hp p (here h)
      · rw [parentOf_pushBinding f e] at h
        exact f.above h
    once := fun hb hc hn => by
      rw [nodeOf_pushBinding] at hb hc
      exact f.once hb hc hn
    checked := fun h => by
      rw [child?_pushBinding] at h
      exact f.checked h
    bound := fun h => by
      rw [child?_pushBinding] at h
      rw [nodeOf_pushBinding]
      exact f.bound h
    grounded := f.grounded_of_change (b := w.bindings.nextId)
      (fun c p hne h => by
        rw [IsParent, parentOf_pushBinding f hne] at h
        exact h)
      fun p h => by
        intro habove
        rcases Relation.ReflTransGen.cases_head habove with e | ⟨c, hc, -⟩
        · exact absurd e.symm (Nat.ne_of_lt (there p (here h)))
        · obtain ⟨z, hz⟩ := Table.has_iff.1 (has_parent hc)
          exact lt_of_get? hz rfl }

end Push

/-- A binding that no entry leads to may go. -/
theorem removeBinding (f : Forest w) (out : ∀ e k, w.child? e k ≠ some b) :
    Forest (w.removeBinding b) := by
  have found : ∀ {c}, (w.removeBinding b).bindings.get? c
      = if c = b then none else w.bindings.get? c := Table.get?_erase ..
  have get : ∀ {c y}, (w.removeBinding b).bindings.get? c = some y →
      c ≠ b ∧ w.bindings.get? c = some y := by
    intro c y h
    rw [found] at h
    split at h
    · cases h
    · next hne => exact ⟨hne, h⟩
  have has : ∀ {c}, (w.removeBinding b).bindings.has c = true →
      c ≠ b ∧ w.bindings.has c = true := by
    intro c h
    obtain ⟨y, hy⟩ := Table.has_iff.1 h
    exact ⟨(get hy).1, Table.has_of_get? (get hy).2⟩
  have node : ∀ {c}, c ≠ b → (w.removeBinding b).nodeOf c = w.nodeOf c := by
    intro c hne
    unfold nodeOf
    rw [found, if_neg hne]
  have parent : ∀ {c p}, (w.removeBinding b).parentOf c = some p → w.parentOf c = some p := by
    intro c p h
    obtain ⟨⟨y, hy, hyp⟩, hhas⟩ := parentOf_eq_some_iff.1 h
    exact parentOf_eq_some_iff.2 ⟨⟨y, (get hy).2, hyp⟩, (has hhas).2⟩
  have child : ∀ {d k c}, (w.removeBinding b).child? d k = some c →
      d ≠ b ∧ w.child? d k = some c := by
    intro d k c h
    obtain ⟨y, hy, hc⟩ := child?_eq_some_iff.1 h
    exact ⟨(get hy).1, child?_eq_some_iff.2 ⟨y, (get hy).2, hc⟩⟩
  exact {
    known := fun hy hp => by
      unfold World.removeBinding
      rw [Table.nextId_erase]
      exact f.known (get hy).2 hp
    entry := fun {d k c} h => by
      obtain ⟨hd, h⟩ := child h
      have hc : c ≠ b := fun e => out d k (e ▸ h)
      obtain ⟨hname, hparent⟩ := f.entry h
      obtain ⟨⟨y, hy, hyp⟩, hhas⟩ := parentOf_eq_some_iff.1 hparent
      refine ⟨?_, parentOf_eq_some_iff.2 ⟨⟨y, by rw [found, if_neg hc, hy], hyp⟩, ?_⟩⟩
      · rw [← hname, nameOf_of_get? hy, nameOf_of_get? (x := y)]
        rw [found, if_neg hc, hy]
      · unfold Table.has at hhas ⊢
        rw [found, if_neg hd, hhas]
    above := fun {c p} h => by
      have hp := (has (has_parent h)).1
      obtain ⟨n, hn, hdir⟩ := bindsDirectory_iff.1 (f.above (parent h))
      exact bindsDirectory_iff.2 ⟨n, (node hp).trans hn, hdir⟩
    once := fun {c d n} hc hd hn => by
      obtain ⟨y, hy, -⟩ := nodeOf_eq_some_iff.1 hc
      obtain ⟨z, hz, -⟩ := nodeOf_eq_some_iff.1 hd
      rw [node (get hy).1] at hc
      rw [node (get hz).1] at hd
      exact f.once hc hd hn
    checked := fun h => f.checked (child h).2
    bound := fun {d k c} h => by
      obtain ⟨-, h⟩ := child h
      rw [node fun e => out d k (e ▸ h)]
      exact f.bound h
    grounded := Subrelation.wf (fun {p c} h => parent h) f.grounded }

/-- A binding gets its node, and another name if no entry leads to it. A directory
must not have had a binding before. -/
theorem setNode (f : Forest w) {n : NodeId} {g : Binding → Binding}
    (hx : w.bindings.get? b = some x) (hparent : (g x).parent = x.parent)
    (hchildren : (g x).children = x.children) (hnode : (g x).node = some n)
    (hname : ∀ e k, w.child? e k = some b → (g x).name = x.name)
    (free : x.node = none) (alone : w.isDirectory n = true → ∀ c, w.nodeOf c ≠ some n) :
    Forest (w.modifyBinding b g) := by
  have parent : ∀ {c}, (w.modifyBinding b g).parentOf c = w.parentOf c :=
    parentOf_modifyBinding_of_parent_eq hx hparent
  have child : ∀ {d k}, (w.modifyBinding b g).child? d k = w.child? d k :=
    child?_modifyBinding_of_children_eq hx hchildren
  have node : ∀ {c m}, (w.modifyBinding b g).nodeOf c = some m →
      (c = b ∧ m = n) ∨ (c ≠ b ∧ w.nodeOf c = some m) := by
    intro c m h
    rw [nodeOf_modifyBinding hx, hnode] at h
    split at h
    · next e => exact .inl ⟨e, (Option.some.inj h).symm⟩
    · next hne => exact .inr ⟨hne, h⟩
  exact {
    known := f.known_modifyBinding hx fun p hp => f.known hx (hparent ▸ hp)
    entry := fun {e k c} h => by
      rw [child] at h
      rw [parent, nameOf_modifyBinding hx]
      split
      · next e =>
          subst e
          rw [hname _ _ h, ← nameOf_of_get? hx]
          exact f.entry h
      · exact f.entry h
    above := fun {c p} h => by
      obtain ⟨m, hm, hdir⟩ := bindsDirectory_iff.1 (f.above (parent ▸ h))
      have hne : p ≠ b := by
        rintro rfl
        rw [nodeOf_of_get? hx, free] at hm
        cases hm
      refine bindsDirectory_iff.2 ⟨m, ?_, hdir⟩
      rw [nodeOf_modifyBinding hx, if_neg hne, hm]
    once := fun {c d m} hc hd hm => by
      rcases node hc with ⟨cb, mn⟩ | ⟨-, hc⟩
      · rcases node hd with ⟨db, -⟩ | ⟨-, hd⟩
        · rw [cb, db]
        · rw [mn] at hd hm
          exact absurd hd (alone hm d)
      · rcases node hd with ⟨-, mn⟩ | ⟨-, hd⟩
        · rw [mn] at hc hm
          exact absurd hc (alone hm c)
        · exact f.once hc hd hm
    checked := fun h => f.checked (child ▸ h)
    bound := fun h => by
      rw [nodeOf_modifyBinding hx]
      split
      · exact ⟨n, hnode⟩
      · exact f.bound (child ▸ h)
    grounded := by
      rw [isParent_eq fun _ => parent]
      exact f.grounded }

end Forest

end Memfs
