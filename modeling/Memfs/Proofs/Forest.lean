import Memfs.Naming
import Memfs.Proofs.Owners
import Mathlib.Data.List.Nodup
import Mathlib.Logic.Relation

/-!
# The bindings form a forest

A name, a pointer to the parent and an entry in the parent's table are three
fields that are written one after the other. `Forest` says how they agree whenever
an operation is over, and that going from parent to parent comes to an end.

Bindings that were taken out of their directory keep their pointer to it. So the
pointers, and not the entries, are what has to be free of cycles: a directory that
was removed may still be the place that another one is moved to, and only the walk
along the pointers can tell that it lies below what is moved.
-/

namespace Memfs

namespace World

variable {w : World}

/-- `p` is the parent of `b`. -/
def IsParent (w : World) (p b : BindingId) : Prop := w.parentOf b = some p

/-- `top` is `b` or is reached from it by going from parent to parent. -/
def Above (w : World) (top b : BindingId) : Prop := Relation.ReflTransGen w.IsParent top b

/-- A name in `d` leads to `c`. -/
def Entered (w : World) (d c : BindingId) : Prop := ∃ name, w.child? d name = some c

/-- `b` is the root of the instance or is reached from it by going from entry to entry. -/
def InTree (w : World) (i : InstanceId) (b : BindingId) : Prop :=
  ∃ inst root, w.instances.get? i = some inst ∧ inst.root = some root ∧
    Relation.ReflTransGen w.Entered root b

namespace InTree

variable {i : InstanceId} {inst : Instance} {b d c : BindingId}

theorem child (h : w.InTree i d) (entered : w.Entered d c) : w.InTree i c := by
  obtain ⟨inst, root, hi, hroot, reached⟩ := h
  exact ⟨inst, root, hi, hroot, reached.tail entered⟩

/-- A binding of a tree is the root or is in a directory of the tree. -/
theorem cases_top (h : w.InTree i b) (hi : w.instances.get? i = some inst) :
    inst.root = some b ∨ ∃ d, w.InTree i d ∧ w.Entered d b := by
  obtain ⟨other, root, hother, hroot, reached⟩ := h
  cases hi.symm.trans hother
  rcases Relation.ReflTransGen.cases_tail reached with rfl | ⟨d, above, entered⟩
  · exact .inl hroot
  · exact .inr ⟨d, ⟨inst, root, hi, hroot, above⟩, entered⟩

end InTree

theorem parentOf_eq_some_iff {b p : BindingId} :
    w.parentOf b = some p ↔
      (∃ x, w.bindings.get? b = some x ∧ x.parent = some p) ∧ w.bindings.has p = true := by
  unfold parentOf
  rw [Option.filter_eq_some_iff, Option.bind_eq_some_iff]

theorem nodeOf_eq_some_iff {b : BindingId} {n : NodeId} :
    w.nodeOf b = some n ↔ ∃ x, w.bindings.get? b = some x ∧ x.node = some n := by
  unfold nodeOf
  rw [Option.bind_eq_some_iff]

theorem child?_eq_some_iff {d c : BindingId} {name : String} :
    w.child? d name = some c ↔ ∃ x, w.bindings.get? d = some x ∧ x.children[name]? = some c := by
  unfold child?
  rw [Option.bind_eq_some_iff]

theorem nameOf_of_get? {b : BindingId} {x : Binding} (h : w.bindings.get? b = some x) :
    w.nameOf b = x.name := by
  unfold nameOf
  rw [h]
  rfl

theorem nodeOf_of_get? {b : BindingId} {x : Binding} (h : w.bindings.get? b = some x) :
    w.nodeOf b = x.node := by
  unfold nodeOf
  rw [h]
  rfl

theorem child?_of_get? {d : BindingId} {x : Binding} {name : String}
    (h : w.bindings.get? d = some x) : w.child? d name = x.children[name]? := by
  unfold child?
  rw [h]
  rfl

theorem has_of_parentOf {b p : BindingId} (h : w.parentOf b = some p) :
    w.bindings.has b = true := by
  obtain ⟨⟨x, hx, -⟩, -⟩ := parentOf_eq_some_iff.1 h
  exact Table.has_of_get? hx

theorem has_parent {b p : BindingId} (h : w.parentOf b = some p) : w.bindings.has p = true :=
  (parentOf_eq_some_iff.1 h).2

theorem owned_of_child? {d c : BindingId} {name : String} (h : w.child? d name = some c) :
    w.Owned (.binding c) := by
  obtain ⟨x, hx, hc⟩ := child?_eq_some_iff.1 h
  exact ⟨.binding d, x, hx, name, hc⟩

theorem owned_of_nodeOf {b : BindingId} {n : NodeId} (h : w.nodeOf b = some n) :
    w.Owned (.node n) := by
  obtain ⟨x, hx, hn⟩ := nodeOf_eq_some_iff.1 h
  exact ⟨.binding b, x, hx, hn⟩

theorem bindsDirectory_of_nodeOf {b : BindingId} {n : NodeId} (h : w.nodeOf b = some n) :
    w.bindsDirectory b = w.isDirectory n := by
  unfold bindsDirectory
  rw [h]
  rfl

theorem bindsDirectory_iff {b : BindingId} :
    w.bindsDirectory b = true ↔ ∃ n, w.nodeOf b = some n ∧ w.isDirectory n = true := by
  unfold bindsDirectory
  rw [Option.any_eq_true]

theorem has_of_bindsDirectory {b : BindingId} (h : w.bindsDirectory b = true) :
    w.bindings.has b = true := by
  obtain ⟨n, hn, -⟩ := bindsDirectory_iff.1 h
  obtain ⟨x, hx, -⟩ := nodeOf_eq_some_iff.1 hn
  exact Table.has_of_get? hx

end World

/-- How names, parents and entries agree. -/
structure Forest (w : World) : Prop where
  /-- A parent was there when its number was noted, so no later binding has it. -/
  known : ∀ {b x p}, w.bindings.get? b = some x → x.parent = some p → p < w.bindings.nextId
  /-- An entry leads to a binding that bears its name and points back. -/
  entry : ∀ {d name c}, w.child? d name = some c → w.nameOf c = name ∧ w.parentOf c = some d
  above : ∀ {b p}, w.parentOf b = some p → w.bindsDirectory p = true
  /-- A directory has one binding. -/
  once : ∀ {b c n}, w.nodeOf b = some n → w.nodeOf c = some n → w.isDirectory n = true → b = c
  checked : ∀ {d name c}, w.child? d name = some c → checkName name = .ok ()
  /-- No entry leads to a negative binding. -/
  bound : ∀ {d name c}, w.child? d name = some c → ∃ n, w.nodeOf c = some n
  grounded : WellFounded w.IsParent

/-! ## Going up -/

namespace World

variable {w : World} {b p top : BindingId}

theorem above_iff_of_parentOf (h : w.parentOf b = some p) :
    w.Above top b ↔ top = b ∨ w.Above top p := by
  constructor
  · intro habove
    rcases Relation.ReflTransGen.cases_tail habove with rfl | ⟨c, hc, hparent⟩
    · exact .inl rfl
    · have : c = p := Option.some.inj ((Eq.symm hparent).trans h)
      exact .inr (this ▸ hc)
  · rintro (rfl | habove)
    · exact .refl
    · exact habove.tail h

theorem above_iff_of_no_parent (h : w.parentOf b = none) : w.Above top b ↔ top = b := by
  constructor
  · intro habove
    rcases Relation.ReflTransGen.cases_tail habove with rfl | ⟨c, -, hparent⟩
    · rfl
    · rw [IsParent, h] at hparent
      cases hparent
  · rintro rfl
    exact .refl

theorem above_of_mem_ancestors {fuel : Nat} :
    ∀ {b}, top ∈ w.ancestors fuel b → Relation.TransGen w.IsParent top b := by
  induction fuel with
  | zero =>
      intro b h
      cases h
  | succ fuel ih =>
      intro b h
      rw [ancestors] at h
      cases hp : w.parentOf b with
      | none =>
          rw [hp] at h
          cases h
      | some p =>
          rw [hp] at h
          rcases List.mem_cons.1 h with rfl | h
          · exact .single hp
          · exact (ih h).tail hp

/-- A walk that stopped before its fuel was spent has met everything above. -/
theorem mem_lineage_of_length_lt {fuel : Nat} :
    ∀ {b}, (w.ancestors fuel b).length < fuel → w.Above top b →
      top = b ∨ top ∈ w.ancestors fuel b := by
  induction fuel with
  | zero =>
      intro b h
      cases h
  | succ fuel ih =>
      intro b h habove
      rw [ancestors] at h ⊢
      cases hp : w.parentOf b with
      | none => exact .inl ((above_iff_of_no_parent hp).1 habove)
      | some p =>
          rw [hp] at h
          simp only [List.length_cons] at h
          rcases (above_iff_of_parentOf hp).1 habove with e | habove
          · exact .inl e
          · refine .inr (List.mem_cons.2 ?_)
            exact ih (by omega) habove

theorem lt_of_mem_ancestors {fuel : Nat} (h : top ∈ w.ancestors fuel b) :
    top < w.bindings.nextId := by
  obtain ⟨c, hparent, -⟩ := Relation.TransGen.head'_iff.1 (above_of_mem_ancestors h)
  obtain ⟨a, ha⟩ := Table.has_iff.1 (has_parent hparent)
  exact Table.get?_lt ha

end World

namespace Forest

open World

variable {w w' : World} {b p top : BindingId}

/-- Nothing is above itself. -/
theorem not_above_self (f : Forest w) : ¬ Relation.TransGen w.IsParent b b :=
  (WellFounded.transGen f.grounded).irrefl.irrefl b

theorem nodup_lineage (f : Forest w) {fuel : Nat} :
    ∀ {b}, (b :: w.ancestors fuel b).Nodup := by
  induction fuel with
  | zero =>
      intro b
      simp [ancestors]
  | succ fuel ih =>
      intro b
      have hself : b ∉ w.ancestors (fuel + 1) b := fun h =>
        f.not_above_self (above_of_mem_ancestors h)
      refine List.nodup_cons.2 ⟨hself, ?_⟩
      rw [ancestors]
      cases w.parentOf b with
      | none => exact List.nodup_nil
      | some p => exact ih

/-- The walk along the parents is over before its fuel is. There are only so many
bindings, and it meets none of them twice. -/
theorem length_ancestors_lt (f : Forest w) (hb : b < w.bindings.nextId) :
    (w.ancestors w.bindings.nextId b).length < w.bindings.nextId := by
  have hsub : (b :: w.ancestors w.bindings.nextId b) ⊆ List.range w.bindings.nextId := by
    intro c hc
    rcases List.mem_cons.1 hc with rfl | hc
    · exact List.mem_range.2 hb
    · exact List.mem_range.2 (lt_of_mem_ancestors hc)
  have hlen := (f.nodup_lineage.subperm hsub).length_le
  rw [List.length_cons, List.length_range] at hlen
  omega

/-- The walk that the program makes finds all that is above a binding. -/
theorem isBelow_iff (f : Forest w) : w.isBelow b top = true ↔ w.Above top b := by
  unfold isBelow lineage
  rw [List.contains_iff_mem, List.mem_cons]
  constructor
  · rintro (rfl | h)
    · exact .refl
    · exact (above_of_mem_ancestors h).to_reflTransGen
  · intro habove
    rcases Nat.lt_or_ge b w.bindings.nextId with hlt | hge
    · exact mem_lineage_of_length_lt (f.length_ancestors_lt hlt) habove
    · refine .inl ((above_iff_of_no_parent ?_).1 habove)
      unfold parentOf
      rw [Table.get?_of_nextId_le hge]
      rfl

theorem not_above_of_isBelow_eq_false (f : Forest w) (h : w.isBelow b top = false) :
    ¬ w.Above top b := by
  rw [← f.isBelow_iff, h]
  exact Bool.false_ne_true

/-- More fuel finds no more parents. -/
theorem ancestors_eq_of_le (f : Forest w) {fuel : Nat} (hle : w.bindings.nextId ≤ fuel) :
    w.ancestors fuel b = w.ancestors w.bindings.nextId b := by
  have general : ∀ (k n : Nat) (b : BindingId), (w.ancestors n b).length < n →
      w.ancestors (n + k) b = w.ancestors n b := by
    intro k n
    induction n with
    | zero => intro b h; cases h
    | succ n ih =>
        intro b h
        rw [show n + 1 + k = n + k + 1 by omega, ancestors, ancestors]
        rw [ancestors] at h
        cases hp : w.parentOf b with
        | none => rfl
        | some p =>
            rw [hp] at h
            simp only [List.length_cons] at h
            simp only
            rw [ih p (by omega)]
  rcases Nat.lt_or_ge b w.bindings.nextId with hlt | hge
  · obtain ⟨k, rfl⟩ := Nat.exists_eq_add_of_le hle
    exact general k _ b (f.length_ancestors_lt hlt)
  · have hp : w.parentOf b = none := by
      unfold parentOf
      rw [Table.get?_of_nextId_le hge]
      rfl
    have ends : ∀ n, w.ancestors n b = [] := by
      intro n
      cases n with
      | zero => rfl
      | succ n => rw [ancestors, hp]
    rw [ends, ends]

theorem ancestors_of_parentOf (f : Forest w) (h : w.parentOf b = some p) :
    w.ancestors w.bindings.nextId b = p :: w.ancestors w.bindings.nextId p := by
  rw [← f.ancestors_eq_of_le (Nat.le_succ w.bindings.nextId), ancestors, h]

/-- Going down from entry to entry comes to an end as well: with every step there is
one binding more above. -/
theorem grounded_below (f : Forest w) :
    WellFounded fun c d => ∃ name, w.child? d name = some c := by
  refine Subrelation.wf (r := InvImage (· < ·) fun b =>
    w.bindings.nextId - (w.ancestors w.bindings.nextId b).length) ?_ (InvImage.wf _ wellFounded_lt)
  rintro c d ⟨name, h⟩
  have hparent := (f.entry h).2
  obtain ⟨x, hx⟩ := Table.has_iff.1 (has_of_parentOf hparent)
  have hlt := f.length_ancestors_lt (Table.get?_lt hx)
  have hlen := congrArg List.length (f.ancestors_of_parentOf hparent)
  rw [List.length_cons] at hlen
  show _ - _ < _ - _
  omega

end Forest

/-! ## Going down by names -/

namespace World

variable {w : World} {cur d c : BindingId} {name : String} {names : List String}

/-- Where names lead from a binding. -/
def descend (w : World) : BindingId → List String → Option BindingId
  | b, [] => some b
  | b, name :: rest => (w.child? b name).bind (w.descend · rest)

theorem descend_append {more : List String} :
    w.descend cur (names ++ more) = (w.descend cur names).bind (w.descend · more) := by
  induction names generalizing cur with
  | nil => rfl
  | cons name rest ih =>
      rw [List.cons_append, descend, descend]
      cases w.child? cur name with
      | none => rfl
      | some b => exact ih

theorem descend_snoc :
    w.descend cur (names ++ [name]) = some c ↔
      ∃ d, w.descend cur names = some d ∧ w.child? d name = some c := by
  rw [descend_append, Option.bind_eq_some_iff]
  simp only [descend, Option.bind_fun_some]

/-- Names lead to all that is in the tree. -/
theorem exists_descend (h : Relation.ReflTransGen w.Entered cur d) :
    ∃ names, w.descend cur names = some d := by
  induction h with
  | refl => exact ⟨[], rfl⟩
  | tail _ last ih =>
      obtain ⟨names, led⟩ := ih
      obtain ⟨name, entry⟩ := last
      exact ⟨names ++ [name], descend_snoc.2 ⟨_, led, entry⟩⟩

/-- The names on the way down are those that were checked. -/
theorem checked_of_descend (f : Forest w) (led : w.descend cur names = some d) :
    ∀ name ∈ names, checkName name = .ok () := by
  induction names generalizing cur with
  | nil => intro name h; cases h
  | cons first rest ih =>
      rw [descend, Option.bind_eq_some_iff] at led
      obtain ⟨b, entry, led⟩ := led
      intro name h
      rcases List.mem_cons.1 h with rfl | h
      · exact f.checked entry
      · exact ih led name h

end World

end Memfs
