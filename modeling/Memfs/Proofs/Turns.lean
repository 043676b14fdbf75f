import Memfs.Proofs.Aliases
import Memfs.Proofs.Creation
import Memfs.Proofs.Housekeeping
import Memfs.Proofs.Renames
import Memfs.Proofs.Steady.Mounts

/-!
# What a call does to a file

There are five ways in which a call can leave a file. It is as it was; or it has one name
more and one link more, which is the work of a link; or it has one of each less, by an unlink
or because it was replaced; or it is new and has a name; or it is new, was opened and has no
name. `Turn` lists them with the conditions under which they come about, so whoever follows a
file through a run looks at five cases and at no operation.

A call that is no operation adds no name, and leaves every count as it is. But it can take
names away, with a directory that was removed or with a whole tree, and then the counts show
names that are gone. `Call.Loses` says that this happens.
-/

namespace Memfs

open World

/-! ## Calls that matter to a file -/

/-- The call is to give the node of a binding another name, and succeeds. -/
def Call.Links (w : World) (n : NodeId) (call : Call) : Prop :=
  ∃ old dir name, call = .operate (.link old dir name) ∧ w.nodeOf old = some n ∧
    (Operation.link old dir name).succeeds w = true

/-- The call opens a file without a name, and the node that it makes for it is `n`. -/
def Call.MakesUnnamed (w : World) (n : NodeId) (exclusive : Bool) (call : Call) : Prop :=
  ∃ dir mode flags, call = .operate (.openUnnamed dir mode flags) ∧
    flags.has .exclusive = exclusive ∧ n = w.nodes.nextId ∧
    (Operation.openUnnamed dir mode flags).succeeds w = true

/-- The call is no operation, and a name of the node is gone after it. -/
def Call.Loses (w : World) (n : NodeId) (call : Call) : Prop :=
  (∀ op, call ≠ .operate op) ∧ ∃ c, w.Alias n c ∧ ¬ (w.after call).Alias n c

/-- How a call that leads from `w` to `v` has left a file with the links `t`. -/
inductive Turn (w v : World) (call : Call) (n : NodeId) (t : LinkCount) : Prop
  /-- It has the same links, and no name that it did not have. -/
  | kept (before : w.linkCount n = some t) (old : ∀ c, v.Alias n c → w.Alias n c)
      (lost : ∀ c, w.Alias n c → ¬ v.Alias n c → call.Loses w n) : Turn w v call n t
  /-- It has one link and one name more. -/
  | linked {s : LinkCount} {b : BindingId} (before : w.linkCount n = some s)
      (asked : call.Links w n) (allowed : s.links ≠ 0 ∨ s.linkable = true) (more : t = s.addLink)
      (fresh : ¬ w.Alias n b) (names : ∀ c, v.Alias n c ↔ c = b ∨ w.Alias n c) : Turn w v call n t
  /-- It has one link and one name less. -/
  | unlinked {s : LinkCount} {b : BindingId} (before : w.linkCount n = some s)
      (less : t = s.dropLink) (taken : w.Alias n b)
      (names : ∀ c, v.Alias n c ↔ w.Alias n c ∧ c ≠ b) : Turn w v call n t
  /-- It was made with a name. -/
  | born {b : BindingId} (unborn : w.nodes.nextId ≤ n) (one : t = ⟨1, false⟩)
      (named : v.Alias n b) : Turn w v call n t
  /-- It was made without a name. -/
  | unnamed {exclusive : Bool} (unborn : w.nodes.nextId ≤ n)
      (made : call.MakesUnnamed w n exclusive) (none : t = ⟨0, !exclusive⟩)
      (names : ∀ c, ¬ v.Alias n c) : Turn w v call n t

variable {w v u : World} {n m d : NodeId} {a b c dir dirA dirB : BindingId}
  {name k nameA nameB : String} {s t : LinkCount} {x : Node} {call : Call} {op : Operation}

/-! ## Names that come, go and move -/

namespace World

/-- A binding is in one place at most. -/
theorem place_unique (f : Forest w) {e : BindingId} (h : w.child? dir name = some c)
    (other : w.child? e k = some c) : e = dir ∧ k = name :=
  ⟨Option.some.inj ((f.entry other).2.symm.trans (f.entry h).2),
    (f.entry other).1.symm.trans (f.entry h).1⟩

/-- A binding without a node gets one, and comes into a directory. -/
theorem alias_of_entry (node : ∀ c, v.nodeOf c = if c = b then some m else w.nodeOf c)
    (child : ∀ e k, v.child? e k = if e = dir ∧ k = name then some b else w.child? e k)
    (free : w.child? dir name = none) (negative : w.nodeOf b = none) :
    v.Alias n c ↔ (n = m ∧ c = b) ∨ w.Alias n c := by
  constructor
  · rintro ⟨hn, e, k, hk⟩
    rw [node] at hn
    rw [child] at hk
    split at hn
    · next same => exact .inl ⟨(Option.some.inj hn).symm, same⟩
    · next other =>
        split at hk
        · exact absurd (Option.some.inj hk).symm other
        · exact .inr ⟨hn, e, k, hk⟩
  · rintro (⟨rfl, rfl⟩ | ⟨hn, e, k, hk⟩)
    · exact ⟨by rw [node, if_pos rfl], dir, name, by rw [child, if_pos ⟨rfl, rfl⟩]⟩
    · refine ⟨?_, e, k, ?_⟩
      · rw [node, if_neg, hn]
        rintro rfl
        cases negative.symm.trans hn
      · rw [child, if_neg, hk]
        rintro ⟨rfl, rfl⟩
        cases free.symm.trans hk

namespace Gained

variable {links : UInt32}

theorem negative (h : w.Gained v dir d name b m x links) : w.nodeOf b = none := by
  unfold World.nodeOf
  rw [h.unborn.1]
  rfl

theorem nodeOf (h : w.Gained v dir d name b m x links) :
    v.nodeOf c = if c = b then some m else w.nodeOf c := by
  split
  · next same => exact (h.alone c).2 same
  · next other =>
      unfold World.nodeOf
      rw [h.bindings c other]
      split
      · cases w.bindings.get? c with
        | none => rfl
        | some y => rfl
      · rfl

/-- What is created has a name, and no other name has come. -/
theorem names (h : w.Gained v dir d name b m x links) :
    v.Alias n c ↔ (n = m ∧ c = b) ∨ w.Alias n c :=
  alias_of_entry (fun _ => h.nodeOf) h.entries h.free h.negative

end Gained

/-- A binding that is in no directory is nobody's name, whatever node it gets. -/
theorem alias_of_unentered (child : ∀ e k, v.child? e k = w.child? e k)
    (node : ∀ c, c ≠ b → v.nodeOf c = w.nodeOf c) (out : ∀ e, ¬ w.Entered e b) :
    v.Alias n c ↔ w.Alias n c := by
  unfold Alias Entered
  simp only [child]
  refine and_congr_left fun entered => ?_
  rw [node]
  rintro rfl
  obtain ⟨e, entered⟩ := entered
  exact out e entered

/-- A binding goes out of a directory, and may lose its node. -/
theorem alias_of_removal (f : Forest w) (hb : w.child? dir name = some b)
    (child : ∀ e k, v.child? e k = if e = dir ∧ k = name then none else w.child? e k)
    (node : ∀ c, v.nodeOf c = w.nodeOf c ∨ c = b ∧ v.nodeOf c = none) :
    v.Alias n c ↔ w.Alias n c ∧ c ≠ b := by
  constructor
  · rintro ⟨hn, e, k, hk⟩
    rw [child] at hk
    split at hk
    · cases hk
    · next elsewhere =>
        have other : c ≠ b := fun same => elsewhere (place_unique f hb (same ▸ hk))
        exact ⟨⟨((node c).resolve_right fun gone => other gone.1).symm.trans hn, e, k, hk⟩, other⟩
  · rintro ⟨⟨hn, e, k, hk⟩, other⟩
    refine ⟨((node c).resolve_right fun gone => other gone.1).trans hn, e, k, ?_⟩
    rw [child, if_neg, hk]
    rintro ⟨rfl, rfl⟩
    exact other (Option.some.inj (hk.symm.trans hb))

/-- A name that moves takes the place of the one that is there. -/
theorem Shifted.alias (h : w.Shifted v dirA nameA dirB nameB a) (f : Forest w)
    (ha : w.child? dirA nameA = some a) (differ : w.child? dirB nameB ≠ some a) :
    v.Alias n c ↔ w.Alias n c ∧ w.child? dirB nameB ≠ some c := by
  constructor
  · rintro ⟨hn, e, k, hk⟩
    have free : w.child? dirB nameB ≠ some c := by
      intro taken
      rw [h.child] at hk
      split at hk
      · exact differ (hk ▸ taken)
      · next elsewhere =>
          split at hk
          · cases hk
          · exact elsewhere (place_unique f taken hk)
    refine ⟨⟨((h.node c).resolve_right free).symm.trans hn, ?_⟩, free⟩
    rw [h.child] at hk
    split at hk
    · cases hk
      exact ⟨dirA, nameA, ha⟩
    · split at hk
      · cases hk
      · exact ⟨e, k, hk⟩
  · rintro ⟨⟨hn, e, k, hk⟩, free⟩
    refine ⟨((h.node c).resolve_right free).trans hn, ?_⟩
    by_cases same : c = a
    · exact ⟨dirB, nameB, by rw [h.child, if_pos ⟨rfl, rfl⟩, same]⟩
    · refine ⟨e, k, ?_⟩
      rw [h.child, if_neg, if_neg, hk]
      · rintro ⟨rfl, rfl⟩
        exact same (Option.some.inj (hk.symm.trans ha))
      · rintro ⟨rfl, rfl⟩
        exact free hk

/-- Names that change places are names still. -/
theorem alias_of_exchange (ha : w.child? dirA nameA = some a) (hb : w.child? dirB nameB = some b)
    (child : ∀ e k, v.child? e k = if e = dirA ∧ k = nameA then some b
      else if e = dirB ∧ k = nameB then some a else w.child? e k)
    (node : ∀ c, v.nodeOf c = w.nodeOf c) (places : ¬ (dirA = dirB ∧ nameA = nameB)) :
    v.Alias n c ↔ w.Alias n c := by
  unfold Alias
  rw [node]
  refine and_congr_right fun _ => ⟨?_, ?_⟩
  · rintro ⟨e, k, hk⟩
    rw [child] at hk
    split at hk
    · cases hk
      exact ⟨dirB, nameB, hb⟩
    · split at hk
      · cases hk
        exact ⟨dirA, nameA, ha⟩
      · exact ⟨e, k, hk⟩
  · rintro ⟨e, k, hk⟩
    by_cases first : e = dirA ∧ k = nameA
    · obtain ⟨rfl, rfl⟩ := first
      cases ha.symm.trans hk
      exact ⟨dirB, nameB, by rw [child, if_neg fun h => places ⟨h.1.symm, h.2.symm⟩,
        if_pos ⟨rfl, rfl⟩]⟩
    · by_cases second : e = dirB ∧ k = nameB
      · obtain ⟨rfl, rfl⟩ := second
        cases hb.symm.trans hk
        exact ⟨dirA, nameA, by rw [child, if_pos ⟨rfl, rfl⟩]⟩
      · exact ⟨e, k, by rw [child, if_neg first, if_neg second, hk]⟩

/-- Files have the links and the names that they had. -/
structure Undisturbed (w v : World) : Prop where
  counts : ∀ {n t}, v.linkCount n = some t → w.linkCount n = some t
  names : ∀ {n c}, v.Alias n c ↔ w.Alias n c

/-- A name of the node is gone, and a link with it. -/
structure Withdrawn (w v : World) (b : BindingId) (m : NodeId) : Prop where
  taken : w.Alias m b
  counts : ∀ {n t}, v.linkCount n = some t →
    (if n = m then (w.linkCount n).map .dropLink else w.linkCount n) = some t
  names : ∀ {n c}, v.Alias n c ↔ w.Alias n c ∧ c ≠ b

/-- A fresh binding is a name of the node, and gives it a link. -/
structure Linked (w v : World) (b : BindingId) (m : NodeId) : Prop where
  negative : w.nodeOf b = none
  allowed : ∀ {s}, w.linkCount m = some s → s.links ≠ 0 ∨ s.linkable = true
  counts : ∀ {n t}, v.linkCount n = some t →
    (if n = m then (w.linkCount n).map .addLink else w.linkCount n) = some t
  names : ∀ {n c}, v.Alias n c ↔ (n = m ∧ c = b) ∨ w.Alias n c

/-- A file is made that has no name and no link. -/
structure Opened (w v : World) (exclusive : Bool) : Prop where
  counts : ∀ {n}, v.linkCount n
    = if n = w.nodes.nextId then some ⟨0, !exclusive⟩ else w.linkCount n
  names : ∀ {n c}, v.Alias n c ↔ w.Alias n c

theorem Undisturbed.of_bindings (bindings : v.bindings = w.bindings)
    (counts : ∀ {n}, v.linkCount n = w.linkCount n) : w.Undisturbed v where
  counts h := counts.symm.trans h
  names := by
    refine alias_congr (fun d k => ?_) fun c => ?_
    · unfold child?
      rw [bindings]
    · unfold nodeOf
      rw [bindings]

theorem Undisturbed.of_unchanged (h : Unchanged w v) : w.Undisturbed v where
  counts {n t} hv := by
    unfold linkCount at hv ⊢
    rwa [h.nodes] at hv
  names := alias_of_tree h.sameTree

end World

/-- What a binding stands for is there. -/
theorem Sound.known_of_nodeOf (s : Sound w []) (h : w.nodeOf c = some n) :
    n < w.nodes.nextId := by
  obtain ⟨x, hx⟩ := Table.has_iff.1 (s.tended.there (owned_of_nodeOf h))
  exact Table.get?_lt hx

namespace Turn

theorem of_undisturbed (h : w.Undisturbed v) (hv : v.linkCount n = some t) : Turn w v call n t :=
  .kept (h.counts hv) (fun _ => h.names.1) fun _ was gone => absurd (h.names.2 was) gone

/-- The name that is gone was one of this file, or another one. -/
theorem of_withdrawn (h : w.Withdrawn v b m) (hv : v.linkCount n = some t) :
    Turn w v call n t := by
  have counts := h.counts hv
  split at counts
  · next same =>
      subst same
      obtain ⟨s, before, less⟩ := Option.map_eq_some_iff.1 counts
      exact .unlinked before less.symm h.taken fun _ => h.names
  · next other =>
      have apart : ∀ c, w.Alias n c → c ≠ b := fun c was same =>
        other (Option.some.inj (was.1.symm.trans (same ▸ h.taken.1)))
      exact .kept counts (fun c named => (h.names.1 named).1) fun c was gone =>
        absurd (h.names.2 ⟨was, apart c was⟩) gone

/-- The file that is linked, or another one. -/
theorem of_linked (h : w.Linked v b m) (asked : call.Links w m) (hv : v.linkCount n = some t) :
    Turn w v call n t := by
  have counts := h.counts hv
  split at counts
  · next same =>
      subst same
      obtain ⟨s, before, more⟩ := Option.map_eq_some_iff.1 counts
      refine .linked (b := b) before asked (h.allowed before) more.symm (fun taken => ?_)
        fun c => ?_
      · cases h.negative.symm.trans taken.1
      · simpa using h.names (n := n) (c := c)
  · next other =>
      exact .kept counts (fun c named => (h.names.1 named).resolve_left fun new => other new.1)
        fun c was gone => absurd (h.names.2 (.inr was)) gone

/-! ## New files -/

/-- The file that is made, or another one. -/
theorem of_opened {exclusive : Bool} (s : Sound w []) (h : w.Opened v exclusive)
    (made : call.MakesUnnamed w w.nodes.nextId exclusive) (hv : v.linkCount n = some t) :
    Turn w v call n t := by
  rw [h.counts] at hv
  split at hv
  · next here =>
      subst here
      refine .unnamed (Nat.le_refl _) made (Option.some.inj hv).symm fun c named => ?_
      exact absurd (s.known_of_nodeOf (h.names.1 named).1) (Nat.lt_irrefl _)
  · exact .kept hv (fun c => h.names.1) fun c was gone => absurd (h.names.2 was) gone

/-- The directory is no file, and but for it and the new node nothing has changed. -/
theorem of_gained {creation : Creation} {passing : Bool} (f : Forest v)
    (bound : w.nodeOf dir = some m) (made : creation.Made passing x)
    (unlinkable : x.linkable = false)
    (gained : w.Gained v dir m name b w.nodes.nextId x creation.links)
    (hv : v.linkCount n = some t) : Turn w v call n t := by
  by_cases new : n = w.nodes.nextId
  · subst new
    obtain ⟨y, hy, file, links, linkable⟩ := linkCount_eq_some_iff.1 hv
    cases gained.node.symm.trans hy
    have kind : x.kind ≠ .directory := fun dir => by
      rw [Node.isDirectory, dir] at file
      cases file
    refine .born (Nat.le_refl _) ?_ (gained.names.2 (.inl ⟨rfl, rfl⟩))
    cases t
    simp only at links linkable
    rw [← links, ← linkable, made.links, if_neg kind, unlinkable]
  · have elsewhere : n ≠ m := by
      rintro rfl
      have other : dir ≠ b := by
        rintro rfl
        cases gained.negative.symm.trans bound
      have stands : v.nodeOf dir = some n := gained.nodeOf.trans ((if_neg other).trans bound)
      have entered : v.Entered dir b := ⟨name, by rw [gained.entries, if_pos ⟨rfl, rfl⟩]⟩
      have isDir := bindsDirectory_of_entered f entered
      rw [bindsDirectory_of_nodeOf stands, isDirectory_of_linkCount hv] at isDir
      cases isDir
    have count : w.linkCount n = some t := by
      unfold World.linkCount at hv ⊢
      rwa [gained.nodes n new elsewhere] at hv
    refine .kept count (fun c named => (gained.names.1 named).resolve_left fun h => new h.1)
      fun c was gone => absurd (gained.names.2 (.inr was)) gone

end Turn

end Memfs
