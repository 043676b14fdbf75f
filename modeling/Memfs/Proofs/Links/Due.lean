import Memfs.Proofs.Sound.Names
import Mathlib.Algebra.Order.BigOperators.Group.Finset

/-!
# The links that a tree gives

A binding in place gives links: one to the node that it stands for, or two if that is a
directory, and if it is a directory one more to the directory that it is in. What all
bindings together give to a node is `due`, the number that its counter ought to show.

Nothing here is about counters. `due` is a sum over the bindings, and all that is to be
known of an operation is for which bindings the summand changes: those that it takes
out of a directory and those that it enters into one.
-/

namespace Memfs

namespace World

variable {w w' w'' : World} {a b c d e : BindingId} {n m : NodeId} {name : String}

/-- The binding is the root of an instance. -/
def Rooted (w : World) (b : BindingId) : Prop :=
  ∃ i x, w.instances.get? i = some x ∧ x.root = some b

/-- The binding is in place: it is a root, or a name leads to it. -/
def Placed (w : World) (b : BindingId) : Prop := w.Rooted b ∨ ∃ d, w.Entered d b

/-- The links that a binding in place gives to the node that it stands for. -/
def own (w : World) (b : BindingId) (n : NodeId) : Nat :=
  if w.nodeOf b = some n then if w.isDirectory n then 2 else 1 else 0

/-- The link that a directory gives to the directory that it is in. -/
def given (w : World) (b d : BindingId) (n : NodeId) : Nat :=
  if w.bindsDirectory b = true ∧ w.nodeOf d = some n then 1 else 0

open Classical in
/-- The links that a node has from one binding. -/
noncomputable def share (w : World) (n : NodeId) (b : BindingId) : Nat :=
  (if w.Placed b then w.own b n else 0) + if ∃ d, w.Entered d b ∧ w.given b d n = 1 then 1 else 0

/-- The links that a node has from all bindings. -/
noncomputable def due (w : World) (n : NodeId) : Nat :=
  ∑ b ∈ Finset.range w.bindings.nextId, w.share n b

/-! ## Summands -/

theorem own_congr (node : w'.nodeOf b = w.nodeOf b)
    (dir : ∀ n, w.nodeOf b = some n → w'.isDirectory n = w.isDirectory n) :
    w'.own b n = w.own b n := by
  unfold own
  rw [node]
  split
  · next h => rw [dir n h]
  · rfl

theorem bindsDirectory_congr (node : w'.nodeOf b = w.nodeOf b)
    (dir : ∀ n, w.nodeOf b = some n → w'.isDirectory n = w.isDirectory n) :
    w'.bindsDirectory b = w.bindsDirectory b := by
  unfold bindsDirectory
  rw [node]
  cases h : w.nodeOf b with
  | none => rfl
  | some n => exact dir n h

theorem given_congr (binds : w'.bindsDirectory b = w.bindsDirectory b)
    (node : w'.nodeOf d = w.nodeOf d) : w'.given b d n = w.given b d n := by
  unfold given
  rw [binds, node]

theorem own_of_nodeOf (h : w.nodeOf b = some n) :
    w.own b m = if m = n then if w.isDirectory n then 2 else 1 else 0 := by
  unfold own
  rw [h]
  by_cases e : m = n
  · rw [if_pos e, if_pos (e ▸ rfl), e]
  · rw [if_neg e, if_neg fun h => e (Option.some.inj h).symm]

theorem given_of_nodeOf (h : w.nodeOf d = some n) :
    w.given b d m = if m = n then if w.bindsDirectory b then 1 else 0 else 0 := by
  unfold given
  rw [h]
  by_cases e : m = n
  · subst e
    simp
  · rw [if_neg e, if_neg fun h => e (Option.some.inj h.2).symm]

theorem given_le_one : w.given b d n ≤ 1 := by
  unfold given
  split
  · exact Nat.le_refl _
  · exact Nat.zero_le _

theorem share_of_not_placed (h : ¬ w.Placed b) : w.share n b = 0 := by
  unfold share
  rw [if_neg h, if_neg]
  rintro ⟨d, entered, -⟩
  exact h (.inr ⟨d, entered⟩)

theorem share_of_entered (h : w.Entered d b) (only : ∀ e, w.Entered e b → e = d) :
    w.share n b = w.own b n + w.given b d n := by
  have here : (∃ e, w.Entered e b ∧ w.given b e n = 1) ↔ w.given b d n = 1 := by
    constructor
    · rintro ⟨e, entered, one⟩
      rwa [only e entered] at one
    · exact fun one => ⟨d, h, one⟩
  have le := w.given_le_one (b := b) (d := d) (n := n)
  unfold share
  rw [if_pos (.inr ⟨d, h⟩)]
  simp only [here]
  split
  · omega
  · omega

theorem share_of_out (placed : w.Placed b) (out : ∀ d, ¬ w.Entered d b) :
    w.share n b = w.own b n := by
  unfold share
  rw [if_pos placed, if_neg fun ⟨d, entered, _⟩ => out d entered, Nat.add_zero]

theorem share_congr (placed : w'.Placed b ↔ w.Placed b)
    (entered : ∀ d, w'.Entered d b ↔ w.Entered d b) (own : w.Placed b → w'.own b n = w.own b n)
    (given : ∀ d, w.Entered d b → w'.given b d n = w.given b d n) :
    w'.share n b = w.share n b := by
  have gives : (∃ d, w'.Entered d b ∧ w'.given b d n = 1)
      ↔ ∃ d, w.Entered d b ∧ w.given b d n = 1 := by
    refine exists_congr fun d => ?_
    rw [entered d]
    exact and_congr_right fun h => by rw [given d h]
  classical
  unfold share
  refine congrArg₂ (· + ·) ?_ (if_congr gives rfl rfl)
  by_cases h : w.Placed b
  · rw [if_pos h, if_pos (placed.2 h), own h]
  · rw [if_neg h, if_neg (mt placed.1 h)]

/-- A binding that is not there gives nothing. -/
theorem share_of_absent (h : w.bindings.get? b = none) : w.share n b = 0 := by
  have node : w.nodeOf b = none := by
    unfold nodeOf
    rw [h]
    rfl
  have own : w.own b n = 0 := by
    unfold World.own
    rw [node, if_neg nofun]
  have given : ∀ d, w.given b d n = 0 := fun d => by
    unfold World.given bindsDirectory
    rw [node, if_neg fun h => nomatch h.1]
  unfold share
  rw [own, ite_self, if_neg]
  rintro ⟨d, -, one⟩
  rw [given] at one
  cases one

/-- Every binding stands for the node that it stood for before. -/
structure SameNodes (w w' : World) : Prop where
  node : ∀ b, w'.nodeOf b = w.nodeOf b
  directory : ∀ n, w'.isDirectory n = w.isDirectory n

namespace SameNodes

theorem trans (s : SameNodes w w') (t : SameNodes w' w'') : SameNodes w w'' :=
  ⟨fun b => (t.node b).trans (s.node b), fun n => (t.directory n).trans (s.directory n)⟩

theorem own (s : SameNodes w w') : w'.own b n = w.own b n :=
  own_congr (s.node b) fun n _ => s.directory n

theorem given (s : SameNodes w w') : w'.given b d n = w.given b d n :=
  given_congr (bindsDirectory_congr (s.node b) fun n _ => s.directory n) (s.node d)

end SameNodes

/-! ## The sum -/

theorem due_eq_sum {bound : Nat} (h : w.bindings.nextId ≤ bound) :
    w.due n = ∑ b ∈ Finset.range bound, w.share n b := by
  refine Finset.sum_subset (Finset.range_mono h) fun b _ out => ?_
  refine share_of_absent (Table.get?_of_nextId_le ?_)
  rw [Finset.mem_range] at out
  omega

/-- When the summand changes for one binding, the sum changes by as much. -/
theorem due_change (b : BindingId) (others : ∀ c, c ≠ b → w'.share n c = w.share n c) :
    w'.due n + w.share n b = w.due n + w'.share n b := by
  obtain ⟨bound, le, le', lt⟩ : ∃ bound, w.bindings.nextId ≤ bound ∧ w'.bindings.nextId ≤ bound ∧
      b < bound :=
    ⟨w.bindings.nextId + w'.bindings.nextId + (b + 1), by omega, by omega,
      Nat.lt_of_lt_of_le (Nat.lt_succ_self b) (Nat.le_add_left ..)⟩
  have mem : b ∈ Finset.range bound := Finset.mem_range.2 lt
  obtain ⟨rest, hrest⟩ : ∃ rest, rest = ∑ c ∈ (Finset.range bound).erase b, w.share n c := ⟨_, rfl⟩
  have same : ∑ c ∈ (Finset.range bound).erase b, w'.share n c = rest := by
    rw [hrest]
    exact Finset.sum_congr rfl fun c hc => others c (Finset.ne_of_mem_erase hc)
  have before : w.due n = w.share n b + rest := by
    rw [due_eq_sum le, hrest]
    exact (Finset.add_sum_erase _ _ mem).symm
  have after : w'.due n = w'.share n b + rest := by
    rw [due_eq_sum le', ← same]
    exact (Finset.add_sum_erase _ _ mem).symm
  omega

theorem due_congr (same : ∀ c, w'.share n c = w.share n c) : w'.due n = w.due n := by
  have change : w'.due n + w.share n 0 = w.due n + w'.share n 0 := due_change 0 fun c _ => same c
  rw [same] at change
  omega

theorem share_le_due : w.share n b ≤ w.due n := by
  rw [due_eq_sum (Nat.le_max_left w.bindings.nextId (b + 1))]
  exact Finset.single_le_sum_of_canonicallyOrdered (Finset.mem_range.2 (by omega))

end World

end Memfs
