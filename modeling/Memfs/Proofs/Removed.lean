import Memfs.Proofs.Steady.Mounts

/-!
# Removed directories

A directory that was removed never comes back into a tree: whatever is called later, no
name leads to it, it is the root of no instance, and nothing but its old binding stands
for its node. As long as no name is made in it, it stays empty and its node stays without
links.

Nothing keeps a caller who still holds it from making names in it, though.
-/

namespace Memfs

open World

variable {w : World} {b : BindingId} {n : NodeId}

/-- What is true of a removed directory ever after. -/
structure World.Lost (w : World) (b : BindingId) (n : NodeId) : Prop where
  unnamed : ∀ d, ¬ w.Entered d b
  unrooted : ¬ w.Rooted b
  only : ∀ c, w.nodeOf c = some n → c = b

/-- There is no name in the directory, and its node has no links. -/
structure World.Dead (w : World) (b : BindingId) (n : NodeId) : Prop where
  empty : ∀ c, ¬ w.Entered b c
  spent : ∀ x, w.nodes.get? n = some x → x.links = 0

theorem Removed.Gone.lost {alone : Prop} (g : Removed.Gone ⟨b, n, alone⟩ w) :
    w.Lost b n :=
  ⟨fun d entered => g.out (.inr ⟨d, entered⟩), fun root => g.out (.inl root), g.only⟩

/-- A directory that was removed or replaced is lost, and it is dead until a name is made in
it. -/
theorem removed_run (clock : Clock) {before later : List Call} {op : Operation}
    (removed : op.removed? ((World.fresh clock).run before) = some b)
    (node : ((World.fresh clock).run before).nodeOf b = some n)
    (succeeds : op.succeeds ((World.fresh clock).run before) = true) :
    ((((World.fresh clock).run before).after (.operate op)).run later).Lost b n ∧
      ((((World.fresh clock).run before).after (.operate op)).LeavesAlone b later →
        ((((World.fresh clock).run before).after (.operate op)).run later).Dead b n) := by
  have p : Poised [] ((World.fresh clock).run before) :=
    Poised.fresh.run (List.forall_mem_nil _)
  generalize (World.fresh clock).run before = w at *
  -- the condition on the calls goes with the directory into the list
  let r : Removed := ⟨b, n, (w.after (.operate op)).LeavesAlone b later⟩
  have taken : ∀ s ∈ [r], op.removed? w = some s.binding ∧ w.nodeOf s.binding = some s.node :=
    fun s mem => by
      rw [List.mem_singleton.1 mem]
      exact ⟨removed, node⟩
  have out : Steady (w.after (.operate op)) (w.after (.operate op)).due [r] :=
    p.steady.operate p.sound (fun _ _ _ mem => nomatch mem) taken (op.act_of_succeeds succeeds)
  have after : Poised [r] (w.after (.operate op)) := ⟨p.sound.after _, out⟩
  have gone : r.Gone ((w.after (.operate op)).run later) :=
    (after.run fun s mem alone => by
      rw [List.mem_singleton.1 mem] at alone ⊢
      exact alone).steady.gone r List.mem_cons_self
  exact ⟨gone.lost, fun alone => ⟨gone.empty alone, fun x hx => (gone.spent x hx).2 alone⟩⟩

/-- A caller holds a directory that a rename replaces. What replaced it is removed later,
and a name that is not allowed is asked for in the directory that was replaced. -/
theorem removed_run_replaced :
    let before : List Call := [.register builtInType, .mount "tagfs" "",
      .operate (.mkdir 0 "a" ⟨0o755⟩), .operate (.mkdir 0 "b" ⟨0o755⟩), .hold (.binding 2)]
    let op : Operation := .rename 0 "a" 0 "b" ⟨0⟩
    let later : List Call := [.operate (.rmdir 0 "b"), .operate (.mkdir 2 ".." ⟨0o755⟩)]
    let w := (World.fresh (.steady 0 0 1)).run before
    let v := w.after (.operate op)
    op.removed? w = some 2 ∧ w.nodeOf 2 = some 2 ∧ op.succeeds w = true ∧
      v.LeavesAlone 2 later ∧ (v.run later).Lost 2 2 ∧ (v.run later).Dead 2 2 := by
  intro before op later w v
  have removed : op.removed? w = some 2 := by decide +kernel
  have node : w.nodeOf 2 = some 2 := by decide +kernel
  have succeeds : op.succeeds w = true := by decide +kernel
  have alone : v.LeavesAlone 2 later := ⟨nofun, fun _ => by decide +kernel, trivial⟩
  have after : (v.run later).Lost 2 2 ∧ (v.LeavesAlone 2 later → (v.run later).Dead 2 2) :=
    removed_run (.steady 0 0 1) removed node succeeds
  exact ⟨removed, node, succeeds, alone, after.1, after.2 alone⟩

/-- A caller holds a directory that is removed, and makes a directory in it. -/
theorem removed_not_dead :
    ¬ ∀ (before later : List Call) (op : Operation) (b : BindingId) (n : NodeId),
      op.removed? ((World.fresh (.steady 0 0 1)).run before) = some b →
      ((World.fresh (.steady 0 0 1)).run before).nodeOf b = some n →
      op.succeeds ((World.fresh (.steady 0 0 1)).run before) = true →
      ((((World.fresh (.steady 0 0 1)).run before).after (.operate op)).run later).Dead b n := by
  intro claim
  have dead := claim [.register builtInType, .mount "tagfs" "", .operate (.mkdir 0 "d" ⟨0o755⟩),
    .hold (.binding 1)] [.operate (.mkdir 1 "e" ⟨0o755⟩)] (.rmdir 0 "d") 1 1 (by decide +kernel)
    (by decide +kernel) (by decide +kernel)
  exact dead.empty 2 ⟨"e", by decide +kernel⟩

end Memfs
