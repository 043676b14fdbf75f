import Memfs.Proofs.Runs

/-!
# The tree of names after any run

What callers may rely on when they look at names, whatever was called before: mounts
and teardowns, operations that failed, and operations on bindings whose names are long
gone. All of it is read off the invariant `Forest`. The walks that the program makes
along the tree are bounded by a count of the bindings, and the acyclicity of the parents
is what makes that bound no restriction.
-/

namespace Memfs

/-- The names of a world are as they should be. -/
structure WellNamed (w : World) : Prop where
  /-- An entry leads to a binding that bears its name and has the directory as parent. -/
  entry : ∀ {d name c}, w.child? d name = some c → w.nameOf c = name ∧ w.parentOf c = some d
  /-- No binding has two entries. -/
  single : ∀ {d e name other c}, w.child? d name = some c → w.child? e other = some c →
    d = e ∧ name = other
  /-- Nobody meets a binding again by going from parent to parent. -/
  acyclic : ∀ b, ¬ Relation.TransGen w.IsParent b b
  /-- The walk along the parents is never cut short by its bound. -/
  lineage : ∀ b fuel, w.bindings.nextId ≤ fuel →
    w.ancestors fuel b = w.ancestors w.bindings.nextId b
  /-- What the program takes to be below a binding is what lies below it. -/
  isBelow : ∀ b top, w.isBelow b top = true ↔ Relation.ReflTransGen w.IsParent top b
  /-- Going down from entry to entry comes to an end. -/
  finite : WellFounded fun c d => ∃ name, w.child? d name = some c
  /-- Only directories have entries. -/
  directory : ∀ {d name c}, w.child? d name = some c →
    ∃ n, w.nodeOf d = some n ∧ w.isDirectory n = true
  /-- A directory has one binding at most. -/
  once : ∀ {b c n}, w.nodeOf b = some n → w.nodeOf c = some n → w.isDirectory n = true → b = c
  name : ∀ {d name c}, w.child? d name = some c →
    (1 ≤ name.utf8ByteSize ∧ name.utf8ByteSize ≤ 255) ∧ name ≠ "." ∧ name ≠ ".." ∧
      '/' ∉ name.toList ∧ '\x00' ∉ name.toList

/-- The names that pass the check. -/
theorem checkName_eq_ok {name : String} (h : checkName name = .ok ()) :
    (1 ≤ name.utf8ByteSize ∧ name.utf8ByteSize ≤ 255) ∧ name ≠ "." ∧ name ≠ ".." ∧
      '/' ∉ name.toList ∧ '\x00' ∉ name.toList := by
  unfold checkName at h
  split at h
  · cases h
  · next special =>
      split at h
      · cases h
      · next character =>
          split at h
          · cases h
          · next long =>
              simp only [not_or] at special
              simp only [Bool.or_eq_true, List.contains_iff_mem, not_or] at character
              have nonempty : name.utf8ByteSize ≠ 0 :=
                mt String.utf8ByteSize_eq_zero_iff.1 special.1
              unfold nameLimit at long
              exact ⟨⟨by omega, by omega⟩, special.2.1, special.2.2, character.1, character.2⟩

theorem Forest.wellNamed {w : World} (f : Forest w) : WellNamed w where
  entry := f.entry
  single hc hother := by
    obtain ⟨hname, hparent⟩ := f.entry hc
    obtain ⟨hname', hparent'⟩ := f.entry hother
    exact ⟨Option.some.inj (hparent.symm.trans hparent'), hname.symm.trans hname'⟩
  acyclic _ := f.not_above_self
  lineage _ _ hle := f.ancestors_eq_of_le hle
  isBelow _ _ := f.isBelow_iff
  finite := f.grounded_below
  directory h := World.bindsDirectory_iff.1 (f.above (f.entry h).2)
  once := f.once
  name h := checkName_eq_ok (f.checked h)

/-- After any run the names are as they should be. -/
theorem wellNamed_run (clock : Clock) (calls : List Call) :
    WellNamed ((World.fresh clock).run calls) :=
  (Sound.fresh.run calls).forest.wellNamed

end Memfs
