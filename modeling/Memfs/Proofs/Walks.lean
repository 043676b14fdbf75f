import Memfs.Proofs.Runs

/-!
# Where a walk may lead

A walk goes from binding to binding: to an entry of a directory, to the parent of one,
and back to its root where the target of a symlink begins with a slash. Its definition
recurses on the symlinks and, between two of them, on the names. `walk_keeps` does both
inductions once: what holds of the root and is kept by every step, and by no more than
that, holds of the binding that the walk ends in, whatever the symlinks on the way say.

The first use is that nobody gets out of a directory by a path. A step up is taken from
a binding that lies below the root and is not the root, so its parent lies below the
root as well. A step down keeps below it because an entry points back to the directory
that it is in.
-/

namespace Memfs

namespace World

variable {w : World} {root cur dir b d : BindingId} {name : String}

/-! ## One name -/

/-- What a name in a directory may stand for. -/
theorem lookup_eq_ok : w.lookup dir name = .ok b ↔ w.bindsDirectory dir = true ∧
    ((name = "." ∧ b = dir) ∨ (name = ".." ∧ b = (w.parentOf dir).getD dir) ∨
      ((name ≠ "." ∧ name ≠ "..") ∧ name.utf8ByteSize ≤ nameLimit ∧
        w.child? dir name = some b)) := by
  unfold lookup bindsDirectory
  cases w.nodeOf dir with
  | none => simp
  | some n =>
      cases isDir : w.isDirectory n with
      | false => simp [isDir]
      | true =>
          by_cases self : name = "."
          · simp [isDir, self, eq_comm]
          · by_cases up : name = ".."
            · simp [isDir, up, eq_comm]
            · by_cases long : nameLimit < name.utf8ByteSize
              · simp [isDir, self, up, long]
              · cases w.child? dir name with
                | none => simp [isDir, self, up, long]
                | some c => simp [isDir, self, up, long, Nat.le_of_not_lt long]

/-- A step leads to the directory itself, to its parent unless that is above the root,
or to an entry. -/
theorem step_ok (h : w.step root cur name = .ok b) :
    b = root ∨ b = cur ∨ (cur ≠ root ∧ w.parentOf cur = some b) ∨ w.child? cur name = some b := by
  unfold step at h
  split at h
  · cases h
    exact .inl rfl
  · next climbs =>
      obtain ⟨-, ⟨-, rfl⟩ | ⟨rfl, rfl⟩ | ⟨-, -, entry⟩⟩ := lookup_eq_ok.1 h
      · exact .inr (.inl rfl)
      · cases parent : w.parentOf cur with
        | none => exact .inr (.inl rfl)
        | some p => exact .inr (.inr (.inl ⟨fun same => climbs ⟨rfl, same⟩, rfl⟩))
      · exact .inr (.inr (.inr entry))

/-! ## All names -/

theorem walkNames_keeps {P : BindingId → Prop} {followLast : Bool}
    {follow : BindingId → BindingId → List String → Except Error BindingId}
    (stepped : ∀ {cur name b}, P cur → w.step root cur name = .ok b → P b)
    (followed : ∀ {cur link rest}, P cur → follow cur link rest = .ok d → P d) :
    ∀ {names : List String} {cur : BindingId}, P cur →
      w.walkNames root followLast follow cur names = .ok d → P d := by
  intro names
  induction names with
  | nil =>
      intro cur here h
      cases h
      exact here
  | cons name rest ih =>
      intro cur here h
      rw [walkNames] at h
      cases next : w.step root cur name with
      | error e =>
          rw [next] at h
          cases h
      | ok b =>
          rw [next] at h
          simp only [bind, Except.bind] at h
          split at h
          · exact followed here h
          · exact ih (stepped here next) h

/-- What holds of the root and is kept by every step holds of all that a walk leads to.
The target of a symlink is walked from where the symlink is or from the root. -/
theorem walk_keeps {P : BindingId → Prop} {followLast : Bool} (atRoot : P root)
    (stepped : ∀ {cur name b}, P cur → w.step root cur name = .ok b → P b) :
    ∀ {hops : Nat} {names : List String} {cur : BindingId}, P cur →
      w.walk root followLast hops cur names = .ok d → P d := by
  intro hops
  induction hops with
  | zero =>
      intro names cur here h
      rw [walk] at h
      refine walkNames_keeps stepped (fun {cur link rest} here h => ?_) here h
      cases h
  | succ hops ih =>
      intro names cur here h
      rw [walk] at h
      refine walkNames_keeps stepped (fun {cur link rest} here h => ?_) here h
      cases target : w.readlink link with
      | error e =>
          rw [target] at h
          cases h
      | ok path =>
          rw [target] at h
          simp only [bind, Except.bind] at h
          split at h
          · cases h
          · refine ih ?_ h
            unfold pathStart
            split
            · exact atRoot
            · exact here

theorem resolve_keeps {P : BindingId → Prop} {path : String} {followLast : Bool} (atRoot : P root)
    (stepped : ∀ {cur name b}, P cur → w.step root cur name = .ok b → P b)
    (h : w.resolve root path followLast = .ok d) : P d := by
  unfold resolve at h
  cases checked : checkPath path with
  | error e =>
      rw [checked] at h
      cases h
  | ok u =>
      rw [checked] at h
      exact walk_keeps atRoot stepped atRoot h

end World

open World

variable {w : World} {root cur d : BindingId} {name : String}

/-! ## Confinement -/

/-- One step does not leave what is below the root. -/
theorem Forest.above_step (f : Forest w) (inside : w.Above root cur)
    (h : w.step root cur name = .ok d) : w.Above root d := by
  rcases step_ok h with rfl | rfl | ⟨climbs, parent⟩ | entry
  · exact .refl
  · exact inside
  · exact ((above_iff_of_parentOf parent).1 inside).resolve_left climbs.symm
  · exact (above_iff_of_parentOf (f.entry entry).2).2 (.inr inside)

/-- After any run, and whatever symlinks there are, a path that is resolved from a
directory leads to the directory or to something below it. -/
theorem resolve_confined (clock : Clock) (calls : List Call) {path : String} {followLast : Bool}
    (h : ((World.fresh clock).run calls).resolve root path followLast = .ok d) :
    ((World.fresh clock).run calls).isBelow d root = true := by
  have s : Sound ((World.fresh clock).run calls) [] := Sound.fresh.run calls
  exact s.forest.isBelow_iff.2 (resolve_keeps .refl s.forest.above_step h)

/-- A directory that is the root of the walk, with a symlink in it whose target climbs
further than the root is deep, and one that begins with a slash. -/
theorem resolve_confined_climbing :
    let calls : List Call := [.register builtInType, .mount "tagfs" "",
      .operate (.mkdir 0 "d" ⟨0o755⟩), .operate (.mkdir 1 "e" ⟨0o755⟩),
      .operate (.symlink 2 "up" ".././../../e"), .operate (.symlink 2 "top" "/e//up")]
    let w := (World.fresh (.steady 0 0 1)).run calls
    w.resolve 1 "../e/top/up" true = .ok 2 ∧ w.isBelow 2 1 = true := by
  intro calls w
  have led : w.resolve 1 "../e/top/up" true = .ok 2 := by decide +kernel
  exact ⟨led, resolve_confined (.steady 0 0 1) calls led⟩

end Memfs
