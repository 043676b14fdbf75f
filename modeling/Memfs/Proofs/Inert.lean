import Memfs.Proofs.Bystanders
import Memfs.Proofs.Quiet

/-!
# What the operations have no hand in

Operations on names, files and content change nodes, bindings, files and the host, and
let go of what they no longer need. A property that looks at none of these, and that
outlives letting go, is `Inert`: no operation can touch it. Contexts are of this sort,
the registered types, what callers hold, and whatever is said of those instances that are
there.

An inert property asks nothing about the host, so it is blind to what they do.
-/

namespace Memfs

/-- `P` looks at nothing that an operation changes. -/
structure Inert (P : World → Prop) : Prop where
  host : ∀ {w : World} {host}, P w → P { w with host }
  nodes : ∀ {w : World} {nodes}, P w → P { w with nodes }
  bindings : ∀ {w : World} {bindings}, P w → P { w with bindings }
  files : ∀ {w : World} {files}, P w → P { w with files }
  settled : ∀ {w : World} {tasks}, P w → P (w.settle tasks)
  unchanged : ∀ {w w' : World}, Unchanged w w' → P w → P w'

namespace Inert

variable {P : World → Prop} {w : World}

theorem note (p : Inert P) (h : P w) {notice : Notice} : P (w.note notice) := p.host h

theorem blind (p : Inert P) : Blind P where
  host _ h := p.host h
  nodes h := p.nodes h
  bindings h := p.bindings h
  files h := p.files h

/-- No operation has a hand in the property, whether it fails or not. -/
theorem operate (p : Inert P) (h : P w) (op : Operation) : Action.Ends P op.act w :=
  p.blind.quiet.operate h op

end Inert

/-- No operation takes something out of a caller's hands or puts it there. -/
theorem Operation.held {w : World} (op : Operation) :
    Action.Ends (·.held = w.held) op.act w := by
  have blind : Blind (·.held = w.held) := {
    host := fun _ h => h
    nodes := id
    bindings := id
    files := id }
  exact blind.quiet.operate rfl op

end Memfs
