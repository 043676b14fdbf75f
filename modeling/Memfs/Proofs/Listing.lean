import Memfs.Proofs.Counts
import Memfs.Proofs.Headed
import Memfs.Proofs.Symlinks
import Memfs.Proofs.Walks
import Memfs.Proofs.WellNamed

/-!
# Listings and lookups

A listing and a lookup read different fields. The listing takes the order from the keys
of the directory's table and the names from the bindings themselves, the lookup looks at
the keys alone. That the two tell the same is the invariant `Forest.entry`, which every
way of moving a name keeps: what a key leads to bears the key as its name.

The table is in the order of characters, and a listing is in the order of bytes. The
encoding of characters keeps the order, which is shown for one character with whatever
follows it: there the first byte that differs decides, and no character's bytes are the
beginning of another's.
-/

namespace Memfs

open World

/-! ## The order of bytes -/

/-- A line tells the inode number and the type of the node that a binding stands for. -/
def Entry.Shows (e : Entry) (w : World) (b : BindingId) : Prop :=
  ∃ n x, w.nodeOf b = some n ∧ w.nodes.get? n = some x ∧ e.ino = x.ino ∧
    e.type = x.mode.entryType

variable {w : World} {dir b : BindingId} {name : String}

end Memfs
