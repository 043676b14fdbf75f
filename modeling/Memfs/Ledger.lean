/-!
# The ledger of allocations

Four kinds of objects are allocated from the host: nodes, bindings, mount
configurations and pages of content. The ledger counts what was handed out and
what came back, for each kind. A kind may have a budget; once it is spent, every
further allocation of the kind is refused until the budget is set anew or lifted.
-/

namespace Memfs

/-- The kinds of objects that the host allocates. -/
inductive Resource where
  | node
  | binding
  | config
  | page
  deriving DecidableEq, Repr

/-- The name of a kind in diagnostic text. -/
def Resource.describe : Resource → String
  | node => "Inode"
  | binding => "Dentry"
  | config => "FsInfo"
  | page => "Page"

/-- The account of one kind. -/
structure Tally where
  allocated : Nat := 0
  released : Nat := 0
  /-- How many more allocations are allowed; without a budget, all are. -/
  budget : Option Nat := none
  deriving DecidableEq, Repr

namespace Tally

/-- Allocations not yet released. Releases without an allocation do not count
against later ones. -/
def live (t : Tally) : Nat := t.allocated - t.released

/-- The account after one more allocation, unless the budget is spent. -/
def charge (t : Tally) : Option Tally :=
  match t.budget with
  | none => some { t with allocated := t.allocated + 1 }
  | some 0 => none
  | some (n + 1) => some { t with allocated := t.allocated + 1, budget := some n }

/-- The account after `n` releases. -/
def credit (t : Tally) (n : Nat) : Tally := { t with released := t.released + n }

end Tally

/-- One account for each kind. -/
structure Ledger where
  node : Tally := {}
  binding : Tally := {}
  config : Tally := {}
  page : Tally := {}
  deriving DecidableEq, Repr

namespace Ledger

def get (ledger : Ledger) : Resource → Tally
  | .node => ledger.node
  | .binding => ledger.binding
  | .config => ledger.config
  | .page => ledger.page

def set (ledger : Ledger) (kind : Resource) (t : Tally) : Ledger :=
  match kind with
  | .node => { ledger with node := t }
  | .binding => { ledger with binding := t }
  | .config => { ledger with config := t }
  | .page => { ledger with page := t }

theorem get_set (ledger : Ledger) (kind other : Resource) (t : Tally) :
    (ledger.set kind t).get other = if other = kind then t else ledger.get other := by
  cases kind <;> cases other <;> rfl

end Ledger

end Memfs
