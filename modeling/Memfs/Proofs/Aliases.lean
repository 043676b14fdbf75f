import Memfs.Proofs.Bystanders
import Memfs.Proofs.Counts

/-!
# The names and the count of links of a file

An alias of a node is a binding that stands for it and that some directory has in it. The
directory need not be in a tree: one that was removed may still be held, and the names in it
are names as long as it is there.

What counts for a file, here any node but a directory, is its number of links and whether it
may be given a name although it has none. `linkCount` shows both. Directories have none, so
that the links that they give one another need not be followed: dropping a link of a
directory is no change at all.
-/

namespace Memfs

/-- The links of a file. -/
structure LinkCount where
  links : UInt32
  /-- May the file be given a name although it has none? -/
  linkable : Bool
  deriving DecidableEq, Repr

namespace LinkCount

/-- One link more. A file that had none is linkable no longer. -/
def addLink (s : LinkCount) : LinkCount := ⟨s.links + 1, s.linkable && s.links != 0⟩

/-- One link less. -/
def dropLink (s : LinkCount) : LinkCount :=
  { s with links := if s.links = 0 then 0 else s.links - 1 }

variable {s : LinkCount}

theorem addLink_linkable (h : s.addLink.linkable = true) :
    s.linkable = true ∧ s.links ≠ 0 := by
  simpa [addLink] using h

/-- Neither has the file a name, nor may it be given one. -/
theorem not_allowed (none : s.links = 0) (never : s.linkable = false) :
    ¬ (s.links ≠ 0 ∨ s.linkable = true) := by
  simp [none, never]

/-- A counter that wraps around shows less. -/
theorem toNat_addLink_le : s.addLink.links.toNat ≤ s.links.toNat + 1 := by
  unfold addLink
  rw [UInt32.toNat_add]
  exact Nat.mod_le ..

theorem toNat_dropLink : s.dropLink.links.toNat = s.links.toNat - 1 := by
  unfold dropLink
  simp only
  split
  · next none => simp [none]
  · next some =>
      have one : (1 : UInt32) ≤ s.links := by
        rw [UInt32.le_iff_toNat_le]
        exact Nat.one_le_iff_ne_zero.2 fun zero => some (UInt32.toNat_inj.1 zero)
      exact UInt32.toNat_sub_of_le _ _ one

end LinkCount

namespace Node

/-- The links of a node that is no directory. -/
def linkCount (x : Node) : Option LinkCount :=
  if x.isDirectory then none else some ⟨x.links, x.linkable⟩

theorem linkCount_addLink (x : Node) : x.addLink.linkCount = x.linkCount.map .addLink := by
  have kind : x.addLink.isDirectory = x.isDirectory := rfl
  unfold linkCount
  rw [kind]
  cases x.isDirectory with
  | true => rfl
  | false => rfl

theorem linkCount_dropLink (x : Node) : x.dropLink.linkCount = x.linkCount.map .dropLink := by
  have kind : x.dropLink.isDirectory = x.isDirectory := rfl
  unfold linkCount
  rw [kind]
  cases x.isDirectory with
  | true => rfl
  | false => rfl

end Node

namespace World

variable {w v u : World} {n m d : NodeId} {a b c dir : BindingId} {name : String}
  {s t : LinkCount} {x : Node} {tasks : List Task}

/-- The links of a file. -/
def linkCount (w : World) (n : NodeId) : Option LinkCount := (w.nodes.get? n).bind (·.linkCount)

/-- The binding stands for the node and is in a directory. -/
def Alias (w : World) (n : NodeId) (c : BindingId) : Prop :=
  w.nodeOf c = some n ∧ ∃ d, w.Entered d c

/-- There are only so many directories to look for the binding in. -/
theorem alias_iff_below : w.Alias n c ↔
    w.nodeOf c = some n ∧ ∃ d ∈ List.range w.bindings.nextId, c ∈ w.below d := by
  refine and_congr_right fun _ => exists_congr fun d => ?_
  rw [mem_below, List.mem_range]
  refine ⟨fun entered => ⟨?_, entered⟩, And.right⟩
  obtain ⟨k, entry⟩ := entered
  obtain ⟨x, hx, -⟩ := child?_eq_some_iff.1 entry
  exact Table.get?_lt hx

instance decidableAlias (w : World) (n : NodeId) (c : BindingId) : Decidable (w.Alias n c) :=
  decidable_of_iff _ alias_iff_below.symm

/-- The bindings that are names of the node. -/
def aliases (w : World) (n : NodeId) : Finset BindingId := w.bindings.ids.filter (w.Alias n)

theorem mem_aliases : c ∈ w.aliases n ↔ w.Alias n c := by
  unfold aliases
  rw [Finset.mem_filter, Table.mem_ids, and_iff_right_iff_imp]
  rintro ⟨hn, -⟩
  obtain ⟨x, hx, -⟩ := nodeOf_eq_some_iff.1 hn
  exact Table.has_of_get? hx

theorem aliases_eq_empty : w.aliases n = ∅ ↔ ∀ c, ¬ w.Alias n c := by
  rw [Finset.eq_empty_iff_forall_notMem]
  exact forall_congr' fun c => not_congr mem_aliases

/-! ## Counts of links -/

theorem linkCount_eq_some_iff : w.linkCount n = some s ↔ ∃ x, w.nodes.get? n = some x ∧
    x.isDirectory = false ∧ x.links = s.links ∧ x.linkable = s.linkable := by
  unfold linkCount
  rw [Option.bind_eq_some_iff]
  refine exists_congr fun x => and_congr_right fun _ => ?_
  unfold Node.linkCount
  cases x.isDirectory with
  | true => simp
  | false => cases s; simp

theorem linkCount_of_directory (h : w.isDirectory n = true) : w.linkCount n = none := by
  obtain ⟨x, hx, dir⟩ := (Option.any_eq_true _ _).1 h
  unfold linkCount Node.linkCount
  rw [hx, Option.bind_some, if_pos dir]

theorem isDirectory_of_linkCount (h : w.linkCount n = some s) : w.isDirectory n = false := by
  rw [← Bool.not_eq_true]
  intro dir
  cases (linkCount_of_directory dir).symm.trans h

theorem lt_of_linkCount (h : w.linkCount n = some s) : n < w.nodes.nextId := by
  obtain ⟨x, hx, -⟩ := linkCount_eq_some_iff.1 h
  exact Table.get?_lt hx

theorem linkCount_of_nodes (h : v.nodes = w.nodes) : v.linkCount n = w.linkCount n := by
  unfold linkCount
  rw [h]

theorem linkCount_modifyBinding {g : Binding → Binding} :
    (w.modifyBinding b g).linkCount n = w.linkCount n := rfl

/-- A change of the links of a node. -/
theorem linkCount_modifyNode {g : Node → Node} (f : LinkCount → LinkCount)
    (h : ∀ x, (g x).linkCount = x.linkCount.map f) :
    (w.modifyNode m g).linkCount n = if n = m then (w.linkCount n).map f else w.linkCount n := by
  unfold linkCount modifyNode
  rw [Table.get?_modify]
  split
  · next same =>
      subst same
      cases w.nodes.get? n with
      | none => rfl
      | some x => exact h x
  · rfl

theorem linkCount_revised {g : Node → Node} (h : ∀ x, (g x).linkCount = x.linkCount) :
    (w.modifyNode m g).linkCount n = w.linkCount n := by
  rw [linkCount_modifyNode id fun x => (h x).trans Option.map_id_apply.symm, Option.map_id_apply,
    ite_self]

theorem linkCount_addLink : (w.addLink m).linkCount n
    = if n = m then (w.linkCount n).map .addLink else w.linkCount n :=
  linkCount_modifyNode .addLink Node.linkCount_addLink

theorem linkCount_dropLink : (w.dropLink m).linkCount n
    = if n = m then (w.linkCount n).map .dropLink else w.linkCount n := by
  rw [dropLink_eq, linkCount_modifyNode .dropLink Node.linkCount_dropLink]
  rfl

/-- What a directory gains or loses is no file's. -/
theorem linkCount_addLink_directory (h : w.isDirectory m = true) :
    (w.addLink m).linkCount n = w.linkCount n := by
  rw [linkCount_addLink]
  split
  · next same => rw [same, linkCount_of_directory h, Option.map_none]
  · rfl

theorem linkCount_dropLink_directory (h : w.isDirectory m = true) :
    (w.dropLink m).linkCount n = w.linkCount n := by
  rw [linkCount_dropLink]
  split
  · next same => rw [same, linkCount_of_directory h, Option.map_none]
  · rfl

theorem linkCount_shiftLink (hd : w.isDirectory d = true) (hm : w.isDirectory m = true) :
    (w.shiftLink d m).linkCount n = w.linkCount n := by
  unfold shiftLink
  rw [linkCount_addLink_directory (isDirectory_dropLink.trans hm), linkCount_dropLink_directory hd]

theorem linkCount_exchangeLinks {nodeA nodeB : NodeId} (hd : w.isDirectory d = true)
    (hm : w.isDirectory m = true) :
    (w.exchangeLinks d nodeA m nodeB).linkCount n = w.linkCount n := by
  unfold exchangeLinks
  split
  · split
    · exact linkCount_shiftLink hd hm
    · exact linkCount_shiftLink hm hd
  · rfl

theorem linkCount_touch : (w.touch m).linkCount n = w.linkCount n :=
  linkCount_revised fun _ => rfl

theorem linkCount_touchWith : (w.touchWith d m).linkCount n = w.linkCount n := by
  unfold touchWith
  rw [linkCount_revised, linkCount_revised]
  · rfl
  · exact fun _ => rfl
  · exact fun _ => rfl

theorem linkCount_markChanged {time : Timestamp} :
    (w.markChanged b time).linkCount n = w.linkCount n := by
  unfold markChanged
  cases w.nodeOf b with
  | none => rfl
  | some m => exact linkCount_revised fun _ => rfl

theorem linkCount_touchRenamed : (w.touchRenamed d a m b).linkCount n = w.linkCount n := by
  unfold touchRenamed
  rw [linkCount_markChanged, linkCount_markChanged, linkCount_revised, linkCount_revised]
  · rfl
  · exact fun _ => rfl
  · exact fun _ => rfl

theorem linkCount_markAccessed : (w.markAccessed m).linkCount n = w.linkCount n :=
  linkCount_revised fun _ => rfl

theorem linkCount_resized {size : Nat} : (w.resized m x size).linkCount n = w.linkCount n :=
  linkCount_revised fun _ => rfl

theorem linkCount_storeBytes {offset : Nat} {src : Bytes}
    (h : Action.storeBytes m offset src w = .ok () v) : v.linkCount n = w.linkCount n := by
  obtain ⟨node, content, host, -, -, rfl⟩ := Action.storeBytes_ok h
  exact linkCount_revised fun _ => rfl

theorem linkCount_detach : (w.detach b).linkCount n = w.linkCount n := by
  unfold detach
  split
  · rfl
  · split
    · rfl
    · rfl

theorem linkCount_unpin : (w.unpin b).linkCount n = w.linkCount n := by
  unfold unpin
  split
  · rfl
  · split
    · rfl
    · rfl

theorem linkCount_unlinked : (w.unlinked d b m).linkCount n
    = if n = m then (w.linkCount n).map .dropLink else w.linkCount n := by
  unfold unlinked
  rw [linkCount_unpin, linkCount_detach, linkCount_dropLink, linkCount_touchWith]

/-- What is replaced has the one link less that a file loses. -/
theorem linkCount_replaced {source target dirB : NodeId} (hd : w.isDirectory d = true)
    (kind : w.isDirectory target = w.isDirectory source) :
    (w.replaced d source dirB b target).linkCount n
      = if n = target then (w.linkCount n).map .dropLink else w.linkCount n := by
  have lowered : (if w.isDirectory source then (w.dropLink target).dropLink d else w).linkCount n
      = w.linkCount n := by
    split
    · next isDir =>
        rw [linkCount_dropLink_directory (isDirectory_dropLink.trans hd),
          linkCount_dropLink_directory (kind.trans isDir)]
    · rfl
  unfold replaced
  rw [linkCount_unlinked, lowered]

/-- A new node does nothing to the others. -/
theorem linkCount_pushNode : World.linkCount { w with nodes := w.nodes.push x } n
    = if n = w.nodes.nextId then x.linkCount else w.linkCount n := by
  unfold linkCount
  rw [Table.get?_push]
  split
  · rfl
  · rfl

/-! ### Where nodes may go -/

theorem linkCount_of_spared (h : Spared w v) (hv : v.linkCount n = some t) :
    w.linkCount n = some t := by
  obtain ⟨x, hx, count⟩ := linkCount_eq_some_iff.1 hv
  exact linkCount_eq_some_iff.2 ⟨x, h.nodes hx, count⟩

theorem linkCount_of_settle (h : (w.settle tasks).linkCount n = some t) :
    w.linkCount n = some t :=
  linkCount_of_spared Spared.refl.settle h

theorem linkCount_of_enter (h : (w.enter dir name b).linkCount n = some t) :
    w.linkCount n = some t := by
  unfold enter at h
  exact linkCount_modifyBinding.symm.trans (linkCount_of_settle h)

theorem linkCount_of_instantiate (h : (w.instantiate b m).linkCount n = some t) :
    w.linkCount n = some t := by
  unfold instantiate at h
  simp only at h
  split at h
  · exact linkCount_modifyBinding.symm.trans (linkCount_of_settle (linkCount_of_enter h))
  · exact linkCount_modifyBinding.symm.trans (linkCount_of_settle h)

theorem linkCount_of_moveBinding (h : (w.moveBinding b dir name).linkCount n = some t) :
    w.linkCount n = some t := by
  unfold moveBinding readdress at h
  have kept := linkCount_of_enter h
  rwa [linkCount_modifyBinding, linkCount_detach] at kept

theorem linkCount_of_exchangeBindings (h : (w.exchangeBindings a b).linkCount n = some t) :
    w.linkCount n = some t := by
  unfold exchangeBindings readdress at h
  split at h
  · have kept := linkCount_of_enter (linkCount_of_enter h)
    rwa [linkCount_modifyBinding, linkCount_modifyBinding, linkCount_detach, linkCount_detach]
      at kept
  · exact h

/-! ## Names -/

theorem alias_of_spared (h : Spared w v) (hv : v.Alias n c) : w.Alias n c :=
  ⟨h.nodeOf hv.1, hv.2.imp fun _ => h.entered⟩

/-- A name belongs to what entries and nodes there are. -/
theorem alias_congr (child : ∀ d k, v.child? d k = w.child? d k)
    (node : ∀ c, v.nodeOf c = w.nodeOf c) : v.Alias n c ↔ w.Alias n c := by
  unfold Alias Entered
  simp only [child, node]

theorem alias_of_tree (h : SameTree w v) : v.Alias n c ↔ w.Alias n c :=
  alias_congr (fun _ _ => h.child?) fun _ => h.nodeOf

end World

end Memfs
