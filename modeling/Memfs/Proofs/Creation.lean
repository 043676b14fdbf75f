import Memfs.Proofs.Changes.Mounts

/-!
# What a creation adds

The four operations that make a name for a new node do the same thing: they add one node
and one name that stands for it, and leave the rest of the world alone but for the times
of the directory, and its count of links if the new node is a directory too. `Gained` says
so table by table, so that nothing is left out.

What the new node is like is `Creation.Made`. The mode that is asked for goes through
three hands before it is stored, and the kind is read off it in the middle of the way, so
that they agree has to be shown for every word of sixteen bits: no change of the
permissions touches the type, and no change of the type touches the permissions.

Adding a link to a node takes away its right to be given a name if it had no link. That
directories lose nothing by it is an invariant: no directory has this right (`Barred`).
-/

namespace Memfs

/-! ## Directories are given no second name -/

/-- No directory may be given a name that it does not have. -/
def World.Barred (w : World) : Prop :=
  ∀ n x, w.nodes.get? n = some x → x.isDirectory = true → x.linkable = false

namespace World.Barred

variable {w v : World} {n : NodeId}

theorem modifyNode (h : w.Barred) {f : Node → Node} (kind : ∀ x, (f x).kind = x.kind)
    (granted : ∀ x, w.nodes.get? n = some x → (f x).linkable = true →
      x.linkable = true ∨ x.isDirectory = false) : (w.modifyNode n f).Barred := by
  intro m y hy dir
  rcases Table.get?_of_modify hy with ⟨rfl, x, hx, rfl⟩ | ⟨-, hy⟩
  · have dir : x.isDirectory = true := by
      rw [← dir, Node.isDirectory, Node.isDirectory, kind]
    rw [← Bool.not_eq_true]
    intro linkable
    rcases granted x hx linkable with was | file
    · rw [h m x hx dir] at was
      cases was
    · rw [dir] at file
      cases file
  · exact h m y hy dir

theorem change {writes : Prop} (c : Change writes w v) (h : w.Barred) : v.Barred := by
  intro n x hn
  cases c.onNodes with
  | same nodes => exact h n x (nodes ▸ hn)
  | push unlinkable nodes =>
      rw [nodes] at hn
      rcases Table.get?_of_push hn with ⟨-, rfl⟩ | ⟨-, hn⟩
      · exact fun _ => unlinkable
      · exact h n x hn
  | modify rest granted _ nodes =>
      exact h.modifyNode (fun x => by rw [rest x]) granted n x (nodes ▸ hn)
  | erase nodes =>
      rw [nodes] at hn
      exact h n x (Table.get?_of_erase hn)

theorem run (clock : Clock) (calls : List Call) : ((World.fresh clock).run calls).Barred := by
  refine World.run_keeps (P := Barred) (fun c h => h.change c) (fun n x hn => ?_) calls
  rw [World.fresh, Table.get?_empty] at hn
  cases hn

end World.Barred

/-! ## Types and permissions -/

namespace Mode

theorem permissions_withType {mode : Mode} {type : UInt16} :
    (mode.withType type).permissions = mode.permissions := by
  unfold withType permissions
  rw [show typeMask = ~~~permissionMask by decide, ← UInt16.toBitVec_inj]
  ext i hi
  simp only [UInt16.toBitVec_and, UInt16.toBitVec_or, UInt16.toBitVec_not, BitVec.getElem_and,
    BitVec.getElem_or, BitVec.getElem_not]
  cases permissionMask.toBitVec[i] with
  | true => simp
  | false => simp

theorem permissions_addSetGroup {mode : Mode} :
    mode.addSetGroup.permissions = mode.permissions ||| setGroup := by
  unfold permissions
  rw [addSetGroup_and, show setGroup &&& permissionMask = setGroup by decide]

end Mode

/-- The type bits of a kind. -/
def NodeKind.type : NodeKind → UInt16
  | regular => Mode.regularType
  | directory => Mode.directoryType
  | symlink => Mode.symlinkType
  | special .charDevice _ => Mode.charType
  | special .blockDevice _ => Mode.blockType
  | special .fifo _ => Mode.fifoType
  | special .socket _ => Mode.socketType

theorem NodeKind.type_of_ofMode {mode : Mode} {device : DeviceNumber} {kind : NodeKind}
    (h : NodeKind.ofMode mode device = some kind) : mode.fileType = kind.type := by
  unfold NodeKind.ofMode NodeKind.ofSpecialMode SpecialKind.ofMode at h
  grind [NodeKind.type]

theorem NodeKind.isDirectory_iff {kind : NodeKind} :
    kind.isDirectory = true ↔ kind = .directory := by
  cases kind with
  | directory => exact ⟨fun _ => rfl, fun _ => rfl⟩
  | regular => exact ⟨nofun, nofun⟩
  | symlink => exact ⟨nofun, nofun⟩
  | special => exact ⟨nofun, nofun⟩

/-- What a directory passes on is the set-group bit, and only to a directory. -/
theorem Node.permissions_inherit {dir : Node} {mode : Mode} {gid : UInt32} :
    (Node.inherit (some dir) mode gid).1.permissions
      = if mode.isDirectory = true ∧ dir.mode.passesGroup = true
        then mode.permissions ||| Mode.setGroup else mode.permissions := by
  simp only [Node.inherit]
  cases dir.mode.passesGroup with
  | false => simp
  | true =>
      cases mode.isDirectory with
      | false => rfl
      | true => exact Mode.permissions_addSetGroup

/-! ## What is asked for and what is made -/

/-- What is to be created. -/
inductive Creation where
  | file (mode : Mode)
  | directory (mode : Mode)
  | node (mode : Mode) (device : DeviceNumber)
  | symlink (target : String)

namespace Creation

/-- The operation that creates it. -/
def act (dir : BindingId) (name : String) : Creation → Action BindingId
  | file mode => Action.create dir name mode
  | directory mode => Action.mkdir dir name mode
  | node mode device => Action.mknod dir name mode device
  | symlink target => Action.symlink dir name target

/-- The kind of node that is asked for. A mode of a type that `mknod` does not make asks for
none. -/
def kind : Creation → Option NodeKind
  | file _ => some .regular
  | directory _ => some .directory
  | symlink _ => some .symlink
  | node mode device =>
    if mode.fileType = 0 ∨ mode.fileType = Mode.regularType then some .regular
    else if mode.fileType = Mode.charType then some (.special .charDevice device)
    else if mode.fileType = Mode.blockType then some (.special .blockDevice device)
    else if mode.fileType = Mode.fifoType then some (.special .fifo .none)
    else if mode.fileType = Mode.socketType then some (.special .socket .none)
    else none

/-- The permissions that are asked for. -/
def permissions : Creation → UInt16
  | file mode => mode.permissions
  | directory mode => mode.permissions
  | node mode _ => mode.permissions
  | symlink _ => 0o777

/-- The mode that the node is drawn for. -/
def mode : Creation → Mode
  | file mode => mode.withType Mode.regularType
  | directory mode => mode.withType Mode.directoryType
  | symlink _ => Action.symlinkMode
  | node mode _ =>
    if mode.fileType = 0 ∨ mode.fileType = Mode.regularType then mode.withType Mode.regularType
    else mode

/-- The device number that the node is drawn for. A regular file has none. -/
def device : Creation → DeviceNumber
  | node mode device =>
    if mode.fileType = 0 ∨ mode.fileType = Mode.regularType then .none else device
  | _ => .none

/-- The links that the directory gains, as a counter of 32 bits counts. -/
def links : Creation → UInt32
  | directory _ => 1
  | _ => 0

/-- What a new node is like. `passing` says that the directory passes its group on. -/
structure Made (c : Creation) (passing : Bool) (x : Node) : Prop where
  kind : c.kind = some x.kind
  type : x.mode.fileType = x.kind.type
  permissions : x.mode.permissions
    = if x.kind = .directory ∧ passing = true then c.permissions ||| Mode.setGroup
      else c.permissions
  times : x.atime = x.mtime ∧ x.mtime = x.ctime
  links : x.links = if x.kind = .directory then 2 else 1

theorem permissions_mode {c : Creation} : c.mode.permissions = c.permissions := by
  cases c with
  | file mode => exact Mode.permissions_withType
  | directory mode => exact Mode.permissions_withType
  | symlink target =>
      change Action.symlinkMode.permissions = 0o777
      decide
  | node mode device =>
      simp only [Creation.mode, Creation.permissions]
      split
      · exact Mode.permissions_withType
      · rfl

/-- A mode without a type asks for a regular file. -/
theorem ofMode_regular {mode : Mode} (given : DeviceNumber)
    (file : mode.fileType = 0 ∨ mode.fileType = Mode.regularType) :
    (node mode given).mode = mode.withType Mode.regularType ∧ (node mode given).device = .none ∧
      NodeKind.ofMode (node mode given).mode (node mode given).device = (node mode given).kind := by
  simp only [Creation.mode, Creation.device, Creation.kind, if_pos file, true_and]
  exact NodeKind.ofMode_withType_regular

/-- A type that only `mknod` makes. -/
theorem ofMode_special {mode : Mode} {given : DeviceNumber}
    (special : (SpecialKind.ofMode mode).isSome = true) :
    (node mode given).mode = mode ∧ (node mode given).device = given ∧
      NodeKind.ofMode (node mode given).mode (node mode given).device = (node mode given).kind := by
  have types : mode.fileType = Mode.charType ∨ mode.fileType = Mode.blockType ∨
      mode.fileType = Mode.fifoType ∨ mode.fileType = Mode.socketType := by
    unfold SpecialKind.ofMode at special
    grind
  have irregular : ¬ (mode.fileType = 0 ∨ mode.fileType = Mode.regularType) := by
    rcases types with type | type | type | type
    all_goals
      rw [type]
      decide
  have mode_eq : (node mode given).mode = mode := if_neg irregular
  have device_eq : (node mode given).device = given := if_neg irregular
  refine ⟨mode_eq, device_eq, ?_⟩
  rw [mode_eq, device_eq, Creation.kind, if_neg irregular]
  simp only [NodeKind.ofMode, NodeKind.ofSpecialMode, SpecialKind.ofMode]
  rcases types with type | type | type | type
  all_goals
    rw [type]
    rfl

end Creation

/-- The node was drawn on a host for a mode in a directory, and may have been given content
since. -/
def Node.DrawnIn (dir : Node) (host : Host) (mode : Mode) (device : DeviceNumber) (x : Node) :
    Prop :=
  ∃ ino kind time home content, NodeKind.ofMode mode device = some kind ∧
    x = { Node.make ino kind (Node.inherit (some dir) mode host.gid).1 host.uid
      (Node.inherit (some dir) mode host.gid).2 time home with content }

/-- Whatever the directory passes on, the node is of the type that was asked for. -/
theorem Node.DrawnIn.made {dir x : Node} {host : Host} {c : Creation}
    (h : dir.DrawnIn host c.mode c.device x) (known : NodeKind.ofMode c.mode c.device = c.kind) :
    c.Made dir.mode.passesGroup x := by
  obtain ⟨ino, k, time, home, content, asked, rfl⟩ := h
  have directory : c.mode.isDirectory = true ↔ k = .directory := by
    rw [← NodeKind.isDirectory_of_ofMode asked]
    exact NodeKind.isDirectory_iff
  refine ⟨known.symm.trans asked, ?_, ?_, ⟨rfl, rfl⟩, ?_⟩
  · exact Node.fileType_inherit.trans (NodeKind.type_of_ofMode asked)
  · change (Node.inherit (some dir) c.mode host.gid).1.permissions
      = if k = .directory ∧ dir.mode.passesGroup = true then _ else _
    simp only [← directory, ← Creation.permissions_mode]
    exact Node.permissions_inherit
  · change (if k.isDirectory = true then (2 : UInt32) else 1) = if k = .directory then 2 else 1
    simp only [NodeKind.isDirectory_iff]

/-- Of a host it matters only who the caller is. -/
theorem Node.DrawnIn.alike {dir x : Node} {host host' : Host} {mode : Mode}
    {device : DeviceNumber} (h : dir.DrawnIn host' mode device x) (same : host.Alike host') :
    dir.DrawnIn host mode device x := by
  unfold Node.DrawnIn
  rw [← same.uid, ← same.gid]
  exact h

theorem Node.DrawnIn.unlinkable {dir x : Node} {host : Host} {mode : Mode} {device : DeviceNumber}
    (h : dir.DrawnIn host mode device x) : x.linkable = false := by
  obtain ⟨ino, kind, time, home, content, -, rfl⟩ := h
  rfl

/-! ## What else is different -/

namespace World

/-- One node more, and one name for it. -/
structure Gained (w v : World) (dir : BindingId) (m : NodeId) (name : String) (b : BindingId)
    (n : NodeId) (x : Node) (links : UInt32) : Prop where
  /-- The name was free, and the binding and the node are new. -/
  free : w.child? dir name = none
  unborn : w.bindings.get? b = none ∧ w.nodes.get? n = none
  /-- The name is the one entry that is new. -/
  entries : ∀ d k, v.child? d k = if d = dir ∧ k = name then some b else w.child? d k
  binding : v.bindings.get? b
    = some { name, parent := some dir, node := some n, children := ∅, pins := 1 }
  node : v.nodes.get? n = some x
  alone : ∀ c, v.nodeOf c = some n ↔ c = b
  /-- The other bindings are as they were, but for the entry. -/
  bindings : ∀ c, c ≠ b → v.bindings.get? c = if c = dir
    then (w.bindings.get? c).map fun y => { y with children := y.children.insert name b }
    else w.bindings.get? c
  /-- The other nodes are as they were, but for the directory. -/
  nodes : ∀ k, k ≠ n → k ≠ m → v.nodes.get? k = w.nodes.get? k
  directory : ∃ y time, w.nodes.get? m = some y ∧
    v.nodes.get? m = some { y with mtime := time, ctime := time, links := y.links + links }
  /-- Nothing else has changed but the host. -/
  rest : v.files = w.files ∧ v.instances = w.instances ∧ v.contexts = w.contexts ∧
    v.held = w.held ∧ v.types = w.types ∧ v.puts = w.puts

/-- A binding and a node that are not yet connected. -/
def unjoined (w : World) (host : Host) (dir : BindingId) (name : String) (x : Node) : World :=
  { w with
    host
    bindings := w.bindings.push { name, parent := some dir }
    nodes := w.nodes.push x }

/-- They are connected, and the binding comes into the directory. -/
def joined (w : World) (host : Host) (dir : BindingId) (m : NodeId) (name : String) (x : Node) :
    World :=
  (((w.unjoined host dir name x).instantiate w.bindings.nextId w.nodes.nextId).pin
    w.bindings.nextId).touch m

variable {w v : World} {dir b : BindingId} {m n : NodeId} {name : String} {x y : Node} {host : Host}

/-- What the tables are then. -/
theorem joined_eq (vacant : Vacant (w.unjoined host dir name x) w.bindings.nextId dir name) :
    ∃ host' time, w.joined host dir m name x = { w with
      host := host'
      bindings := (((w.bindings.push { name, parent := some dir }).modify w.bindings.nextId
        ({ · with node := some w.nodes.nextId })).modify dir fun z =>
          { z with children := z.children.insert name w.bindings.nextId }).modify
        w.bindings.nextId fun z => { z with pins := z.pins + 1 }
      nodes := (w.nodes.push x).modify m (·.written time) } := by
  obtain ⟨z, hz⟩ := Table.has_iff.1 (has_of_parentOf vacant.parent)
  unfold joined
  rw [vacant.instantiate_eq, enter_eq]
  · exact ⟨_, _, rfl⟩
  · rw [child?_modifyBinding_of_children_eq hz rfl, vacant.free]

section Joined

variable (vacant : Vacant (w.unjoined host dir name x) w.bindings.nextId dir name)
  (elsewhere : dir ≠ w.bindings.nextId)

include vacant elsewhere

theorem get?_joined_self : (w.joined host dir m name x).bindings.get? w.bindings.nextId
    = some { name, parent := some dir, node := some w.nodes.nextId, pins := 1 } := by
  obtain ⟨_, time, eq⟩ := joined_eq (m := m) vacant
  rw [eq]
  simp [Table.get?_modify, Table.get?_push_self, elsewhere.symm]

theorem get?_joined_of_ne (other : b ≠ w.bindings.nextId) :
    (w.joined host dir m name x).bindings.get? b = if b = dir
      then (w.bindings.get? b).map fun y =>
        { y with children := y.children.insert name w.bindings.nextId }
      else w.bindings.get? b := by
  obtain ⟨_, time, eq⟩ := joined_eq (m := m) vacant
  rw [eq]
  simp only [Table.get?_modify_of_ne other, Table.get?_modify, Table.get?_push_of_ne other,
    if_neg elsewhere, Table.get?_push_of_ne elsewhere]
  split
  · next here => rw [here]
  · rfl

theorem nodeOf_joined_of_ne (other : b ≠ w.bindings.nextId) :
    (w.joined host dir m name x).nodeOf b = w.nodeOf b := by
  unfold nodeOf
  rw [get?_joined_of_ne vacant elsewhere other]
  split
  · cases w.bindings.get? b with
    | none => rfl
    | some y => rfl
  · rfl

theorem child?_joined {k : String} (there : w.bindings.has dir = true) :
    (w.joined host dir m name x).child? b k
      = if b = dir ∧ k = name then some w.bindings.nextId else w.child? b k := by
  obtain ⟨z, hz⟩ := Table.has_iff.1 there
  by_cases new : b = w.bindings.nextId
  · rw [new, if_neg fun h => elsewhere h.1.symm, child?, child?,
      get?_joined_self vacant elsewhere, Table.get?_nextId]
    exact Std.TreeMap.getElem?_emptyc
  · rw [child?, get?_joined_of_ne vacant elsewhere new]
    by_cases here : b = dir
    · rw [if_pos here, here, hz, Option.map_some, Option.bind_some, getElem?_insert_name,
        child?_of_get? hz]
      simp
    · rw [if_neg here, if_neg fun h => here h.1, child?]

end Joined

theorem gained_joined (s : Sound w [])
    (vacant : Vacant (w.unjoined host dir name x) w.bindings.nextId dir name)
    (bound : w.nodeOf dir = some m) (hy : w.nodes.get? m = some y)
    (free : w.child? dir name = none) :
    w.Gained (w.joined host dir m name x) dir m name w.bindings.nextId w.nodes.nextId x 0 := by
  obtain ⟨_, time, eq⟩ := joined_eq (m := m) vacant
  obtain ⟨z, hz, -⟩ := nodeOf_eq_some_iff.1 bound
  have elsewhere : dir ≠ w.bindings.nextId := Nat.ne_of_lt (Table.get?_lt hz)
  have other : m ≠ w.nodes.nextId := Nat.ne_of_lt (Table.get?_lt hy)
  refine {
    free
    unborn := ⟨Table.get?_nextId, Table.get?_nextId⟩
    entries := fun d k => child?_joined vacant elsewhere (Table.has_of_get? hz)
    binding := get?_joined_self vacant elsewhere
    node := by
      rw [eq]
      exact (Table.get?_modify_of_ne other.symm).trans Table.get?_push_self
    alone := fun c => ?_
    bindings := fun c => get?_joined_of_ne vacant elsewhere
    nodes := fun k new old => ?_
    directory := ⟨y, time, hy, ?_⟩
    rest := by
      rw [eq]
      exact ⟨rfl, rfl, rfl, rfl, rfl, rfl⟩ }
  · constructor
    · intro hc
      by_contra old
      rw [nodeOf_joined_of_ne vacant elsewhere old] at hc
      -- No binding that was there before can own a node that was not.
      exact s.tended.fresh_node (owned_of_nodeOf hc)
    · rintro rfl
      exact nodeOf_of_get? (get?_joined_self vacant elsewhere)
  · rw [eq]
    exact (Table.get?_modify_of_ne old).trans (Table.get?_push_of_ne new)
  · rw [eq]
    simp [Table.get?_modify, Table.get?_push_of_ne other, hy, Node.written]

/-- A directory that has another one in it has a link from it. -/
theorem Gained.addLink (h : w.Gained v dir m name b n x 0) (barred : w.Barred)
    (isDir : w.isDirectory m = true) : w.Gained (v.addLink m) dir m name b n x 1 := by
  obtain ⟨y, time, hy, hv⟩ := h.directory
  have other : n ≠ m := by
    rintro rfl
    cases h.unborn.2.symm.trans hy
  have linkable : y.linkable = false := by
    refine barred m y hy ?_
    rwa [isDirectory, hy] at isDir
  refine { h with
    node := (Table.get?_modify_of_ne other).trans h.node
    nodes := fun k new old => ?_
    directory := ⟨y, time, hy, ?_⟩ }
  · exact (Table.get?_modify_of_ne old).trans (h.nodes k new old)
  · rw [World.addLink, modifyNode, Table.get?_modify, if_pos rfl, hv]
    simp [Node.addLink, linkable]

end World

/-! ## Each operation -/

namespace Action

open World

variable {w u v : World} {dir b : BindingId} {m n : NodeId} {name : String} {y : Node}

/-- A node is drawn for the mode, whoever is to have it. -/
theorem newNode_drawn {home : InstanceId} {mode : Mode} {device : DeviceNumber}
    (made : newNode home (some m) mode device w = .ok n v) (hy : w.nodes.get? m = some y) :
    n = w.nodes.nextId ∧ ∃ host x, y.DrawnIn w.host mode device x ∧
      v = { w with host, nodes := w.nodes.push x } := by
  obtain ⟨rfl, host, ino, kind, time, asked, rest, alike, -⟩ := newNode_ok made
  rw [Option.bind_some, hy, alike.uid, alike.gid] at rest
  exact ⟨rfl, host, _, ⟨ino, kind, time, home, _, asked, rfl⟩, rest⟩

theorem joined_of_makeAt {mode : Mode} {device : DeviceNumber}
    (fresh : newBinding dir name w = .ok b u) (hy : w.nodes.get? m = some y)
    (done : makeAt m b mode device u = .ok () v) :
    ∃ host x, y.DrawnIn w.host mode device x ∧ v = w.joined host dir m name x := by
  obtain ⟨host, acquired, rfl, rfl⟩ := newBinding_eq_ok.1 fresh
  obtain ⟨home, n, t, -, made, rfl⟩ := makeAt_ok done
  obtain ⟨rfl, host', x, drawn, rfl⟩ := newNode_drawn made hy
  exact ⟨host', x, drawn.alike (Host.alike_of_acquire acquired), rfl⟩

theorem joined_of_makeSymlinkAt {target : String} (fresh : newBinding dir name w = .ok b u)
    (hy : w.nodes.get? m = some y) (done : makeSymlinkAt m b target u = .ok () v) :
    ∃ host x, y.DrawnIn w.host symlinkMode .none x ∧ v = w.joined host dir m name x := by
  obtain ⟨host, acquired, rfl, rfl⟩ := newBinding_eq_ok.1 fresh
  obtain ⟨home, n, t, t', -, made, stored, rfl⟩ := makeSymlinkAt_ok done
  obtain ⟨rfl, host', ino, time, content, rfl, -⟩ := newSymlink_ok made stored
  have file : symlinkMode.isDirectory = false := by decide
  have alike := Host.alike_of_acquire acquired
  refine ⟨host', _, ⟨ino, .symlink, time, home, content, rfl, ?_⟩, rfl⟩
  rw [Node.inherit_of_not_directory file, Option.bind_some, hy, alike.uid, alike.gid]

end Action

namespace Sound

open World

variable {w v : World} {dir b : BindingId} {m : NodeId} {name : String} {y : Node}

/-- Whatever node is joined to the binding that a name is made for, nothing more is gained. -/
theorem gained (s : Sound w []) {make : NodeId → BindingId → Action Unit}
    (checked : checkName name = .ok ()) (bound : w.nodeOf dir = some m)
    (isDir : w.isDirectory m = true) (done : Action.makeName dir m name make w = .ok b v) :
    ∃ y u, w.nodes.get? m = some y ∧ Action.newBinding dir name w = .ok b u ∧
      make m b u = .ok () v ∧ ∀ host x,
        w.Gained (w.joined host dir m name x) dir m name b w.nodes.nextId x 0 := by
  obtain ⟨y, hy, -⟩ := (Option.any_eq_true _ _).1 isDir
  obtain ⟨free, u, fresh, made⟩ := Action.makeName_ok done
  have vacant := (s.newBinding bound isDir checked free fresh).2
  refine ⟨y, u, hy, fresh, made, fun host x => ?_⟩
  obtain ⟨_, -, rfl, rfl⟩ := Action.newBinding_eq_ok.1 fresh
  exact gained_joined s (vacant.of_bindings rfl) bound hy free

/-- Each of the four operations, told what node was drawn. -/
theorem drawn_by (s : Sound w []) (barred : w.Barred) {c : Creation}
    (done : c.act dir name w = .ok b v) : ∃ m y x,
      w.nodeOf dir = some m ∧ w.nodes.get? m = some y ∧ y.isDirectory = true ∧
      NodeKind.ofMode c.mode c.device = c.kind ∧ y.DrawnIn w.host c.mode c.device x ∧
      w.Gained v dir m name b w.nodes.nextId x c.links := by
  have directory : ∀ {m y}, w.nodes.get? m = some y → w.isDirectory m = true →
      y.isDirectory = true := by
    intro m y hy isDir
    rwa [World.isDirectory, hy] at isDir
  cases c with
  | file mode =>
      obtain ⟨checked, m, bound, isDir, done⟩ := Action.create_ok done
      obtain ⟨y, u, hy, fresh, made, gained⟩ := s.gained checked bound isDir done
      obtain ⟨host, x, drawn, rfl⟩ := Action.joined_of_makeAt fresh hy made
      exact ⟨m, y, x, bound, hy, directory hy isDir, NodeKind.ofMode_withType_regular, drawn,
        gained host x⟩
  | directory mode =>
      obtain ⟨checked, m, bound, isDir, done⟩ := Action.mkdir_ok done
      obtain ⟨y, u, hy, fresh, made, gained⟩ := s.gained checked bound isDir done
      obtain ⟨v, bare, rfl⟩ := Action.makeDirectoryAt_ok made
      obtain ⟨host, x, drawn, rfl⟩ := Action.joined_of_makeAt fresh hy bare
      exact ⟨m, y, x, bound, hy, directory hy isDir, NodeKind.ofMode_withType_directory, drawn,
        (gained host x).addLink barred isDir⟩
  | node mode device =>
      obtain ⟨checked, m, full, given, bound, isDir, type, done⟩ := Action.mknod_ok done
      obtain ⟨y, u, hy, fresh, made, gained⟩ := s.gained checked bound isDir done
      obtain ⟨host, x, drawn, rfl⟩ := Action.joined_of_makeAt fresh hy made
      refine ⟨m, y, x, bound, hy, directory hy isDir, ?_⟩
      rcases type with ⟨file, rfl, rfl⟩ | ⟨special, rfl, rfl⟩
      · obtain ⟨mode_eq, device_eq, known⟩ := Creation.ofMode_regular device file
        exact ⟨known, by rwa [mode_eq, device_eq], gained host x⟩
      · obtain ⟨mode_eq, device_eq, known⟩ := Creation.ofMode_special special
        exact ⟨known, by rwa [mode_eq, device_eq], gained host x⟩
  | symlink target =>
      obtain ⟨checked, m, bound, isDir, done⟩ := Action.symlink_ok done
      obtain ⟨y, u, hy, fresh, made, gained⟩ := s.gained checked bound isDir done
      obtain ⟨host, x, drawn, rfl⟩ := Action.joined_of_makeSymlinkAt fresh hy made
      have known : NodeKind.ofMode Action.symlinkMode .none = some .symlink := by decide
      exact ⟨m, y, x, bound, hy, directory hy isDir, known, drawn, gained host x⟩

/-- What the new node has become. It has a name, so it is not linkable. -/
theorem gained_next (s : Sound w []) (barred : w.Barred) {c : Creation}
    (done : c.act dir name w = .ok b v) : ∃ m y x,
      w.nodeOf dir = some m ∧ w.nodes.get? m = some y ∧ c.Made y.mode.passesGroup x ∧
      x.linkable = false ∧ w.Gained v dir m name b w.nodes.nextId x c.links := by
  obtain ⟨m, y, x, bound, hy, -, known, drawn, gained⟩ := s.drawn_by barred done
  exact ⟨m, y, x, bound, hy, drawn.made known, drawn.unlinkable, gained⟩

theorem gained_by (s : Sound w []) (barred : w.Barred) {c : Creation}
    (done : c.act dir name w = .ok b v) : ∃ m y n x,
      w.nodeOf dir = some m ∧ w.nodes.get? m = some y ∧ c.Made y.mode.passesGroup x ∧
      w.Gained v dir m name b n x c.links := by
  obtain ⟨m, y, x, bound, hy, made, -, gained⟩ := s.gained_next barred done
  exact ⟨m, y, _, x, bound, hy, made, gained⟩

end Sound

/-! ## After any run -/

/-- A creation that succeeds, in whatever state: the new node is what was asked for, and but
for the name, the node, and the times and links of the directory nothing has changed. -/
theorem creation_run (clock : Clock) (calls : List Call) (c : Creation) {dir b : BindingId}
    {name : String} {v : World} (done : c.act dir name ((World.fresh clock).run calls) = .ok b v) :
    ∃ m y n x, ((World.fresh clock).run calls).nodeOf dir = some m ∧
      ((World.fresh clock).run calls).nodes.get? m = some y ∧ c.Made y.mode.passesGroup x ∧
      ((World.fresh clock).run calls).Gained v dir m name b n x c.links :=
  (Sound.fresh.run calls).gained_by (.run clock calls) done

/-- A directory in a directory that passes its group on passes it on too, and the directory
that it is in has three links then. -/
theorem creation_run_passing :
    let before : List Call :=
      [.register builtInType, .mount "tagfs" "", .operate (.mkdir 0 "d" ⟨0o2755⟩)]
    ∃ v n x y, Action.mkdir 1 "e" ⟨0o755⟩ ((World.fresh (.steady 0 0 1)).run before) = .ok 2 v ∧
      v.child? 1 "e" = some 2 ∧ v.nodeOf 2 = some n ∧ v.nodes.get? n = some x ∧
      x.mode.fileType = Mode.directoryType ∧ x.mode.permissions = 0o2755 ∧ x.links = 2 ∧
      v.nodes.get? 1 = some y ∧ y.links = 3 := by
  intro before
  have seen : (match Action.mkdir 1 "e" ⟨0o755⟩ ((World.fresh (.steady 0 0 1)).run before) with
      | .ok b _ => some b
      | .error _ _ => none) = some 2 := by decide +kernel
  have parent : ((World.fresh (.steady 0 0 1)).run before).nodeOf 1 = some 1 ∧
      (((World.fresh (.steady 0 0 1)).run before).nodes.get? 1).map
        (fun y => (y.mode.passesGroup, y.links)) = some (true, 2) := by decide +kernel
  cases done : Action.mkdir 1 "e" ⟨0o755⟩ ((World.fresh (.steady 0 0 1)).run before) with
  | error e v =>
      rw [done] at seen
      cases seen
  | ok b v =>
      rw [done] at seen
      cases seen
      obtain ⟨m, y, n, x, bound, hy, made, gained⟩ :=
        creation_run (.steady 0 0 1) before (.directory ⟨0o755⟩) done
      cases parent.1.symm.trans bound
      have passes : y.mode.passesGroup = true ∧ y.links = 2 := by
        have known := parent.2
        rw [hy] at known
        exact ⟨congrArg Prod.fst (Option.some.inj known), congrArg Prod.snd (Option.some.inj known)⟩
      have kind : x.kind = .directory := (Option.some.inj made.kind).symm
      obtain ⟨z, time, hz, there⟩ := gained.directory
      cases hy.symm.trans hz
      refine ⟨v, n, x, _, rfl, ?_, (gained.alone 2).2 rfl, gained.node, ?_, ?_, ?_, there, ?_⟩
      · rw [gained.entries, if_pos ⟨rfl, rfl⟩]
      · rw [made.type, kind]
        rfl
      · rw [made.permissions, if_pos ⟨kind, passes.1⟩]
        decide
      · rw [made.links, if_pos kind]
      · rw [passes.2]
        rfl

end Memfs
