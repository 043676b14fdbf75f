import Memfs.File
import Memfs.Proofs.Action
import Memfs.Proofs.Settling

/-!
# New bindings and new nodes

What the operations that make an object end in. A new object gets the next number of
its table, and a new node is a directory if the type bits of its mode say so. Nothing
else of the world changes but the host, and there one allocation is taken if the object
was made and none if it was not.
-/

namespace Memfs

namespace World

variable {w : World} {b : BindingId} {n : NodeId}

/-- A link that is dropped changes its node, and the journal if there was none. -/
theorem dropLink_eq : w.dropLink n
    = World.modifyNode { w with host := (w.dropLink n).host } n (·.dropLink) := by
  unfold dropLink
  split
  · next h =>
      unfold modifyNode
      rw [Table.modify_of_absent h]
  · simp only
    split
    · rfl
    · rfl

@[simp]
theorem net_dropLink {k : Resource} : (w.dropLink n).host.net k = w.host.net k := by
  unfold dropLink
  split
  · rfl
  · simp only
    split
    · rfl
    · rfl

@[simp]
theorem bindings_dropLink : (w.dropLink n).bindings = w.bindings := by
  rw [dropLink_eq]
  rfl

@[simp]
theorem files_dropLink : (w.dropLink n).files = w.files := by
  rw [dropLink_eq]
  rfl

theorem get?_dropLink {m : NodeId} : (w.dropLink n).nodes.get? m
    = if m = n then (w.nodes.get? n).map (·.dropLink) else w.nodes.get? m := by
  rw [dropLink_eq]
  exact Table.get?_modify ..

@[simp]
theorem nodeOf_dropLink : (w.dropLink n).nodeOf b = w.nodeOf b := by
  unfold nodeOf
  rw [bindings_dropLink]

@[simp]
theorem isDirectory_dropLink {m : NodeId} : (w.dropLink n).isDirectory m = w.isDirectory m := by
  unfold isDirectory
  rw [get?_dropLink]
  split
  · next same =>
      rw [same]
      cases w.nodes.get? n with
      | none => rfl
      | some x => rfl
  · rfl

/-- The node is there, and so is the instance that it was made for. -/
def LivesIn (w : World) (n : NodeId) (i : InstanceId) : Prop :=
  ∃ node, w.nodes.get? n = some node ∧ node.home = i ∧ w.instances.has i = true

end World

/-! ## Modes -/

theorem Mode.fileType_withType {mode : Mode} {type : UInt16} :
    (mode.withType type).fileType = type &&& Mode.typeMask := by
  unfold Mode.withType Mode.fileType
  rw [← UInt16.toBitVec_inj]
  ext i hi
  simp only [UInt16.toBitVec_and, UInt16.toBitVec_or, UInt16.toBitVec_not, BitVec.getElem_and,
    BitVec.getElem_or, BitVec.getElem_not]
  cases Mode.typeMask.toBitVec[i] with
  | true => simp
  | false => simp

theorem Mode.isDirectory_withType_regular {mode : Mode} :
    (mode.withType Mode.regularType).isDirectory = false := by
  unfold Mode.isDirectory
  rw [Mode.fileType_withType]
  rfl

theorem Mode.isDirectory_withType_directory {mode : Mode} :
    (mode.withType Mode.directoryType).isDirectory = true := by
  unfold Mode.isDirectory
  rw [Mode.fileType_withType]
  rfl

theorem Mode.isDirectory_of_special {mode : Mode} (h : (SpecialKind.ofMode mode).isSome) :
    mode.isDirectory = false := by
  unfold Mode.isDirectory
  rw [beq_eq_false_iff_ne]
  intro directory
  unfold SpecialKind.ofMode at h
  rw [directory] at h
  cases h

/-- The type bits alone say what is a directory. -/
theorem NodeKind.isDirectory_of_ofMode {mode : Mode} {device : DeviceNumber} {kind : NodeKind}
    (h : NodeKind.ofMode mode device = some kind) : kind.isDirectory = mode.isDirectory := by
  unfold NodeKind.ofMode at h
  unfold Mode.isDirectory
  split at h
  · next regular =>
      cases h
      rw [regular]
      rfl
  · split at h
    · next directory =>
        cases h
        rw [directory]
        rfl
    · next other =>
        rw [beq_false_of_ne other]
        split at h
        · cases h
          rfl
        · obtain ⟨_, -, rfl⟩ := Option.map_eq_some_iff.1 h
          rfl

theorem NodeKind.ofMode_withType_regular {mode : Mode} {device : DeviceNumber} :
    NodeKind.ofMode (mode.withType Mode.regularType) device = some .regular := by
  unfold NodeKind.ofMode
  rw [Mode.fileType_withType, if_pos (by decide)]

theorem NodeKind.ofMode_withType_directory {mode : Mode} {device : DeviceNumber} :
    NodeKind.ofMode (mode.withType Mode.directoryType) device = some .directory := by
  unfold NodeKind.ofMode
  rw [Mode.fileType_withType, if_neg (by decide), if_pos (by decide)]

/-- A part of a mode with the set-group bit. -/
theorem Mode.addSetGroup_and {mode : Mode} {mask : UInt16} :
    mode.addSetGroup.bits &&& mask = mode.bits &&& mask ||| Mode.setGroup &&& mask := by
  rw [← UInt16.toBitVec_inj]
  simp only [Mode.addSetGroup, UInt16.toBitVec_and, UInt16.toBitVec_or]
  exact BitVec.and_or_distrib_right

theorem Mode.fileType_addSetGroup {mode : Mode} : mode.addSetGroup.fileType = mode.fileType := by
  unfold Mode.fileType
  rw [Mode.addSetGroup_and, show Mode.setGroup &&& Mode.typeMask = 0 by decide, UInt16.or_zero]

/-- What a directory passes on is no type. -/
theorem Node.fileType_inherit {dir : Option Node} {mode : Mode} {gid : UInt32} :
    (Node.inherit dir mode gid).1.fileType = mode.fileType := by
  unfold Node.inherit
  split
  · split
    · split
      · exact Mode.fileType_addSetGroup
      · rfl
    · rfl
  · rfl

/-- Only a directory takes a bit of its mode from the directory that it is made in. -/
theorem Node.inherit_of_not_directory {dir : Option Node} {mode : Mode} {gid : UInt32}
    (file : mode.isDirectory = false) : (Node.inherit dir mode gid).1 = mode := by
  unfold Node.inherit
  cases dir with
  | none => rfl
  | some dir =>
      simp only [file, Bool.false_eq_true, if_false]
      split
      · rfl
      · rfl

/-! ## Operations -/

namespace Action

open World

variable {w w' : World} {e : Error}

@[simp]
theorem boundNode_eq_ok {b : BindingId} {n : NodeId} :
    boundNode b w = .ok n w' ↔ w.nodeOf b = some n ∧ w = w' := by
  simp [boundNode, and_comm]

@[simp]
theorem directoryOf_eq_ok {b : BindingId} {n : NodeId} :
    directoryOf b w = .ok n w' ↔ w.nodeOf b = some n ∧ w.isDirectory n = true ∧ w = w' := by
  simp only [directoryOf, bind_eq_ok, boundNode_eq_ok, get_eq_ok, ite_eq_ok, pure_eq_ok,
    throw_eq_ok, and_false, or_false]
  constructor
  · rintro ⟨m, _, ⟨hm, rfl⟩, _, _, ⟨rfl, rfl⟩, hdir, rfl, rfl⟩
    exact ⟨hm, hdir, rfl⟩
  · rintro ⟨hm, hdir, rfl⟩
    exact ⟨n, w, ⟨hm, rfl⟩, w, w, ⟨rfl, rfl⟩, hdir, rfl, rfl⟩

@[simp]
theorem takenBinding_eq_ok {dir b : BindingId} {name : String} :
    takenBinding dir name w = .ok b w' ↔ w.child? dir name = some b ∧ w = w' := by
  simp [takenBinding, and_comm]

@[simp]
theorem newBinding_eq_ok {dir b : BindingId} {name : String} :
    newBinding dir name w = .ok b w' ↔ ∃ host, w.host.acquire .binding = (true, host) ∧
      w.bindings.nextId = b ∧
      { w with host, bindings := w.bindings.push { name, parent := some dir } } = w' := by
  simp only [newBinding, bind_eq_ok, total_eq_ok, require_eq_ok, World.newBinding]
  cases h : w.host.acquire .binding with
  | mk granted host =>
      cases granted with
      | true => simp
      | false => simp

@[simp]
theorem newBinding_eq_error {dir : BindingId} {name : String} :
    newBinding dir name w = .error e w' ↔ ∃ host, w.host.acquire .binding = (false, host) ∧
      .outOfMemory = e ∧ { w with host } = w' := by
  simp only [newBinding, bind_eq_error, total_eq_ok, total_eq_error, require_eq_error,
    World.newBinding]
  cases h : w.host.acquire .binding with
  | mk granted host =>
      cases granted with
      | true => simp
      | false => simp

@[simp]
theorem node_eq_ok {n : NodeId} {found : Node} :
    node n w = .ok found w' ↔ w.nodes.get? n = some found ∧ w = w' := by
  simp [node, and_comm]

@[simp]
theorem homeOf_eq_ok {n : NodeId} {i : InstanceId} :
    homeOf n w = .ok i w' ↔ w.LivesIn n i ∧ w = w' := by
  simp only [LivesIn, homeOf, bind_eq_ok, node_eq_ok, get_eq_ok, ite_eq_ok, pure_eq_ok, throw_eq_ok,
    and_false, or_false]
  constructor
  · rintro ⟨node, _, ⟨hn, rfl⟩, _, _, ⟨rfl, rfl⟩, there, rfl, rfl⟩
    exact ⟨⟨node, hn, rfl, there⟩, rfl⟩
  · rintro ⟨⟨node, hn, rfl, there⟩, rfl⟩
    exact ⟨node, w, ⟨hn, rfl⟩, w, w, ⟨rfl, rfl⟩, there, rfl, rfl⟩

/-- A new node is paid for, and is of the kind that the mode asks for. -/
theorem newNode_made {home : InstanceId} {dir : Option NodeId} {mode : Mode} {device : DeviceNumber}
    {n : NodeId} (h : newNode home dir mode device w = .ok n w') :
    n = w.nodes.nextId ∧ ∃ host kind, w.host.acquire .node = (true, host) ∧
      NodeKind.ofMode mode device = some kind ∧
      w' = { w with
        host := host.drawIno.2.readClock.2.note (.newNode host.drawIno.1 kind)
        nodes := w.nodes.push (Node.make host.drawIno.1 kind
          (Node.inherit (dir.bind w.nodes.get?) mode host.gid).1 host.uid
          (Node.inherit (dir.bind w.nodes.get?) mode host.gid).2
          (host.drawIno.2.readClock.1.truncate
            (((w.instances.get? home).map (·.geometry.timeGrain)).getD 1)) home) } := by
  unfold newNode at h
  rw [bind_eq_ok] at h
  obtain ⟨granted, _, acquired, h⟩ := h
  obtain ⟨granted_eq, rfl⟩ := onHost_eq_ok.1 acquired
  cases granted with
  | false => simp at h
  | true =>
      simp only [if_true, bind_eq_ok, onHost_eq_ok, get_eq_ok, and_assoc] at h
      obtain ⟨ino, _, rfl, rfl, time, _, rfl, rfl, _, _, rfl, rfl, h⟩ := h
      cases hkind : NodeKind.ofMode mode device with
      | none => simp [hkind] at h
      | some kind =>
          simp only [hkind, bind_eq_ok, note_eq_ok, modify_eq_ok, pure_eq_ok] at h
          obtain ⟨_, _, rfl, _, _, rfl, rfl, rfl⟩ := h
          exact ⟨rfl, _, kind, Prod.ext granted_eq rfl, rfl, rfl⟩

/-- Its mode and its group are what the directory passes on to it. -/
theorem newNode_ok {home : InstanceId} {dir : Option NodeId} {mode : Mode} {device : DeviceNumber}
    {n : NodeId} (h : newNode home dir mode device w = .ok n w') :
    n = w.nodes.nextId ∧ ∃ host ino kind time,
      NodeKind.ofMode mode device = some kind ∧
      w' = { w with
        host
        nodes := w.nodes.push (Node.make ino kind
          (Node.inherit (dir.bind w.nodes.get?) mode host.gid).1 host.uid
          (Node.inherit (dir.bind w.nodes.get?) mode host.gid).2 time home) } ∧
      w.host.Alike host ∧ ∀ k, host.net k = w.host.net k + if k = .node then 1 else 0 := by
  obtain ⟨rfl, host, kind, acquired, hkind, rfl⟩ := newNode_made h
  refine ⟨rfl, _, _, kind, _, hkind, rfl, ?_, fun k => ?_⟩
  · exact ((Host.alike_of_acquire acquired).trans .drawn).trans (.note rfl)
  · simpa using Host.net_of_acquired acquired

/-- Its times are the next reading of the clock, as its instance keeps it. -/
theorem newNode_time {home : InstanceId} {dir : Option NodeId} {mode : Mode} {device : DeviceNumber}
    {n : NodeId} (h : newNode home dir mode device w = .ok n w') :
    w'.host.clock = w.host.clock.read.2 ∧ w'.instances = w.instances ∧
      ∃ x, w'.nodes = w.nodes.push x ∧ x.atime = x.mtime ∧ x.mtime = x.ctime ∧
        x.ctime = w.host.clock.read.1.truncate
          (((w.instances.get? home).map (·.geometry.timeGrain)).getD 1) := by
  obtain ⟨-, host, kind, acquired, -, rfl⟩ := newNode_made h
  have clock : host.clock = w.host.clock := by
    have kept : (w.host.acquire .node).2.clock = w.host.clock := by
      unfold Host.acquire
      split
      · rfl
      · rfl
    rwa [acquired] at kept
  rw [← clock]
  exact ⟨rfl, rfl, _, rfl, rfl, rfl, rfl⟩

theorem isDirectory_of_newNode {home : InstanceId} {dir : Option NodeId} {mode : Mode}
    {device : DeviceNumber} {n : NodeId} (h : newNode home dir mode device w = .ok n w') :
    w'.isDirectory n = mode.isDirectory := by
  obtain ⟨rfl, host, ino, kind, time, hkind, rfl, -⟩ := newNode_ok h
  unfold World.isDirectory
  rw [Table.get?_push_self, ← NodeKind.isDirectory_of_ofMode hkind]
  rfl

/-- No node can be had, or the mode asks for a type that no node has. Then the node is given
back. -/
theorem newNode_refused {home : InstanceId} {dir : Option NodeId} {mode : Mode}
    {device : DeviceNumber} (h : newNode home dir mode device w = .error e w') :
    (∃ host, w.host.acquire .node = (false, host) ∧
        w' = { w with host := host.note (.noNode mode) }) ∨
      ∃ host, w.host.acquire .node = (true, host) ∧ NodeKind.ofMode mode device = none ∧
        w' = { w with
          host := (host.drawIno.2.readClock.2.note (.bogusMode mode host.drawIno.1)).release
            .node } := by
  unfold newNode at h
  rcases bind_eq_error.1 h with h | ⟨granted, _, acquired, h⟩
  · exact absurd h onHost_eq_error
  obtain ⟨granted_eq, rfl⟩ := onHost_eq_ok.1 acquired
  cases granted with
  | false =>
      simp at h
      obtain ⟨-, rfl⟩ := h
      exact .inl ⟨_, Prod.ext granted_eq rfl, rfl⟩
  | true =>
      cases hkind : NodeKind.ofMode mode device with
      | some kind => simp [hkind] at h
      | none =>
          simp [hkind] at h
          obtain ⟨-, rfl⟩ := h
          exact .inr ⟨_, Prod.ext granted_eq rfl, rfl, rfl⟩

/-- Only the host has changed, which is as before. -/
theorem newNode_error {home : InstanceId} {dir : Option NodeId} {mode : Mode}
    {device : DeviceNumber} (h : newNode home dir mode device w = .error e w') :
    ∃ host, w' = { w with host } ∧ w.host.Alike host ∧ ∀ k, host.net k = w.host.net k := by
  obtain ⟨host, refused, rfl⟩ | ⟨host, acquired, -, rfl⟩ := newNode_refused h
  · refine ⟨_, rfl, (Host.alike_of_acquire refused).trans (.note rfl), fun k => ?_⟩
    simpa using Host.net_of_refused refused
  · refine ⟨_, rfl, ?_, fun k => by simp [Host.net_of_acquired acquired]⟩
    exact (((Host.alike_of_acquire acquired).trans .drawn).trans (.note rfl)).trans .released

/-- A directory is not made when no node can be. -/
theorem newDirectory_error {home : InstanceId} {dir : Option NodeId} {mode : Mode}
    {device : DeviceNumber}
    (h : newNode home dir (mode.withType Mode.directoryType) device w = .error e w') :
    ∃ host, w.host.acquire .node = (false, host) ∧
      w' = { w with host := host.note (.noNode (mode.withType Mode.directoryType)) } := by
  obtain refused | ⟨host, -, bogus, -⟩ := newNode_refused h
  · exact refused
  · rw [NodeKind.ofMode_withType_directory] at bogus
    cases bogus

/-- A file on a node without a name: the node is made, and is given to the binding and
to the file, neither of which had one. -/
theorem makeUnnamedAt_ok {dir : NodeId} {f : FileId} {mode : Mode} {opened : OpenFile}
    {x : Binding} {u : Unit} (hf : w.files.get? f = some opened) (empty : opened.node = none)
    (hx : w.bindings.get? opened.binding = some x) (negative : x.node = none)
    (h : makeUnnamedAt dir f mode w = .ok u w') : ∃ home n v name, w.LivesIn dir home ∧
      newNode home (some dir) mode .none w = .ok n v ∧ w'.nodeOf opened.binding = some n ∧
      w' = ((v.dropLink n).modifyBinding opened.binding
        fun x => { x with name, node := some n }).modifyFile f ({ · with node := some n }) := by
  unfold makeUnnamedAt at h
  simp only [bind_eq_ok, homeOf_eq_ok, modify_eq_ok, node_eq_ok, get_eq_ok, require_eq_ok] at h
  obtain ⟨home, _, ⟨lives, rfl⟩, n, v, made, _, _, rfl, node, _, ⟨-, rfl⟩, _, _, ⟨rfl, rfl⟩,
    found, _, ⟨hfound, rfl⟩, _, _, ⟨rfl, rfl⟩, h⟩ := h
  obtain ⟨-, host, ino, kind, time, -, hv, -⟩ := newNode_ok made
  have same : found = opened := by
    rw [files_dropLink, hv] at hfound
    exact Option.some.inj (hfound.symm.trans hf)
  subst same
  have hx : (v.dropLink n).bindings.get? found.binding = some x := by
    rw [bindings_dropLink, hv, hx]
  have before : (v.dropLink n).nodeOf found.binding = none := by
    rw [nodeOf_of_get? hx, negative]
  simp only [before, empty, Option.toList_none, List.map_nil, settle_nil] at h
  refine ⟨home, n, v, _, lives, made, ?_, h.symm⟩
  rw [← h]
  exact (nodeOf_modifyBinding hx).trans (if_pos rfl)

/-- The node without a name is of the type that was asked for. -/
theorem isDirectory_of_makeUnnamedAt {dir n : NodeId} {f : FileId} {mode : Mode}
    {opened : OpenFile} {x : Binding} {u : Unit} (hf : w.files.get? f = some opened)
    (empty : opened.node = none) (hx : w.bindings.get? opened.binding = some x)
    (negative : x.node = none) (h : makeUnnamedAt dir f mode w = .ok u w')
    (hn : w'.nodeOf opened.binding = some n) : w'.isDirectory n = mode.isDirectory := by
  obtain ⟨home, m, v, name, -, made, bound, rfl⟩ := makeUnnamedAt_ok hf empty hx negative h
  cases bound.symm.trans hn
  rw [← isDirectory_of_newNode made]
  exact isDirectory_dropLink

end Action

end Memfs
