import Memfs.Proofs.Effects.Files
import Memfs.Proofs.Effects.Mounts
import Memfs.Proofs.Homes

/-!
# Changes inside of an instance

What belongs to an instance is its realm, together with the numbers that have yet to be
given out. `Closed` says that no entry, no file and no node of a binding leads out of the
realm, and `Inside` that a change has kept this and has touched nothing outside: what a
step may change, it reaches from the realm. Membership in the realm is a matter of
numbers, so it is looked up before an operation begins and holds on its way.

Some operations make names and nodes, the others do not (`grows` is then false) and leave
the instance with fewer of them at most.
-/

namespace Memfs

open World

/-- The numbers of the nodes, bindings and files that a change may touch. -/
structure Realm where
  node : NodeId → Prop
  binding : BindingId → Prop
  file : FileId → Prop

/-- What belongs to an instance, and what is yet to be made. -/
def World.realm (w : World) (i : InstanceId) : Realm where
  node n := w.nodes.nextId ≤ n ∨ w.nodeHome n = some i
  binding b := w.bindings.nextId ≤ b ∨ w.bindingHome b = some i
  file f := w.files.nextId ≤ f ∨ w.fileHome f = some i

namespace World

variable {w : World} {i : InstanceId}

/-! What is there is in the realm of the instance that it belongs to. -/

theorem realm_node {n : NodeId} (there : w.nodes.has n = true) :
    (w.realm i).node n ↔ w.nodeHome n = some i := by
  obtain ⟨x, hx⟩ := Table.has_iff.1 there
  exact or_iff_right (Nat.not_le_of_lt (Table.get?_lt hx))

theorem realm_binding {b : BindingId} (there : w.bindings.has b = true) :
    (w.realm i).binding b ↔ w.bindingHome b = some i := by
  obtain ⟨x, hx⟩ := Table.has_iff.1 there
  exact or_iff_right (Nat.not_le_of_lt (Table.get?_lt hx))

theorem realm_file {f : FileId} (there : w.files.has f = true) :
    (w.realm i).file f ↔ w.fileHome f = some i := by
  obtain ⟨x, hx⟩ := Table.has_iff.1 there
  exact or_iff_right (Nat.not_le_of_lt (Table.get?_lt hx))

end World

/-- Nothing leads out of the realm, and its nodes were made for the instance. -/
structure Closed (R : Realm) (i : InstanceId) (v : World) : Prop where
  newNode : ∀ {n}, v.nodes.nextId ≤ n → R.node n
  newBinding : ∀ {b}, v.bindings.nextId ≤ b → R.binding b
  newFile : ∀ {f}, v.files.nextId ≤ f → R.file f
  home : ∀ {n x}, R.node n → v.nodes.get? n = some x → x.home = i
  bound : ∀ {b n}, R.binding b → v.nodeOf b = some n → R.node n
  child : ∀ {d name c}, v.child? d name = some c → (R.binding d ↔ R.binding c)
  file : ∀ {f x}, R.file f → v.files.get? f = some x → R.binding x.binding ∧
    ∀ n, x.node = some n → v.nodeOf x.binding = some n
  root : ∀ {inst root}, v.instances.get? i = some inst → inst.root = some root →
    R.binding root ∧ ∃ n, v.nodeOf root = some n

/-- Nothing outside of the realm of the instance is touched on the way from `w` to `v`. -/
structure Inside (grows : Prop) (R : Realm) (i : InstanceId) (w v : World) : Prop where
  closed : Closed R i v
  nodes : ∀ {n}, ¬ R.node n → v.nodes.get? n = w.nodes.get? n
  bindings : ∀ {b}, ¬ R.binding b → v.bindings.get? b = w.bindings.get? b
  files : ∀ {f}, ¬ R.file f → v.files.get? f = w.files.get? f
  instances : ∀ {j}, j ≠ i → v.instances.get? j = w.instances.get? j
  next : v.instances.nextId = w.instances.nextId
  contexts : v.contexts = w.contexts
  types : v.types = w.types
  held : v.held = w.held
  fewer : ¬ grows → Fewer i w v

/-- In a world in order the realm of an instance is closed. -/
theorem Homed.closed {w : World} {todo : List Task} (h : Homed w) (s : Sound w todo)
    (i : InstanceId) :
    Closed (w.realm i) i w where
  newNode := .inl
  newBinding := .inl
  newFile := .inl
  home inside hx := by
    have home := (realm_node (Table.has_of_get? hx)).1 inside
    exact Option.some.inj ((nodeHome_of_get? hx).symm.trans home)
  bound inside hn := by
    obtain ⟨x, hx, -⟩ := nodeOf_eq_some_iff.1 hn
    have home := (realm_binding (Table.has_of_get? hx)).1 inside
    exact .inr ((bindingHome_of_nodeOf hn).symm.trans home)
  child entry := by
    have parent := (s.forest.entry entry).2
    rw [realm_binding (has_parent parent), realm_binding (has_of_parentOf parent),
      h.bindingHome_child s entry]
  file inside hx := by
    have home := (realm_file (Table.has_of_get? hx)).1 inside
    obtain ⟨y, n, hy, hn, home⟩ := fileHome_eq_some_iff.1 home
    cases hx.symm.trans hy
    have bound := h.nodeOf_file s hx hn
    refine ⟨.inr ((bindingHome_of_nodeOf bound).trans home), fun m hm => ?_⟩
    cases hn.symm.trans hm
    exact bound
  root hi hroot := by
    have home := h.bindingHome_root s hi hroot
    obtain ⟨n, hn, -⟩ := bindingHome_eq_some_iff.1 home
    exact ⟨.inr home, n, hn⟩

namespace Inside

variable {grows : Prop} {R : Realm} {i : InstanceId} {w v : World} {n : NodeId} {b c d : BindingId}
  {f : FileId} {name : String}

theorem refl (closed : Closed R i w) : Inside grows R i w w :=
  ⟨closed, fun _ => rfl, fun _ => rfl, fun _ => rfl, fun _ => rfl, rfl, rfl, rfl, rfl,
    fun _ => .refl⟩

/-! ## Each table by itself -/

theorem aside (h : Inside grows R i w v) {host : Host} {puts : List (String × Nat)} :
    Inside grows R i w { v with host, puts } :=
  { h with
    closed := { h.closed with }
    fewer := fun still => (h.fewer still).trans (.of_tables id id id) }

theorem onNodes (h : Inside grows R i w v) {nodes : Table Node}
    (next : v.nodes.nextId ≤ nodes.nextId)
    (outside : ∀ {n}, ¬ R.node n → nodes.get? n = v.nodes.get? n)
    (home : ∀ {n x}, R.node n → nodes.get? n = some x → x.home = i)
    (fewer : ¬ grows → ∀ {n x}, nodes.get? n = some x →
      ∃ y, v.nodes.get? n = some y ∧ y.home = x.home) :
    Inside grows R i w { v with nodes } :=
  { h with
    closed := { h.closed with newNode := fun le => h.closed.newNode (next.trans le), home := home }
    nodes := fun out => (outside out).trans (h.nodes out)
    fewer := fun still => (h.fewer still).trans <| .of_tables (fun homed => by
      obtain ⟨x, hx, rfl⟩ := nodeHome_eq_some_iff.1 homed
      obtain ⟨y, hy, same⟩ := fewer still hx
      exact nodeHome_eq_some_iff.2 ⟨y, hy, same⟩) id id }

theorem onBindings (h : Inside grows R i w v) {bindings : Table Binding}
    (next : v.bindings.nextId ≤ bindings.nextId)
    (outside : ∀ {b}, ¬ R.binding b → bindings.get? b = v.bindings.get? b)
    (bound : ∀ {b x n}, R.binding b → bindings.get? b = some x → x.node = some n → R.node n)
    (child : ∀ {d x} {name : String} {c}, R.binding d → bindings.get? d = some x →
      x.children[name]? = some c → R.binding c)
    (kept : ∀ {b n}, v.nodeOf b = some n → v.Owned (.binding b) →
      ∃ x, bindings.get? b = some x ∧ x.node = some n)
    (fewer : ¬ grows → ∀ {b x}, bindings.get? b = some x → ∃ y, v.bindings.get? b = some y ∧
      x.node = y.node ∧ ∀ name : String, ∀ c, x.children[name]? = some c →
        y.children[name]? = some c) :
    Inside grows R i w { v with bindings } :=
  have stays : ∀ {b n}, v.nodeOf b = some n → v.Owned (.binding b) →
      ({ v with bindings } : World).nodeOf b = some n := fun hn owned =>
    nodeOf_eq_some_iff.2 (kept hn owned)
  { h with
    closed := { h.closed with
      newBinding := fun le => h.closed.newBinding (next.trans le)
      bound := fun inside hn => by
        obtain ⟨x, hx, hn⟩ := nodeOf_eq_some_iff.1 hn
        exact bound inside hx hn
      child := fun {d name c} entry => by
        obtain ⟨x, hx, entry⟩ := child?_eq_some_iff.1 entry
        by_cases inside : R.binding d
        · exact iff_of_true inside (child inside hx entry)
        · rw [outside inside] at hx
          exact h.closed.child (child?_eq_some_iff.2 ⟨x, hx, entry⟩)
      file := fun inside hx => by
        obtain ⟨here, hn⟩ := h.closed.file inside hx
        have owner : v.Owner (.binding _) (.file _) := ⟨_, hx, rfl⟩
        exact ⟨here, fun n bound => stays (hn n bound) ⟨_, owner⟩⟩
      root := fun hi hroot => by
        obtain ⟨here, n, hn⟩ := h.closed.root hi hroot
        have owner : v.Owner (.binding _) (.inst _) := ⟨_, hi, hroot⟩
        exact ⟨here, n, stays hn ⟨_, owner⟩⟩ }
    bindings := fun out => (outside out).trans (h.bindings out)
    fewer := fun still => (h.fewer still).trans <| .of_tables id
      (fun hn => by
        obtain ⟨x, hx, hn⟩ := nodeOf_eq_some_iff.1 hn
        obtain ⟨y, hy, same, -⟩ := fewer still hx
        exact nodeOf_eq_some_iff.2 ⟨y, hy, same.symm.trans hn⟩)
      fun entry => by
        obtain ⟨x, hx, entry⟩ := child?_eq_some_iff.1 entry
        obtain ⟨y, hy, -, below⟩ := fewer still hx
        exact child?_eq_some_iff.2 ⟨y, hy, below _ _ entry⟩ }

theorem onFiles (h : Inside grows R i w v) {files : Table OpenFile}
    (next : v.files.nextId ≤ files.nextId)
    (outside : ∀ {f}, ¬ R.file f → files.get? f = v.files.get? f)
    (file : ∀ {f x}, R.file f → files.get? f = some x → R.binding x.binding ∧
      ∀ n, x.node = some n → v.nodeOf x.binding = some n) :
    Inside grows R i w { v with files } :=
  { h with
    closed := { h.closed with newFile := fun le => h.closed.newFile (next.trans le), file := file }
    files := fun out => (outside out).trans (h.files out)
    fewer := fun still => (h.fewer still).trans (.of_tables id id id) }

theorem onInstances (h : Inside grows R i w v) {instances : Table Instance}
    (next : instances.nextId = v.instances.nextId)
    (others : ∀ {j}, j ≠ i → instances.get? j = v.instances.get? j)
    (root : ∀ {inst root}, instances.get? i = some inst → inst.root = some root →
      R.binding root ∧ ∃ n, v.nodeOf root = some n) :
    Inside grows R i w { v with instances } :=
  { h with
    closed := { h.closed with root := root }
    instances := fun ne => (others ne).trans (h.instances ne)
    next := next.trans h.next
    fewer := fun still => (h.fewer still).trans (.of_tables id id id) }

/-! ## One object -/

theorem modifyNode (h : Inside grows R i w v) (hn : R.node n) {g : Node → Node}
    (home : ∀ x, (g x).home = x.home) : Inside grows R i w (v.modifyNode n g) := by
  have modified : ∀ {m x}, (v.nodes.modify n g).get? m = some x →
      ∃ y, v.nodes.get? m = some y ∧ y.home = x.home := by
    intro m x hx
    rcases Table.get?_of_modify hx with ⟨-, y, hy, rfl⟩ | ⟨-, hx⟩
    · exact ⟨y, hy, (home y).symm⟩
    · exact ⟨x, hx, rfl⟩
  refine h.onNodes (Nat.le_of_eq Table.nextId_modify.symm) (fun out => ?_) (fun inside hx => ?_)
    fun _ => modified
  · exact Table.get?_modify_of_ne fun same => out (same ▸ hn)
  · obtain ⟨y, hy, same⟩ := modified hx
    exact same.symm.trans (h.closed.home inside hy)

theorem pushNode (h : Inside grows R i w v) (growing : grows) {node : Node} {host : Host}
    (home : node.home = i) : Inside grows R i w { v with host, nodes := v.nodes.push node } := by
  refine aside (h.onNodes ((Nat.le_succ _).trans_eq Table.nextId_push.symm) (fun {n} out => ?_)
    (fun inside hx => ?_) fun still => absurd growing still)
  · exact Table.get?_push_of_ne fun same => out (h.closed.newNode (Nat.le_of_eq same.symm))
  · rcases Table.get?_of_push hx with ⟨-, rfl⟩ | ⟨-, hx⟩
    · exact home
    · exact h.closed.home inside hx

theorem evict (h : Inside grows R i w v) (hn : R.node n) {node : Node} :
    Inside grows R i w (v.evict n node) := by
  refine aside (h.onNodes (Nat.le_of_eq Table.nextId_erase.symm) (fun out => ?_)
    (fun inside hx => h.closed.home inside (Table.get?_of_erase hx))
    fun _ _ x hx => ⟨x, Table.get?_of_erase hx, rfl⟩)
  exact Table.get?_erase_of_ne fun same => out (same ▸ hn)

/-- A binding of the realm is changed. It keeps its node, if it has one. -/
theorem modifyBinding (h : Inside grows R i w v) (hb : R.binding b) {g : Binding → Binding}
    (kept : ∀ x n, v.bindings.get? b = some x → x.node = some n → (g x).node = some n)
    (bound : ∀ x n, v.bindings.get? b = some x → (g x).node = some n → R.node n)
    (child : ∀ x (name : String) c, v.bindings.get? b = some x →
      (g x).children[name]? = some c → R.binding c)
    (fewer : ¬ grows → ∀ x, (g x).node = x.node ∧ ∀ name : String, ∀ c,
      (g x).children[name]? = some c → x.children[name]? = some c) :
    Inside grows R i w (v.modifyBinding b g) := by
  refine h.onBindings (Nat.le_of_eq Table.nextId_modify.symm) (fun out => ?_)
    (fun {d x n} inside hx hn => ?_) (fun {d x name c} inside hx entry => ?_)
    (fun {d n} hn _ => ?_) fun still {d x} hx => ?_
  · exact Table.get?_modify_of_ne fun same => out (same ▸ hb)
  · rcases Table.get?_of_modify hx with ⟨rfl, y, hy, rfl⟩ | ⟨-, hx⟩
    · exact bound y n hy hn
    · exact h.closed.bound inside (nodeOf_eq_some_iff.2 ⟨x, hx, hn⟩)
  · rcases Table.get?_of_modify hx with ⟨rfl, y, hy, rfl⟩ | ⟨-, hx⟩
    · exact child y name c hy entry
    · exact (h.closed.child (child?_eq_some_iff.2 ⟨x, hx, entry⟩)).1 inside
  · obtain ⟨x, hx, hn⟩ := nodeOf_eq_some_iff.1 hn
    rw [Table.get?_modify]
    split
    · next same => exact ⟨g x, by rw [← same, hx]; rfl, kept x n (same ▸ hx) hn⟩
    · exact ⟨x, hx, hn⟩
  · rcases Table.get?_of_modify hx with ⟨-, y, hy, rfl⟩ | ⟨-, hx⟩
    · exact ⟨y, hy, fewer still y⟩
    · exact ⟨x, hx, rfl, fun _ _ => id⟩

/-- A binding of the realm may get another place, lose entries and change its pins. -/
theorem trim (h : Inside grows R i w v) (hb : R.binding b) {g : Binding → Binding}
    (same : ∀ x, (g x).node = x.node ∧ ∀ name : String, ∀ c,
      (g x).children[name]? = some c → x.children[name]? = some c) :
    Inside grows R i w (v.modifyBinding b g) := by
  refine h.modifyBinding hb (fun x n _ hn => (same x).1.trans hn) (fun x n hx hn => ?_)
    (fun x name c hx entry => ?_) fun _ => same
  · exact h.closed.bound hb (nodeOf_eq_some_iff.2 ⟨x, hx, (same x).1.symm.trans hn⟩)
  · exact (h.closed.child (child?_eq_some_iff.2 ⟨x, hx, (same x).2 name c entry⟩)).1 hb

theorem pushBinding (h : Inside grows R i w v) (growing : grows) {name : String}
    {parent : Option BindingId} {host : Host} :
    Inside grows R i w { v with host, bindings := v.bindings.push { name, parent } } := by
  refine aside (h.onBindings ((Nat.le_succ _).trans_eq Table.nextId_push.symm) (fun {b} out => ?_)
    (fun {b x n} inside hx hn => ?_) (fun {d x name c} inside hx entry => ?_) (fun {b n} hn _ => ?_)
    fun still => absurd growing still)
  · exact Table.get?_push_of_ne fun same => out (h.closed.newBinding (Nat.le_of_eq same.symm))
  · rcases Table.get?_of_push hx with ⟨-, rfl⟩ | ⟨-, hx⟩
    · cases hn
    · exact h.closed.bound inside (nodeOf_eq_some_iff.2 ⟨x, hx, hn⟩)
  · rcases Table.get?_of_push hx with ⟨-, rfl⟩ | ⟨-, hx⟩
    · rw [Std.TreeMap.getElem?_emptyc] at entry
      cases entry
    · exact (h.closed.child (child?_eq_some_iff.2 ⟨x, hx, entry⟩)).1 inside
  · obtain ⟨x, hx, hn⟩ := nodeOf_eq_some_iff.1 hn
    exact ⟨x, Table.get?_push_of_some hx, hn⟩

theorem removeBinding (h : Inside grows R i w v) (hb : R.binding b)
    (free : ¬ v.Owned (.binding b)) : Inside grows R i w (v.removeBinding b) := by
  refine aside (h.onBindings (Nat.le_of_eq Table.nextId_erase.symm) (fun out => ?_)
    (fun {d x n} inside hx hn => ?_) (fun {d x name c} inside hx entry => ?_)
    (fun {d n} hn owned => ?_) fun _ d x hx => ⟨x, Table.get?_of_erase hx, rfl, fun _ _ => id⟩)
  · exact Table.get?_erase_of_ne fun same => out (same ▸ hb)
  · exact h.closed.bound inside (nodeOf_eq_some_iff.2 ⟨x, Table.get?_of_erase hx, hn⟩)
  · exact (h.closed.child (child?_eq_some_iff.2 ⟨x, Table.get?_of_erase hx, entry⟩)).1 inside
  · obtain ⟨x, hx, hn⟩ := nodeOf_eq_some_iff.1 hn
    have other : d ≠ b := fun same => free (same ▸ owned)
    exact ⟨x, (Table.get?_erase_of_ne other).trans hx, hn⟩

theorem pushFile (h : Inside grows R i w v) {file : OpenFile} (here : R.binding file.binding)
    (bound : ∀ n, file.node = some n → v.nodeOf file.binding = some n) :
    Inside grows R i w { v with files := v.files.push file } := by
  refine h.onFiles ((Nat.le_succ _).trans_eq Table.nextId_push.symm) (fun {f} out => ?_)
    fun inside hx => ?_
  · exact Table.get?_push_of_ne fun same => out (h.closed.newFile (Nat.le_of_eq same.symm))
  · rcases Table.get?_of_push hx with ⟨-, rfl⟩ | ⟨-, hx⟩
    · exact ⟨here, bound⟩
    · exact h.closed.file inside hx

theorem modifyFile (h : Inside grows R i w v) (hf : R.file f) {g : OpenFile → OpenFile}
    (same : ∀ x, v.files.get? f = some x → (g x).binding = x.binding ∧
      ∀ n, (g x).node = some n → v.nodeOf x.binding = some n) :
    Inside grows R i w (v.modifyFile f g) := by
  refine h.onFiles (Nat.le_of_eq Table.nextId_modify.symm) (fun out => ?_) fun inside hx => ?_
  · exact Table.get?_modify_of_ne fun same => out (same ▸ hf)
  · rcases Table.get?_of_modify hx with ⟨rfl, y, hy, rfl⟩ | ⟨-, hx⟩
    · rw [(same y hy).1]
      exact ⟨(h.closed.file hf hy).1, (same y hy).2⟩
    · exact h.closed.file inside hx

theorem eraseFile (h : Inside grows R i w v) (hf : R.file f) :
    Inside grows R i w { v with files := v.files.erase f } := by
  refine h.onFiles (Nat.le_of_eq Table.nextId_erase.symm) (fun out => ?_)
    fun inside hx => h.closed.file inside (Table.get?_of_erase hx)
  exact Table.get?_erase_of_ne fun same => out (same ▸ hf)

/-- The instance may be changed, and get a root of its realm. -/
theorem modifyInstance (h : Inside grows R i w v) {g : Instance → Instance}
    (root : ∀ x root, v.instances.get? i = some x → (g x).root = some root →
      x.root = some root ∨ R.binding root ∧ ∃ n, v.nodeOf root = some n) :
    Inside grows R i w (v.modifyInstance i g) := by
  refine h.onInstances Table.nextId_modify Table.get?_modify_of_ne fun hi hroot => ?_
  rw [Table.get?_modify, if_pos rfl] at hi
  obtain ⟨y, hy, rfl⟩ := Option.map_eq_some_iff.1 hi
  exact (root y _ hy hroot).elim (fun had => h.closed.root hy had) id

theorem removeInstance (h : Inside grows R i w v) : Inside grows R i w (v.removeInstance i) :=
  h.onInstances Table.nextId_erase Table.get?_erase_of_ne
    fun hi hroot => h.closed.root (Table.get?_of_erase hi) hroot

end Inside

end Memfs
