import Memfs.Proofs.Bystanders
import Memfs.Proofs.Counts

/-!
# What the counters show at most

`Exact` holds while names come into directories in a tree only and nothing is torn down.
`Steady` is what is left of it after any calls: a binding in place is pinned once, and a
directory in place has no more links than are due to it. A counter may wrap around or be
found at zero, and then it shows less.

In the middle of an operation `most` stands for the links due, as in `Showing`. With
the counters goes a list of directories that were removed, of which it is said what stays
true of them: no name leads to them, and if no name was made in them since, they are
empty and have no links.
-/

namespace Memfs

open World

/-- The node is a directory, and a binding in place stands for it. -/
def World.Seated (w : World) (n : NodeId) : Prop :=
  ∃ b, w.Placed b ∧ w.nodeOf b = some n ∧ w.isDirectory n = true

/-- A directory that was taken out of its parent. -/
structure Removed where
  binding : BindingId
  node : NodeId
  /-- No name was made in it since. -/
  alone : Prop

/-- What stays true of a removed directory, and of its node when the binding is gone. -/
structure Removed.Gone (r : Removed) (w : World) : Prop where
  known : r.binding < w.bindings.nextId ∧ r.node < w.nodes.nextId
  out : ¬ w.Placed r.binding
  only : ∀ b, w.nodeOf b = some r.node → b = r.binding
  empty : r.alone → ∀ c, ¬ w.Entered r.binding c
  spent : ∀ x, w.nodes.get? r.node = some x →
    x.isDirectory = true ∧ (r.alone → x.links = 0)

structure Steady (w : World) (most : NodeId → Nat) (removed : List Removed) : Prop where
  roots : ∀ {b}, w.Rooted b → w.parentOf b = none
  /-- No two instances share a root. -/
  sole : ∀ {i j x y b}, w.instances.get? i = some x → w.instances.get? j = some y →
    x.root = some b → y.root = some b → i = j
  pins : ∀ {b x}, w.bindings.get? b = some x → w.Placed b → x.pins = 1
  links : ∀ {n x}, w.nodes.get? n = some x → w.Seated n → x.links.toNat ≤ most n
  gone : ∀ r ∈ removed, r.Gone w

variable {w v : World} {most most' : NodeId → Nat} {rs : List Removed} {r : Removed}
  {todo : List Task} {a b c d e : BindingId} {n m dir : NodeId} {name k : String}

namespace World

theorem SameShape.seated (s : SameShape w v) : v.Seated n ↔ w.Seated n := by
  refine exists_congr fun b => ?_
  rw [s.placed]
  refine and_congr_right fun placed => ?_
  rw [s.node b (.inl placed)]
  exact and_congr_right fun hn => by rw [s.directory b n (.inl placed) hn]

/-- Only the binding that is unpinned changes. -/
theorem unpin_frame (w : World) (b : BindingId) : (w.unpin b).nodes = w.nodes ∧
    (w.unpin b).bindings.nextId = w.bindings.nextId ∧
      ∀ c, c ≠ b → (w.unpin b).bindings.get? c = w.bindings.get? c := by
  unfold World.unpin
  split
  · exact ⟨rfl, rfl, fun _ _ => rfl⟩
  · split
    · exact ⟨rfl, rfl, fun _ _ => rfl⟩
    · exact ⟨rfl, Table.nextId_modify, fun c hne => (Table.get?_modify ..).trans (if_neg hne)⟩

/-- Bindings come to other places in `v`, and the pairs of `into` are all the places that
they come to. -/
structure Rearranged (into : BindingId → BindingId → Prop) (w v : World) : Prop where
  nodes : v.nodes = w.nodes
  inst : v.instances = w.instances
  next : v.bindings.nextId = w.bindings.nextId
  pins : ∀ {b x}, v.bindings.get? b = some x → ∃ y, w.bindings.get? b = some y ∧ x.pins = y.pins
  node : ∀ b, v.nodeOf b = w.nodeOf b
  entered : ∀ {d c}, v.Entered d c → into d c ∨ w.Entered d c

namespace Rearranged

variable {into : BindingId → BindingId → Prop}

theorem refl : Rearranged into w w :=
  ⟨rfl, rfl, rfl, fun hx => ⟨_, hx, rfl⟩, fun _ => rfl, .inr⟩

theorem modifyBinding (s : Rearranged into w v) {g : Binding → Binding}
    (pins : ∀ x, (g x).pins = x.pins) (node : ∀ x, (g x).node = x.node)
    (children : ∀ x (k : String) c, (g x).children[k]? = some c →
      into b c ∨ x.children[k]? = some c) : Rearranged into w (v.modifyBinding b g) := by
  have found : ∀ {c x}, (v.modifyBinding b g).bindings.get? c = some x →
      ∃ y, v.bindings.get? c = some y ∧ (c = b ∧ x = g y ∨ x = y) := by
    intro c x hx
    rcases Table.get?_of_modify hx with ⟨e, y, hy, rfl⟩ | ⟨-, hx⟩
    · exact ⟨y, hy, .inl ⟨e, rfl⟩⟩
    · exact ⟨x, hx, .inr rfl⟩
  refine ⟨s.nodes, s.inst, Table.nextId_modify.trans s.next, fun hx => ?_, fun c => ?_,
    fun {d c} inside => ?_⟩
  · obtain ⟨y, hy, ⟨-, rfl⟩ | rfl⟩ := found hx
    · obtain ⟨z, hz, e⟩ := s.pins hy
      exact ⟨z, hz, (pins y).trans e⟩
    · exact s.pins hy
  · refine Eq.trans ?_ (s.node c)
    cases hx : v.bindings.get? b with
    | none => rw [modifyBinding_of_absent hx]
    | some x => exact nodeOf_modifyBinding_of_node_eq hx (node x)
  · obtain ⟨k, entry⟩ := inside
    obtain ⟨x, hx, hc⟩ := child?_eq_some_iff.1 entry
    have before : ∀ {y}, v.bindings.get? d = some y → y.children[k]? = some c →
        into d c ∨ w.Entered d c := fun hy hc => s.entered ⟨k, child?_eq_some_iff.2 ⟨_, hy, hc⟩⟩
    obtain ⟨y, hy, ⟨rfl, rfl⟩ | rfl⟩ := found hx
    · exact (children y k c hc).elim .inl (before hy)
    · exact before hy hc

theorem detach (s : Rearranged into w v) : Rearranged into w (v.detach b) := by
  unfold World.detach
  split
  · exact s
  · split
    · refine s.modifyBinding (fun _ => rfl) (fun _ => rfl) fun x k c hc => .inr ?_
      rw [getElem?_erase_name] at hc
      split at hc
      · cases hc
      · exact hc
    · exact s

theorem readdress (s : Rearranged into w v) : Rearranged into w (v.readdress b d name) := by
  refine s.modifyBinding ?_ ?_ ?_
  · exact fun _ => rfl
  · exact fun _ => rfl
  · exact fun _ _ _ => .inr

theorem enter (s : Rearranged into w v) (free : v.child? d name = none) (place : into d b) :
    Rearranged into w (v.enter d name b) := by
  rw [enter_eq free]
  refine s.modifyBinding ?_ ?_ fun x k c hc => ?_
  · exact fun _ => rfl
  · exact fun _ => rfl
  · rw [getElem?_insert_name] at hc
    split at hc
    · cases hc
      exact .inl place
    · exact .inr hc

end Rearranged

theorem moveBinding_rearranged (f : Forest w) (h : w.child? e k = some a)
    (free : w.child? d name = none) :
    Rearranged (fun e c => e = d ∧ c = a) w (w.moveBinding a d name) := by
  obtain ⟨x, hx⟩ := Table.has_iff.1 ((f.has_detach h).trans (f.has_of_child? h))
  refine Rearranged.refl.detach.readdress.enter ?_ ⟨rfl, rfl⟩
  rw [child?_readdress hx, f.child?_detach h, free]
  exact ite_self none

theorem exchangeBindings_rearranged (f : Forest w) {dirA dirB : BindingId}
    {nameA nameB : String} (ha : w.child? dirA nameA = some a) (hb : w.child? dirB nameB = some b)
    (hne : a ≠ b) : Rearranged (fun e c => e = dirB ∧ c = a ∨ e = dirA ∧ c = b) w
      (w.exchangeBindings a b) := by
  have lifted := f.lifted ha hb hne
  obtain ⟨v, hv, child, -, has⟩ := f.crossed ha hb hne
  have moved : Rearranged (fun e c => e = dirB ∧ c = a ∨ e = dirA ∧ c = b) w v := by
    rw [← hv]
    exact Rearranged.refl.detach.detach.readdress.readdress
  -- both places are free when the first binding comes to one of them
  have freeB := (child dirB nameB).trans lifted.freeB
  rw [f.exchangeBindings_eq ha hb, hv]
  refine (moved.enter freeB (.inl ⟨rfl, rfl⟩)).enter ?_ (.inr ⟨rfl, rfl⟩)
  rw [child?_enter ((has dirB).trans (has_parent (f.entry hb).2)) freeB,
    if_neg (places_ne ha hb hne), child, lifted.freeA]

end World

/-- A node begins with the links of an empty directory or with less. -/
theorem Action.links_of_newNode {home : InstanceId} {from? : Option NodeId} {mode : Mode}
    {device : DeviceNumber} (made : Action.newNode home from? mode device w = .ok n v) {x : Node}
    (hx : v.nodes.get? n = some x) : x.links.toNat ≤ 2 := by
  obtain ⟨rfl, _, _, kind, _, -, rfl, -⟩ := Action.newNode_ok made
  simp only [Table.get?_push_self] at hx
  cases hx
  unfold Node.make
  cases kind.isDirectory with
  | true => exact Nat.le_refl 2
  | false => exact Nat.le_succ 1

/-- A directory that is out of place and loses nothing but entries stays gone. -/
theorem Removed.Gone.frame (g : r.Gone w) (bindings : w.bindings.nextId ≤ v.bindings.nextId)
    (nodes : w.nodes.nextId ≤ v.nodes.nextId)
    (placed : v.Placed r.binding → w.Placed r.binding)
    (only : ∀ b, v.nodeOf b = some r.node → w.nodeOf b = some r.node)
    (entered : r.alone → ∀ c, v.Entered r.binding c → w.Entered r.binding c)
    (spent : ∀ x, v.nodes.get? r.node = some x → ∃ y, w.nodes.get? r.node = some y ∧
      x.isDirectory = y.isDirectory ∧ (r.alone → y.links = 0 → x.links = 0)) : r.Gone v where
  known := ⟨g.known.1.trans_le bindings, g.known.2.trans_le nodes⟩
  out := mt placed g.out
  only b hb := g.only b (only b hb)
  empty alone c inside := g.empty alone c (entered alone c inside)
  spent x hx := by
    obtain ⟨y, hy, kind, zero⟩ := spent x hx
    obtain ⟨isDir, links⟩ := g.spent y hy
    exact ⟨kind.trans isDir, fun alone => zero alone (links alone)⟩

namespace Steady

/-- Nothing is said of the directories in which names are, so each of them may hang
loose. -/
theorem upheld (h : Steady w most rs) : w.Upheld (List.range w.bindings.nextId) where
  entered := fun ⟨_, entry⟩ => by
    obtain ⟨x, hx, -⟩ := child?_eq_some_iff.1 entry
    exact .inr (List.mem_range.2 (Table.get?_lt hx))
  roots := h.roots

theorem loose (h : w.bindings.has d = true) :
    w.Placed d ∨ d ∈ List.range w.bindings.nextId := by
  obtain ⟨x, hx⟩ := Table.has_iff.1 h
  exact .inr (List.mem_range.2 (Table.get?_lt hx))

/-- The counters may show more, as far as directories in place go. -/
theorem mono (h : Steady w most rs) (le : ∀ n, w.Seated n → most n ≤ most' n) :
    Steady w most' rs :=
  { h with links := fun hn seated => (h.links hn seated).trans (le _ seated) }

theorem bury (h : Steady w most rs) {more : List Removed} (gone : ∀ r ∈ more, r.Gone w) :
    Steady w most (more ++ rs) :=
  { h with gone := fun r mem => (List.mem_append.1 mem).elim (gone r) (h.gone r) }

/-! ## Changes of nodes -/

theorem onNodes (h : Steady w most rs) (bindings : v.bindings = w.bindings)
    (inst : v.instances = w.instances) (next : w.nodes.nextId ≤ v.nodes.nextId)
    (directory : ∀ {b n}, w.nodeOf b = some n → v.isDirectory n = w.isDirectory n)
    (links : ∀ {n x}, v.nodes.get? n = some x → w.Seated n → x.links.toNat ≤ most' n)
    (spent : ∀ r ∈ rs, ∀ x, v.nodes.get? r.node = some x → ∃ y, w.nodes.get? r.node = some y ∧
      x.isDirectory = y.isDirectory ∧ (r.alone → y.links = 0 → x.links = 0)) :
    Steady v most' rs := by
  have tree : SameTree w v :=
    ⟨Nat.le_of_eq (by rw [bindings]), fun _ => by rw [bindings], directory⟩
  have shape : SameShape w v := .of_tree tree inst
  refine ⟨fun root => ?_, ?_, fun hb placed => ?_, fun hn seated => ?_, fun r mem => ?_⟩
  · exact (shape.upheld h.upheld).roots root
  · rw [inst]
    exact h.sole
  · rw [bindings] at hb
    exact h.pins hb (shape.placed.1 placed)
  · exact links hn (shape.seated.1 seated)
  · exact (h.gone r mem).frame (Nat.le_of_eq (by rw [bindings])) next shape.placed.1
      (fun b hb => tree.nodeOf.symm.trans hb) (fun _ c => (shape.entered _ c).1) (spent r mem)

theorem of_tables (h : Steady w most rs) (nodes : v.nodes = w.nodes)
    (bindings : v.bindings = w.bindings) (inst : v.instances = w.instances) :
    Steady v most rs := by
  refine h.onNodes bindings inst (Nat.le_of_eq (by rw [nodes])) (fun _ => ?_) (fun hn seated => ?_)
    fun r _ x hx => ?_
  · unfold World.isDirectory
    rw [nodes]
  · rw [nodes] at hn
    exact h.links hn seated
  · rw [nodes] at hx
    exact ⟨x, hx, rfl, fun _ => id⟩

theorem onHost (h : Steady w most rs) {host : Host} : Steady { w with host } most rs :=
  h.of_tables rfl rfl rfl

theorem onFiles (h : Steady w most rs) {files : Table OpenFile} : Steady { w with files } most rs :=
  h.of_tables rfl rfl rfl

theorem now (h : Steady w most rs) : Steady (w.now n).2 most rs := h.onHost

/-- The links of one node change. -/
theorem relink (h : Steady w most rs) {g : Node → Node} (kind : ∀ x, (g x).kind = x.kind)
    (here : ∀ x : Node, x.links.toNat ≤ most n → (g x).links.toNat ≤ most' n)
    (others : ∀ m, m ≠ n → most m ≤ most' m)
    (spent : ∀ r ∈ rs, r.alone → r.node = n → ∀ x : Node, x.links = 0 → (g x).links = 0) :
    Steady (w.modifyNode n g) most' rs := by
  refine h.onNodes rfl rfl (Nat.le_of_eq Table.nextId_modify.symm)
    (fun _ => isDirectory_modifyNode kind) (fun {m x} hm seated => ?_) fun r mem x hx => ?_
  · rcases Table.get?_of_modify hm with ⟨rfl, y, hy, rfl⟩ | ⟨hne, hm⟩
    · exact here y (h.links hy seated)
    · exact (h.links hm seated).trans (others m hne)
  · rcases Table.get?_of_modify hx with ⟨e, y, hy, rfl⟩ | ⟨-, hx⟩
    · refine ⟨y, hy, ?_, fun alone => spent r mem alone e y⟩
      unfold Node.isDirectory
      rw [kind]
    · exact ⟨x, hx, rfl, fun _ => id⟩

theorem modifyNode (h : Steady w most rs) {g : Node → Node} (kind : ∀ x, (g x).kind = x.kind)
    (links : ∀ x, (g x).links = x.links) : Steady (w.modifyNode n g) most rs :=
  h.relink kind (fun x le => by rwa [links]) (fun _ _ => Nat.le_refl _) fun _ _ _ _ x zero => by
    rwa [links]

theorem written (h : Steady w most rs) {time : Timestamp} :
    Steady (w.modifyNode n (·.written time)) most rs :=
  h.modifyNode (fun _ => rfl) fun _ => rfl

theorem changed (h : Steady w most rs) {time : Timestamp} :
    Steady (w.modifyNode n (·.changed time)) most rs :=
  h.modifyNode (fun _ => rfl) fun _ => rfl

theorem touch (h : Steady w most rs) : Steady (w.touch n) most rs := h.now.written

theorem touchWith (h : Steady w most rs) : Steady (w.touchWith n m) most rs := h.now.changed.written

theorem markChanged (h : Steady w most rs) {time : Timestamp} :
    Steady (w.markChanged b time) most rs := by
  unfold World.markChanged
  cases w.nodeOf b with
  | none => exact h
  | some n => exact h.changed

theorem touchRenamed (h : Steady w most rs) : Steady (w.touchRenamed n a m b) most rs :=
  h.now.written.written.markChanged.markChanged

/-- A removed directory that is left alone gets no links. -/
theorem addLink (h : Steady w most rs) (apart : ∀ r ∈ rs, r.alone → r.node ≠ n) :
    Steady (w.addLink n) (fun m => most m + if m = n then 1 else 0) rs := by
  refine h.relink (fun _ => rfl) (fun x le => ?_) (fun m hne => ?_) fun r mem alone e => ?_
  · rw [if_pos rfl]
    unfold Node.addLink
    rw [UInt32.toNat_add]
    exact (Nat.mod_le _ _).trans (Nat.add_le_add_right le 1)
  · rw [if_neg hne]
    exact Nat.le_refl _
  · exact absurd e (apart r mem alone)

theorem dropLink (h : Steady w most rs) :
    Steady (w.dropLink n) (fun m => most m - if m = n then 1 else 0) rs := by
  rw [dropLink_eq]
  refine h.onHost.relink (fun _ => rfl) (fun x le => ?_) (fun m hne => ?_) fun r _ _ _ x zero => ?_
  · rw [if_pos rfl]
    unfold Node.dropLink
    split
    · exact Nat.zero_le _
    · next some =>
        have one : (1 : UInt32) ≤ x.links := by
          rw [UInt32.le_iff_toNat_le]
          have : x.links.toNat ≠ 0 := fun zero => some (UInt32.toNat_inj.1 zero)
          exact Nat.one_le_iff_ne_zero.2 this
        rw [UInt32.toNat_sub_of_le _ _ one]
        exact Nat.sub_le_sub_right le 1
  · rw [if_neg hne]
    exact Nat.le_refl _
  · unfold Node.dropLink
    rw [if_pos zero]

theorem storeBytes (h : Steady w most rs) {offset : Nat} {src : Bytes}
    (stored : Action.storeBytes n offset src w = .ok () v) : Steady v most rs := by
  obtain ⟨node, content, host, -, -, rfl⟩ := Action.storeBytes_ok stored
  exact h.onHost.modifyNode (fun _ => rfl) fun _ => rfl

theorem storeTarget (h : Steady w most rs) {closed : Bytes}
    (stored : Action.storeTarget n closed w = .ok () v) : Steady v most rs := by
  obtain ⟨mid, bytes, rfl⟩ := Action.storeTarget_ok stored
  exact (h.storeBytes bytes).modifyNode (fun _ => rfl) fun _ => rfl

/-- A new node is not bound yet. -/
theorem newNode (h : Steady w most rs) (s : Sound w todo) {home : InstanceId}
    {from? : Option NodeId} {mode : Mode} {device : DeviceNumber}
    (made : Action.newNode home from? mode device w = .ok n v) :
    Steady v most rs ∧ ∀ r ∈ rs, r.node ≠ n := by
  obtain ⟨rfl, host, ino, kind, time, -, rfl, -⟩ := Action.newNode_ok made
  have old : ∀ {b m}, w.nodeOf b = some m → m ≠ w.nodes.nextId := by
    rintro b _ hb rfl
    exact s.tended.fresh_node (owned_of_nodeOf hb)
  have apart : ∀ r ∈ rs, r.node ≠ w.nodes.nextId := fun r mem =>
    Nat.ne_of_lt (h.gone r mem).known.2
  refine ⟨h.onNodes rfl rfl ((Nat.le_succ _).trans_eq Table.nextId_push.symm) (fun hb => ?_)
    (fun hm seated => ?_) fun r mem x hx => ?_, apart⟩
  · unfold World.isDirectory
    simp only [Table.get?_push_of_ne (old hb)]
  · obtain ⟨b, -, hb, -⟩ := id seated
    exact h.links ((Table.get?_push_of_ne (old hb)).symm.trans hm) seated
  · exact ⟨x, (Table.get?_push_of_ne (apart r mem)).symm.trans hx, rfl, fun _ => id⟩

/-! ## Changes of bindings -/

/-- Bindings come to other places, but none into place that was out of it. -/
theorem rearranged (h : Steady w most rs) {into : BindingId → BindingId → Prop}
    (moved : Rearranged into w v) (placed : ∀ {b}, v.Placed b → w.Placed b)
    (roots : ∀ {b}, v.Rooted b → v.parentOf b = none)
    (apart : ∀ r ∈ rs, r.alone → ∀ c, ¬ into r.binding c) : Steady v most rs where
  roots := roots
  sole := by
    rw [moved.inst]
    exact h.sole
  pins hx here := by
    obtain ⟨y, hy, e⟩ := moved.pins hx
    exact e.trans (h.pins hy (placed here))
  links hn seated := by
    rw [moved.nodes] at hn
    obtain ⟨b, here, hb, isDir⟩ := seated
    refine h.links hn ⟨b, placed here, (moved.node b).symm.trans hb, ?_⟩
    unfold World.isDirectory at isDir ⊢
    rwa [moved.nodes] at isDir
  gone r mem := (h.gone r mem).frame (Nat.le_of_eq moved.next.symm)
    (Nat.le_of_eq (by rw [moved.nodes])) placed (fun b hb => (moved.node b).symm.trans hb)
    (fun alone c inside => (moved.entered inside).resolve_left (apart r mem alone c))
    fun x hx => ⟨x, moved.nodes ▸ hx, rfl, fun _ => id⟩

theorem moveBinding (h : Steady w most rs) (f : Forest w) (ha : w.child? e k = some a)
    (hd : w.bindings.has d = true) (hne : d ≠ a) (free : w.child? d name = none)
    (apart : ∀ r ∈ rs, r.alone → r.binding ≠ d) :
    Steady (w.moveBinding a d name) most rs ∧
      ∀ n, (w.moveBinding a d name).due n + w.given a e n = w.due n + w.given a d n := by
  obtain ⟨upheld, placed, due⟩ := moveBinding_shape h.upheld f ha (loose hd) hd hne free
  exact ⟨h.rearranged (moveBinding_rearranged f ha free) (placed _).1 upheld.roots
    fun r mem alone c into => apart r mem alone into.1, due⟩

/-- Neither of the two directories is empty, so neither was removed. -/
theorem exchangeBindings (h : Steady w most rs) (s : Sound w []) {dirA dirB : BindingId}
    {nameA nameB : String} (ha : w.child? dirA nameA = some a) (hb : w.child? dirB nameB = some b)
    (hne : a ≠ b) (apartA : dirB ≠ a) (apartB : dirA ≠ b) :
    Steady (w.exchangeBindings a b) most rs ∧
      ∀ n, (w.exchangeBindings a b).due n + w.given a dirA n + w.given b dirB n
        = w.due n + w.given a dirB n + w.given b dirA n := by
  obtain ⟨upheld, placed, due⟩ := exchangeBindings_shape h.upheld s.forest ha hb hne apartA apartB
  refine ⟨h.rearranged (exchangeBindings_rearranged s.forest ha hb hne) (placed _).1 upheld.roots
    fun r mem alone c into => ?_, due⟩
  rcases into with ⟨e, -⟩ | ⟨e, -⟩
  · exact (h.gone r mem).empty alone b (e ▸ ⟨nameB, hb⟩)
  · exact (h.gone r mem).empty alone a (e ▸ ⟨nameA, ha⟩)

/-- No binding comes to another place, and what changes of bindings concerns those that
are out of place. -/
theorem reshape (h : Steady w most rs) (shape : SameShape w v) (nodes : v.nodes = w.nodes)
    (roots : ∀ {i x b}, v.instances.get? i = some x → x.root = some b →
      ∃ y, w.instances.get? i = some y ∧ y.root = some b)
    (next : w.bindings.nextId ≤ v.bindings.nextId)
    (pins : ∀ {b x}, v.bindings.get? b = some x → w.Placed b →
      ∃ y, w.bindings.get? b = some y ∧ x.pins = y.pins)
    (only : ∀ r ∈ rs, ∀ b, v.nodeOf b = some r.node → w.nodeOf b = some r.node) :
    Steady v most rs where
  roots := (shape.upheld h.upheld).roots
  sole hi hj rootI rootJ := by
    obtain ⟨x, hx, rootX⟩ := roots hi rootI
    obtain ⟨y, hy, rootY⟩ := roots hj rootJ
    exact h.sole hx hy rootX rootY
  pins hx here := by
    have placed := shape.placed.1 here
    obtain ⟨y, hy, e⟩ := pins hx placed
    exact e.trans (h.pins hy placed)
  links hn seated := by
    rw [nodes] at hn
    exact h.links hn (shape.seated.1 seated)
  gone r mem := (h.gone r mem).frame next (Nat.le_of_eq (by rw [nodes])) shape.placed.1
    (only r mem) (fun _ c => (shape.entered _ c).1) fun x hx => ⟨x, nodes ▸ hx, rfl, fun _ => id⟩

/-- A binding that is out of place may be pinned no longer. -/
theorem unpin (h : Steady w most rs) (out : ¬ w.Placed b) : Steady (w.unpin b) most rs := by
  obtain ⟨nodes, next, others⟩ := w.unpin_frame b
  refine h.reshape .unpin nodes (fun hi root => ⟨_, instances_unpin (w := w) (b := b) ▸ hi, root⟩)
    (Nat.le_of_eq next.symm)
    (fun {c x} hx placed => ?_) fun r _ c hc => SameTree.unpin.nodeOf.symm.trans hc
  have hne : c ≠ b := fun e => out (e ▸ placed)
  exact ⟨x, (others c hne).symm.trans hx, rfl⟩

/-- A binding is taken out of its directory and is pinned no longer. -/
theorem takeOut (h : Steady w most rs) (f : Forest w) (hb : w.child? d name = some b) :
    Steady ((w.detach b).unpin b) most rs ∧
      ∀ n, ((w.detach b).unpin b).due n + (w.own b n + w.given b d n) = w.due n := by
  have placed : ∀ {c}, (w.detach b).Placed c ↔ c ≠ b ∧ w.Placed c := placed_detach h.upheld f hb
  have moved : Rearranged (fun _ _ => False) w (w.detach b) := Rearranged.refl.detach
  have out : Steady (w.detach b) most rs := h.rearranged moved (fun here => (placed.1 here).2)
    (h.upheld.detach f hb).roots fun _ _ _ _ => id
  have unpinned : SameShape (w.detach b) ((w.detach b).unpin b) := .unpin
  refine ⟨out.unpin fun here => (placed.1 here).1 rfl, fun n => ?_⟩
  rw [unpinned.due, due_detach h.upheld f hb]

/-- An empty directory that has no links left is taken out for good. -/
theorem gone_of_takeOut (h : Steady w most rs) (s : Sound w todo) (hb : w.child? d name = some b)
    (hn : w.nodeOf b = some n) (isDir : w.isDirectory n = true) (empty : ∀ c, ¬ w.Entered b c)
    (none : most n = 0) {alone : Prop} : Removed.Gone ⟨b, n, alone⟩ ((w.detach b).unpin b) := by
  have f := s.forest
  have moved : Rearranged (fun _ _ => False) w (w.detach b) := Rearranged.refl.detach
  have unpinned : SameShape (w.detach b) ((w.detach b).unpin b) := .unpin
  obtain ⟨nodes, next, -⟩ := (w.detach b).unpin_frame b
  have nodes := nodes.trans moved.nodes
  obtain ⟨x, hx⟩ := Table.has_iff.1 (f.has_of_child? hb)
  obtain ⟨y, hy⟩ := Table.has_iff.1 (s.tended.there (owned_of_nodeOf hn))
  refine ⟨⟨?_, ?_⟩, fun here => ?_, fun c hc => ?_, fun _ c inside => ?_, fun z hz => ?_⟩
  · rw [next, moved.next]
    exact Table.get?_lt hx
  · rw [nodes]
    exact Table.get?_lt hy
  · exact ((placed_detach h.upheld f hb).1 (unpinned.placed.1 here)).1 rfl
  · exact f.once ((SameTree.unpin.nodeOf.trans (moved.node c)).symm.trans hc) hn isDir
  · exact (moved.entered ((unpinned.entered b c).1 inside)).elim id (empty c)
  · rw [nodes] at hz
    have le := h.links hz ⟨b, placed_of_entered ⟨name, hb⟩, hn, isDir⟩
    rw [none, Nat.le_zero] at le
    unfold World.isDirectory at isDir
    rw [hz] at isDir
    exact ⟨isDir, fun _ => UInt32.toNat_inj.1 le⟩

/-- A fresh binding gets its node, and its place with a pin. -/
theorem place (h : Steady w most rs) (f : Forest w) (vacant : Vacant w b d name)
    (hd : w.nodeOf d = some dir) (unpinned : ∀ x, w.bindings.get? b = some x → x.pins = 0)
    (fits : w.isDirectory n = true → ∀ x, w.nodes.get? n = some x → x.links.toNat ≤ most n)
    (apart : ∀ r ∈ rs, r.binding ≠ b ∧ r.node ≠ n ∧ (r.alone → r.binding ≠ d)) :
    Steady ((w.instantiate b n).pin b) most rs ∧ ∀ m, ((w.instantiate b n).pin b).due m
      = w.due m + ((if m = n then if w.isDirectory n then 2 else 1 else 0)
        + if m = dir then if w.isDirectory n then 1 else 0 else 0) := by
  obtain ⟨upheld, placed, entered, due⟩ :=
    vacant.shape (n := n) h.upheld f (loose (has_parent vacant.parent)) hd
  have pinned : SameShape (w.instantiate b n) ((w.instantiate b n).pin b) := .pin
  refine ⟨?_, fun m => pinned.due.trans (due m)⟩
  obtain ⟨x, hx⟩ := Table.has_iff.1 (has_of_parentOf vacant.parent)
  have free : (w.modifyBinding b ({ · with node := some n })).child? d name = none := by
    rw [child?_modifyBinding_of_children_eq hx rfl, vacant.free]
  have moved : Rearranged (fun e c => e = d ∧ c = b) (w.modifyBinding b ({ · with node := some n }))
      (w.instantiate b n) := by
    rw [vacant.instantiate_eq]
    exact Rearranged.refl.enter free ⟨rfl, rfl⟩
  have node : ∀ c, ((w.instantiate b n).pin b).nodeOf c = if c = b then some n else w.nodeOf c :=
    fun c => SameTree.pin.nodeOf.trans ((moved.node c).trans (nodeOf_modifyBinding hx))
  have here : ∀ {c}, ((w.instantiate b n).pin b).Placed c → c = b ∨ w.Placed c := fun placed' =>
    (placed _).1 (pinned.placed.1 placed')
  have nodes : ((w.instantiate b n).pin b).nodes = w.nodes := moved.nodes
  refine ⟨(pinned.upheld upheld).roots, ?_, fun {c y} hy placed' => ?_, fun {m y} hm seated => ?_,
    fun r mem => ?_⟩
  · rw [show ((w.instantiate b n).pin b).instances = w.instances from moved.inst]
    exact h.sole
  · rcases Table.get?_of_modify hy with ⟨e, z, hz, rfl⟩ | ⟨hne, hy⟩
    · obtain ⟨first, hfirst, pins⟩ := moved.pins hz
      rw [get?_modifyBinding hx, if_pos e] at hfirst
      cases hfirst
      simp only [pins, unpinned x hx]
      rfl
    · obtain ⟨z, hz, pins⟩ := moved.pins hy
      rw [get?_modifyBinding hx, if_neg hne] at hz
      exact pins.trans (h.pins hz ((here placed').resolve_left hne))
  · rw [nodes] at hm
    obtain ⟨c, placed', hc, isDir⟩ := seated
    have isDir : w.isDirectory m = true := by
      unfold World.isDirectory at isDir ⊢
      rwa [nodes] at isDir
    rw [node] at hc
    split at hc
    · cases hc
      exact fits isDir y hm
    · next hne => exact h.links hm ⟨c, (here placed').resolve_left hne, hc, isDir⟩
  · obtain ⟨other, fresh, left⟩ := apart r mem
    have next : ((w.instantiate b n).pin b).bindings.nextId = w.bindings.nextId :=
      Table.nextId_modify.trans (moved.next.trans Table.nextId_modify)
    refine (h.gone r mem).frame (Nat.le_of_eq next.symm) (Nat.le_of_eq (by rw [nodes]))
      (fun placed' => (here placed').resolve_left other) (fun c hc => ?_) (fun alone c inside => ?_)
      fun y hy => ⟨y, nodes ▸ hy, rfl, fun _ => id⟩
    · rw [node] at hc
      split at hc
      · cases hc
        exact absurd rfl fresh
      · exact hc
    · have inside := (entered _ c).1 ((pinned.entered _ c).1 inside)
      exact inside.resolve_left fun into => left alone into.1

/-- A new binding is in no place. -/
theorem pushBinding (h : Steady w most rs) (s : Sound w todo) {host : Host}
    {parent : Option BindingId} :
    Steady { w with host, bindings := w.bindings.push { name, parent } } most rs := by
  refine h.reshape (.pushBinding s) rfl (fun hi root => ⟨_, hi, root⟩)
    ((Nat.le_succ _).trans_eq Table.nextId_push.symm)
    (fun {c x} hx placed => ?_) fun r _ c hc => Forest.nodeOf_pushBinding.symm.trans hc
  have there : w.bindings.has c = true := s.tended.there (owned_of_placed placed)
  obtain ⟨y, hy⟩ := Table.has_iff.1 there
  simp only [Table.get?_push_of_some hy] at hx
  cases hx
  exact ⟨x, hy, rfl⟩

/-- A binding that nothing depends on gets a node or is pinned. -/
theorem adjust (h : Steady w most rs) {g : Binding → Binding} (out : ¬ w.Placed b)
    (shape : SameShape w (w.modifyBinding b g))
    (node : ∀ x, (g x).node = x.node ∨ ((g x).node = some n ∧ ∀ r ∈ rs, r.node ≠ n)) :
    Steady (w.modifyBinding b g) most rs := by
  refine h.reshape shape rfl (fun hi root => ⟨_, hi, root⟩) (Nat.le_of_eq Table.nextId_modify.symm)
    (fun {c x} hx placed => ?_) fun r mem c hc => ?_
  · have hne : c ≠ b := fun e => out (e ▸ placed)
    rw [World.modifyBinding, Table.get?_modify, if_neg hne] at hx
    exact ⟨x, hx, rfl⟩
  · cases hx : w.bindings.get? b with
    | none => rwa [modifyBinding_of_absent hx] at hc
    | some x =>
        rw [nodeOf_modifyBinding hx] at hc
        split at hc
        · next e =>
            subst e
            rcases node x with same | ⟨now, other⟩
            · rw [same] at hc
              exact (nodeOf_of_get? hx).trans hc
            · cases now.symm.trans hc
              exact absurd rfl (other r mem)
        · exact hc

end Steady

end Memfs
