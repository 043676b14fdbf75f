import Memfs.Proofs.Links.Exact

/-!
# Counters that show what is due: the operations on names

Each operation that succeeds is followed through the sequence of its changes, and at its
end the number that the counters show is compared with the links that are due. Where a
counter is lowered there is a link due to its node at that moment, which is why no
counter is ever found at zero; what has to be known besides is that the links due fit
into the counter.
-/

namespace Memfs

open World

variable {w w' v : World} {a b dir old dirA dirB : BindingId} {n d nodeA nodeB source : NodeId}
  {name nameA nameB : String} {mode : Mode} {flags : RenameFlags}

/-! ## Making names -/

namespace Showing

/-- A new node is made under a fresh binding. The directory that the binding is in has a
link due to it if the node is a directory. -/
theorem makeAt {device : DeviceNumber} (h : Showing w v fun n => w.due n) (u : w.Upheld [])
    (s : Sound v [.letGo (.binding b)]) (vacant : Vacant v b dir name) (placed : w.Placed dir)
    (hd : v.nodeOf dir = some d) (made : Action.makeAt d b mode device v = .ok () w') : ∃ n,
      Reshaped w w' (fun m => w.due m + if m = n then if mode.isDirectory then 2 else 1 else 0)
        fun m => (if m = n then if mode.isDirectory then 2 else 1 else 0)
          + if m = d then if mode.isDirectory then 1 else 0 else 0 := by
  obtain ⟨home, n, mid, -, node, rfl⟩ := Action.makeAt_ok made
  have h := h.newNode s node
  obtain ⟨s, -, -, same⟩ := s.newNode node
  have hd : mid.nodeOf dir = some d := by
    unfold World.nodeOf at hd ⊢
    rwa [same]
  have reshaped := h.instantiate u s (vacant.of_bindings same) placed hd
  rw [Action.isDirectory_of_newNode node] at reshaped
  exact ⟨n, reshaped.next reshaped.showing.touch⟩

theorem makeSymlinkAt {target : String} (h : Showing w v fun n => w.due n) (u : w.Upheld [])
    (s : Sound v [.letGo (.binding b)]) (vacant : Vacant v b dir name) (placed : w.Placed dir)
    (hd : v.nodeOf dir = some d) (made : Action.makeSymlinkAt d b target v = .ok () w') :
    Exact w' := by
  obtain ⟨home, n, mid, mid', -, node, stored, rfl⟩ := Action.makeSymlinkAt_ok made
  have h := (h.newNode s node).storeTarget stored
  obtain ⟨s, there, alone, same⟩ := s.newNode node
  obtain ⟨kept, -⟩ := Action.storeTarget_frame stored
  have hd : mid'.nodeOf dir = some d := by
    unfold World.nodeOf at hd ⊢
    rwa [kept, same]
  have file : mid'.isDirectory n = false :=
    (Action.isDirectory_of_storeTarget stored).trans (Action.isDirectory_of_newNode node)
  have reshaped := h.instantiate u (s.storeTarget stored) (vacant.of_bindings (kept.trans same))
    placed hd
  rw [file] at reshaped
  refine (reshaped.next reshaped.showing.touch).exact fun m => ?_
  simp [show Action.symlinkMode.isDirectory = false from rfl]

end Showing

namespace Exact

/-- The place for a name is made, and then what comes to it. -/
theorem makeName (x : Exact w) (s : Sound w []) {make : NodeId → BindingId → Action Unit}
    (hd : w.nodeOf dir = some d) (hdir : w.isDirectory d = true) (checked : checkName name = .ok ())
    (h : Action.makeName dir d name make w = .ok b w')
    (made : ∀ v, Action.newBinding dir name w = .ok b v → Showing w v (fun n => w.due n) →
      Sound v [.letGo (.binding b)] → Vacant v b dir name → v.nodeOf dir = some d →
      make d b v = .ok () w' → Exact w') : Exact w' := by
  obtain ⟨free, v, hb, h⟩ := Action.makeName_ok h
  obtain ⟨sv, vacant⟩ := s.newBinding hd hdir checked free hb
  refine made v hb ((Showing.start x).newBinding s hb) sv vacant ?_ h
  obtain ⟨host, -, -, rfl⟩ := Action.newBinding_eq_ok.1 hb
  exact Forest.nodeOf_pushBinding.trans hd

/-- What is made is no directory. -/
theorem makeFile (x : Exact w) (s : Sound w []) {device : DeviceNumber}
    (hd : w.nodeOf dir = some d) (hdir : w.isDirectory d = true) (placed : w.Placed dir)
    (checked : checkName name = .ok ()) (file : mode.isDirectory = false)
    (h : Action.makeName dir d name (Action.makeAt · · mode device) w = .ok b w') : Exact w' := by
  refine x.makeName s hd hdir checked h fun v _ showing sv vacant hd made => ?_
  obtain ⟨n, reshaped⟩ := showing.makeAt x.upheld sv vacant placed hd made
  refine reshaped.exact fun m => ?_
  simp [file]

theorem create (x : Exact w) (s : Sound w []) (placed : w.Placed dir)
    (h : Action.create dir name mode w = .ok b w') : Exact w' := by
  obtain ⟨checked, d, hd, hdir, h⟩ := Action.create_ok h
  exact x.makeFile s hd hdir placed checked Mode.isDirectory_withType_regular h

theorem mknod (x : Exact w) (s : Sound w []) (placed : w.Placed dir) {device : DeviceNumber}
    (h : Action.mknod dir name mode device w = .ok b w') : Exact w' := by
  obtain ⟨checked, d, full, given, hd, hdir, kind, h⟩ := Action.mknod_ok h
  refine x.makeFile s hd hdir placed checked ?_ h
  rcases kind with ⟨-, rfl, -⟩ | ⟨special, rfl, -⟩
  · exact Mode.isDirectory_withType_regular
  · exact Mode.isDirectory_of_special special

theorem mkdir (x : Exact w) (s : Sound w []) (placed : w.Placed dir)
    (h : Action.mkdir dir name mode w = .ok b w') : Exact w' := by
  obtain ⟨checked, d, hd, hdir, h⟩ := Action.mkdir_ok h
  refine x.makeName s hd hdir checked h fun v _ showing sv vacant hd made => ?_
  obtain ⟨mid, node, rfl⟩ := Action.makeDirectoryAt_ok made
  obtain ⟨n, reshaped⟩ := showing.makeAt x.upheld sv vacant placed hd node
  refine (reshaped.next reshaped.showing.addLink).exact fun m => ?_
  simp [Mode.isDirectory_withType_directory, Int.add_assoc]

theorem symlink (x : Exact w) (s : Sound w []) (placed : w.Placed dir) {target : String}
    (h : Action.symlink dir name target w = .ok b w') : Exact w' := by
  obtain ⟨checked, d, hd, hdir, h⟩ := Action.symlink_ok h
  exact x.makeName s hd hdir checked h fun v _ showing sv vacant hd made =>
    showing.makeSymlinkAt x.upheld sv vacant placed hd made

theorem link (x : Exact w) (s : Sound w []) (placed : w.Placed dir)
    (h : Action.link old dir name w = .ok b w') : Exact w' := by
  obtain ⟨checked, target, d, node, hold, file, -, -, hd, hdir, -, h⟩ := Action.link_ok h
  refine x.makeName s hd hdir checked h fun v fresh showing sv vacant hd made => ?_
  have file : v.isDirectory target = false := by
    obtain ⟨host, -, -, rfl⟩ := Action.newBinding_eq_ok.1 fresh
    exact file
  have hold : v.nodeOf old = some target := by
    obtain ⟨host, -, -, rfl⟩ := Action.newBinding_eq_ok.1 fresh
    exact Forest.nodeOf_pushBinding.trans hold
  obtain ⟨n, hn, rfl⟩ := Action.linkAt_ok made
  cases hold.symm.trans hn
  have tree : SameTree v ((v.touchWith d target).addLink target) :=
    SameTree.touchWith.trans .addLink
  have waiting : Sound ((v.touchWith d target).addLink target)
      [.letGo (.node target), .letGo (.binding b)] :=
    (sv.touchWith.addLink (n := target)).mono (fun _ h => List.mem_cons_of_mem _ h) rfl
  have reshaped := showing.touchWith.addLink.instantiate x.upheld waiting (vacant.of_bindings rfl)
    placed (tree.nodeOf.trans hd)
  rw [tree.directory hold, file] at reshaped
  refine reshaped.exact fun m => ?_
  simp

end Exact

/-! ## Removing names -/

namespace Showing

variable {l : NodeId → Int}

/-- A binding in which nothing is loses its link and its place. -/
theorem unlinked (h : Showing w v l) (u : w.Upheld []) (f : Forest v)
    (hb : v.child? dir name = some b) (empty : ∀ c, ¬ v.Entered b c) (pos : 0 < l n)
    (lt : l n < 2 ^ 32) :
    Reshaped w (v.unlinked d b n) (fun m => l m - if m = n then 1 else 0)
      fun m => - (v.own b m + v.given b dir m : Nat) := by
  have tree : SameTree v ((v.touchWith d n).dropLink n) := SameTree.touchWith.trans .dropLink
  have shape : SameShape v ((v.touchWith d n).dropLink n) := SameShape.touchWith.trans .dropLink
  have entered : v.Entered dir b := ⟨name, hb⟩
  have out := (h.touchWith.dropLink pos lt).takeOut u (f.congr tree) (tree.child?.trans hb)
    fun c inside => empty c ((shape.entered b c).1 inside)
  refine ⟨out.showing, out.upheld, fun m => ?_⟩
  rw [← shape.own (.inl (placed_of_entered entered)), ← shape.given entered]
  exact out.due m

end Showing

namespace Exact

theorem unlink (x : Exact w) (s : Sound w []) (room : ∀ n, w.due n < 2 ^ 32)
    (h : Action.unlink dir name w = .ok () w') : Exact w' := by
  obtain ⟨d, b, n, hd, -, hb, hn, file, rfl⟩ := Action.unlink_ok h
  have entered : w.Entered dir b := ⟨name, hb⟩
  have pos : 0 < w.due n := due_pos (placed_of_entered entered) hn
  have lt := room n
  have out := (Showing.start x).unlinked (d := d) (n := n) x.upheld s.forest hb
    (fun c => not_entered_of_file s.forest hn file) (by omega) (by omega)
  refine letGo_binding (out.exact fun m => ?_) (s.unlinked hb)
  have notDir : w.bindsDirectory b = false := by
    unfold World.bindsDirectory
    rw [hn]
    exact file
  rw [own_of_nodeOf hn, given_of_nodeOf hd, file, notDir]
  split
  · simp
    omega
  · simp

theorem rmdir (x : Exact w) (s : Sound w []) (room : ∀ n, w.due n < 2 ^ 32)
    (h : Action.rmdir dir name w = .ok () w') : Exact w' := by
  obtain ⟨d, b, n, hd, -, hb, hn, isDir, leaf, rfl⟩ := Action.rmdir_ok h
  have entered : w.Entered dir b := ⟨name, hb⟩
  have binds : w.bindsDirectory b = true := bindsDirectory_iff.2 ⟨n, hn, isDir⟩
  have hne : d ≠ n := by
    rintro rfl
    -- the directory would be in itself
    cases s.forest.once hd hn isDir
    exact s.forest.not_above_self (.single (s.forest.entry hb).2)
  have dueN := own_add_given_le_due (n := n) s.forest entered
  have dueD := own_add_given_le_due (n := d) s.forest entered
  rw [own_of_nodeOf hn, given_of_nodeOf hd, isDir, binds] at dueN dueD
  simp only [if_true, if_neg hne, if_neg hne.symm] at dueN dueD
  have ltN := room n
  have ltD := room d
  -- the removed directory loses a link before it is taken out, and one with it
  have tree : SameTree w (w.dropLink n) := .dropLink
  have shape : SameShape w (w.dropLink n) := .dropLink
  have lowered := (Showing.start x).dropLink (n := n) (by omega) (by omega)
  have out := lowered.unlinked (d := d) (n := n) x.upheld s.dropLink.forest (tree.child?.trans hb)
    (fun c inside => not_entered_of_hasChildren leaf ((shape.entered b c).1 inside))
    (by simp only [if_true]; omega) (by simp only [if_true]; omega)
  have last := out.next (out.showing.dropLink (n := d)
    (by simp only [if_neg hne]; omega) (by simp only [if_neg hne]; omega))
  have s' : Sound (((w.dropLink n).unlinked d b n).dropLink d) [.letGo (.binding b)] :=
    (s.dropLink.unlinked (tree.child?.trans hb)).dropLink
  refine letGo_binding (last.exact fun m => ?_) s'
  rw [shape.own (.inl (placed_of_entered entered)), shape.given entered, own_of_nodeOf hn,
    given_of_nodeOf hd, isDir, binds]
  split
  · split
    · simp
      omega
    · simp
      omega
  · split
    · simp
      omega
    · simp

end Exact

/-! ## Moving names -/

namespace World

theorem placed_unlinked {loose : List BindingId} {c : BindingId} (u : w.Upheld loose) (f : Forest w)
    (hb : w.child? dir name = some b) :
    (w.unlinked d b n).Placed c ↔ c ≠ b ∧ w.Placed c := by
  have tree : SameTree w ((w.touchWith d n).dropLink n) := SameTree.touchWith.trans .dropLink
  have shape : SameShape w ((w.touchWith d n).dropLink n) := SameShape.touchWith.trans .dropLink
  have unpinned : SameShape (((w.touchWith d n).dropLink n).detach b) (w.unlinked d b n) := .unpin
  rw [unpinned.placed, placed_detach (shape.upheld u) (f.congr tree) (tree.child?.trans hb),
    shape.placed]

/-- The link that an entry gives is due. -/
theorem given_le_due (f : Forest w) (h : w.Entered dir b) : w.given b dir n ≤ w.due n :=
  Nat.le_trans (Nat.le_add_left ..) (own_add_given_le_due f h)

/-- Of two bindings that change places one is a directory and the other is not, and a link goes
with the directory, or no link moves. -/
theorem exchangeLinks_cases (w : World) (nodeA n nodeB d : NodeId) :
    w.isDirectory n = true ∧ w.isDirectory d = false ∧
      w.exchangeLinks nodeA n nodeB d = w.shiftLink nodeA nodeB ∨
    w.isDirectory n = false ∧ w.isDirectory d = true ∧
      w.exchangeLinks nodeA n nodeB d = w.shiftLink nodeB nodeA ∨
    (nodeA = nodeB ∨ w.isDirectory n = w.isDirectory d) ∧
      w.exchangeLinks nodeA n nodeB d = w := by
  unfold exchangeLinks
  split
  · next differ =>
      cases kind : w.isDirectory n with
      | true => exact .inl ⟨rfl, by simpa [kind] using differ.2, if_pos rfl⟩
      | false => exact .inr (.inl ⟨rfl, by simpa [kind] using differ.2, if_neg nofun⟩)
  · next alike =>
      rw [not_and_or, not_not, not_not] at alike
      exact .inr (.inr ⟨alike, rfl⟩)

end World

namespace Showing

variable {l : NodeId → Int}

theorem shiftLink (h : Showing w v l) (pos : 0 < l nodeA) (lt : l nodeA < 2 ^ 32) :
    Showing w (v.shiftLink nodeA nodeB)
      (fun m => l m - (if m = nodeA then 1 else 0) + if m = nodeB then 1 else 0) :=
  (h.dropLink pos lt).addLink

/-- Before a binding comes to another directory, the counters show what will be due. -/
theorem shifted (h : Showing w v fun n => w.due n) (f : Forest w) (room : ∀ n, w.due n < 2 ^ 32)
    (hA : w.nodeOf dirA = some nodeA) (hB : w.nodeOf dirB = some nodeB)
    (ha : w.child? dirA nameA = some a) (hn : w.nodeOf a = some n) :
    Showing w (if w.isDirectory n then v.shiftLink nodeA nodeB else v) fun m =>
      w.due m + (w.given a dirB m - w.given a dirA m) := by
  have due := given_le_due (n := nodeA) f ⟨nameA, ha⟩
  have lt := room nodeA
  rw [given_of_nodeOf hA, if_pos rfl, bindsDirectory_of_nodeOf hn] at due
  simp only [given_of_nodeOf hA, given_of_nodeOf hB, bindsDirectory_of_nodeOf hn]
  cases kind : w.isDirectory n with
  | true =>
      rw [kind, if_pos rfl] at due
      refine (h.shiftLink (by omega) (by omega)).congr fun m => ?_
      simp only [if_true]
      push_cast
      omega
  | false => exact h.congr fun m => by simp

/-- The same for two bindings that change places. -/
theorem exchangeLinks (x : Exact w) (f : Forest w) (room : ∀ n, w.due n < 2 ^ 32)
    (hA : w.nodeOf dirA = some nodeA) (hB : w.nodeOf dirB = some nodeB)
    (ha : w.child? dirA nameA = some a) (hb : w.child? dirB nameB = some b)
    (hn : w.nodeOf a = some n) (hd : w.nodeOf b = some d) :
    Showing w (w.exchangeLinks nodeA n nodeB d) fun m => w.due m
      + (w.given a dirB m + w.given b dirA m - (w.given a dirA m + w.given b dirB m)) := by
  have start := Showing.start x
  have shiftA := start.shifted f room hA hB ha hn
  have shiftB := start.shifted f room hB hA hb hd
  simp only [given_of_nodeOf hA, given_of_nodeOf hB, bindsDirectory_of_nodeOf hn,
    bindsDirectory_of_nodeOf hd] at shiftA shiftB ⊢
  rcases w.exchangeLinks_cases nodeA n nodeB d with
    ⟨kindA, kindB, links⟩ | ⟨kindA, kindB, links⟩ | ⟨same | same, links⟩
  · rw [links]
    rw [kindA] at shiftA
    exact shiftA.congr fun m => by simp [kindA, kindB]
  · rw [links]
    rw [kindB] at shiftB
    exact shiftB.congr fun m => by simp [kindA, kindB]
  · rw [links, same]
    exact start.congr fun m => by omega
  · rw [links, same]
    exact start.congr fun m => by omega

/-- What is replaced gives its links back, and the directory that moves the one that it
gave. -/
theorem replacedLinks (x : Exact w) (s : Sound w []) (room : ∀ n, w.due n < 2 ^ 32)
    (hA : w.nodeOf dirA = some nodeA) (ha : w.child? dirA nameA = some a)
    (hn : w.nodeOf a = some n) (hb : w.child? dirB nameB = some b) (hd : w.nodeOf b = some d)
    (kinds : w.isDirectory d = w.isDirectory n) (other : d ≠ nodeA) :
    ∃ v l, (if w.isDirectory n then (w.dropLink d).dropLink nodeA else w) = v ∧
      Showing w v l ∧ Sound v [] ∧ SameTree w v ∧ 0 < l d ∧ l d < 2 ^ 32 ∧
      ∀ m, l m = w.due m - (if m = d then if w.isDirectory n then 1 else 0 else 0)
        - if m = nodeA then if w.isDirectory n then 1 else 0 else 0 := by
  have start := Showing.start x
  have dueD := own_le_due (n := d) (placed_of_entered ⟨nameB, hb⟩)
  have dueA := given_le_due (n := nodeA) s.forest ⟨nameA, ha⟩
  have ltD := room d
  have ltA := room nodeA
  rw [own_of_nodeOf hd, if_pos rfl, kinds] at dueD
  rw [given_of_nodeOf hA, if_pos rfl, bindsDirectory_of_nodeOf hn] at dueA
  cases kind : w.isDirectory n with
  | true =>
      rw [kind, if_pos rfl] at dueD dueA
      have lowered := (start.dropLink (n := d) (by omega) (by omega)).dropLink (n := nodeA)
        (by simp only [if_neg other.symm]; omega) (by simp only [if_neg other.symm]; omega)
      refine ⟨_, _, if_pos rfl, lowered, s.dropLink.dropLink, SameTree.dropLink.trans .dropLink,
        ?_, ?_, fun m => rfl⟩
      · simp only [if_true, if_neg other]
        omega
      · simp only [if_true, if_neg other]
        omega
  | false =>
      rw [kind, if_neg nofun] at dueD
      exact ⟨_, _, if_neg nofun, start, s, .refl, by omega, by omega, fun m => by simp⟩

end Showing

namespace Exact

theorem exchangeNames (x : Exact w) (s : Sound w []) (room : ∀ n, w.due n < 2 ^ 32)
    (hA : w.nodeOf dirA = some nodeA) (hB : w.nodeOf dirB = some nodeB)
    (ha : w.child? dirA nameA = some a) (hb : w.child? dirB nameB = some b) (hne : a ≠ b)
    (exchange : flags.has .exchange = true)
    (h : Action.exchangeNames dirA nodeA a dirB nodeB b flags w = .ok () w') : Exact w' := by
  obtain ⟨apartA, apartB, n, d, hn, hd, rfl⟩ := Action.exchangeNames_ok exchange h
  have tree : SameTree w ((w.exchangeLinks nodeA n nodeB d).touchRenamed nodeA a nodeB b) :=
    SameTree.exchangeLinks.trans .touchRenamed
  have given : ∀ c e m, ((w.exchangeLinks nodeA n nodeB d).touchRenamed nodeA a nodeB b).given c e m
      = w.given c e m := fun _ _ _ => given_congr tree.bindsDirectory tree.nodeOf
  have showing := (Showing.exchangeLinks x s.forest room hA hB ha hb hn hd).touchRenamed
    (n := nodeA) (m := nodeB) (b := b) (a := a)
  have apart : ∀ {c top}, w.isBelow c top = false → c ≠ top := by
    rintro c top apart rfl
    exact s.forest.not_above_of_isBelow_eq_false apart .refl
  have reshaped := showing.exchangeBindings x.upheld s.exchangeLinks.touchRenamed
    (tree.child?.trans ha) (tree.child?.trans hb) hne (apart apartA) (apart apartB)
  refine reshaped.exact fun m => ?_
  simp only [given]

end Exact

/-! ## A place that is taken -/

/-- Two names for two bindings are two places. What had the place and may go is empty, and
its node is not the directory that the other binding is in. -/
theorem Forest.replaceable (f : Forest w) (hA : w.nodeOf dirA = some nodeA)
    (ha : w.child? dirA nameA = some a) (hb : w.child? dirB nameB = some b) (hne : b ≠ a)
    (hn : w.nodeOf b = some n) (kinds : w.bindsDirectory b = w.isDirectory source)
    (leaf : w.hasChildren b = false) :
    ¬ (dirA = dirB ∧ nameA = nameB) ∧ (∀ c, ¬ w.Entered b c) ∧
      w.isDirectory n = w.isDirectory source ∧ n ≠ nodeA := by
  have empty : ∀ c, ¬ w.Entered b c := fun c => not_entered_of_hasChildren leaf
  refine ⟨places_ne ha hb hne.symm, empty, (bindsDirectory_of_nodeOf hn).symm.trans kinds, ?_⟩
  rintro rfl
  -- the directory that `a` is in is not empty
  obtain ⟨m, hm, isDir⟩ := bindsDirectory_iff.1 (bindsDirectory_of_entered f ⟨nameA, ha⟩)
  cases hA.symm.trans hm
  cases f.once hA hn isDir
  exact empty a ⟨nameA, ha⟩

theorem World.Cleared.given (h : w.Cleared v dirB nameB) {e : BindingId} {m : NodeId} :
    v.given a e m = w.given a e m :=
  given_congr (h.binds a) (h.node e)

namespace Exact

/-- What had the place is gone, with its links and the one that it gave. -/
theorem moveOnto (x : Exact w) (s : Sound w []) (room : ∀ n, w.due n < 2 ^ 32)
    (hA : w.nodeOf dirA = some nodeA) (hB : w.nodeOf dirB = some nodeB)
    (ha : w.child? dirA nameA = some a) (hb : w.child? dirB nameB = some b) (hne : b ≠ a)
    (hsource : w.nodeOf a = some source) (hn : w.nodeOf b = some n)
    (kinds : w.bindsDirectory b = w.isDirectory source) (leaf : w.hasChildren b = false)
    (apart : ¬ w.Above a dirB) :
    Exact (((w.replaced nodeA source nodeB b n).touchRenamed nodeA a nodeB b).moveBinding a
      dirB nameB) := by
  have f := s.forest
  have enteredA : w.Entered dirA a := ⟨nameA, ha⟩
  have enteredB : w.Entered dirB b := ⟨nameB, hb⟩
  obtain ⟨places, empty, kindN, other⟩ := f.replaceable hA ha hb hne hn kinds leaf
  -- the counts of links go first
  obtain ⟨v, l, hv, showing, sv, tree, pos, lt, shows⟩ :=
    Showing.replacedLinks x s room hA ha hsource hb hn kindN other
  unfold World.replaced
  rw [hv]
  have shape := showing.shape
  have hb' : v.child? dirB nameB = some b := tree.child?.trans hb
  have out := showing.unlinked (d := nodeB) x.upheld sv.forest hb'
    (fun c inside => empty c ((shape.entered b c).1 inside)) pos lt
  have stamped := out.showing.touchRenamed (n := nodeA) (m := nodeB) (a := a) (b := b)
  have touched := out.next stamped
  have cleared : w.Cleared ((v.unlinked nodeB b n).touchRenamed nodeA a nodeB b) dirB nameB :=
    tree.cleared sv.forest hb'
  have placed : (v.unlinked nodeB b n).Placed dirB := by
    rw [placed_unlinked (shape.upheld x.upheld) sv.forest hb', shape.placed]
    refine ⟨?_, (x.upheld.entered enteredB).resolve_right List.not_mem_nil⟩
    rintro rfl
    exact empty _ enteredB
  have moved := touched.showing.moveBinding touched.upheld (sv.unlinked hb').touchRenamed.forest
    (cleared.kept ha places) (stamped.shape.placed.2 placed)
    (has_of_bindsDirectory ((cleared.binds dirB).trans (bindsDirectory_of_entered f enteredB)))
    (fun same => apart (same ▸ .refl)) cleared.free
  refine (touched.trans moved).exact fun m => ?_
  rw [cleared.given, cleared.given, shape.own (.inl (placed_of_entered enteredB)), shape.given enteredB,
    own_of_nodeOf hn, given_of_nodeOf hB, given_of_nodeOf hB, given_of_nodeOf hA, shows, kindN,
    bindsDirectory_of_nodeOf hsource, kinds]
  cases w.isDirectory source with
  | true =>
      simp only [if_true]
      push_cast
      split
      · omega
      · omega
  | false =>
      simp only [Bool.false_eq_true, if_false, ite_self]
      push_cast
      omega

/-- The place is free, and the link that a directory gives moves to the directory that
it comes to. -/
theorem moveInto (x : Exact w) {u : World} {l : NodeId → Int} (ha : w.child? dirA nameA = some a)
    (free : w.child? dirB nameB = none) (isDirB : w.bindsDirectory dirB = true)
    (placed : w.Placed dirB) (apart : ¬ w.Above a dirB)
    (made : Action.newBinding dirB nameB w = .ok b v) (f : Forest u) (tree : SameTree v u)
    (h : Showing w u l)
    (shows : ∀ m, l m = w.due m + (w.given a dirB m - w.given a dirA m)) :
    Exact (u.moveBinding a dirB nameB) := by
  obtain ⟨child, node, binds⟩ := Sound.unseen made tree
  have given : ∀ e m, u.given a e m = w.given a e m := fun e m => given_congr (binds a) (node e)
  have reshaped := h.moveBinding x.upheld f ((child dirA nameA).trans ha) placed
    (has_of_bindsDirectory ((binds dirB).trans isDirB)) (fun same => apart (same ▸ .refl))
    ((child dirB nameB).trans free)
  refine reshaped.exact fun m => ?_
  rw [given, given, shows]

theorem moveName (x : Exact w) (s : Sound w []) (room : ∀ n, w.due n < 2 ^ 32)
    (placed : w.Placed dirB) (hA : w.nodeOf dirA = some nodeA) (hB : w.nodeOf dirB = some nodeB)
    (kindB : w.isDirectory nodeB = true) (ha : w.child? dirA nameA = some a)
    (hsource : w.nodeOf a = some source) (checked : checkName nameB = .ok ())
    (hne : ∀ b, w.child? dirB nameB = some b → b ≠ a) (move : flags.has .exchange = false)
    (h : Action.moveName nodeA a source dirB nodeB nameB (w.child? dirB nameB) flags w
      = .ok () w') : Exact w' := by
  have isDirB : w.bindsDirectory dirB = true := bindsDirectory_iff.2 ⟨nodeB, hB, kindB⟩
  obtain ⟨apart, ⟨b, n, hb, hn, kinds, leaf, rfl⟩ | ⟨b, v, u, free, made, hu, su, tree, rfl⟩⟩ :=
    s.moveName_cases hsource hB kindB checked move h
  · exact letGo_binding (x.moveOnto s room hA hB ha hb (hne b hb) hsource hn kinds leaf apart)
      (s.moveOnto ha hb (hne b hb) isDirB apart)
  · have shifted := ((Showing.start x).newBinding s made).shifted s.forest room hA hB ha hsource
    rw [← hu] at shifted
    exact letGo_binding (x.moveInto ha free isDirB placed apart made su.touchRenamed.forest
        (tree.trans .touchRenamed) shifted.touchRenamed fun _ => rfl)
      (s.moveInto ha free isDirB apart checked made su.touchRenamed (tree.trans .touchRenamed))

theorem rename (x : Exact w) (s : Sound w []) (room : ∀ n, w.due n < 2 ^ 32)
    (placed : w.Placed dirB) (h : Action.rename dirA nameA dirB nameB flags w = .ok () w') :
    Exact w' := by
  obtain ⟨-, checked, nodeA, nodeB, a, source, hA, -, hB, isDirB, -, ha, hsource, outcome⟩ :=
    Action.rename_ok h
  rcases outcome with ⟨-, rfl⟩ | ⟨differ, ⟨exchange, b, hb, done⟩ | ⟨move, done⟩⟩
  · exact x
  · exact x.exchangeNames s room hA hB ha hb (differ b hb).1.symm exchange done
  · exact x.moveName s room placed hA hB isDirB ha hsource checked (fun b hb => (differ b hb).1)
      move done

end Exact

end Memfs
