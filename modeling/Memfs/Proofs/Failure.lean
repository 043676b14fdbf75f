import Memfs.File
import Memfs.Proofs.Making
import Memfs.Proofs.Pages
import Memfs.Proofs.Unchanged

/-!
# A failed operation changes nothing

An operation looks first and changes last. `Reads` is said of the parts that only
look; they can be passed over. What is left of an operation behind them either cannot
fail or undoes its work, and `Clean` says so for a given world: every failure leaves
it unchanged.

The proofs follow the operations step by step. The places where something has to be
undone are few: a binding or a node made for nothing, a file entered too early, pages
taken for a write that does not get all of them.
-/

namespace Memfs.Action

open World

variable {α β : Type} {w w' : World} {todo : List Task} {e : Error}

/-- The operation changes nothing, whether it fails or not. -/
structure Reads (x : Action α) : Prop where
  ok : ∀ {w a w'}, x w = .ok a w' → w' = w
  error : ∀ {w e w'}, x w = .error e w' → w' = w

/-- Where the operation fails it leaves the world as it was. -/
def Clean (x : Action α) (w : World) : Prop := ∀ e w', x w = .error e w' → Unchanged w w'

/-! ## Looking -/

namespace Reads

theorem get : Reads (get : Action World) where
  ok h := (get_eq_ok.1 h).2.symm
  error h := absurd h get_eq_error

theorem pure (a : α) : Reads (pure a : Action α) where
  ok h := (pure_eq_ok.1 h).2.symm
  error h := absurd h pure_eq_error

theorem throw (cause : Error) : Reads (throw cause : Action α) where
  ok h := absurd h throw_eq_ok
  error h := (throw_eq_error.1 h).2.symm

theorem test (f : World → Except Error α) : Reads (test f) where
  ok h := (test_eq_ok.1 h).2.symm
  error h := (test_eq_error.1 h).2.symm

theorem require (cause : Error) (value : Option α) : Reads (require cause value) where
  ok h := (require_eq_ok.1 h).2.symm
  error h := (require_eq_error.1 h).2.2.symm

theorem bind {x : Action α} {k : α → Action β} (hx : Reads x) (hk : ∀ a, Reads (k a)) :
    Reads (x >>= k) where
  ok h := by
    obtain ⟨a, mid, ha, hb⟩ := bind_eq_ok.1 h
    rw [(hk a).ok hb, hx.ok ha]
  error h := by
    rcases bind_eq_error.1 h with h | ⟨a, mid, ha, h⟩
    · exact hx.error h
    · rw [(hk a).error h, hx.ok ha]

theorem ite {c : Prop} [Decidable c] {x y : Action α} (hx : Reads x) (hy : Reads y) :
    Reads (if c then x else y) := by
  split
  · exact hx
  · exact hy

end Reads

theorem reads_boundNode (b : BindingId) : Reads (boundNode b) :=
  .bind .get fun _ => .require _ _

theorem reads_directoryOf (b : BindingId) : Reads (directoryOf b) :=
  .bind (reads_boundNode b) fun _ => .bind .get fun _ => .ite (.pure _) (.throw _)

theorem reads_takenBinding (dir : BindingId) (name : String) : Reads (takenBinding dir name) :=
  .bind .get fun _ => .require _ _

theorem reads_node (n : NodeId) : Reads (node n) := .bind .get fun _ => .require _ _

theorem reads_homeOf (n : NodeId) : Reads (homeOf n) :=
  .bind (reads_node n) fun _ => .bind .get fun _ => .ite (.pure _) (.throw _)

theorem reads_file (f : FileId) : Reads (file f) := .bind .get fun _ => .require _ _

theorem reads_fileNode (f : FileId) : Reads (fileNode f) :=
  .bind (reads_file f) fun _ => .require _ _

theorem reads_contentNode (f : FileId) (right : OpenFlags) : Reads (contentNode f right) := by
  refine .bind (reads_file f) fun opened => ?_
  -- the node is looked for on both sides, for what refuses the right does not return
  refine .ite ?_ (.bind (.throw _) fun _ => ?_)
  all_goals
    refine .bind (reads_fileNode f) fun n => .bind (reads_node n) fun node => ?_
    split
    · exact .pure _
    · exact .throw _
    · exact .throw _

/-! ## Failing cleanly -/

namespace Clean

theorem read {x : Action α} {k : α → Action β} (hx : Reads x)
    (hk : ∀ a, x w = .ok a w → Clean (k a) w) : Clean (x >>= k) w := by
  intro e w' h
  rcases bind_eq_error.1 h with h | ⟨a, mid, ha, rest⟩
  · rw [hx.error h]
    exact .refl
  · have hmid := hx.ok ha
    subst hmid
    exact hk a ha e w' rest

theorem of_reads {x : Action α} (hx : Reads x) : Clean x w := by
  intro e w' h
  rw [hx.error h]
  exact .refl

/-- A test that stops the operation. -/
theorem guard {c : Prop} [Decidable c] {cause : Error} {k : PUnit → Action β}
    (hk : ¬ c → Clean (k ⟨⟩) w) : Clean (if c then throw cause >>= k else k ⟨⟩) w := by
  split
  · exact read (.throw cause) fun a h => absurd h throw_eq_ok
  · next h => exact hk h

theorem demand {c : Prop} [Decidable c] {cause : Error} {k : PUnit → Action β}
    (hk : c → Clean (k ⟨⟩) w) : Clean (if c then k ⟨⟩ else throw cause >>= k) w := by
  split
  · next h => exact hk h
  · exact read (.throw cause) fun a h => absurd h throw_eq_ok

/-- What comes behind the operation does not fail. -/
theorem last {x : Action α} {k : α → Action β} (hx : Clean x w)
    (hk : ∀ a mid, x w = .ok a mid → ∀ e w', k a mid ≠ .error e w') : Clean (x >>= k) w := by
  intro e w' h
  rcases bind_eq_error.1 h with h | ⟨a, mid, ha, h⟩
  · exact hx e w' h
  · exact absurd h (hk a mid ha e w')

theorem of_safe {x : Action α} (hx : ∀ e w', x w ≠ .error e w') : Clean x w :=
  fun e w' h => absurd h (hx e w')

end Clean

/-! ## Making names -/

theorem newNode_clean {home : InstanceId} {dir : Option NodeId} {mode : Mode}
    {device : DeviceNumber} : Clean (newNode home dir mode device) w := by
  intro e w' h
  obtain ⟨host, rfl, alike, net⟩ := newNode_error h
  exact .of_host alike net

theorem newBinding_clean {dir : BindingId} {name : String} : Clean (newBinding dir name) w := by
  intro e w' h
  obtain ⟨host, refused, -, rfl⟩ := newBinding_eq_error.1 h
  exact .of_host (Host.alike_of_acquire refused) fun _ => Host.net_of_refused refused

@[simp]
theorem freshBinding_eq_ok {dir b : BindingId} {name : String} :
    freshBinding dir name w = .ok b w' ↔
      w.child? dir name = none ∧ newBinding dir name w = .ok b w' := by
  simp [freshBinding]

/-- A binding made for an operation is given up with it. -/
theorem orLetGo_clean (s : Sound w todo) {dir b : BindingId} {name : String} {mid : World}
    (made : newBinding dir name w = .ok b mid) {x : Action α} (hx : Clean x mid)
    (h : x.orLetGo (.binding b) mid = .error e w') : Unchanged w w' := by
  obtain ⟨host, acquired, rfl, rfl⟩ := newBinding_eq_ok.1 made
  obtain ⟨last, failed, rfl⟩ := orLetGo_eq_error.1 h
  exact .letGo_binding s.tended acquired (hx e last failed)

theorem makeName_clean (s : Sound w []) {dir : BindingId} {n : NodeId} {name : String}
    {make : NodeId → BindingId → Action Unit}
    (hmake : ∀ b mid, newBinding dir name w = .ok b mid → Clean (make n b) mid) :
    Clean (makeName dir n name make) w := by
  intro e w' h
  rcases bind_eq_error.1 h with h | ⟨b, mid, made, h⟩
  · have fresh : Clean (freshBinding dir name) w :=
      .read .get fun _ _ => .guard fun _ => newBinding_clean
    exact fresh e w' h
  · obtain ⟨-, made⟩ := freshBinding_eq_ok.1 made
    rcases bind_eq_error.1 h with h | ⟨_, _, _, h⟩
    · exact orLetGo_clean s made (hmake b mid made) h
    · exact absurd h pure_eq_error

theorem makeAt_clean {dir : NodeId} {b : BindingId} {mode : Mode} {device : DeviceNumber} :
    Clean (makeAt dir b mode device) w :=
  .read (reads_homeOf _) fun _ _ => .last newNode_clean fun _ _ _ _ _ => by simp [place]

theorem makeFileAt_clean {dir : NodeId} {b : BindingId} {mode : Mode} :
    Clean (makeFileAt dir b mode) w := makeAt_clean

theorem makeDirectoryAt_clean {dir : NodeId} {b : BindingId} {mode : Mode} :
    Clean (makeDirectoryAt dir b mode) w :=
  .last makeAt_clean fun _ _ _ _ _ => modify_eq_error

/-- Bytes that are not stored have cost the host nothing. -/
theorem storeBytes_error {n : NodeId} {offset : Nat} {src : Bytes}
    (h : storeBytes n offset src w = .error e w') :
    ∃ host, w' = { w with host } ∧ w.host.Alike host ∧ ∀ k, host.net k = w.host.net k := by
  rcases bind_eq_error.1 h with h | ⟨node, mid, found, h⟩
  · exact ⟨w.host, (reads_node n).error h, .refl, fun _ => rfl⟩
  obtain ⟨-, rfl⟩ := node_eq_ok.1 found
  rcases bind_eq_error.1 h with h | ⟨outcome, mid, written, h⟩
  · exact absurd h onHost_eq_error
  · obtain ⟨hwrite, rfl⟩ := onHost_eq_ok.1 written
    cases outcome with
    | ok content => exact absurd h modify_eq_error
    | error cause =>
        obtain ⟨-, rfl⟩ := throw_eq_error.1 h
        exact ⟨_, rfl, PageMap.write_error (Prod.ext hwrite rfl)⟩

theorem storeTarget_error {n : NodeId} {closed : Bytes}
    (h : storeTarget n closed w = .error e w') :
    ∃ host, w' = { w with host } ∧ w.host.Alike host ∧ ∀ k, host.net k = w.host.net k := by
  simp only [storeTarget, ite_eq_error, bind_eq_error, throw_eq_error, throw_eq_ok, false_and,
    exists_false, or_false, modify_eq_error, and_false] at h
  rcases h with ⟨-, -, rfl⟩ | ⟨-, failed⟩
  · exact ⟨w.host, rfl, .refl, fun _ => rfl⟩
  · exact storeBytes_error failed

theorem storeBytes_clean {n : NodeId} {offset : Nat} {src : Bytes} :
    Clean (storeBytes n offset src) w := by
  intro e w' h
  obtain ⟨host, rfl, alike, net⟩ := storeBytes_error h
  exact .of_host alike net

theorem storeTarget_clean {n : NodeId} {closed : Bytes} : Clean (storeTarget n closed) w := by
  intro e w' h
  obtain ⟨host, rfl, alike, net⟩ := storeTarget_error h
  exact .of_host alike net

/-- A symlink whose target cannot be stored takes its node with it. -/
theorem makeSymlinkAt_clean (s : Sound w todo) {dir : NodeId} {b : BindingId} {target : String} :
    Clean (makeSymlinkAt dir b target) w := by
  refine .read (reads_homeOf _) fun home _ => ?_
  intro e w' h
  rcases bind_eq_error.1 h with h | ⟨n, mid, made, h⟩
  · exact newNode_clean e w' h
  · obtain ⟨rfl, host, ino, kind, time, -, rfl, alike, net⟩ := newNode_ok made
    rcases bind_eq_error.1 h with h | ⟨_, _, _, h⟩
    · obtain ⟨last, failed, rfl⟩ := onFailure_eq_error.1 h
      have stored := storeTarget_clean e last failed
      exact .letGo_node s.tended alike net rfl (stored.note rfl)
    · exact absurd h (by simp [place])

theorem linkAt_clean {old b : BindingId} {dir : NodeId} : Clean (linkAt old dir b) w :=
  .read (reads_boundNode _) fun _ _ => .of_safe fun _ _ => by simp

theorem create_clean (s : Sound w []) {dir : BindingId} {name : String} {mode : Mode} :
    Clean (create dir name mode) w :=
  .read (.test _) fun _ _ => .read (reads_directoryOf _) fun _ _ =>
    makeName_clean s fun _ _ _ => makeFileAt_clean

theorem mkdir_clean (s : Sound w []) {dir : BindingId} {name : String} {mode : Mode} :
    Clean (mkdir dir name mode) w :=
  .read (.test _) fun _ _ => .read (reads_directoryOf _) fun _ _ =>
    makeName_clean s fun _ _ _ => makeDirectoryAt_clean

theorem mknod_clean (s : Sound w []) {dir : BindingId} {name : String} {mode : Mode}
    {device : DeviceNumber} : Clean (mknod dir name mode device) w := by
  refine .read (.test _) fun _ _ => .read (reads_directoryOf _) fun n _ => ?_
  split
  · exact makeName_clean s fun _ _ _ => makeFileAt_clean
  · split
    · exact makeName_clean s fun _ _ _ => makeAt_clean
    · exact .of_reads (.ite (.throw _) (.throw _))

theorem symlink_clean (s : Sound w []) {dir : BindingId} {name target : String} :
    Clean (symlink dir name target) w := by
  refine .read (.test _) fun _ _ => .guard fun _ => .read (reads_directoryOf _) fun n hn => ?_
  refine makeName_clean s fun b mid made => ?_
  obtain ⟨host, acquired, rfl, rfl⟩ := newBinding_eq_ok.1 made
  obtain ⟨hnode, hdir, -⟩ := directoryOf_eq_ok.1 hn
  refine makeSymlinkAt_clean (s.pushBinding acquired fun p e => ?_)
  cases e
  exact bindsDirectory_iff.2 ⟨n, hnode, hdir⟩

theorem link_clean (s : Sound w []) {old dir : BindingId} {name : String} :
    Clean (link old dir name) w :=
  .read (.test _) fun _ _ => .read (reads_boundNode _) fun _ _ => .read .get fun _ _ =>
    .guard fun _ => .read (reads_directoryOf _) fun _ _ => .read (reads_homeOf _) fun _ _ =>
    .read (reads_homeOf _) fun _ _ => .guard fun _ => .read (reads_node _) fun _ _ =>
    .guard fun _ => makeName_clean s fun _ _ _ => linkAt_clean

/-! ## Removing and moving names -/

theorem unlinkAt_ne_error {dir n : NodeId} {b : BindingId} (h : w.nodeOf b = some n) :
    unlinkAt dir b w ≠ .error e w' := by
  simp [unlinkAt, boundNode, h]

theorem unlinkAt_clean {dir : NodeId} {b : BindingId} : Clean (unlinkAt dir b) w :=
  .read (reads_boundNode _) fun _ _ => .of_safe fun _ _ => by simp

theorem rmdirAt_clean {dir : NodeId} {b : BindingId} : Clean (rmdirAt dir b) w := by
  refine .read .get fun _ _ => .guard fun _ => .read (reads_boundNode _) fun n hn => ?_
  have found : w.nodeOf b = some n := by simpa [boundNode] using hn
  refine .of_safe fun e w' => ?_
  simp [unlinkAt_ne_error (nodeOf_dropLink.trans found)]

theorem unlink_clean {dir : BindingId} {name : String} : Clean (unlink dir name) w :=
  .read (.test _) fun _ _ => .read (reads_directoryOf _) fun _ _ =>
    .read (reads_takenBinding _ _) fun _ _ => .read .get fun _ _ => .guard fun _ =>
    .last unlinkAt_clean fun _ _ _ _ _ => letGo_eq_error

theorem rmdir_clean {dir : BindingId} {name : String} : Clean (rmdir dir name) w := by
  unfold rmdir
  exact .guard fun _ => .guard fun _ => .read (.test _) fun _ _ =>
    .read (reads_directoryOf _) fun _ _ => .read (reads_takenBinding _ _) fun _ _ =>
    .read .get fun _ _ => .demand fun _ => .last rmdirAt_clean fun _ _ _ _ _ => letGo_eq_error

theorem exchangeAt_clean {dirA dirB : NodeId} {a b : BindingId} :
    Clean (exchangeAt dirA a dirB b) w :=
  .read (reads_boundNode _) fun _ _ => .read (reads_boundNode _) fun _ _ => .read .get fun _ _ =>
    .of_safe fun e w' => by simp [stampRename]

theorem replaceAt_clean {dirA dirB : NodeId} {a b : BindingId} :
    Clean (replaceAt dirA a dirB b) w := by
  refine .read (reads_boundNode _) fun source _ => .read .get fun v hv => ?_
  obtain ⟨rfl, -⟩ := get_eq_ok.1 hv
  cases hb : w.nodeOf b with
  | none => exact .of_safe fun e w' => by simp [stampRename]
  | some target =>
      have removed : ((w.dropLink target).dropLink dirA).nodeOf b = some target := by simp [hb]
      refine .guard fun _ => .of_safe fun e w' => ?_
      simp [stampRename, unlinkAt_ne_error hb, unlinkAt_ne_error removed]

theorem renameAt_clean {dirA dirB : NodeId} {a b : BindingId} {flags : RenameFlags} :
    Clean (renameAt dirA a dirB b flags) w := by
  unfold renameAt
  refine .guard fun _ => ?_
  split
  · exact exchangeAt_clean
  · exact replaceAt_clean

theorem exchangeNames_clean {dirA dirB a b : BindingId} {nodeA nodeB : NodeId}
    {flags : RenameFlags} : Clean (exchangeNames dirA nodeA a dirB nodeB b flags) w :=
  .read .get fun _ _ => .guard fun _ => .last renameAt_clean fun _ _ _ _ _ => modify_eq_error

theorem moveName_clean (s : Sound w []) {dirB a : BindingId} {nodeA nodeB source : NodeId}
    {name : String} {target : Option BindingId} {flags : RenameFlags}
    (found : ∀ b, target = some b → w.Owned (.binding b)) :
    Clean (moveName nodeA a source dirB nodeB name target flags) w := by
  refine .read .get fun _ _ => .guard fun _ => ?_
  cases target with
  | none =>
      intro e w' h
      rcases bind_eq_error.1 h with h | ⟨b, mid, made, h⟩
      · exact newBinding_clean e w' h
      · rcases bind_eq_error.1 h with h | ⟨_, _, _, h⟩
        · exact orLetGo_clean s made renameAt_clean h
        · exact absurd h modify_eq_error
  | some b =>
      refine .guard fun _ => .guard fun _ => .guard fun _ => .read (.pure _) fun c hc => ?_
      obtain ⟨rfl, -⟩ := pure_eq_ok.1 hc
      refine .last (fun e w' h => ?_) fun _ _ _ _ _ => modify_eq_error
      obtain ⟨mid, failed, rfl⟩ := orLetGo_eq_error.1 h
      exact (renameAt_clean e mid failed).letGo_owned (found b rfl)

theorem rename_clean (s : Sound w []) {dirA dirB : BindingId} {nameA nameB : String}
    {flags : RenameFlags} : Clean (rename dirA nameA dirB nameB flags) w := by
  refine .read (.test _) fun _ _ => .read (.test _) fun _ _ => .guard fun _ =>
    .read (reads_directoryOf _) fun _ _ => .read (reads_directoryOf _) fun _ _ =>
    .read (reads_homeOf _) fun _ _ => .read (reads_homeOf _) fun _ _ => .guard fun _ =>
    .read (reads_takenBinding _ _) fun a _ => .read .get fun v hv =>
    .read (reads_boundNode _) fun _ _ => .read .get fun _ _ => ?_
  obtain ⟨rfl, -⟩ := get_eq_ok.1 hv
  split
  · exact .of_reads (.pure _)
  · split
    · exact .read (.require _ _) fun _ _ => exchangeNames_clean
    · exact moveName_clean s fun b found => owned_of_child? found

/-! ## Open files -/

theorem resizeContent_clean {n : NodeId} {size : Nat} : Clean (resizeContent n size) w :=
  .read (reads_node n) fun _ _ => .read .get fun _ _ => .guard fun _ =>
    .of_safe fun e w' => by simp

theorem writeContent_clean {n : NodeId} {offset : Nat} {src : Bytes} :
    Clean (writeContent n offset src) w :=
  .read (reads_node n) fun _ _ => .guard fun _ => .read .get fun _ _ => .guard fun _ =>
    .last storeBytes_clean fun _ _ _ _ _ => by simp

theorem readContent_clean {n : NodeId} {offset len : Nat} : Clean (readContent n offset len) w :=
  .read (reads_node n) fun _ _ => .of_safe fun _ _ => by simp

theorem readAt_clean {f : FileId} {offset len : Nat} : Clean (readAt f offset len) w :=
  .read (reads_contentNode f _) fun _ _ => readContent_clean

theorem read_clean {f : FileId} {len : Nat} : Clean (read f len) w :=
  .read (reads_file f) fun _ _ => .last readAt_clean fun _ _ _ _ _ => by simp [seek]

theorem readdir_clean {dir : BindingId} : Clean (readdir dir) w :=
  .read (reads_boundNode dir) fun n _ => .read (reads_node n) fun _ _ => .guard fun _ =>
    .read .get fun _ _ => .of_safe fun _ _ => by simp

theorem openFile_clean {b : BindingId} {flags : OpenFlags} : Clean (openFile b flags) w := by
  refine .read (reads_boundNode _) fun n _ => .read (reads_node n) fun node _ => ?_
  have entered : ∀ v, Clean (enterFile { binding := b, node := some n, flags }) v :=
    fun v => .of_safe fun _ _ => total_eq_error
  split
  · exact .guard fun _ => entered w
  · simp only
    split
    · exact .demand fun _ => .last resizeContent_clean fun _ _ _ _ _ => total_eq_error
    · exact entered w
  · exact entered w

theorem writeAt_clean {f : FileId} {offset : Nat} {src : Bytes} : Clean (writeAt f offset src) w :=
  .read (reads_contentNode f _) fun _ _ => writeContent_clean

theorem write_clean {f : FileId} {src : Bytes} : Clean (write f src) w := by
  refine .read (reads_file f) fun opened _ => ?_
  have written : ∀ offset, Clean (do
      let written ← writeAt f offset src
      seek f (offset + written)
      return written : Action Nat) w := fun offset =>
    .last writeAt_clean fun _ _ _ _ _ => by simp [seek]
  simp only
  split
  · exact .read (reads_fileNode f) fun n _ => .read (reads_node n) fun node _ =>
      .read (.pure _) fun _ _ => written _
  · exact .read (.pure _) fun _ _ => written _

theorem setLength_clean {f : FileId} {size : Nat} : Clean (setLength f size) w :=
  .read (reads_contentNode f _) fun _ _ => resizeContent_clean

theorem makeUnnamedAt_clean {dir : NodeId} {f : FileId} {mode : Mode} {opened : OpenFile}
    (hf : w.files.get? f = some opened) : Clean (makeUnnamedAt dir f mode) w := by
  refine .read (reads_homeOf _) fun home _ => .last newNode_clean fun n v made e w' => ?_
  obtain ⟨rfl, host, ino, kind, time, -, rfl, -⟩ := newNode_ok made
  simp [node, get?_dropLink, Table.get?_push_self, hf]

/-- A file entered for an operation is taken out again when it fails. -/
theorem eraseFile_unchanged {file : OpenFile}
    (u : Unchanged { w with files := w.files.push file } w') :
    Unchanged w { w' with files := w'.files.erase w.files.nextId } where
  nodes := u.nodes
  bindings := u.bindings
  files := fun f => by
    rw [Table.get?_erase, u.files]
    split
    · next e => rw [e, Table.get?_nextId]
    · next hne => exact Table.get?_push_of_ne hne
  instances := u.instances
  contexts := u.contexts
  held := u.held
  types := u.types
  puts := u.puts
  alike := u.alike
  net := u.net
  next := u.next

theorem openUnnamed_clean (s : Sound w []) {dir : BindingId} {mode : Mode} {flags : OpenFlags} :
    Clean (openUnnamed dir mode flags) w := by
  refine .read (reads_directoryOf _) fun n _ => .demand fun _ => ?_
  intro e w' h
  rcases bind_eq_error.1 h with h | ⟨b, mid, made, h⟩
  · exact newBinding_clean e w' h
  obtain ⟨host, acquired, rfl, rfl⟩ := newBinding_eq_ok.1 made
  rcases bind_eq_error.1 h with h | ⟨f, mid, entered, h⟩
  · exact absurd h total_eq_error
  obtain ⟨rfl, rfl⟩ := total_eq_ok.1 entered
  rcases bind_eq_error.1 h with h | ⟨_, mid, opened, h⟩
  · obtain ⟨last, failed, rfl⟩ := onFailure_eq_error.1 h
    have kept := makeUnnamedAt_clean Table.get?_push_self e last failed
    exact .letGo_binding s.tended acquired (eraseFile_unchanged kept)
  · obtain ⟨_, _, _, _, _, _, bound, -⟩ := makeUnnamedAt_ok (f := w.files.nextId)
      Table.get?_push_self rfl Table.get?_push_self rfl (onFailure_eq_ok.1 opened)
    simp [boundNode, bound] at h

end Memfs.Action
