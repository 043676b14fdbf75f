import Memfs.Proofs.Charges
import Memfs.Proofs.Runs
import Memfs.Shelf

/-!
# The events of a run

What a run looks like to somebody who only knows handles on regular files. Each call is
an event for the files, and some of the calls have a reply. A file that was opened on a
directory or on a special node is in the same table as the others, but it is no handle,
and what is done through it is not replied to here.
-/

namespace Memfs

/-- The pages of 4096 bytes in which some of the `len` bytes from an offset on lie and which
are not held. -/
def PageMap.lacking (map : PageMap) (offset len : Nat) : Finset Nat :=
  ((Finset.range len).image fun k => (offset + k) / 4096).filter (· ∉ map.pages)

namespace World

/-- The handle that an open file is, if it was opened on a regular file. -/
def handleOf (w : World) (f : FileId) : Option FileHandle := do
  let file ← w.files.get? f
  let n ← file.node
  let node ← w.nodes.get? n
  if node.kind = .regular then some { node := n, flags := file.flags, position := file.position }
  else none

/-- The regular file that a binding leads to. -/
def regularOf (w : World) (b : BindingId) : Option NodeId := do
  let n ← w.nodeOf b
  let node ← w.nodes.get? n
  if node.kind = .regular then some n else none

/-- What the instance and the host say to a change of a content. The geometry of the
instance limits its length, and positions alone do once the instance is gone. The host has
to have a page for each one that is touched and not yet held. -/
def terms (w : World) (node : Node) : Terms where
  limit := match w.instances.get? node.home with
    | some home => home.geometry.maxBytes
    | none => lastOffset
  grants offset len := (w.host.room .page).all ((node.content.lacking offset len).card ≤ ·)

/-- The same for what a file was opened on. -/
def termsOf (w : World) (f : FileId) : Terms :=
  ((((w.files.get? f).bind (·.node)).bind w.nodes.get?).map w.terms).getD ⟨0, fun _ _ => false⟩

/-- What a call is to the files. -/
def event (w : World) : Call → Event
  | .operate (.openFile b flags) =>
    match w.regularOf b with
    | some n => .opened w.files.nextId n flags
    | none => .other
  | .operate (.openUnnamed dir mode flags) =>
    match Action.openUnnamed dir mode flags w with
    | .ok f _ => .unnamed f w.nodes.nextId flags
    | .error _ _ => .other
  | .closeFile f => .closed f
  | .operate (.read f len) => .read f len
  | .operate (.readAt f offset len) => .readAt f offset len
  | .operate (.write f src) => .write f src.toList (w.termsOf f)
  | .operate (.writeAt f offset src) => .writeAt f offset src.toList (w.termsOf f)
  | .operate (.seek f position) => .seek f position
  | .operate (.setLength f size) => .setLength f size (w.termsOf f)
  | _ => .other

/-- What is seen of a file and of the content behind it. -/
def see (w : World) (f : FileId) (n : NodeId) (result : Except Error Nat)
    (bytes : ByteString := []) : Reply where
  result := result
  bytes := bytes
  position := ((w.files.get? f).map (·.position)).getD 0
  size := ((w.nodes.get? n).map (·.size)).getD 0

/-- What is seen of an operation, of which `shown` says what it hands out. -/
def observe {α : Type} (w : World) (x : Action α) (f : FileId) (n : NodeId)
    (shown : α → Nat × ByteString) : Reply :=
  match x w with
  | .ok a v => v.see f n (.ok (shown a).1) (shown a).2
  | .error e v => v.see f n (.error e)

/-- The same for an operation on a handle. -/
def observeBy {α : Type} (w : World) (f : FileId) (x : Action α) (shown : α → Nat × ByteString) :
    Option Reply :=
  (w.handleOf f).map fun h => w.observe x f h.node shown

/-- The reply to a call. -/
def reply (w : World) : Call → Option Reply
  | .operate (.openFile b flags) =>
    (w.regularOf b).map fun n =>
      w.observe (Action.openFile b flags) w.files.nextId n fun _ => (0, [])
  | .operate (.openUnnamed dir mode flags) =>
    match Action.openUnnamed dir mode flags w with
    | .ok f v => some (v.see f w.nodes.nextId (.ok 0))
    | .error _ _ => none
  | .operate (.read f len) =>
    w.observeBy f (Action.read f len) fun bytes => (bytes.size, bytes.toList)
  | .operate (.readAt f offset len) =>
    w.observeBy f (Action.readAt f offset len) fun bytes => (bytes.size, bytes.toList)
  | .operate (.write f src) => w.observeBy f (Action.write f src) fun count => (count, [])
  | .operate (.writeAt f offset src) =>
    w.observeBy f (Action.writeAt f offset src) fun count => (count, [])
  | .operate (.seek f position) => w.observeBy f (Action.seek f position) fun _ => (0, [])
  | .operate (.setLength f size) => w.observeBy f (Action.setLength f size) fun _ => (0, [])
  | _ => none

/-- The events of a list of calls. -/
def events (w : World) : List Call → List Event
  | [] => []
  | call :: rest => w.event call :: (w.after call).events rest

/-- The replies to a list of calls. -/
def replies (w : World) : List Call → List (Option Reply)
  | [] => []
  | call :: rest => w.reply call :: (w.after call).replies rest

end World

end Memfs
