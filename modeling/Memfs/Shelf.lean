import Memfs.ByteString
import Memfs.World

/-!
# Files as plain strings

What a caller may take open files for: a string of bytes for each regular file, and for
each handle the file it stands for, the flags it was opened with and a position. There
are no names here, no instances and no pages. What they decide is told with each event:
which file a name leads to, how long its content may grow, and whether the host has the
pages for a write.

A shelf replies to an event on one of its handles with all that a caller can see of it,
the position and the length of the content behind it included.
-/

namespace Memfs

/-- A handle on a file. -/
structure FileHandle where
  node : NodeId
  flags : OpenFlags
  position : Nat := 0
  deriving DecidableEq, Repr

/-- The greatest position that a word of 64 bits can tell. -/
def lastOffset : Nat := 0xFFFFFFFFFFFFFFFF

/-- What is decided elsewhere about a change of a content. -/
structure Terms where
  /-- The greatest length that the content may have. -/
  limit : Nat
  /-- Has the host the pages for so many bytes at an offset? -/
  grants : (offset len : Nat) → Bool

/-- What happens to files. -/
inductive Event where
  /-- A regular file is opened by one of its names. -/
  | opened (f : FileId) (n : NodeId) (flags : OpenFlags)
  /-- A new regular file is opened that has no name. -/
  | unnamed (f : FileId) (n : NodeId) (flags : OpenFlags)
  | closed (f : FileId)
  | read (f : FileId) (len : Nat)
  | readAt (f : FileId) (offset len : Nat)
  | write (f : FileId) (src : ByteString) (terms : Terms)
  | writeAt (f : FileId) (offset : Nat) (src : ByteString) (terms : Terms)
  | seek (f : FileId) (position : Nat)
  | setLength (f : FileId) (size : Nat) (terms : Terms)
  /-- Anything that is no business of handles. -/
  | other

/-- What is seen of an event: a count or a failure, the bytes that were read, and the
position and the length of the content behind it. -/
structure Reply where
  result : Except Error Nat
  bytes : ByteString := []
  position : Nat
  size : Nat

/-- Strings of bytes, and handles on them. -/
structure Shelf where
  strings : NodeId → ByteString := fun _ => []
  handles : FileId → Option FileHandle := fun _ => none

namespace Shelf

def setString (s : Shelf) (n : NodeId) (string : ByteString) : Shelf :=
  { s with strings := fun m => if m = n then string else s.strings m }

def setHandle (s : Shelf) (f : FileId) (handle : Option FileHandle) : Shelf :=
  { s with handles := fun g => if g = f then handle else s.handles g }

def moveTo (s : Shelf) (f : FileId) (position : Nat) : Shelf :=
  s.setHandle f ((s.handles f).map ({ · with position }))

section

variable {s : Shelf} {n m : NodeId} {f g : FileId}

@[simp]
theorem strings_setString {string : ByteString} :
    (s.setString n string).strings m = if m = n then string else s.strings m := rfl

@[simp]
theorem handles_setString {string : ByteString} :
    (s.setString n string).handles = s.handles := rfl

@[simp]
theorem strings_setHandle {handle : Option FileHandle} :
    (s.setHandle f handle).strings = s.strings := rfl

@[simp]
theorem handles_setHandle {handle : Option FileHandle} :
    (s.setHandle f handle).handles g = if g = f then handle else s.handles g := rfl

@[simp]
theorem strings_moveTo {position : Nat} : (s.moveTo f position).strings = s.strings := rfl

@[simp]
theorem handles_moveTo {position : Nat} : (s.moveTo f position).handles g
    = if g = f then (s.handles f).map ({ · with position }) else s.handles g := rfl

theorem setString_of_eq {string : ByteString} (h : s.strings n = string) :
    s.setString n string = s := by
  have same : (s.setString n string).strings = s.strings := by
    funext m
    rw [strings_setString]
    split
    · next e => rw [e, h]
    · rfl
  exact congrArg (Shelf.mk · s.handles) same

theorem setHandle_of_eq {handle : Option FileHandle} (h : s.handles f = handle) :
    s.setHandle f handle = s := by
  have same : (s.setHandle f handle).handles = s.handles := by
    funext g
    rw [handles_setHandle]
    split
    · next e => rw [e, h]
    · rfl
  exact congrArg (Shelf.mk s.strings) same

end

def see (s : Shelf) (f : FileId) (n : NodeId) (result : Except Error Nat)
    (bytes : ByteString := []) : Reply where
  result := result
  bytes := bytes
  position := ((s.handles f).map (·.position)).getD 0
  size := (s.strings n).length

/-- The bytes at an offset, as far as the content goes. -/
def bytesAt (s : Shelf) (h : FileHandle) (offset len : Nat) : Except Error ByteString :=
  if h.flags.has .reading then .ok ((s.strings h.node).slice offset len)
  else .error .notPermitted

/-- The content with `src` at an offset. Zeroes fill the gap to it, if there is one. -/
def overwritten (s : Shelf) (h : FileHandle) (offset : Nat) (src : ByteString) (terms : Terms) :
    Except Error ByteString :=
  if !h.flags.has .writing then .error .notPermitted
  else if lastOffset < offset + src.length ∨ terms.limit < offset + src.length then
    .error .fileTooLarge
  else if !terms.grants offset src.length then .error .backingStore
  else .ok ((s.strings h.node).overwrite offset src)

/-- The content cut or extended with zeroes. -/
def resized (s : Shelf) (h : FileHandle) (size : Nat) (terms : Terms) : Except Error ByteString :=
  if !h.flags.has .writing then .error .notPermitted
  else if terms.limit < size then .error .fileTooLarge
  else .ok ((s.strings h.node).resize size)

/-- Where a handle writes: at its position, or at the end where it appends. -/
def offsetOf (s : Shelf) (h : FileHandle) : Nat :=
  if h.flags.has .appending then (s.strings h.node).length else h.position

/-- Reads through a handle and then does what `moves` says of the bytes. -/
def readBy (s : Shelf) (f : FileId) (h : FileHandle) (offset len : Nat)
    (moves : Shelf → ByteString → Shelf) : Reply × Shelf :=
  match s.bytesAt h offset len with
  | .error e => (s.see f h.node (.error e), s)
  | .ok bytes =>
    let s := moves s bytes
    (s.see f h.node (.ok bytes.length) bytes, s)

/-- Puts a content in place, if there is one, and then does what `moves` says. -/
def putBy (s : Shelf) (f : FileId) (h : FileHandle) (string : Except Error ByteString) (count : Nat)
    (moves : Shelf → Shelf) : Reply × Shelf :=
  match string with
  | .error e => (s.see f h.node (.error e), s)
  | .ok string =>
    let s := moves (s.setString h.node string)
    (s.see f h.node (.ok count), s)

/-- A new handle, which begins at the first byte. -/
def enter (s : Shelf) (f : FileId) (n : NodeId) (flags : OpenFlags) : Reply × Shelf :=
  let s := s.setHandle f (some { node := n, flags })
  (s.see f n (.ok 0), s)

/-- Opens a file. Cutting its content needs the right to write to it. -/
def openBy (s : Shelf) (f : FileId) (n : NodeId) (flags : OpenFlags) : Reply × Shelf :=
  if !flags.has .truncating then s.enter f n flags
  else if flags.has .writing then (s.setString n []).enter f n flags
  else (s.see f n (.error .notPermitted), s)

/-- What is done through a handle, if there is one. -/
def through (s : Shelf) (f : FileId) (done : FileHandle → Reply × Shelf) : Option Reply × Shelf :=
  match s.handles f with
  | none => (none, s)
  | some h => (done h).map some id

/-- The reply to an event, and the shelf behind it. -/
def answer (s : Shelf) : Event → Option Reply × Shelf
  | .opened f n flags => (s.openBy f n flags).map some id
  | .unnamed f n flags => ((s.setString n []).enter f n (flags.union .temporary)).map some id
  | .closed f => (none, s.setHandle f none)
  | .read f len => s.through f fun h =>
    s.readBy f h h.position len fun s bytes => s.moveTo f (h.position + bytes.length)
  | .readAt f offset len => s.through f fun h => s.readBy f h offset len fun s _ => s
  | .write f src terms => s.through f fun h =>
    let offset := s.offsetOf h
    s.putBy f h (s.overwritten h offset src terms) src.length (·.moveTo f (offset + src.length))
  | .writeAt f offset src terms => s.through f fun h =>
    s.putBy f h (s.overwritten h offset src terms) src.length id
  | .seek f position => s.through f fun h =>
    let s := s.moveTo f position
    (s.see f h.node (.ok 0), s)
  | .setLength f size terms => s.through f fun h => s.putBy f h (s.resized h size terms) 0 id
  | .other => (none, s)

/-- The replies to a list of events. -/
def replies (s : Shelf) : List Event → List (Option Reply)
  | [] => []
  | event :: rest => (s.answer event).1 :: (s.answer event).2.replies rest

end Shelf

end Memfs
