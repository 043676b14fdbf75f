/-!
# Failures

Every operation of the filesystem fails for one of sixteen causes. The causes
are shared by all layers: the allocator, the naming operations, the files and
the mounts. What a caller sees of a cause is its message.
-/

namespace Memfs

/-- The cause of a failed operation. -/
inductive Error where
  /-- No node could be allocated. -/
  | noSpace
  /-- A binding or a mount configuration could not be allocated. -/
  | outOfMemory
  /-- A known mount option carried a bad value. -/
  | invalidOption
  /-- A page for the content could not be allocated. -/
  | backingStore
  | invalidArgument
  | notFound
  | alreadyExists
  | notADirectory
  | isADirectory
  | notEmpty
  | nameTooLong
  | notPermitted
  | fileTooLarge
  | busy
  | noDevice
  | notSupported
  deriving DecidableEq, Repr

namespace Error

/-- The text that a failure is reported with. -/
def message : Error → String
  | noSpace => "No space left on device"
  | outOfMemory => "Out of memory"
  | invalidOption => "Invalid mount option"
  | backingStore => "Backing store failure"
  | invalidArgument => "Invalid argument"
  | notFound => "No such file or directory"
  | alreadyExists => "File exists"
  | notADirectory => "Not a directory"
  | isADirectory => "Is a directory"
  | notEmpty => "Directory not empty"
  | nameTooLong => "Name too long"
  | notPermitted => "Operation not permitted"
  | fileTooLarge => "File too large"
  | busy => "Device or resource busy"
  | noDevice => "No such device"
  | notSupported => "Operation not supported"

/-- The failures of the allocator itself; a refused page is not one of them,
because the content layer reports it as its own failure. -/
def isExhaustion : Error → Bool
  | noSpace | outOfMemory => true
  | _ => false

end Error

end Memfs
