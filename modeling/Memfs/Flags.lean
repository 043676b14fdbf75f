import Memfs.Text.Numeral

/-!
# Sets of flags

Flags are given as the bits of a machine word. Bits that name no flag are kept
as they are, since some operations refuse them and diagnostic text shows them.
-/

namespace Memfs

/-- How a file is opened. -/
structure OpenFlags where
  bits : UInt32
  deriving DecidableEq, Repr

/-- How a name is moved. -/
structure RenameFlags where
  bits : UInt32
  deriving DecidableEq, Repr

/-- How the pages of a node are kept. -/
structure MappingFlags where
  bits : UInt32
  deriving DecidableEq, Repr

/-- How an instance is mounted. -/
structure MountFlags where
  bits : UInt64
  deriving DecidableEq, Repr

/-- A word of flags in diagnostic text: the names of the flags that it holds,
then the bits that have no name, in hexadecimal. -/
def describeFlags (names : List (Nat × String)) (bits : Nat) : String :=
  let named := names.filter fun (bit, _) => bits &&& bit == bit
  let unnamed := named.foldl (fun left (bit, _) => left - bit) bits
  let shown := named.map (·.2) ++ (if unnamed = 0 then [] else ["0x" ++ Text.hex unnamed])
  if shown.isEmpty then "0x0" else " | ".intercalate shown

namespace OpenFlags

def reading : OpenFlags := ⟨1⟩
def writing : OpenFlags := ⟨2⟩
/-- Every write goes to the end of the content. -/
def appending : OpenFlags := ⟨4⟩
/-- Opening cuts the content to nothing. -/
def truncating : OpenFlags := ⟨8⟩
/-- An unnamed file that may never be given a name. -/
def exclusive : OpenFlags := ⟨16⟩
/-- The file was opened without a name. -/
def temporary : OpenFlags := ⟨32⟩

/-- Both sets together. -/
def union (a b : OpenFlags) : OpenFlags := ⟨a.bits ||| b.bits⟩

/-- Does the set hold all of `wanted`? -/
def has (flags wanted : OpenFlags) : Bool := flags.bits &&& wanted.bits == wanted.bits

/-- Does the set hold one of `wanted`? -/
def meets (flags wanted : OpenFlags) : Bool := flags.bits &&& wanted.bits != 0

/-- The flags that ask for a change of the content. -/
def changing : OpenFlags := (writing.union appending).union truncating

def describe (flags : OpenFlags) : String :=
  "OpenFlags(" ++ describeFlags
    [(1, "READ"), (2, "WRITE"), (4, "APPEND"), (8, "TRUNC"), (16, "EXCL"), (32, "TMPFILE")]
    flags.bits.toNat ++ ")"

end OpenFlags

namespace RenameFlags

/-- The target must not exist. -/
def keepTarget : RenameFlags := ⟨1⟩
/-- Source and target change places. -/
def exchange : RenameFlags := ⟨2⟩

/-- Does the set hold all of `wanted`? -/
def has (flags wanted : RenameFlags) : Bool := flags.bits &&& wanted.bits == wanted.bits

/-- Bits that name no way of renaming. -/
def hasUnknown (flags : RenameFlags) : Bool := flags.bits &&& ~~~3 != 0

end RenameFlags

namespace MappingFlags

/-- The pages are never given up under memory pressure. -/
def unevictable : MappingFlags := ⟨1⟩
/-- The pages may come from high memory. -/
def highMemory : MappingFlags := ⟨2⟩

def union (a b : MappingFlags) : MappingFlags := ⟨a.bits ||| b.bits⟩

def without (a b : MappingFlags) : MappingFlags := ⟨a.bits &&& ~~~b.bits⟩

/-- Does the set hold all of `wanted`? -/
def has (flags wanted : MappingFlags) : Bool := flags.bits &&& wanted.bits == wanted.bits

end MappingFlags

namespace MountFlags

def union (a b : MountFlags) : MountFlags := ⟨a.bits ||| b.bits⟩

def describe (flags : MountFlags) : String :=
  "MountFlags(" ++ describeFlags
    [(1, "MS_RDONLY"), (2, "MS_NOSUID"), (4, "MS_NODEV"), (8, "MS_NOEXEC"),
      (16, "MS_SYNCHRONOUS"), (32768, "MS_SILENT")]
    flags.bits.toNat ++ ")"

example : (⟨1 ||| 65536⟩ : MountFlags).describe = "MountFlags(MS_RDONLY | 0x10000)" := by
  decide +kernel

end MountFlags

end Memfs
