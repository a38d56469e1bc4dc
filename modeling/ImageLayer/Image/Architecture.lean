import ImageLayer.Text.Case
import ImageLayer.Text.Blank
import ImageLayer.Failure
/-!
Processor architectures and their names.

Two vocabularies name the same machines: package repositories write `x86_64` and `aarch64`, image
indexes write `amd64` and `arm64`, the latter with a variant for the older ARM machines. Reading
accepts both, whatever the case and the blanks around them.
-/

namespace ImageLayer

/-- A processor architecture that layers are built for. -/
inductive Architecture where
  /-- The 64-bit x86 machines. -/
  | amd64
  /-- The 64-bit ARM machines. -/
  | arm64
  /-- The 32-bit ARM machines of version seven. -/
  | armV7
  /-- The 32-bit ARM machines of version six. -/
  | armV6
  /-- The 32-bit x86 machines. -/
  | i386
  /-- The little-endian 64-bit POWER machines. -/
  | ppc64le
  /-- The 64-bit mainframes. -/
  | s390x
  /-- The 64-bit RISC-V machines. -/
  | riscv64
  deriving DecidableEq, Repr

namespace Architecture

/-- All architectures. -/
def all : List Architecture := [.amd64, .arm64, .armV7, .armV6, .i386, .ppc64le, .s390x, .riscv64]

/-- The name in package repositories, which is also the one shown to people. -/
def packageName : Architecture → String
  | .amd64 => "x86_64"
  | .arm64 => "aarch64"
  | .armV7 => "armv7"
  | .armV6 => "armhf"
  | .i386 => "x86"
  | .ppc64le => "ppc64le"
  | .s390x => "s390x"
  | .riscv64 => "riscv64"

/-- The name in image indexes. -/
def imageName : Architecture → String
  | .amd64 => "amd64"
  | .arm64 => "arm64"
  | .armV7 | .armV6 => "arm"
  | .i386 => "386"
  | .ppc64le => "ppc64le"
  | .s390x => "s390x"
  | .riscv64 => "riscv64"

/-- What image indexes add to the name. -/
def variant? : Architecture → Option String
  | .armV7 => some "v7"
  | .armV6 => some "v6"
  | _ => none

/-- Every spelling that is understood, in lower case. -/
def spellings : Architecture → List String
  | .amd64 => ["amd64", "x86_64"]
  | .arm64 => ["arm64", "aarch64", "arm64/v8"]
  | .armV7 => ["armv7", "arm/v7"]
  | .armV6 => ["armhf", "arm/v6", "arm"]
  | .i386 => ["386", "x86", "i386"]
  | .ppc64le => ["ppc64le"]
  | .s390x => ["s390x"]
  | .riscv64 => ["riscv64"]

/-- The architecture with a spelling. -/
def ofSpelling? (name : String) : Option Architecture := all.find? (·.spellings.contains name)

/-- Reads a name, whatever its case and the blanks around it. -/
def parse (text : String) : Except Failure Architecture :=
  let name := Text.lower (String.ofList (Text.trim text.toList))
  match ofSpelling? name with
  | some a => .ok a
  | none => .error (.architecture name)

end Architecture

end ImageLayer
