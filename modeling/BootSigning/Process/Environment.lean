import BootSigning.Path

/-!
# Environments

What a process is told by its environment.

* `Environment`: the directories of programs, the home directory, log directives
* `Environment.splitSearchPath`: a search path, directory by directory
-/

namespace BootSigning

/-- What a process is told by its environment. -/
structure Environment where
  /-- The directories in which programs are looked for, with colons between. -/
  searchPath : List UInt8
  /-- The home directory. -/
  home : Path
  /-- Log directives, if there are any. -/
  logDirectives : Option String
  deriving DecidableEq, Repr

namespace Environment

def colon : UInt8 := 0x3A

/-- The directories of a search path; an empty one is the current directory. -/
def splitSearchPath (bytes : List UInt8) : List Path := (bytes.splitOn colon).map Path.mk

end Environment

end BootSigning
