import BootSigning.FileSystem.Edit
import BootSigning.Host.Program

/-!
# Files of the host

* `Host.files`: what is there before anything else is set up
-/

namespace BootSigning.Host

def directory (p : String) : Entry := ⟨p, .directory, none⟩

def programFile (p : HostProgram) : Entry :=
  ⟨("/usr/bin" : Path) / (p.name : Path), .file p.image, some 0o755⟩

def entries : List Entry :=
  ["/dev", "/etc", "/root", "/tmp", "/usr/bin"].map directory ++
    ⟨"/bin", .symlink "usr/bin", none⟩ :: HostProgram.all.map programFile

/-- What is there before anything else is set up. -/
def files : FileSystem :=
  (Entry.applyAll FileSystem.empty entries).insert [Utf8.encode "null", Utf8.encode "dev"] .sink

def home : Path := "/root"

end BootSigning.Host
