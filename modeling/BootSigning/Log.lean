/-!
# Log records

What a run reports while it works.

* `Level`: how much a record matters
* `Component`: the part of the program that speaks, with the name that log directives use
* `LogRecord`: a level, a component and a message
-/

namespace BootSigning

inductive Level where
  | error
  | warn
  | info
  | debug
  | trace
  deriving DecidableEq, Repr

namespace Level

def name : Level → String
  | .error => "ERROR"
  | .warn => "WARN"
  | .info => "INFO"
  | .debug => "DEBUG"
  | .trace => "TRACE"

/-- The place of a level, from the gravest to the least. -/
def rank : Level → Nat
  | .error => 1
  | .warn => 2
  | .info => 3
  | .debug => 4
  | .trace => 5

def all : List Level := [.error, .warn, .info, .debug, .trace]

end Level

/-- The part of the program that speaks. -/
inductive Component where
  | workspace
  | locator
  | tools
  | exec
  | sbat
  | inject
  | signer
  | pipeline
  deriving DecidableEq, Repr

/-- The name that log directives use for a component. -/
def Component.target : Component → String
  | .workspace => "uefi_signer::workspace"
  | .locator => "uefi_signer::locator"
  | .tools => "uefi_signer::tools"
  | .exec => "uefi_signer::exec"
  | .sbat => "uefi_signer::sbat"
  | .inject => "uefi_signer::inject"
  | .signer => "uefi_signer::signer"
  | .pipeline => "uefi_signer::pipeline"

structure LogRecord where
  level : Level
  component : Component
  message : String
  deriving DecidableEq, Repr

end BootSigning
