import BootSigning.FileSystem.Fault

/-!
# Errors of a signing run

* `CredentialKind`, `InjectionStep`: what an error may name
* `SignError`: the causes for which an operation ends
* `SignError.message`: the text shown for each
-/

namespace BootSigning

inductive CredentialKind where
  | verificationCert
  | signingCert
  | signingKey
  deriving DecidableEq, Repr

def CredentialKind.text : CredentialKind → String
  | .verificationCert => "verification cert"
  | .signingCert => "signing cert"
  | .signingKey => "signing key"

/-- A step of replacing the key section of a bootloader. -/
inductive InjectionStep where
  /-- Writing a copy with the new section. -/
  | updateSection
  /-- Putting that copy in place. -/
  | copy
  deriving DecidableEq, Repr

def InjectionStep.text : InjectionStep → String
  | .updateSection => "update-section"
  | .copy => "copy"

/-- Why an operation ended. -/
inductive SignError where
  | missingCredential (kind : CredentialKind) (path : Path)
  | toolNotFound (tool : String)
  | verificationFailed (artifact : Path) (message : String)
  | installFailed (artifact : Path) (message : String)
  | injectionFailed (artifact : Path) (step : InjectionStep) (message : String)
  | invalidGlob (pattern reason : String)
  /-- An artifact's path has no file name. -/
  | invalidArtifactPath (path : Path)
  /-- A path that has to be text is not UTF-8. -/
  | pathNotText (path : Path)
  | io (fault : Fault)
  /-- A call did not fit the calls that were expected. -/
  | stubMismatch (message : String)
  deriving DecidableEq, Repr

def SignError.message : SignError → String
  | .missingCredential kind path => s!"No {kind.text}: {path}"
  | .toolNotFound tool => s!"Cannot sign UEFI binaries ({tool} not found)"
  | .verificationFailed artifact message => s!"Verification failed for {artifact}: {message}"
  | .installFailed artifact message =>
    s!"failed to install signed copy of {artifact}: {message}"
  | .injectionFailed artifact step message =>
    s!"vbpubk injection into {artifact} failed during {step.text}: {message}"
  | .invalidGlob pattern reason =>
    s!"invalid glob pattern {Text.quoted pattern}: {reason}"
  | .invalidArtifactPath path => s!"artefact path {path} has no file name"
  | .pathNotText path => s!"path is not valid UTF-8: {path}"
  | .io fault => s!"I/O error: {fault.message}"
  | .stubMismatch message => s!"stub mismatch: {message}"

/-- The text of the fault behind an error. -/
def SignError.cause? : SignError → Option String
  | .io fault => some fault.message
  | _ => none

end BootSigning
