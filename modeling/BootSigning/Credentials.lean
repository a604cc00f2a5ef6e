import BootSigning.Artifact
import BootSigning.FileSystem.Lookup

/-!
# Credentials

The certificates and the key that a run signs with, at fixed places below the key directory.

* `CredentialKind.place`: where each is
* `Credentials`, `Credentials.below`: the paths of all three
* `Credentials.resolve`: the same, once each is known to be a file
-/

namespace BootSigning

/-- The place of a credential below the key directory. -/
def CredentialKind.place : CredentialKind → String
  | .verificationCert => "db/db.pem"
  | .signingCert => "db/db.children/db_child.pem"
  | .signingKey => "db/db.children/db_child.rsa"

/-- Every role, in the order in which the credentials are looked for. -/
def CredentialKind.all : List CredentialKind := [.verificationCert, .signingCert, .signingKey]

def CredentialKind.path (keyDir : Path) (kind : CredentialKind) : Path :=
  keyDir / (kind.place : Path)

structure Credentials where
  verificationCert : Path
  signingCert : Path
  signingKey : Path
  deriving DecidableEq, Repr

namespace Credentials

/-- The credentials of a key directory, there or not. -/
def below (keyDir : Path) : Credentials where
  verificationCert := CredentialKind.verificationCert.path keyDir
  signingCert := CredentialKind.signingCert.path keyDir
  signingKey := CredentialKind.signingKey.path keyDir

def get (c : Credentials) : CredentialKind → Path
  | .verificationCert => c.verificationCert
  | .signingCert => c.signingCert
  | .signingKey => c.signingKey

@[simp] theorem get_below (keyDir : Path) (kind : CredentialKind) :
    (below keyDir).get kind = kind.path keyDir := by
  cases kind <;> rfl

/-- The credentials of a key directory, or the error for the first that is not a file. -/
def resolve (fs : FileSystem) (keyDir : Path) : Except SignError Credentials :=
  let credentials := below keyDir
  match CredentialKind.all.find? fun kind => !fs.isFile (credentials.get kind) with
  | some kind => .error (.missingCredential kind (credentials.get kind))
  | none => .ok credentials

end Credentials

end BootSigning
