/-!
# Host errors

Why a host refuses to read, to write or to start something.
-/

namespace Xdr

/-- Why a host refuses something. -/
inductive HostError where
  | notFound
  | noDevice
  | tooManyWords
  | denied
  | notDirectory
  | isDirectory
  | noSpace
  | brokenPipe
  | nameTooLong
  /-- The content is no text. -/
  | notText
  /-- A word holds the character that ends words. -/
  | nullInWord
  /-- Any other cause, in the words of the host. -/
  | other (text : String)
  deriving DecidableEq, Repr

namespace HostError

/-- A host error in words. -/
def reason : HostError → String
  | .notFound => "No such file or directory"
  | .noDevice => "No such device or address"
  | .tooManyWords => "Argument list too long"
  | .denied => "Permission denied"
  | .notDirectory => "Not a directory"
  | .isDirectory => "Is a directory"
  | .noSpace => "No space left on device"
  | .brokenPipe => "Broken pipe"
  | .nameTooLong => "File name too long"
  | .notText => "stream did not contain valid UTF-8"
  | .nullInWord => "nul byte found in provided data"
  | .other text => text

/-- The number of a host error, if the host itself gave it. -/
def code? : HostError → Option Nat
  | .notFound => some 2
  | .noDevice => some 6
  | .tooManyWords => some 7
  | .denied => some 13
  | .notDirectory => some 20
  | .isDirectory => some 21
  | .noSpace => some 28
  | .brokenPipe => some 32
  | .nameTooLong => some 36
  | .notText => none
  | .nullInWord => none
  | .other _ => none

/-- The message of a host error. -/
def message (error : HostError) : String :=
  match error.code? with
  | some code => s!"{error.reason} (os error {code})"
  | none => error.reason

end HostError
end Xdr
