import Xdr.CommandLine.Run
import Xdr.Shell.Commands

/-!
# The command

Runs the command line on the host it is started on.
-/

namespace Xdr.CommandLine

/-- The bytes of a stream, up to its end, after those already read. -/
partial def readAll (stream : IO.FS.Stream) (bytes : ByteArray) : IO ByteArray := do
  let more ← stream.read 65536
  if more.isEmpty then return bytes else readAll stream (bytes ++ more)

/-- A fault of the system as a host error. -/
def hostError : IO.Error → HostError
  | .noFileOrDirectory .. => .notFound
  | .permissionDenied .. => .denied
  | error => .other (toString error)

/-- The host that the command is started on. -/
def systemHost : Host IO where
  input := do return (← readAll (← IO.getStdin) .empty).toList
  read := fun path =>
    try return .ok (← IO.FS.readBinFile path).toList
    catch error => return .error (hostError error)
  write := fun path bytes =>
    try return .ok (← IO.FS.writeBinFile path ⟨bytes.toArray⟩)
    catch error => return .error (hostError error)
  names := return []

end Xdr.CommandLine

/-- Runs the command line, shows the outcome and ends with its exit code. -/
def main (args : List String) : IO UInt32 := do
  let host := Xdr.CommandLine.systemHost
  let outcome ← Xdr.CommandLine.runOn (Xdr.Shell.commands host) host args
  IO.print outcome.output
  IO.eprint outcome.errors
  return UInt32.ofNat outcome.exitCode
