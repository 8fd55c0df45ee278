import PocketKernel.Tool.Run

/-!
# The image tool as a program

Commands run on the files of the system. The exit code is the command's; words that are no command
are answered with the usage and the code 2.
-/
namespace PocketKernel

/-- What the system says about a failure. -/
def SystemError.ofFailure : IO.Error → SystemError
  | .noFileOrDirectory _ code details => ofCode code details
  | .noSuchThing _ code details => ofCode code details
  | .inappropriateType _ code details => ofCode code details
  | .invalidArgument _ code details => ofCode code details
  | .permissionDenied _ code details => ofCode code details
  | .resourceExhausted _ code details => ofCode code details
  | .alreadyExists _ code details => ofCode code details
  | e => .other (toString e)
where
  /-- Some calls report the code of a failure as a negative number. -/
  ofCode (code : UInt32) (details : String) : SystemError :=
    let code := if code < 0x80000000 then code else 0 - code
    if code = 2 then .noEntry
    else if code = 20 then .notDirectory
    else if code = 21 then .isDirectory
    else if code = 36 then .nameTooLong
    else .other (details ++ " (os error " ++ toString code.toNat ++ ")")

instance : Host IO where
  readPath p := do
    try
      return .ok (← IO.FS.readBinFile (String.ofList p)).toList
    catch e => return .error (.ofFailure e)
  writePath p data := do
    try
      IO.FS.writeBinFile (String.ofList p) (ByteArray.mk data.toArray)
      return .ok ()
    catch e => return .error (.ofFailure e)

def usage : String :=
  "usage: flat ELF -o OUTPUT [--any-base] | mkdisk FILES... -o OUTPUT | ls DISK [-f text|json]"

end PocketKernel

open PocketKernel in
def main (args : List String) : IO UInt32 := do
  match Arguments.read (args.map String.toList) with
  | .error .help =>
    IO.println usage
    return 0
  | .error .version =>
    IO.print Usage.versionText
    return 0
  | .error .refused =>
    IO.eprintln usage
    return 2
  | .ok command =>
    let o ← Tool.run command
    IO.print o.printed
    IO.eprint o.complaint
    return UInt32.ofNat o.code
