import WaveletPrecision.CommandLine.Execution

/-
The program: a command line carried out on the files of the system.
-/
namespace WaveletPrecision

/-- The fault behind a failure that the system reports. -/
def Fault.ofSystem (e : IO.Error) : Fault :=
  match e with
  | .noFileOrDirectory .. => .notFound
  | .alreadyExists .. => .alreadyExists
  | .inappropriateType _ code _ => if code = 21 then .isADirectory else .notADirectory
  | .invalidArgument _ code _ => if code = 36 then .nameTooLong else .other (toString e)
  | _ => .other (toString e)

/-- The result of an operation of the system on a path. -/
def attemptSystem {A : Type} (path : Path) (action : IO A) : IO (Except Fault A) := do
  match path.validate with
  | .error fault => return .error fault
  | .ok _ =>
    try
      return .ok (← action)
    catch e =>
      return .error (.ofSystem e)

instance : Store IO where
  read path := attemptSystem path (IO.FS.readBinFile path.toString)
  makeDirectories path :=
    if path = Path.empty then return .ok ()
    else attemptSystem path (IO.FS.createDirAll path.toString)
  write path content := do
    match ← attemptSystem path (IO.FS.Handle.mk path.toString .write) with
    | .error fault => return .error (.create, fault)
    | .ok file =>
      let written ← attemptSystem path do
        file.write content
        file.flush
      return written.mapError fun fault => (.write, fault)

end WaveletPrecision

open WaveletPrecision

/-- Carry out the command line. -/
def main (args : List String) : IO UInt32 := do
  let bytes ← IO.getRandomBytes 8
  let entropy := bytes.foldl (fun n byte => 256 * n + byte.toUInt64) 0
  let ending ← CommandLine.execute (M := IO) entropy args
  (← IO.getStdout).putStr ending.output
  let log ← IO.getStderr
  ending.log.forM log.putStrLn
  return ending.status.toUInt32
