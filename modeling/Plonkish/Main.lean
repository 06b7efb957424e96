import Plonkish.CommandLine

/-!
# The program

Gives the command the files it names, and prints and writes what it answers.
-/

namespace Plonkish.CommandLine

/-- The error code of the file system for a directory in the place of a file. -/
def directoryCode : UInt32 := 21

/-- Why a path is not opened. -/
def fileError : IO.Error → FileError
  | .noFileOrDirectory _ _ _ => .missing
  | .noSuchThing _ _ _ => .missing
  | .inappropriateType _ code _ => if code = directoryCode then .isDirectory else .notDirectory
  | .alreadyExists _ _ _ => .taken
  | _ => .nameTooLong

/-- What a path of the file system leads to. -/
def document (path : Text) : IO (Except FileError Document) := do
  match path.toString? with
  | none => return .error .noBytes
  | some path =>
    if path.toList.contains '\x00' then return .error .nullByte
    try
      let bytes ← IO.FS.readBinFile path
      return .ok (.ofBytes bytes.toList)
    catch e => return .error (fileError e)

/-- The paths that a command line reads from. -/
def inputPaths (words : List Text) : List Text :=
  match Request.ofArguments words with
  | .run job => job.circuit.toList ++ (job.key.bind id).toList
  | _ => []

/-- What is wrong with a file. -/
def FileError.message : FileError → String
  | .missing => "no such file or directory"
  | .notDirectory => "not a directory"
  | .isDirectory => "is a directory"
  | .taken => "file exists"
  | .nameTooLong => "cannot be opened"
  | .nullByte => "embedded null byte"
  | .noBytes => "no name of a file"

/-- The text of a failure that breaks the command off. -/
def Failure.message : Failure → Text
  | .malformed => "malformed JSON"
  | .load e => e.message
  | .outline e => e.message
  | .write (.overflow o) => o.message
  | .write .notANumber => "value of a wrong type"
  | .write .notAnInteger => "value of a wrong type"
  | .file path e => path ++ ": " ++ e.message
  | .noArgument _ => "an option has no argument"

/-- A text as it is printed: halves of surrogate pairs are escaped. -/
def printed (t : Text) : String :=
  String.ofList (t.points.flatMap fun p => (p.toChar?.map ([·])).getD (Text.escapedPoint p))

/-- How the command is used. -/
def usage : String :=
  "usage: --constraint-system PATH [--vk PATH] --k SIZE --output PATH [-v]"

/-- Writes an output: makes the folders around it, then encodes the artifact. -/
def saveOutput (output : Output) : IO (Except Failure Bytes) := do
  match (parentPath output.path).toString?, output.path.toString? with
  | some folder, some path =>
    try
      IO.FS.createDirAll folder
      match output.artifact.encode with
      | .error e => return .error (.write e)
      | .ok bytes =>
        IO.FS.writeBinFile path ⟨bytes.toArray⟩
        return .ok bytes
    catch e => return .error (.file output.path (fileError e))
  | _, _ => return .error (.file output.path .noBytes)

/-- Writes the output of the command, prints what it answers, and gives its exit code. -/
def perform (outcome : Outcome) : IO UInt32 := do
  let outcome ← match outcome.output with
    | some output => pure (outcome.behind output (← saveOutput output))
    | none => pure outcome
  outcome.stderr.forM fun line => IO.eprintln (printed line)
  outcome.stdout.forM fun line => IO.println (printed line)
  match outcome.status with
  | .success => return 0
  | .failure => return 1
  | .usage =>
    IO.eprintln usage
    return 2
  | .help =>
    IO.println usage
    return 0
  | .crash f =>
    IO.eprintln (printed f.message)
    return 1

end Plonkish.CommandLine

/-- Runs the command on the words of the command line. -/
def main (words : List String) : IO UInt32 := do
  let words := words.map Plonkish.Text.ofString
  let found ← (Plonkish.CommandLine.inputPaths words).mapM fun path => do
    let document ← Plonkish.CommandLine.document path
    return (path, document)
  let files (path : Plonkish.Text) := (found.lookup path).getD (.error .missing)
  Plonkish.CommandLine.perform (Plonkish.CommandLine.run files words)
