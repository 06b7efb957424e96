import Plonkish.Circuit.FromJson
import Plonkish.CommandLine.Directory
import Plonkish.CommandLine.Options
import Plonkish.Json.Reader
import Plonkish.VerifyingKey
import Plonkish.Wire.Outline

/-!
# The command

The command reads the description of a circuit, and of a key if one is named, writes the flattened
artifact of the circuit's outline, and reports the sizes of its groups. What it prints, and what it
is about to write, is a function of the files that it reads.

* `CommandLine.settle_success`: the command succeeds only if its output is there afterwards.
-/

namespace Plonkish.CommandLine

/-- What a file holds. -/
inductive Document
  | json (j : Json)
  /-- No JSON value. -/
  | malformed

/-- What bytes hold. -/
def Document.ofBytes (bytes : Bytes) : Document :=
  match (String.fromUTF8? ⟨bytes.toArray⟩).bind (Json.parse? (some Literal.digitLimit)) with
  | some j => .json j
  | none => .malformed

/-- The files that the command can read, by their paths. -/
abbrev Files := Text → Except FileError Document

/-- Why the command fails. -/
inductive Failure
  | malformed
  | load (e : LoadError)
  | outline (e : OutlineError)
  | write (e : WriteError)
  /-- A file is not read or written. -/
  | file (path : Text) (e : FileError)
  /-- An option was used without the argument that is needed. -/
  | noArgument (kind : OptionKind)
  deriving DecidableEq

/-- The text with which a failure is reported. Values of wrong types, infinite numbers, files that
cannot be opened and absent arguments are not reported: the command breaks off. -/
def Failure.report? : Failure → Option Text
  | .malformed => some "malformed JSON"
  | .load .wrongType => none
  | .load .noFields => none
  | .load .infinite => none
  | .load e => some e.message
  | .outline .notANumber => none
  | .outline (.schema .wrongType) => none
  | .outline e => some e.message
  | .write (.overflow o) => some o.message
  | .write _ => none
  | .file _ _ => none
  | .noArgument _ => none

/-- How the command ends. -/
inductive Status
  | success
  | failure
  /-- The command line is rejected. -/
  | usage
  | help
  /-- The command breaks off. -/
  | crash (f : Failure)
  deriving DecidableEq

/-- An artifact to be written to a file, with the folders around it. -/
structure Output where
  path : Text
  artifact : Wire.Artifact

/-- What the command does: its end, the lines it prints, and what it writes before it ends. -/
structure Outcome where
  status : Status
  stdout : List Text := []
  stderr : List Text := []
  output : Option Output := none

/-- The value in a file. -/
def readDocument (files : Files) (path : Text) : Except Failure Json :=
  match files path with
  | .ok (.json j) => .ok j
  | .ok .malformed => .error .malformed
  | .error e => .error (.file path e)

/-- Reads the circuit and the key. Without a key the parts of an empty one are used. -/
def readInputs (files : Files) (circuit : Text) (key : Option Text) :
    Except Failure (Circuit Json × VerifyingKey) := do
  let circuitJson ← readDocument files circuit
  let c ← (Circuit.ofJson circuitJson).mapError .load
  match key with
  | none => return (c, {})
  | some path =>
    let keyJson ← readDocument files path
    let k ← (VerifyingKey.ofJson keyJson).mapError .load
    return (c, k)

/-- The lines that report on an outline and on its artifact, with what fails first. -/
def layOut (files : Files) (circuit : Text) (key : Option Text) (size : Option Int) :
    List Text × Except Failure Wire.Artifact :=
  match readInputs files circuit key, size with
  | .error f, _ => ([], .error f)
  | .ok _, none => ([], .error (.noArgument .size))
  | .ok (c, k), some size =>
    match Outline.ofCircuit size c k with
    | .error e => ([], .error (.outline e))
    | .ok o =>
      let built : Text := s!"DEBUG shape.circuit_shape: {o.summary}"
      match o.poolWidth, o.queryWidth with
      | .ok pool, .ok query =>
        let widths : Text :=
          s!"DEBUG shape.serialize: Index widths: query={query.name} pool={pool.name}"
        ([built, widths], (o.encodeAt query pool).mapError .write)
      | .error e, _ => ([built], .error (.write e))
      | _, .error e => ([built], .error (.write e))

/-- The line that reports on the group with a number. -/
def groupLine (i : Nat) (row : Text × Nat × Nat) : Text :=
  let (name, count, total) := row
  s!"INFO shape.serialize: Item {i} (" ++ name ++
    s!"): total size = {total}, lengths = {count}"

/-- What pads a text to a width. -/
def padding (width : Nat) (t : Text) : Text :=
  ⟨List.replicate (width - t.points.length) (.ofChar ' ')⟩

/-- A line of the table of groups: the name on the left, the numbers on the right. -/
def tableLine (name count total : Text) : Text :=
  name ++ padding 32 name ++ " " ++ padding 8 count ++ count ++ " " ++ padding 8 total ++ total

/-- The lines that report on a written artifact. -/
def tableLines (a : Wire.Artifact) (size : Nat) (path : Text) : List Text :=
  let rows := a.report.map fun (name, count, total) =>
    tableLine name (toString count) (toString total)
  Text.ofString "" :: tableLine "group" "elements" "bytes" :: rows ++
    [Text.ofString "", s!"Wrote {size} bytes to " ++ path]

/-- Lays out the circuit in a file. -/
def layOutFile (files : Files) (circuit : Text) (key : Option Text) (job : Job) : Outcome :=
  let loading : Text := "Loading constraint system from " ++ circuit ++ "..."
  let (debug, result) := layOut files circuit key job.size
  let debug := if job.verbose then debug else []
  match result with
  | .error failure =>
    match failure.report? with
    | some text =>
      { status := .failure, stdout := [loading], stderr := debug ++ ["Error: " ++ text] }
    | none => { status := .crash failure, stdout := [loading], stderr := debug }
  | .ok artifact =>
    let stderr := debug ++ artifact.report.zipIdx.map fun (row, i) => groupLine i row
    match job.output with
    | none => { status := .crash (.noArgument .output), stdout := [loading], stderr }
    | some path =>
      { status := .success, stdout := [loading], stderr, output := some ⟨path, artifact⟩ }

/-- Whether a path leads anywhere. There is no answer for a path that is too long. -/
def isPresent (files : Files) (path : Text) : Except Failure Bool :=
  match files path with
  | .ok _ => .ok true
  | .error .isDirectory => .ok true
  | .error .nameTooLong => .error (.file path .nameTooLong)
  | .error _ => .ok false

/-- The path of an input, or the outcome if it is absent. -/
def present (files : Files) (what : String) (kind : OptionKind) (path : Option Text) :
    Except Outcome Text :=
  match path with
  | none => .error { status := .crash (.noArgument kind) }
  | some path =>
    match isPresent files path with
    | .error f => .error { status := .crash f }
    | .ok false =>
      .error { status := .failure, stderr := [s!"Error: {what} file not found: " ++ path] }
    | .ok true => .ok path

/-- Lays out the circuit of a job whose inputs are all present. -/
def runJob (files : Files) (job : Job) : Except Outcome Outcome := do
  let circuit ← present files "Constraint system" .circuit job.circuit
  let key ← job.key.mapM (present files "Verifying key" .key)
  return layOutFile files circuit key job

/-- What the command does. -/
def run (files : Files) (words : List Text) : Outcome :=
  match Request.ofArguments words with
  | .rejected => { status := .usage }
  | .help => { status := .help }
  | .run job =>
    match runJob files job with
    | .ok outcome => outcome
    | .error outcome => outcome

/-! ## In a directory -/

/-- The files of a directory. -/
def Directory.files (d : Directory) : Files := fun path =>
  match d.find path with
  | .ok (.file content) => .ok (.ofBytes content)
  | .ok .folder => .error .isDirectory
  | .error e => .error e

/-- Writes an output: makes the folders around it, then encodes the artifact. Folders that were made
stay if something fails. The result is what was written. -/
def Output.save (output : Output) (d : Directory) : Directory × Except Failure Bytes :=
  match d.makeAround output.path with
  | (d, .error e) => (d, .error (.file output.path e))
  | (d, .ok _) =>
    match output.artifact.encode with
    | .error e => (d, .error (.write e))
    | .ok bytes =>
      match d.write output.path bytes with
      | .error e => (d, .error (.file output.path e))
      | .ok d => (d, .ok bytes)

/-- The outcome behind an attempt to write its output. -/
def Outcome.behind (o : Outcome) (output : Output) : Except Failure Bytes → Outcome
  | .ok bytes =>
    { o with stdout := o.stdout ++ tableLines output.artifact bytes.length output.path }
  | .error f => { o with status := .crash f }

/-- Writes the output of the command, if it has any. -/
def settle (o : Outcome) (d : Directory) : Outcome × Directory :=
  match o.output with
  | none => (o, d)
  | some output =>
    let (d, result) := output.save d
    (o.behind output result, d)

/-- Runs the command in a directory. -/
def runIn (d : Directory) (words : List Text) : Outcome × Directory :=
  settle (run d.files words) d

variable {output : Output} {d : Directory}

/-- What has an encoding is saved as any other content. -/
theorem Output.save_of_ok {bytes : Bytes} (h : output.artifact.encode = .ok bytes) :
    output.save d = ((d.save output.path bytes).1,
      (d.save output.path bytes).2.mapError (.file output.path) >>= fun _ => .ok bytes) := by
  unfold save Directory.save
  simp only [h]
  obtain ⟨d', result⟩ := d.makeAround output.path
  cases result with
  | error e => rfl
  | ok _ =>
    cases hwrite : d'.write output.path bytes with
    | error e =>
      simp only [hwrite, Directory.behind]
      rfl
    | ok d'' =>
      simp only [hwrite, Directory.behind]
      rfl

/-- What has no encoding leaves the folders around it. -/
theorem Output.save_of_error {e : WriteError} (h : output.artifact.encode = .error e) :
    output.save d =
      ((d.makeAround output.path).1, (d.makeAround output.path).2.mapError (.file output.path) >>=
        fun _ => .error (.write e)) := by
  unfold save
  simp only [h]
  obtain ⟨d', result⟩ := d.makeAround output.path
  cases result <;> rfl

variable {o : Outcome}

theorem settle_of_output (houtput : o.output = some output) :
    settle o d = (o.behind output (output.save d).2, (output.save d).1) := by
  rw [settle, houtput]

theorem settle_success (houtput : o.output = some output)
    (h : (settle o d).1.status = .success) :
    ∃ bytes, output.artifact.encode = .ok bytes ∧
      (settle o d).2.find output.path = .ok (.file bytes) := by
  rw [settle_of_output houtput] at h ⊢
  cases hencode : output.artifact.encode with
  | error e =>
    rw [Output.save_of_error hencode] at h
    cases hmade : (d.makeAround output.path).2 <;> rw [hmade] at h <;> cases h
  | ok bytes =>
    rw [Output.save_of_ok hencode] at h ⊢
    cases hsave : (d.save output.path bytes).2 with
    | error e =>
      rw [hsave] at h
      cases h
    | ok _ => exact ⟨bytes, rfl, Directory.find_save (Prod.ext rfl hsave)⟩

end Plonkish.CommandLine
