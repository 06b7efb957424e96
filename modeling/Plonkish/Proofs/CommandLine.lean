import Plonkish.CommandLine
import Plonkish.Json.Printer
import Plonkish.Proofs.Circuit.FromJson
import Plonkish.Proofs.Expansion.Order
import Plonkish.Proofs.Wire.Described
import Plonkish.Proofs.Wire.Failure

/-!
# Runs of the command

The command writes the artifact of what is described, or it writes no file: then it reports why
there is no such artifact, or it breaks off. It does not break off for what well-typed descriptions
hold.

A machine may limit how deeply calls are nested, and with them the values in a file. A file that is
nested more deeply is then not read, and the command breaks off with nothing reported. Such limits
are outside the model: here a value may be nested to any depth.

* `CommandLine.artifactOf`: the artifact of what is described.
* `CommandLine.isReported_of_artifactOf`: if well-typed descriptions have none, this is reported.
* `CommandLine.layOut_snd`, `CommandLine.run_eq`: the command lays out what is described.
* `CommandLine.runIn_all_or_nothing`: how it ends, and what it leaves in a directory.
-/

namespace Plonkish

open Outcome

namespace CommandLine

/-- The key that a value describes. Without one the parts of an empty key are used. -/
def keyOf : Option Json → Except Failure VerifyingKey
  | none => .ok {}
  | some j => (VerifyingKey.ofJson j).mapError .load

/-- The artifact of the circuit and the key that two values describe. -/
def artifactOf (circuit : Json) (key : Option Json) (size : Int) :
    Except Failure Wire.Artifact := do
  let c ← (Circuit.ofJson circuit).mapError .load
  let k ← keyOf key
  let o ← (Outline.ofCircuit size c k).mapError .outline
  o.encode.mapError .write

variable {circuitJson : Json} {keyJson : Option Json} {size : Int} {f : Failure}
  {a : Wire.Artifact}

/-! ## Failures -/

/-- The failure is reported. -/
def Failure.IsReported (f : Failure) : Prop := ∃ text, f.report? = some text

theorem isReported_load {e : LoadError} (h : e.IsReported) : (Failure.load e).IsReported := by
  cases e with
  | wrongType => exact absurd h (by decide)
  | noFields => exact absurd h (by decide)
  | infinite => exact absurd h (by decide)
  | _ => exact ⟨_, rfl⟩

theorem isReported_write {e : WriteError} (h : e.IsOverflow) : (Failure.write e).IsReported := by
  obtain ⟨o, rfl⟩ := h
  exact ⟨_, rfl⟩

/-- If a circuit of integers has no outline, this is reported. -/
theorem isReported_outline {c : Circuit} {key : VerifyingKey} {e : OutlineError}
    (h : Outline.ofCircuit size c key = .error e) : (Failure.outline e).IsReported := by
  rcases Outline.ofCircuit_eq_error h with ⟨o, rfl⟩ | ⟨length, rfl⟩ | ⟨e, rfl, -⟩
  · exact ⟨_, rfl⟩
  · exact ⟨_, rfl⟩
  · obtain ⟨l, -, rfl⟩ := Outline.exists_firstUnknown_of_schema h
    cases l <;> exact ⟨_, rfl⟩

/-- If well-typed descriptions have no artifact, this is reported. -/
theorem isReported_of_artifactOf (hcircuit : Schema.IsCircuit circuitJson)
    (hkey : ∀ j ∈ keyJson, Schema.IsKey j) (h : artifactOf circuitJson keyJson size = .error f) :
    f.IsReported := by
  have hc := Circuit.yields_ofJson hcircuit
  rcases bind_eq_error_iff.1 h with h | ⟨c, hok, h⟩
  · obtain ⟨e, he, rfl⟩ := mapError_eq_error_iff.1 h
    exact isReported_load (hc.failsOnly e he)
  rw [mapError_eq_ok_iff] at hok
  rw [hok] at hc
  obtain ⟨c, rfl⟩ := hc
  rcases bind_eq_error_iff.1 h with h | ⟨key, -, h⟩
  · cases keyJson with
    | none => cases h
    | some j =>
      obtain ⟨e, he, rfl⟩ := mapError_eq_error_iff.1 h
      exact isReported_load (VerifyingKey.failsOnly_ofJson (hkey j rfl) e he)
  have hofInt : Outline.ofCircuit size (c.map .int : Circuit Json) key =
      (Outline.ofCircuit size c key).map (.map .int) := Outline.ofCircuit_ofInt size c key
  rw [hofInt] at h
  cases ho : Outline.ofCircuit size c key with
  | error e =>
    rw [ho] at h
    cases h
    exact isReported_outline ho
  | ok o =>
    rw [ho] at h
    obtain ⟨e, he, rfl⟩ := mapError_eq_error_iff.1 h
    have hencode : (o.map .int : Outline Json).encode = o.encode := Outline.encode_ofInt o
    rw [hencode] at he
    exact isReported_write (Outline.encode_failsOnly e he)

/-! ## Runs -/

/-- The job to lay out a circuit, with an argument for every option that needs one. -/
def Job.complete (circuit : Text) (key : Option Text) (size : Int) (output : Text)
    (verbose : Bool) : Job :=
  ⟨some circuit, key.map some, some size, some output, verbose⟩

section Run

variable {files : Files} {words : List Text} {circuit output path : Text} {keyPath : Option Text}
  {verbose : Bool}

/-- No key is named and none is described, or one is described where it is named. -/
theorem key_cases (hkey : keyPath.map files = keyJson.map fun j => .ok (.json j)) :
    keyPath = none ∧ keyJson = none ∨
      ∃ path j, keyPath = some path ∧ keyJson = some j ∧ files path = .ok (.json j) := by
  cases keyPath with
  | none =>
    cases keyJson with
    | none => exact .inl ⟨rfl, rfl⟩
    | some j => cases hkey
  | some path =>
    cases keyJson with
    | none => cases hkey
    | some j => exact .inr ⟨path, j, rfl, rfl, Option.some.inj hkey⟩

theorem readInputs_eq (hcircuit : files circuit = .ok (.json circuitJson))
    (hkey : keyPath.map files = keyJson.map fun j => .ok (.json j)) :
    readInputs files circuit keyPath = do
      let c ← (Circuit.ofJson circuitJson).mapError .load
      let k ← keyOf keyJson
      return (c, k) := by
  have hdocument : readDocument files circuit = .ok circuitJson := by rw [readDocument, hcircuit]
  rw [readInputs, hdocument]
  rcases key_cases hkey with ⟨rfl, rfl⟩ | ⟨path, j, rfl, rfl, hpath⟩
  · rfl
  · have hdocument : readDocument files path = .ok j := by rw [readDocument, hpath]
    simp only [hdocument]
    rfl

/-- What is laid out is the artifact of what the files describe. -/
theorem layOut_snd (size : Int) (hcircuit : files circuit = .ok (.json circuitJson))
    (hkey : keyPath.map files = keyJson.map fun j => .ok (.json j)) :
    (layOut files circuit keyPath (some size)).2 = artifactOf circuitJson keyJson size := by
  unfold layOut artifactOf
  rw [readInputs_eq hcircuit hkey]
  cases (Circuit.ofJson circuitJson).mapError Failure.load with
  | error f => rfl
  | ok c =>
    cases keyOf keyJson with
    | error f => rfl
    | ok k =>
      simp only [bind, Except.bind, pure, Except.pure]
      cases Outline.ofCircuit size c k with
      | error e => rfl
      | ok o =>
        simp only [Except.mapError, Outline.encode]
        cases o.poolWidth with
        | error e => rfl
        | ok pool => cases o.queryWidth <;> rfl

/-- The command ends because of a failure, with nothing to write: it reports the failure, or it
breaks off. -/
structure Outcome.EndsWith (o : Outcome) (f : Failure) : Prop where
  nothing : o.output = none
  reports : ∀ text, f.report? = some text → o.status = .failure ∧ "Error: " ++ text ∈ o.stderr
  breaksOff : f.report? = none → o.status = .crash f

theorem layOutFile_of_error (job : Job)
    (h : (layOut files circuit keyPath job.size).2 = .error f) :
    (layOutFile files circuit keyPath job).EndsWith f := by
  cases hreport : f.report? with
  | none =>
    simp only [layOutFile, h, hreport]
    exact ⟨rfl, fun text htext => absurd (hreport.symm.trans htext) nofun, fun _ => rfl⟩
  | some text =>
    simp only [layOutFile, h, hreport]
    refine ⟨rfl, fun text' htext => ?_, fun hnone => absurd (hreport.symm.trans hnone) nofun⟩
    cases hreport.symm.trans htext
    exact ⟨rfl, List.mem_append_right _ List.mem_cons_self⟩

/-- An artifact that is laid out is to be written. -/
theorem layOutFile_of_ok (job : Job) (h : (layOut files circuit keyPath job.size).2 = .ok a)
    (houtput : job.output = some output) :
    (layOutFile files circuit keyPath job).status = .success ∧
      (layOutFile files circuit keyPath job).output = some ⟨output, a⟩ := by
  simp only [layOutFile, h, houtput, and_self]

theorem present_of_ok (what : String) (kind : OptionKind) {doc : Document}
    (h : files path = .ok doc) : present files what kind (some path) = .ok path := by
  simp only [present, isPresent, h]

/-- The command lays out what it is asked to. -/
theorem run_eq
    (hwords : Request.ofArguments words = .run (.complete circuit keyPath size output verbose))
    (hcircuit : files circuit = .ok (.json circuitJson))
    (hkey : keyPath.map files = keyJson.map fun j => .ok (.json j)) :
    run files words =
      layOutFile files circuit keyPath (.complete circuit keyPath size output verbose) := by
  have hpaths : (keyPath.map some).mapM (present files "Verifying key" .key) = .ok keyPath := by
    rcases key_cases hkey with ⟨rfl, rfl⟩ | ⟨path, j, rfl, rfl, hpath⟩
    · rfl
    · simp only [Option.map_some, Option.mapM_some, present_of_ok _ _ hpath]
      rfl
  simp only [run, hwords, runJob, Job.complete, present_of_ok _ _ hcircuit, hpaths]
  rfl

end Run

/-! ## In a directory -/

theorem settle_of_nothing {o : Outcome} {d : Directory} (h : o.output = none) :
    settle o d = (o, d) := by
  rw [settle, h]

/-- An output that has an encoding is written, or it is the output that fails. Then only folders are
new. -/
theorem settle_of_encode {o : Outcome} {d : Directory} {output : Output} {bytes : Bytes}
    (hstatus : o.status = .success) (houtput : o.output = some output)
    (hencode : output.artifact.encode = .ok bytes) :
    (settle o d).1.status = .success ∧
        (settle o d).2.find output.path = .ok (.file bytes) ∨
      ∃ e, (d.save output.path bytes).2 = .error e ∧
        (settle o d).1.status = .crash (.file output.path e) ∧ d.GainsFolders (settle o d).2 := by
  rw [settle_of_output houtput, Output.save_of_ok hencode]
  cases hsave : (d.save output.path bytes).2 with
  | ok _ => exact .inl ⟨hstatus, Directory.find_save (Prod.ext rfl hsave)⟩
  | error e => exact .inr ⟨e, rfl, rfl, Directory.gainsFolders_of_save hsave⟩

/-- An output that has no encoding breaks the command off behind making the folders around it, or
those fail. -/
theorem settle_of_encode_eq_error {o : Outcome} {d : Directory} {output : Output} {e : WriteError}
    (houtput : o.output = some output) (hencode : output.artifact.encode = .error e) :
    (settle o d).2 = (d.makeAround output.path).1 ∧
      ((d.makeAround output.path).2 = .ok () ∧ (settle o d).1.status = .crash (.write e) ∨
        ∃ e', (d.makeAround output.path).2 = .error e' ∧
          (settle o d).1.status = .crash (.file output.path e')) := by
  rw [settle_of_output houtput, Output.save_of_error hencode]
  refine ⟨rfl, ?_⟩
  cases hmade : (d.makeAround output.path).2 with
  | ok _ => exact .inl ⟨rfl, rfl⟩
  | error e' => exact .inr ⟨e', rfl, rfl⟩

section Directory

variable {d : Directory} {words : List Text} {circuit output : Text} {keyPath : Option Text}
  {verbose : Bool}

/-- The command writes the artifact of what the files describe. If the output cannot be put there,
or has more parts than can be counted, the command breaks off and only folders around the output
are new. If there is no such artifact, nothing changes: then the command reports why or breaks off,
but it reports what is wrong with well-typed descriptions. -/
theorem runIn_all_or_nothing
    (hwords : Request.ofArguments words = .run (.complete circuit keyPath size output verbose))
    (hcircuit : d.files circuit = .ok (.json circuitJson))
    (hkey : keyPath.map d.files = keyJson.map fun j => .ok (.json j)) :
    (∃ a, artifactOf circuitJson keyJson size = .ok a ∧
        (∀ bytes, a.encode = .ok bytes →
          (runIn d words).1.status = .success ∧
              (runIn d words).2.find output = .ok (.file bytes) ∨
            ∃ e, (d.save output bytes).2 = .error e ∧
              (runIn d words).1.status = .crash (.file output e) ∧
              d.GainsFolders (runIn d words).2) ∧
        ∀ e, a.encode = .error e →
          ((d.makeAround output).2 = .ok () ∧ (runIn d words).1.status = .crash (.write e) ∨
            ∃ e', (d.makeAround output).2 = .error e' ∧
              (runIn d words).1.status = .crash (.file output e')) ∧
          (runIn d words).2 = (d.makeAround output).1 ∧ d.GainsFolders (runIn d words).2) ∨
      ∃ f, artifactOf circuitJson keyJson size = .error f ∧
        (runIn d words).1.EndsWith f ∧ (runIn d words).2 = d ∧
          (Schema.IsCircuit circuitJson → (∀ j ∈ keyJson, Schema.IsKey j) → f.IsReported) := by
  have hlayOut := layOut_snd size hcircuit hkey
  rw [runIn, run_eq hwords hcircuit hkey]
  cases hartifact : artifactOf circuitJson keyJson size with
  | error f =>
    have hends := layOutFile_of_error (.complete circuit keyPath size output verbose)
      (hlayOut.trans hartifact)
    refine .inr ⟨f, rfl, ?_⟩
    rw [settle_of_nothing hends.nothing]
    exact ⟨hends, rfl, fun hc hk => isReported_of_artifactOf hc hk hartifact⟩
  | ok a =>
    obtain ⟨hstatus, houtput⟩ := layOutFile_of_ok (.complete circuit keyPath size output verbose)
      (hlayOut.trans hartifact) rfl
    refine .inl ⟨a, rfl, fun bytes hbytes => settle_of_encode hstatus houtput hbytes,
      fun e he => ?_⟩
    obtain ⟨hdirectory, hends⟩ := settle_of_encode_eq_error (d := d) houtput he
    refine ⟨hends, hdirectory, ?_⟩
    rw [hdirectory]
    exact d.gainsFolders_makeAround output

end Directory

/-! ## Two circuits and a key -/

/-- A directory with a circuit and a key in it. -/
def withInputs (circuit key : Json) : Directory :=
  .ofFiles [("cs.json", circuit.render.toUTF8.data.toList),
    ("vk.json", key.render.toUTF8.data.toList)]

theorem ofBytes_render {j : Json}
    (h : Json.parse? (some Literal.digitLimit) j.render = some j) :
    Document.ofBytes j.render.toUTF8.data.toList = .json j := by
  have htext : String.fromUTF8? ⟨j.render.toUTF8.data.toList.toArray⟩ = some j.render := by
    rw [Array.toArray_toList]
    exact dif_pos j.render.isValidUTF8
  rw [Document.ofBytes, htext, Option.bind_some, h]

theorem files_withInputs_circuit (circuit key : Json)
    (h : Json.parse? (some Literal.digitLimit) circuit.render = some circuit) :
    (withInputs circuit key).files "cs.json" = .ok (.json circuit) :=
  congrArg Except.ok (ofBytes_render h)

theorem files_withInputs_key (circuit key : Json)
    (h : Json.parse? (some Literal.digitLimit) key.render = some key) :
    (withInputs circuit key).files "vk.json" = .ok (.json key) :=
  congrArg Except.ok (ofBytes_render h)

theorem save_withInputs (circuit key : Json) (bytes : Bytes) :
    ((withInputs circuit key).save "out.bin" bytes).2 = .ok () := rfl

/-- The command line that lays the circuit out. -/
def layOutWords : List Text := ["--constraint-system", "cs.json", "--k", "4", "--output", "out.bin"]

theorem ofArguments_layOutWords :
    Request.ofArguments layOutWords = .run (.complete "cs.json" none 4 "out.bin" false) := by
  decide +kernel

/-- The command line that lays the circuit out with the key. -/
def layOutWordsWithKey : List Text := layOutWords ++ (["--vk", "vk.json"] : List Text)

theorem ofArguments_layOutWordsWithKey :
    Request.ofArguments layOutWordsWithKey =
      .run (.complete "cs.json" (some "vk.json") 4 "out.bin" false) := by
  decide +kernel

/-- A circuit with one gate: the sum of a fixed column and a constant. -/
def gateCircuit : Json := .obj
  [("fixedQueries", .arr [.obj [("column", .obj [("kind", .str "fixed"), ("index", .int 0)])]]),
    ("gates", .arr [.obj [("polys", .arr [.obj [("op", .str "sum"),
      ("lhs", .obj [("op", .str "fixed"), ("column", .int 0)]),
      ("rhs", .obj [("op", .str "constant"), ("value", .int 3)])]])]])]

/-- A circuit with a gate that holds a selector. -/
def selectorCircuit : Json := .obj
  [("gates", .arr [.obj [("polys", .arr [.obj [("op", .str "neg"),
    ("expr", .obj [("op", .str "selector"), ("index", .int 0)])]])]])]

/-- A key with a fingerprint and one commitment. -/
def commitmentKey : Json := .obj
  [("transcriptRepr", .str "0100000000000000000000000000000000000000000000000000000000000000"),
    ("fixedCommitments", .arr [.str "a0b1"])]

theorem runIn_all_or_nothing_gate :
    (∃ a bytes, artifactOf gateCircuit (some commitmentKey) 4 = .ok a ∧ a.encode = .ok bytes ∧
      (runIn (withInputs gateCircuit commitmentKey) layOutWordsWithKey).1.status = .success ∧
      (runIn (withInputs gateCircuit commitmentKey) layOutWordsWithKey).2.find "out.bin" =
        .ok (.file bytes)) ∧
    Schema.IsCircuit selectorCircuit ∧ Schema.IsKey commitmentKey ∧
      (runIn (withInputs selectorCircuit commitmentKey) layOutWordsWithKey).1.status = .failure ∧
      Text.ofString "Error: Virtual selector 0 survived optimization" ∈
        (runIn (withInputs selectorCircuit commitmentKey) layOutWordsWithKey).1.stderr ∧
      (runIn (withInputs selectorCircuit commitmentKey) layOutWordsWithKey).2 =
        withInputs selectorCircuit commitmentKey := by
  have hkey (circuit : Json) : (some (Text.ofString "vk.json")).map
      (withInputs circuit commitmentKey).files = (some commitmentKey).map fun j => .ok (.json j) :=
    congrArg some (files_withInputs_key circuit commitmentKey (by decide +kernel))
  refine ⟨?_, ?_⟩
  · have hencodes : ((artifactOf gateCircuit (some commitmentKey) 4).toOption.bind
        fun a => a.encode.toOption).isSome = true := by
      decide +kernel
    have hcircuit := files_withInputs_circuit gateCircuit commitmentKey (by decide +kernel)
    rcases runIn_all_or_nothing ofArguments_layOutWordsWithKey hcircuit (hkey _) with
      ⟨a, ha, hwritten, -⟩ | ⟨f, hf, -⟩
    · rw [ha] at hencodes
      obtain ⟨bytes, hbytes⟩ := exists_of_isSome_toOption hencodes
      rcases hwritten bytes hbytes with h | ⟨e, he, -⟩
      · exact ⟨a, bytes, ha, hbytes, h⟩
      · cases (save_withInputs gateCircuit commitmentKey bytes).symm.trans he
    · rw [hf] at hencodes
      cases hencodes
  · have hselector : Schema.IsCircuit selectorCircuit := by decide +kernel
    have hcommitment : Schema.IsKey commitmentKey := by decide +kernel
    have hrefused : artifactOf selectorCircuit (some commitmentKey) 4 =
        .error (.outline (.schema (.selector (.int 0)))) := by
      decide +kernel
    have hcircuit := files_withInputs_circuit selectorCircuit commitmentKey (by decide +kernel)
    rcases runIn_all_or_nothing ofArguments_layOutWordsWithKey hcircuit (hkey _) with
      ⟨a, ha, -⟩ | ⟨f, hf, hends, hsame, hreported⟩
    · cases hrefused.symm.trans ha
    · cases hrefused.symm.trans hf
      obtain ⟨text, htext⟩ := hreported hselector (by simpa using hcommitment)
      cases htext
      obtain ⟨hstatus, hstderr⟩ := hends.reports _ rfl
      exact ⟨hselector, hcommitment, hstatus, hstderr, hsame⟩

/-- An array describes no circuit, and the command does not report this. -/
theorem runIn_breaks_off :
    (runIn (withInputs (.arr []) (.obj [])) layOutWords).1.status = .crash (.load .noFields) ∧
      (runIn (withInputs (.arr []) (.obj [])) layOutWords).1.stderr = [] := by
  have hcircuit := files_withInputs_circuit (.arr []) (.obj []) (by decide +kernel)
  have hkey : (none : Option Text).map (withInputs (.arr []) (.obj [])).files =
      (none : Option Json).map fun j => .ok (.json j) := rfl
  have hlayOut : layOut (withInputs (.arr []) (.obj [])).files "cs.json" none (some 4) =
      ([], .error (.load .noFields)) := by
    unfold layOut
    rw [readInputs_eq hcircuit hkey]
    rfl
  rw [runIn, run_eq ofArguments_layOutWords hcircuit hkey]
  simp only [layOutFile, Job.complete, hlayOut]
  exact ⟨rfl, rfl⟩

end CommandLine

end Plonkish
