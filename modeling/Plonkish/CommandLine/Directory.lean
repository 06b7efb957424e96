import Plonkish.CommandLine.Path

/-!
# Directories

A working directory with the files and folders in it and around it, and what the calls that look
up, make and write them do. A place is the list of the names that lead to it: from the working
directory, or from the root if the first of them is a slash. A name is a byte string. The working
directory, the folders around it and the root are always there.

* `Directory.find_write`, `Directory.find_save`: a file that was written is found with its content.
* `Directory.gainsFolders_makeAround`, `Directory.gainsFolders_of_save`: making the folders around a
  file, and failing to write it, changes nothing that is there.
-/

namespace Plonkish.CommandLine

/-- Why a path is not looked up, made or written. -/
inductive FileError
  /-- Nothing is at the end of the path, or on the way to it. -/
  | missing
  /-- A file is on the way. -/
  | notDirectory
  /-- A folder is where a file is needed. -/
  | isDirectory
  /-- Something is where a folder is to be made. -/
  | taken
  /-- A component, or the whole path, is too long. -/
  | nameTooLong
  /-- The path has a null character in it. -/
  | nullByte
  /-- The path has code points in it that have no bytes. -/
  | noBytes
  deriving DecidableEq, Repr

/-- What is at a place. -/
inductive Entry
  | folder
  | file (content : Bytes)
  deriving DecidableEq, Repr

/-- The names that lead to a place. -/
abbrev Place := List Bytes

/-- What is below a working directory, and elsewhere. -/
structure Directory where
  entries : List (Place × Entry) := []
  deriving Repr

namespace Directory

/-- The largest number of bytes in a component. -/
def maxName : Nat := 255

/-- The largest number of bytes in a path. -/
def maxPath : Nat := 4095

/-- The name of the folder around another: two dots. -/
def around : Bytes := [0x2e, 0x2e]

/-- The place of the root. -/
def rootPlace : Place := [[0x2f]]

/-- Whether a place is the root, the working directory or a folder around that. -/
def isOuter (place : Place) : Bool := place = rootPlace || place.all (· = around)

/-- What is at a place. -/
def entryAt? (d : Directory) (place : Place) : Option Entry :=
  if isOuter place then some .folder else d.entries.lookup place

/-- The directory with something put at a place. -/
def put (d : Directory) (place : Place) (e : Entry) : Directory :=
  ⟨(place, e) :: d.entries⟩

/-- The place to which a name leads from a folder. -/
def step (place : Place) (name : Bytes) : Place :=
  if name ≠ around then place ++ [name]
  else if place = rootPlace then place
  else if isOuter place then place ++ [around]
  else place.dropLast

/-- The place to which names lead from another. Only what is on the way must be there. -/
def follow (d : Directory) (place : Place) : List Bytes → Except FileError Place
  | [] => .ok place
  | name :: names =>
    match d.entryAt? place with
    | none => .error .missing
    | some (.file _) => .error .notDirectory
    | some .folder =>
      if maxName < name.length then .error .nameTooLong
      else d.follow (step place name) names

/-- The place to which a path leads. -/
def locate (d : Directory) (path : Text) : Except FileError Place :=
  match path.fileName? with
  | none => .error .noBytes
  | some bytes =>
    if 0 ∈ bytes then .error .nullByte
    else if maxPath < bytes.length then .error .nameTooLong
    else d.follow (if isRooted path then rootPlace else [])
      ((components path).filterMap Text.fileName?)

/-- What is at the end of a path. -/
def find (d : Directory) (path : Text) : Except FileError Entry := do
  let place ← d.locate path
  match d.entryAt? place with
  | some e => .ok e
  | none => .error .missing

/-- Makes a folder, which must not be there. -/
def makeFolder (d : Directory) (path : Text) : Except FileError Directory := do
  let place ← d.locate path
  match d.entryAt? place with
  | some _ => .error .taken
  | none => .ok (d.put place .folder)

/-- Writes a file, in place of one that is there. -/
def write (d : Directory) (path : Text) (content : Bytes) : Except FileError Directory := do
  let place ← d.locate path
  match d.entryAt? place with
  | some .folder => .error .isDirectory
  | _ => .ok (d.put place (.file content))

/-- Whether a path leads to a folder. -/
def isFolder (d : Directory) (path : Text) : Bool := d.find path matches .ok .folder

/-- Makes a folder. If making it fails otherwise than because something is missing, it may be
there. -/
def ensureFolder (d : Directory) (path : Text) : Except FileError Directory :=
  match d.makeFolder path with
  | .error .missing => .error .missing
  | .error .nullByte => .error .nullByte
  | .error .noBytes => .error .noBytes
  | .error e => if d.isFolder path then .ok d else .error e
  | .ok d => .ok d

/-- The directory behind an attempt to change it: as it was if the attempt failed. -/
def behind (d : Directory) : Except FileError Directory → Directory × Except FileError Unit
  | .ok d => (d, .ok ())
  | .error e => (d, .error e)

/-- Makes a folder and, where they are missing, up to `depth` folders around it. Those made stay
when another is not made. -/
def ensureFolders (d : Directory) (path : Text) (depth : Nat) :
    Directory × Except FileError Unit :=
  match depth, d.ensureFolder path with
  | depth + 1, .error .missing =>
    match d.ensureFolders (parentPath path) depth with
    | (d, .ok _) => d.behind (d.ensureFolder path)
    | failed => failed
  | _, result => d.behind result

/-- Makes the folders around a file. -/
def makeAround (d : Directory) (path : Text) : Directory × Except FileError Unit :=
  d.ensureFolders (parentPath path) (components path).length

/-- Writes a file behind making the folders around it. -/
def save (d : Directory) (path : Text) (content : Bytes) : Directory × Except FileError Unit :=
  match d.makeAround path with
  | (d, .ok _) => d.behind (d.write path content)
  | failed => failed

/-- The working directory with files at given paths. -/
def ofFiles (files : List (Text × Bytes)) : Directory :=
  files.foldl (fun d (path, content) => (d.save path content).1) {}

/-! ## Looking up what was written -/

/-- Where no folder is, something can be put. -/
theorem isOuter_eq_false {d : Directory} {place : Place} (h : d.entryAt? place ≠ some .folder) :
    isOuter place = false := by
  cases ho : isOuter place with
  | false => rfl
  | true => exact absurd (by simp [entryAt?, ho]) h

theorem entryAt?_put_self {d : Directory} {place : Place} {e : Entry}
    (h : isOuter place = false) : (d.put place e).entryAt? place = some e := by
  simp [entryAt?, put, h]

theorem entryAt?_put_of_ne {d : Directory} {place other : Place} {e : Entry}
    (h : other ≠ place) : (d.put place e).entryAt? other = d.entryAt? other := by
  have : (other == place) = false := by simpa using h
  simp [entryAt?, put, List.lookup_cons, this]

theorem follow_put {d : Directory} {start place : Place} {names : List Bytes} {e : Entry}
    (hplace : d.entryAt? place ≠ some .folder) (h : d.follow start names = .ok place) :
    (d.put place e).follow start names = .ok place := by
  induction names generalizing start with
  | nil => simpa [follow] using h
  | cons name names ih =>
    rw [follow] at h ⊢
    have hne : d.entryAt? start = some .folder → start ≠ place := by
      rintro hs rfl
      exact hplace hs
    cases hs : d.entryAt? start with
    | none => simp [hs] at h
    | some entry =>
      cases entry with
      | file content => simp [hs] at h
      | folder =>
        rw [entryAt?_put_of_ne (hne hs)]
        simp only [hs] at h ⊢
        split at h
        · simp at h
        · next hlen =>
          rw [if_neg hlen]
          exact ih h

theorem locate_put {d : Directory} {path : Text} {place : Place} {e : Entry}
    (hplace : d.entryAt? place ≠ some .folder) (h : d.locate path = .ok place) :
    (d.put place e).locate path = .ok place := by
  unfold locate at h ⊢
  cases hname : path.fileName? with
  | none => simp [hname] at h
  | some bytes =>
    simp only [hname] at h ⊢
    split at h
    · simp at h
    · next hnull =>
      split at h
      · simp at h
      · next hlen =>
        rw [if_neg hnull, if_neg hlen]
        exact follow_put hplace h

theorem find_write {d d' : Directory} {path : Text} {content : Bytes}
    (h : d.write path content = .ok d') : d'.find path = .ok (.file content) := by
  unfold write at h
  cases hl : d.locate path with
  | error e => simp [hl, bind, Except.bind] at h
  | ok place =>
    simp only [hl, bind, Except.bind] at h
    split at h
    · simp at h
    · next hne =>
      have hplace : d.entryAt? place ≠ some .folder := fun hf => hne hf
      cases h
      simp [find, locate_put hplace hl, bind, Except.bind,
        entryAt?_put_self (isOuter_eq_false hplace)]

theorem find_save {d d' : Directory} {path : Text} {content : Bytes}
    (h : d.save path content = (d', .ok ())) : d'.find path = .ok (.file content) := by
  unfold save behind at h
  split at h
  · split at h
    · next hw =>
      simp only [Prod.mk.injEq, and_true] at h
      subst h
      exact find_write hw
    · simp at h
  · next hf => exact absurd h (hf _ _)

/-! ## What stays in place -/

/-- Everything is where it was, and what is new are folders. -/
def GainsFolders (d d' : Directory) : Prop :=
  ∀ place, d'.entryAt? place = d.entryAt? place ∨
    d.entryAt? place = none ∧ d'.entryAt? place = some .folder

theorem gainsFolders_refl (d : Directory) : d.GainsFolders d := fun _ => .inl rfl

theorem GainsFolders.trans {d d' d'' : Directory} (h : d.GainsFolders d')
    (h' : d'.GainsFolders d'') : d.GainsFolders d'' := by
  intro place
  rcases h place with hsame | ⟨hnone, hfolder⟩
  · rw [← hsame]
    exact h' place
  · rcases h' place with hsame | ⟨habsent, -⟩
    · exact .inr ⟨hnone, hsame.trans hfolder⟩
    · cases hfolder.symm.trans habsent

theorem gainsFolders_behind {d d' : Directory} {result : Except FileError Directory}
    (h : d.GainsFolders d') (hresult : ∀ d'', result = .ok d'' → d'.GainsFolders d'') :
    d.GainsFolders (d'.behind result).1 := by
  cases result with
  | error e => exact h
  | ok d'' => exact h.trans (hresult d'' rfl)

theorem gainsFolders_of_makeFolder {d d' : Directory} {path : Text}
    (h : d.makeFolder path = .ok d') : d.GainsFolders d' := by
  unfold makeFolder at h
  cases hl : d.locate path with
  | error e => simp [hl, bind, Except.bind] at h
  | ok made =>
    simp only [hl, bind, Except.bind] at h
    split at h
    · cases h
    · next hnone =>
      have habsent : d.entryAt? made ≠ some .folder := by simp [hnone]
      have houter : isOuter made = false := isOuter_eq_false habsent
      cases h
      intro place
      by_cases hplace : place = made
      · subst hplace
        exact .inr ⟨hnone, entryAt?_put_self houter⟩
      · exact .inl (entryAt?_put_of_ne hplace)

theorem gainsFolders_of_ensureFolder {d d' : Directory} {path : Text}
    (h : d.ensureFolder path = .ok d') : d.GainsFolders d' := by
  unfold ensureFolder at h
  split at h
  · cases h
  · cases h
  · cases h
  · split at h
    · cases h
      exact gainsFolders_refl _
    · cases h
  · next hmade =>
    cases h
    exact gainsFolders_of_makeFolder hmade

theorem gainsFolders_ensureFolders (d : Directory) (path : Text) (depth : Nat) :
    d.GainsFolders (d.ensureFolders path depth).1 := by
  induction depth generalizing path with
  | zero =>
    exact gainsFolders_behind (gainsFolders_refl d) fun _ => gainsFolders_of_ensureFolder
  | succ depth ih =>
    unfold ensureFolders
    split
    · next hdepth _ =>
      cases hdepth
      have hparent := ih (parentPath path)
      split
      · next d' _ hmade =>
        rw [hmade] at hparent
        exact gainsFolders_behind hparent fun _ => gainsFolders_of_ensureFolder
      · exact hparent
    · exact gainsFolders_behind (gainsFolders_refl d) fun _ => gainsFolders_of_ensureFolder

theorem gainsFolders_makeAround (d : Directory) (path : Text) :
    d.GainsFolders (d.makeAround path).1 :=
  gainsFolders_ensureFolders d _ _

theorem gainsFolders_of_save {d : Directory} {path : Text} {content : Bytes} {e : FileError}
    (h : (d.save path content).2 = .error e) : d.GainsFolders (d.save path content).1 := by
  have hmade := gainsFolders_makeAround d path
  unfold save at h ⊢
  split at h
  · next d' _ hfolders =>
    rw [hfolders] at hmade
    refine gainsFolders_behind hmade fun d'' hwrite => ?_
    rw [hwrite] at h
    cases h
  · exact hmade

end Directory

end Plonkish.CommandLine
