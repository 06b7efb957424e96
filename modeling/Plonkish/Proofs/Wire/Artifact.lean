import Plonkish.Proofs.Wire.Passage
import Plonkish.Wire.Artifact

/-!
# The codec of artifacts

Every count and length is written in front of what it counts, so the groups of an artifact can be
told apart again. Reading gives the groups the names that it expects.

* `Wire.readElements_eq_ok_iff`, `Wire.readGroups_eq_ok_iff`: elements and groups are read where
  they are written.
* `Artifact.decode_eq_ok_iff`: an artifact is read from the bytes that it is written as, and from no
  others.
* `Artifact.elements_eq_of_encode`: whatever the groups are called, their elements can be told from
  the bytes.
* `Artifact.framing_bijective`: writing and reading undo each other, and where bytes are read, what
  is in front of them or goes beyond them is not.
-/

namespace Plonkish.Wire

open Outcome Reader

variable {r r' : Reader} {what : Text} {element bytes data : Bytes}

theorem encodeElement_eq_ok_iff :
    encodeElement what element = .ok bytes ↔
      ∃ size, word 4 what (element.length : Int) = .ok size ∧ size ++ element = bytes := by
  simp only [encodeElement, bind_eq_ok_iff, pure_eq_ok_iff]

/-- An element is written as its length and its bytes, and read so. -/
theorem readElement_eq_ok_iff :
    (∃ n r₁, r.number 4 = .ok (n, r₁) ∧ r₁.take n = .ok (element, r')) ↔
      ∃ bytes, encodeElement what element = .ok bytes ∧ r.Passes bytes r' := by
  simp only [number_eq_ok_iff_word what, take_eq_ok_iff_passes, encodeElement_eq_ok_iff]
  constructor
  · rintro ⟨_, r₁, ⟨size, hsize, hpass⟩, rfl, hpass'⟩
    exact ⟨_, ⟨size, hsize, rfl⟩, hpass.trans hpass'⟩
  · rintro ⟨_, ⟨size, hsize, rfl⟩, hpass⟩
    obtain ⟨r₁, hpass, hpass'⟩ := passes_append_iff.1 hpass
    exact ⟨element.length, r₁, ⟨size, hsize, hpass⟩, rfl, hpass'⟩

/-- Items written one behind the other. -/
theorem mapM_cons_flatten_iff {α : Type} {encode : α → Except WriteError Bytes} {x : α}
    {xs : List α} :
    (∃ parts, (x :: xs).mapM encode = .ok parts ∧ r.Passes parts.flatten r') ↔
      ∃ r₁, (∃ bytes, encode x = .ok bytes ∧ r.Passes bytes r₁) ∧
        ∃ parts, xs.mapM encode = .ok parts ∧ r₁.Passes parts.flatten r' := by
  simp only [List.mapM_cons, bind_eq_ok_iff, pure_eq_ok_iff]
  constructor
  · rintro ⟨_, ⟨bytes, hx, parts, hxs, rfl⟩, hpass⟩
    rw [List.flatten_cons] at hpass
    obtain ⟨r₁, hpass, hpass'⟩ := passes_append_iff.1 hpass
    exact ⟨r₁, ⟨bytes, hx, hpass⟩, parts, hxs, hpass'⟩
  · rintro ⟨r₁, ⟨bytes, hx, hpass⟩, parts, hxs, hpass'⟩
    exact ⟨bytes :: parts, ⟨bytes, hx, parts, hxs, rfl⟩, hpass.trans hpass'⟩

theorem readElements_eq_ok_iff {read elements : List Bytes} {count : Nat} (what : Text) :
    readElements read count r = .ok (elements, r') ↔
      ∃ more, elements = read.reverse ++ more ∧ more.length = count ∧
        ∃ parts, more.mapM (encodeElement what) = .ok parts ∧ r.Passes parts.flatten r' := by
  induction count generalizing read r with
  | zero =>
    simp only [readElements, List.length_eq_zero_iff]
    constructor
    · intro h
      cases h
      exact ⟨[], by simp, rfl, [], rfl, passes_nil_iff.2 rfl⟩
    · rintro ⟨more, rfl, rfl, parts, h, hpass⟩
      cases h
      rw [passes_nil_iff.1 hpass, List.append_nil]
  | succ count ih =>
    simp only [readElements, bind_eq_ok_iff, Prod.exists, ih]
    constructor
    · rintro ⟨n, r₁, hn, element, r₂, helement, more, rfl, rfl, hmore⟩
      refine ⟨element :: more, by simp, rfl, mapM_cons_flatten_iff.2 ⟨r₂, ?_, hmore⟩⟩
      exact readElement_eq_ok_iff.1 ⟨n, r₁, hn, helement⟩
    · rintro ⟨more, rfl, hcount, hmore⟩
      cases more with
      | nil => cases hcount
      | cons element more =>
        obtain ⟨r₂, helement, hmore⟩ := mapM_cons_flatten_iff.1 hmore
        obtain ⟨n, r₁, hn, helement⟩ := readElement_eq_ok_iff.2 helement
        exact ⟨n, r₁, hn, element, r₂, helement, more, by simp, Nat.succ.inj hcount, hmore⟩

theorem encodeGroup_eq_ok_iff {g : Group} :
    encodeGroup g = .ok bytes ↔
      ∃ count, word 4 (g.name ++ " element count") (g.elements.length : Int) = .ok count ∧
        ∃ parts, g.elements.mapM (encodeElement (g.name ++ " element length")) = .ok parts ∧
          count ++ parts.flatten = bytes := by
  simp only [encodeGroup, bind_eq_ok_iff, pure_eq_ok_iff]

/-- A group is written as the number of its elements and the elements, and read so. -/
theorem readGroup_eq_ok_iff {g : Group} :
    (∃ count r₁, r.number 4 = .ok (count, r₁) ∧
        readElements [] count r₁ = .ok (g.elements, r')) ↔
      ∃ bytes, encodeGroup g = .ok bytes ∧ r.Passes bytes r' := by
  simp only [number_eq_ok_iff_word (g.name ++ " element count"),
    readElements_eq_ok_iff (g.name ++ " element length"), encodeGroup_eq_ok_iff]
  constructor
  · rintro ⟨_, r₁, ⟨count, hcount, hpass⟩, more, hmore, rfl, parts, hparts, hpass'⟩
    obtain rfl : g.elements = more := hmore
    exact ⟨_, ⟨count, hcount, parts, hparts, rfl⟩, hpass.trans hpass'⟩
  · rintro ⟨_, ⟨count, hcount, parts, hparts, rfl⟩, hpass⟩
    obtain ⟨r₁, hpass, hpass'⟩ := passes_append_iff.1 hpass
    exact ⟨g.elements.length, r₁, ⟨count, hcount, hpass⟩, g.elements, rfl, rfl, parts, hparts,
      hpass'⟩

theorem readGroups_eq_ok_iff {names : List Text} {groups : List Group} :
    readGroups names r = .ok (groups, r') ↔
      groups.map Group.name = names ∧
        ∃ parts, groups.mapM encodeGroup = .ok parts ∧ r.Passes parts.flatten r' := by
  induction names generalizing r r' groups with
  | nil =>
    simp only [readGroups, List.map_eq_nil_iff]
    constructor
    · intro h
      cases h
      exact ⟨rfl, [], rfl, passes_nil_iff.2 rfl⟩
    · rintro ⟨rfl, parts, h, hpass⟩
      cases h
      rw [passes_nil_iff.1 hpass]
  | cons name names ih =>
    simp only [readGroups, bind_eq_ok_iff, Prod.exists, pure_eq_ok_iff, Prod.mk.injEq, ih]
    constructor
    · rintro ⟨count, r₁, hcount, elements, r₂, helements, groups, _, ⟨rfl, hgroups⟩, rfl, rfl⟩
      refine ⟨rfl, mapM_cons_flatten_iff.2 ⟨r₂, ?_, hgroups⟩⟩
      exact readGroup_eq_ok_iff (g := ⟨name, elements⟩).1 ⟨count, r₁, hcount, helements⟩
    · rintro ⟨hnames, hgroups⟩
      cases groups with
      | nil => cases hnames
      | cons g groups =>
        cases hnames
        obtain ⟨r₂, hg, hgroups⟩ := mapM_cons_flatten_iff.1 hgroups
        obtain ⟨count, r₁, hcount, helements⟩ := readGroup_eq_ok_iff.2 hg
        exact ⟨count, r₁, hcount, g.elements, r₂, helements, groups, r', ⟨rfl, hgroups⟩, rfl, rfl⟩

/-- From one place the same number of groups is read in one way, whatever the groups are called. -/
theorem elements_eq_of_passes {groups groups' : List Group} {parts parts' : List Bytes}
    {end₁ end₂ : Reader} (hlength : groups.length = groups'.length)
    (h : groups.mapM encodeGroup = .ok parts) (hpass : r.Passes parts.flatten end₁)
    (h' : groups'.mapM encodeGroup = .ok parts') (hpass' : r.Passes parts'.flatten end₂) :
    groups.map Group.elements = groups'.map Group.elements := by
  induction groups generalizing groups' r parts parts' with
  | nil =>
    rw [List.length_eq_zero_iff.1 hlength.symm]
  | cons g groups ih =>
    cases groups' with
    | nil => cases hlength
    | cons g' groups' =>
      obtain ⟨r₁, hg, rest, hrest, hpass⟩ := mapM_cons_flatten_iff.1 ⟨parts, h, hpass⟩
      obtain ⟨r₂, hg', rest', hrest', hpass'⟩ := mapM_cons_flatten_iff.1 ⟨parts', h', hpass'⟩
      obtain ⟨count, s, hcount, hread⟩ := readGroup_eq_ok_iff.2 hg
      obtain ⟨count', s', hcount', hread'⟩ := readGroup_eq_ok_iff.2 hg'
      -- The reader is the same, so what is read from it is: the count first, then the elements.
      rw [hcount] at hcount'
      cases hcount'
      rw [hread] at hread'
      obtain ⟨helements, rfl⟩ := Prod.mk.inj (Except.ok.inj hread')
      rw [List.map_cons, List.map_cons, helements,
        ih (Nat.succ.inj hlength) hrest hpass hrest' hpass']

namespace Artifact

variable {a a' : Artifact} {more : Bytes}

theorem encode_eq_ok_iff :
    a.encode = .ok bytes ↔
      ∃ count, word 4 "group count" (a.groups.length : Int) = .ok count ∧
        ∃ parts, a.groups.mapM encodeGroup = .ok parts ∧ count ++ parts.flatten = bytes := by
  simp only [encode, bind_eq_ok_iff, pure_eq_ok_iff]

/-- An artifact is read from the bytes that it is written as, and from no others. -/
theorem decode_eq_ok_iff :
    decode data = .ok a ↔ a.groups.map Group.name = groupNames ∧ a.encode = .ok data := by
  simp only [decode, bind_eq_ok_iff, Prod.exists, number_eq_ok_iff_word "group count",
    encode_eq_ok_iff]
  constructor
  · rintro ⟨n, r₁, ⟨count, hcount, hpass⟩, h⟩
    split at h
    · cases h
    · next hn =>
      simp only [bind_eq_ok_iff, Prod.exists, pure_eq_ok_iff, readGroups_eq_ok_iff,
        expectEnd_eq_ok_iff] at h
      obtain ⟨groups, r₂, ⟨hnames, parts, hparts, hpass'⟩, _, hend, rfl⟩ := h
      have hlength : groups.length = n := by
        rw [← List.length_map Group.name, hnames]
        exact (not_not.1 hn).symm
      refine ⟨hnames, count, by rwa [hlength], parts, hparts, ?_⟩
      exact passes_to_end_iff.1 ⟨r₂, hpass.trans hpass', hend⟩
  · obtain ⟨groups⟩ := a
    rintro ⟨hnames, count, hcount, parts, hparts, rfl⟩
    obtain ⟨r₂, hpass, hend⟩ := passes_to_end_iff.2 (rfl : count ++ parts.flatten = _)
    obtain ⟨r₁, hpass, hpass'⟩ := passes_append_iff.1 hpass
    refine ⟨groups.length, r₁, ⟨count, hcount, hpass⟩, ?_⟩
    have hlength : ¬groups.length ≠ groupNames.length := by
      rw [← hnames, List.length_map]
      exact not_not.2 rfl
    rw [if_neg hlength]
    simp only [bind_eq_ok_iff, Prod.exists, pure_eq_ok_iff, readGroups_eq_ok_iff,
      expectEnd_eq_ok_iff]
    exact ⟨groups, r₂, ⟨hnames, parts, hparts, hpass'⟩, (), hend, rfl⟩

/-- Nothing may follow the bytes of an artifact. -/
theorem decode_append (h : decode data = .ok a) (hmore : more ≠ []) :
    decode (data ++ more) = .error (.trailing more.length) := by
  obtain ⟨hnames, hdata⟩ := decode_eq_ok_iff.1 h
  obtain ⟨count, hcount, parts, hparts, rfl⟩ := encode_eq_ok_iff.1 hdata
  obtain ⟨r₁, hpass, hpass'⟩ :=
    passes_append_iff.1 (passes_ofBytes_append (count ++ parts.flatten) more)
  have hnumber := (number_eq_ok_iff_word "group count").2 ⟨count, hcount, hpass⟩
  have hgroups := readGroups_eq_ok_iff.2 ⟨hnames, parts, hparts, hpass'⟩
  have hlength : ¬a.groups.length ≠ groupNames.length := by
    rw [← hnames, List.length_map]
    exact not_not.2 rfl
  refine bind_eq_error_iff.2 (.inr ⟨_, hnumber, ?_⟩)
  dsimp only
  rw [if_neg hlength]
  refine bind_eq_error_iff.2 (.inr ⟨_, hgroups, ?_⟩)
  exact bind_eq_error_iff.2 (.inl (expectEnd_of_ne_nil hmore))

/-- The elements of the groups can be told from the bytes, whatever the groups are called. -/
theorem elements_eq_of_encode (h : a.encode = .ok data) (h' : a'.encode = .ok data) :
    a.groups.map Group.elements = a'.groups.map Group.elements := by
  obtain ⟨count, hcount, parts, hparts, hdata⟩ := encode_eq_ok_iff.1 h
  obtain ⟨count', hcount', parts', hparts', hdata'⟩ := encode_eq_ok_iff.1 h'
  obtain ⟨r, hpass, -⟩ := passes_to_end_iff.2 hdata
  obtain ⟨r', hpass', -⟩ := passes_to_end_iff.2 hdata'
  obtain ⟨r₁, hpass, hrest⟩ := passes_append_iff.1 hpass
  obtain ⟨r₁', hpass', hrest'⟩ := passes_append_iff.1 hpass'
  have hnumber := (number_eq_ok_iff_word "group count").2 ⟨count, hcount, hpass⟩
  have hnumber' := (number_eq_ok_iff_word "group count").2 ⟨count', hcount', hpass'⟩
  rw [hnumber] at hnumber'
  obtain ⟨hlength, rfl⟩ := Prod.mk.inj (Except.ok.inj hnumber')
  exact elements_eq_of_passes hlength hparts hrest hparts' hrest'

/-- An artifact is made of the names and the elements of its groups. -/
theorem eq_of_map_eq (hnames : a.groups.map Group.name = a'.groups.map Group.name)
    (helements : a.groups.map Group.elements = a'.groups.map Group.elements) : a = a' := by
  have hgroups : ∀ groups : List Group,
      List.zipWith Group.mk (groups.map Group.name) (groups.map Group.elements) = groups := by
    intro groups
    induction groups with
    | nil => rfl
    | cons g groups ih => rw [List.map_cons, List.map_cons, List.zipWith_cons_cons, ih]
  obtain ⟨groups⟩ := a
  obtain ⟨groups'⟩ := a'
  rw [← hgroups groups, ← hgroups groups', hnames, helements]

/-- Writing and reading undo each other: an artifact with the expected groups is read back from its
bytes, and what is read from some bytes is written as them. So nothing is read from a part or an
extension of bytes from which an artifact is read, and artifacts of the same bytes have the same
elements, and are the same if their groups are called the same. -/
theorem framing_bijective :
    (∀ a data, a.groups.map Group.name = groupNames → a.encode = .ok data → decode data = .ok a) ∧
      (∀ a data, decode data = .ok a →
        a.groups.map Group.name = groupNames ∧ a.encode = .ok data) ∧
      (∀ a data more, decode data = .ok a → more ≠ [] →
        decode (data ++ more) = .error (.trailing more.length)) ∧
      (∀ a data more, decode (data ++ more) = .ok a → more ≠ [] → ∃ e, decode data = .error e) ∧
      ∀ (a a' : Artifact) (data : Bytes), a.encode = .ok data → a'.encode = .ok data →
        a.groups.map Group.elements = a'.groups.map Group.elements ∧
          (a.groups.map Group.name = a'.groups.map Group.name → a = a') := by
  refine ⟨fun a data hnames h => decode_eq_ok_iff.2 ⟨hnames, h⟩, fun a data => decode_eq_ok_iff.1,
    fun a data more => decode_append, fun a data more h hmore => ?_, fun a a' data h h' => ?_⟩
  · cases hdata : decode data with
    | error e => exact ⟨e, rfl⟩
    | ok a' =>
      rw [decode_append hdata hmore] at h
      cases h
  · have helements := elements_eq_of_encode h h'
    exact ⟨helements, fun hnames => eq_of_map_eq hnames helements⟩

/-- An artifact with an element that looks like framing and an element without bytes. -/
def nested : Artifact :=
  ⟨groupNames.zipWith Group.mk ([[11, 0, 0, 0], []] :: List.replicate 10 [])⟩

/-- Its groups under another name. -/
def nestedRenamed : Artifact := ⟨nested.groups.map fun g => { g with name := "group" }⟩

/-- Their bytes. -/
def nestedBytes : Bytes :=
  [11, 0, 0, 0] ++ [2, 0, 0, 0, 4, 0, 0, 0, 11, 0, 0, 0, 0, 0, 0, 0] ++ List.replicate 40 0

theorem framing_bijective_nested :
    nested.encode = .ok nestedBytes ∧ nestedRenamed.encode = .ok nestedBytes ∧
      decode nestedBytes = .ok nested ∧ decode (nestedBytes ++ [0]) = .error (.trailing 1) ∧
      (∃ e, decode nestedBytes.dropLast = .error e) ∧
      nestedRenamed.groups.map Group.elements = nested.groups.map Group.elements := by
  obtain ⟨hread, -, hextended, hcut, hsame⟩ := framing_bijective
  have hnested : nested.encode = .ok nestedBytes := by decide +kernel
  have hrenamed : nestedRenamed.encode = .ok nestedBytes := by decide +kernel
  have hdecode : decode nestedBytes = .ok nested := hread nested nestedBytes rfl hnested
  have hlast : nestedBytes.dropLast ++ [0] = nestedBytes := by decide
  refine ⟨hnested, hrenamed, hdecode, ?_, ?_, ?_⟩
  · exact hextended nested nestedBytes [0] hdecode (by decide)
  · exact hcut nested nestedBytes.dropLast [0] (hlast ▸ hdecode) (by decide)
  · exact (hsame nestedRenamed nested nestedBytes hrenamed hnested).1

end Artifact

end Plonkish.Wire
