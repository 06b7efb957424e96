import Plonkish.Proofs.Wire.Outline
import Plonkish.Proofs.Wire.Width

/-!
# Round trips of outlines

From an outline to its artifact and back nothing but names is lost exactly if the outline is
recoverable. From bytes to an outline and back nothing changes exactly if the bytes were written at
the widths that writing chooses.

* `Outline.decode_encode_iff`: outlines that come back.
* `Outline.encode_decode_iff`: bytes that come back.
-/

namespace Plonkish

open Wire Outcome

variable {o : Outline} {query pool : Width} {size : Int} {a : Artifact}

/-! ## Chosen widths -/

/-- The elements of the first group with a name; none if there is no such group. -/
def Wire.Artifact.elements (a : Artifact) (name : Text) : List Bytes :=
  match a.group name with
  | .ok g => g.elements
  | .error _ => []

/-- The flags of the widths are the ones that are chosen for the lists of queries and for the table
of constants: one byte exactly if the lists are short. -/
structure Wire.Artifact.HasChosenWidths (a : Artifact) : Prop where
  query : (a.elements "General Info")[10]? = some [Width.u8.flag] ↔
    (a.elements "Advice Queries").length ≤ 255 ∧ (a.elements "Instance Queries").length ≤ 255 ∧
      (a.elements "Fixed Queries").length ≤ 255
  pool : (a.elements "General Info")[11]? = some [Width.u8.flag] ↔
    (a.elements "Fields Pool").length ≤ 255

namespace Outline

/-- The flags of an artifact tell the widths that it was written at. -/
theorem flags_of_encodeAt (h : o.encodeAt query pool = .ok a) :
    (a.elements "General Info")[10]? = some [query.flag] ∧
      (a.elements "General Info")[11]? = some [pool.flag] := by
  obtain ⟨c, hc, rfl⟩ := encodeAt_eq_ok_iff.1 h
  have hinfo := hc.info
  simp only [generalInfo, bind_eq_ok_iff, pure_eq_ok_iff] at hinfo
  obtain ⟨_, -, _, -, _, -, _, -, _, -, _, -, _, -, hinfo⟩ := hinfo
  show c.info[10]? = _ ∧ c.info[11]? = _
  rw [← hinfo]
  exact ⟨rfl, rfl⟩

/-- The lists of an outline and of its artifact have the same lengths. -/
theorem lengths_of_encodeAt (h : o.encodeAt query pool = .ok a) :
    (a.elements "Advice Queries").length = o.adviceQueries.length ∧
      (a.elements "Instance Queries").length = o.instQueries.length ∧
      (a.elements "Fixed Queries").length = o.fixedQueries.length ∧
      (a.elements "Fields Pool").length = o.constants.length := by
  obtain ⟨c, hc, rfl⟩ := encodeAt_eq_ok_iff.1 h
  exact ⟨(length_of_mapM hc.adviceQueries).symm, (length_of_mapM hc.instQueries).symm,
    (length_of_mapM hc.fixedQueries).symm, congrArg List.length hc.constants.symm⟩

theorem hasChosenWidths_iff (h : o.encodeAt query pool = .ok a) :
    a.HasChosenWidths ↔
      (query = .u8 ↔ ∀ n ∈ [o.adviceQueries.length, o.fixedQueries.length, o.instQueries.length],
        n ≤ 255) ∧ (pool = .u8 ↔ ∀ n ∈ [o.constants.length], n ≤ 255) := by
  obtain ⟨hquery, hpool⟩ := flags_of_encodeAt h
  obtain ⟨hadvice, hinst, hfixed, hconstants⟩ := lengths_of_encodeAt h
  have hflag : ∀ w : Width, some [w.flag] = some [Width.u8.flag] ↔ w = .u8 := by
    intro w
    cases w <;> decide
  have hlists : (∀ n ∈ [o.adviceQueries.length, o.fixedQueries.length, o.instQueries.length],
      n ≤ 255) ↔ o.adviceQueries.length ≤ 255 ∧ o.instQueries.length ≤ 255 ∧
        o.fixedQueries.length ≤ 255 := by
    simp only [List.forall_mem_cons, List.not_mem_nil, false_implies, implies_true]
    tauto
  have hlist : (∀ n ∈ [o.constants.length], n ≤ 255) ↔ o.constants.length ≤ 255 := by simp
  rw [hlists, hlist, ← hflag query, ← hflag pool, ← hquery, ← hpool, ← hadvice, ← hinst, ← hfixed,
    ← hconstants]
  exact ⟨fun ⟨hq, hp⟩ => ⟨hq, hp⟩, fun ⟨hq, hp⟩ => ⟨hq, hp⟩⟩

/-! ## From an outline and back -/

/-- The artifact of an outline, read without a detour over bytes: an outline comes back without its
names exactly if what is not written of it can be told from what is. Otherwise reading finds the
artifact malformed or gives another outline. -/
theorem decode_encode_iff (h : o.encode = .ok a) (hsize : 1 ≤ size) :
    (decode size a = .ok o.anonymous ↔ o.IsRecoverable size) ∧
      (¬o.IsRecoverable size →
        (∃ e, decode size a = .error e ∧ e.IsMalformed) ∨
          ∃ o', decode size a = .ok o' ∧ o' ≠ o.anonymous) := by
  obtain ⟨query, pool, -, -, hat⟩ := encode_eq_ok_iff.1 h
  have hnames := names_of_encodeAt hat
  have hiff : decode size a = .ok o.anonymous ↔ o.IsRecoverable size := by
    rw [decode_eq_ok_iff hnames hsize, isRecoverable_anonymous_iff]
    constructor
    · rintro ⟨-, hrecoverable, -⟩
      exact hrecoverable
    · intro hrecoverable
      exact ⟨⟨query, pool, encodeAt_anonymous.trans hat⟩, hrecoverable, isAnonymous_anonymous o⟩
  refine ⟨hiff, fun hnot => ?_⟩
  cases hread : decode size a with
  | error e => exact .inl ⟨e, rfl, decode_failsOnly hnames (by omega) e hread⟩
  | ok o' =>
    refine .inr ⟨o', rfl, ?_⟩
    rintro rfl
    exact hnot (hiff.1 hread)

/-- An outline with one advice column, whose values must double to zero. -/
def doubled : Outline where
  k := 4
  degree := 1
  fixedCount := 0
  instCount := 0
  advicePhases := [1]
  challengePhases := []
  maxQueries := 1
  adviceQueries := [⟨⟨.advice, 0, 1⟩, ⟨0, true⟩⟩]
  instQueries := []
  fixedQueries := []
  permutation := []
  constants := [Scalar.toBytes 2]
  gates := [⟨.str (.ofString "double"), [.scaled (.var .advice 0) 0]⟩]
  lookups := []
  shuffles := []
  transcript := []
  fixedCommitments := [[7], [8]]
  permutationCommitments := []

/-- The elements of its artifact. -/
def doubledContents : Contents where
  info := [[], [7, 8], [], [4], [1, 0, 0, 0], [1, 0, 0, 0], [0, 0, 0, 0, 0, 0, 0, 0],
    [0, 0, 0, 0, 0, 0, 0, 0], [1], [], [0], [0]]
  adviceQueries := [[1, 0, 0, 0, 0, 1, 0, 0, 0, 0]]
  instQueries := []
  fixedQueries := []
  permutation := []
  constants := [Scalar.toBytes 2]
  gates := [[9, 3, 0, 0]]
  lookupInputs := []
  lookupTargets := []
  shuffleInputs := []
  shuffleTargets := []

theorem decode_encode_doubled :
    doubled.encode = .ok doubledContents.artifact ∧
      decode 1 doubledContents.artifact = .ok doubled.anonymous := by
  have h : doubled.encode = .ok doubledContents.artifact := by decide +kernel
  exact ⟨h, (decode_encode_iff h (by decide)).1.2 (by decide)⟩

/-! ## From bytes and back -/

variable {data : Bytes}

/-- Every list of an artifact that has bytes can be indexed by words. -/
theorem length_le_maxCount {name : Text} (h : a.encode = .ok data) :
    (a.elements name).length ≤ Width.maxCount := by
  obtain ⟨count, -, parts, hparts, -⟩ := Artifact.encode_eq_ok_iff.1 h
  have hgroup := exists_mapM_eq_ok_iff.1 ⟨parts, hparts⟩
  unfold Artifact.elements Artifact.group
  split
  · next g hg =>
    split at hg
    · next g' hfind =>
      cases hg
      obtain ⟨bytes, hbytes⟩ := hgroup g (List.mem_of_find?_eq_some hfind)
      obtain ⟨size, hsize, -⟩ := encodeGroup_eq_ok_iff.1 hbytes
      obtain ⟨n, hn, hlt, -⟩ := word_eq_ok_iff_exists.1 hsize
      rw [Int.natCast_inj.1 hn]
      exact Nat.le_of_lt hlt
    · cases hg
  · exact Nat.zero_le _

/-- An artifact that has bytes is the one of an outline exactly if it has the chosen widths. -/
theorem encode_eq_ok_iff_hasChosenWidths (ha : a.encode = .ok data)
    (h : o.encodeAt query pool = .ok a) : o.encode = .ok a ↔ a.HasChosenWidths := by
  obtain ⟨hadvice, hinst, hfixed, hconstants⟩ := lengths_of_encodeAt h
  have hlists : ∀ n ∈ [o.adviceQueries.length, o.fixedQueries.length, o.instQueries.length],
      n ≤ Width.maxCount := by
    simp only [List.forall_mem_cons, List.not_mem_nil, false_implies, implies_true, and_true]
    rw [← hadvice, ← hfixed, ← hinst]
    exact ⟨length_le_maxCount ha, length_le_maxCount ha, length_le_maxCount ha⟩
  have hlist : ∀ n ∈ [o.constants.length], n ≤ Width.maxCount := by
    rw [← hconstants]
    exact List.forall_mem_singleton.2 (length_le_maxCount ha)
  have hwidths : a.HasChosenWidths ↔ o.queryWidth = .ok query ∧ o.poolWidth = .ok pool := by
    rw [hasChosenWidths_iff h, queryWidth, poolWidth, Width.forQueries, Width.forConstants,
      Width.select_eq_ok_iff, Width.select_eq_ok_iff]
    exact ⟨fun ⟨hq, hp⟩ => ⟨⟨hlists, hq⟩, hlist, hp⟩, fun ⟨⟨_, hq⟩, _, hp⟩ => ⟨hq, hp⟩⟩
  rw [hwidths, encode_eq_ok_iff]
  constructor
  · rintro ⟨query', pool', hquery, hpool, h'⟩
    obtain ⟨hqueryFlag, hpoolFlag⟩ := flags_of_encodeAt h
    obtain ⟨hqueryFlag', hpoolFlag'⟩ := flags_of_encodeAt h'
    rw [hqueryFlag] at hqueryFlag'
    rw [hpoolFlag] at hpoolFlag'
    rw [Width.flag_injective (List.head_eq_of_cons_eq (Option.some.inj hqueryFlag')),
      Width.flag_injective (List.head_eq_of_cons_eq (Option.some.inj hpoolFlag'))]
    exact ⟨hquery, hpool⟩
  · rintro ⟨hquery, hpool⟩
    exact ⟨query, pool, hquery, hpool, h⟩

/-- Bytes that are read as an outline are its bytes exactly if they have the chosen widths. With
other widths they spell the outline in another way than writing does, if writing does at all. -/
theorem encode_decode_iff (ha : Artifact.decode data = .ok a) (hsize : 1 ≤ size)
    (ho : decode size a = .ok o) :
    ((∃ a', o.encode = .ok a' ∧ a'.encode = .ok data) ↔ a.HasChosenWidths) ∧
      (¬a.HasChosenWidths →
        (∃ overflow, o.encode = .error (.overflow overflow)) ∨
          ∃ a', o.encode = .ok a' ∧ a' ≠ a ∧ decode size a' = .ok o) := by
  obtain ⟨hnames, hdata⟩ := Artifact.decode_eq_ok_iff.1 ha
  obtain ⟨⟨query, pool, hat⟩, hrecoverable, hanonymous⟩ := (decode_eq_ok_iff hnames hsize).1 ho
  have hiff := encode_eq_ok_iff_hasChosenWidths hdata hat
  constructor
  · rw [← hiff]
    constructor
    · rintro ⟨a', ha', hdata'⟩
      obtain ⟨query', pool', -, -, hat'⟩ := encode_eq_ok_iff.1 ha'
      have hread := Artifact.decode_eq_ok_iff.2 ⟨names_of_encodeAt hat', hdata'⟩
      rw [ha] at hread
      rwa [Except.ok.inj hread]
    · intro ha'
      exact ⟨a, ha', hdata⟩
  · intro hnot
    cases hwrite : o.encode with
    | error e =>
      obtain ⟨overflow, rfl⟩ := encode_failsOnly e hwrite
      exact .inl ⟨overflow, rfl⟩
    | ok a' =>
      obtain ⟨query', pool', -, -, hat'⟩ := encode_eq_ok_iff.1 hwrite
      refine .inr ⟨a', rfl, ?_, ?_⟩
      · rintro rfl
        exact hnot (hiff.1 hwrite)
      · rw [decode_eq_ok_iff (names_of_encodeAt hat') hsize]
        exact ⟨⟨query', pool', hat'⟩, hrecoverable, hanonymous⟩

/-- The bytes of its artifact. -/
def doubledBytes : Bytes :=
  [11, 0, 0, 0] ++
  [12, 0, 0, 0, 0, 0, 0, 0, 2, 0, 0, 0, 7, 8, 0, 0, 0, 0, 1, 0, 0, 0, 4, 4, 0, 0, 0, 1, 0, 0, 0] ++
  [4, 0, 0, 0, 1, 0, 0, 0, 8, 0, 0, 0] ++ Bytes.ofNat 8 0 ++ [8, 0, 0, 0] ++ Bytes.ofNat 8 0 ++
  [1, 0, 0, 0, 1, 0, 0, 0, 0, 1, 0, 0, 0, 0, 1, 0, 0, 0, 0] ++
  [1, 0, 0, 0, 10, 0, 0, 0, 1, 0, 0, 0, 0, 1, 0, 0, 0, 0] ++
  [0, 0, 0, 0] ++ [0, 0, 0, 0] ++ [0, 0, 0, 0] ++
  [1, 0, 0, 0, 32, 0, 0, 0] ++ Scalar.toBytes 2 ++
  [1, 0, 0, 0, 4, 0, 0, 0, 9, 3, 0, 0] ++
  [0, 0, 0, 0] ++ [0, 0, 0, 0] ++ [0, 0, 0, 0] ++ [0, 0, 0, 0]

theorem encode_decode_doubled :
    Artifact.decode doubledBytes = .ok doubledContents.artifact ∧
      decode 1 doubledContents.artifact = .ok doubled.anonymous ∧
      ∃ a, doubled.anonymous.encode = .ok a ∧ a.encode = .ok doubledBytes := by
  have ha : Artifact.decode doubledBytes = .ok doubledContents.artifact :=
    Artifact.decode_eq_ok_iff.2 ⟨rfl, by decide +kernel⟩
  have ho : decode 1 doubledContents.artifact = .ok doubled.anonymous :=
    (decode_eq_ok_iff rfl (by decide)).2
      ⟨⟨.u8, .u8, by decide +kernel⟩, by decide, isAnonymous_anonymous doubled⟩
  exact ⟨ha, ho, (encode_decode_iff ha (by decide) ho).1.2 ⟨by decide, by decide⟩⟩

end Outline

end Plonkish
