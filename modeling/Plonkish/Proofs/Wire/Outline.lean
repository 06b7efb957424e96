import Plonkish.Proofs.Scalar.Canonical
import Plonkish.Proofs.Wire.Artifact
import Plonkish.Proofs.Wire.Column
import Plonkish.Proofs.Wire.Expression
import Plonkish.Proofs.Wire.Failure
import Plonkish.Proofs.Wire.GeneralInfo

/-!
# The codec of outlines

An artifact does not hold the names and phases of an outline, nor where its commitments end.
Reading recovers the phases from the list of advice phases and the ends from the size of a
commitment, so an outline is read back if both are as expected.

* `Outline.IsRecoverable`: what is not written can be told from what is.
* `Wire.Contents`: the elements of an artifact, by what they hold.
* `Outline.decode_eq_ok_iff`: an outline is read from an artifact exactly if it is recoverable and
  anonymous, and is written as that artifact at some widths.
* `Outline.decode_failsOnly`: otherwise the artifact is malformed.
* `Wire.read_or_malformed`: reading arbitrary bytes.
-/

namespace Plonkish

open Wire Outcome

namespace Outline

/-- The columns that are written: those of the queries and those under the permutation argument. -/
def columns (o : Outline) : List Column :=
  (o.adviceQueries ++ o.instQueries ++ o.fixedQueries).map Query.column ++ o.permutation

/-- What is not written can be told from what is: phases from the list of advice phases, and the
ends of commitments from their size. The table of constants holds canonical forms only. -/
structure IsRecoverable (size : Int) (o : Outline) : Prop where
  phases : ∀ c ∈ o.columns, c.HasPhaseIn o.advicePhases
  commitments : ∀ b ∈ o.fixedCommitments ++ o.permutationCommitments, (b.length : Int) = size
  constants : ∀ b ∈ o.constants, Scalar.IsCanonical b

instance (size : Int) (o : Outline) : Decidable (o.IsRecoverable size) :=
  decidable_of_iff ((∀ c ∈ o.columns, c.HasPhaseIn o.advicePhases) ∧
      (∀ b ∈ o.fixedCommitments ++ o.permutationCommitments, (b.length : Int) = size) ∧
        ∀ b ∈ o.constants, Scalar.IsCanonical b)
    ⟨fun ⟨hphases, hsizes, hconstants⟩ => ⟨hphases, hsizes, hconstants⟩,
      fun ⟨hphases, hsizes, hconstants⟩ => ⟨hphases, hsizes, hconstants⟩⟩

/-- The name of a gate or an argument that was read. -/
def noName : Json := .str (.ofString "")

/-- No gate or argument has a name. -/
structure IsAnonymous (o : Outline) : Prop where
  gates : ∀ g ∈ o.gates, g.name = noName
  lookups : ∀ a ∈ o.lookups, a.name = noName
  shuffles : ∀ a ∈ o.shuffles, a.name = noName

theorem isAnonymous_anonymous (o : Outline) : o.anonymous.IsAnonymous := by
  constructor <;> simp [anonymous, noName]

end Outline

namespace Wire

/-- The elements of the groups of an artifact. -/
structure Contents where
  info : List Bytes
  adviceQueries : List Bytes
  instQueries : List Bytes
  fixedQueries : List Bytes
  permutation : List Bytes
  constants : List Bytes
  gates : List Bytes
  lookupInputs : List Bytes
  lookupTargets : List Bytes
  shuffleInputs : List Bytes
  shuffleTargets : List Bytes

/-- The artifact with the given elements. -/
def Contents.artifact (c : Contents) : Artifact :=
  ⟨groupNames.zipWith Group.mk [c.info, c.adviceQueries, c.instQueries, c.fixedQueries,
    c.permutation, c.constants, c.gates, c.lookupInputs, c.lookupTargets, c.shuffleInputs,
    c.shuffleTargets]⟩

theorem Contents.names_artifact (c : Contents) :
    c.artifact.groups.map Group.name = groupNames := rfl

theorem exists_contents_of_names {a : Artifact} (h : a.groups.map Group.name = groupNames) :
    ∃ c : Contents, a = c.artifact := by
  obtain ⟨groups⟩ := a
  have hlength : groups.length = 11 := by
    rw [← List.length_map Group.name, h]
    rfl
  match groups, hlength with
  | [g0, g1, g2, g3, g4, g5, g6, g7, g8, g9, g10], _ =>
    simp only [groupNames, List.map_cons, List.cons.injEq] at h
    obtain ⟨h0, h1, h2, h3, h4, h5, h6, h7, h8, h9, h10, -⟩ := h
    refine ⟨⟨g0.elements, g1.elements, g2.elements, g3.elements, g4.elements, g5.elements,
      g6.elements, g7.elements, g8.elements, g9.elements, g10.elements⟩, ?_⟩
    simp only [Contents.artifact, groupNames, List.zipWith_cons_cons, List.zipWith_nil_left, ← h0,
      ← h1, ← h2, ← h3, ← h4, ← h5, ← h6, ← h7, ← h8, ← h9, ← h10]

theorem Contents.artifact_injective {c c' : Contents} (h : c.artifact = c'.artifact) : c = c' := by
  cases c
  cases c'
  cases h
  rfl

/-- The elements are those that an outline is written as at given widths. -/
structure Contents.Spells (c : Contents) (o : Outline) (query pool : Width) : Prop where
  info : o.generalInfo query pool = .ok c.info
  adviceQueries : o.adviceQueries.mapM encodeQuery = .ok c.adviceQueries
  instQueries : o.instQueries.mapM encodeQuery = .ok c.instQueries
  fixedQueries : o.fixedQueries.mapM encodeQuery = .ok c.fixedQueries
  permutation : o.permutation.mapM encodeColumn = .ok c.permutation
  constants : o.constants = c.constants
  gates : o.gates.mapM (fun g => encodeExprs query pool g.polys) = .ok c.gates
  lookupInputs : o.lookups.mapM (fun a => encodeExprs query pool a.inputs) = .ok c.lookupInputs
  lookupTargets : o.lookups.mapM (fun a => encodeExprs query pool a.targets) = .ok c.lookupTargets
  shuffleInputs : o.shuffles.mapM (fun a => encodeExprs query pool a.inputs) = .ok c.shuffleInputs
  shuffleTargets :
    o.shuffles.mapM (fun a => encodeExprs query pool a.targets) = .ok c.shuffleTargets

end Wire

namespace Outline

variable {o : Outline} {query pool : Width} {size : Int} {c : Contents} {a : Artifact}

/-! ## Writing -/

theorem encodeAt_eq_ok_iff :
    o.encodeAt query pool = .ok a ↔ ∃ c : Contents, c.Spells o query pool ∧ c.artifact = a := by
  simp only [encodeAt, bind_eq_ok_iff, pure_eq_ok_iff]
  constructor
  · rintro ⟨info, hinfo, advice, hadvice, inst, hinst, fixed, hfixed, permutation, hpermutation,
      gates, hgates, lookupInputs, hlookupInputs, lookupTargets, hlookupTargets, shuffleInputs,
      hshuffleInputs, shuffleTargets, hshuffleTargets, rfl⟩
    exact ⟨⟨info, advice, inst, fixed, permutation, o.constants, gates, lookupInputs,
      lookupTargets, shuffleInputs, shuffleTargets⟩, ⟨hinfo, hadvice, hinst, hfixed, hpermutation,
      rfl, hgates, hlookupInputs, hlookupTargets, hshuffleInputs, hshuffleTargets⟩, rfl⟩
  · rintro ⟨c, h, rfl⟩
    refine ⟨_, h.info, _, h.adviceQueries, _, h.instQueries, _, h.fixedQueries, _, h.permutation, _,
      h.gates, _, h.lookupInputs, _, h.lookupTargets, _, h.shuffleInputs, _, h.shuffleTargets, ?_⟩
    rw [h.constants]
    rfl

theorem encode_eq_ok_iff :
    o.encode = .ok a ↔
      ∃ query pool, o.queryWidth = .ok query ∧ o.poolWidth = .ok pool ∧
        o.encodeAt query pool = .ok a := by
  simp only [encode, bind_eq_ok_iff]
  constructor
  · rintro ⟨pool, hpool, query, hquery, h⟩
    exact ⟨query, pool, hquery, hpool, h⟩
  · rintro ⟨query, pool, hquery, hpool, h⟩
    exact ⟨pool, hpool, query, hquery, h⟩

/-- What is written of an outline does not hold names. -/
theorem encodeAt_anonymous : o.anonymous.encodeAt query pool = o.encodeAt query pool := by
  simp only [encodeAt, anonymous, List.mapM_map]
  rfl

/-! ## Commitments -/

section Chunks

variable {n : Nat} {blob : Bytes} {pieces : List Bytes}

theorem flatten_chunks (n : Nat) (blob : Bytes) : (chunks n blob).flatten = blob := by
  fun_induction chunks n blob with
  | case1 => rfl
  | case2 b blob ih => rw [List.flatten_cons, ih, List.cons_append, List.take_append_drop]

theorem length_of_mem_chunks {piece : Bytes} (hdvd : n + 1 ∣ blob.length)
    (h : piece ∈ chunks n blob) : piece.length = n + 1 := by
  fun_induction chunks n blob with
  | case1 => cases h
  | case2 b blob ih =>
    obtain ⟨m, hm⟩ := hdvd
    rw [List.length_cons] at hm
    cases m with
    | zero => omega
    | succ m =>
      rw [Nat.mul_succ] at hm
      rcases List.mem_cons.1 h with rfl | h
      · rw [List.length_cons, List.length_take]
        omega
      · refine ih ⟨m, ?_⟩ h
        rw [List.length_drop]
        omega

theorem chunks_flatten (h : ∀ piece ∈ pieces, piece.length = n + 1) :
    chunks n pieces.flatten = pieces := by
  induction pieces with
  | nil => rw [List.flatten_nil, chunks]
  | cons piece pieces ih =>
    obtain ⟨hpiece, hpieces⟩ := List.forall_mem_cons.1 h
    cases piece with
    | nil => cases hpiece
    | cons b piece =>
      have hlength : piece.length = n := Nat.succ.inj hpiece
      rw [List.flatten_cons, List.cons_append, chunks, List.take_left' hlength,
        List.drop_left' hlength, ih hpieces]

/-- Commitments are cut where they were joined if each has the given size. -/
theorem splitCommitments_eq_ok_iff {what : String} (hsize : 1 ≤ size) :
    splitCommitments what size blob = .ok pieces ↔
      pieces.flatten = blob ∧ ∀ piece ∈ pieces, (piece.length : Int) = size := by
  obtain ⟨n, rfl⟩ : ∃ n : Nat, size = Int.ofNat (n + 1) := ⟨(size - 1).toNat, by grind⟩
  have hzero : Int.ofNat (n + 1) ≠ 0 := by
    rintro ⟨⟩
  have hdvd : (blob.length : Int) % Int.ofNat (n + 1) = 0 ↔ n + 1 ∣ blob.length := by
    rw [← Int.natCast_dvd_natCast, Int.dvd_iff_emod_eq_zero]
    rfl
  simp only [splitCommitments, if_neg hzero, ite_not, hdvd]
  constructor
  · intro h
    split at h
    · next hdvd =>
      cases h
      refine ⟨flatten_chunks n blob, fun piece hpiece => ?_⟩
      exact congrArg Int.ofNat (length_of_mem_chunks hdvd hpiece)
    · cases h
  · rintro ⟨rfl, hlengths⟩
    have hlengths : ∀ piece ∈ pieces, piece.length = n + 1 :=
      fun piece hpiece => Int.ofNat.inj (hlengths piece hpiece)
    have hblob : n + 1 ∣ pieces.flatten.length := by
      refine ⟨pieces.length, ?_⟩
      rw [List.length_flatten, List.map_congr_left hlengths, List.map_const', List.sum_replicate_nat,
        Nat.mul_comm]
    rw [if_pos hblob, chunks_flatten hlengths]

end Chunks

/-! ## Reading -/

theorem mapM_constants_iff {constants : List Bytes} :
    (∃ xs, constants.mapM (fun entry => (Scalar.ofBytes entry).mapError WireError.constant) =
        .ok xs) ↔ ∀ b ∈ constants, Scalar.IsCanonical b := by
  simp only [exists_mapM_eq_ok_iff, mapError_eq_ok_iff, Scalar.isCanonical_iff]

theorem mapM_gates_iff {data : List Bytes} {gates : List (Gate Ir)} :
    data.mapM (fun e => do
        let polys ← decodeExprs query pool e
        return (⟨noName, polys⟩ : Gate Ir)) = .ok gates ↔
      gates.mapM (fun g => encodeExprs query pool g.polys) = .ok data ∧
        ∀ g ∈ gates, g.name = noName := by
  refine mapM_eq_ok_iff_mapM fun g e => ?_
  simp only [bind_eq_ok_iff, pure_eq_ok_iff, decodeExprs_eq_ok_iff]
  constructor
  · rintro ⟨polys, h, rfl⟩
    exact ⟨h, rfl⟩
  · obtain ⟨name, polys⟩ := g
    rintro ⟨h, rfl⟩
    exact ⟨polys, h, rfl⟩

/-- Both sides of arguments are read back if neither has more than the other. -/
theorem decodeArguments_eq_ok_iff {inputs targets : List Bytes} {args : List (Argument Ir)} :
    (inputs.length = targets.length ∧
        decodeArguments (decodeExprs query pool) inputs targets = .ok args) ↔
      args.mapM (fun a => encodeExprs query pool a.inputs) = .ok inputs ∧
        args.mapM (fun a => encodeExprs query pool a.targets) = .ok targets ∧
          ∀ a ∈ args, a.name = noName := by
  have hmapM : decodeArguments (decodeExprs query pool) inputs targets = .ok args ↔
      args.mapM (fun a => do
        let inputs ← encodeExprs query pool a.inputs
        let targets ← encodeExprs query pool a.targets
        return (inputs, targets)) = .ok (inputs.zip targets) ∧ ∀ a ∈ args, a.name = noName := by
    refine mapM_eq_ok_iff_mapM fun a bytes => ?_
    simp only [bind_eq_ok_iff, pure_eq_ok_iff, decodeExprs_eq_ok_iff]
    constructor
    · rintro ⟨inputs, hinputs, targets, htargets, rfl⟩
      exact ⟨⟨_, hinputs, _, htargets, rfl⟩, rfl⟩
    · obtain ⟨name, inputs, targets⟩ := a
      rintro ⟨⟨_, hinputs, _, htargets, rfl⟩, rfl⟩
      exact ⟨inputs, hinputs, targets, htargets, rfl⟩
  rw [hmapM, mapM_pair_eq_ok_iff]
  constructor
  · rintro ⟨hlength, ⟨hinputs, htargets⟩, hnames⟩
    rw [List.map_fst_zip (Nat.le_of_eq hlength)] at hinputs
    rw [List.map_snd_zip (Nat.le_of_eq hlength.symm)] at htargets
    exact ⟨hinputs, htargets, hnames⟩
  · rintro ⟨hinputs, htargets, hnames⟩
    have hlength : inputs.length = targets.length :=
      (length_of_mapM hinputs).symm.trans (length_of_mapM htargets)
    rw [List.map_fst_zip (Nat.le_of_eq hlength), List.map_snd_zip (Nat.le_of_eq hlength.symm)]
    exact ⟨hlength, ⟨hinputs, htargets⟩, hnames⟩

theorem mapM_decodeQuery_iff {data : List Bytes} {phases : List Int} {qs : List Query} :
    data.mapM (decodeQuery (some phases)) = .ok qs ↔
      qs.mapM encodeQuery = .ok data ∧ ∀ q ∈ qs, q.column.HasPhaseIn phases :=
  mapM_eq_ok_iff_mapM fun _ _ => decodeQuery_eq_ok_iff

theorem mapM_decodeColumn_iff {data : List Bytes} {phases : List Int} {cs : List Column} :
    data.mapM (decodeColumn (some phases)) = .ok cs ↔
      cs.mapM encodeColumn = .ok data ∧ ∀ c ∈ cs, c.HasPhaseIn phases :=
  mapM_eq_ok_iff_mapM fun _ _ => decodeColumn_eq_ok_iff

/-- Reads an outline from the elements of the groups. -/
def read (size : Int) (c : Contents) : Except WireError Outline := do
  let info ← GeneralInfo.ofElements c.info
  let phases := some info.advicePhases
  let exprs := decodeExprs info.queryWidth info.poolWidth
  if c.lookupInputs.length ≠ c.lookupTargets.length ∨
      c.shuffleInputs.length ≠ c.shuffleTargets.length then
    .error .argumentCounts
  else
    let _ ← c.constants.mapM fun entry => (Scalar.ofBytes entry).mapError WireError.constant
    let adviceQueries ← c.adviceQueries.mapM (decodeQuery phases)
    let instQueries ← c.instQueries.mapM (decodeQuery phases)
    let fixedQueries ← c.fixedQueries.mapM (decodeQuery phases)
    let permutation ← c.permutation.mapM (decodeColumn phases)
    let gates ← c.gates.mapM fun e => do
      let polys ← exprs e
      return (⟨noName, polys⟩ : Gate Ir)
    let lookups ← decodeArguments exprs c.lookupInputs c.lookupTargets
    let shuffles ← decodeArguments exprs c.shuffleInputs c.shuffleTargets
    let fixed ← splitCommitments "Fixed commitments" size info.fixedCommitments
    let permuted ←
      splitCommitments "Permutation commitments" size info.permutationCommitments
    return {
      k := info.k
      degree := info.degree
      fixedCount := info.fixedCount
      instCount := info.instCount
      advicePhases := info.advicePhases
      challengePhases := info.challengePhases
      maxQueries := info.maxQueries
      adviceQueries, instQueries, fixedQueries, permutation, constants := c.constants
      gates, lookups, shuffles
      transcript := info.transcript
      fixedCommitments := fixed
      permutationCommitments := permuted }

theorem decode_artifact : decode size c.artifact = read size c := rfl

theorem read_eq_ok_iff (hsize : 1 ≤ size) :
    read size c = .ok o ↔
      (∃ query pool, c.Spells o query pool) ∧ o.IsRecoverable size ∧ o.IsAnonymous := by
  constructor
  · intro h
    simp only [read, bind_eq_ok_iff] at h
    obtain ⟨info, hinfo, h⟩ := h
    split at h
    · cases h
    · next hlengths =>
      rw [not_or, not_not, not_not] at hlengths
      simp only [bind_eq_ok_iff, pure_eq_ok_iff, mapM_decodeQuery_iff, mapM_decodeColumn_iff,
        mapM_gates_iff, splitCommitments_eq_ok_iff hsize] at h
      obtain ⟨_, hconstants, advice, ⟨hadvice, hadvicePhases⟩, inst, ⟨hinst, hinstPhases⟩, fixed,
        ⟨hfixed, hfixedPhases⟩, permutation, ⟨hpermutation, hphases⟩, gates, ⟨hgates, hgateNames⟩,
        lookups, hlookups, shuffles, hshuffles, fixedCommitments, ⟨hfixedFlat, hfixedSizes⟩,
        permuted, ⟨hpermutedFlat, hpermutedSizes⟩, rfl⟩ := h
      obtain ⟨hlookupInputs, hlookupTargets, hlookupNames⟩ :=
        decodeArguments_eq_ok_iff.1 ⟨hlengths.1, hlookups⟩
      obtain ⟨hshuffleInputs, hshuffleTargets, hshuffleNames⟩ :=
        decodeArguments_eq_ok_iff.1 ⟨hlengths.2, hshuffles⟩
      refine ⟨⟨info.queryWidth, info.poolWidth, ⟨?_, hadvice, hinst, hfixed, hpermutation, rfl,
        hgates, hlookupInputs, hlookupTargets, hshuffleInputs, hshuffleTargets⟩⟩, ⟨?_, ?_, ?_⟩,
        hgateNames, hlookupNames, hshuffleNames⟩
      · exact generalInfo_eq_ok_iff.2 ⟨info, hinfo, rfl, hfixedFlat, hpermutedFlat, rfl, rfl, rfl,
          rfl, rfl, rfl, rfl, rfl, rfl⟩
      · simp only [columns, List.map_append, List.forall_mem_append, List.forall_mem_map]
        exact ⟨⟨⟨hadvicePhases, hinstPhases⟩, hfixedPhases⟩, hphases⟩
      · exact List.forall_mem_append.2 ⟨hfixedSizes, hpermutedSizes⟩
      · exact mapM_constants_iff.1 ⟨_, hconstants⟩
  · rintro ⟨⟨query, pool, h⟩, ⟨hphases, hsizes, hconstants⟩, hgates, hlookups, hshuffles⟩
    obtain ⟨info, hinfo, hd⟩ := generalInfo_eq_ok_iff.1 h.info
    obtain rfl := hd.queryWidth
    obtain rfl := hd.poolWidth
    simp only [columns, List.map_append, List.forall_mem_append, List.forall_mem_map,
      hd.advicePhases] at hphases
    obtain ⟨⟨⟨hadvicePhases, hinstPhases⟩, hfixedPhases⟩, hphases⟩ := hphases
    obtain ⟨hfixedSizes, hpermutedSizes⟩ := List.forall_mem_append.1 hsizes
    obtain ⟨xs, hconstants⟩ := mapM_constants_iff.2 hconstants
    obtain ⟨hlookupLengths, hlookups⟩ :=
      decodeArguments_eq_ok_iff.2 ⟨h.lookupInputs, h.lookupTargets, hlookups⟩
    obtain ⟨hshuffleLengths, hshuffles⟩ :=
      decodeArguments_eq_ok_iff.2 ⟨h.shuffleInputs, h.shuffleTargets, hshuffles⟩
    simp only [read, bind_eq_ok_iff]
    refine ⟨info, hinfo, ?_⟩
    rw [if_neg (by rw [not_or, not_not, not_not]; exact ⟨hlookupLengths, hshuffleLengths⟩)]
    simp only [bind_eq_ok_iff, pure_eq_ok_iff, mapM_decodeQuery_iff, mapM_decodeColumn_iff,
      mapM_gates_iff, splitCommitments_eq_ok_iff hsize]
    refine ⟨xs, h.constants ▸ hconstants, _, ⟨h.adviceQueries, hadvicePhases⟩, _,
      ⟨h.instQueries, hinstPhases⟩, _, ⟨h.fixedQueries, hfixedPhases⟩, _,
      ⟨h.permutation, hphases⟩, _, ⟨h.gates, hgates⟩, _, hlookups, _, hshuffles, _,
      ⟨hd.fixedCommitments, hfixedSizes⟩, _, ⟨hd.permutationCommitments, hpermutedSizes⟩, ?_⟩
    rw [← hd.k, ← hd.degree, ← hd.fixedCount, ← hd.instCount, ← hd.advicePhases,
      ← hd.challengePhases, ← hd.maxQueries, ← hd.transcript, ← h.constants]

theorem isRecoverable_anonymous_iff : o.anonymous.IsRecoverable size ↔ o.IsRecoverable size :=
  ⟨fun ⟨hphases, hsizes, hconstants⟩ => ⟨hphases, hsizes, hconstants⟩,
    fun ⟨hphases, hsizes, hconstants⟩ => ⟨hphases, hsizes, hconstants⟩⟩

/-- An outline is read from an artifact exactly if it is written so, can be told from what is
written, and has no names. -/
theorem decode_eq_ok_iff (hnames : a.groups.map Group.name = groupNames) (hsize : 1 ≤ size) :
    decode size a = .ok o ↔
      (∃ query pool, o.encodeAt query pool = .ok a) ∧ o.IsRecoverable size ∧ o.IsAnonymous := by
  obtain ⟨c, rfl⟩ := exists_contents_of_names hnames
  rw [decode_artifact, read_eq_ok_iff hsize]
  have hspells : ∀ query pool, c.Spells o query pool ↔ o.encodeAt query pool = .ok c.artifact := by
    intro query pool
    rw [encodeAt_eq_ok_iff]
    constructor
    · intro h
      exact ⟨c, h, rfl⟩
    · rintro ⟨c', h, hc⟩
      rwa [← Contents.artifact_injective hc]
  simp only [hspells]

theorem names_of_encodeAt (h : o.encodeAt query pool = .ok a) :
    a.groups.map Group.name = groupNames := by
  obtain ⟨c, -, rfl⟩ := encodeAt_eq_ok_iff.1 h
  exact c.names_artifact

/-- A recoverable outline is read back from its artifact without its names. -/
theorem decode_of_encode (h : o.encode = .ok a) (hsize : 1 ≤ size)
    (hrecoverable : o.IsRecoverable size) : decode size a = .ok o.anonymous := by
  obtain ⟨query, pool, -, -, hat⟩ := encode_eq_ok_iff.1 h
  rw [decode_eq_ok_iff (names_of_encodeAt hat) hsize]
  exact ⟨⟨query, pool, encodeAt_anonymous.trans hat⟩, isRecoverable_anonymous_iff.2 hrecoverable,
    isAnonymous_anonymous o⟩

theorem splitCommitments_failsOnly {what : String} {blob : Bytes} (hsize : size ≠ 0) :
    FailsOnly WireError.IsMalformed (splitCommitments what size blob) := by
  unfold splitCommitments
  rw [if_neg hsize]
  repeat' split
  · exact failsOnly_error trivial
  · exact failsOnly_ok
  · exact failsOnly_ok

theorem decodeArguments_failsOnly {inputs targets : List Bytes} :
    FailsOnly WireError.IsMalformed
      (decodeArguments (decodeExprs query pool) inputs targets) :=
  FailsOnly.mapM (fun _ => (decodeExprs_failsOnly _).bind fun _ => (decodeExprs_failsOnly _).bind
    fun _ => failsOnly_pure) _

theorem read_failsOnly (hsize : size ≠ 0) : FailsOnly WireError.IsMalformed (read size c) := by
  refine GeneralInfo.ofElements_failsOnly.bind fun info => ?_
  dsimp only
  split
  · exact failsOnly_error trivial
  · have hqueries := FailsOnly.mapM (decodeQuery_failsOnly (some info.advicePhases))
    have hconstants : ∀ entry : Bytes, FailsOnly WireError.IsMalformed
        ((Scalar.ofBytes entry).mapError WireError.constant) := fun _ => .mapError fun _ => trivial
    exact (FailsOnly.mapM hconstants _).bind fun _ => (hqueries _).bind fun _ =>
      (hqueries _).bind fun _ => (hqueries _).bind fun _ =>
      (FailsOnly.mapM (decodeColumn_failsOnly _) _).bind fun _ =>
      (FailsOnly.mapM (fun _ => (decodeExprs_failsOnly _).bind fun _ => failsOnly_pure) _).bind
        fun _ => decodeArguments_failsOnly.bind fun _ => decodeArguments_failsOnly.bind fun _ =>
      (splitCommitments_failsOnly hsize).bind fun _ =>
      (splitCommitments_failsOnly hsize).bind fun _ => failsOnly_pure

/-- An artifact with the expected groups is read, or it is malformed. -/
theorem decode_failsOnly (hnames : a.groups.map Group.name = groupNames) (hsize : size ≠ 0) :
    FailsOnly WireError.IsMalformed (decode size a) := by
  obtain ⟨c, rfl⟩ := exists_contents_of_names hnames
  rw [decode_artifact]
  exact read_failsOnly hsize

end Outline

namespace Wire

/-- Whatever bytes are read as, something is read or they are malformed: an artifact, an outline
from an artifact that was read, expressions at any widths, and a column or a query with any list of
phases or none. -/
theorem read_or_malformed (data : Bytes) :
    ((∃ a, Artifact.decode data = .ok a) ∨
        ∃ e, Artifact.decode data = .error e ∧ e.IsMalformed) ∧
      (∀ (a : Artifact) (size : Int), Artifact.decode data = .ok a → 1 ≤ size →
        (∃ o, Outline.decode size a = .ok o) ∨
          ∃ e, Outline.decode size a = .error e ∧ e.IsMalformed) ∧
      (∀ query pool : Width, (∃ es, decodeExprs query pool data = .ok es) ∨
        ∃ e, decodeExprs query pool data = .error e ∧ e.IsMalformed) ∧
      (∀ phases : Option (List Int), (∃ c, decodeColumn phases data = .ok c) ∨
        ∃ e, decodeColumn phases data = .error e ∧ e.IsMalformed) ∧
      ∀ phases : Option (List Int), (∃ q, decodeQuery phases data = .ok q) ∨
        ∃ e, decodeQuery phases data = .error e ∧ e.IsMalformed := by
  refine ⟨(Artifact.decode_failsOnly data).cases, fun a size ha hsize => ?_,
    fun query pool => (decodeExprs_failsOnly data).cases,
    fun phases => (decodeColumn_failsOnly phases data).cases,
    fun phases => (decodeQuery_failsOnly phases data).cases⟩
  -- The groups that are looked for are there because reading gave them their names.
  obtain ⟨hnames, -⟩ := Artifact.decode_eq_ok_iff.1 ha
  have hzero : size ≠ 0 := by omega
  exact (Outline.decode_failsOnly hnames hzero).cases

/-- Eleven groups without elements. -/
def hollowBytes : Bytes := 11 :: List.replicate 47 0

theorem read_or_malformed_hollow :
    ∃ a e, Artifact.decode hollowBytes = .ok a ∧ Outline.decode 32 a = .error e ∧
      e.IsMalformed := by
  have ha : Artifact.decode hollowBytes = .ok ⟨groupNames.map fun name => ⟨name, []⟩⟩ := by
    decide +kernel
  obtain ⟨-, hread, -⟩ := read_or_malformed hollowBytes
  rcases hread _ 32 ha (by decide) with ⟨o, ho⟩ | ⟨e, he, hmalformed⟩
  · -- The general information has twelve elements.
    have hrefused : Outline.decode 32 ⟨groupNames.map fun name => ⟨name, []⟩⟩ =
        .error (.infoCount 0 12) := by decide +kernel
    rw [hrefused] at ho
    cases ho
  · exact ⟨_, e, ha, he, hmalformed⟩

end Wire

end Plonkish
