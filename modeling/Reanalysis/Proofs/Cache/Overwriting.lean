import Reanalysis.Proofs.Cache.Reading
import Reanalysis.Proofs.Files.Stored

/-!
# States that are overwritten

A new state goes in place of an old one in two replacements, that of the state and that of its
sidecar. Each of them happens at once, but the two do not: a write that breaks off between them
leaves the new state with the sidecar of the old one.
-/

namespace Reanalysis

open Files (Location PlainName)

/-- The files after the first `k` steps, or after fewer of them if one has failed. -/
def FileStep.cutOff (steps : List FileStep) (k : Nat) (fs : Files) : Files :=
  (((steps.take k).forM StoreAction.perform).run.run fs).2

namespace Files

variable {fs fs' : Files} {path dir name : Location} {number : Nat} {old bytes : Bytes}

theorem cutOff_nil (k : Nat) : FileStep.cutOff [] k fs = fs := by
  rw [FileStep.cutOff, List.take_nil]
  rfl

theorem cutOff_cons {step : FileStep} (h : step.run fs = (fs', none)) (steps : List FileStep)
    (k : Nat) : FileStep.cutOff (step :: steps) (k + 1) fs = FileStep.cutOff steps k fs' := by
  have hStep : Gives (StoreAction.perform step) fs () fs' := StoreAction.gives_perform_iff.mpr h
  exact congrArg Prod.snd (hStep.run_bind fun _ => (steps.take k).forM StoreAction.perform)

theorem Stores.link (h : fs.Stores path number old) (other : Nat) :
    ∃ place, fs.node? place = some (.file number) ∧ fs.place path = .ok place ∧
      fs.link other path = .ok (fs.setName place (.file other)) := by
  obtain ⟨place, hFound⟩ := h.found
  obtain ⟨hPlace, hNode⟩ := place_of_find hFound
  refine ⟨place, hNode, hPlace, ?_⟩
  rw [link_eq, hPlace]
  simp only [hNode]

theorem Stores.setName {place : Place} (h : fs.Stores path number old)
    (hPlace : fs.place path = .ok place) {other : Nat} (hBytes : fs.contents[other]? = some bytes) :
    (fs.setName place (.file other)).Stores path other bytes := by
  obtain ⟨place', hFound⟩ := h.found
  obtain ⟨hPlace', hNode⟩ := place_of_find hFound
  cases hPlace.symm.trans hPlace'
  have hAlters : Alters (· = place) fs (fs.setName place (.file other)) :=
    .setName _ rfl (by rw [hNode]; simp)
  have hAt : (fs.setName place (.file other)).node? place = some (.file other) := by
    rw [node?_setName (named_of_ne_directory (by rw [hNode]; simp)), if_pos rfl]
  refine ⟨⟨place, ?_⟩, hBytes⟩
  simp only [find_eq, place_of_directories hAlters.standing (asksForDirectory_of_file hFound) hPlace,
    hAt]

/-- The steps of a replacement, where there is a file to be replaced: up to the last one nothing that
is there has changed, and with the last one the new contents are in place. -/
theorem Stores.cutOff_replacement (h : fs.Stores (join dir name) number old) (hName : PlainName name)
    (hDirectory : directoryOf (join dir name) = dir) (bytes : Bytes) (rest : List FileStep) :
    (∀ k ≤ 2, Grows fs (FileStep.cutOff (replacement (join dir name) bytes ++ rest) k fs)) ∧
    ∃ fs' number', fs'.Stores (join dir name) number' bytes ∧
      (∀ other n, Apart other (join dir name) → Spares other n fs fs') ∧
      ∀ k, FileStep.cutOff (replacement (join dir name) bytes ++ rest) (k + 3) fs =
        FileStep.cutOff rest k fs' := by
  obtain ⟨place', hFound⟩ := h.found
  have hMake : (FileStep.makeDirectories (directoryOf (join dir name))).run fs = (fs, none) := by
    rw [FileStep.run, hDirectory, makeDirectories_of_find hName hFound]
    rfl
  have hStage : (FileStep.stage bytes).run fs = ((fs.stage bytes).2, none) := rfl
  have hStaged : (fs.stage bytes).2.Stores (join dir name) number old := (Grows.stage bytes).spares _ h
  obtain ⟨place, hNode, hPlace, hLink⟩ := hStaged.link fs.contents.length
  have hPublish : (FileStep.publish (join dir name)).run (fs.stage bytes).2 =
      ((fs.stage bytes).2.setName place (.file fs.contents.length), none) := by
    rw [FileStep.run]
    have hLast : (fs.stage bytes).2.contents.length - 1 = fs.contents.length := by simp [stage]
    rw [hLast, hLink]
  constructor
  · intro k hk
    rw [replacement, List.cons_append, List.cons_append, List.cons_append]
    rcases k with _ | _ | _ | k
    · exact .refl fs
    · rw [cutOff_cons hMake]
      exact .refl fs
    · rw [cutOff_cons hMake, cutOff_cons hStage]
      exact .stage bytes
    · omega
  · refine ⟨_, fs.contents.length, hStaged.setName hPlace (by simp [stage]), ?_, ?_⟩
    · intro other n hApart
      apply Spares.trans _ _ _ _ _ (Grows.stage bytes).spares
      exact spares_at hApart hPlace (.setName _ rfl (by rw [hNode]; simp))
    · intro k
      rw [replacement, List.cons_append, List.cons_append, List.cons_append, cutOff_cons hMake,
        cutOff_cons hStage, cutOff_cons hPublish, List.nil_append]

end Files

namespace CacheStore

variable {s : CacheStore} {fs : Files} {id : ProgramId} {n m : Nat} {old state bytes : Bytes}
  {oldBase base : Option Digest} {t : Instant}

theorem directoryOf_engineDir (n : Nat) {name : String} (hName : PlainName name) :
    Files.directoryOf (Files.join (s.engineDir n) name) = s.engineDir n := by
  -- The directory's name ends with a digit, which is neither a slash nor a point.
  obtain ⟨front, c, hEnd, hDigit⟩ :
      ∃ front c, (s.engineDir n).toList = front ++ [c] ∧ c.isDigit = true := by
    obtain ⟨c, hLast, hDigit⟩ := Text.getLast?_toDigits n
    obtain ⟨digits, hDigits⟩ := List.getLast?_eq_some_iff.mp hLast
    obtain ⟨front, hFront⟩ := Files.toList_suffix_join s.resultsDir (s.slotName n)
    refine ⟨front ++ s.label.toList ++ digits, c, ?_, hDigit⟩
    rw [engineDir, ← slotName, ← hFront, toList_slotName, hDigits]
    simp
  have hNotSlash : c ≠ '/' := Text.ne_of_isDigit hDigit (by decide)
  have hNotPoint : c ≠ '.' := Text.ne_of_isDigit hDigit (by decide)
  apply Files.directoryOf_join_of_end hName
  · intro hBlank
    rw [hBlank] at hEnd
    simp at hEnd
  · intro front' hSlash
    rw [hEnd] at hSlash
    exact hNotSlash (List.append_singleton_inj.mp hSlash).2
  · rw [hEnd, List.reverse_append, List.reverse_singleton, List.singleton_append,
      Files.dropTrailing]
    · intro rest hCons
      exact hNotSlash (List.cons.inj hCons).1
    · intro rest hCons
      exact hNotPoint (List.cons.inj hCons).1

theorem gives_read_of_stores {described : Sidecar} (hBlob : fs.Stores (s.cachePath id) n state)
    (hMeta : fs.Stores (s.metaPath id) m bytes) (hDecode : Sidecar.decode? bytes = some described)
    (hProgram : described.program = id) :
    Gives (s.read id) fs (some ⟨id, described.size, s.cachePath id, described.digest,
      described.baseDigest⟩) fs := by
  have hThere : fs.isFile (s.cachePath id) = true := by
    obtain ⟨place, hFound⟩ := hBlob.found
    rw [Files.isFile, hFound]
  rw [CacheStore.read, Gives.bind_iff]
  refine ⟨some bytes, fs, ?_, ?_⟩
  · rw [StoreAction.readOptional, Gives.get_bind_iff, hMeta.read]
    exact Gives.pure_iff.mpr ⟨rfl, rfl⟩
  · dsimp only
    rw [hDecode]
    simp [hProgram, hThere]

/-- However a write over an old state breaks off, the old or the new artifact is read. It is that of
the state which is there, except between the two replacements: there the new state is in place and
is taken for the old one, unless the two have the same size and digest. -/
theorem overwritten_state_described_iff (s : CacheStore) (fs : Files) (id : ProgramId) (n m : Nat)
    (old bytes state : Bytes) (oldBase base : Option Digest) (t : Instant)
    (hOld : fs.Stores (s.cachePath id) n old) (hMeta : fs.Stores (s.metaPath id) m bytes)
    (hDecode : Sidecar.decode? bytes = some ⟨id, old.length, .compute old, oldBase, t⟩)
    (hFits : (s.sidecar id state base).Fits) (k : Nat) :
    ∃ artifact blob,
      Gives (s.read id) (FileStep.cutOff (s.writeSteps id state base) k fs) (some artifact)
        (FileStep.cutOff (s.writeSteps id state base) k fs) ∧
      artifact = (if k < 6 then s.artifact id old oldBase else s.artifact id state base) ∧
      (FileStep.cutOff (s.writeSteps id state base) k fs).read (s.cachePath id) = .ok blob ∧
      blob = (if k < 3 then old else state) ∧
      (artifact.size = blob.length ∧ artifact.digest = .compute blob ↔
        k < 3 ∨ 6 ≤ k ∨ old.length = state.length ∧ Digest.compute old = .compute state) := by
  have hApart : Files.Apart (s.metaPath id) (s.cachePath id) :=
    ⟨_, metaName, _, blobName, rfl, rfl, entryName_meta.toPlainName, entryName_blob.toPlainName,
      by decide⟩
  have hApart' : Files.Apart (s.cachePath id) (s.metaPath id) :=
    ⟨_, blobName, _, metaName, rfl, rfl, entryName_blob.toPlainName, entryName_meta.toPlainName,
      by decide⟩
  obtain ⟨hFirst, fs', n', hBlob, hSpares, hSecond⟩ := hOld.cutOff_replacement
    entryName_blob.toPlainName (directoryOf_engineDir id.number entryName_blob.toPlainName) state
    (s.metaSteps id state base)
  have hMeta' := hSpares _ m hApart _ hMeta
  obtain ⟨hBetween, fs'', m', hSidecar, hSpares', hEnd⟩ := hMeta'.cutOff_replacement
    entryName_meta.toPlainName (directoryOf_engineDir id.number entryName_meta.toPlainName)
    (s.sidecar id state base).encode []
  rw [List.append_nil] at hBetween hEnd
  change ∀ k, FileStep.cutOff (s.writeSteps id state base) (k + 3) fs = _ at hSecond
  change ∀ k, FileStep.cutOff (s.metaSteps id state base) (k + 3) fs' = _ at hEnd
  rcases Nat.lt_or_ge k 3 with hk | hk
  · have hGrows := hFirst k (by omega)
    have hBlob' := hGrows.spares _ hOld
    have hRead := gives_read_of_stores hBlob' (hGrows.spares _ hMeta) hDecode rfl
    refine ⟨_, old, hRead, by rw [if_pos (by omega)]; rfl, hBlob'.read, by rw [if_pos hk], ?_⟩
    exact ⟨fun _ => .inl hk, fun _ => ⟨rfl, rfl⟩⟩
  obtain ⟨k, rfl⟩ := Nat.exists_eq_add_of_le' hk
  rw [hSecond]
  rcases Nat.lt_or_ge k 3 with hk' | hk'
  · -- The new state is in place, and the sidecar is still the old one.
    have hGrows := hBetween k (by omega)
    have hBlob' := hGrows.spares _ hBlob
    have hRead := gives_read_of_stores hBlob' (hGrows.spares _ hMeta') hDecode rfl
    refine ⟨_, state, hRead, by rw [if_pos (by omega)]; rfl, hBlob'.read,
      by rw [if_neg (by omega)], ?_⟩
    constructor
    · intro hSame
      exact .inr (.inr hSame)
    · rintro (hLess | hMore | hSame)
      · omega
      · omega
      · exact hSame
  · obtain ⟨k, rfl⟩ := Nat.exists_eq_add_of_le' hk'
    rw [hEnd, Files.cutOff_nil]
    have hBlob' := hSpares' _ n' hApart' _ hBlob
    have hRead := gives_read_of_stores hBlob' hSidecar (Sidecar.decode?_encode hFits) rfl
    refine ⟨_, state, hRead, by rw [if_neg (by omega)]; rfl, hBlob'.read,
      by rw [if_neg (by omega)], ?_⟩
    exact ⟨fun _ => .inr (.inl (by omega)), fun _ => ⟨rfl, rfl⟩⟩

def sampleStore : CacheStore := ⟨"results", "JSE", ⟨0, 0⟩⟩

def sampleSidecar : Sidecar :=
  sampleStore.sidecar ⟨1, Nat.one_pos, ProgramId.one_bounded⟩ [7] (some (.compute []))

def sampleFiles : Files :=
  ⟨[(["results"], .directory), (["results", "JSE1"], .directory),
    (["results", "JSE1", "cache"], .file 0), (["results", "JSE1", "cache.meta.json"], .file 1)],
    [[7], sampleSidecar.encode]⟩

/-- A new state of two bytes is read as the old one of one byte when the write ends after its first
replacement. -/
theorem overwritten_state_read_as_old :
    (∃ n, sampleFiles.Stores (sampleStore.cachePath ⟨1, Nat.one_pos, ProgramId.one_bounded⟩) n [7]) ∧
    ∃ files, files = FileStep.cutOff (sampleStore.writeSteps ⟨1, Nat.one_pos, ProgramId.one_bounded⟩
        [8, 9] (some (.compute []))) 3 sampleFiles ∧
      files.read (sampleStore.cachePath ⟨1, Nat.one_pos, ProgramId.one_bounded⟩) = .ok [8, 9] ∧
      Gives (sampleStore.read ⟨1, Nat.one_pos, ProgramId.one_bounded⟩) files
        (some (sampleStore.artifact ⟨1, Nat.one_pos, ProgramId.one_bounded⟩ [7]
          (some (.compute [])))) files := by
  have hTime : (Instant.mk 0 0).Representable := ⟨rfl, by decide⟩
  have hBlob : sampleFiles.Stores (sampleStore.cachePath ⟨1, Nat.one_pos, ProgramId.one_bounded⟩) 0
      [7] := ⟨⟨["results", "JSE1", "cache"], rfl⟩, rfl⟩
  have hMeta : sampleFiles.Stores (sampleStore.metaPath ⟨1, Nat.one_pos, ProgramId.one_bounded⟩) 1
      sampleSidecar.encode := ⟨⟨["results", "JSE1", "cache.meta.json"], rfl⟩, rfl⟩
  obtain ⟨_, _, hRead, rfl, hState, rfl, -⟩ :=
    overwritten_state_described_iff sampleStore sampleFiles _ 0 1 _ _ [8, 9] _ (some (.compute [])) _
      hBlob hMeta (Sidecar.decode?_encode ⟨by decide, hTime⟩) ⟨by decide, hTime⟩ 3
  exact ⟨⟨0, hBlob⟩, _, rfl, hState, hRead⟩

end CacheStore

end Reanalysis
