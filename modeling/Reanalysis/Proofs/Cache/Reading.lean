import Reanalysis.Proofs.Cache.Slots
import Reanalysis.Proofs.Clock
import Reanalysis.Proofs.Wire

/-!
# Stored states read back

A sidecar is read back from its bytes. A slot that holds a state and its sidecar is read as the state
of its program, and a slot without both as nothing. Nothing else is looked at.
-/

namespace Reanalysis

namespace Sidecar

/-- The size is a machine word, and the time can be written down. -/
structure Fits (m : Sidecar) : Prop where
  size : m.size < Json.wordBound
  writtenAt : m.writtenAt.Representable

theorem written_toJson {depth : Nat} {m : Sidecar} (h : m.Fits) :
    Json.Written (depth + 1) reader m.toJson m := by
  have hTime : Json.Written depth Instant.reader m.writtenAt.toJson m.writtenAt :=
    (Json.written_string m.writtenAt.render).refined (Instant.parse?_render h.writtenAt)
  have hFills : Json.Fills depth (Json.memberOf fields Json.passOver) {}
      (Json.present [("program_id", some m.program.toJson), ("byte_size", some (.nat m.size)),
        ("digest", some m.digest.toJson), ("base_digest", m.baseDigest.map Digest.toJson),
        ("written_at", some m.writtenAt.toJson)])
      ⟨some m.program, some m.size, some m.digest, m.baseDigest.map some, some m.writtenAt⟩ :=
    .required rfl rfl (ProgramId.written_toJson m.program) <|
    .required rfl rfl (Json.written_natBelow h.size h.size) <|
    .required rfl rfl (Digest.written_toJson m.digest) <|
    .optional (fun d x => { d with baseDigest := x }) rfl rfl rfl (fun _ => rfl)
      (fun b _ => Digest.written_toJson b) <|
    .required rfl rfl hTime <| .nil _
  refine Json.written_record hFills ?_
  simp only [Json.join_map_some]
  rfl

theorem decode?_encode {m : Sidecar} (h : m.Fits) : decode? m.encode = some m := by
  have hWritten : Json.Written 1 reader m.toJson m := written_toJson h
  have hRead : Json.read reader m.toJson.render = .ok m := by
    rw [Json.read, Json.Value.render, String.toList_ofList, hWritten.reads.readWhole]
  rw [decode?, encode, Json.readBytes, Text.decode?_encode]
  dsimp only
  rw [hRead]
  rfl

end Sidecar

namespace CacheStore

variable {s : CacheStore} {root : Place} {fs fs' : Files} {id : ProgramId} {state : Bytes}
  {base : Digest}

/-- A slot holds the state of its program, with a sidecar that describes it. -/
structure Stored (s : CacheStore) (root : Place) (fs : Files) (id : ProgramId) (state : Bytes)
    (base : Digest) : Prop where
  blob : fs.Holds (s.filePlace root id.number blobName) state
  size : state.length < Json.wordBound
  sidecar : ∃ t : Instant, t.Representable ∧
    fs.Holds (s.filePlace root id.number metaName)
      (Sidecar.mk id state.length (.compute state) (some base) t).encode

theorem Stored.same (h : s.Stored root fs id state base) {watched : Place → Prop}
    (hSame : Files.Same watched fs fs')
    (hWatched : ∀ name, watched (s.filePlace root id.number name)) : s.Stored root fs' id state base where
  blob := hSame.held _ _ (hWatched _) h.blob
  size := h.size
  sidecar := by
    obtain ⟨t, ht, hHolds⟩ := h.sidecar
    exact ⟨t, ht, hSame.held _ _ (hWatched _) hHolds⟩

/-- The locations of state and sidecar can be taken by the system. -/
def Nameable (s : CacheStore) (id : ProgramId) : Prop :=
  s.Reaches id.number blobName ∧ s.Reaches id.number metaName

instance (s : CacheStore) (id : ProgramId) : Decidable (s.Nameable id) :=
  inferInstanceAs (Decidable (_ ∧ _))

theorem Stored.read (h : s.Stored root fs id state base) (hTidy : s.Tidy root fs)
    (hName : s.Nameable id) :
    Gives (s.read id) fs (some (s.artifact id state (some base))) fs := by
  obtain ⟨t, ht, number, hFile, hBytes⟩ := h.sidecar
  obtain ⟨blob, hBlob, -⟩ := h.blob
  have hContent : fs.content number =
      (Sidecar.mk id state.length (.compute state) (some base) t).encode := by
    rw [Files.content, hBytes, Option.getD_some]
  have hDecoded := Sidecar.decode?_encode (m := ⟨id, state.length, .compute state, some base, t⟩)
    ⟨h.size, ht⟩
  have hThere : fs.isFile (s.cachePath id) = true :=
    (isFile_slot_iff hTidy entryName_blob).mpr ⟨hName.1, blob, hBlob⟩
  rw [CacheStore.read, Gives.bind_iff]
  refine ⟨some (fs.content number), fs, ?_, ?_⟩
  · exact (gives_readOptional_iff hTidy entryName_meta).mpr
      ⟨rfl, hName.2, .inr ⟨number, hFile, rfl⟩⟩
  · rw [hContent]
    dsimp only
    rw [hDecoded]
    simp [hThere, artifact]

theorem read_bare (hTidy : s.Tidy root fs) (hName : s.Nameable id)
    (hBlob : fs.Holds (s.filePlace root id.number blobName) state)
    (hMeta : fs.node? (s.filePlace root id.number metaName) = none) :
    Gives (s.read id) fs (some (s.artifact id state none)) fs := by
  obtain ⟨number, hFile, hBytes⟩ := hBlob
  have hContent : fs.content number = state := by rw [Files.content, hBytes, Option.getD_some]
  rw [CacheStore.read, Gives.bind_iff]
  refine ⟨none, fs, (gives_readOptional_iff hTidy entryName_meta).mpr
    ⟨rfl, hName.2, .inl ⟨rfl, hMeta⟩⟩, ?_⟩
  dsimp only
  rw [Gives.bind_iff]
  refine ⟨some state, fs, (gives_readOptional_iff hTidy entryName_blob).mpr
    ⟨rfl, hName.1, .inr ⟨number, hFile, congrArg some hContent.symm⟩⟩, ?_⟩
  simp

theorem read_none (hTidy : s.Tidy root fs) (hName : s.Nameable id)
    (hBlob : fs.node? (s.filePlace root id.number blobName) = none)
    (hMeta : fs.node? (s.filePlace root id.number metaName) = none) :
    Gives (s.read id) fs none fs := by
  rw [CacheStore.read, Gives.bind_iff]
  refine ⟨none, fs, (gives_readOptional_iff hTidy entryName_meta).mpr
    ⟨rfl, hName.2, .inl ⟨rfl, hMeta⟩⟩, ?_⟩
  dsimp only
  rw [Gives.bind_iff]
  refine ⟨none, fs, (gives_readOptional_iff hTidy entryName_blob).mpr
    ⟨rfl, hName.1, .inl ⟨rfl, hBlob⟩⟩, ?_⟩
  simp

theorem concurs_readOptional {path : Files.Location} (h : fs'.read path = fs.read path) :
    Concurs fs fs' (StoreAction.readOptional path) := by
  refine .get_bind (by rw [h]) ?_
  rcases fs.read path with e | bytes
  · cases e <;> first | exact .pure _ | exact .throw _
  · exact .pure _

theorem concurs_read (hMeta : fs'.read (s.metaPath id) = fs.read (s.metaPath id))
    (hState : fs'.read (s.cachePath id) = fs.read (s.cachePath id)) : Concurs fs fs' (s.read id) := by
  refine .bind (concurs_readOptional hMeta) fun found => ?_
  cases found with
  | none => exact .bind (concurs_readOptional hState) fun _ => .pure _
  | some bytes =>
    dsimp only
    cases Sidecar.decode? bytes with
    | none => exact .throw _
    | some m =>
      have hRest : Concurs fs fs' (do
          if !(← get).isFile (s.cachePath id) then return none
          return some ⟨id, m.size, s.cachePath id, m.digest, m.baseDigest⟩ :
            StoreAction (Option CacheArtifact)) := by
        refine .get_bind (by rw [Files.isFile_congr hState]) ?_
        split <;> exact .pure _
      dsimp only
      split
      · exact .bind (.throw _) fun _ => hRest
      · exact hRest

end CacheStore

end Reanalysis
