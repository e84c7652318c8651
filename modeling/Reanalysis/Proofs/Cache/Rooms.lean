import Reanalysis.Engine.Runner
import Reanalysis.Proofs.Cache.Produced
import Reanalysis.Proofs.Cache.Reading

/-!
# Engines that keep to their rooms

An engine may write to slots with numbers past all that exist when it is launched. What it has left
there is found by its numbers, and nothing else has changed.
-/

namespace Reanalysis

open Files (Location)

/-- The argument that asks the engine for its state. -/
def Command.stateFlag : String := "--writecache"

/-- One launch of an engine, with the files before and after it. -/
structure Launch where
  command : Command
  before : Files
  outcome : Outcome
  after : Files
deriving DecidableEq

theorem Files.isFile_of_read {fs : Files} {p : Location} {bytes : Bytes}
    (h : fs.read p = .ok bytes) : fs.isFile p = true := by
  rw [Files.read] at h
  rw [Files.isFile]
  rcases hFind : fs.find p with e | ⟨place, number | -⟩
  · rw [hFind] at h
    cases h
  · rfl
  · rw [hFind] at h
    cases h

theorem Files.Holds.unique {fs : Files} {place : Place} {bytes bytes' : Bytes}
    (h : fs.Holds place bytes) (h' : fs.Holds place bytes') : bytes = bytes' := by
  obtain ⟨number, hFile, hBytes⟩ := h
  obtain ⟨number', hFile', hBytes'⟩ := h'
  rw [hFile] at hFile'
  cases hFile'
  rw [hBytes] at hBytes'
  cases hBytes'
  rfl

/-- The state in the highest new directory that holds one. -/
def Launch.Leaves (s : CacheStore) (l : Launch) (state : Bytes) : Prop :=
  ∃ n, n < CacheStore.numberBound ∧ n ∉ s.engineDirs l.before ∧
    l.after.read (s.engineBlob n) = .ok state ∧
    ∀ m, m < CacheStore.numberBound → m ∉ s.engineDirs l.before →
      l.after.isFile (s.engineBlob m) = true → m ≤ n

theorem Launch.Leaves.unique {s : CacheStore} {l : Launch} {state state' : Bytes}
    (h : l.Leaves s state) (h' : l.Leaves s state') : state = state' := by
  obtain ⟨n, hBound, hNew, hRead, hTop⟩ := h
  obtain ⟨m, hBound', hNew', hRead', hTop'⟩ := h'
  have hEq : n = m := Nat.le_antisymm (hTop' n hBound hNew (Files.isFile_of_read hRead))
    (hTop m hBound' hNew' (Files.isFile_of_read hRead'))
  rw [hEq, hRead'] at hRead
  cases hRead
  rfl

namespace CacheStore

variable {s : CacheStore} {root : Place} {fs fs' : Files}

/-- The places of states and sidecars. -/
def Entry (s : CacheStore) (root q : Place) : Prop :=
  ∃ n name, (name = blobName ∨ name = metaName) ∧ q = s.filePlace root n name

theorem entry_blob (n : Nat) : s.Entry root (s.filePlace root n blobName) := ⟨n, _, .inl rfl, rfl⟩

theorem entry_meta (n : Nat) : s.Entry root (s.filePlace root n metaName) := ⟨n, _, .inr rfl, rfl⟩

theorem Tidy.setContent (h : s.Tidy root fs) (number : Nat) (bytes : Bytes) :
    s.Tidy root (fs.setContent number bytes) := by
  have hAlters : Files.Alters (fun q => fs.node? q = some (.file number)) fs
      (fs.setContent number bytes) := .setContent bytes fun _ hFile => hFile
  refine h.alters hAlters (fun n hFile => absurd hFile (h.noFile n number)) ?_
  intro n name rest hFile _
  exact h.below n name rest (by simp [hFile])

/-- The number of a file that is neither a state nor a sidecar. -/
def Foreign (s : CacheStore) (root : Place) (fs : Files) (number : Nat) : Prop :=
  number < fs.contents.length ∧ ∀ q, s.Entry root q → fs.node? q ≠ some (.file number)

theorem Foreign.alters {number : Nat} (h : s.Foreign root fs number) {changed : Place → Prop}
    (hAlters : Files.Alters changed fs fs')
    (hGone : ∀ q, s.Entry root q → changed q → fs'.node? q = none) : s.Foreign root fs' number := by
  refine ⟨Nat.lt_of_lt_of_le h.1 hAlters.grows, fun q hEntry hFile => ?_⟩
  by_cases hChanged : changed q
  · rw [hGone q hEntry hChanged] at hFile
    cases hFile
  · rw [hAlters.node q hChanged] at hFile
    exact h.2 q hEntry hFile

/-! ## Rooms -/

/-- An engine may use the slots past all that exist when it is launched. -/
def IsRoom (s : CacheStore) (fs : Files) (n : Nat) : Prop :=
  n < numberBound ∧ ∀ m ∈ s.engineDirs fs, m < n

def InRooms (s : CacheStore) (root : Place) (fs : Files) (q : Place) : Prop :=
  ∃ n rest, s.IsRoom fs n ∧ q = root ++ s.slotName n :: rest

/-- The engine has gone on in the rooms that it had at its launch. States there can be taken over, and
there are no sidecars. -/
structure Works (s : CacheStore) (root : Place) (launch fs fs' : Files) : Prop where
  outside : Files.Same (fun q => ¬ s.InRooms root launch q) fs fs'
  standing : ∀ q, fs.node? q = some .directory → fs'.node? q = some .directory
  noFile : ∀ n number, s.IsRoom launch n → fs'.node? (s.slotPlace root n) ≠ some (.file number)
  below : ∀ n name rest, s.IsRoom launch n → fs'.node? (root ++ s.slotName n :: name :: rest) ≠ none →
    fs'.node? (s.slotPlace root n) = some .directory
  noSidecar : ∀ n, s.IsRoom launch n → fs'.node? (s.filePlace root n metaName) = none
  sized : ∀ n number, s.IsRoom launch n →
    fs'.node? (s.filePlace root n blobName) = some (.file number) →
    number < fs'.contents.length ∧ (fs'.content number).length < Json.wordBound

/-- A launch has written in its rooms only. A state that it has left is a file of its own; there is
none unless it was asked for, and never a sidecar. -/
structure Confined (s : CacheStore) (root : Place) (l : Launch) : Prop where
  outside : Files.Same (fun q => ¬ s.InRooms root l.before q) l.before l.after
  noFile : ∀ n number, s.IsRoom l.before n → l.after.node? (s.slotPlace root n) ≠ some (.file number)
  below : ∀ n name rest, s.IsRoom l.before n →
    l.after.node? (root ++ s.slotName n :: name :: rest) ≠ none →
    l.after.node? (s.slotPlace root n) = some .directory
  noSidecar : ∀ n, s.IsRoom l.before n → l.after.node? (s.filePlace root n metaName) = none
  asked : ∀ n number, s.IsRoom l.before n →
    l.after.node? (s.filePlace root n blobName) = some (.file number) →
    Command.stateFlag ∈ l.command.args
  own : ∀ n number, s.IsRoom l.before n →
    l.after.node? (s.filePlace root n blobName) = some (.file number) →
    l.before.contents.length ≤ number ∧ number < l.after.contents.length ∧
      (l.after.content number).length < Json.wordBound

theorem Confined.atTime {l : Launch} (h : s.Confined root l) (now : Instant) :
    ({ s with now } : CacheStore).Confined root l :=
  ⟨h.outside, h.noFile, h.below, h.noSidecar, h.asked, h.own⟩

theorem not_inRooms {n : Nat} {rest : List String} (h : ¬ s.IsRoom fs n) :
    ¬ s.InRooms root fs (root ++ s.slotName n :: rest) := by
  rintro ⟨m, rest', hRoom, hEq⟩
  have hNames := List.append_cancel_left hEq
  rw [List.cons.injEq] at hNames
  rw [slotName_inj hNames.1] at h
  exact h hRoom

theorem Tidy.node?_room (h : s.Tidy root fs) {n : Nat} (hRoom : s.IsRoom fs n) (rest : List String) :
    fs.node? (root ++ s.slotName n :: rest) = none := by
  have hSlot : fs.node? (s.slotPlace root n) ≠ some .directory := fun hSlot =>
    Nat.lt_irrefl n (hRoom.2 n (mem_engineDirs h hRoom.1 hSlot))
  cases rest with
  | nil =>
    change fs.node? (s.slotPlace root n) = none
    rcases hNode : fs.node? (s.slotPlace root n) with _ | ⟨number | -⟩
    · rfl
    · exact absurd hNode (h.noFile n number)
    · exact absurd hNode hSlot
  | cons name rest =>
    by_contra hThere
    exact hSlot (h.below n name rest hThere)

theorem Confined.works {l : Launch} (h : s.Confined root l) (hTidy : s.Tidy root l.before) :
    s.Works root l.before l.before l.after where
  outside := h.outside
  standing := by
    intro q hThere
    rw [h.outside.node q, hThere]
    rintro ⟨n, rest, hRoom, rfl⟩
    rw [hTidy.node?_room hRoom] at hThere
    cases hThere
  noFile := h.noFile
  below := h.below
  noSidecar := h.noSidecar
  sized := fun n number hRoom hFile => (h.own n number hRoom hFile).2

theorem Works.refl (hTidy : s.Tidy root fs) : s.Works root fs fs fs where
  outside := .refl _ fs
  standing := fun _ hThere => hThere
  noFile := fun n number _ => hTidy.noFile n number
  below := fun n name rest _ => hTidy.below n name rest
  noSidecar := fun _ hRoom => hTidy.node?_room hRoom [metaName]
  sized := by
    intro n number hRoom hFile
    rw [filePlace, hTidy.node?_room hRoom] at hFile
    cases hFile

theorem Works.tidy {launch : Files} (h : s.Works root launch fs fs') (hTidy : s.Tidy root fs) :
    s.Tidy root fs' where
  label := hTidy.label
  found := Files.find_of_directories h.standing hTidy.found
  noFile := by
    intro n number hFile
    by_cases hRoom : s.IsRoom launch n
    · exact h.noFile n number hRoom hFile
    · rw [h.outside.node (s.slotPlace root n) (not_inRooms hRoom)] at hFile
      exact hTidy.noFile n number hFile
  below := by
    intro n name rest hThere
    by_cases hRoom : s.IsRoom launch n
    · exact h.below n name rest hRoom hThere
    · rw [h.outside.node _ (not_inRooms hRoom)] at hThere
      exact h.standing _ (hTidy.below n name rest hThere)

theorem Confined.tidy {l : Launch} (h : s.Confined root l) (hTidy : s.Tidy root l.before) :
    s.Tidy root l.after := (h.works hTidy).tidy hTidy

theorem Confined.touches {l : Launch} (h : s.Confined root l) (hTidy : s.Tidy root l.before) :
    Files.Touches (s.InRooms root l.before) l.before l.after := ⟨h.outside, (h.works hTidy).standing⟩

theorem Confined.foreign {l : Launch} (h : s.Confined root l) {number : Nat}
    (hNumber : s.Foreign root l.before number) (q : Place) (hEntry : s.Entry root q) :
    l.after.node? q ≠ some (.file number) := by
  intro hFile
  obtain ⟨n, name, hName, rfl⟩ := hEntry
  by_cases hRoom : s.IsRoom l.before n
  · rcases hName with rfl | rfl
    · have hOwn := (h.own n number hRoom hFile).1
      exact absurd hNumber.1 (Nat.not_lt.mpr hOwn)
    · rw [h.noSidecar n hRoom] at hFile
      cases hFile
  · rw [h.outside.node (s.filePlace root n name) (not_inRooms hRoom)] at hFile
    exact hNumber.2 _ ⟨n, name, hName, rfl⟩ hFile

section Leave

variable {n : Nat} {node : FileNode} {bytes : Bytes}

/-- The files after an engine has made a slot and put something in the place of its state. -/
def leave (s : CacheStore) (root : Place) (n : Nat) (node : FileNode) (bytes : Bytes) (fs : Files) :
    Files :=
  ((fs.stage bytes).2.setName (s.slotPlace root n) .directory).setName
    (s.filePlace root n blobName) node

theorem named_filePlace (root : Place) (n : Nat) (hLabel : '/' ∉ s.label.toList) :
    Files.Named (s.slotPlace root n) ∧ Files.Named (s.filePlace root n blobName) := by
  have hPlace : s.filePlace root n blobName = s.slotPlace root n ++ [blobName] := by
    simp [filePlace, slotPlace]
  rw [hPlace]
  exact ⟨Files.named_snoc root (plain_slotName hLabel n),
    Files.named_snoc _ entryName_blob.toPlainName⟩

theorem node?_leave (hLabel : '/' ∉ s.label.toList) (q : Place) :
    (s.leave root n node bytes fs).node? q =
      if q = s.filePlace root n blobName then some node
      else if q = s.slotPlace root n then some .directory else fs.node? q := by
  obtain ⟨hSlot, hBlob⟩ := named_filePlace root n hLabel
  rw [leave, Files.node?_setName hBlob, Files.node?_setName hSlot, Files.node?_stage]

/-- In the rooms there is nothing but what has been left there. -/
theorem of_node?_leave {m : Nat} {rest : Place} (hTidy : s.Tidy root fs)
    (hRoom : s.IsRoom fs m)
    (hSome : (s.leave root n node bytes fs).node? (root ++ s.slotName m :: rest) ≠ none) :
    m = n ∧ (rest = [blobName] ∨ rest = []) := by
  rw [node?_leave hTidy.label, hTidy.node?_room hRoom] at hSome
  split at hSome
  · rename_i hEq
    have hNames := List.append_cancel_left hEq
    rw [List.cons.injEq] at hNames
    exact ⟨slotName_inj hNames.1, .inl hNames.2⟩
  · split at hSome
    · rename_i hEq
      have hNames := List.append_cancel_left hEq
      rw [List.cons.injEq] at hNames
      exact ⟨slotName_inj hNames.1, .inr hNames.2⟩
    · exact absurd rfl hSome

theorem confined_leave {l : Launch} (hTidy : s.Tidy root l.before) (hRoom : s.IsRoom l.before n)
    (hAfter : l.after = s.leave root n node bytes l.before)
    (hNode : ∀ number, node = .file number → number = l.before.contents.length ∧
      bytes.length < Json.wordBound ∧ Command.stateFlag ∈ l.command.args) : s.Confined root l := by
  obtain ⟨hSlot, hBlob⟩ := named_filePlace root n hTidy.label
  have hThere : ∀ q, l.after.node? q = if q = s.filePlace root n blobName then some node
      else if q = s.slotPlace root n then some .directory else l.before.node? q := by
    rw [hAfter]
    exact node?_leave hTidy.label
  have hRooms : ∀ m rest, s.IsRoom l.before m →
      l.after.node? (root ++ s.slotName m :: rest) ≠ none →
      m = n ∧ (rest = [blobName] ∨ rest = []) := by
    rw [hAfter]
    exact fun m rest => of_node?_leave hTidy
  have hMade : l.after.node? (s.slotPlace root n) = some .directory := by
    rw [hThere, if_neg (Ne.symm filePlace_ne_slotPlace), if_pos rfl]
  have hOwn : ∀ m number, s.IsRoom l.before m →
      l.after.node? (s.filePlace root m blobName) = some (.file number) →
      number = l.before.contents.length ∧ bytes.length < Json.wordBound ∧
        Command.stateFlag ∈ l.command.args := by
    intro m number hRoom' hFile
    obtain ⟨rfl, -⟩ := hRooms m [blobName] hRoom' (by simp [← filePlace.eq_def, hFile])
    rw [hThere, if_pos rfl] at hFile
    exact hNode number (Option.some.inj hFile)
  refine ⟨?_, ?_, ?_, ?_, fun m number hRoom' hFile => (hOwn m number hRoom' hFile).2.2, ?_⟩
  · rw [hAfter]
    refine .trans (.stage bytes) (.trans (.setName hSlot _ ?_) (.setName hBlob _ ?_))
    · exact not_not_intro ⟨n, [], hRoom, rfl⟩
    · exact not_not_intro ⟨n, [blobName], hRoom, rfl⟩
  · intro m number hRoom' hFile
    obtain ⟨rfl, -⟩ := hRooms m [] hRoom' (by simp [← slotPlace.eq_def, hFile])
    rw [hMade] at hFile
    cases hFile
  · intro m name rest hRoom' hSome
    obtain ⟨rfl, -⟩ := hRooms m _ hRoom' hSome
    exact hMade
  · intro m hRoom'
    by_contra hSome
    obtain ⟨-, hRest | hRest⟩ := hRooms m [metaName] hRoom' hSome
    · exact absurd hRest (by decide)
    · cases hRest
  · intro m number hRoom' hFile
    obtain ⟨rfl, hSize, -⟩ := hOwn m number hRoom' hFile
    have hContents : l.after.contents = l.before.contents ++ [bytes] := by
      rw [hAfter]
      rfl
    refine ⟨Nat.le_refl _, by simp [hContents], ?_⟩
    rw [Files.content, hContents, List.getElem?_concat_length, Option.getD_some]
    exact hSize

end Leave

/-! ## What a launch has left -/

section Left

variable {l : Launch} {number n : Nat} {bytes : Bytes}

theorem Confined.isRoom (h : s.Confined root l) (hTidy : s.Tidy root l.before)
    {node : FileNode} (hBound : n < numberBound) (hNew : n ∉ s.engineDirs l.before)
    (hThere : l.after.node? (s.filePlace root n blobName) = some node) : s.IsRoom l.before n := by
  by_contra hNot
  rw [h.outside.node (s.filePlace root n blobName) (not_inRooms hNot)] at hThere
  exact hNew (mem_engineDirs hTidy hBound (hTidy.slot_of_file hThere))

theorem Confined.left (h : s.Confined root l) (hTidy : s.Tidy root l.before)
    (hNumber : s.Foreign root l.before number) (hFiles : fs = l.after.setContent number bytes)
    (hMem : n ∈ s.producedSince fs (s.engineDirs l.before)) :
    s.Reaches n blobName ∧ Command.stateFlag ∈ l.command.args ∧
      ∃ state, fs.Holds (s.filePlace root n blobName) state ∧ state.length < Json.wordBound ∧
        l.after.read (s.engineBlob n) = .ok state := by
  subst hFiles
  have hTidy' := h.tidy hTidy
  obtain ⟨hBound, hNew, hReach, file, hFile⟩ :=
    (mem_producedSince_iff (hTidy'.setContent number bytes)).mp hMem
  change l.after.node? (s.filePlace root n blobName) = some (.file file) at hFile
  have hRoom := h.isRoom hTidy hBound hNew hFile
  obtain ⟨hLow, hHigh, hSize⟩ := h.own n file hRoom hFile
  have hNe : number ≠ file := Nat.ne_of_lt (Nat.lt_of_lt_of_le hNumber.1 hLow)
  refine ⟨hReach, h.asked n file hRoom hFile, l.after.content file, ⟨file, hFile, ?_⟩, hSize, ?_⟩
  · rw [Files.setContent, List.getElem?_set_ne hNe, Files.content, List.getElem?_eq_getElem hHigh,
      Option.getD_some]
  · rw [engineBlob, read_slot hTidy' entryName_blob hReach, hFile]

theorem Confined.leaves (h : s.Confined root l) (hTidy : s.Tidy root l.before)
    (hNumber : s.Foreign root l.before number) (hFiles : fs = l.after.setContent number bytes)
    {state : Bytes} (hLast : (s.producedSince fs (s.engineDirs l.before)).getLast? = some n)
    (hState : fs.Holds (s.filePlace root n blobName) state) : l.Leaves s state := by
  have hMem := List.mem_of_getLast? hLast
  obtain ⟨-, -, state', hState', -, hRead⟩ := h.left hTidy hNumber hFiles hMem
  rw [hState.unique hState']
  subst hFiles
  have hTidy' := h.tidy hTidy
  obtain ⟨hBound, hNew, -⟩ := (mem_producedSince_iff (hTidy'.setContent number bytes)).mp hMem
  refine ⟨n, hBound, hNew, hRead, fun m hBound' hNew' hFile => ?_⟩
  obtain ⟨hReach, hFile⟩ := (isFile_slot_iff hTidy' entryName_blob).mp hFile
  have hMem' := (mem_producedSince_iff (hTidy'.setContent number bytes)).mpr
    ⟨hBound', hNew', hReach, hFile⟩
  obtain ⟨front, hFront⟩ := List.getLast?_eq_some_iff.mp hLast
  have hOrder : (s.producedSince (l.after.setContent number bytes)
      (s.engineDirs l.before)).Pairwise (· < ·) := pairwise_producedSince
  rw [hFront] at hMem' hOrder
  rcases List.mem_append.mp hMem' with hMem' | hMem'
  · exact Nat.le_of_lt ((List.pairwise_append.mp hOrder).2.2 m hMem' n List.mem_cons_self)
  · exact Nat.le_of_eq (List.mem_singleton.mp hMem')

theorem Confined.not_leaves (h : s.Confined root l) (hTidy : s.Tidy root l.before)
    (hFiles : fs = l.after.setContent number bytes)
    (hNil : s.producedSince fs (s.engineDirs l.before) = []) (state : Bytes) :
    ¬ l.Leaves s state := by
  rintro ⟨n, hBound, hNew, hRead, -⟩
  subst hFiles
  have hTidy' := h.tidy hTidy
  obtain ⟨hReach, hFile⟩ := (isFile_slot_iff hTidy' entryName_blob).mp (Files.isFile_of_read hRead)
  have hMem := (mem_producedSince_iff (hTidy'.setContent number bytes)).mpr
    ⟨hBound, hNew, hReach, hFile⟩
  rw [hNil] at hMem
  exact List.not_mem_nil hMem

theorem Confined.leaves_leave (h : s.Confined root l) (hTidy : s.Tidy root l.before)
    (hRoom : s.IsRoom l.before n) (hReach : s.Reaches n blobName)
    (hAfter : l.after = s.leave root n (.file l.before.contents.length) bytes l.before) :
    l.Leaves s bytes := by
  have hNew : n ∉ s.engineDirs l.before := fun hMem => Nat.lt_irrefl n (hRoom.2 n hMem)
  have hTidy' := h.tidy hTidy
  have hThere : ∀ q, l.after.node? q = if q = s.filePlace root n blobName
      then some (.file l.before.contents.length)
      else if q = s.slotPlace root n then some .directory else l.before.node? q := by
    rw [hAfter]
    exact node?_leave hTidy.label
  refine ⟨n, hRoom.1, hNew, ?_, fun m hBound hNew' hFile => ?_⟩
  · rw [engineBlob, read_slot hTidy' entryName_blob hReach, hThere, if_pos rfl, hAfter]
    simp [leave, Files.setName, Files.stage, Files.content]
  · obtain ⟨-, number, hFile⟩ := (isFile_slot_iff hTidy' entryName_blob).mp hFile
    rw [hThere, if_neg filePlace_ne_slotPlace] at hFile
    split at hFile
    · rename_i hEq
      exact Nat.le_of_eq (filePlace_inj hEq).1
    · exact absurd (mem_engineDirs hTidy hBound (hTidy.slot_of_file hFile)) hNew'

end Left

end CacheStore

end Reanalysis
