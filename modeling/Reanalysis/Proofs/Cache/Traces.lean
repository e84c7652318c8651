import Reanalysis.Proofs.Cache.Rooms
import Reanalysis.Proofs.Files.Stored

/-!
# Traces of a launch

An engine may make the next slot and put a state there, or leave the slot empty, or leave nothing at all.
Whether it keeps to its rooms with that can be checked on the names of the files.
-/

namespace Reanalysis.CacheStore

variable {s : CacheStore} {root : Place} {fs : Files} {l : Launch}

theorem tidy_of_names (hLabel : '/' ∉ s.label.toList)
    (hFound : fs.find s.resultsDir = .ok (root, .directory))
    (hNames : ∀ e ∈ fs.names, root <+: e.1 →
      ∀ name ∈ (e.1.drop root.length).head?, fs.node? (root ++ [name]) = some .directory) :
    s.Tidy root fs := by
  have hSlot : ∀ n rest, fs.node? (root ++ s.slotName n :: rest) ≠ none →
      fs.node? (s.slotPlace root n) = some .directory := by
    intro n rest hThere
    have hNamed : Files.Named (root ++ s.slotName n :: rest) := by
      refine ⟨by simp, fun hEq => ?_⟩
      obtain ⟨rfl, hRest⟩ | ⟨-, hRest⟩ := List.append_eq_singleton_iff.mp hEq
      · exact (plain_slotName hLabel n).no_slash (by simp [(List.cons.inj hRest).1])
      · cases hRest
    rw [Files.node?_of_named hNamed] at hThere
    obtain ⟨node, hNode⟩ := Option.ne_none_iff_exists'.mp hThere
    obtain ⟨before, after, hNames', -⟩ := List.lookup_eq_some_iff.mp hNode
    refine hNames (root ++ s.slotName n :: rest, node) (by rw [hNames']; simp) (List.prefix_append _ _) _ ?_
    simp
  refine ⟨hLabel, hFound, fun n number hFile => ?_, fun n name rest hThere => hSlot n _ hThere⟩
  rw [hSlot n [] (by rw [← slotPlace, hFile]; simp)] at hFile
  cases hFile

theorem foreign_of_names {number : Nat} (hLess : number < fs.contents.length)
    (hNames : ∀ e ∈ fs.names, e.2 = .file number →
      e.1.getLast? ≠ some blobName ∧ e.1.getLast? ≠ some metaName) : s.Foreign root fs number := by
  refine ⟨hLess, ?_⟩
  rintro q ⟨n, name, hName, rfl⟩ hFile
  obtain ⟨hBlob, hMeta⟩ := hNames _ (Files.Sound.mem_names_of_node? hFile) rfl
  rw [filePlace, List.getLast?_append_cons, List.getLast?_cons_cons] at hBlob hMeta
  rcases hName with rfl | rfl
  · exact hBlob rfl
  · exact hMeta rfl

/-! ## Launches without a state -/

/-- A launch that has put nothing into any slot. -/
theorem confined_of_bare (hOutside : Files.Same (fun q => ¬ s.InRooms root l.before q) l.before l.after)
    (hNoFile : ∀ n number, s.IsRoom l.before n → l.after.node? (s.slotPlace root n) ≠ some (.file number))
    (hBare : ∀ n name rest, s.IsRoom l.before n →
      l.after.node? (root ++ s.slotName n :: name :: rest) = none) : s.Confined root l := by
  refine ⟨hOutside, hNoFile, fun n name rest hRoom hThere => absurd (hBare n name rest hRoom) hThere,
    fun n hRoom => hBare n _ [] hRoom, fun n number hRoom hFile => ?_, fun n number hRoom hFile => ?_⟩
  · rw [filePlace, hBare n _ [] hRoom] at hFile
    cases hFile
  · rw [filePlace, hBare n _ [] hRoom] at hFile
    cases hFile

theorem confined_of_unchanged (hTidy : s.Tidy root l.before) (hAfter : l.after = l.before) :
    s.Confined root l := by
  refine confined_of_bare (hAfter ▸ .refl _ _) (fun n number _ hFile => ?_) fun n name rest hRoom => ?_
  · rw [hAfter] at hFile
    exact hTidy.noFile n number hFile
  · rw [hAfter, hTidy.node?_room hRoom]

theorem node?_slot (hLabel : '/' ∉ s.label.toList) (n : Nat) (q : Place) :
    (fs.setName (s.slotPlace root n) .directory).node? q =
      if q = s.slotPlace root n then some .directory else fs.node? q :=
  Files.node?_setName (named_filePlace root n hLabel).1 _ q

theorem confined_of_slot {n : Nat} (hTidy : s.Tidy root l.before) (hRoom : s.IsRoom l.before n)
    (hAfter : l.after = l.before.setName (s.slotPlace root n) .directory) : s.Confined root l := by
  refine confined_of_bare ?_ (fun m number hRoom' hFile => ?_) fun m name rest hRoom' => ?_
  · rw [hAfter]
    exact .setName (named_filePlace root n hTidy.label).1 _ (not_not_intro ⟨n, [], hRoom, rfl⟩)
  · rw [hAfter, node?_slot hTidy.label] at hFile
    split at hFile
    · cases hFile
    · exact hTidy.noFile m number hFile
  · rw [hAfter, node?_slot hTidy.label, if_neg, hTidy.node?_room hRoom']
    intro hSame
    have hNames := List.append_cancel_left hSame
    cases (List.cons.inj hNames).2

/-! ## Traces -/

inductive Trace where
  | nothing
  | slot
  /-- A directory in the place of the state. -/
  | folder
  | state (bytes : Bytes)
deriving DecidableEq

def nextSlot (s : CacheStore) (fs : Files) : Nat := (s.engineDirs fs).getLast?.getD 0 + 1

def withTrace (s : CacheStore) (root : Place) (fs : Files) : Trace → Files
  | .nothing => fs
  | .slot => fs.setName (s.slotPlace root (s.nextSlot fs)) .directory
  | .folder => s.leave root (s.nextSlot fs) .directory [] fs
  | .state bytes => s.leave root (s.nextSlot fs) (.file fs.contents.length) bytes fs

/-- What stands in the place of a state that was not there before. -/
theorem of_node?_withTrace (hLabel : '/' ∉ s.label.toList) {trace : Trace} {n : Nat} {node : FileNode}
    (hNone : fs.node? (s.filePlace root n blobName) = none)
    (hThere : (s.withTrace root fs trace).node? (s.filePlace root n blobName) = some node) :
    trace = .folder ∧ node = .directory ∨ ∃ bytes number, trace = .state bytes ∧ node = .file number := by
  cases trace with
  | nothing =>
    rw [withTrace, hNone] at hThere
    cases hThere
  | slot =>
    rw [withTrace, node?_slot hLabel, if_neg filePlace_ne_slotPlace, hNone] at hThere
    cases hThere
  | folder =>
    rw [withTrace, node?_leave hLabel, if_neg filePlace_ne_slotPlace, hNone] at hThere
    split at hThere
    · cases hThere
      exact .inl ⟨rfl, rfl⟩
    · cases hThere
  | state bytes =>
    rw [withTrace, node?_leave hLabel, if_neg filePlace_ne_slotPlace, hNone] at hThere
    split at hThere
    · cases hThere
      exact .inr ⟨bytes, _, rfl, rfl⟩
    · cases hThere

/-- A state is left only if it was asked for, and it is not too large. -/
def Trace.isAllowed (command : Command) : Trace → Bool
  | .state bytes => bytes.length < Json.wordBound && command.args.contains Command.stateFlag
  | _ => true

instance (s : CacheStore) (fs : Files) (n : Nat) : Decidable (s.IsRoom fs n) :=
  inferInstanceAs (Decidable (_ ∧ _))

/-- The trace can be left, as far as this can be checked on the names. -/
def Leavable (s : CacheStore) (root : Place) (command : Command) (fs : Files) (trace : Trace) : Prop :=
  fs.find s.resultsDir = .ok (root, .directory) ∧
  (∀ e ∈ fs.names, root <+: e.1 →
    ∀ name ∈ (e.1.drop root.length).head?, fs.node? (root ++ [name]) = some .directory) ∧
  s.IsRoom fs (s.nextSlot fs) ∧ s.Reaches (s.nextSlot fs) blobName ∧ trace.isAllowed command = true ∧
  (∀ e ∈ (s.withTrace root fs trace).names, e.2 = .directory ∨
    e.2 ∈ (List.range (s.withTrace root fs trace).contents.length).map .file) ∧
  ∀ e ∈ (s.withTrace root fs trace).names, ∀ e' ∈ (s.withTrace root fs trace).names,
    e.2 = e'.2 → e.2 = .directory ∨ e.1 = e'.1

instance (s : CacheStore) (root : Place) (command : Command) (fs : Files) (trace : Trace) :
    Decidable (s.Leavable root command fs trace) :=
  inferInstanceAs (Decidable (_ ∧ _))

namespace Leavable

variable {trace : Trace}

theorem sound (h : s.Leavable root l.command l.before trace)
    (hAfter : l.after = s.withTrace root l.before trace) : l.after.Sound := by
  obtain ⟨-, -, -, -, -, hBounded, hApart⟩ := h
  rw [hAfter]
  exact .of_names hBounded hApart

variable (h : s.Leavable root l.command l.before trace) (hLabel : '/' ∉ s.label.toList)

include h hLabel

theorem tidy : s.Tidy root l.before := by
  obtain ⟨hFound, hNames, -⟩ := h
  exact tidy_of_names hLabel hFound hNames

variable (hAfter : l.after = s.withTrace root l.before trace)

include hAfter

theorem confined : s.Confined root l := by
  have hTidy := h.tidy hLabel
  obtain ⟨-, -, hRoom, -, hAllowed, -⟩ := h
  cases trace with
  | nothing => exact confined_of_unchanged hTidy hAfter
  | slot => exact confined_of_slot hTidy hRoom hAfter
  | folder => exact confined_leave hTidy hRoom hAfter fun number hNumber => by cases hNumber
  | state bytes =>
    rw [Trace.isAllowed, Bool.and_eq_true, decide_eq_true_iff, List.contains_iff_mem] at hAllowed
    refine confined_leave hTidy hRoom hAfter fun number hNumber => ?_
    cases hNumber
    exact ⟨rfl, hAllowed⟩

theorem leaves_iff {bytes : Bytes} : l.Leaves s bytes ↔ trace = .state bytes := by
  have hTidy := h.tidy hLabel
  have hConfined := h.confined hLabel hAfter
  obtain ⟨-, -, hRoom, hReaches, -⟩ := h
  constructor
  · intro hLeaves
    obtain ⟨n, hBound, hNew, hRead, -⟩ := id hLeaves
    obtain ⟨-, number, hFile⟩ :=
      (isFile_slot_iff (hConfined.tidy hTidy) entryName_blob).mp (Files.isFile_of_read hRead)
    have hNone : l.before.node? (s.filePlace root n blobName) = none := by
      by_contra hThere
      exact hNew (mem_engineDirs hTidy hBound (hTidy.below n _ [] hThere))
    rw [hAfter] at hFile
    rcases of_node?_withTrace hLabel hNone hFile with ⟨-, hNode⟩ | ⟨left, _, rfl, -⟩
    · cases hNode
    · rw [(hConfined.leaves_leave hTidy hRoom hReaches hAfter).unique hLeaves]
  · rintro rfl
    exact hConfined.leaves_leave hTidy hRoom hReaches hAfter

theorem noFolder (hTrace : trace ≠ .folder) {n : Nat} (hRoom : s.IsRoom l.before n) :
    l.after.node? (s.filePlace root n blobName) ≠ some .directory := by
  intro hThere
  have hNone : l.before.node? (s.filePlace root n blobName) = none :=
    (h.tidy hLabel).node?_room hRoom _
  rw [hAfter] at hThere
  rcases of_node?_withTrace hLabel hNone hThere with ⟨hFolder, -⟩ | ⟨_, _, -, hNode⟩
  · exact hTrace hFolder
  · cases hNode

end Leavable

end Reanalysis.CacheStore
