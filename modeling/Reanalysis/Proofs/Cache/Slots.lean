import Reanalysis.Cache.Store
import Reanalysis.Proofs.Action
import Reanalysis.Proofs.Files.Place

/-!
# The directories of the store

The directory with a number is the slot with that number. An action of the store that comes to a
result has done something to the files of a few slots and nothing to anything else.
-/

namespace Reanalysis

open Files (Location PlainName)

theorem Text.getLast?_toDigits (n : Nat) :
    ∃ c, (Nat.toDigits 10 n).getLast? = some c ∧ c.isDigit = true := by
  obtain ⟨c, hLast⟩ := Option.isSome_iff_exists.mp (List.getLast?_isSome.mpr Nat.toDigits_ne_nil)
  exact ⟨c, hLast, isDigit_of_mem_toDigits (List.mem_of_getLast? hLast)⟩

namespace CacheStore

variable {s : CacheStore} {root : Place} {fs fs' : Files}

/-! ## Names -/

def slotName (s : CacheStore) (n : Nat) : String := s.label ++ toString n

def metaName : String := "cache.meta.json"

structure EntryName (name : String) : Prop extends PlainName name where
  short : Files.isOverlong name = false

theorem entryName_blob : EntryName blobName :=
  ⟨⟨by decide, by decide, by decide, by decide⟩, by decide⟩

theorem entryName_meta : EntryName metaName :=
  ⟨⟨by decide, by decide, by decide, by decide⟩, by decide⟩

theorem toList_slotName (n : Nat) : (s.slotName n).toList = s.label.toList ++ Nat.toDigits 10 n := by
  rw [slotName, String.toList_append, Nat.toString_eq_repr, Nat.toList_repr]

theorem slotName_inj {n m : Nat} (h : s.slotName n = s.slotName m) : n = m := by
  have hChars := congrArg String.toList h
  rw [toList_slotName, toList_slotName] at hChars
  have hDigits := List.append_cancel_left hChars
  rw [← Text.natOfDigits_toDigits n, hDigits, Text.natOfDigits_toDigits]

theorem slotName_ne {n : Nat} {name : String} (h : name.toList.getLast?.all (!·.isDigit) = true) :
    s.slotName n ≠ name := by
  intro hName
  obtain ⟨c, hLast, hDigit⟩ := Text.getLast?_toDigits n
  have hEnd : name.toList.getLast? = some c := by
    rw [← hName, toList_slotName, List.getLast?_append, hLast]
    rfl
  rw [hEnd, Option.all_some, hDigit] at h
  cases h

theorem plain_slotName (h : '/' ∉ s.label.toList) (n : Nat) : PlainName (s.slotName n) where
  ne_blank := slotName_ne (by decide)
  ne_point := slotName_ne (by decide)
  ne_points := slotName_ne (by decide)
  no_slash := by
    rw [toList_slotName, List.mem_append, not_or]
    exact ⟨h, fun hMem => Text.ne_of_isDigit (Text.isDigit_of_mem_toDigits hMem) (by decide) rfl⟩

/-! ## Places -/

def slotPlace (s : CacheStore) (root : Place) (n : Nat) : Place := root ++ [s.slotName n]

def filePlace (s : CacheStore) (root : Place) (n : Nat) (name : String) : Place :=
  root ++ [s.slotName n, name]

theorem filePlace_inj {n m : Nat} {a b : String}
    (h : s.filePlace root n a = s.filePlace root m b) : n = m ∧ a = b := by
  have hNames := List.append_cancel_left h
  rw [List.cons.injEq, List.cons.injEq] at hNames
  exact ⟨slotName_inj hNames.1, hNames.2.1⟩

theorem filePlace_ne_slotPlace {n m : Nat} {name : String} :
    s.filePlace root n name ≠ s.slotPlace root m := by
  intro h
  have hLength := congrArg List.length h
  simp [filePlace, slotPlace] at hLength

/-- The results are in a directory, a slot is a directory or missing, and nothing is in a slot that
is missing. -/
structure Tidy (s : CacheStore) (root : Place) (fs : Files) : Prop where
  label : '/' ∉ s.label.toList
  found : fs.find s.resultsDir = .ok (root, .directory)
  noFile : ∀ n number, fs.node? (s.slotPlace root n) ≠ some (.file number)
  below : ∀ n name rest, fs.node? (root ++ s.slotName n :: name :: rest) ≠ none →
    fs.node? (s.slotPlace root n) = some .directory

theorem Tidy.leads (h : s.Tidy root fs) : fs.Leads s.resultsDir root := Files.leads_of_find h.found

theorem Tidy.alters {changed : Place → Prop} (h : s.Tidy root fs) (hAlters : Files.Alters changed fs fs')
    (hSlots : ∀ n, changed (s.slotPlace root n) → fs'.node? (s.slotPlace root n) = some .directory)
    (hBelow : ∀ n name rest, changed (root ++ s.slotName n :: name :: rest) →
      fs'.node? (root ++ s.slotName n :: name :: rest) ≠ none →
      fs'.node? (s.slotPlace root n) = some .directory) : s.Tidy root fs' where
  label := h.label
  found := Files.find_of_directories hAlters.standing h.found
  noFile := by
    intro n number hFile
    by_cases hChanged : changed (s.slotPlace root n)
    · rw [hSlots n hChanged] at hFile
      cases hFile
    · rw [hAlters.node _ hChanged] at hFile
      exact h.noFile n number hFile
  below := by
    intro n name rest hThere
    by_cases hChanged : changed (root ++ s.slotName n :: name :: rest)
    · exact hBelow n name rest hChanged hThere
    · rw [hAlters.node _ hChanged] at hThere
      exact hAlters.standing _ (h.below n name rest hThere)

theorem Tidy.slot_of_file (h : s.Tidy root fs) {n : Nat} {name : String} {node : FileNode}
    (hFile : fs.node? (s.filePlace root n name) = some node) :
    fs.node? (s.slotPlace root n) = some .directory := by
  refine h.below n name [] ?_
  change fs.node? (s.filePlace root n name) ≠ none
  simp [hFile]

theorem Tidy.slot_of_below (h : s.Tidy root fs) {n : Nat} {inner : List String}
    (hThere : fs.node? (root ++ s.slotName n :: inner) = some .directory) :
    fs.node? (s.slotPlace root n) = some .directory := by
  cases inner with
  | nil => exact hThere
  | cons name rest => exact h.below n name rest (by simp [hThere])

theorem Tidy.alters_file (h : s.Tidy root fs) {n : Nat} {name : String}
    (hAlters : Files.Alters (· = s.filePlace root n name) fs fs')
    (hSlot : fs'.node? (s.filePlace root n name) ≠ none →
      fs'.node? (s.slotPlace root n) = some .directory) : s.Tidy root fs' := by
  refine h.alters hAlters ?_ ?_
  · intro m hm
    exact absurd hm.symm filePlace_ne_slotPlace
  · intro m other rest hm hThere
    have hNames := List.append_cancel_left hm
    rw [List.cons.injEq] at hNames
    rw [slotName_inj hNames.1]
    exact hSlot (hm ▸ hThere)

/-! ## Looking into slots -/

/-- The system can take the location of a file in a slot. -/
def Reaches (s : CacheStore) (n : Nat) (name : String) : Prop :=
  Files.fault? (Files.join (s.engineDir n) name) = none ∧ Files.isOverlong (s.slotName n) = false

instance (s : CacheStore) (n : Nat) (name : String) : Decidable (s.Reaches n name) :=
  inferInstanceAs (Decidable (_ ∧ _))

section Looking

variable {n : Nat} {name : String}

theorem place_slot (h : s.Tidy root fs) (hName : EntryName name) (hReach : s.Reaches n name) :
    fs.place (Files.join (s.engineDir n) name) =
      if fs.node? (s.slotPlace root n) = some .directory then .ok (s.filePlace root n name)
      else .error .notFound := by
  have hPlace := Files.place_join_join h.leads (plain_slotName h.label n) hName.toPlainName
  have hFault : Files.fault? (Files.join (Files.join s.resultsDir (s.slotName n)) name) = none :=
    hReach.1
  rw [hFault, hReach.2, hName.short] at hPlace
  rw [engineDir, ← slotName, hPlace]
  have hSlot : root ++ [s.slotName n] = s.slotPlace root n := rfl
  rw [hSlot]
  rcases hNode : fs.node? (s.slotPlace root n) with _ | ⟨number | -⟩
  · rfl
  · exact absurd hNode (h.noFile n number)
  · rfl

theorem find_slot (h : s.Tidy root fs) (hName : EntryName name) (hReach : s.Reaches n name) :
    fs.find (Files.join (s.engineDir n) name) = match fs.node? (s.filePlace root n name) with
      | some node => .ok (s.filePlace root n name, node)
      | none => .error .notFound := by
  rw [Files.find_eq, place_slot h hName hReach]
  by_cases hSlot : fs.node? (s.slotPlace root n) = some .directory
  · rewrite [if_pos hSlot]
    rfl
  · have hNone : fs.node? (s.filePlace root n name) = none := by
      by_contra hThere
      exact hSlot (h.below n name [] hThere)
    rw [if_neg hSlot, hNone]

/-- How a location fails that the system cannot take does not depend on the files. -/
theorem find_unreached_eq (h : s.Tidy root fs) (hName : EntryName name) (hReach : ¬ s.Reaches n name) :
    fs.find (Files.join (s.engineDir n) name) =
      .error ((Files.fault? (Files.join (s.engineDir n) name)).getD .nameTooLong) := by
  have hPlace := Files.place_join_join h.leads (plain_slotName h.label n) hName.toPlainName
  rw [Files.find_eq, engineDir, ← slotName, hPlace]
  cases hFault : Files.fault? (Files.join (Files.join s.resultsDir (s.slotName n)) name) with
  | some fault => rfl
  | none =>
    cases hLong : Files.isOverlong (s.slotName n) with
    | false => exact absurd ⟨hFault, hLong⟩ hReach
    | true => rfl

theorem find_unreached (h : s.Tidy root fs) (hName : EntryName name) (hReach : ¬ s.Reaches n name) :
    ∃ e, fs.find (Files.join (s.engineDir n) name) = .error e ∧ e ≠ .notFound := by
  refine ⟨_, find_unreached_eq h hName hReach, ?_⟩
  cases hFault : Files.fault? (Files.join (s.engineDir n) name) with
  | none => decide
  | some fault =>
    rintro rfl
    exact Files.fault?_ne_notFound _ hFault

theorem isFile_slot_iff (h : s.Tidy root fs) (hName : EntryName name) :
    fs.isFile (Files.join (s.engineDir n) name) = true ↔
      s.Reaches n name ∧ ∃ number, fs.node? (s.filePlace root n name) = some (.file number) := by
  by_cases hReach : s.Reaches n name
  · rw [Files.isFile, find_slot h hName hReach]
    rcases fs.node? (s.filePlace root n name) with _ | ⟨number | -⟩ <;> simp [hReach]
  · obtain ⟨e, hFind, -⟩ := find_unreached h hName hReach
    rw [Files.isFile, hFind]
    simp [hReach]

theorem read_slot (h : s.Tidy root fs) (hName : EntryName name) (hReach : s.Reaches n name) :
    fs.read (Files.join (s.engineDir n) name) = match fs.node? (s.filePlace root n name) with
      | some (.file number) => .ok (fs.content number)
      | some .directory => .error .isDirectory
      | none => .error .notFound := by
  rw [Files.read, find_slot h hName hReach]
  rcases fs.node? (s.filePlace root n name) with _ | ⟨number | -⟩ <;> rfl

theorem read_unreached (h : s.Tidy root fs) (hName : EntryName name) (hReach : ¬ s.Reaches n name) :
    ∃ e, fs.read (Files.join (s.engineDir n) name) = .error e ∧ e ≠ .notFound := by
  obtain ⟨e, hFind, hNe⟩ := find_unreached h hName hReach
  refine ⟨e, ?_, hNe⟩
  rw [Files.read, hFind]
  rfl

end Looking

/-! ## Actions -/

section Actions

variable {n : Nat} {name : String}

theorem gives_readOptional_iff (h : s.Tidy root fs) (hName : EntryName name) {found : Option Bytes} :
    Gives (StoreAction.readOptional (Files.join (s.engineDir n) name)) fs found fs' ↔
      fs' = fs ∧ s.Reaches n name ∧
        (found = none ∧ fs.node? (s.filePlace root n name) = none ∨
          ∃ number, fs.node? (s.filePlace root n name) = some (.file number) ∧
            found = some (fs.content number)) := by
  rw [StoreAction.readOptional, Gives.get_bind_iff]
  by_cases hReach : s.Reaches n name
  · rw [read_slot h hName hReach]
    rcases fs.node? (s.filePlace root n name) with _ | ⟨number | -⟩ <;> simp [hReach, eq_comm, and_comm]
  · obtain ⟨e, hRead, hNe⟩ := read_unreached h hName hReach
    rw [hRead]
    cases e <;> simp [hReach] at hNe ⊢

theorem fails_readOptional_unreached (h : s.Tidy root fs) (hName : EntryName name)
    (hReach : ¬ s.Reaches n name) :
    ∃ cause, Fails (StoreAction.readOptional (Files.join (s.engineDir n) name)) fs
      (.io (Files.join (s.engineDir n) name) cause) fs := by
  obtain ⟨e, hRead, hNe⟩ := read_unreached h hName hReach
  refine ⟨e, ?_⟩
  rw [StoreAction.readOptional, Fails.get_bind_iff, hRead]
  cases e <;> first | exact absurd rfl hNe | rfl

theorem fails_readOptional_directory (h : s.Tidy root fs) (hName : EntryName name)
    (hReach : s.Reaches n name) (hNode : fs.node? (s.filePlace root n name) = some .directory) :
    Fails (StoreAction.readOptional (Files.join (s.engineDir n) name)) fs
      (.io (Files.join (s.engineDir n) name) .isDirectory) fs := by
  rw [StoreAction.readOptional, Fails.get_bind_iff, read_slot h hName hReach, hNode]
  rfl

theorem gives_removeOptional (h : s.Tidy root fs) (hName : EntryName name) {found : Bool}
    (hRun : Gives (StoreAction.removeOptional (Files.join (s.engineDir n) name)) fs found fs') :
    s.Reaches n name ∧ fs'.node? (s.filePlace root n name) = none ∧
      Files.Alters (· = s.filePlace root n name) fs fs' ∧ s.Tidy root fs' := by
  rw [StoreAction.removeOptional, Gives.get_bind_iff] at hRun
  by_cases hReach : s.Reaches n name
  · rw [Files.removeFile_eq, find_slot h hName hReach] at hRun
    rcases hNode : fs.node? (s.filePlace root n name) with _ | ⟨number | -⟩
    · simp only [hNode, Gives.pure_iff] at hRun
      obtain ⟨-, rfl⟩ := hRun
      exact ⟨hReach, hNode, .refl _ fs, h⟩
    · simp only [hNode, Gives.bind_iff, Gives.set_iff, Gives.pure_iff] at hRun
      obtain ⟨-, _, rfl, -, rfl⟩ := hRun
      have hFree : fs.node? (s.filePlace root n name) ≠ some .directory := by
        rw [hNode]
        simp
      have hGone : (fs.dropName (s.filePlace root n name)).node? (s.filePlace root n name) = none := by
        rw [Files.node?_dropName (Files.named_of_ne_directory hFree), if_pos rfl]
      have hAlters : Files.Alters (· = s.filePlace root n name) fs
          (fs.dropName (s.filePlace root n name)) := .dropName rfl hFree
      exact ⟨hReach, hGone, hAlters, h.alters_file hAlters fun hThere => absurd hGone hThere⟩
    · simp [hNode] at hRun
  · obtain ⟨e, hFind, hNe⟩ := find_unreached h hName hReach
    rw [Files.removeFile_eq, hFind] at hRun
    cases e <;> simp at hRun hNe

theorem gives_discard (h : s.Tidy root fs) {id : ProgramId} {found : Bool}
    (hRun : Gives (s.discard id) fs found fs') :
    s.Reaches id.number blobName ∧ s.Reaches id.number metaName ∧
      fs'.node? (s.filePlace root id.number blobName) = none ∧
      fs'.node? (s.filePlace root id.number metaName) = none ∧
      Files.Alters (fun q => q = s.filePlace root id.number blobName ∨
        q = s.filePlace root id.number metaName) fs fs' ∧ s.Tidy root fs' := by
  simp only [discard, Gives.bind_iff, Gives.pure_iff] at hRun
  obtain ⟨state, fs₁, hState, described, fs₂, hDescribed, -, rfl⟩ := hRun
  obtain ⟨hReach, hBlob, hAlters, hTidy⟩ := gives_removeOptional h entryName_blob hState
  obtain ⟨hReach', hMeta, hAlters', hTidy'⟩ := gives_removeOptional hTidy entryName_meta hDescribed
  refine ⟨hReach, hReach', ?_, hMeta, ?_, hTidy'⟩
  · rw [hAlters'.node, hBlob]
    intro hEq
    exact absurd (filePlace_inj hEq).2 (by decide)
  · exact (hAlters.mono fun q hq => .inl hq).trans (hAlters'.mono fun q hq => .inr hq)

theorem gives_discardProduced (h : s.Tidy root fs) {u : Unit}
    (hRun : Gives (s.discardProduced n) fs u fs') :
    fs'.node? (s.filePlace root n blobName) = none ∧
      Files.Alters (· = s.filePlace root n blobName) fs fs' ∧ s.Tidy root fs' := by
  simp only [discardProduced, Gives.bind_iff, Gives.pure_iff] at hRun
  obtain ⟨found, fs₁, hFound, -, rfl⟩ := hRun
  exact (gives_removeOptional h entryName_blob hFound).2

theorem gives_makeSlot (h : s.Tidy root fs) {u : Unit}
    (hRun : Gives (StoreAction.perform (.makeDirectories (s.engineDir n))) fs u fs') :
    fs'.node? (s.slotPlace root n) = some .directory ∧
      Files.Alters (· = s.slotPlace root n) fs fs' ∧ s.Tidy root fs' := by
  have hName := plain_slotName h.label n
  rw [StoreAction.gives_perform_iff, FileStep.run] at hRun
  rcases hMade : fs.makeDirectories (s.engineDir n) with ⟨fs₁, failure⟩
  rw [hMade, Prod.mk.injEq, Option.map_eq_none_iff] at hRun
  obtain ⟨rfl, rfl⟩ := hRun
  have hSlot : fs₁.node? (s.slotPlace root n) = some .directory :=
    Files.directory_of_makeDirectories h.leads hName hMade
  have hAlters : Files.Alters (· = s.slotPlace root n) fs fs₁ := by
    rw [show fs₁ = (fs.makeDirectories (s.engineDir n)).1 by rw [hMade]]
    exact Files.alters_makeDirectories h.leads hName
  refine ⟨hSlot, hAlters, h.alters hAlters ?_ ?_⟩
  · intro m hm
    rw [hm, hSlot]
  · intro m name rest hm
    have hLength := congrArg List.length hm
    simp [slotPlace] at hLength

theorem gives_metaSteps (h : s.Tidy root fs) {id : ProgramId} {state : Bytes} {base : Option Digest}
    (hSlot : fs.node? (s.slotPlace root id.number) = some .directory) {u : PUnit}
    (hRun : Gives ((s.metaSteps id state base).forM StoreAction.perform) fs u fs') :
    fs'.Holds (s.filePlace root id.number metaName) (s.sidecar id state base).encode ∧
      Files.Alters (· = s.filePlace root id.number metaName) fs fs' ∧ s.Tidy root fs' := by
  have hName := plain_slotName h.label id.number
  have hDirectory : Files.directoryOf (s.metaPath id) = s.engineDir id.number :=
    Files.directoryOf_join hName entryName_meta.toPlainName
  simp only [metaSteps, Files.replacement, hDirectory, Gives.forM_cons_iff, Gives.forM_nil_iff,
    StoreAction.gives_perform_iff] at hRun
  obtain ⟨fs₁, hMade, fs₂, hStaged, fs₃, hLinked, rfl⟩ := hRun
  -- The slot is there, so the first step changes nothing.
  have hFirst : fs₁ = fs := (congrArg Prod.fst hMade).symm.trans
    (Files.makeDirectories_of_directory h.leads hName hSlot)
  subst hFirst
  have hSecond : fs₂ = (fs₁.stage (s.sidecar id state base).encode).2 :=
    (congrArg Prod.fst hStaged).symm
  have hTidy : s.Tidy root fs₂ := by
    have hStage : Files.Alters (fun _ => False) fs₁ fs₂ := by
      rw [hSecond]
      exact .stage _
    exact h.alters hStage (fun _ => False.elim) (fun _ _ _ => False.elim)
  have hNumber : fs₂.contents.length - 1 = fs₁.contents.length := by
    rw [hSecond, Files.stage, List.length_append, List.length_singleton, Nat.add_sub_cancel]
  have hThird : fs₂.link fs₁.contents.length (s.metaPath id) = .ok fs₃ := by
    rw [FileStep.run, hNumber] at hLinked
    split at hLinked <;> cases hLinked
    assumption
  obtain ⟨-, hFree, hSet⟩ :=
    Files.link_join_join hTidy.leads hName entryName_meta.toPlainName hThird
  change fs₂.node? (s.filePlace root id.number metaName) ≠ some .directory at hFree
  change fs₃ = fs₂.setName (s.filePlace root id.number metaName) _ at hSet
  have hAlters : Files.Alters (· = s.filePlace root id.number metaName) fs₁ fs₃ := by
    rw [hSet]
    exact Files.Alters.trans (by rw [hSecond]; exact .stage _) (.setName _ rfl hFree)
  have hNode : fs₃.node? (s.filePlace root id.number metaName) =
      some (.file fs₁.contents.length) := by
    rw [hSet, Files.node?_setName (Files.named_of_ne_directory hFree), if_pos rfl]
  refine ⟨⟨fs₁.contents.length, hNode, ?_⟩, hAlters, h.alters_file hAlters fun _ =>
    hAlters.standing _ hSlot⟩
  rw [hSet, hSecond]
  simp [Files.setName, Files.stage]

/-- A program without state is left alone; one with state gets a sidecar. -/
theorem gives_register (h : s.Tidy root fs) {id : ProgramId} {base : Option Digest}
    {made : Option CacheArtifact} (hRun : Gives (s.register id base) fs made fs') :
    fs.node? (s.filePlace root id.number blobName) = none ∧ fs' = fs ∨
    ∃ number, fs.node? (s.filePlace root id.number blobName) = some (.file number) ∧
      fs'.Holds (s.filePlace root id.number metaName)
        (s.sidecar id (fs.content number) base).encode ∧
      Files.Alters (· = s.filePlace root id.number metaName) fs fs' ∧ s.Tidy root fs' := by
  simp only [register, Gives.bind_iff] at hRun
  obtain ⟨found, fs₁, hFound, hRun⟩ := hRun
  obtain ⟨rfl, -, ⟨rfl, hNone⟩ | ⟨number, hFile, rfl⟩⟩ :=
    (gives_readOptional_iff h entryName_blob).mp hFound
  · exact .inl ⟨hNone, (Gives.pure_iff.mp hRun).2.symm⟩
  · simp only [Gives.bind_iff, Gives.pure_iff] at hRun
    obtain ⟨_, fs₂, hSteps, -, rfl⟩ := hRun
    exact .inr ⟨number, hFile, gives_metaSteps h (h.slot_of_file hFile) hSteps⟩

theorem gives_change_iff {path : Location} {f : Files → Except FileError Files} {u : Unit} :
    Gives (StoreAction.change path f) fs u fs' ↔ f fs = .ok fs' := by
  rw [StoreAction.change, Gives.get_bind_iff]
  constructor
  · intro hRun
    split at hRun
    · rename_i hChange
      rw [hChange, Gives.set_iff.mp hRun]
    · exact absurd hRun Gives.not_throw
  · intro hChange
    rw [hChange]
    exact Gives.set_iff.mpr rfl

theorem gives_rename (h : s.Tidy root fs) {m : Nat} {u : Unit} {path : Location} {state : Bytes}
    (hNe : n ≠ m) (hSlot : fs.node? (s.slotPlace root m) = some .directory)
    (hState : fs.Holds (s.filePlace root n blobName) state)
    (hRun : Gives (StoreAction.change path (·.rename (s.engineBlob n) (s.engineBlob m))) fs u fs') :
    fs'.node? (s.filePlace root n blobName) = none ∧
      fs'.Holds (s.filePlace root m blobName) state ∧
      Files.Alters (fun q => q = s.filePlace root n blobName ∨ q = s.filePlace root m blobName)
        fs fs' ∧ s.Tidy root fs' := by
  obtain ⟨number, hFile, hBytes⟩ := hState
  rw [gives_change_iff, Files.rename_eq] at hRun
  have hReach : s.Reaches n blobName := by
    by_contra hReach
    obtain ⟨e, hFind, -⟩ := find_unreached h entryName_blob hReach
    rw [engineBlob, hFind] at hRun
    cases hRun
  have hFind := find_slot h entryName_blob hReach
  rw [hFile] at hFind
  rw [engineBlob, hFind] at hRun
  change (fs.dropName (s.filePlace root n blobName)).link number (s.engineBlob m) = .ok fs' at hRun
  have hFree : fs.node? (s.filePlace root n blobName) ≠ some .directory := by simp [hFile]
  have hNamed := Files.named_of_ne_directory hFree
  generalize hDropped : fs.dropName (s.filePlace root n blobName) = fs₁ at hRun
  have hGone : fs₁.node? (s.filePlace root n blobName) = none := by
    rw [← hDropped, Files.node?_dropName hNamed, if_pos rfl]
  have hFirst : Files.Alters (· = s.filePlace root n blobName) fs fs₁ := by
    rw [← hDropped]
    exact .dropName rfl hFree
  have hTidy : s.Tidy root fs₁ := h.alters_file hFirst fun hThere => absurd hGone hThere
  obtain ⟨-, hTarget, hSet⟩ := Files.link_join_join hTidy.leads (plain_slotName h.label m)
    entryName_blob.toPlainName hRun
  change fs₁.node? (s.filePlace root m blobName) ≠ some .directory at hTarget
  change fs' = fs₁.setName (s.filePlace root m blobName) _ at hSet
  have hNamed' := Files.named_of_ne_directory hTarget
  have hSecond : Files.Alters (· = s.filePlace root m blobName) fs₁ fs' := by
    rw [hSet]
    exact .setName _ rfl hTarget
  refine ⟨?_, ⟨number, ?_, ?_⟩, ?_, hTidy.alters_file hSecond fun _ => ?_⟩
  · rw [hSecond.node, hGone]
    intro hEq
    exact hNe (filePlace_inj hEq).1
  · rw [hSet, Files.node?_setName hNamed', if_pos rfl]
  · rw [hSet, ← hDropped]
    exact hBytes
  · exact (hFirst.mono fun q hq => .inl hq).trans (hSecond.mono fun q hq => .inr hq)
  · exact hSecond.standing _ (hFirst.standing _ hSlot)

theorem gives_register_of_holds (h : s.Tidy root fs) {id : ProgramId} {base : Option Digest}
    {state : Bytes} {made : Option CacheArtifact}
    (hState : fs.Holds (s.filePlace root id.number blobName) state)
    (hRun : Gives (s.register id base) fs made fs') :
    fs'.Holds (s.filePlace root id.number blobName) state ∧
      fs'.Holds (s.filePlace root id.number metaName) (s.sidecar id state base).encode ∧
      Files.Alters (· = s.filePlace root id.number metaName) fs fs' ∧ s.Tidy root fs' := by
  obtain ⟨number, hFile, hBytes⟩ := hState
  rcases gives_register h hRun with ⟨hNone, -⟩ | ⟨other, hOther, hMeta, hAlters, hTidy⟩
  · rw [hFile] at hNone
    cases hNone
  · rw [hFile] at hOther
    cases hOther
    rw [Files.content, hBytes, Option.getD_some] at hMeta
    refine ⟨hAlters.held _ _ (fun hEq => ?_) ⟨number, hFile, hBytes⟩, hMeta, hAlters, hTidy⟩
    exact absurd (filePlace_inj hEq).2 (by decide)

/-- The state in a slot becomes the state of a program and gets a sidecar. -/
theorem gives_adopt (h : s.Tidy root fs) {id : ProgramId} {base : Option Digest} {state : Bytes}
    {made : Option CacheArtifact} (hReach : s.Reaches n blobName)
    (hState : fs.Holds (s.filePlace root n blobName) state)
    (hRun : Gives (s.adopt id n base) fs made fs') :
    (n ≠ id.number → fs'.node? (s.filePlace root n blobName) = none) ∧
      fs'.Holds (s.filePlace root id.number blobName) state ∧
      fs'.Holds (s.filePlace root id.number metaName) (s.sidecar id state base).encode ∧
      Files.Alters (fun q => q = s.slotPlace root id.number ∨ q = s.filePlace root n blobName ∨
        q = s.filePlace root id.number blobName ∨ q = s.filePlace root id.number metaName) fs fs' ∧
      s.Tidy root fs' := by
  rw [adopt] at hRun
  -- Either way the state ends up in the slot of the program, and is registered there.
  by_cases hNumber : n = id.number
  · rw [if_pos hNumber] at hRun
    subst hNumber
    obtain ⟨hBlob, hMeta, hAlters, hTidy⟩ := gives_register_of_holds h hState hRun
    exact ⟨fun hNe => absurd rfl hNe, hBlob, hMeta,
      hAlters.mono fun q hq => .inr (.inr (.inr hq)), hTidy⟩
  · rw [if_neg hNumber] at hRun
    obtain ⟨number, hFile, hBytes⟩ := hState
    have hThere : fs.isFile (s.engineBlob n) = true :=
      (isFile_slot_iff h entryName_blob).mpr ⟨hReach, number, hFile⟩
    rw [Gives.get_bind_iff] at hRun
    simp only [hThere, Bool.not_true, Bool.false_eq_true, if_false, Gives.bind_iff] at hRun
    obtain ⟨_, fs₁, hMade, _, fs₂, hMoved, hRegistered⟩ := hRun
    obtain ⟨hSlot, hFirst, hTidy₁⟩ := gives_makeSlot h hMade
    have hState₁ : fs₁.Holds (s.filePlace root n blobName) state :=
      hFirst.held _ _ filePlace_ne_slotPlace ⟨number, hFile, hBytes⟩
    obtain ⟨hGone, hState₂, hSecond, hTidy₂⟩ := gives_rename hTidy₁ hNumber hSlot hState₁ hMoved
    obtain ⟨hBlob, hMeta, hThird, hTidy⟩ := gives_register_of_holds hTidy₂ hState₂ hRegistered
    refine ⟨fun _ => ?_, hBlob, hMeta, ?_, hTidy⟩
    · rw [hThird.node, hGone]
      intro hEq
      exact absurd (filePlace_inj hEq).2 (by decide)
    · refine (hFirst.mono fun q hq => .inl hq).trans ((hSecond.mono fun q hq => ?_).trans
        (hThird.mono fun q hq => .inr (.inr (.inr hq))))
      exact hq.elim (fun hq => .inr (.inl hq)) (fun hq => .inr (.inr (.inl hq)))

end Actions

end CacheStore

end Reanalysis
