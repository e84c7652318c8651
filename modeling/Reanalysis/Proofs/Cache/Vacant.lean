import Reanalysis.Proofs.Cache.Ledger

/-!
# Before the first results

The directory for results need not be there in the beginning: whatever is looked for in it is missing
then, and the first engine that leaves something makes it.
-/

namespace Reanalysis

open Files (Location)

namespace Files

variable {fs fs' : Files} {reached : Place} {steps rest : List String}

theorem walk_down (hUp : ".." ∉ steps) (hShort : ∀ name ∈ steps, isOverlong name = false)
    (hThere : ∀ q, q <+: steps → fs.node? (reached ++ q) = some .directory) :
    fs.walk reached steps = .ok (reached ++ steps) := by
  induction steps generalizing reached with
  | nil => simp [walk]
  | cons step steps ih =>
    rw [List.mem_cons, not_or] at hUp
    obtain ⟨hHead, hTail⟩ := List.forall_mem_cons.mp hShort
    have hNext : advance reached step = reached ++ [step] := if_neg (Ne.symm hUp.1)
    rw [walk_cons_eq_ok_iff (hThere _ List.prefix_rfl), hNext]
    refine ⟨hHead, hThere _ (List.cons_prefix_cons.mpr ⟨rfl, List.nil_prefix⟩), ?_⟩
    rw [ih hUp.2 hTail, List.append_assoc, List.singleton_append]
    intro q hq
    rw [List.append_assoc, List.singleton_append]
    exact hThere _ (List.cons_prefix_cons.mpr ⟨rfl, hq⟩)

theorem walk_gap (hUp : ".." ∉ steps) (hShort : ∀ name ∈ steps, isOverlong name = false)
    (hNoFile : ∀ q number, q <+: steps → fs.node? (reached ++ q) ≠ some (.file number))
    (hReached : fs.node? reached = some .directory)
    (hMissing : fs.node? (reached ++ steps) ≠ some .directory) (hRest : rest ≠ []) :
    fs.walk reached (steps ++ rest) = .error .notFound := by
  induction steps generalizing reached with
  | nil =>
    rw [List.append_nil] at hMissing
    exact absurd hReached hMissing
  | cons step steps ih =>
    rw [List.mem_cons, not_or] at hUp
    obtain ⟨hHead, hTail⟩ := List.forall_mem_cons.mp hShort
    have hNext : advance reached step = reached ++ [step] := if_neg (Ne.symm hUp.1)
    rw [List.cons_append, walk_cons _ _ (List.append_ne_nil_of_right_ne_nil steps hRest), hHead, hNext]
    rcases hNode : fs.node? (reached ++ [step]) with _ | ⟨number | -⟩
    · rfl
    · exact absurd hNode (hNoFile _ number (List.cons_prefix_cons.mpr ⟨rfl, List.nil_prefix⟩))
    · refine ih hUp.2 hTail (fun q number hq => ?_) hNode ?_
      · rw [List.append_assoc, List.singleton_append]
        exact hNoFile _ number (List.cons_prefix_cons.mpr ⟨rfl, hq⟩)
      · rwa [List.append_assoc, List.singleton_append]

/-- The directories on the way to a place have been made, and nothing else. -/
structure Paves (root : Place) (fs fs' : Files) : Prop where
  node : ∀ q, fs'.node? q = if q <+: root then some .directory else fs.node? q
  contents : fs'.contents = fs.contents

theorem Paves.touches {root : Place} (h : Paves root fs fs') :
    Touches (fun q => q <+: root ∧ fs.node? q ≠ some .directory) fs fs' := by
  have hNode : ∀ q, ¬ (q <+: root ∧ fs.node? q ≠ some .directory) → fs'.node? q = fs.node? q := by
    intro q hq
    rw [h.node]
    split
    · rename_i hPrefix
      exact (not_not.mp fun hNot => hq ⟨hPrefix, hNot⟩).symm
    · rfl
  refine ⟨⟨hNode, fun q bytes hq hHolds => ?_⟩, fun q hq => ?_⟩
  · obtain ⟨number, hFile, hBytes⟩ := hHolds
    exact ⟨number, (hNode q hq).trans hFile, h.contents ▸ hBytes⟩
  · rw [hNode q fun hNot => hNot.2 hq, hq]

end Files

def Ledger.IsEmpty (ledger : Ledger) : Prop :=
  (∀ id state base, ¬ ledger.keeps id state base) ∧ ∀ n, ¬ ledger.past n

theorem Ledger.IsEmpty.without {ledger : Ledger} (h : ledger.IsEmpty) (id : ProgramId) :
    (ledger.without id).IsEmpty := ⟨fun _ _ _ hKept => h.1 _ _ _ hKept.2, fun _ hFound => h.2 _ hFound.2⟩

namespace CacheStore

variable {s : CacheStore} {root : Place} {ledger : Ledger} {fs fs' : Files} {name : String} {n : Nat}

/-- The directory for results is not there, but it can be made. -/
structure Vacant (s : CacheStore) (root : Place) (fs : Files) : Prop where
  label : '/' ∉ s.label.toList
  faultless : Files.fault? s.resultsDir = none
  way : Files.steps s.resultsDir = root
  noUp : ".." ∉ root
  short : ∀ name ∈ root, Files.isOverlong name = false
  shortSlots : ∀ id : ProgramId, Files.isOverlong (s.slotName id.number) = false
  noFile : ∀ q number, q <+: root → fs.node? q ≠ some (.file number)
  missing : fs.node? root ≠ some .directory
  below : ∀ name rest, fs.node? (root ++ name :: rest) = none

namespace Vacant

theorem atTime (h : s.Vacant root fs) (now : Instant) : ({ s with now } : CacheStore).Vacant root fs :=
  ⟨h.label, h.faultless, h.way, h.noUp, h.short, h.shortSlots, h.noFile, h.missing, h.below⟩

theorem walk_behind (h : s.Vacant root fs) {rest : List String} (hRest : rest ≠ []) :
    fs.walk [] (root ++ rest) = .error .notFound :=
  Files.walk_gap h.noUp h.short h.noFile rfl h.missing hRest

theorem find_entry (h : s.Vacant root fs) (hName : EntryName name) :
    fs.find (Files.join (s.engineDir n) name) =
      .error ((Files.fault? (Files.join (s.engineDir n) name)).getD .notFound) := by
  have hSteps : Files.steps (Files.join (s.engineDir n) name) = root ++ [s.slotName n, name] := by
    rw [Files.steps_join hName.toPlainName, engineDir, ← slotName,
      Files.steps_join (plain_slotName h.label n), h.way, List.append_assoc]
    rfl
  rw [Files.find_eq, Files.place_eq_walk (Files.join_ne_blank hName.toPlainName)
    (Files.asksForDirectory_join hName.toPlainName), hSteps, h.walk_behind (by simp)]
  cases Files.fault? (Files.join (s.engineDir n) name) <;> rfl

theorem read_entry (h : s.Vacant root fs) (hName : EntryName name) :
    fs.read (Files.join (s.engineDir n) name) =
      .error ((Files.fault? (Files.join (s.engineDir n) name)).getD .notFound) := by
  rw [Files.read, h.find_entry hName]
  rfl

theorem engineDirs_eq_nil (h : s.Vacant root fs) : s.engineDirs fs = [] := by
  have hChildren : fs.children s.resultsDir = [] := by
    rw [Files.children]
    split
    · rename_i place hFound
      obtain ⟨hPlace, hNode⟩ := Files.place_of_find hFound
      have hWalk := Files.walk_of_place hPlace
      rw [h.way] at hWalk
      have hBehind := Files.walk_append hWalk hNode (List.cons_ne_nil "x" [])
      rw [h.walk_behind (by simp), Files.walk_singleton] at hBehind
      cases hBehind
    · rfl
  simp [engineDirs, hChildren]

theorem producedSince_eq_nil (h : s.Vacant root fs) (before : List Nat) :
    s.producedSince fs before = [] := by
  rw [producedSince, h.engineDirs_eq_nil]
  rfl

theorem not_leaves {l : Launch} (h : s.Vacant root l.after) (state : Bytes) : ¬ l.Leaves s state := by
  rintro ⟨n, -, -, hRead, -⟩
  rw [engineBlob, h.read_entry entryName_blob] at hRead
  cases hRead

/-! ### Actions that find nothing -/

theorem gives_removeOptional (h : s.Vacant root fs) (hName : EntryName name) {found : Bool}
    (hRun : Gives (StoreAction.removeOptional (Files.join (s.engineDir n) name)) fs found fs') :
    fs' = fs ∧ Files.fault? (Files.join (s.engineDir n) name) = none := by
  rw [StoreAction.removeOptional, Gives.get_bind_iff, Files.removeFile_eq, h.find_entry hName] at hRun
  cases hFault : Files.fault? (Files.join (s.engineDir n) name) with
  | none =>
    rw [hFault] at hRun
    exact ⟨(Gives.pure_iff.mp hRun).2.symm, rfl⟩
  | some fault =>
    have hNe := hFault ▸ Files.fault?_ne_notFound (Files.join (s.engineDir n) name)
    rw [hFault] at hRun
    cases fault <;> simp at hRun hNe

theorem gives_readOptional (h : s.Vacant root fs) (hName : EntryName name) {found : Option Bytes}
    (hRun : Gives (StoreAction.readOptional (Files.join (s.engineDir n) name)) fs found fs') :
    found = none ∧ fs' = fs := by
  rw [StoreAction.readOptional, Gives.get_bind_iff, h.read_entry hName] at hRun
  cases hFault : Files.fault? (Files.join (s.engineDir n) name) with
  | none =>
    rw [hFault] at hRun
    obtain ⟨rfl, rfl⟩ := Gives.pure_iff.mp hRun
    exact ⟨rfl, rfl⟩
  | some fault =>
    have hNe := hFault ▸ Files.fault?_ne_notFound (Files.join (s.engineDir n) name)
    rw [hFault] at hRun
    cases fault <;> simp at hRun hNe

theorem gives_discard (h : s.Vacant root fs) {id : ProgramId} {found : Bool}
    (hRun : Gives (s.discard id) fs found fs') : fs' = fs ∧ s.Nameable id := by
  simp only [discard, Gives.bind_iff, Gives.pure_iff] at hRun
  obtain ⟨_, fs₁, hBlob, _, _, hMeta, -, rfl⟩ := hRun
  obtain ⟨rfl, hFault⟩ := h.gives_removeOptional entryName_blob hBlob
  obtain ⟨rfl, hFault'⟩ := h.gives_removeOptional entryName_meta hMeta
  exact ⟨rfl, ⟨hFault, h.shortSlots id⟩, hFault', h.shortSlots id⟩

theorem gives_register (h : s.Vacant root fs) {id : ProgramId} {base : Option Digest}
    {made : Option CacheArtifact} (hRun : Gives (s.register id base) fs made fs') : fs' = fs := by
  rw [register, Gives.bind_iff] at hRun
  obtain ⟨found, fs₁, hFound, hRun⟩ := hRun
  obtain ⟨rfl, rfl⟩ := h.gives_readOptional entryName_blob hFound
  exact (Gives.pure_iff.mp hRun).2.symm

theorem gives_read (h : s.Vacant root fs) {id : ProgramId} {found : Option CacheArtifact}
    (hRun : Gives (s.read id) fs found fs') : found = none := by
  rw [CacheStore.read, Gives.bind_iff] at hRun
  obtain ⟨described, fs₁, hDescribed, hRun⟩ := hRun
  obtain ⟨rfl, rfl⟩ := h.gives_readOptional entryName_meta hDescribed
  dsimp only at hRun
  rw [Gives.bind_iff] at hRun
  obtain ⟨state, fs₂, hState, hEnd⟩ := hRun
  obtain ⟨rfl, rfl⟩ := h.gives_readOptional entryName_blob hState
  exact (Gives.pure_iff.mp hEnd).1.symm

/-! ### The directory is made -/

theorem found (h : s.Vacant root fs) (hThere : ∀ q, q <+: root → fs'.node? q = some .directory) :
    fs'.find s.resultsDir = .ok (root, .directory) := by
  have hBlank : s.resultsDir ≠ "" := by
    intro hBlank
    have hNil : root = [] := by
      rw [← h.way, hBlank]
      rfl
    exact h.missing (by simp [hNil, Files.node?])
  have hWalk : fs'.walk [] root = .ok ([] ++ root) := Files.walk_down h.noUp h.short hThere
  have hRoot := hThere root List.prefix_rfl
  rw [List.nil_append] at hWalk
  have hPlace : fs'.place s.resultsDir = .ok root := by
    rw [Files.place_eq, if_neg hBlank, h.faultless, h.way, hWalk]
    simp only [hRoot]
  simp only [Files.find_eq, hPlace, hRoot]

theorem tidy (h : s.Vacant root fs) (hThere : ∀ q, q <+: root → fs'.node? q = some .directory)
    (hNone : ∀ n rest, fs'.node? (root ++ s.slotName n :: rest) = none) : s.Tidy root fs' where
  label := h.label
  found := h.found hThere
  noFile := by
    intro n number hFile
    rw [slotPlace, hNone n []] at hFile
    cases hFile
  below := fun n name rest hSome => absurd (hNone n (name :: rest)) hSome

theorem accounted (h : s.Vacant root fs) (hLedger : ledger.IsEmpty)
    (hThere : ∀ q, q <+: root → fs'.node? q = some .directory)
    (hNone : ∀ n rest, fs'.node? (root ++ s.slotName n :: rest) = none) :
    s.Accounted root ledger noLoose fs' := by
  refine .of_found (h.tidy hThere hNone) hLedger.1 fun n => ?_
  rw [slotPlace, hNone n []]
  simp [hLedger.2 n]

theorem congr (h : s.Vacant root fs) (hNodes : ∀ q, fs'.node? q = fs.node? q) : s.Vacant root fs' :=
  ⟨h.label, h.faultless, h.way, h.noUp, h.short, h.shortSlots, fun q number hq => hNodes q ▸ h.noFile q number hq,
    hNodes root ▸ h.missing, fun name rest => (hNodes _).trans (h.below name rest)⟩

theorem alters {changed : Place → Prop} (h : s.Vacant root fs) (hAlters : Files.Alters changed fs fs')
    (hWay : ∀ q number, changed q → q <+: root → fs'.node? q ≠ some (.file number))
    (hRoot : ¬ changed root) (hBelow : ∀ name rest, ¬ changed (root ++ name :: rest)) :
    s.Vacant root fs' where
  label := h.label
  faultless := h.faultless
  way := h.way
  noUp := h.noUp
  short := h.short
  shortSlots := h.shortSlots
  noFile := by
    intro q number hq
    by_cases hChanged : changed q
    · exact hWay q number hChanged hq
    · rw [hAlters.node q hChanged]
      exact h.noFile q number hq
  missing := by
    rw [hAlters.node root hRoot]
    exact h.missing
  below := by
    intro name rest
    rw [hAlters.node _ (hBelow name rest), h.below]

end Vacant

/-! ## Making other directories -/

section Making

variable {reached : Place} {step : String}

theorem housed_setDirectory (h : s.Tidy root fs ∨ s.Vacant root fs)
    (hReached : ∀ q, q <+: reached → fs.node? q = some .directory)
    (hFree : fs.node? (reached ++ [step]) = none) :
    (s.Tidy root (fs.setName (reached ++ [step]) .directory) ∨
      s.Vacant root (fs.setName (reached ++ [step]) .directory)) ∧
      ∀ q, q <+: reached ++ [step] →
        (fs.setName (reached ++ [step]) .directory).node? q = some .directory := by
  have hNamed : Files.Named (reached ++ [step]) := Files.named_of_ne_directory (by rw [hFree]; simp)
  have hAlters : Files.Alters (· = reached ++ [step]) fs (fs.setName (reached ++ [step]) .directory) :=
    .setName _ rfl (by rw [hFree]; simp)
  have hMade : ∀ q, q <+: reached ++ [step] →
      (fs.setName (reached ++ [step]) .directory).node? q = some .directory := by
    intro q hq
    rcases List.prefix_concat_iff.mp hq with rfl | hq
    · rw [Files.node?_setName hNamed, if_pos rfl]
    · exact hAlters.standing q (hReached q hq)
  have hAbove : ∀ q name rest, q ++ name :: rest = reached ++ [step] → fs.node? q = some .directory := by
    intro q name rest hEq
    refine hReached q (List.prefix_of_prefix_length_le ⟨name :: rest, hEq⟩ (List.prefix_append _ _) ?_)
    have hLength := congrArg List.length hEq
    simp only [List.length_append, List.length_cons, List.length_nil] at hLength
    omega
  refine ⟨?_, hMade⟩
  rcases h with hTidy | hVacant
  · refine .inl (hTidy.alters hAlters (fun n hSlot => hMade _ ⟨[], by rw [hSlot, List.append_nil]⟩)
      fun n name rest hEq _ => ?_)
    refine hAlters.standing _ (hAbove (s.slotPlace root n) name rest ?_)
    rw [← hEq, slotPlace, List.append_assoc, List.singleton_append]
  · by_cases hRoot : root = reached ++ [step]
    · refine .inl (hVacant.tidy (fun q hq => hMade q (hRoot ▸ hq)) fun n rest => ?_)
      rw [hAlters.node, hVacant.below]
      intro hEq
      rw [← hRoot] at hEq
      simp at hEq
    · refine .inr (hVacant.alters hAlters (fun q number hq _ => ?_) hRoot fun name rest hEq => ?_)
      · rw [hMade q ⟨[], by rw [hq, List.append_nil]⟩]
        simp
      · exact hVacant.missing (hAbove root name rest hEq)

theorem housed_makeDirectories (h : s.Tidy root fs ∨ s.Vacant root fs) (dir : Location) :
    s.Tidy root (fs.makeDirectories dir).1 ∨ s.Vacant root (fs.makeDirectories dir).1 := by
  have hSteps : ∀ (steps : List String) (fs : Files) (reached : Place),
      (s.Tidy root fs ∨ s.Vacant root fs) → (∀ q, q <+: reached → fs.node? q = some .directory) →
      s.Tidy root (fs.makeSteps reached steps).1 ∨ s.Vacant root (fs.makeSteps reached steps).1 := by
    intro steps
    induction steps with
    | nil => exact fun fs reached h _ => h
    | cons step steps ih =>
      intro fs reached h hReached
      by_cases hDots : step = ".."
      · rw [hDots, Files.makeSteps]
        exact ih fs _ h fun q hq => hReached q (hq.trans (List.dropLast_prefix _))
      rw [Files.makeSteps_cons reached hDots]
      split
      · exact h
      split
      · rename_i hThere
        refine ih fs _ h fun q hq => ?_
        rcases List.prefix_concat_iff.mp hq with rfl | hq
        · exact hThere
        · exact hReached q hq
      · exact h
      · rename_i hFree
        obtain ⟨hHoused, hMade⟩ := housed_setDirectory h hReached hFree
        exact ih _ _ hHoused hMade
  rw [Files.makeDirectories]
  split
  · exact h
  · refine hSteps _ fs [] h fun q hq => ?_
    rw [List.prefix_nil.mp hq]
    rfl

end Making

/-! ## Engines that make the directory -/

theorem engineDirs_of_empty (hFound : fs.find s.resultsDir = .ok (root, .directory))
    (hNone : ∀ name, fs.node? (root ++ [name]) = none) : s.engineDirs fs = [] := by
  have hChildren : fs.children s.resultsDir = [] := by
    rw [Files.children, hFound]
    refine List.filterMap_eq_nil_iff.mpr ?_
    rintro ⟨q, node⟩ hMem
    rcases List.eq_nil_or_concat q with rfl | ⟨dir, name, rfl⟩
    · rfl
    · rw [List.concat_eq_append] at hMem ⊢
      by_cases hPlace : dir = root ∧ dir ++ [name] ≠ ["/"]
      · obtain ⟨rfl, hRoot⟩ := hPlace
        have hMissing := hNone name
        rw [Files.node?_of_named ⟨by simp, hRoot⟩, List.lookup_eq_none_iff] at hMissing
        have hNe := hMissing _ hMem
        simp at hNe
      · simpa using hPlace
  simp [engineDirs, hChildren]

/-- The engine has kept to its rooms, after it has made the directory for results if that was
missing. -/
structure Obeys (s : CacheStore) (root : Place) (l : Launch) : Prop where
  confined : s.Confined root l ∨ l.before.node? root ≠ some .directory ∧
    ∃ fs, Files.Paves root l.before fs ∧ s.Confined root { l with before := fs }
  rooted : ∀ n rest, l.after.node? (root ++ s.slotName n :: rest) ≠ none →
    l.after.node? root = some .directory

theorem not_inRooms_root : ¬ s.InRooms root fs root := by
  rintro ⟨n, rest, -, hEq⟩
  have hLength := congrArg List.length hEq
  simp at hLength

theorem inRooms_congr (h : s.engineDirs fs' = s.engineDirs fs) {q : Place} :
    s.InRooms root fs' q ↔ s.InRooms root fs q := by
  simp only [InRooms, IsRoom, h]

namespace Obeys

variable {l : Launch}

theorem atTime (h : s.Obeys root l) (now : Instant) : ({ s with now } : CacheStore).Obeys root l :=
  ⟨h.confined.imp (·.atTime now) (And.imp_right (Exists.imp fun _ => And.imp_right (·.atTime now))), h.rooted⟩

theorem confined_of_tidy (h : s.Obeys root l) (hTidy : s.Tidy root l.before) : s.Confined root l :=
  h.confined.resolve_right fun hMissing => hMissing.1 (Files.place_of_find hTidy.found).2

/-- Without the directory an engine leaves nothing, or it makes the directory first. -/
theorem cases_of_vacant (h : s.Obeys root l) (hVacant : s.Vacant root l.before) :
    (s.Vacant root l.after ∧ Files.Touches (fun _ => False) l.before l.after) ∨
    ∃ fs, Files.Paves root l.before fs ∧ s.engineDirs fs = s.engineDirs l.before ∧
      s.Confined root { l with before := fs } ∧ s.Tidy root fs ∧
      (∀ ledger : Ledger, ledger.IsEmpty → s.Accounted root ledger noLoose fs) ∧
      ∀ number, s.Foreign root l.before number → s.Foreign root fs number := by
  rcases h.confined with hConfined | ⟨-, fs, hPaves, hConfined⟩
  · have hRoot : l.after.node? root ≠ some .directory := by
      rw [hConfined.outside.node root not_inRooms_root]
      exact hVacant.missing
    have hRooms : ∀ q, s.InRooms root l.before q → l.before.node? q = none ∧ l.after.node? q = none := by
      rintro q ⟨n, rest, -, rfl⟩
      refine ⟨hVacant.below _ rest, ?_⟩
      by_contra hThere
      exact hRoot (h.rooted n rest hThere)
    have hNodes : ∀ q, l.after.node? q = l.before.node? q := by
      intro q
      by_cases hq : s.InRooms root l.before q
      · rw [(hRooms q hq).1, (hRooms q hq).2]
      · exact hConfined.outside.node q hq
    refine .inl ⟨hVacant.congr hNodes, ⟨⟨fun q _ => hNodes q, fun q bytes _ hHolds => ?_⟩, fun q hq => ?_⟩⟩
    · refine hConfined.outside.held q bytes (fun hq => ?_) hHolds
      obtain ⟨number, hFile, -⟩ := hHolds
      rw [(hRooms q hq).1] at hFile
      cases hFile
    · rw [hNodes, hq]
  · have hThere : ∀ q, q <+: root → fs.node? q = some .directory := fun q hq => by
      rw [hPaves.node, if_pos hq]
    have hNone : ∀ name rest, fs.node? (root ++ name :: rest) = none := by
      intro name rest
      rw [hPaves.node, if_neg, hVacant.below]
      intro hPrefix
      have hLength := hPrefix.length_le
      simp at hLength
    have hTidy := hVacant.tidy hThere fun n rest => hNone _ rest
    have hDirs := engineDirs_of_empty hTidy.found fun name => hNone name []
    refine .inr ⟨fs, hPaves, hDirs.trans hVacant.engineDirs_eq_nil.symm, hConfined, hTidy,
      fun ledger hLedger => hVacant.accounted hLedger hThere fun n rest => hNone _ rest,
      fun number hNumber => ⟨hPaves.contents ▸ hNumber.1, ?_⟩⟩
    rintro q ⟨n, name, -, rfl⟩
    rw [filePlace, hNone _ [name]]
    simp

end Obeys

/-- Where a launch may have changed anything. -/
def Reached (s : CacheStore) (root : Place) (fs : Files) (q : Place) : Prop :=
  s.InRooms root fs q ∨ q <+: root ∧ fs.node? q ≠ some .directory

theorem Obeys.touches {l : Launch} (h : s.Obeys root l)
    (hBefore : s.Tidy root l.before ∨ s.Vacant root l.before) :
    Files.Touches (s.Reached root l.before) l.before l.after := by
  rcases hBefore with hTidy | hVacant
  · exact ((h.confined_of_tidy hTidy).touches hTidy).mono fun q hq => .inl hq
  · rcases h.cases_of_vacant hVacant with ⟨-, hTouches⟩ | ⟨fs, hPaves, hSame, hConfined, hTidy, -⟩
    · exact hTouches.mono fun _ => False.elim
    · refine (hPaves.touches.mono fun q hq => .inr hq).trans ((hConfined.touches hTidy).mono fun q hq => ?_)
      exact .inl ((inRooms_congr hSame).mp hq)

theorem Obeys.housed {l : Launch} (h : s.Obeys root l)
    (hBefore : s.Tidy root l.before ∨ s.Vacant root l.before) :
    s.Tidy root l.after ∨ s.Vacant root l.after := by
  rcases hBefore with hTidy | hVacant
  · exact .inl ((h.confined_of_tidy hTidy).tidy hTidy)
  · rcases h.cases_of_vacant hVacant with ⟨hAfter, -⟩ | ⟨fs, -, -, hConfined, hTidy, -⟩
    · exact .inr hAfter
    · exact .inl (hConfined.tidy hTidy)

/-! ## With or without the directory -/

/-- Every state is accounted for, or the directory is missing and there is nothing to account for. -/
def Balanced (s : CacheStore) (root : Place) (ledger : Ledger) (fs : Files) : Prop :=
  s.Accounted root ledger noLoose fs ∨ s.Vacant root fs ∧ ledger.IsEmpty

namespace Balanced

theorem atTime (h : s.Balanced root ledger fs) (now : Instant) :
    ({ s with now } : CacheStore).Balanced root ledger fs :=
  h.imp (·.atTime now) (And.imp_left (·.atTime now))

theorem exists_ledger (h : s.Tidy root fs ∨ s.Vacant root fs) : ∃ ledger, s.Balanced root ledger fs := by
  rcases h with hTidy | hVacant
  · exact ⟨s.found root fs, .inl (.of_found hTidy (fun _ _ _ => not_false) fun _ => Iff.rfl)⟩
  · exact ⟨⟨fun _ _ _ => False, fun _ => False⟩, .inr ⟨hVacant, fun _ _ _ => not_false, fun _ => not_false⟩⟩

theorem tidy_or_vacant (h : s.Balanced root ledger fs) : s.Tidy root fs ∨ s.Vacant root fs :=
  h.imp (·.tidy) (·.1)

theorem discard (h : s.Balanced root ledger fs) {id : ProgramId} {found : Bool}
    (hRun : Gives (s.discard id) fs found fs') :
    s.Nameable id ∧ s.Balanced root (ledger.without id) fs' ∧
      (∀ number, s.Foreign root fs number → s.Foreign root fs' number) ∧
      fs'.node? (s.filePlace root id.number blobName) = none ∧
      Files.Alters (fun q => q = s.filePlace root id.number blobName ∨
        q = s.filePlace root id.number metaName) fs fs' := by
  rcases h with hAcc | ⟨hVacant, hLedger⟩
  · obtain ⟨hName, hAcc', hForeign⟩ := hAcc.discard hRun
    obtain ⟨-, -, hBlob, -, hAlters, -⟩ := CacheStore.gives_discard hAcc.tidy hRun
    exact ⟨hName, .inl hAcc', hForeign, hBlob, hAlters⟩
  · obtain ⟨rfl, hName⟩ := hVacant.gives_discard hRun
    exact ⟨hName, .inr ⟨hVacant, hLedger.without id⟩, fun _ hNumber => hNumber, hVacant.below _ _,
      .refl _ _⟩

theorem setContent (h : s.Balanced root ledger fs) {number : Nat} (hNumber : s.Foreign root fs number)
    (bytes : Bytes) : s.Balanced root ledger (fs.setContent number bytes) :=
  h.imp (·.setContent hNumber.2 bytes) (And.imp_left (·.congr fun _ => rfl))

theorem kept_of_read (h : s.Balanced root ledger fs) {id : ProgramId} {artifact : CacheArtifact}
    (hPast : ¬ ledger.past id.number) (hRun : Gives (s.read id) fs (some artifact) fs') :
    ∃ state base, ledger.keeps id state base := by
  rcases h with hAcc | ⟨hVacant, -⟩
  · exact hAcc.kept_of_read hPast hRun
  · cases hVacant.gives_read hRun

theorem read_of_kept (h : s.Balanced root ledger fs) {id : ProgramId} {state : Bytes} {base : Digest}
    (hKept : ledger.keeps id state base) :
    Gives (s.read id) fs (some (s.artifact id state (some base))) fs ∧
      fs.read (s.cachePath id) = .ok state := by
  rcases h with hAcc | ⟨-, hLedger⟩
  · exact hAcc.read_of_kept hKept
  · exact absurd hKept (hLedger.1 id state base)

end Balanced

end CacheStore

end Reanalysis
