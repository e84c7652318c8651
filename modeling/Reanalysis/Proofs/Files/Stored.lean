import Reanalysis.Proofs.Action
import Reanalysis.Proofs.Files.Place

/-!
# Files that stay where they are

A file is stored at a location when the location leads to its number and the number has contents.
Making directories and opening files takes nothing away, and giving a name away or taking one back
concerns no location that ends with another name.
-/

namespace Reanalysis.Files

variable {fs fs' fs'' : Files} {path : Location} {number : Nat} {bytes : Bytes}

/-! ## Growth -/

/-- Every name still stands for the same, and all contents are the same. -/
structure Grows (fs fs' : Files) : Prop where
  node : ∀ q node, fs.node? q = some node → fs'.node? q = some node
  contents : fs.contents <+: fs'.contents

namespace Grows

theorem refl (fs : Files) : Grows fs fs := ⟨fun _ _ h => h, List.prefix_rfl⟩

theorem trans (h : Grows fs fs') (h' : Grows fs' fs'') : Grows fs fs'' :=
  ⟨fun q node hNode => h'.node q node (h.node q node hNode), h.contents.trans h'.contents⟩

theorem setName {place : Place} (node : FileNode) (hFree : fs.node? place = none) :
    Grows fs (fs.setName place node) := by
  have hNamed : Named place := named_of_ne_directory (by rw [hFree]; simp)
  refine ⟨fun q other hNode => ?_, List.prefix_rfl⟩
  rw [node?_setName hNamed, if_neg]
  · exact hNode
  · rintro rfl
    rw [hFree] at hNode
    cases hNode

theorem stage (bytes : Bytes) : Grows fs (fs.stage bytes).2 :=
  ⟨fun _ _ h => h, List.prefix_append _ _⟩

end Grows

theorem grows_makeSteps (reached : Place) (steps : List String) :
    Grows fs (fs.makeSteps reached steps).1 := by
  induction steps generalizing fs reached with
  | nil => exact .refl fs
  | cons step rest ih =>
    by_cases hDots : step = ".."
    · rw [hDots, makeSteps]
      exact ih _
    · rw [makeSteps_cons reached hDots]
      split
      · exact .refl fs
      · split
        · exact ih _
        · exact .refl fs
        · rename_i hFree
          exact (Grows.setName .directory hFree).trans (ih _)

theorem grows_makeDirectories (dir : Location) : Grows fs (fs.makeDirectories dir).1 := by
  rw [makeDirectories]
  split
  · exact .refl fs
  · exact grows_makeSteps [] (steps dir)

/-- Each file has contents, and no other file has the same. -/
structure Sound (fs : Files) : Prop where
  bounded : ∀ q number, fs.node? q = some (.file number) → number < fs.contents.length
  apart : ∀ q q' number, fs.node? q = some (.file number) → fs.node? q' = some (.file number) → q = q'

namespace Sound

theorem mem_names_of_node? {q : Place} (h : fs.node? q = some (.file number)) :
    (q, .file number) ∈ fs.names := by
  have hNamed : Named q := named_of_ne_directory (by rw [h]; simp)
  rw [node?_of_named hNamed] at h
  generalize fs.names = names at h
  induction names with
  | nil => cases h
  | cons e names ih =>
    rw [List.lookup_cons] at h
    split at h
    · rename_i hEq
      rw [← Option.some.inj h, eq_of_beq hEq]
      exact List.mem_cons_self
    · exact List.mem_cons_of_mem _ (ih h)

theorem of_names
    (hBounded : ∀ e ∈ fs.names, e.2 = .directory ∨ e.2 ∈ (List.range fs.contents.length).map .file)
    (hApart : ∀ e ∈ fs.names, ∀ e' ∈ fs.names, e.2 = e'.2 → e.2 = .directory ∨ e.1 = e'.1) :
    fs.Sound where
  bounded _ _ h := by
    rcases hBounded _ (mem_names_of_node? h) with hDirectory | hFile
    · cases hDirectory
    · obtain ⟨n, hn, hSame⟩ := List.mem_map.mp hFile
      cases hSame
      exact List.mem_range.mp hn
  apart _ _ _ h h' :=
    (hApart _ (mem_names_of_node? h) _ (mem_names_of_node? h') rfl).resolve_left (by simp)

theorem of_nodes (h : fs.Sound)
    (hBefore : ∀ q n, fs'.node? q = some (.file n) → fs.node? q = some (.file n))
    (hGrows : fs.contents.length ≤ fs'.contents.length) : fs'.Sound :=
  ⟨fun q n hq => Nat.lt_of_lt_of_le (h.bounded q n (hBefore q n hq)) hGrows,
    fun q q' n hq hq' => h.apart q q' n (hBefore q n hq) (hBefore q' n hq')⟩

theorem setDirectory (h : fs.Sound) {place : Place} (hNamed : Named place) :
    (fs.setName place .directory).Sound := by
  refine h.of_nodes (fun q n hNode => ?_) (Nat.le_refl _)
  rw [node?_setName hNamed] at hNode
  split at hNode
  · cases hNode
  · exact hNode

theorem dropName (h : fs.Sound) {place : Place} (hNamed : Named place) :
    (fs.dropName place).Sound := by
  refine h.of_nodes (fun q n hNode => ?_) (Nat.le_refl _)
  rw [node?_dropName hNamed] at hNode
  split at hNode
  · cases hNode
  · exact hNode

theorem setContent (h : fs.Sound) (number : Nat) (bytes : Bytes) :
    (fs.setContent number bytes).Sound :=
  h.of_nodes (fun _ _ hNode => hNode) (by simp [Files.setContent])

theorem stage (h : fs.Sound) (bytes : Bytes) : (fs.stage bytes).2.Sound :=
  h.of_nodes (fun _ _ hNode => hNode) (by simp [Files.stage])

theorem setFile (h : fs.Sound) {place : Place} (hNamed : Named place)
    (hLess : number < fs.contents.length) (hFree : ∀ q, fs.node? q ≠ some (.file number)) :
    (fs.setName place (.file number)).Sound := by
  have hCases : ∀ q n, (fs.setName place (.file number)).node? q = some (.file n) →
      q = place ∧ n = number ∨ fs.node? q = some (.file n) ∧ n ≠ number := by
    intro q n hNode
    rw [node?_setName hNamed] at hNode
    split at hNode
    · rename_i hq
      cases hNode
      exact .inl ⟨hq, rfl⟩
    · refine .inr ⟨hNode, ?_⟩
      rintro rfl
      exact hFree q hNode
  refine ⟨fun q n hNode => ?_, fun q q' n hNode hNode' => ?_⟩
  · rcases hCases q n hNode with ⟨-, rfl⟩ | ⟨hq, -⟩
    · exact hLess
    · exact h.bounded q n hq
  · rcases hCases q n hNode with ⟨rfl, rfl⟩ | ⟨hq, hNe⟩
    · rcases hCases q' _ hNode' with ⟨rfl, -⟩ | ⟨-, hNe⟩
      · rfl
      · exact absurd rfl hNe
    · rcases hCases q' n hNode' with ⟨-, rfl⟩ | ⟨hq', -⟩
      · exact absurd rfl hNe
      · exact h.apart q q' n hq hq'

theorem makeSteps (h : fs.Sound) (reached : Place) (steps : List String) :
    (fs.makeSteps reached steps).1.Sound := by
  induction steps generalizing fs reached with
  | nil => exact h
  | cons step rest ih =>
    by_cases hDots : step = ".."
    · rw [hDots, Files.makeSteps]
      exact ih h _
    · rw [makeSteps_cons reached hDots]
      split
      · exact h
      · split
        · exact ih h _
        · exact h
        · rename_i hFree
          exact ih (h.setDirectory (named_of_ne_directory (by rw [hFree]; simp))) _

theorem makeDirectories (h : fs.Sound) (dir : Location) : (fs.makeDirectories dir).1.Sound := by
  rw [Files.makeDirectories]
  split
  · exact h
  · exact h.makeSteps [] (steps dir)

theorem number_free (h : fs.Sound) (q : Place) : fs.node? q ≠ some (.file fs.contents.length) :=
  fun hNode => Nat.lt_irrefl _ (h.bounded q _ hNode)

theorem addFile (h : fs.Sound) {place : Place} (hNamed : Named place) (bytes : Bytes) :
    ((fs.stage bytes).2.setName place (.file fs.contents.length)).Sound :=
  (h.stage bytes).setFile hNamed (by simp [Files.stage]) h.number_free

theorem link (h : fs.Sound) (hLess : number < fs.contents.length)
    (hFree : ∀ q, fs.node? q ≠ some (.file number)) (hLink : fs.link number path = .ok fs') :
    fs'.Sound := by
  rw [link_eq] at hLink
  split at hLink
  · cases hLink
  · split at hLink
    · cases hLink
    · rename_i hNode
      cases hLink
      exact h.setFile (named_of_ne_directory (by rw [hNode]; simp)) hLess hFree
    · rename_i hNode
      split at hLink
      · cases hLink
      · cases hLink
        exact h.setFile (named_of_ne_directory (by rw [hNode]; simp)) hLess hFree

theorem removeFile (h : fs.Sound) (hRemoved : fs.removeFile path = .ok fs') : fs'.Sound := by
  rw [removeFile_eq] at hRemoved
  split at hRemoved
  · cases hRemoved
  · rename_i hFound
    cases hRemoved
    exact h.dropName (named_of_ne_directory (by rw [(place_of_find hFound).2]; simp))
  · cases hRemoved

theorem rename (h : fs.Sound) {source target : Location} (hRenamed : fs.rename source target = .ok fs') :
    fs'.Sound := by
  rw [rename_eq] at hRenamed
  split at hRenamed
  · cases hRenamed
  · rename_i place number hFound
    have hNode := (place_of_find hFound).2
    have hNamed : Named place := named_of_ne_directory (by rw [hNode]; simp)
    -- No other name stands for the file that is renamed.
    refine (h.dropName hNamed).link (h.bounded place number hNode) (fun q hq => ?_) hRenamed
    rw [node?_dropName hNamed] at hq
    split at hq
    · cases hq
    · rename_i hNe
      exact hNe (h.apart q place number hq hNode)
  · cases hRenamed

end Sound

/-! ## Stored files -/

/-- The location leads to the file with this number, which has these contents. -/
structure Stores (fs : Files) (path : Location) (number : Nat) (bytes : Bytes) : Prop where
  found : ∃ place, fs.find path = .ok (place, .file number)
  content : fs.contents[number]? = some bytes

/-- A file that is stored at the location under this number is still there. -/
def Spares (path : Location) (number : Nat) (fs fs' : Files) : Prop :=
  ∀ bytes, fs.Stores path number bytes → fs'.Stores path number bytes

theorem Spares.refl (path : Location) (number : Nat) (fs : Files) : Spares path number fs fs :=
  fun _ h => h

theorem Spares.trans (path : Location) (number : Nat) (fs fs' fs'' : Files)
    (h : Spares path number fs fs') (h' : Spares path number fs' fs'') :
    Spares path number fs fs'' := fun bytes hStores => h' bytes (h bytes hStores)

namespace Stores

theorem content_eq (h : fs.Stores path number bytes) : fs.content number = bytes := by
  rw [Files.content, h.content]
  rfl

theorem read (h : fs.Stores path number bytes) : fs.read path = .ok bytes := by
  obtain ⟨place, hFound⟩ := h.found
  rw [Files.read, hFound]
  exact congrArg Except.ok h.content_eq

theorem setContent (h : fs.Stores path number bytes) (bytes' : Bytes) :
    (fs.setContent number bytes').Stores path number bytes' := by
  obtain ⟨place, hFound⟩ := h.found
  have hLess := (List.getElem?_eq_some_iff.mp h.content).1
  have hKept : ∀ q, fs.node? q = some .directory →
      (fs.setContent number bytes').node? q = some .directory := fun _ hq => hq
  exact ⟨⟨place, find_of_kept hKept hFound (place_of_find hFound).2⟩, List.getElem?_set_self hLess⟩

end Stores

theorem Sound.stores_of_read (hSound : fs.Sound) (h : fs.read path = .ok bytes) :
    ∃ number, fs.Stores path number bytes := by
  rw [Files.read] at h
  rcases hFound : fs.find path with e | ⟨place, number | -⟩
  · rw [hFound] at h
    cases h
  · rw [hFound] at h
    cases h
    have hLess := hSound.bounded place number (place_of_find hFound).2
    refine ⟨number, ⟨place, hFound⟩, ?_⟩
    rw [Files.content, List.getElem?_eq_getElem hLess]
    rfl
  · rw [hFound] at h
    cases h

theorem Stores.number_eq {number' : Nat} {bytes' : Bytes} (h : fs.Stores path number bytes)
    (h' : fs.Stores path number' bytes') : number = number' := by
  obtain ⟨place, hFound⟩ := h.found
  obtain ⟨place', hFound'⟩ := h'.found
  rw [hFound] at hFound'
  cases hFound'
  rfl

theorem spares_of_kept
    (hDirectories : ∀ q, fs.node? q = some .directory → fs'.node? q = some .directory)
    (hFile : ∀ place, fs.find path = .ok (place, .file number) →
      fs'.node? place = some (.file number))
    (hContent : ∀ bytes, fs.contents[number]? = some bytes → fs'.contents[number]? = some bytes) :
    Spares path number fs fs' := by
  rintro bytes ⟨⟨place, hFound⟩, hBytes⟩
  exact ⟨⟨place, find_of_kept hDirectories hFound (hFile place hFound)⟩, hContent bytes hBytes⟩

theorem Grows.spares (h : Grows fs fs') : Spares path number fs fs' := by
  refine spares_of_kept (fun q => h.node q .directory)
    (fun place hFound => h.node _ _ (place_of_find hFound).2) fun bytes hBytes => ?_
  obtain ⟨more, hMore⟩ := h.contents
  rw [← hMore, List.getElem?_append_left (List.getElem?_eq_some_iff.mp hBytes).1, hBytes]

theorem spares_setContent {other : Nat} (h : other ≠ number) (bytes : Bytes) :
    Spares path number fs (fs.setContent other bytes) := by
  refine spares_of_kept (fun _ hq => hq) (fun place hFound => (place_of_find hFound).2) ?_
  intro held hHeld
  rw [setContent, List.getElem?_set_ne h, hHeld]

/-! ## Last names -/

theorem walk_snoc {reached place : Place} {front : List String} {name : String}
    (hName : PlainName name) (h : fs.walk reached (front ++ [name]) = .ok place) :
    ∃ way, place = way ++ [name] := by
  induction front generalizing reached with
  | nil =>
    rw [List.nil_append, walk_singleton, advance_plain reached hName] at h
    split at h
    · cases h
    · cases h
      exact ⟨reached, rfl⟩
  | cons step front ih =>
    rw [List.cons_append, walk_cons _ _ (by simp)] at h
    split at h
    · cases h
    · split at h
      · exact ih h
      · cases h
      · cases h

theorem place_join {dir name : Location} {place : Place} (hName : PlainName name)
    (h : fs.place (join dir name) = .ok place) : ∃ way, place = way ++ [name] := by
  have hWalk := walk_of_place h
  rw [steps_join hName] at hWalk
  exact walk_snoc hName hWalk

/-- The locations end with different names. -/
def Apart (p q : Location) : Prop :=
  ∃ dir name dir' name', p = join dir name ∧ q = join dir' name' ∧ PlainName name ∧ PlainName name' ∧
    name ≠ name'

theorem Apart.place_ne {p q : Location} {place place' : Place} (h : Apart p q)
    (hPlace : fs.place p = .ok place) (hPlace' : fs'.place q = .ok place') : place ≠ place' := by
  obtain ⟨dir, name, dir', name', rfl, rfl, hName, hName', hNe⟩ := h
  obtain ⟨way, rfl⟩ := place_join hName hPlace
  obtain ⟨way', rfl⟩ := place_join hName' hPlace'
  intro hEq
  exact hNe (List.append_singleton_inj.mp hEq).2

theorem Sound.number_ne (hSound : fs.Sound) {p q : Location} {n m : Nat} {bytes bytes' : Bytes}
    (hApart : Apart p q) (h : fs.Stores p n bytes) (h' : fs.Stores q m bytes') : n ≠ m := by
  obtain ⟨place, hFound⟩ := h.found
  obtain ⟨place', hFound'⟩ := h'.found
  obtain ⟨hPlace, hNode⟩ := place_of_find hFound
  obtain ⟨hPlace', hNode'⟩ := place_of_find hFound'
  rintro rfl
  exact hApart.place_ne hPlace hPlace' (hSound.apart place place' n hNode hNode')

theorem Touches.spares {changed : Place → Prop} (h : Touches changed fs fs')
    (hOut : ∀ place, fs.place path = .ok place → ¬ changed place) : Spares path number fs fs' := by
  rintro bytes ⟨⟨place, hFound⟩, hBytes⟩
  obtain ⟨hPlace, hNode⟩ := place_of_find hFound
  have hNode' := (h.node place (hOut place hPlace)).trans hNode
  obtain ⟨number', hFile, hBytes'⟩ := h.held place bytes (hOut place hPlace) ⟨number, hNode, hBytes⟩
  rw [hNode'] at hFile
  cases hFile
  exact ⟨⟨place, find_of_kept h.standing hFound hNode'⟩, hBytes'⟩

section Below

variable {changed : Place → Prop} {dir name : Location} {reached : Place}
  (h : Touches changed fs fs') (hDir : fs.Leads dir reached) (hName : PlainName name)
  (hOut : ¬ changed (reached ++ [name]))

include h hDir hName hOut

theorem Touches.find_join : fs'.find (join dir name) = fs.find (join dir name) := by
  rw [find_join_leads hDir hName, find_join_leads (hDir.standing h.standing) hName, h.node _ hOut]

/-- A file in a directory is read as before, and what is no file fails as before. -/
theorem Touches.read_join (hSound : fs.Sound) : fs'.read (join dir name) = fs.read (join dir name) := by
  have hFind := h.find_join hDir hName hOut
  rw [Files.read, Files.read, hFind]
  rcases hFound : fs.find (join dir name) with e | ⟨place, number | -⟩
  · rfl
  · obtain ⟨hPlace, hNode⟩ := place_of_find hFound
    have hStores : fs.Stores (join dir name) number (fs.content number) := by
      refine ⟨⟨place, hFound⟩, ?_⟩
      rw [Files.content, List.getElem?_eq_getElem (hSound.bounded place number hNode)]
      rfl
    have hSpares : Spares (join dir name) number fs fs' := h.spares fun place' hPlace' => by
      obtain ⟨reached', hDir', rfl⟩ := exists_leads hName hPlace'
      have hSame := hDir.way.symm.trans hDir'.way
      cases hSame
      exact hOut
    exact congrArg Except.ok (hSpares _ hStores).content_eq
  · rfl

end Below

section LastNames

variable {p : Location} (hApart : Apart path p)

include hApart

theorem spares_at {place : Place} (hPlace : fs.place p = .ok place) (h : Alters (· = place) fs fs') :
    Spares path number fs fs' := h.touches.spares fun _ hq => hApart.place_ne hq hPlace

theorem spares_link {n : Nat} (h : fs.link n p = .ok fs') : Spares path number fs fs' := by
  rw [link_eq] at h
  split at h
  · cases h
  · rename_i place hPlace
    split at h
    · cases h
    · rename_i hNode
      cases h
      exact spares_at hApart hPlace (.setName _ rfl (by rw [hNode]; simp))
    · rename_i hNode
      split at h
      · cases h
      · cases h
        exact spares_at hApart hPlace (.setName _ rfl (by rw [hNode]; simp))

theorem spares_dropName {place : Place} {n : Nat} (h : fs.find p = .ok (place, .file n)) :
    Spares path number fs (fs.dropName place) := by
  obtain ⟨hPlace, hNode⟩ := place_of_find h
  exact spares_at hApart hPlace (.dropName rfl (by rw [hNode]; simp))

theorem spares_removeFile (h : fs.removeFile p = .ok fs') : Spares path number fs fs' := by
  rw [removeFile_eq] at h
  split at h
  · cases h
  · rename_i hFound
    cases h
    exact spares_dropName hApart hFound
  · cases h

end LastNames

theorem spares_rename {source target : Location} (hSource : Apart path source)
    (hTarget : Apart path target) (h : fs.rename source target = .ok fs') :
    Spares path number fs fs' := by
  rw [rename_eq] at h
  split at h
  · cases h
  · rename_i hFound
    exact .trans _ _ _ _ _ (spares_dropName hSource hFound) (spares_link hTarget h)
  · cases h

/-! ## Opening -/

theorem openFile_eq (fs : Files) (path : Location) : fs.openFile path = match fs.place path with
    | .error e => .error e
    | .ok place => match fs.node? place with
      | some (.file number) => .ok (number, fs)
      | some .directory => .error .isDirectory
      | none =>
        if asksForDirectory path then .error .isDirectory
        else .ok (fs.contents.length,
          (fs.stage []).2.setName place (.file fs.contents.length)) := by
  rw [openFile]
  cases fs.place path with
  | error e => rfl
  | ok place =>
    dsimp only [bind, Except.bind, pure, Except.pure]
    rcases fs.node? place with _ | ⟨number | -⟩
    · cases asksForDirectory path <;> rfl
    · rfl
    · rfl

theorem openFile_cases (h : fs.openFile path = .ok (number, fs')) :
    (fs' = fs ∧ ∃ place, fs.find path = .ok (place, .file number)) ∨
    ∃ place, fs.place path = .ok place ∧ fs.node? place = none ∧ asksForDirectory path = false ∧
      number = fs.contents.length ∧ fs' = (fs.stage []).2.setName place (.file number) := by
  rw [openFile_eq] at h
  split at h
  · cases h
  · rename_i place hPlace
    split at h
    · rename_i hNode
      cases h
      exact .inl ⟨rfl, place, by rw [find_eq, hPlace]; simp only [hNode]⟩
    · cases h
    · rename_i hNode
      split at h
      · cases h
      · rename_i hAsks
        cases h
        exact .inr ⟨place, hPlace, hNode, Bool.not_eq_true _ ▸ hAsks, rfl, rfl⟩

theorem grows_openFile (h : fs.openFile path = .ok (number, fs')) : Grows fs fs' := by
  rcases openFile_cases h with ⟨rfl, -⟩ | ⟨place, -, hNode, -, rfl, rfl⟩
  · exact .refl fs'
  · exact (Grows.stage []).trans (.setName _ hNode)

theorem Sound.openFile (hSound : fs.Sound) (h : fs.openFile path = .ok (number, fs')) :
    fs'.Sound := by
  rcases openFile_cases h with ⟨rfl, -⟩ | ⟨place, -, hNode, -, rfl, rfl⟩
  · exact hSound
  · exact hSound.addFile (named_of_ne_directory (by rw [hNode]; simp)) []

theorem Sound.stores_openFile (hSound : fs.Sound) (h : fs.openFile path = .ok (number, fs')) :
    ∃ bytes, fs'.Stores path number bytes := by
  rcases openFile_cases h with ⟨rfl, place, hFound⟩ | ⟨place, hPlace, hNode, hAsks, rfl, rfl⟩
  · have hLess := hSound.bounded place number (place_of_find hFound).2
    exact ⟨_, ⟨place, hFound⟩, List.getElem?_eq_getElem hLess⟩
  · have hNamed : Named place := named_of_ne_directory (by rw [hNode]; simp)
    refine ⟨[], ⟨place, ?_⟩, by simp [Files.setName, Files.stage]⟩
    have hGrows := grows_openFile h
    have hAt : ((fs.stage []).2.setName place (.file fs.contents.length)).node? place =
        some (.file fs.contents.length) := by rw [node?_setName hNamed, if_pos rfl]
    have hPlace' := place_of_directories (fun q => hGrows.node q .directory) hAsks hPlace
    simp only [find_eq, hPlace', hAt]

end Reanalysis.Files
