import Reanalysis.Proofs.Files.Stored

/-!
# Removal

A directory that is removed takes what is below it along and nothing else, so whatever happens in a new
directory leaves no trace when it is removed. A directory that cannot be made cannot be made again.
-/

namespace Reanalysis.Files

variable {fs fs' : Files} {path p : Location} {bytes : Bytes}

/-! ## Reading -/

theorem read_of_spares (hSound : fs.Sound) (h : ∀ number, Spares path number fs fs')
    (hRead : fs.read path = .ok bytes) : fs'.read path = .ok bytes := by
  obtain ⟨number, hStores⟩ := hSound.stores_of_read hRead
  exact (h number bytes hStores).read

theorem toOption_read_congr (h : ∀ bytes, fs'.read path = .ok bytes ↔ fs.read path = .ok bytes) :
    (fs'.read path).toOption = (fs.read path).toOption := by
  cases hRead : fs.read path with
  | ok bytes => rw [(h bytes).mpr hRead]
  | error e =>
    cases hRead' : fs'.read path with
    | ok bytes =>
      rw [(h bytes).mp hRead'] at hRead
      cases hRead
    | error e' => rfl

theorem find_of_read (h : fs.read path = .ok bytes) :
    ∃ place number, fs.find path = .ok (place, .file number) := by
  rw [read] at h
  rcases hFound : fs.find path with e | ⟨place, number | -⟩
  · rw [hFound] at h
    cases h
  · exact ⟨place, number, rfl⟩
  · rw [hFound] at h
    cases h

/-! ## Removal -/

theorem node?_removeAll {place : Place} {node : FileNode} (h : fs.find p = .ok (place, node))
    (hNamed : Named place) (q : Place) :
    (fs.removeAll p).node? q = if place <+: q then none else fs.node? q := by
  rw [removeAll, h]
  by_cases hq : Named q
  · rw [node?_of_named hq, node?_of_named hq]
    change (fs.names.filter _).lookup q = _
    rw [lookup_filter fs.names (!place.isPrefixOf ·)]
    by_cases hBelow : place <+: q
    · simp [hBelow, List.isPrefixOf_iff_prefix.mpr hBelow]
    · have hNot : place.isPrefixOf q = false := by
        rw [← Bool.not_eq_true, List.isPrefixOf_iff_prefix]
        exact hBelow
      simp [hBelow, hNot]
  · have hNot : ¬ place <+: q := by
      intro hBelow
      rw [Named, not_and_or, not_not, not_not] at hq
      rcases hq with rfl | rfl
      · exact hNamed.1 (List.prefix_nil.mp hBelow)
      · rcases List.prefix_cons_iff.mp hBelow with hNil | ⟨rest, rfl, hRest⟩
        · exact hNamed.1 hNil
        · exact hNamed.2 (by rw [List.prefix_nil.mp hRest])
    rw [if_neg hNot]
    rw [Named, not_and_or, not_not, not_not] at hq
    rcases hq with rfl | rfl <;> rfl

theorem grows_removeAll (fs : Files) (p : Location) : Grows (fs.removeAll p) fs := by
  rw [removeAll]
  split
  · rename_i place node hFound
    refine ⟨fun q other hNode => ?_, List.prefix_rfl⟩
    by_cases hq : Named q
    · rw [node?_of_named hq] at hNode ⊢
      change (fs.names.filter _).lookup q = _ at hNode
      rw [lookup_filter fs.names (!place.isPrefixOf ·)] at hNode
      split at hNode
      · exact hNode
      · cases hNode
    · rw [Named, not_and_or, not_not, not_not] at hq
      rcases hq with rfl | rfl <;> exact hNode
  · exact .refl fs

theorem Sound.removeAll (h : fs.Sound) (p : Location) : (fs.removeAll p).Sound := by
  have hGrows := grows_removeAll fs p
  refine h.of_nodes (fun q n => hGrows.node q (.file n)) ?_
  rw [Files.removeAll]
  split <;> exact Nat.le_refl _

theorem contents_removeAll (fs : Files) (p : Location) : (fs.removeAll p).contents = fs.contents := by
  rw [removeAll]
  split <;> rfl

/-! ## Places that look the same -/

theorem Same.symm {watched : Place → Prop} (hSound : fs.Sound) (h : Same watched fs fs') :
    Same watched fs' fs := by
  refine ⟨fun q hq => (h.node q hq).symm, ?_⟩
  rintro q bytes hq ⟨number, hFile, hBytes⟩
  have hBefore := (h.node q hq).symm.trans hFile
  have hLess := hSound.bounded q number hBefore
  have hHeld : fs.contents[number]? = some fs.contents[number] := List.getElem?_eq_getElem hLess
  obtain ⟨other, hOther, hAfter⟩ := h.held q _ hq ⟨number, hBefore, hHeld⟩
  rw [hFile] at hOther
  cases hOther
  rw [hBytes] at hAfter
  cases hAfter
  exact ⟨number, hBefore, hHeld⟩

theorem Same.read_of_ok (h : Same (fun _ => True) fs fs') (hSound : fs.Sound)
    (hRead : fs.read path = .ok bytes) : fs'.read path = .ok bytes := by
  have hTouches : Touches (fun _ => False) fs fs' :=
    ⟨h.mono fun _ _ => trivial, fun q hq => (h.node q trivial).trans hq⟩
  exact read_of_spares hSound (fun number => hTouches.spares fun _ _ hNot => hNot) hRead

theorem Same.toOption_read (h : Same (fun _ => True) fs fs') (hSound : fs.Sound) (hSound' : fs'.Sound)
    (path : Location) : (fs'.read path).toOption = (fs.read path).toOption :=
  toOption_read_congr fun _ => ⟨(h.symm hSound).read_of_ok hSound', h.read_of_ok hSound⟩

/-- Taking away what is at the location takes away the place and what is below it. -/
def Clears (p : Location) (place : Place) (fs : Files) : Prop :=
  ∀ q, (fs.removeAll p).node? q = if place <+: q then none else fs.node? q

/-- What has happened below a place does not show any more when the place is gone. -/
theorem Same.removeAll {place : Place} (h : Same (fun q => ¬ place <+: q) fs fs')
    (hClears : Clears p place fs) (hClears' : Clears p place fs') :
    Same (fun _ => True) (fs.removeAll p) (fs'.removeAll p) := by
  constructor
  · intro q _
    rw [hClears q, hClears' q]
    split
    · rfl
    · rename_i hOut
      exact h.node q hOut
  · rintro q bytes - ⟨number, hFile, hBytes⟩
    rw [hClears q] at hFile
    split at hFile
    · cases hFile
    · rename_i hOut
      rw [contents_removeAll] at hBytes
      obtain ⟨other, hOther, hAfter⟩ := h.held q bytes hOut ⟨number, hFile, hBytes⟩
      refine ⟨other, ?_, by rw [contents_removeAll, hAfter]⟩
      rw [hClears' q, if_neg hOut, hOther]

/-! ## A new directory -/

/-- Nothing is there yet under a name in a directory. -/
structure Fresh (fs : Files) (dir name : Location) (reached : Place) : Prop where
  sound : fs.Sound
  leads : fs.Leads dir reached
  plain : PlainName name
  vacant : ∀ q, reached ++ [name] <+: q → fs.node? q = none

/-- All that has changed is in the new directory. -/
structure Confined (dir name : Location) (reached : Place) (fs fs' : Files) : Prop where
  alters : Alters (reached ++ [name] <+: ·) fs fs'
  sound : fs'.Sound
  made : fs' = fs ∨ fs'.find (join dir name) = .ok (reached ++ [name], .directory)

namespace Fresh

variable {start : Files} {dir name file : Location} {reached : Place} (h : start.Fresh dir name reached)

include h

theorem confined : Confined dir name reached start start := ⟨.refl _ _, h.sound, .inl rfl⟩

theorem not_found (found : Place × FileNode) : start.find (join dir name) ≠ .ok found := by
  rw [find_join_leads h.leads h.plain, h.vacant _ List.prefix_rfl]
  intro hFound
  split at hFound
  · cases hFound
  · split at hFound <;> cases hFound

theorem removeAll : start.removeAll (join dir name) = start := by
  rw [Files.removeAll]
  split
  · rename_i hFound
    exact absurd hFound (h.not_found _)
  · rfl

theorem clears (hConfined : Confined dir name reached start fs) :
    Clears (join dir name) (reached ++ [name]) fs := by
  rcases hConfined.made with rfl | hFound
  · intro q
    rw [h.removeAll]
    split
    · rename_i hBelow
      exact h.vacant q hBelow
    · rfl
  · exact node?_removeAll hFound (named_snoc reached h.plain)

theorem toOption_read (hConfined : Confined dir name reached start fs) (path : Location) :
    ((fs.removeAll (join dir name)).read path).toOption = (start.read path).toOption := by
  have hSame := hConfined.alters.toSame.removeAll (h.clears h.confined) (h.clears hConfined)
  rw [h.removeAll] at hSame
  exact hSame.toOption_read h.sound (hConfined.sound.removeAll _) path

theorem confined_makeDirectories (hConfined : Confined dir name reached start fs) :
    Confined dir name reached start (fs.makeDirectories (join dir name)).1 := by
  have hDir := h.leads.standing hConfined.alters.standing
  have hAlters : Alters (reached ++ [name] <+: ·) fs (fs.makeDirectories (join dir name)).1 :=
    (alters_makeDirectories hDir h.plain).mono fun q hq => by
      subst hq
      exact List.prefix_rfl
  refine ⟨hConfined.alters.trans hAlters, hConfined.sound.makeDirectories _, ?_⟩
  rcases hMade : fs.makeDirectories (join dir name) with ⟨made, _ | e⟩
  · right
    rw [hMade] at hAlters
    rw [find_join_leads (hDir.standing hAlters.standing) h.plain,
      directory_of_makeDirectories hDir h.plain hMade]
    rw [makeDirectories_join hDir h.plain] at hMade
    split at hMade
    · cases hMade
    · split at hMade
      · cases hMade
      · rename_i hShort
        rw [if_neg hShort]
  · rw [eq_of_makeDirectories hDir h.plain hMade]
    exact hConfined.made

theorem place_file (hFile : PlainName file) (hConfined : Confined dir name reached start fs)
    {place : Place} (hPlace : fs.place (join (join dir name) file) = .ok place) :
    place = reached ++ [name] ++ [file] ∧
      fs.find (join dir name) = .ok (reached ++ [name], .directory) := by
  obtain ⟨inner, hInner, rfl⟩ := exists_leads hFile hPlace
  have hWalk := walk_join (h.leads.standing hConfined.alters.standing) h.plain []
  rw [List.append_nil, hInner.way, walk_singleton, advance_plain reached h.plain] at hWalk
  split at hWalk
  · cases hWalk
  · cases hWalk
    refine ⟨rfl, hConfined.made.resolve_left ?_⟩
    -- As long as nothing has changed, no path leads through the name.
    rintro rfl
    have hNone := h.vacant _ List.prefix_rfl
    rw [hInner.directory] at hNone
    cases hNone

theorem confined_openFile (hFile : PlainName file) (hConfined : Confined dir name reached start fs)
    {number : Nat} (hOpen : fs.openFile (join (join dir name) file) = .ok (number, fs')) :
    Confined dir name reached start fs' ∧
      fs'.find (join dir name) = .ok (reached ++ [name], .directory) ∧
      ∀ q, fs'.node? q = some (.file number) → reached ++ [name] <+: q := by
  rcases openFile_cases hOpen with ⟨rfl, place, hFound⟩ | ⟨place, hPlace, hNode, -, rfl, rfl⟩
  · obtain ⟨hPlace, hNode⟩ := place_of_find hFound
    obtain ⟨rfl, hDir⟩ := h.place_file hFile hConfined hPlace
    -- The file was there, and no other has its number.
    refine ⟨hConfined, hDir, fun q hq => ?_⟩
    rw [hConfined.sound.apart q _ number hq hNode]
    exact List.prefix_append _ _
  · obtain ⟨rfl, hDir⟩ := h.place_file hFile hConfined hPlace
    have hNamed := named_snoc (reached ++ [name]) hFile
    have hAlters : Alters (reached ++ [name] <+: ·) fs ((fs.stage []).2.setName
        (reached ++ [name] ++ [file]) (.file fs.contents.length)) :=
      (Alters.stage []).trans (.setName _ (List.prefix_append _ _) (by rw [node?_stage, hNode]; simp))
    have hDir' := find_of_directories hAlters.standing hDir
    refine ⟨⟨hConfined.alters.trans hAlters, hConfined.sound.addFile hNamed [], .inr hDir'⟩, hDir',
      fun q hq => ?_⟩
    rw [node?_setName hNamed] at hq
    split at hq
    · rename_i hEq
      rw [hEq]
      exact List.prefix_append _ _
    · exact absurd hq (hConfined.sound.number_free q)

theorem confined_write (hFile : PlainName file) (hConfined : Confined dir name reached start fs)
    (hWrite : fs.write (join (join dir name) file) bytes = .ok fs') :
    Confined dir name reached start fs' := by
  rw [write] at hWrite
  rcases hOpen : fs.openFile (join (join dir name) file) with e | ⟨number, opened⟩
  · rw [hOpen] at hWrite
    cases hWrite
  · rw [hOpen] at hWrite
    cases hWrite
    obtain ⟨hOpened, hDir, hNumber⟩ := h.confined_openFile hFile hConfined hOpen
    have hAlters : Alters (reached ++ [name] <+: ·) opened (opened.setContent number bytes) :=
      .setContent bytes hNumber
    exact ⟨hOpened.alters.trans hAlters, hOpened.sound.setContent number bytes,
      .inr (find_of_directories hAlters.standing hDir)⟩

end Fresh

/-! ## Directories that cannot be made -/

theorem directoryOf_join_spec (dir : Location) {name : Location} (hName : PlainName name)
    (hFault : fault? (join dir name) = none) :
    steps (directoryOf (join dir name)) = steps dir ∧ fault? (directoryOf (join dir name)) = none := by
  obtain ⟨parent, hParent, hSteps⟩ := exists_parent?_join dir hName
  rw [directoryOf, hParent]
  dsimp only
  split
  · rename_i hBlank
    rw [← hSteps, hBlank]
    exact ⟨by decide, by decide⟩
  · exact ⟨hSteps, fault?_of_prefix (prefix_of_parent? hParent) hFault⟩

theorem makeDirectories_directoryOf {dir name : Location} {place : Place} {node : FileNode}
    (hName : PlainName name) (h : fs.find (join dir name) = .ok (place, node)) :
    fs.makeDirectories (directoryOf (join dir name)) = (fs, none) := by
  obtain ⟨hPlace, -⟩ := place_of_find h
  obtain ⟨reached, hDir, -⟩ := exists_leads hName hPlace
  obtain ⟨hSteps, hFault⟩ := directoryOf_join_spec dir hName (fault?_of_place hPlace)
  have hWay := hDir.way
  rw [← hSteps] at hWay
  exact makeDirectories_of_leads ⟨hWay, hDir.directory⟩ hFault

theorem makeSteps_again {reached : Place} {steps : List String} {e : FileError}
    (h : fs.makeSteps reached steps = (fs', some e)) : fs'.makeSteps reached steps = (fs', some e) := by
  induction steps generalizing fs reached with
  | nil => cases h
  | cons step rest ih =>
    by_cases hDots : step = ".."
    · rw [hDots, makeSteps] at h ⊢
      exact ih h
    · rw [makeSteps_cons reached hDots] at h
      split at h
      · rename_i hLong
        cases h
        rw [makeSteps_cons reached hDots, if_pos hLong]
      · rename_i hShort
        have hStays : ∀ {fs : Files}, fs.node? (reached ++ [step]) = some .directory →
            fs.makeSteps (reached ++ [step]) rest = (fs', some e) →
            fs'.makeSteps reached (step :: rest) = (fs', some e) := by
          intro fs hNode hRest
          have hGrows : Grows fs (fs.makeSteps (reached ++ [step]) rest).1 := grows_makeSteps _ _
          rw [hRest] at hGrows
          rw [makeSteps_cons reached hDots, if_neg hShort, hGrows.node _ _ hNode]
          exact ih hRest
        split at h
        · rename_i hNode
          exact hStays hNode h
        · rename_i hNode
          cases h
          rw [makeSteps_cons reached hDots, if_neg hShort, hNode]
        · rename_i hNode
          refine hStays ?_ h
          rw [node?_setName (named_of_ne_directory (by rw [hNode]; simp)), if_pos rfl]

theorem makeDirectories_again {dir : Location} {e : FileError}
    (h : fs.makeDirectories dir = (fs', some e)) : fs'.makeDirectories dir = (fs', some e) := by
  rw [makeDirectories] at h ⊢
  split at h
  · cases h
    rfl
  · exact makeSteps_again h

theorem link_of_find {place : Place} {number n : Nat} (h : fs.find path = .ok (place, .file number)) :
    fs.link n path = .ok (fs.setName place (.file n)) := by
  obtain ⟨hPlace, hNode⟩ := place_of_find h
  rw [link_eq, hPlace]
  simp only [hNode]

end Reanalysis.Files
