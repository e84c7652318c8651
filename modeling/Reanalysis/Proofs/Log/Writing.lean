import Reanalysis.Proofs.Files.Stored
import Reanalysis.Proofs.Log.Line

/-!
# Writing to a log

Values that are added to a log stand behind what it held, a line each. Opening a log takes nothing from
any file, and a log that is there is opened as it is.
-/

namespace Reanalysis

open Files (Location)
open Text (linesText)

theorem Gives.foldlM_cons_iff {ε σ α β : Type} {f : α → β → ExceptT ε (StateM σ) α} {a b : α} {c : β}
    {cs : List β} {w w' : σ} :
    Gives ((c :: cs).foldlM f a) w b w' ↔
      ∃ a₁ w₁, Gives (f a c) w a₁ w₁ ∧ Gives (cs.foldlM f a₁) w₁ b w' := by
  rw [List.foldlM_cons, Gives.bind_iff]

namespace Log

variable {fs fs' : Files} {log log' : Log} {path : Location} {old bytes : Bytes} {number : Nat}

/-! ## Adding lines -/

def line (value : Json.Value) : Bytes := Text.encode (value.render ++ "\n")

def appendAll (log : Log) (values : List Json.Value) : StoreAction Log := values.foldlM append log

/-- The next line goes behind these contents. -/
def AtEnd (log : Log) (old : Bytes) : Prop := ∀ position ∈ log.position, position = old.length

theorem atEnd_of_none (h : log.position = none) (old : Bytes) : log.AtEnd old := by
  rw [AtEnd, h]
  nofun

theorem overwrite_end (old bytes : Bytes) : overwrite old old.length bytes = old ++ bytes := by
  simp [overwrite]

theorem gives_append_end (hOld : fs.content log.number = old) (hEnd : log.AtEnd old)
    {value : Json.Value} (h : Gives (log.append value) fs log' fs') :
    fs' = fs.setContent log.number (old ++ line value) ∧ log'.number = log.number ∧
      log'.AtEnd (old ++ line value) := by
  rw [append, Gives.get_bind_iff, hOld] at h
  split at h
  · rename_i hPosition
    simp only [Gives.bind_iff, Gives.modify_iff, Gives.pure_iff] at h
    obtain ⟨_, _, rfl, rfl, rfl⟩ := h
    exact ⟨rfl, rfl, atEnd_of_none hPosition _⟩
  · rename_i position hPosition
    obtain rfl := hEnd position hPosition
    simp only [Gives.bind_iff, Gives.modify_iff, Gives.pure_iff] at h
    obtain ⟨_, _, rfl, rfl, rfl⟩ := h
    rw [overwrite_end]
    refine ⟨rfl, rfl, ?_⟩
    intro position hNext
    rw [← Option.some.inj hNext]
    exact (List.length_append).symm

theorem exists_gives_append (log : Log) (fs : Files) (value : Json.Value) :
    ∃ log' fs', Gives (log.append value) fs log' fs' := by
  simp only [append, Gives.get_bind_iff]
  split <;> exact ⟨_, _, Gives.bind_iff.mpr ⟨⟨⟩, _, Gives.modify_iff.mpr rfl,
    Gives.pure_iff.mpr ⟨rfl, rfl⟩⟩⟩

theorem exists_gives_appendAll (log : Log) (fs : Files) (values : List Json.Value) :
    ∃ log' fs', Gives (log.appendAll values) fs log' fs' := by
  induction values generalizing log fs with
  | nil => exact ⟨log, fs, Gives.pure_iff.mpr ⟨rfl, rfl⟩⟩
  | cons value values ih =>
    obtain ⟨log₁, fs₁, hFirst⟩ := exists_gives_append log fs value
    obtain ⟨log', fs', hRest⟩ := ih log₁ fs₁
    exact ⟨log', fs', Gives.foldlM_cons_iff.mpr ⟨log₁, fs₁, hFirst, hRest⟩⟩

theorem gives_appendAll {values : List Json.Value} (hOld : fs.contents[log.number]? = some old)
    (hEnd : log.AtEnd old) (h : Gives (log.appendAll values) fs log' fs') :
    fs' = fs.setContent log.number (old ++ values.flatMap line) := by
  induction values generalizing log old fs with
  | nil =>
    obtain ⟨-, rfl⟩ := Gives.pure_iff.mp h
    obtain ⟨hLess, rfl⟩ := List.getElem?_eq_some_iff.mp hOld
    rw [List.flatMap_nil, List.append_nil, Files.setContent, List.set_getElem_self]
  | cons value values ih =>
    obtain ⟨log₁, fs₁, hFirst, hRest⟩ := Gives.foldlM_cons_iff.mp h
    have hContent : fs.content log.number = old := by rw [Files.content, hOld]; rfl
    obtain ⟨rfl, hNumber, hEnd₁⟩ := gives_append_end hContent hEnd hFirst
    have hLess := (List.getElem?_eq_some_iff.mp hOld).1
    have hOld₁ : (fs.setContent log.number (old ++ line value)).contents[log₁.number]? =
        some (old ++ line value) := by
      rw [hNumber]
      exact List.getElem?_set_self hLess
    rw [ih hOld₁ hEnd₁ hRest, hNumber, List.flatMap_cons, List.append_assoc]
    simp [Files.setContent, List.set_set]

theorem stores_appendAll {values : List Json.Value} (hStores : fs.Stores path log.number old)
    (hEnd : log.AtEnd old) (h : Gives (log.appendAll values) fs log' fs') :
    fs'.Stores path log.number (old ++ values.flatMap line) := by
  rw [gives_appendAll hStores.content hEnd h]
  exact hStores.setContent _

/-! ## Opening -/

theorem gives_attach (h : Gives (attach path) fs log fs') :
    log.position = none ∧ ∃ fs₁, (fs₁ = fs ∧ (Files.parent? path).getD "" = "" ∨
      ∃ dir, Files.parent? path = some dir ∧ fs.makeDirectories dir = (fs₁, none)) ∧
      fs₁.openFile path = .ok (log.number, fs') := by
  simp only [attach, Gives.bind_iff, Gives.pure_iff] at h
  obtain ⟨_, fs₁, hParents, number, _, hOpen, rfl, rfl⟩ := h
  refine ⟨rfl, fs₁, ?_, ?_⟩
  · rw [makeParents] at hParents
    split at hParents
    · rename_i dir hDir
      split at hParents
      · rw [StoreAction.gives_perform_iff, FileStep.run] at hParents
        rcases hMade : fs.makeDirectories dir with ⟨made, failure⟩
        rw [hMade, Prod.mk.injEq, Option.map_eq_none_iff] at hParents
        obtain ⟨rfl, rfl⟩ := hParents
        exact .inr ⟨dir, hDir, hMade⟩
      · rename_i hBlank
        rw [hDir]
        exact .inl ⟨(Gives.pure_iff.mp hParents).2.symm, not_not.mp hBlank⟩
    · rename_i hNone
      rw [hNone]
      exact .inl ⟨(Gives.pure_iff.mp hParents).2.symm, rfl⟩
  · rw [openFile, Gives.get_bind_iff] at hOpen
    split at hOpen
    · rename_i opened
      simp only [Gives.bind_iff, Gives.set_iff, Gives.pure_iff] at hOpen
      obtain ⟨_, _, rfl, rfl, rfl⟩ := hOpen
      exact opened
    · exact absurd hOpen Gives.not_throw

theorem openFile_of_attach {dir name : Location} (hName : Files.PlainName name)
    (h : Gives (attach (Files.join dir name)) fs log fs') :
    (fs.makeDirectories dir).1.openFile (Files.join dir name) = .ok (log.number, fs') := by
  obtain ⟨-, fs₁, hParents, hOpen⟩ := gives_attach h
  obtain ⟨parent, hParent, hSteps⟩ := Files.exists_parent?_join dir hName
  have hFault : Files.fault? dir = none := by
    refine Files.fault?_of_join hName ?_
    rw [Files.openFile_eq, Files.place_eq_walk (Files.join_ne_blank hName)
      (Files.asksForDirectory_join hName)] at hOpen
    cases hFault : Files.fault? (Files.join dir name) with
    | none => rfl
    | some fault =>
      rw [hFault] at hOpen
      cases hOpen
  have hMade : fs₁ = (fs.makeSteps [] (Files.steps parent)).1 := by
    rw [hParent] at hParents
    rcases hParents with ⟨rfl, hBlank⟩ | ⟨other, hOther, hMade⟩
    · obtain rfl : parent = "" := hBlank
      rfl
    · obtain rfl := Option.some.inj hOther
      rw [Files.makeDirectories] at hMade
      split at hMade
      · cases hMade
      · rw [hMade]
  rw [Files.makeDirectories, hFault, ← hSteps, ← hMade]
  exact hOpen

/-- A log that is there is opened as it is. -/
theorem gives_attach_of_find {dir name : Location} {place : Place} (hName : Files.PlainName name)
    (hFound : fs.find (Files.join dir name) = .ok (place, .file number)) :
    Gives (attach (Files.join dir name)) fs ⟨Files.join dir name, number, none⟩ fs := by
  obtain ⟨hPlace, hNode⟩ := Files.place_of_find hFound
  obtain ⟨reached, hDir, -⟩ := Files.exists_leads hName hPlace
  obtain ⟨parent, hParent, hSteps⟩ := Files.exists_parent?_join dir hName
  have hWay := hDir.way
  rw [← hSteps] at hWay
  have hFault : Files.fault? parent = none :=
    Files.fault?_of_prefix (Files.prefix_of_parent? hParent) (Files.fault?_of_place hPlace)
  have hMade : fs.makeDirectories parent = (fs, none) :=
    Files.makeDirectories_of_leads ⟨hWay, hDir.directory⟩ hFault
  have hParents : Gives (makeParents (Files.join dir name)) fs ⟨⟩ fs := by
    rw [makeParents, hParent]
    dsimp only
    split
    · rw [StoreAction.gives_perform_iff, FileStep.run, hMade]
      rfl
    · rfl
  have hOpen : Gives (openFile (Files.join dir name)) fs number fs := by
    rw [openFile, Gives.get_bind_iff, Files.openFile_eq, hPlace]
    dsimp only
    rw [hNode]
    rfl
  exact Gives.bind_iff.mpr ⟨_, _, hParents, Gives.bind_iff.mpr ⟨_, _, hOpen, rfl⟩⟩

theorem grows_attach (h : Gives (attach path) fs log fs') : Files.Grows fs fs' := by
  obtain ⟨-, fs₁, hParents, hOpen⟩ := gives_attach h
  have hFirst : Files.Grows fs fs₁ := by
    rcases hParents with ⟨rfl, -⟩ | ⟨dir, -, hMade⟩
    · exact .refl _
    · have hGrows : Files.Grows fs (fs.makeDirectories dir).1 := Files.grows_makeDirectories dir
      rwa [hMade] at hGrows
  exact hFirst.trans (Files.grows_openFile hOpen)

theorem sound_attach (hSound : fs.Sound) (h : Gives (attach path) fs log fs') :
    fs'.Sound ∧ ∃ bytes, fs'.Stores path log.number bytes := by
  obtain ⟨-, fs₁, hParents, hOpen⟩ := gives_attach h
  have hSound₁ : fs₁.Sound := by
    rcases hParents with ⟨rfl, -⟩ | ⟨dir, -, hMade⟩
    · exact hSound
    · have hMadeSound := hSound.makeDirectories dir
      rwa [hMade] at hMadeSound
  exact ⟨hSound₁.openFile hOpen, hSound₁.stores_openFile hOpen⟩

theorem stores_attach (hStores : fs.Stores path number bytes) (h : Gives (attach path) fs log fs') :
    log.number = number ∧ fs'.Stores path number bytes := by
  obtain ⟨-, fs₁, hParents, hOpen⟩ := gives_attach h
  have hStores₁ : fs₁.Stores path number bytes := by
    rcases hParents with ⟨rfl, -⟩ | ⟨dir, -, hMade⟩
    · exact hStores
    · have hKept := (Files.grows_makeDirectories dir).spares bytes hStores
      rwa [hMade] at hKept
  obtain ⟨place, hFound⟩ := hStores₁.found
  rcases Files.openFile_cases hOpen with ⟨rfl, place', hFound'⟩ | ⟨place', hPlace, hFree, -⟩
  · rw [hFound] at hFound'
    cases hFound'
    exact ⟨rfl, hStores₁⟩
  · obtain ⟨hPlace', hNode⟩ := Files.place_of_find hFound
    rw [hPlace] at hPlace'
    cases hPlace'
    rw [hFree] at hNode
    cases hNode

/-! ## Reading -/

theorem line_eq (value : Json.Value) :
    line value = Text.encode (String.ofList (value.chars ++ ['\n'])) := by
  rw [line, String.ofList_append]
  rfl

theorem flatMap_line (values : List Json.Value) :
    values.flatMap line = Text.encode (String.ofList (linesText (values.map Json.Value.chars))) := by
  rw [Text.encode_ofList, linesText, List.flatMap_map, List.flatMap_assoc]
  exact List.flatMap_congr fun value _ => (line_eq value).trans (Text.encode_ofList _)

theorem gives_readText {text : String} (h : fs.read path = .ok (Text.encode text)) :
    Gives (readText path) fs text fs := by
  have hText : fs.readText path = .ok text := by
    simp only [Files.readText, h, bind, Except.bind, Text.decode?_encode]
    rfl
  rw [readText, Gives.get_bind_iff, hText]
  exact Gives.pure_iff.mpr ⟨rfl, rfl⟩

end Log

end Reanalysis
