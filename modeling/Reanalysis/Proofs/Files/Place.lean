import Reanalysis.Files.Basic
import Reanalysis.Proofs.Files.Location

/-!
# What stands where

What each change of the files does to the names and to the contents, place by place, and the places
that locations lead to. A location below a directory leads to a place below that directory.
-/

namespace Reanalysis.Files

variable {fs fs' fs'' : Files}

/-! ## Names -/

/-- The working directory and the root have no name of their own. -/
def Named (place : Place) : Prop := place ≠ [] ∧ place ≠ ["/"]

theorem named_snoc (reached : Place) {name : String} (h : PlainName name) :
    Named (reached ++ [name]) := by
  refine ⟨by simp, fun hEq => ?_⟩
  have hLast := congrArg List.getLast? hEq
  rw [List.getLast?_concat] at hLast
  apply h.no_slash
  rw [Option.some.inj hLast]
  decide

theorem named_of_ne_directory {q : Place} (h : fs.node? q ≠ some .directory) : Named q := by
  refine ⟨fun hEq => h ?_, fun hEq => h ?_⟩ <;> simp [hEq, node?]

theorem node?_of_named {q : Place} (h : Named q) : fs.node? q = fs.names.lookup q := by
  simp [node?, h.1, h.2]

theorem lookup_filter (names : List (Place × FileNode)) (keep : Place → Bool) (q : Place) :
    (names.filter (keep ·.1)).lookup q = if keep q then names.lookup q else none := by
  induction names with
  | nil => simp
  | cons e names ih =>
    obtain ⟨place, node⟩ := e
    rw [List.filter_cons, List.lookup_cons]
    by_cases hq : q = place
    · subst hq
      cases hKeep : keep q with
      | true => simp
      | false => simpa [hKeep] using ih
    · have hNe : (q == place) = false := by simpa using hq
      rw [hNe]
      split
      · rw [List.lookup_cons, hNe]
        exact ih
      · exact ih

theorem lookup_filter_ne (names : List (Place × FileNode)) (place q : Place) :
    (names.filter (·.1 ≠ place)).lookup q = if q = place then none else names.lookup q := by
  rw [lookup_filter names (· ≠ place)]
  by_cases hq : q = place <;> simp [hq]

theorem node?_dropName {place : Place} (h : Named place) (q : Place) :
    (fs.dropName place).node? q = if q = place then none else fs.node? q := by
  by_cases hq : Named q
  · rw [node?_of_named hq, node?_of_named hq, dropName, lookup_filter_ne]
  · have hNe : q ≠ place := fun hEq => hq (hEq ▸ h)
    rw [Named, not_and_or, not_not, not_not] at hq
    rw [if_neg hNe]
    rcases hq with rfl | rfl <;> rfl

theorem node?_setName {place : Place} (h : Named place) (node : FileNode) (q : Place) :
    (fs.setName place node).node? q = if q = place then some node else fs.node? q := by
  by_cases hq : Named q
  · rw [node?_of_named hq, node?_of_named hq, setName, List.lookup_cons, lookup_filter_ne]
    by_cases hEq : q = place
    · simp [hEq]
    · have hNe : (q == place) = false := by simpa using hEq
      rw [hNe, if_neg hEq, if_neg hEq]
  · have hNe : q ≠ place := fun hEq => hq (hEq ▸ h)
    rw [Named, not_and_or, not_not, not_not] at hq
    rw [if_neg hNe]
    rcases hq with rfl | rfl <;> rfl

@[simp] theorem node?_stage (bytes : Bytes) (q : Place) : (fs.stage bytes).2.node? q = fs.node? q :=
  rfl

/-! ## Contents -/

/-- A file with these contents stands at the place. -/
def Holds (fs : Files) (place : Place) (bytes : Bytes) : Prop :=
  ∃ number, fs.node? place = some (.file number) ∧ fs.contents[number]? = some bytes

/-- Nothing that can be seen at these places has changed. -/
structure Same (watched : Place → Prop) (fs fs' : Files) : Prop where
  node : ∀ q, watched q → fs'.node? q = fs.node? q
  held : ∀ q bytes, watched q → fs.Holds q bytes → fs'.Holds q bytes

namespace Same

variable {watched within : Place → Prop}

theorem refl (watched : Place → Prop) (fs : Files) : Same watched fs fs :=
  ⟨fun _ _ => rfl, fun _ _ _ h => h⟩

theorem trans (h : Same watched fs fs') (h' : Same watched fs' fs'') : Same watched fs fs'' :=
  ⟨fun q hq => (h'.node q hq).trans (h.node q hq),
    fun q bytes hq hHolds => h'.held q bytes hq (h.held q bytes hq hHolds)⟩

theorem mono (h : Same watched fs fs') (hWithin : ∀ q, within q → watched q) : Same within fs fs' :=
  ⟨fun q hq => h.node q (hWithin q hq), fun q bytes hq => h.held q bytes (hWithin q hq)⟩

theorem of_contents (hNode : ∀ q, watched q → fs'.node? q = fs.node? q)
    (hContents : fs.contents <+: fs'.contents) : Same watched fs fs' := by
  refine ⟨hNode, ?_⟩
  rintro q bytes hq ⟨number, hFile, hBytes⟩
  obtain ⟨more, hMore⟩ := hContents
  refine ⟨number, (hNode q hq).trans hFile, ?_⟩
  rw [← hMore, List.getElem?_append_left (List.getElem?_eq_some_iff.mp hBytes).1, hBytes]

theorem setName {place : Place} (hNamed : Named place) (node : FileNode) (h : ¬ watched place) :
    Same watched fs (fs.setName place node) := by
  refine of_contents (fun q hq => ?_) List.prefix_rfl
  rw [node?_setName hNamed, if_neg]
  rintro rfl
  exact h hq

theorem dropName {place : Place} (hNamed : Named place) (h : ¬ watched place) :
    Same watched fs (fs.dropName place) := by
  refine of_contents (fun q hq => ?_) List.prefix_rfl
  rw [node?_dropName hNamed, if_neg]
  rintro rfl
  exact h hq

theorem stage (bytes : Bytes) : Same watched fs (fs.stage bytes).2 :=
  of_contents (fun _ _ => rfl) (List.prefix_append _ _)

theorem setContent {number : Nat} (bytes : Bytes)
    (h : ∀ q, watched q → fs.node? q ≠ some (.file number)) :
    Same watched fs (fs.setContent number bytes) := by
  refine ⟨fun _ _ => rfl, ?_⟩
  rintro q held hq ⟨other, hFile, hBytes⟩
  refine ⟨other, hFile, ?_⟩
  have hNe : number ≠ other := by
    rintro rfl
    exact h q hq hFile
  rw [Files.setContent, List.getElem?_set_ne hNe, hBytes]

end Same

/-- Only these places have changed, every directory is still there, and no number is given anew. -/
structure Alters (changed : Place → Prop) (fs fs' : Files) : Prop
    extends Same (fun q => ¬ changed q) fs fs' where
  standing : ∀ q, fs.node? q = some .directory → fs'.node? q = some .directory
  grows : fs.contents.length ≤ fs'.contents.length

namespace Alters

variable {changed within : Place → Prop}

theorem refl (changed : Place → Prop) (fs : Files) : Alters changed fs fs :=
  ⟨.refl _ fs, fun _ h => h, Nat.le_refl _⟩

theorem trans (h : Alters changed fs fs') (h' : Alters changed fs' fs'') : Alters changed fs fs'' :=
  ⟨h.toSame.trans h'.toSame, fun q hq => h'.standing q (h.standing q hq), Nat.le_trans h.grows h'.grows⟩

theorem mono (h : Alters within fs fs') (hWithin : ∀ q, within q → changed q) :
    Alters changed fs fs' :=
  ⟨h.toSame.mono fun q hq hIn => hq (hWithin q hIn), h.standing, h.grows⟩

theorem setName {place : Place} (node : FileNode) (hChanged : changed place)
    (hFree : fs.node? place ≠ some .directory) : Alters changed fs (fs.setName place node) := by
  have hNamed := named_of_ne_directory hFree
  refine ⟨.setName hNamed node fun h => h hChanged, fun q hq => ?_, Nat.le_refl _⟩
  rw [node?_setName hNamed, if_neg]
  · exact hq
  · rintro rfl
    exact hFree hq

theorem dropName {place : Place} (hChanged : changed place)
    (hFree : fs.node? place ≠ some .directory) : Alters changed fs (fs.dropName place) := by
  have hNamed := named_of_ne_directory hFree
  refine ⟨.dropName hNamed fun h => h hChanged, fun q hq => ?_, Nat.le_refl _⟩
  rw [node?_dropName hNamed, if_neg]
  · exact hq
  · rintro rfl
    exact hFree hq

theorem stage (bytes : Bytes) : Alters changed fs (fs.stage bytes).2 :=
  ⟨.stage bytes, fun _ h => h, by simp [Files.stage]⟩

theorem setContent {number : Nat} (bytes : Bytes)
    (h : ∀ q, fs.node? q = some (.file number) → changed q) :
    Alters changed fs (fs.setContent number bytes) :=
  ⟨.setContent bytes fun q hq hFile => hq (h q hFile), fun _ hq => hq, by simp [Files.setContent]⟩

end Alters

/-- Only these places have changed, and every directory is still there. -/
structure Touches (changed : Place → Prop) (fs fs' : Files) : Prop
    extends Same (fun q => ¬ changed q) fs fs' where
  standing : ∀ q, fs.node? q = some .directory → fs'.node? q = some .directory

theorem Alters.touches {changed : Place → Prop} (h : Alters changed fs fs') : Touches changed fs fs' :=
  ⟨h.toSame, h.standing⟩

namespace Touches

variable {changed within : Place → Prop}

theorem refl (changed : Place → Prop) (fs : Files) : Touches changed fs fs := ⟨.refl _ fs, fun _ h => h⟩

theorem trans (h : Touches changed fs fs') (h' : Touches changed fs' fs'') : Touches changed fs fs'' :=
  ⟨h.toSame.trans h'.toSame, fun q hq => h'.standing q (h.standing q hq)⟩

theorem mono (h : Touches within fs fs') (hWithin : ∀ q, within q → changed q) :
    Touches changed fs fs' := ⟨h.toSame.mono fun q hq hIn => hq (hWithin q hIn), h.standing⟩

theorem settled (h : Touches changed fs fs') :
    Touches (fun q => changed q ∧ fs.node? q ≠ some .directory) fs fs' := by
  refine ⟨⟨fun q hq => ?_, fun q bytes hq hHolds => ?_⟩, h.standing⟩
  · by_cases hChanged : changed q
    · have hThere := not_not.mp fun hNot => hq ⟨hChanged, hNot⟩
      rw [hThere, h.standing q hThere]
    · exact h.node q hChanged
  · refine h.held q bytes (fun hChanged => hq ⟨hChanged, ?_⟩) hHolds
    obtain ⟨number, hFile, -⟩ := hHolds
    simp [hFile]

end Touches

/-! ## Ways -/

def advance (reached : Place) (step : String) : Place :=
  if step = ".." then reached.dropLast else reached ++ [step]

theorem advance_plain (reached : Place) {name : String} (h : PlainName name) :
    advance reached name = reached ++ [name] := if_neg h.ne_points

theorem walk_singleton (reached : Place) (step : String) :
    fs.walk reached [step] =
      if isOverlong step then .error .nameTooLong else .ok (advance reached step) := by
  by_cases hDots : step = ".."
  · subst hDots
    have hShort : isOverlong ".." = false := by decide
    rw [walk, hShort]
    rfl
  · rw [walk, advance, if_neg hDots]
    exact hDots

theorem walk_cons (reached : Place) (step : String) {rest : List String} (h : rest ≠ []) :
    fs.walk reached (step :: rest) =
      if isOverlong step then .error .nameTooLong
      else match fs.node? (advance reached step) with
        | some .directory => fs.walk (advance reached step) rest
        | some (.file _) => .error .notDirectory
        | none => .error .notFound := by
  rw [walk]
  · rfl
  · intro _ hNil
    exact h hNil
  · exact h

theorem walk_cons_eq_ok_iff {reached place : Place} {step : String} {steps : List String}
    (hPlace : fs.node? place = some .directory) :
    fs.walk reached (step :: steps) = .ok place ↔
      isOverlong step = false ∧ fs.node? (advance reached step) = some .directory ∧
        fs.walk (advance reached step) steps = .ok place := by
  cases hLong : isOverlong step with
  | true =>
    by_cases hSteps : steps = []
    · simp [hSteps, walk_singleton, hLong]
    · simp [walk_cons _ _ hSteps, hLong]
  | false =>
    by_cases hSteps : steps = []
    · subst hSteps
      rw [walk_singleton, hLong, walk]
      constructor
      · intro h
        cases h
        exact ⟨rfl, hPlace, rfl⟩
      · rintro ⟨-, -, h⟩
        exact h
    · rw [walk_cons _ _ hSteps, hLong]
      constructor
      · intro h
        split at h
        · rename_i hLong
          cases hLong
        · split at h
          · rename_i hNode
            exact ⟨rfl, hNode, h⟩
          · cases h
          · cases h
      · rintro ⟨-, hNode, h⟩
        rw [hNode]
        exact h

theorem walk_append {reached place : Place} {steps rest : List String}
    (h : fs.walk reached steps = .ok place) (hPlace : fs.node? place = some .directory)
    (hRest : rest ≠ []) : fs.walk reached (steps ++ rest) = fs.walk place rest := by
  induction steps generalizing reached with
  | nil =>
    cases h
    rfl
  | cons step steps ih =>
    obtain ⟨hShort, hNode, hWalk⟩ := (walk_cons_eq_ok_iff hPlace).mp h
    rw [List.cons_append, walk_cons _ _ (List.append_ne_nil_of_right_ne_nil steps hRest), hShort,
      hNode]
    exact ih hWalk

theorem walk_snoc_iff {reached place : Place} {front : List String} {name : String}
    (hReached : fs.node? reached = some .directory) (hName : PlainName name) :
    fs.walk reached (front ++ [name]) = .ok place ↔
      ∃ way, fs.walk reached front = .ok way ∧ fs.node? way = some .directory ∧
        isOverlong name = false ∧ place = way ++ [name] := by
  induction front generalizing reached with
  | nil =>
    rw [List.nil_append, walk_singleton, advance_plain reached hName, walk]
    cases isOverlong name with
    | true => simp
    | false =>
      constructor
      · intro h
        cases h
        exact ⟨reached, rfl, hReached, rfl, rfl⟩
      · rintro ⟨way, hWay, -, -, rfl⟩
        cases hWay
        rfl
  | cons step front ih =>
    constructor
    · intro h
      rw [List.cons_append, walk_cons _ _ (by simp)] at h
      split at h
      · cases h
      · rename_i hShort
        split at h
        · rename_i hNode
          obtain ⟨way, hWay, hDirectory, hName⟩ := (ih hNode).mp h
          refine ⟨way, ?_, hDirectory, hName⟩
          exact (walk_cons_eq_ok_iff hDirectory).mpr ⟨Bool.not_eq_true _ ▸ hShort, hNode, hWay⟩
        · cases h
        · cases h
    · rintro ⟨way, hWay, hDirectory, hShort, rfl⟩
      rw [walk_append hWay hDirectory (by simp), walk_singleton, hShort, advance_plain way hName]
      rfl

/-- A way stays open as long as no directory on it goes. -/
theorem walk_of_directories (hKept : ∀ q, fs.node? q = some .directory → fs'.node? q = some .directory)
    {reached place : Place} {steps : List String} (h : fs.walk reached steps = .ok place) :
    fs'.walk reached steps = .ok place := by
  induction steps generalizing reached with
  | nil => exact h
  | cons step steps ih =>
    by_cases hSteps : steps = []
    · rw [hSteps, walk_singleton] at h ⊢
      exact h
    · rw [walk_cons _ _ hSteps] at h ⊢
      split at h
      · cases h
      · rename_i hShort
        rw [if_neg hShort]
        split at h
        · rename_i hNode
          rw [hKept _ hNode]
          exact ih h
        · cases h
        · cases h

/-! ## Locations -/

theorem place_eq (p : Location) :
    fs.place p =
      if p = "" then .error .notFound
      else match fault? p with
        | some fault => .error fault
        | none => match fs.walk [] (steps p) with
          | .error e => .error e
          | .ok place => match fs.node? place with
            | some (.file _) => if asksForDirectory p then .error .notDirectory else .ok place
            | _ => .ok place := by
  rw [Files.place]
  split
  · rfl
  · cases fault? p with
    | some fault => rfl
    | none =>
      cases fs.walk [] (steps p) with
      | error e => rfl
      | ok place =>
        dsimp only [bind, Except.bind, pure, Except.pure]
        rcases fs.node? place with _ | ⟨number | -⟩
        · rfl
        · cases asksForDirectory p <;> rfl
        · rfl

theorem place_eq_walk {p : Location} (hBlank : p ≠ "") (hAsks : asksForDirectory p = false) :
    fs.place p = match fault? p with
      | some fault => .error fault
      | none => fs.walk [] (steps p) := by
  rw [place_eq, if_neg hBlank, hAsks]
  split
  · rfl
  · split
    · rename_i hWalk
      exact hWalk.symm
    · rename_i hWalk
      split <;> exact hWalk.symm

theorem find_eq (p : Location) :
    fs.find p = match fs.place p with
      | .error e => .error e
      | .ok place => match fs.node? place with
        | some node => .ok (place, node)
        | none => .error .notFound := by
  rw [find]
  cases fs.place p with
  | error e => rfl
  | ok place => rfl

theorem isFile_congr {p : Location} (h : fs'.read p = fs.read p) : fs'.isFile p = fs.isFile p := by
  have hOk : ∀ fs : Files, fs.isFile p = (fs.read p).isOk := by
    intro fs
    rw [isFile, read]
    rcases fs.find p with e | ⟨place, number | -⟩ <;> rfl
  rw [hOk, hOk, h]

theorem removeFile_eq (p : Location) :
    fs.removeFile p = match fs.find p with
      | .error e => .error e
      | .ok (place, .file _) => .ok (fs.dropName place)
      | .ok (_, .directory) => .error .isDirectory := by
  rw [removeFile]
  rcases fs.find p with _ | ⟨_, _ | _⟩ <;> rfl

theorem rename_eq (source target : Location) :
    fs.rename source target = match fs.find source with
      | .error e => .error e
      | .ok (place, .file number) => (fs.dropName place).link number target
      | .ok (_, .directory) => .error .isDirectory := by
  rw [rename]
  rcases fs.find source with _ | ⟨_, _ | _⟩ <;> rfl

theorem link_eq (number : Nat) (p : Location) :
    fs.link number p = match fs.place p with
      | .error e => .error e
      | .ok place => match fs.node? place with
        | some .directory => .error .isDirectory
        | some (.file _) => .ok (fs.setName place (.file number))
        | none =>
          if asksForDirectory p then .error .notDirectory
          else .ok (fs.setName place (.file number)) := by
  rw [link]
  cases fs.place p with
  | error e => rfl
  | ok place =>
    dsimp only [bind, Except.bind, pure, Except.pure]
    rcases fs.node? place with _ | ⟨number | -⟩
    · cases asksForDirectory p <;> rfl
    · rfl
    · rfl

theorem walk_of_place {p : Location} {place : Place} (h : fs.place p = .ok place) :
    fs.walk [] (steps p) = .ok place := by
  rw [place_eq] at h
  split at h
  · cases h
  · split at h
    · cases h
    · split at h
      · cases h
      · rename_i hWalk
        split at h
        · split at h <;> cases h
          exact hWalk
        · cases h
          exact hWalk

theorem place_of_find {p : Location} {place : Place} {node : FileNode}
    (h : fs.find p = .ok (place, node)) : fs.place p = .ok place ∧ fs.node? place = some node := by
  rw [find_eq] at h
  split at h
  · cases h
  · rename_i hPlace
    split at h
    · rename_i hNode
      cases h
      exact ⟨hPlace, hNode⟩
    · cases h

/-- A location that may name a file leads to the same place as long as no directory on the way
goes. -/
theorem place_of_directories
    (hKept : ∀ q, fs.node? q = some .directory → fs'.node? q = some .directory)
    {p : Location} {place : Place} (hAsks : asksForDirectory p = false) (h : fs.place p = .ok place) :
    fs'.place p = .ok place := by
  have hBlank : p ≠ "" := by
    rintro rfl
    rw [place_eq, if_pos rfl] at h
    cases h
  rw [place_eq_walk hBlank hAsks] at h ⊢
  split at h
  · cases h
  · exact walk_of_directories hKept h

theorem asksForDirectory_of_file {p : Location} {place : Place} {number : Nat}
    (h : fs.find p = .ok (place, .file number)) : asksForDirectory p = false := by
  obtain ⟨hPlace, hNode⟩ := place_of_find h
  have hWalk := walk_of_place hPlace
  rw [place_eq] at hPlace
  split at hPlace
  · cases hPlace
  · split at hPlace
    · cases hPlace
    · rw [hWalk] at hPlace
      simp only [hNode] at hPlace
      split at hPlace
      · cases hPlace
      · rename_i hAsks
        exact Bool.not_eq_true _ ▸ hAsks

theorem find_of_kept (hKept : ∀ q, fs.node? q = some .directory → fs'.node? q = some .directory)
    {p : Location} {place : Place} {node : FileNode} (h : fs.find p = .ok (place, node))
    (hNode' : fs'.node? place = some node) : fs'.find p = .ok (place, node) := by
  obtain ⟨hPlace, hNode⟩ := place_of_find h
  have hWalk := walk_of_directories hKept (walk_of_place hPlace)
  rw [place_eq] at hPlace
  have hPlace' : fs'.place p = .ok place := by
    rw [place_eq]
    split at hPlace
    · cases hPlace
    · rename_i hBlank
      rw [if_neg hBlank]
      split at hPlace
      · cases hPlace
      · rw [walk_of_place (place_of_find h).1] at hPlace
        rw [hWalk]
        simp only [hNode, hNode'] at hPlace ⊢
        exact hPlace
  simp only [find_eq, hPlace', hNode']

theorem find_of_directories
    (hKept : ∀ q, fs.node? q = some .directory → fs'.node? q = some .directory)
    {p : Location} {place : Place} (h : fs.find p = .ok (place, .directory)) :
    fs'.find p = .ok (place, .directory) :=
  find_of_kept hKept h (hKept _ (place_of_find h).2)

theorem fault?_of_prefix {p q : Location} (hPrefix : q.toList <+: p.toList) (h : fault? p = none) :
    fault? q = none := by
  obtain ⟨rest, hRest⟩ := hPrefix
  have hJoin : p = q ++ String.ofList rest :=
    String.toList_inj.mp (by rw [String.toList_append, String.toList_ofList, hRest])
  rw [fault?] at h ⊢
  split at h
  · cases h
  · rename_i hNull
    split at h
    · cases h
    · rename_i hLong
      rw [if_neg, if_neg]
      · rw [hJoin, String.utf8ByteSize_append] at hLong
        omega
      · rw [hJoin, String.toList_append] at hNull
        simp only [List.contains_eq_mem, List.mem_append, decide_eq_true_eq, not_or] at hNull ⊢
        exact hNull.1

theorem fault?_of_join {dir name : Location} (hName : PlainName name)
    (h : fault? (join dir name) = none) : fault? dir = none :=
  fault?_of_prefix (toList_prefix_join dir hName) h

theorem fault?_of_place {p : Location} {place : Place} (h : fs.place p = .ok place) : fault? p = none := by
  rw [place_eq] at h
  split at h
  · cases h
  · split at h
    · cases h
    · assumption

theorem fault?_ne_notFound (p : Location) : fault? p ≠ some .notFound := by
  rw [fault?]
  split
  · simp
  · split <;> simp

/-! ## Below a directory -/

/-- The location leads to this directory. Unlike `find`, this takes the empty location for the working
directory, as the names behind it do. -/
structure Leads (fs : Files) (dir : Location) (reached : Place) : Prop where
  way : fs.walk [] (steps dir) = .ok reached
  directory : fs.node? reached = some .directory

section Below

variable {dir name inner : Location} {reached : Place}

theorem leads_of_find (h : fs.find dir = .ok (reached, .directory)) : fs.Leads dir reached :=
  ⟨walk_of_place (place_of_find h).1, (place_of_find h).2⟩

theorem Leads.standing (h : fs.Leads dir reached)
    (hKept : ∀ q, fs.node? q = some .directory → fs'.node? q = some .directory) :
    fs'.Leads dir reached := ⟨walk_of_directories hKept h.way, hKept _ h.directory⟩

theorem Leads.above (h : fs.Leads dir reached) {q : Place} (hq : q <+: reached) :
    fs.node? q = some .directory := by
  have hWay : ∀ (steps : List String) (from' : Place), (∀ q, q <+: from' → fs.node? q = some .directory) →
      fs.walk from' steps = .ok reached → ∀ q, q <+: reached → fs.node? q = some .directory := by
    intro steps
    induction steps with
    | nil =>
      intro from' hFrom hWalk
      cases hWalk
      exact hFrom
    | cons step steps ih =>
      intro from' hFrom hWalk
      obtain ⟨-, hNode, hWalk⟩ := (walk_cons_eq_ok_iff h.directory).mp hWalk
      refine ih _ (fun q hq => ?_) hWalk
      rw [advance] at hq hNode
      split at hq
      · exact hFrom q (hq.trans (List.dropLast_prefix _))
      · rename_i hDots
        rw [if_neg hDots] at hNode
        rcases List.prefix_concat_iff.mp hq with rfl | hq
        · exact hNode
        · exact hFrom q hq
  refine hWay (steps dir) [] (fun q hq => ?_) h.way q hq
  rw [List.prefix_nil.mp hq]
  rfl

theorem walk_join (hDir : fs.Leads dir reached) (h : PlainName name) (rest : List String) :
    fs.walk [] (steps (join dir name) ++ rest) = fs.walk reached (name :: rest) := by
  rw [steps_join h, List.append_assoc, walk_append hDir.way hDir.directory (by simp)]
  rfl

theorem place_join_leads (hDir : fs.Leads dir reached) (hName : PlainName name) :
    fs.place (join dir name) = match fault? (join dir name) with
      | some fault => .error fault
      | none => if isOverlong name then .error .nameTooLong else .ok (reached ++ [name]) := by
  have hWalk := walk_join hDir hName []
  rw [List.append_nil, walk_singleton, advance_plain reached hName] at hWalk
  rw [place_eq_walk (join_ne_blank hName) (asksForDirectory_join hName), hWalk]

theorem find_join_leads (hDir : fs.Leads dir reached) (hName : PlainName name) :
    fs.find (join dir name) = match fault? (join dir name) with
      | some fault => .error fault
      | none =>
        if isOverlong name then .error .nameTooLong
        else match fs.node? (reached ++ [name]) with
          | some node => .ok (reached ++ [name], node)
          | none => .error .notFound := by
  rw [find_eq, place_join_leads hDir hName]
  cases fault? (join dir name) with
  | some fault => rfl
  | none => cases isOverlong name <;> rfl

theorem exists_leads (hName : PlainName name) {place : Place}
    (h : fs.place (join dir name) = .ok place) :
    ∃ reached, fs.Leads dir reached ∧ place = reached ++ [name] := by
  have hWalk := walk_of_place h
  rw [steps_join hName] at hWalk
  obtain ⟨way, hWay, hDirectory, -, rfl⟩ := (walk_snoc_iff rfl hName).mp hWalk
  exact ⟨way, ⟨hWay, hDirectory⟩, rfl⟩

theorem place_join_join (hDir : fs.Leads dir reached) (hInner : PlainName inner)
    (hName : PlainName name) :
    fs.place (join (join dir inner) name) = match fault? (join (join dir inner) name) with
      | some fault => .error fault
      | none =>
        if isOverlong inner then .error .nameTooLong
        else match fs.node? (reached ++ [inner]) with
          | some .directory =>
            if isOverlong name then .error .nameTooLong else .ok (reached ++ [inner, name])
          | some (.file _) => .error .notDirectory
          | none => .error .notFound := by
  have hWalk := walk_join hDir hInner [name]
  rw [← steps_join hName, walk_cons _ _ (by simp), advance_plain reached hInner, walk_singleton,
    advance_plain _ hName, List.append_assoc] at hWalk
  rw [place_eq_walk (join_ne_blank hName) (asksForDirectory_join hName), hWalk]
  rfl

end Below

/-! ## Directories -/

theorem makeSteps_cons (reached : Place) {step : String} (h : step ≠ "..") (rest : List String) :
    fs.makeSteps reached (step :: rest) =
      if isOverlong step then (fs, some .nameTooLong)
      else match fs.node? (reached ++ [step]) with
        | some .directory => fs.makeSteps (reached ++ [step]) rest
        | some (.file _) => (fs, some (if rest.isEmpty then .alreadyExists else .notDirectory))
        | none =>
          (fs.setName (reached ++ [step]) .directory).makeSteps (reached ++ [step]) rest := by
  rewrite [makeSteps]
  · rfl
  · exact h

theorem makeSteps_append {reached place : Place} {steps : List String} (rest : List String)
    (h : fs.walk reached steps = .ok place) (hPlace : fs.node? place = some .directory) :
    fs.makeSteps reached (steps ++ rest) = fs.makeSteps place rest := by
  induction steps generalizing reached with
  | nil =>
    cases h
    rfl
  | cons step steps ih =>
    obtain ⟨hShort, hNode, hWalk⟩ := (walk_cons_eq_ok_iff hPlace).mp h
    rw [List.cons_append]
    by_cases hDots : step = ".."
    · subst hDots
      rw [makeSteps]
      exact ih hWalk
    · rw [advance, if_neg hDots] at hNode hWalk
      rw [makeSteps_cons reached hDots, hShort, hNode]
      exact ih hWalk

theorem makeDirectories_of_leads {dir : Location} {reached : Place} (hDir : fs.Leads dir reached)
    (hFault : fault? dir = none) : fs.makeDirectories dir = (fs, none) := by
  have hMade := makeSteps_append [] hDir.way hDir.directory
  rw [List.append_nil] at hMade
  rw [makeDirectories, hFault]
  exact hMade

theorem makeDirectories_of_find {dir name : Location} {place : Place} {node : FileNode}
    (hName : PlainName name) (h : fs.find (join dir name) = .ok (place, node)) :
    fs.makeDirectories dir = (fs, none) := by
  obtain ⟨hPlace, -⟩ := place_of_find h
  obtain ⟨reached, hDir, -⟩ := exists_leads hName hPlace
  exact makeDirectories_of_leads hDir (fault?_of_join hName (fault?_of_place hPlace))

theorem makeDirectories_join {dir name : Location} {reached : Place}
    (hDir : fs.Leads dir reached) (h : PlainName name) :
    fs.makeDirectories (join dir name) = match fault? (join dir name) with
      | some fault => (fs, some fault)
      | none =>
        if isOverlong name then (fs, some .nameTooLong)
        else match fs.node? (reached ++ [name]) with
          | some .directory => (fs, none)
          | some (.file _) => (fs, some .alreadyExists)
          | none => (fs.setName (reached ++ [name]) .directory, none) := by
  rw [makeDirectories, steps_join h, makeSteps_append [name] hDir.way hDir.directory,
    makeSteps_cons reached h.ne_points]
  rfl

/-- Whether or not the directory can be made, nothing else changes. -/
theorem alters_makeDirectories {dir name : Location} {reached : Place}
    (hDir : fs.Leads dir reached) (h : PlainName name) :
    Alters (· = reached ++ [name]) fs (fs.makeDirectories (join dir name)).1 := by
  rw [makeDirectories_join hDir h]
  split
  · exact .refl _ fs
  · split
    · exact .refl _ fs
    · split
      · exact .refl _ fs
      · exact .refl _ fs
      · rename_i hNone
        exact .setName .directory rfl (by simp [hNone])

theorem directory_of_makeDirectories {dir name : Location} {reached : Place}
    (hDir : fs.Leads dir reached) (h : PlainName name)
    (hMade : fs.makeDirectories (join dir name) = (fs', none)) :
    fs'.node? (reached ++ [name]) = some .directory := by
  rw [makeDirectories_join hDir h] at hMade
  split at hMade
  · cases hMade
  · split at hMade
    · cases hMade
    · split at hMade
      · rename_i hNode
        cases hMade
        exact hNode
      · cases hMade
      · cases hMade
        rw [node?_setName (named_snoc reached h), if_pos rfl]

theorem eq_of_makeDirectories {dir name : Location} {reached : Place} {e : FileError}
    (hDir : fs.Leads dir reached) (h : PlainName name)
    (hMade : fs.makeDirectories (join dir name) = (fs', some e)) : fs' = fs := by
  rw [makeDirectories_join hDir h] at hMade
  split at hMade
  · cases hMade
    rfl
  · split at hMade
    · cases hMade
      rfl
    · split at hMade <;> cases hMade
      rfl

theorem makeDirectories_of_directory {dir name : Location} {reached : Place}
    (hDir : fs.Leads dir reached) (h : PlainName name)
    (hThere : fs.node? (reached ++ [name]) = some .directory) :
    (fs.makeDirectories (join dir name)).1 = fs := by
  rw [makeDirectories_join hDir h, hThere]
  split
  · rfl
  · split <;> rfl

/-- A file in a directory in a directory can be given its name exactly when the inner directory is there,
nothing but a file stands in its place, and the system can take the location. -/
theorem link_join_join_iff {dir inner name : Location} {reached : Place} {number : Nat}
    (hDir : fs.Leads dir reached) (hInner : PlainName inner) (hName : PlainName name) :
    fs.link number (join (join dir inner) name) = .ok fs' ↔
      (fault? (join (join dir inner) name) = none ∧ isOverlong inner = false ∧
        isOverlong name = false) ∧ fs.node? (reached ++ [inner]) = some .directory ∧
      fs.node? (reached ++ [inner, name]) ≠ some .directory ∧
      fs' = fs.setName (reached ++ [inner, name]) (.file number) := by
  rw [link_eq, place_join_join hDir hInner hName]
  cases fault? (join (join dir inner) name) with
  | some fault => simp
  | none =>
    cases isOverlong inner with
    | true => simp
    | false =>
      rcases fs.node? (reached ++ [inner]) with _ | ⟨other | -⟩
      · simp
      · simp
      · cases isOverlong name with
        | true => simp
        | false =>
          rcases hNode : fs.node? (reached ++ [inner, name]) with _ | ⟨other | -⟩ <;>
            simp [hNode, asksForDirectory_join hName, eq_comm]

theorem link_join_join {dir inner name : Location} {reached : Place} {number : Nat}
    (hDir : fs.Leads dir reached) (hInner : PlainName inner)
    (hName : PlainName name) (h : fs.link number (join (join dir inner) name) = .ok fs') :
    fs.node? (reached ++ [inner]) = some .directory ∧
      fs.node? (reached ++ [inner, name]) ≠ some .directory ∧
      fs' = fs.setName (reached ++ [inner, name]) (.file number) :=
  ((link_join_join_iff hDir hInner hName).mp h).2

end Reanalysis.Files
