import Reanalysis.Proofs.Cache.Rooms

/-!
# Every state is accounted for

A ledger says whose state is kept, and which slots are as they were found. The files account for it
when each state of the ledger is stored in the slot of its program, and when there is no other state
or sidecar in any other slot, except for states that an engine has left in slots of its own and that
were neither kept nor removed so far.
-/

namespace Reanalysis

theorem ProgramId.number_inj {id other : ProgramId} (h : other.number = id.number) : other = id := by
  cases id
  cases other
  cases h
  rfl

theorem ProgramId.number_ne {id other : ProgramId} (h : other ≠ id) : other.number ≠ id.number :=
  fun hNumber => h (ProgramId.number_inj hNumber)

/-- What is known about the slots. -/
@[ext] structure Ledger where
  /-- Which state of a program is kept, and the digest of the text that it was explored from. -/
  keeps : ProgramId → Bytes → Digest → Prop
  /-- The slots that are as they were found. -/
  past : Nat → Prop

namespace Ledger

variable {ledger : Ledger} {id : ProgramId} {n : Nat} {state : Bytes} {base : Digest}

def ofStates (keeps : ProgramId → Bytes → Digest → Prop) : Ledger := ⟨keeps, fun _ => False⟩

def Has (ledger : Ledger) (n : Nat) : Prop :=
  (∃ id state base, id.number = n ∧ ledger.keeps id state base) ∨ ledger.past n

def without (ledger : Ledger) (id : ProgramId) : Ledger :=
  ⟨fun other state base => other ≠ id ∧ ledger.keeps other state base,
    fun n => n ≠ id.number ∧ ledger.past n⟩

def record (ledger : Ledger) (id : ProgramId) (state : Bytes) (base : Digest) : Ledger :=
  ⟨fun other state' base' => other = id ∧ state' = state ∧ base' = base ∨
      (ledger.without id).keeps other state' base',
    (ledger.without id).past⟩

theorem has_of_keeps (h : ledger.keeps id state base) : ledger.Has id.number :=
  .inl ⟨id, state, base, rfl, h⟩

theorem has_number (hPast : ¬ ledger.past id.number) :
    ledger.Has id.number ↔ ∃ state base, ledger.keeps id state base := by
  constructor
  · rintro (⟨other, state, base, hNumber, hKept⟩ | hFound)
    · rw [ProgramId.number_inj hNumber] at hKept
      exact ⟨state, base, hKept⟩
    · exact absurd hFound hPast
  · rintro ⟨state, base, hKept⟩
    exact has_of_keeps hKept

theorem has_ofStates {keeps : ProgramId → Bytes → Digest → Prop} :
    (ofStates keeps).Has id.number ↔ ∃ state base, keeps id state base := has_number not_false

theorem has_without_iff : (ledger.without id).Has n ↔ n ≠ id.number ∧ ledger.Has n := by
  constructor
  · rintro (⟨other, state, base, rfl, hNe, hKept⟩ | ⟨hNe, hFound⟩)
    · exact ⟨ProgramId.number_ne hNe, has_of_keeps hKept⟩
    · exact ⟨hNe, .inr hFound⟩
  · rintro ⟨hNe, ⟨other, state, base, rfl, hKept⟩ | hFound⟩
    · exact .inl ⟨other, state, base, rfl, fun hEq => hNe (congrArg _ hEq), hKept⟩
    · exact .inr ⟨hNe, hFound⟩

theorem has_record_iff : (ledger.record id state base).Has n ↔ n = id.number ∨ ledger.Has n := by
  constructor
  · rintro (⟨other, state', base', rfl, ⟨rfl, -⟩ | ⟨-, hKept⟩⟩ | ⟨-, hFound⟩)
    · exact .inl rfl
    · exact .inr (has_of_keeps hKept)
    · exact .inr (.inr hFound)
  · by_cases hNumber : n = id.number
    · intro _
      rw [hNumber]
      exact has_of_keeps (.inl ⟨rfl, rfl, rfl⟩)
    · intro hHas
      obtain ⟨other, state', base', hOther, hKept⟩ | hFound :=
        has_without_iff.mpr ⟨hNumber, hHas.resolve_left hNumber⟩
      · exact .inl ⟨other, state', base', hOther, .inr hKept⟩
      · exact .inr hFound

theorem without_without (ledger : Ledger) (id : ProgramId) :
    (ledger.without id).without id = ledger.without id := by
  ext <;> simp [without]

theorem not_past_of_without (h : ledger.without id = ledger) : ¬ ledger.past id.number := by
  rw [← h]
  exact fun hFound => hFound.1 rfl

end Ledger

namespace CacheStore

open Files (Location)

variable {s : CacheStore} {root : Place} {ledger : Ledger} {loose : Nat → Prop} {fs fs' : Files}

/-! ## The invariant -/

def noLoose : Nat → Prop := fun _ => False

/-- The loose states are in slots of nobody's. -/
structure Accounted (s : CacheStore) (root : Place) (ledger : Ledger) (loose : Nat → Prop)
    (fs : Files) : Prop where
  tidy : s.Tidy root fs
  named : ∀ id state base, ledger.keeps id state base → s.Nameable id
  stored : ∀ id state base, ledger.keeps id state base → s.Stored root fs id state base
  apart : ∀ n, loose n → ¬ ledger.Has n
  blobs : ∀ n number, s.Reaches n blobName →
    fs.node? (s.filePlace root n blobName) = some (.file number) → loose n ∨ ledger.Has n
  sized : ∀ n number, loose n → fs.node? (s.filePlace root n blobName) = some (.file number) →
    ∃ state, fs.Holds (s.filePlace root n blobName) state ∧ state.length < Json.wordBound
  sidecars : ∀ n, fs.node? (s.filePlace root n metaName) ≠ none → ledger.Has n
  standing : ∀ n, ledger.past n → fs.node? (s.slotPlace root n) = some .directory

theorem read_of_holds (hTidy : s.Tidy root fs) {n : Nat} {state : Bytes}
    (hReach : s.Reaches n blobName) (hState : fs.Holds (s.filePlace root n blobName) state) :
    fs.read (s.engineBlob n) = .ok state := by
  obtain ⟨number, hFile, hBytes⟩ := hState
  rw [engineBlob, read_slot hTidy entryName_blob hReach, hFile]
  simp [Files.content, hBytes]

theorem noLoose_iff : s.Accounted root ledger (· ∈ ([] : List Nat)) fs ↔
    s.Accounted root ledger noLoose fs := by
  have hSame : (· ∈ ([] : List Nat)) = noLoose := by
    funext n
    simp [noLoose]
  rw [hSame]

/-- Nothing is kept, and every slot is as it was found. -/
def found (s : CacheStore) (root : Place) (fs : Files) : Ledger :=
  ⟨fun _ _ _ => False, fun n => fs.node? (s.slotPlace root n) = some .directory⟩

/-- At a launch every slot of the ledger was there. -/
def Knows (s : CacheStore) (ledger : Ledger) (launch : Files) : Prop :=
  ∀ n, n < numberBound → ledger.Has n → n ∈ s.engineDirs launch

namespace Accounted

theorem atTime (h : s.Accounted root ledger loose fs) (now : Instant) :
    ({ s with now } : CacheStore).Accounted root ledger loose fs where
  tidy := ⟨h.tidy.label, h.tidy.found, h.tidy.noFile, h.tidy.below⟩
  named := h.named
  stored := fun id state base hKept =>
    let hStored := h.stored id state base hKept
    ⟨hStored.blob, hStored.size, hStored.sidecar⟩
  apart := h.apart
  blobs := h.blobs
  sized := h.sized
  sidecars := h.sidecars
  standing := h.standing

theorem of_found (hTidy : s.Tidy root fs) (hNot : ∀ id state base, ¬ ledger.keeps id state base)
    (hPast : ∀ n, ledger.past n ↔ fs.node? (s.slotPlace root n) = some .directory) :
    s.Accounted root ledger noLoose fs where
  tidy := hTidy
  named := fun id state base hKept => absurd hKept (hNot id state base)
  stored := fun id state base hKept => absurd hKept (hNot id state base)
  apart := fun _ => False.elim
  blobs := fun n number _ hFile => .inr (.inr ((hPast n).mpr (hTidy.slot_of_file hFile)))
  sized := fun _ _ => False.elim
  sidecars := by
    intro n hThere
    obtain ⟨node, hNode⟩ := Option.ne_none_iff_exists'.mp hThere
    exact .inr ((hPast n).mpr (hTidy.slot_of_file hNode))
  standing := fun n => (hPast n).mp

/-! ## What has nothing to do with states -/

theorem quiet (h : s.Accounted root ledger loose fs)
    (hAlters : Files.Alters (fun q => ¬ s.Entry root q) fs fs') (hTidy : s.Tidy root fs') :
    s.Accounted root ledger loose fs' where
  tidy := hTidy
  named := h.named
  stored := by
    intro id state base hKept
    obtain ⟨hBlob, hSize, t, ht, hMeta⟩ := h.stored id state base hKept
    exact ⟨hAlters.held _ _ (not_not_intro (entry_blob _)) hBlob, hSize, t, ht,
      hAlters.held _ _ (not_not_intro (entry_meta _)) hMeta⟩
  apart := h.apart
  blobs := by
    intro n number hReach hFile
    rw [hAlters.node _ (not_not_intro (entry_blob n))] at hFile
    exact h.blobs n number hReach hFile
  sized := by
    intro n number hLoose hFile
    rw [hAlters.node _ (not_not_intro (entry_blob n))] at hFile
    obtain ⟨state, hState, hSize⟩ := h.sized n number hLoose hFile
    exact ⟨state, hAlters.held _ _ (not_not_intro (entry_blob n)) hState, hSize⟩
  sidecars := by
    intro n hThere
    rw [hAlters.node _ (not_not_intro (entry_meta n))] at hThere
    exact h.sidecars n hThere
  standing := fun n hFound => hAlters.standing _ (h.standing n hFound)

theorem setContent (h : s.Accounted root ledger loose fs) {number : Nat}
    (hNumber : ∀ q, s.Entry root q → fs.node? q ≠ some (.file number)) (bytes : Bytes) :
    s.Accounted root ledger loose (fs.setContent number bytes) := by
  refine h.quiet (.setContent bytes fun q hFile hEntry => hNumber q hEntry hFile) ?_
  exact h.tidy.setContent number bytes

/-! ## Removing -/

theorem discard (h : s.Accounted root ledger loose fs) {id : ProgramId} {found : Bool}
    (hRun : Gives (s.discard id) fs found fs') :
    s.Nameable id ∧ s.Accounted root (ledger.without id) loose fs' ∧
      ∀ number, s.Foreign root fs number → s.Foreign root fs' number := by
  obtain ⟨hReach, hReach', hBlob, hMeta, hAlters, hTidy⟩ := gives_discard h.tidy hRun
  have hOther : ∀ n name, n ≠ id.number →
      ¬ (s.filePlace root n name = s.filePlace root id.number blobName ∨
        s.filePlace root n name = s.filePlace root id.number metaName) := by
    rintro n name hNe (hEq | hEq) <;> exact hNe (filePlace_inj hEq).1
  have hHas : ∀ n, n ≠ id.number → ledger.Has n → (ledger.without id).Has n := fun n hNe hHas =>
    Ledger.has_without_iff.mpr ⟨hNe, hHas⟩
  have hStays : ∀ n number, fs'.node? (s.filePlace root n blobName) = some (.file number) →
      n ≠ id.number := by
    rintro n number hFile rfl
    rw [hBlob] at hFile
    cases hFile
  refine ⟨⟨hReach, hReach'⟩,
    ⟨hTidy, fun other state base hKept => h.named _ _ _ hKept.2, ?_, ?_, ?_, ?_, ?_,
      fun n hFound => hAlters.standing _ (h.standing n hFound.2)⟩,
    fun number hNumber => hNumber.alters hAlters ?_⟩
  · intro other state base hKept
    exact (h.stored other state base hKept.2).same hAlters.toSame fun name =>
      hOther _ name (ProgramId.number_ne hKept.1)
  · exact fun n hLoose hHas => h.apart n hLoose (Ledger.has_without_iff.mp hHas).2
  · intro n number hReach hFile
    have hNe := hStays n number hFile
    rw [hAlters.node _ (hOther n _ hNe)] at hFile
    exact (h.blobs n number hReach hFile).imp_right (hHas n hNe)
  · intro n number hLoose hFile
    have hNe := hStays n number hFile
    rw [hAlters.node _ (hOther n _ hNe)] at hFile
    obtain ⟨state, hState, hSize⟩ := h.sized n number hLoose hFile
    exact ⟨state, hAlters.held _ _ (hOther n _ hNe) hState, hSize⟩
  · intro n hThere
    have hNe : n ≠ id.number := by
      rintro rfl
      exact hThere hMeta
    rw [hAlters.node _ (hOther n _ hNe)] at hThere
    exact hHas n hNe (h.sidecars n hThere)
  · rintro q - (rfl | rfl)
    · exact hBlob
    · exact hMeta

theorem discardProduced {n : Nat} {u : Unit} {loose' : Nat → Prop}
    (h : s.Accounted root ledger loose fs) (hLoose : loose n) (hLess : ∀ m, loose' m → loose m)
    (hRest : ∀ m, loose m → m ≠ n → loose' m) (hRun : Gives (s.discardProduced n) fs u fs') :
    s.Accounted root ledger loose' fs' ∧ Files.Alters (· = s.filePlace root n blobName) fs fs' := by
  obtain ⟨hGone, hAlters, hTidy⟩ := gives_discardProduced h.tidy hRun
  have hOther : ∀ m number, fs'.node? (s.filePlace root m blobName) = some (.file number) →
      m ≠ n ∧ s.filePlace root m blobName ≠ s.filePlace root n blobName := by
    intro m number hFile
    have hNe : m ≠ n := by
      rintro rfl
      rw [hGone] at hFile
      cases hFile
    exact ⟨hNe, fun hEq => hNe (filePlace_inj hEq).1⟩
  refine ⟨⟨hTidy, h.named, ?_, fun m hm => h.apart m (hLess m hm), ?_, ?_, ?_,
    fun m hFound => hAlters.standing _ (h.standing m hFound)⟩, hAlters⟩
  · intro id state base hKept
    refine (h.stored id state base hKept).same hAlters.toSame fun name hEq => ?_
    exact h.apart n hLoose (.inl ⟨id, state, base, (filePlace_inj hEq).1, hKept⟩)
  · intro m number hReach hFile
    obtain ⟨hNe, hPlace⟩ := hOther m number hFile
    rw [hAlters.node _ hPlace] at hFile
    exact (h.blobs m number hReach hFile).imp_left fun hm => hRest m hm hNe
  · intro m number hm hFile
    obtain ⟨-, hPlace⟩ := hOther m number hFile
    rw [hAlters.node _ hPlace] at hFile
    obtain ⟨state, hState, hSize⟩ := h.sized m number (hLess m hm) hFile
    exact ⟨state, hAlters.held _ _ hPlace hState, hSize⟩
  · intro m hThere
    refine h.sidecars m ?_
    rwa [hAlters.node _ fun hEq => absurd (filePlace_inj hEq).2 (by decide)] at hThere

/-! ## Keeping -/

theorem adopt {n : Nat} {id : ProgramId} {base : Digest} {state : Bytes}
    {made : Option CacheArtifact} (h : s.Accounted root (ledger.without id) (· = n) fs)
    (hName : s.Nameable id) (hTime : s.now.Representable) (hReach : s.Reaches n blobName)
    (hState : fs.Holds (s.filePlace root n blobName) state) (hSize : state.length < Json.wordBound)
    (hRun : Gives (s.adopt id n (some base)) fs made fs') :
    s.Accounted root (ledger.record id state base) noLoose fs' := by
  obtain ⟨hGone, hBlob, hMeta, hAlters, hTidy⟩ := gives_adopt h.tidy hReach hState hRun
  have hSelf : (ledger.record id state base).Has id.number := Ledger.has_record_iff.mpr (.inl rfl)
  have hHas : ∀ m, (ledger.without id).Has m → (ledger.record id state base).Has m := fun m hHas =>
    Ledger.has_record_iff.mpr (.inr (Ledger.has_without_iff.mp hHas).2)
  -- Apart from the two slots, no file in a slot has changed.
  have hOther : ∀ m name, m ≠ id.number → (m = n → name = metaName) →
      ¬ (s.filePlace root m name = s.slotPlace root id.number ∨
        s.filePlace root m name = s.filePlace root n blobName ∨
        s.filePlace root m name = s.filePlace root id.number blobName ∨
        s.filePlace root m name = s.filePlace root id.number metaName) := by
    rintro m name hNe hName (hEq | hEq | hEq | hEq)
    · exact filePlace_ne_slotPlace hEq
    · obtain ⟨rfl, rfl⟩ := filePlace_inj hEq
      exact absurd (hName rfl) (by decide)
    · exact hNe (filePlace_inj hEq).1
    · exact hNe (filePlace_inj hEq).1
  refine ⟨hTidy, ?_, ?_, fun _ => False.elim, ?_, fun _ _ => False.elim, ?_,
    fun m hFound => hAlters.standing _ (h.standing m hFound)⟩
  · rintro other state' base' (⟨rfl, -, -⟩ | hKept)
    · exact hName
    · exact h.named _ _ _ hKept
  · rintro other state' base' (⟨rfl, rfl, rfl⟩ | hKept)
    · exact ⟨hBlob, hSize, s.now, hTime, hMeta⟩
    · refine (h.stored _ _ _ hKept).same hAlters.toSame fun name => ?_
      refine hOther _ name (ProgramId.number_ne hKept.1) fun hEq => ?_
      exact absurd (.inl ⟨other, state', base', hEq, hKept⟩) (h.apart n rfl)
  · intro m number hReach' hFile
    refine .inr ?_
    by_cases hId : m = id.number
    · rw [hId]
      exact hSelf
    · have hNe : m ≠ n := by
        rintro rfl
        rw [hGone hId] at hFile
        cases hFile
      rw [hAlters.node _ (hOther m _ hId fun hEq => absurd hEq hNe)] at hFile
      exact (h.blobs m number hReach' hFile).elim (fun hEq => absurd hEq hNe) (hHas m)
  · intro m hThere
    by_cases hId : m = id.number
    · rw [hId]
      exact hSelf
    · rw [hAlters.node _ (hOther m _ hId fun _ => rfl)] at hThere
      exact hHas m (h.sidecars m hThere)

theorem register {id : ProgramId} {base : Option Digest} {made : Option CacheArtifact}
    (h : s.Accounted root (ledger.without id) noLoose fs) (hName : s.Nameable id)
    (hRun : Gives (s.register id base) fs made fs') : fs' = fs := by
  rcases gives_register h.tidy hRun with ⟨-, hSame⟩ | ⟨number, hFile, -⟩
  · exact hSame
  · obtain hLoose | hHas := h.blobs _ _ hName.1 hFile
    · exact hLoose.elim
    · exact absurd rfl (Ledger.has_without_iff.mp hHas).1

/-! ## Engines at work -/

section Launches

theorem mem_engineDirs_of_has (h : s.Accounted root ledger loose fs) {n : Nat}
    (hBound : n < numberBound) (hHas : ledger.Has n) : n ∈ s.engineDirs fs := by
  rcases hHas with ⟨id, state, base, rfl, hKept⟩ | hFound
  · obtain ⟨number, hFile, -⟩ := (h.stored id state base hKept).blob
    exact mem_engineDirs h.tidy hBound (h.tidy.slot_of_file hFile)
  · exact mem_engineDirs h.tidy hBound (h.standing n hFound)

/-- The states in the rooms of an engine are loose. -/
theorem work {launch : Files} {loose' : Nat → Prop} (h : s.Accounted root ledger loose fs)
    (hWorks : s.Works root launch fs fs') (hKnown : s.Knows ledger launch)
    (hBefore : ∀ n, loose n → s.IsRoom launch n) (hAfter : ∀ n, loose' n → s.IsRoom launch n)
    (hLeft : ∀ n number, s.IsRoom launch n → s.Reaches n blobName →
      fs'.node? (s.filePlace root n blobName) = some (.file number) → loose' n) :
    s.Accounted root ledger loose' fs' := by
  have hApart : ∀ n, ledger.Has n → ¬ s.IsRoom launch n := fun n hHas hRoom =>
    Nat.lt_irrefl n (hRoom.2 n (hKnown n hRoom.1 hHas))
  refine ⟨hWorks.tidy h.tidy, h.named, ?_, fun n hLoose hHas => hApart n hHas (hAfter n hLoose), ?_,
    ?_, ?_, fun n hFound => hWorks.standing _ (h.standing n hFound)⟩
  · intro id state base hId
    refine (h.stored id state base hId).same hWorks.outside fun name => ?_
    exact not_inRooms (hApart _ (Ledger.has_of_keeps hId))
  · intro n number hReach hFile
    by_cases hRoom : s.IsRoom launch n
    · exact .inl (hLeft n number hRoom hReach hFile)
    · rw [hWorks.outside.node (s.filePlace root n blobName) (not_inRooms hRoom)] at hFile
      exact .inr ((h.blobs n number hReach hFile).resolve_left fun hLoose => hRoom (hBefore n hLoose))
  · intro n number hLoose hFile
    obtain ⟨hNumber, hSize⟩ := hWorks.sized n number (hAfter n hLoose) hFile
    refine ⟨_, ⟨number, hFile, ?_⟩, hSize⟩
    rw [Files.content, List.getElem?_eq_getElem hNumber, Option.getD_some]
  · intro n hThere
    by_cases hRoom : s.IsRoom launch n
    · exact absurd (hWorks.noSidecar n hRoom) hThere
    · rw [hWorks.outside.node (s.filePlace root n metaName) (not_inRooms hRoom)] at hThere
      exact h.sidecars n hThere

theorem ended {launch : Files} (h : s.Accounted root ledger (s.IsRoom launch) fs)
    (hKnown : s.Knows ledger launch) :
    s.Accounted root ledger (· ∈ s.producedSince fs (s.engineDirs launch)) fs := by
  have hLoose : ∀ n, n ∈ s.producedSince fs (s.engineDirs launch) → s.IsRoom launch n := by
    intro n hMem
    obtain ⟨hBound, hNew, hReach, number, hFile⟩ := (mem_producedSince_iff h.tidy).mp hMem
    exact (h.blobs n number hReach hFile).resolve_right fun hHas => hNew (hKnown n hBound hHas)
  refine ⟨h.tidy, h.named, h.stored, fun n hMem => h.apart n (hLoose n hMem), ?_,
    fun n number hMem => h.sized n number (hLoose n hMem), h.sidecars, h.standing⟩
  intro n number hReach hFile
  refine (h.blobs n number hReach hFile).imp_left fun hRoom => ?_
  exact (mem_producedSince_iff h.tidy).mpr
    ⟨hRoom.1, fun hMem => Nat.lt_irrefl n (hRoom.2 n hMem), hReach, number, hFile⟩

theorem launched {l : Launch} {number : Nat} {bytes : Bytes}
    (h : s.Accounted root ledger noLoose l.before) (hEngine : s.Confined root l)
    (hNumber : s.Foreign root l.before number) (hFiles : fs = l.after.setContent number bytes) :
    s.Accounted root ledger (· ∈ s.producedSince fs (s.engineDirs l.before)) fs := by
  have hKnown : s.Knows ledger l.before := fun n => h.mem_engineDirs_of_has
  have hAfter : s.Accounted root ledger (s.IsRoom l.before) l.after :=
    h.work (hEngine.works h.tidy) hKnown (fun _ => False.elim) (fun _ hRoom => hRoom)
      fun n number hRoom _ _ => hRoom
  rw [hFiles]
  exact (hAfter.setContent (hEngine.foreign hNumber) bytes).ended hKnown

end Launches

/-! ## Reading -/

section Reading

variable {id : ProgramId}

theorem read_of_kept (h : s.Accounted root ledger loose fs) {state : Bytes} {base : Digest}
    (hKept : ledger.keeps id state base) :
    Gives (s.read id) fs (some (s.artifact id state (some base))) fs ∧
      fs.read (s.cachePath id) = .ok state := by
  have hName := h.named id state base hKept
  have hStored := h.stored id state base hKept
  exact ⟨hStored.read h.tidy hName, read_of_holds h.tidy hName.1 hStored.blob⟩

theorem holds_of_read (h : s.Accounted root ledger loose fs) {n : Nat} {state : Bytes}
    (hLoose : loose n) (hReach : s.Reaches n blobName) (hRead : fs.read (s.engineBlob n) = .ok state) :
    fs.Holds (s.filePlace root n blobName) state ∧ state.length < Json.wordBound := by
  rw [engineBlob, read_slot h.tidy entryName_blob hReach] at hRead
  rcases hNode : fs.node? (s.filePlace root n blobName) with _ | ⟨number | -⟩ <;> rw [hNode] at hRead
  · cases hRead
  · obtain ⟨state', ⟨number', hFile, hBytes⟩, hSize⟩ := h.sized n number hLoose hNode
    rw [hNode] at hFile
    cases hFile
    have hState : state' = state := by
      simpa [Files.content, hBytes] using hRead
    rw [← hState]
    exact ⟨⟨number, hNode, hBytes⟩, hSize⟩
  · cases hRead

theorem read_of_loose (h : s.Accounted root ledger loose fs) {state : Bytes} (hName : s.Nameable id)
    (hNot : ¬ ledger.Has id.number) (hRead : fs.read (s.cachePath id) = .ok state) :
    Gives (s.read id) fs (some (s.artifact id state none)) fs := by
  obtain ⟨-, number, hFile⟩ := (isFile_slot_iff h.tidy entryName_blob).mp (Files.isFile_of_read hRead)
  have hLoose := (h.blobs _ _ hName.1 hFile).resolve_right hNot
  refine read_bare h.tidy hName (h.holds_of_read hLoose hName.1 hRead).1 ?_
  by_contra hThere
  exact hNot (h.sidecars _ hThere)

/-- A state that is read is kept with its sidecar, or it is loose and has none. -/
theorem kept_or_loose_of_read (h : s.Accounted root ledger loose fs) {artifact : CacheArtifact}
    (hPast : ¬ ledger.past id.number) (hRun : Gives (s.read id) fs (some artifact) fs') :
    (∃ state base, ledger.keeps id state base ∧ artifact = s.artifact id state (some base)) ∨
      ¬ ledger.Has id.number ∧ loose id.number ∧
        ∃ state, fs.Holds (s.filePlace root id.number blobName) state ∧
          artifact = s.artifact id state none := by
  by_cases hHas : ledger.Has id.number
  · obtain ⟨state, base, hKept⟩ := (Ledger.has_number hPast).mp hHas
    have hSame := hRun.unique (h.read_of_kept hKept).1
    exact .inl ⟨state, base, hKept, Option.some.inj hSame⟩
  refine .inr ⟨hHas, ?_⟩
  rw [CacheStore.read, Gives.bind_iff] at hRun
  obtain ⟨described, fs₁, hDescribed, hRun⟩ := hRun
  obtain ⟨rfl, -, ⟨rfl, -⟩ | ⟨number, hFile, -⟩⟩ :=
    (gives_readOptional_iff h.tidy entryName_meta).mp hDescribed
  · dsimp only at hRun
    rw [Gives.bind_iff] at hRun
    obtain ⟨found, fs₂, hFound, hEnd⟩ := hRun
    obtain ⟨rfl, hReach, ⟨rfl, -⟩ | ⟨number, hFile, rfl⟩⟩ :=
      (gives_readOptional_iff h.tidy entryName_blob).mp hFound
    · simp at hEnd
    · have hLoose := (h.blobs _ _ hReach hFile).resolve_right hHas
      obtain ⟨state, ⟨number', hFile', hBytes⟩, -⟩ := h.sized _ _ hLoose hFile
      rw [hFile] at hFile'
      cases hFile'
      have hState : fs₂.content number = state := by rw [Files.content, hBytes, Option.getD_some]
      refine ⟨hLoose, state, ⟨number, hFile, hBytes⟩, ?_⟩
      rw [hState, Gives.pure_iff] at hEnd
      exact (Option.some.inj hEnd.1).symm
  · exact absurd (h.sidecars _ (by simp [hFile])) hHas

theorem kept_of_read (h : s.Accounted root ledger noLoose fs) {artifact : CacheArtifact}
    (hPast : ¬ ledger.past id.number) (hRun : Gives (s.read id) fs (some artifact) fs') :
    ∃ state base, ledger.keeps id state base := by
  rcases h.kept_or_loose_of_read hPast hRun with ⟨state, base, hKept, -⟩ | ⟨-, hLoose, -⟩
  · exact ⟨state, base, hKept⟩
  · exact hLoose.elim

theorem nameable_of_read (h : s.Accounted root ledger loose fs) (hNot : ¬ ledger.Has id.number)
    {result : Option CacheArtifact} (hRun : Gives (s.read id) fs result fs') : s.Nameable id := by
  rw [CacheStore.read, Gives.bind_iff] at hRun
  obtain ⟨described, fs₁, hDescribed, hRun⟩ := hRun
  obtain ⟨rfl, hReach, ⟨rfl, -⟩ | ⟨number, hFile, -⟩⟩ :=
    (gives_readOptional_iff h.tidy entryName_meta).mp hDescribed
  · dsimp only at hRun
    rw [Gives.bind_iff] at hRun
    obtain ⟨found, fs₂, hFound, -⟩ := hRun
    exact ⟨((gives_readOptional_iff h.tidy entryName_blob).mp hFound).2.1, hReach⟩
  · exact absurd (h.sidecars _ (by simp [hFile])) hNot

theorem read_of_not_kept (h : s.Accounted root ledger noLoose fs) (hName : s.Nameable id)
    (hFree : fs.isDirectory (s.cachePath id) = false) (hNot : ¬ ledger.Has id.number) :
    Gives (s.read id) fs none fs := by
  refine read_none h.tidy hName ?_ ?_
  · rcases hNode : fs.node? (s.filePlace root id.number blobName) with _ | ⟨number | -⟩
    · rfl
    · exact absurd ((h.blobs _ _ hName.1 hNode).resolve_left not_false) hNot
    · have hFind := find_slot h.tidy entryName_blob hName.1
      rw [hNode] at hFind
      rw [cachePath, engineBlob, Files.isDirectory, hFind] at hFree
      cases hFree
  · by_contra hThere
    exact hNot (h.sidecars _ hThere)

/-- Without a kept state a read that does not end with none fails at one of the two locations. -/
theorem fails_read_of_not_kept (h : s.Accounted root ledger noLoose fs) (hNot : ¬ ledger.Has id.number)
    (hWay : ¬ s.Nameable id ∨ fs.isDirectory (s.cachePath id) = true) :
    ∃ path ∈ [s.metaPath id, s.cachePath id], ∃ cause, Fails (s.read id) fs (.io path cause) fs := by
  by_cases hMeta : s.Reaches id.number metaName
  · have hNone : Gives (StoreAction.readOptional (s.metaPath id)) fs none fs := by
      refine (gives_readOptional_iff h.tidy entryName_meta).mpr ⟨rfl, hMeta, .inl ⟨rfl, ?_⟩⟩
      by_contra hThere
      exact hNot (h.sidecars _ hThere)
    refine ⟨s.cachePath id, by simp, ?_⟩
    by_cases hBlob : s.Reaches id.number blobName
    · have hFolder := hWay.resolve_left fun hName => hName ⟨hBlob, hMeta⟩
      rw [cachePath, engineBlob, Files.isDirectory, find_slot h.tidy entryName_blob hBlob] at hFolder
      rcases hNode : fs.node? (s.filePlace root id.number blobName) with _ | ⟨number | -⟩ <;>
        rw [hNode] at hFolder
      · cases hFolder
      · cases hFolder
      · exact ⟨_, .gives_bind hNone ((fails_readOptional_directory h.tidy entryName_blob hBlob hNode).bind _)⟩
    · obtain ⟨cause, hFails⟩ := fails_readOptional_unreached h.tidy entryName_blob hBlob
      exact ⟨cause, .gives_bind hNone (hFails.bind _)⟩
  · obtain ⟨cause, hFails⟩ := fails_readOptional_unreached h.tidy entryName_meta hMeta
    exact ⟨s.metaPath id, by simp, cause, hFails.bind _⟩

end Reading

end Accounted

end CacheStore

end Reanalysis
