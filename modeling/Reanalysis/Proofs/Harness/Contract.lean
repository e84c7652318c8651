import Reanalysis.Proofs.Cache.Vacant
import Reanalysis.Proofs.Harness.History

/-!
# Engines that keep a contract

What an engine answers may depend on its command and on the contents of the files that the command
names, and on nothing else. It keeps to its rooms, and leaves no directory in the place of a state. All
that is said about full runs then holds also while there is no directory for results.
-/

namespace Reanalysis

open Files (Location)

def Files.contents? (fs : Files) (p : Location) : Option Bytes := (fs.read p).toOption

/-! ## The files that a command names -/

namespace Command

variable {argv args : List String} {timeout : Duration} {c c' : Command}

/-- The file that an argument names. An option names what stands behind its sign of equality, if
there is one. -/
def fileOf? (arg : String) : Option Location :=
  if "--".toList.isPrefixOf arg.toList then
    match arg.toList.dropWhile (· ≠ '=') with
    | _ :: path => some (String.ofList path)
    | [] => none
  else some arg

def Names (c : Command) (p : Location) : Prop := ∃ arg ∈ c.program :: c.args, fileOf? arg = some p

theorem fileOf?_option {name : String} (hName : '=' ∉ name.toList) (p : Location) :
    fileOf? (option name p) = some p := by
  have hChars : (option name p).toList = "--".toList ++ (name.toList ++ '=' :: p.toList) := by
    simp [option]
  have hOption : "--".toList.isPrefixOf (option name p).toList = true := by
    rw [hChars]
    exact List.isPrefixOf_iff_prefix.mpr (List.prefix_append _ _)
  have hFront : ∀ c ∈ "--".toList ++ name.toList, decide (c ≠ '=') = true := by
    intro c hMem
    rcases List.mem_append.mp hMem with hMem | hMem
    · have hDashes : "--".toList.all (fun c => decide (c ≠ '=')) = true := by decide
      exact List.all_eq_true.mp hDashes c hMem
    · refine decide_eq_true ?_
      rintro rfl
      exact hName hMem
  have hRest : (option name p).toList.dropWhile (· ≠ '=') = '=' :: p.toList := by
    rw [hChars, ← List.append_assoc, List.dropWhile_append_of_pos hFront]
    rfl
  rw [fileOf?, if_pos hOption, hRest]
  simp

theorem Names.of_build {fs : Files} {purpose : String} {inputs : List Location} {p : Location}
    (hBuilt : build fs purpose argv args inputs timeout = .ok c) (h : c.Names p) :
    ∃ arg, (arg ∈ argv ∨ arg ∈ args) ∧ fileOf? arg = some p := by
  obtain ⟨arg, hMem, hFile⟩ := h
  obtain ⟨program, rest, rfl, rfl⟩ := Harness.exists_of_build hBuilt
  refine ⟨arg, ?_, hFile⟩
  rcases List.mem_cons.mp hMem with rfl | hMem
  · exact .inl List.mem_cons_self
  · exact (List.mem_append.mp hMem).imp_left (List.mem_cons_of_mem _)

end Command

/-! ## Launches that cannot be told apart -/

namespace Launch

variable {l l' : Launch} {s : CacheStore}

/-- The same command, with the same contents in the files that it names. -/
structure Alike (l l' : Launch) : Prop where
  command : l.command = l'.command
  contents : ∀ p, l.command.Names p → l.before.contents? p = l'.before.contents? p

structure Agrees (s : CacheStore) (l l' : Launch) : Prop where
  exit : l.outcome.exit = l'.outcome.exit
  elapsed : l.outcome.elapsed = l'.outcome.elapsed
  leaves : ∀ state, l.Leaves s state ↔ l'.Leaves s state

theorem alike_of_build {fs fs' : Files} {purpose purpose' : String} {argv args : List String}
    {inputs inputs' : List Location} {timeout : Duration}
    (hBuilt : Command.build fs purpose argv args inputs timeout = .ok l.command)
    (hBuilt' : Command.build fs' purpose' argv args inputs' timeout = .ok l'.command)
    (hFiles : ∀ arg, arg ∈ argv ∨ arg ∈ args → ∀ p, Command.fileOf? arg = some p →
      l.before.contents? p = l'.before.contents? p) : l.Alike l' where
  command := by
    obtain ⟨program, rest, rfl, hCommand⟩ := Harness.exists_of_build hBuilt
    obtain ⟨program', rest', hArgv, hCommand'⟩ := Harness.exists_of_build hBuilt'
    cases hArgv
    rw [hCommand, hCommand']
  contents := by
    intro p hNames
    obtain ⟨arg, hMem, hFile⟩ := hNames.of_build hBuilt
    exact hFiles arg hMem p hFile

theorem Agrees.toRun_eq (h : l.Agrees s l') (id : ProgramId) (mode : Mode) (budget : Option Float) :
    l.outcome.toRun id mode budget = l'.outcome.toRun id mode budget := by
  rw [Outcome.toRun, Outcome.toRun, h.exit, h.elapsed]

end Launch

/-- The launches of an engine that keeps the contract. -/
structure CacheStore.Honours (s : CacheStore) (root : Place) (launches : List Launch) : Prop where
  obeys : ∀ l ∈ launches, s.Obeys root l
  sound : ∀ l ∈ launches, l.after.Sound
  noFolder : ∀ l ∈ launches, ∀ n, s.IsRoom l.before n →
    l.after.node? (s.filePlace root n CacheStore.blobName) ≠ some .directory
  agrees : ∀ l ∈ launches, ∀ l' ∈ launches, l.Alike l' → l.Agrees s l'

/-- The files that the configured commands name hold what they held in the beginning. -/
def Harness.Steady (h : Harness) (fs : Files) (launches : List Launch) : Prop :=
  ∀ l ∈ launches, ∀ arg ∈ h.config.engine.full ++ h.config.engine.targeted, ∀ p,
    Command.fileOf? arg = some p → l.before.contents? p = fs.contents? p

/-! ## After a launch -/

namespace Harness

open HarnessAction CacheStore

variable {h : Harness} {root : Place} {ledger : Ledger} {id : ProgramId} {l : Launch} {number : Nat}
  {bytes : Bytes}

section Upkeep

variable {σ : Type} {w w' : World σ}

theorem files_of_upkeep_vacant {base : Digest} {u : Unit} {success : Prop} [Decidable success]
    (hVacant : h.store.Vacant root w.files)
    (hRun : Gives (if success then h.keepState id base [] else h.dropState id []) w u w') :
    w'.files = w.files := by
  split at hRun
  · simp only [keepState, List.getLast?_nil, Gives.bind_iff, gives_ofStore_iff, Gives.pure_iff] at hRun
    obtain ⟨_, _, ⟨fs, hRegister, rfl⟩, -, rfl⟩ := hRun
    exact hVacant.gives_register hRegister
  · simp only [dropState, Gives.bind_iff, Gives.forM_nil_iff, gives_ofStore_iff, Gives.pure_iff] at hRun
    obtain ⟨_, _, rfl, _, _, ⟨fs, hDiscard, rfl⟩, -, rfl⟩ := hRun
    exact (hVacant.gives_discard hDiscard).1

/-- After a launch and its line in the log, the state is kept or dropped. -/
theorem balanced_of_upkeep {base : Digest} {u : Unit}
    (hBalanced : h.store.Balanced root (ledger.without id) l.before) (hObeys : h.store.Obeys root l)
    (hName : h.store.Nameable id) (hTime : h.now.Representable)
    (hNumber : h.store.Foreign root l.before number) (hFiles : w.files = l.after.setContent number bytes)
    (hRun : Gives (if l.outcome.exit = .exited 0
      then h.keepState id base (h.store.producedSince w.files (h.store.engineDirs l.before))
      else h.dropState id (h.store.producedSince w.files (h.store.engineDirs l.before))) w u w') :
    Tends h.store root id (h.store.producedSince w.files (h.store.engineDirs l.before)) w.files
      w'.files ∧
    (l.outcome.exit = .exited 0 ∧ (∃ state, l.Leaves h.store state ∧
        h.store.Balanced root (ledger.record id state base) w'.files) ∨
      (l.outcome.exit = .exited 0 → ∀ state, ¬ l.Leaves h.store state) ∧
        h.store.Balanced root (ledger.without id) w'.files) := by
  rcases hBalanced with hAcc | ⟨hVacant, hLedger⟩
  · obtain ⟨hTends, hKept⟩ := accounted_of_upkeep hAcc (hObeys.confined_of_tidy hAcc.tidy) hName hTime
      hNumber hFiles hRun
    refine ⟨hTends, hKept.imp ?_ ?_⟩
    · rintro ⟨hExit, state, hLeaves, hAcc'⟩
      exact ⟨hExit, state, hLeaves, .inl hAcc'⟩
    · rintro ⟨hNot, hAcc'⟩
      exact ⟨hNot, .inl hAcc'⟩
  rcases hObeys.cases_of_vacant hVacant with ⟨hAfter, -⟩ | ⟨fs, -, hSame, hConfined, -, hAcc, hForeign⟩
  · have hAfter' : h.store.Vacant root w.files := by
      rw [hFiles]
      exact hAfter.congr fun _ => rfl
    rw [hAfter'.producedSince_eq_nil] at hRun ⊢
    rw [files_of_upkeep_vacant hAfter' hRun]
    exact ⟨⟨.refl _ _, fun _ hFolder => hFolder⟩, .inr ⟨fun _ => hAfter.not_leaves, .inr ⟨hAfter', hLedger⟩⟩⟩
  · -- The engine is taken for one that was launched when the directory was there.
    rw [← hSame] at hRun ⊢
    obtain ⟨hTends, hKept⟩ := accounted_of_upkeep (l := { l with before := fs }) (hAcc _ hLedger) hConfined
      hName hTime (hForeign _ hNumber) hFiles hRun
    have hLeaves : ∀ state, Launch.Leaves h.store { l with before := fs } state ↔ l.Leaves h.store state := by
      intro state
      simp only [Launch.Leaves, hSame]
    refine ⟨hTends, hKept.imp ?_ ?_⟩
    · rintro ⟨hExit, state, hLeft, hAcc'⟩
      exact ⟨hExit, state, (hLeaves state).mp hLeft, .inl hAcc'⟩
    · rintro ⟨hNot, hAcc'⟩
      exact ⟨fun hExit state hLeft => hNot hExit state ((hLeaves state).mpr hLeft), .inl hAcc'⟩

end Upkeep

theorem balanced_of_unasked (hBalanced : h.store.Balanced root ledger l.before)
    (hObeys : h.store.Obeys root l) (hNumber : h.store.Foreign root l.before number)
    (hArgs : Command.stateFlag ∉ l.command.args) :
    h.store.Balanced root ledger (l.after.setContent number bytes) := by
  rcases hBalanced with hAcc | ⟨hVacant, hLedger⟩
  · exact .inl (accounted_of_unasked hAcc (hObeys.confined_of_tidy hAcc.tidy) hNumber hArgs)
  rcases hObeys.cases_of_vacant hVacant with ⟨hAfter, -⟩ | ⟨fs, -, -, hConfined, -, hAcc, hForeign⟩
  · exact .inr ⟨hAfter.congr fun _ => rfl, hLedger⟩
  · exact .inl (accounted_of_unasked (l := { l with before := fs }) (hAcc _ hLedger) hConfined
      (hForeign _ hNumber) hArgs)

end Harness

end Reanalysis
