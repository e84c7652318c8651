import Reanalysis.Proofs.Harness.Changes
import Reanalysis.Proofs.Harness.Contract
import Reanalysis.Proofs.Harness.Lines

/-!
# Between the steps of a batch

Full and targeted steps write to slots, to logs and to diffs, and nowhere else. So the programs are
read as in the beginning, and whether a diff can be written does not change either.
-/

namespace Reanalysis

open Files (Location)
open CacheStore
open Harness (Beside Clear)

/-! ## Names -/

namespace Harness

def programEndings : List String := [".jse.js", ".jse.diff.js"]

/-- The names of logs, programs and diffs. -/
def TakenName (name : String) : Prop :=
  name ∈ skipLog :: runLogs ∨
    ∃ (id : ProgramId) (ending : String), ending ∈ ".diff" :: programEndings ∧ name = id.render ++ ending

theorem getLast?_render (id : ProgramId) {ending : String} (hEnding : ending ∈ ".diff" :: programEndings) :
    ∃ c ∈ ['s', 'f'], (id.render ++ ending).toList.getLast? = some c := by
  have hAll : ∀ ending ∈ ".diff" :: programEndings,
      ending.toList.getLast? ∈ ['s', 'f'].map some := by decide
  obtain ⟨c, hMem, hLast⟩ := List.mem_map.mp (hAll ending hEnding)
  exact ⟨c, hMem, by rw [String.toList_append, List.getLast?_append, ← hLast]; rfl⟩

theorem TakenName.beside {name : String} (h : TakenName name) (s : CacheStore) : Beside s [name] := by
  rw [← List.nil_append [name]]
  rcases h with hLog | ⟨id, ending, hEnding, rfl⟩
  · have hAll : ∀ name ∈ skipLog :: runLogs, name.toList.getLast?.all (!·.isDigit) = true ∧
        name ≠ blobName ∧ name ≠ metaName := by decide
    obtain ⟨hLast, hBlob, hMeta⟩ := hAll name hLog
    exact beside_of_last (fun _ => List.not_mem_nil) hLast hBlob hMeta
  · obtain ⟨c, hMem, hLast⟩ := getLast?_render id hEnding
    have hOther : ∀ name : String, name.toList.getLast? ∉ [some 's', some 'f'] →
        id.render ++ ending ≠ name := by
      rintro name hNot rfl
      rw [hLast] at hNot
      exact hNot (List.mem_map_of_mem (f := some) hMem)
    refine beside_of_last (fun _ => List.not_mem_nil) ?_ (hOther _ (by decide)) (hOther _ (by decide))
    rw [hLast]
    have hLetters : ['s', 'f'].all (!·.isDigit) = true := by decide
    exact List.all_eq_true.mp hLetters c hMem

theorem render_ne (id : ProgramId) (ending : String) {name : String}
    (hName : name.toList.head?.all (!·.isDigit) = true) : id.render ++ ending ≠ name := by
  rintro rfl
  obtain ⟨d, ds, hChars, hDigit, -⟩ := exists_render id ending
  rw [hChars, List.cons_append, List.head?_cons, Option.all_some, hDigit] at hName
  cases hName

theorem plainName_program (id : ProgramId) {ending : String} (hEnding : ending ∈ programEndings) :
    Files.PlainName (id.render ++ ending) :=
  plainName_render id ((by decide : ∀ ending ∈ programEndings, '/' ∉ ending.toList) ending hEnding)

theorem render_ne_log (id : ProgramId) (ending : String) {name : String}
    (hName : name ∈ skipLog :: runLogs) : id.render ++ ending ≠ name := by
  have hAll : ∀ name ∈ skipLog :: runLogs, name.toList.head?.all (!·.isDigit) = true := by decide
  exact render_ne id ending (hAll name hName)

end Harness

open Harness (TakenName programEndings)

/-! ## Where steps write -/

/-- What the steps of a batch start from, and the launches that are made in their course. -/
structure Setting where
  harness : Harness
  root : Place
  logs : Place
  start : Files
  ids : List ProgramId
  launches : List Launch
  suits : harness.Suits
  sound : start.Sound
  leads : start.Leads harness.config.logDir logs
  housed : harness.store.Tidy root start ∨ harness.store.Vacant root start
  free : ∀ dir name, dir ++ [name] <+: root → start.node? (dir ++ [name]) ≠ some .directory →
    ¬ TakenName name
  honours : harness.store.Honours root launches
  steady : ∃ fs, harness.Steady fs launches

namespace Setting

variable (S : Setting)

abbrev store : CacheStore := S.harness.store

def HasSource (id : ProgramId) : Prop := S.start.isFile (S.harness.corpus.sourcePath id) = true

/-- A place on the way to the results or in a slot that was not there in the beginning. -/
def Fresh (q : Place) : Prop :=
  (q <+: S.root ∧ S.start.node? q ≠ some .directory) ∨
  ∃ n rest, S.start.node? (S.store.slotPlace S.root n) ≠ some .directory ∧
    q = S.root ++ S.store.slotName n :: rest

/-- Where steps write while these logs are open, diffs apart. -/
def Written (opened : List String) (q : Place) : Prop :=
  S.Fresh q ∨
  (∃ id ∈ S.ids, S.HasSource id ∧ ∃ name, (name = blobName ∨ name = metaName) ∧
    q = S.store.filePlace S.root id.number name) ∨
  ∃ name ∈ opened, name ∈ Harness.skipLog :: Harness.runLogs ∧ q = S.logs ++ [name]

def Touched (opened : List String) (q : Place) : Prop :=
  S.Written opened q ∨ q = S.logs ++ ["diffs"] ∨
    ∃ id : ProgramId, q = S.logs ++ ["diffs", id.render ++ ".diff"]

variable {S} {opened : List String} {dir : Place} {name : String}

theorem slot_of_below {n : Nat} {inner : List String}
    (hThere : S.start.node? (S.root ++ S.store.slotName n :: inner) = some .directory) :
    S.start.node? (S.store.slotPlace S.root n) = some .directory := by
  rcases S.housed with hTidy | hVacant
  · exact hTidy.slot_of_below hThere
  · rw [hVacant.below] at hThere
    cases hThere

theorem not_fresh (front : List String) (hDir : S.start.node? dir = some .directory)
    (hTaken : TakenName name) (hTail : Beside S.store (front ++ [name])) : ¬ S.Fresh (dir ++ (front ++ [name])) := by
  rintro (⟨hWay, hMissing⟩ | ⟨n, rest, hMissing, hEq⟩)
  · rw [← List.append_assoc] at hWay hMissing
    exact S.free _ _ hWay hMissing hTaken
  · obtain ⟨inner, rfl, -⟩ := Harness.exists_below (hTail.noSlot n) hEq.symm
    exact hMissing (slot_of_below hDir)

theorem not_written (front : List String) (hDir : S.start.node? dir = some .directory)
    (hTaken : TakenName name) (hTail : Beside S.store (front ++ [name]))
    (hLog : ∀ log ∈ Harness.skipLog :: Harness.runLogs, log ∈ opened →
      dir ++ (front ++ [name]) ≠ S.logs ++ [log]) : ¬ S.Written opened (dir ++ (front ++ [name])) := by
  rintro (hFresh | ⟨id, -, -, entry, hEntry, hEq⟩ | ⟨log, hOpened, hName, hEq⟩)
  · exact not_fresh front hDir hTaken hTail hFresh
  · exact hTail.not_entry dir ⟨id.number, entry, hEntry, hEq⟩
  · exact hLog log hName hOpened hEq

theorem not_written_diff (id : ProgramId) :
    ¬ S.Written opened (S.logs ++ ["diffs", id.render ++ ".diff"]) := by
  refine not_written ["diffs"] S.leads.directory (.inr ⟨id, _, List.mem_cons_self, rfl⟩)
    (Harness.beside_diff _ id) fun log _ _ hEq => ?_
  have hLength := congrArg List.length hEq
  simp at hLength

theorem not_touched_program (hDir : S.start.node? dir = some .directory) (id : ProgramId)
    {ending : String} (hEnding : ending ∈ programEndings) :
    ¬ S.Touched opened (dir ++ [id.render ++ ending]) := by
  have hTaken : TakenName (id.render ++ ending) := .inr ⟨id, ending, List.mem_cons_of_mem _ hEnding, rfl⟩
  rintro (hWritten | hEq | ⟨other, hEq⟩)
  · refine not_written [] hDir hTaken (hTaken.beside _) (fun log hLog _ hEq => ?_) hWritten
    exact Harness.render_ne_log id ending hLog (List.append_singleton_inj.mp hEq).2
  · exact Harness.render_ne id ending (by decide) (List.append_singleton_inj.mp hEq).2
  · rw [show S.logs ++ ["diffs", other.render ++ ".diff"] =
      (S.logs ++ ["diffs"]) ++ [other.render ++ ".diff"] by simp] at hEq
    have hLast := congrArg (·.toList.getLast?) (List.append_singleton_inj.mp hEq).2
    have hAll : ∀ ending ∈ programEndings, ending.toList.getLast? = some 's' := by decide
    rw [Harness.getLast?_diff, String.toList_append, List.getLast?_append, hAll ending hEnding] at hLast
    cases hLast

/-! ## What stays as it was -/

variable (S) in
/-- What all files have in common that steps come to from the start. -/
structure Follows (opened : List String) (u : Files) : Prop where
  sound : u.Sound
  housed : S.store.Tidy S.root u ∨ S.store.Vacant S.root u
  touches : Files.Touches (S.Touched opened) S.start u
  clear : ∀ id, Clear S.logs id u ↔ Clear S.logs id S.start
  /-- Where the programs were not led to in the beginning, nothing is launched that makes
  directories. -/
  corpus : (∃ dir, S.start.Leads S.harness.config.corpusDir dir) ∨
    ∀ q, u.node? q = some .directory → S.start.node? q = some .directory

theorem not_file_of_way {fs : Files} (hHoused : S.store.Tidy S.root fs ∨ S.store.Vacant S.root fs)
    {q : Place} (hq : q <+: S.root) (number : Nat) : fs.node? q ≠ some (.file number) := by
  rcases hHoused with hTidy | hVacant
  · rw [hTidy.leads.above hq]
    simp
  · exact hVacant.noFile q number hq

namespace Follows

variable {u u' : Files} {id : ProgramId}

theorem refl (S : Setting) (opened : List String) : S.Follows opened S.start :=
  ⟨S.sound, S.housed, .refl _ _, fun _ => Iff.rfl, .inr fun _ h => h⟩

theorem leads (h : S.Follows opened u) : u.Leads S.harness.config.logDir S.logs :=
  S.leads.standing h.touches.standing

theorem mono (h : S.Follows opened u) {more : List String} (hMore : ∀ name ∈ opened, name ∈ more) :
    S.Follows more u := by
  refine ⟨h.sound, h.housed, h.touches.mono ?_, h.clear, h.corpus⟩
  rintro q ((hFresh | hEntry | ⟨name, hName, hLog⟩) | hDiff)
  · exact .inl (.inl hFresh)
  · exact .inl (.inr (.inl hEntry))
  · exact .inl (.inr (.inr ⟨name, hMore name hName, hLog⟩))
  · exact .inr hDiff

theorem change (h : S.Follows opened u) (hSound : u'.Sound)
    (hHoused : S.store.Tidy S.root u' ∨ S.store.Vacant S.root u')
    (hTouches : Files.Touches (S.Written opened) u u')
    (hCorpus : (∃ dir, S.start.Leads S.harness.config.corpusDir dir) ∨
      ∀ q, u'.node? q = some .directory → u.node? q = some .directory) : S.Follows opened u' := by
  refine ⟨hSound, hHoused, h.touches.trans (hTouches.mono fun q hq => .inl hq), fun id => ?_, ?_⟩
  · rw [← h.clear id]
    have hDiff := hTouches.node _ (not_written_diff id)
    by_cases hWay : S.logs ++ ["diffs"] <+: S.root
    · -- On the way to the results there are no files.
      constructor
      · rintro ⟨-, hFree⟩
        exact ⟨not_file_of_way h.housed hWay, hDiff ▸ hFree⟩
      · rintro ⟨-, hFree⟩
        exact ⟨not_file_of_way hHoused hWay, hDiff ▸ hFree⟩
    · refine Clear.congr (hTouches.node _ ?_) hDiff
      rintro ((⟨hPrefix, -⟩ | ⟨n, rest, hMissing, hEq⟩) | ⟨other, -, -, name, hName, hEq⟩ |
        ⟨name, -, hName, hEq⟩)
      · exact hWay hPrefix
      · obtain ⟨inner, hLogs, -⟩ := Harness.exists_below ((Harness.beside_diffs S.store).noSlot n) hEq.symm
        exact hMissing (slot_of_below (hLogs ▸ S.leads.directory))
      · exact (Harness.beside_diffs S.store).not_entry S.logs ⟨other.number, name, hName, hEq⟩
      · have hAll : ∀ name ∈ Harness.skipLog :: Harness.runLogs, "diffs" ≠ name := by decide
        exact hAll name hName (List.append_singleton_inj.mp hEq).2
  · exact hCorpus.elim .inl fun hSame => h.corpus.imp_right fun hBefore q hq => hBefore q (hSame q hq)

/-! ### The programs -/

theorem exists_corpus (h : S.Follows opened u) {ending : String} (hEnding : ending ∈ programEndings)
    (hFile : u.isFile (S.harness.corpus.inDir id ending) = true) :
    ∃ dir, S.start.Leads S.harness.config.corpusDir dir := by
  rcases h.corpus with hDir | hSame
  · exact hDir
  · rw [Files.isFile] at hFile
    split at hFile
    · rename_i place number hFound
      obtain ⟨dir, hDir, -⟩ :=
        Files.exists_leads (Harness.plainName_program id hEnding) (Files.place_of_find hFound).1
      exact ⟨dir, hDir.standing hSame⟩
    · cases hFile

theorem read_program (h : S.Follows opened u) {ending : String} (hEnding : ending ∈ programEndings)
    (hDir : S.start.Leads S.harness.config.corpusDir dir) :
    u.read (S.harness.corpus.inDir id ending) = S.start.read (S.harness.corpus.inDir id ending) :=
  h.touches.read_join hDir (Harness.plainName_program id hEnding)
    (not_touched_program hDir.directory id hEnding) S.sound

theorem isFile_program (h : S.Follows opened u) {ending : String} (hEnding : ending ∈ programEndings) :
    u.isFile (S.harness.corpus.inDir id ending) = S.start.isFile (S.harness.corpus.inDir id ending) := by
  by_cases hCorpus : ∃ dir, S.start.Leads S.harness.config.corpusDir dir
  · obtain ⟨dir, hDir⟩ := hCorpus
    exact Files.isFile_congr (h.read_program hEnding hDir)
  · rw [Bool.eq_iff_iff]
    exact ⟨fun hFile => absurd (h.exists_corpus hEnding hFile) hCorpus,
      fun hFile => absurd ((refl S opened).exists_corpus hEnding hFile) hCorpus⟩

theorem hasDiff_iff (h : S.Follows opened u) (hDir : S.start.Leads S.harness.config.corpusDir dir)
    {bytes : Bytes} : S.harness.HasDiff id u bytes ↔ S.harness.HasDiff id S.start bytes := by
  have hText : ∀ ending ∈ programEndings, u.readText (S.harness.corpus.inDir id ending) =
      S.start.readText (S.harness.corpus.inDir id ending) := by
    intro ending hEnding
    rw [Files.readText, Files.readText, h.read_program hEnding hDir]
  have hBase : u.readText (S.harness.corpus.sourcePath id) =
      S.start.readText (S.harness.corpus.sourcePath id) := hText _ (by decide)
  have hModified : u.readText (S.harness.corpus.modifiedPath id) =
      S.start.readText (S.harness.corpus.modifiedPath id) := hText _ (by decide)
  rw [Harness.HasDiff, hBase, hModified]
  rfl

/-! ### Launches -/

theorem fresh_of_reached (h : S.Follows opened u) {q : Place} (hq : S.store.Reached S.root u q) :
    S.Fresh q := by
  rcases hq with ⟨n, rest, hRoom, rfl⟩ | ⟨hWay, hMissing⟩
  · refine .inr ⟨n, rest, fun hSlot => ?_, rfl⟩
    have hSlot' := h.touches.standing _ hSlot
    rcases h.housed with hTidy | hVacant
    · exact Nat.lt_irrefl n (hRoom.2 n (mem_engineDirs hTidy hRoom.1 hSlot'))
    · rw [slotPlace, hVacant.below] at hSlot'
      cases hSlot'
  · exact .inl ⟨hWay, fun hThere => hMissing (h.touches.standing _ hThere)⟩

theorem launched {l : Launch} (h : S.Follows opened l.before) (hMem : l ∈ S.launches)
    (hCorpus : ∃ dir, S.start.Leads S.harness.config.corpusDir dir) : S.Follows opened l.after := by
  have hObeys := S.honours.obeys l hMem
  refine h.change (S.honours.sound l hMem) (hObeys.housed h.housed) ?_ (.inl hCorpus)
  exact (hObeys.touches h.housed).mono fun q hq => .inl (h.fresh_of_reached hq)

/-! ### Logs -/

theorem taken_log (hName : name ∈ Harness.skipLog :: Harness.runLogs) : TakenName name := .inl hName

variable {log : Log}

theorem node?_log (h : S.Follows opened u) (hName : name ∈ Harness.skipLog :: Harness.runLogs)
    (hOpened : S.harness.Opened u name log) : u.node? (S.logs ++ [name]) = some (.file log.number) := by
  obtain ⟨bytes, ⟨place, hFound⟩, -⟩ := hOpened.stored
  obtain ⟨hPlace, hNode⟩ := Files.place_of_find hFound
  obtain ⟨dir, hDir, rfl⟩ := Files.exists_leads (Harness.plainName_log hName) hPlace
  have hSame := h.leads.way.symm.trans hDir.way
  cases hSame
  exact hNode

theorem foreign_log (h : S.Follows opened u) (hName : name ∈ Harness.skipLog :: Harness.runLogs)
    (hOpened : S.harness.Opened u name log) : S.store.Foreign S.root u log.number := by
  have hNode := h.node?_log hName hOpened
  refine ⟨h.sound.bounded _ _ hNode, fun q hEntry hFile => ?_⟩
  rw [h.sound.apart _ _ _ hFile hNode] at hEntry
  exact ((taken_log hName).beside S.store).not_entry S.logs hEntry

theorem line (h : S.Follows opened u) (hName : name ∈ Harness.skipLog :: Harness.runLogs)
    (hMem : name ∈ opened) (hOpened : S.harness.Opened u name log) (bytes : Bytes) :
    S.Follows opened (u.setContent log.number bytes) := by
  have hNode := h.node?_log hName hOpened
  have hAlters : Files.Alters (S.Written opened) u (u.setContent log.number bytes) := by
    refine .setContent bytes fun q hFile => .inr (.inr ⟨name, hMem, hName, ?_⟩)
    exact h.sound.apart _ _ _ hFile hNode
  refine h.change (h.sound.setContent _ _) ?_ hAlters.touches (.inr fun _ hq => hq)
  exact h.housed.imp (·.setContent _ _) (·.congr fun _ => rfl)

theorem spares_log {l : Launch} (h : S.Follows opened l.before) (hMem : l ∈ S.launches)
    (hName : name ∈ Harness.skipLog :: Harness.runLogs) (number : Nat) :
    Files.Spares (S.harness.config.logPath name) number l.before l.after := by
  refine ((S.honours.obeys l hMem).touches h.housed).spares fun place hPlace hReached => ?_
  obtain ⟨dir, hDir, rfl⟩ := Files.exists_leads (Harness.plainName_log hName) hPlace
  have hSame := h.leads.way.symm.trans hDir.way
  cases hSame
  exact not_fresh [] S.leads.directory (taken_log hName) ((taken_log hName).beside S.store)
    (h.fresh_of_reached hReached)

end Follows

/-! ## Outside of slots -/

section Balance

variable {u u' : Files} {ledger : Ledger}

theorem not_way_to_logs (h : S.Follows opened u) (hVacant : S.store.Vacant S.root u) :
    ¬ S.root <+: S.logs := fun hWay => hVacant.missing (h.leads.above hWay)

theorem not_below (h : S.Follows opened u) (hVacant : S.store.Vacant S.root u) {tail : List String}
    {rest : List String} (hEq : S.root ++ rest = S.logs ++ tail) :
    ∃ front, front ≠ [] ∧ S.root = S.logs ++ front ∧ tail = front ++ rest := by
  rcases List.append_eq_append_iff.mp hEq with ⟨front, hLogs, -⟩ | ⟨front, hRoot, hTail⟩
  · exact absurd ⟨front, hLogs.symm⟩ (not_way_to_logs h hVacant)
  · refine ⟨front, ?_, hRoot, hTail⟩
    rintro rfl
    rw [List.append_nil] at hRoot
    exact not_way_to_logs h hVacant ⟨[], by rw [hRoot, List.append_nil]⟩

theorem directory_of_taken (h : S.Follows opened u) (hTaken : TakenName name)
    (hWay : dir ++ [name] <+: S.root) : u.node? (dir ++ [name]) = some .directory := by
  refine h.touches.standing _ ?_
  by_contra hMissing
  exact S.free dir name hWay hMissing hTaken

theorem diffPlace_eq (logs : Place) (id : ProgramId) :
    logs ++ ["diffs", id.render ++ ".diff"] = (logs ++ ["diffs"]) ++ [id.render ++ ".diff"] := by simp

theorem takenName_diff (id : ProgramId) : TakenName (id.render ++ ".diff") :=
  .inr ⟨id, _, List.mem_cons_self, rfl⟩

/-- The directory of the diffs can be that of the results, which is then made with it. -/
theorem accounted_filesWithDiff (h : S.Follows opened u) (id : ProgramId)
    (hVacant : S.store.Vacant S.root u) (hLedger : ledger.IsEmpty) (hRoot : S.root = S.logs ++ ["diffs"])
    (hThere : (S.harness.filesWithDiff id u).node? (S.logs ++ ["diffs"]) = some .directory) :
    S.store.Accounted S.root ledger noLoose (S.harness.filesWithDiff id u) := by
  have hAlters : Files.Alters _ u (S.harness.filesWithDiff id u) := Harness.alters_filesWithDiff h.leads
  refine hVacant.accounted hLedger (fun q hq => ?_) fun n rest => ?_
  · rw [hRoot] at hq
    rcases List.prefix_concat_iff.mp hq with rfl | hq
    · exact hThere
    · exact hAlters.standing _ (h.leads.above hq)
  · rw [hAlters.node, hVacant.below]
    rintro (hEq | hEq)
    · rw [hRoot] at hEq
      simp at hEq
    · rw [hRoot, diffPlace_eq] at hEq
      have hNames := List.append_cancel_left hEq
      rw [List.cons.injEq] at hNames
      exact (Harness.beside_diff S.store id).noSlot n (by simp [hNames.1])

theorem vacant_filesWithDiff (h : S.Follows opened u) (id : ProgramId)
    (hVacant : S.store.Vacant S.root u) (hRoot : S.root ≠ S.logs ++ ["diffs"])
    (hThere : (S.harness.filesWithDiff id u).node? (S.logs ++ ["diffs"]) = some .directory) :
    S.store.Vacant S.root (S.harness.filesWithDiff id u) := by
  have hAlters : Files.Alters _ u (S.harness.filesWithDiff id u) := Harness.alters_filesWithDiff h.leads
  refine hVacant.alters hAlters ?_ ?_ ?_
  · rintro q number (rfl | rfl) hWay
    · rw [hThere]
      simp
    · rw [diffPlace_eq] at hWay ⊢
      rw [hAlters.standing _ (directory_of_taken h (takenName_diff id) hWay)]
      simp
  · rintro (hEq | hEq)
    · exact hRoot hEq
    · rw [diffPlace_eq] at hEq
      refine hVacant.missing ?_
      rw [hEq]
      exact directory_of_taken h (takenName_diff id) ⟨[], by rw [List.append_nil, hEq]⟩
  · rintro name rest (hEq | hEq)
    · obtain ⟨front, hNe, -, hTail⟩ := not_below h hVacant hEq
      cases front with
      | nil => exact hNe rfl
      | cons step front => simp at hTail
    · obtain ⟨front, hNe, hFront, hTail⟩ := not_below h hVacant hEq
      cases front with
      | nil => exact hNe rfl
      | cons step front =>
        rw [List.cons_append, List.cons.injEq] at hTail
        cases front with
        | nil => exact hRoot (hTail.1 ▸ hFront)
        | cons step front => simp at hTail

theorem balanced_filesWithDiff (h : S.Follows opened u) (id : ProgramId)
    (hBalanced : S.store.Balanced S.root ledger u) :
    S.store.Balanced S.root ledger (S.harness.filesWithDiff id u) := by
  rcases hBalanced with hAcc | ⟨hVacant, hLedger⟩
  · obtain ⟨hAlters, hTidy⟩ := Harness.quiet_filesWithDiff id hAcc.tidy h.leads
    exact .inl (hAcc.quiet hAlters hTidy)
  rcases (Harness.filesWithDiff_cases h.leads id).2 with hSame | hThere
  · rw [hSame]
    exact .inr ⟨hVacant, hLedger⟩
  by_cases hRoot : S.root = S.logs ++ ["diffs"]
  · exact .inl (accounted_filesWithDiff h id hVacant hLedger hRoot hThere)
  · exact .inr ⟨vacant_filesWithDiff h id hVacant hRoot hThere, hLedger⟩

theorem balanced_setLog (h : S.Follows opened u) (hName : name ∈ Harness.skipLog :: Harness.runLogs)
    (hFree : u.node? (S.logs ++ [name]) = none) (hBalanced : S.store.Balanced S.root ledger u)
    (hAlters : Files.Alters (· = S.logs ++ [name]) u u') : S.store.Balanced S.root ledger u' := by
  have hTaken := Follows.taken_log hName
  have hNot : ¬ S.logs ++ [name] <+: S.root := by
    intro hWay
    rw [directory_of_taken h hTaken hWay] at hFree
    cases hFree
  rcases hBalanced with hAcc | ⟨hVacant, hLedger⟩
  · have hTails : ∀ tail, tail = [name] → Beside S.store tail := by
      rintro tail rfl
      exact hTaken.beside _
    obtain ⟨hQuiet, hTidy⟩ := Harness.quiet_beside hAcc.tidy h.leads.directory hTails
      (hAlters.mono fun q hq => ⟨_, rfl, hq⟩)
    exact .inl (hAcc.quiet hQuiet hTidy)
  · refine .inr ⟨hVacant.alters hAlters ?_ ?_ ?_, hLedger⟩
    · rintro q number rfl hWay
      exact absurd hWay hNot
    · rintro hEq
      exact hNot (hEq ▸ List.prefix_rfl)
    · intro other rest hEq
      obtain ⟨front, hNe, -, hTail⟩ := not_below h hVacant hEq
      cases front with
      | nil => exact hNe rfl
      | cons step front => simp at hTail

end Balance

namespace Follows

variable {u u' : Files} {id : ProgramId}

theorem diffed (h : S.Follows opened u) (id : ProgramId)
    (hCorpus : ∃ dir, S.start.Leads S.harness.config.corpusDir dir) :
    S.Follows opened (S.harness.filesWithDiff id u) := by
  have hAlters : Files.Alters _ u (S.harness.filesWithDiff id u) := Harness.alters_filesWithDiff h.leads
  obtain ⟨ledger, hBalanced⟩ := Balanced.exists_ledger h.housed
  refine ⟨Harness.sound_filesWithDiff h.sound id, (balanced_filesWithDiff h id hBalanced).tidy_or_vacant,
    h.touches.trans (hAlters.touches.mono ?_), fun other => ?_, .inl hCorpus⟩
  · rintro q (rfl | rfl)
    · exact .inr (.inl rfl)
    · exact .inr (.inr ⟨id, rfl⟩)
  · rw [(Harness.filesWithDiff_cases h.leads id).1 other]
    exact h.clear other

end Follows

end Setting

end Reanalysis
