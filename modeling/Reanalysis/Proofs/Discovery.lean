import Mathlib.Data.List.Induction
import Mathlib.Data.List.Nodup
import Reanalysis.Corpus.Basic
import Reanalysis.Proofs.Harness.Stage

/-!
# Which programs are found in the corpus

The numbers of the programs are read off the names in the directory of the corpus, and the locations of
their sources are made from the numbers. A number can be written with a sign and with zeros in front, so
several names may give one number, and a name gives its number whatever it stands for. Each source is found
once, and nothing else, exactly if every name that gives a number is the one made from it, and is a file.
-/

namespace Reanalysis

open Files (Location PlainName)

/-! ## Numbers and their digits -/

namespace Text

theorem natOfDigits_concat (ds : List Char) (d : Char) :
    natOfDigits (ds ++ [d]) = 10 * natOfDigits ds + digitValue d := by
  rw [natOfDigits, List.foldl_append]
  rfl

theorem digitChar_digitValue {d : Char} (h : d.isDigit = true) :
    digitValue d < 10 ∧ Nat.digitChar (digitValue d) = d := by
  have hBounds := bounds_of_isDigit h
  have hValue : d.toNat = 48 + digitValue d := by rw [digitValue]; omega
  have hSmall : digitValue d < 10 := by omega
  refine ⟨hSmall, ?_⟩
  have hAll : ∀ n < 10, Nat.digitChar n = Char.ofNat (48 + n) := by decide
  rw [hAll _ hSmall, ← hValue, Char.ofNat_toNat]

theorem eq_zero_of_natOfDigits {ds : List Char} (hDigits : ∀ c ∈ ds, c.isDigit = true)
    (h : natOfDigits ds = 0) : ∀ c ∈ ds, c = '0' := by
  induction ds using List.reverseRecOn with
  | nil => exact List.forall_mem_nil _
  | append_singleton ds d ih =>
    rw [natOfDigits_concat] at h
    have hFront := ih (fun c hc => hDigits c (List.mem_append_left _ hc)) (by omega)
    have hLast := (digitChar_digitValue (hDigits d (by simp))).2
    rw [show digitValue d = 0 by omega] at hLast
    intro c hc
    rcases List.mem_append.mp hc with hc | hc
    · exact hFront c hc
    · rw [List.mem_singleton.mp hc, ← hLast]
      rfl

/-- Digits spell a number with zeros in front of its own digits. -/
theorem exists_zeros_append_toDigits {ds : List Char} (hDigits : ∀ c ∈ ds, c.isDigit = true)
    (h : 0 < natOfDigits ds) :
    ∃ zeros, (∀ c ∈ zeros, c = '0') ∧ ds = zeros ++ Nat.toDigits 10 (natOfDigits ds) := by
  induction ds using List.reverseRecOn with
  | nil => exact absurd h (by decide)
  | append_singleton ds d ih =>
    have hFront : ∀ c ∈ ds, c.isDigit = true := fun c hc => hDigits c (List.mem_append_left _ hc)
    obtain ⟨hSmall, hChar⟩ := digitChar_digitValue (hDigits d (by simp))
    have hLast : Nat.toDigits 10 (digitValue d) = [d] := by rw [Nat.toDigits_of_lt_base hSmall, hChar]
    rw [natOfDigits_concat] at h ⊢
    rcases Nat.eq_zero_or_pos (natOfDigits ds) with hZero | hPos
    · -- Up to here there were zeros only, so the number starts with this digit.
      refine ⟨ds, eq_zero_of_natOfDigits hFront hZero, ?_⟩
      rw [hZero, Nat.mul_zero, Nat.zero_add, hLast]
    · obtain ⟨zeros, hZeros, hds⟩ := ih hFront hPos
      refine ⟨zeros, hZeros, ?_⟩
      rw [← Nat.toDigits_append_toDigits (by decide) hPos hSmall, hLast, ← List.append_assoc, ← hds]

theorem natOfDigits_zeros_append {zeros : List Char} (h : ∀ c ∈ zeros, c = '0') (ds : List Char) :
    natOfDigits (zeros ++ ds) = natOfDigits ds := by
  induction zeros with
  | nil => rfl
  | cons c zeros ih =>
    rw [h c List.mem_cons_self]
    exact ih fun d hd => h d (List.mem_cons_of_mem _ hd)

/-- Exactly these texts are read as a positive number. -/
theorem boundedNat?_eq_some_iff_zeros {bound n : Nat} (hPos : 0 < n) (hLess : n < bound)
    {cs : List Char} : boundedNat? bound cs = some n ↔ ∃ sign zeros, (sign = [] ∨ sign = ['+']) ∧
      (∀ c ∈ zeros, c = '0') ∧ cs = sign ++ (zeros ++ Nat.toDigits 10 n) := by
  rw [boundedNat?_eq_some_iff]
  constructor
  · rintro ⟨ds, hSign, -, hDigits, rfl, -⟩
    obtain ⟨zeros, hZeros, hds⟩ := exists_zeros_append_toDigits hDigits hPos
    rcases hSign with rfl | rfl
    · exact ⟨[], zeros, .inl rfl, hZeros, hds⟩
    · exact ⟨['+'], zeros, .inr rfl, hZeros, congrArg ('+' :: ·) hds⟩
  · rintro ⟨sign, zeros, hSign, hZeros, rfl⟩
    refine ⟨zeros ++ Nat.toDigits 10 n, by rcases hSign with rfl | rfl <;> simp, ?_, ?_, ?_, hLess⟩
    · simp [Nat.toDigits_ne_nil]
    · intro c hc
      rcases List.mem_append.mp hc with hc | hc
      · rw [hZeros c hc]
        rfl
      · exact isDigit_of_mem_toDigits hc
    · rw [natOfDigits_zeros_append hZeros, natOfDigits_toDigits]

end Text

/-! ## Names in a directory -/

namespace Files

variable {fs : Files} {dir name : Location} {reached : Place} {node : FileNode}

theorem lookup_eq_some_iff_mem {names : List (Place × FileNode)} (hOnce : (names.map Prod.fst).Nodup)
    {q : Place} : names.lookup q = some node ↔ (q, node) ∈ names := by
  induction names with
  | nil => simp
  | cons e names ih =>
    obtain ⟨hFirst, hRest⟩ := List.nodup_cons.mp hOnce
    rw [List.lookup_cons]
    by_cases hq : q = e.1
    · subst hq
      have hElse : (e.1, node) ∉ names := fun hMem => hFirst (List.mem_map.mpr ⟨_, hMem, rfl⟩)
      simp [hElse, Prod.ext_iff, eq_comm]
    · have hNot : (q, node) ≠ e := fun h => hq (congrArg Prod.fst h)
      have hBeq : (q == e.1) = false := by simpa using hq
      simp only [hBeq, ih hRest, List.mem_cons, hNot, false_or]

theorem mem_children_iff (hDir : fs.find dir = .ok (reached, .directory)) (hName : PlainName name) :
    (name, node) ∈ fs.children dir ↔ (reached ++ [name], node) ∈ fs.names := by
  have hNamed := named_snoc reached hName
  rw [children, hDir]
  constructor
  · intro h
    obtain ⟨e, he, hEntry⟩ := List.mem_filterMap.mp h
    dsimp only at hEntry
    split at hEntry
    · rename_i last hLast
      simp only [Option.ite_none_right_eq_some, Bool.and_eq_true, decide_eq_true_eq, Option.some.injEq,
        Prod.mk.injEq] at hEntry
      obtain ⟨⟨hFront, -⟩, rfl, rfl⟩ := hEntry
      rwa [← hFront, List.dropLast_append_getLast? _ hLast]
    · cases hEntry
  · intro h
    exact List.mem_filterMap.mpr ⟨_, h, by simp [hNamed.2]⟩

theorem nodup_children (hOnce : (fs.names.map Prod.fst).Nodup) (dir : Location) :
    ((fs.children dir).map Prod.fst).Nodup := by
  rw [children]
  split
  · rename_i place _
    rw [List.Nodup, List.pairwise_map] at hOnce ⊢
    refine List.pairwise_filterMap.mpr (hOnce.imp ?_)
    rintro ⟨q, node⟩ ⟨q', node'⟩ hDiffer b hb b' hb' hSame
    apply hDiffer
    dsimp only at hb hb' ⊢
    split at hb
    · split at hb'
      · rename_i last hLast _ last' hLast'
        simp only [Option.ite_none_right_eq_some, Bool.and_eq_true, decide_eq_true_eq,
          Option.some.injEq] at hb hb'
        obtain ⟨⟨hFront, -⟩, rfl⟩ := hb
        obtain ⟨⟨hFront', -⟩, rfl⟩ := hb'
        rw [← List.dropLast_append_getLast? _ hLast, ← List.dropLast_append_getLast? _ hLast', hFront,
          hFront']
        exact congrArg (place ++ [·]) hSame
      · cases hb'
    · cases hb
  · exact List.nodup_nil

/-- A directory that is led to can be listed, unless it is the working directory by no name. -/
theorem Leads.find (h : fs.Leads dir reached) (hBlank : dir ≠ "") (hFault : fault? dir = none) :
    fs.find dir = .ok (reached, .directory) := by
  rw [find_eq, place_eq, if_neg hBlank, hFault, h.way]
  simp [h.directory]

theorem children_blank : fs.children "" = [] := by
  rw [children, find_eq, place_eq, if_pos rfl]

theorem exists_mem_children (hOnce : (fs.names.map Prod.fst).Nodup) (hBlank : dir ≠ "")
    (hName : PlainName name) (h : fs.isFile (join dir name) = true) :
    ∃ number, (name, .file number) ∈ fs.children dir := by
  rw [isFile] at h
  split at h
  · rename_i place number hFind
    obtain ⟨hPlace, hNode⟩ := place_of_find hFind
    obtain ⟨reached, hLeads, rfl⟩ := exists_leads hName hPlace
    have hFault : fault? (join dir name) = none := by
      rw [place_join_leads hLeads hName] at hPlace
      split at hPlace
      · cases hPlace
      · assumption
    have hDir := hLeads.find hBlank (fault?_of_join hName hFault)
    rw [node?_of_named (named_snoc reached hName), lookup_eq_some_iff_mem hOnce] at hNode
    exact ⟨number, (mem_children_iff hDir hName).mpr hNode⟩
  · cases h

end Files

/-! ## The programs of the corpus -/

namespace Corpus

variable {c : Corpus} {fs : Files} {name : String} {id : ProgramId}

def sourceName (id : ProgramId) : String := id.render ++ ".jse.js"

/-- The name of a source with this number, which may have a sign and zeros in front. -/
def Spells (name : String) (id : ProgramId) : Prop :=
  ∃ sign zeros, (sign = [] ∨ sign = ['+']) ∧ (∀ c ∈ zeros, c = '0') ∧
    name.toList = sign ++ (zeros ++ (sourceName id).toList)

theorem plainName_sourceName (id : ProgramId) : PlainName (sourceName id) :=
  Harness.plainName_program id List.mem_cons_self

theorem toList_sourceName (id : ProgramId) :
    (sourceName id).toList = Nat.toDigits 10 id.number ++ sourceEnding := by
  rw [sourceName, String.toList_append, ProgramId.render, Nat.toString_eq_repr, Nat.toList_repr]
  rfl

theorem spells_sourceName (id : ProgramId) : Spells (sourceName id) id :=
  ⟨[], [], .inl rfl, List.forall_mem_nil _, rfl⟩

theorem ofNat?_eq_some_iff {n : Nat} : ProgramId.ofNat? n = some id ↔ n = id.number := by
  constructor
  · intro h
    rw [ProgramId.ofNat?] at h
    split at h
    · cases h
      rfl
    · cases h
  · rintro rfl
    exact id.ofNat?_number

theorem sourceNumber?_eq_some_iff : sourceNumber? name = some id ↔ Spells name id := by
  have hStem : sourceNumber? name = some id ↔ ∃ stem, name.toList = stem ++ sourceEnding ∧
      Text.boundedNat? 0x100000000 stem = some id.number := by
    rw [sourceNumber?]
    by_cases hEnds : sourceEnding.isSuffixOf name.toList = true
    · obtain ⟨stem, hName⟩ := List.isSuffixOf_iff_suffix.mp hEnds
      have hTake : name.toList.take (name.toList.length - sourceEnding.length) = stem := by
        simp [← hName]
      simp only [hEnds, hTake]
      change (Text.boundedNat? 0x100000000 stem).bind ProgramId.ofNat? = some id ↔ _
      simp only [Option.bind_eq_some_iff, ofNat?_eq_some_iff, exists_eq_right, ← hName,
        List.append_left_inj, exists_eq_left']
    · simp only [hEnds]
      constructor
      · intro h
        cases h
      · rintro ⟨stem, hName, -⟩
        exact absurd (List.isSuffixOf_iff_suffix.mpr ⟨stem, hName.symm⟩) hEnds
  rw [hStem]
  simp only [Text.boundedNat?_eq_some_iff_zeros id.positive id.bounded, Spells, toList_sourceName]
  constructor
  · rintro ⟨stem, hName, sign, zeros, hSign, hZeros, rfl⟩
    exact ⟨sign, zeros, hSign, hZeros, by rw [hName, List.append_assoc, List.append_assoc]⟩
  · rintro ⟨sign, zeros, hSign, hZeros, hName⟩
    exact ⟨_, by rw [hName, ← List.append_assoc zeros, ← List.append_assoc], sign, zeros, hSign, hZeros, rfl⟩

instance (name : String) (id : ProgramId) : Decidable (Spells name id) :=
  decidable_of_iff _ sourceNumber?_eq_some_iff

theorem pairwise_discover (c : Corpus) (fs : Files) : (c.discover fs).Pairwise (· ≤ ·) := by
  change (c.discover fs).Pairwise fun a b => a.number ≤ b.number
  refine (List.pairwise_mergeSort ?_ ?_ _).imp fun h => of_decide_eq_true h
  · intro a b c hab hbc
    simp only [decide_eq_true_eq] at hab hbc ⊢
    omega
  · intro a b
    simp only [Bool.or_eq_true, decide_eq_true_eq]
    omega

theorem mem_discover_iff :
    id ∈ c.discover fs ↔ ∃ name ∈ (fs.children c.dir).map Prod.fst, Spells name id := by
  simp only [discover, List.mem_mergeSort, List.mem_filterMap, List.mem_map, exists_exists_and_eq_and,
    sourceNumber?_eq_some_iff]

theorem count_discover (c : Corpus) (fs : Files) (id : ProgramId) :
    (c.discover fs).count id = ((fs.children c.dir).map Prod.fst).countP fun name => Spells name id := by
  rw [discover, (List.mergeSort_perm _ _).count_eq, List.count, List.countP_filterMap, List.countP_map]
  refine List.countP_congr fun e he => ?_
  cases hNumber : sourceNumber? e.1 <;> simp [hNumber, ← sourceNumber?_eq_some_iff]

theorem countP_le_one_iff {names : List String} (hOnce : names.Nodup) {p : String → Bool} :
    names.countP p ≤ 1 ↔ ∀ x ∈ names.filter p, ∀ y ∈ names.filter p, x = y := by
  have hFiltered := hOnce.filter p
  rw [List.countP_eq_length_filter]
  rcases hShape : names.filter p with _ | ⟨x, _ | ⟨y, rest⟩⟩
  · simp
  · simp
  · have hDiffer : x ≠ y := by
      rintro rfl
      rw [hShape] at hFiltered
      exact (List.nodup_cons.mp hFiltered).1 List.mem_cons_self
    simp [hDiffer]

/-- No id is listed twice exactly if no two names spell one id. -/
theorem pairwise_lt_discover_iff (hOnce : (fs.names.map Prod.fst).Nodup) :
    (c.discover fs).Pairwise (· < ·) ↔ ∀ id, ∀ name ∈ (fs.children c.dir).map Prod.fst,
      ∀ name' ∈ (fs.children c.dir).map Prod.fst, Spells name id → Spells name' id → name = name' := by
  have hCount : (∀ id, (c.discover fs).count id ≤ 1) ↔ ∀ id, ∀ name ∈ (fs.children c.dir).map Prod.fst,
      ∀ name' ∈ (fs.children c.dir).map Prod.fst, Spells name id → Spells name' id → name = name' := by
    refine forall_congr' fun id => ?_
    rw [count_discover, countP_le_one_iff (Files.nodup_children hOnce c.dir)]
    simp only [List.mem_filter, decide_eq_true_eq, and_imp]
    exact forall₂_congr fun name _ => ⟨fun h name' hName' hSpells => h hSpells name' hName',
      fun h hSpells name' hName' => h name' hName' hSpells⟩
  rw [← hCount, ← List.nodup_iff_count_le_one]
  constructor
  · intro hStrict
    refine hStrict.imp ?_
    rintro a _ hLess rfl
    exact Nat.lt_irrefl a.number hLess
  · intro hNodup
    refine ((pairwise_discover c fs).and hNodup).imp fun {a b} h => ?_
    exact Nat.lt_of_le_of_ne h.1 fun hNumber => h.2 (ProgramId.number_inj hNumber)

theorem sourceName_mem (hOnce : (fs.names.map Prod.fst).Nodup) (hBlank : c.dir ≠ "")
    (h : fs.isFile (c.sourcePath id) = true) : sourceName id ∈ (fs.children c.dir).map Prod.fst := by
  obtain ⟨number, hMem⟩ := Files.exists_mem_children hOnce hBlank (plainName_sourceName id) h
  exact List.mem_map.mpr ⟨_, hMem, rfl⟩

/-- The ids that are found ascend, and each is found as often as there are names that spell it. They are
the programs whose sources are there, each once, exactly if every name that spells an id is the one made
from the id, and is a file. Besides, the corpus must not be given by no name at all. -/
theorem discover_lists_sources_iff (c : Corpus) (fs : Files) (hOnce : (fs.names.map Prod.fst).Nodup) :
    (c.discover fs).Pairwise (· ≤ ·) ∧
      (∀ id, (c.discover fs).count id =
        ((fs.children c.dir).map Prod.fst).countP fun name => Spells name id) ∧
      ((c.discover fs).Pairwise (· < ·) ∧
          (∀ id, id ∈ c.discover fs ↔ fs.isFile (c.sourcePath id) = true) ↔
        (∀ name ∈ (fs.children c.dir).map Prod.fst, ∀ id, Spells name id →
          name = sourceName id ∧ fs.isFile (c.sourcePath id) = true) ∧
        (c.dir = "" → ∀ id, fs.isFile (c.sourcePath id) = false)) := by
  refine ⟨pairwise_discover c fs, count_discover c fs, ?_⟩
  rw [pairwise_lt_discover_iff hOnce]
  constructor
  · rintro ⟨hStrict, hFound⟩
    have hBlank : c.dir = "" → ∀ id, id ∉ c.discover fs := by
      intro hDir id hMem
      obtain ⟨name, hName, -⟩ := mem_discover_iff.mp hMem
      rw [hDir, Files.children_blank] at hName
      exact List.not_mem_nil hName
    refine ⟨fun name hName id hSpells => ?_, fun hDir id => ?_⟩
    · have hMem : id ∈ c.discover fs := mem_discover_iff.mpr ⟨name, hName, hSpells⟩
      have hFile := (hFound id).mp hMem
      have hDir : c.dir ≠ "" := fun hDir => hBlank hDir id hMem
      exact ⟨hStrict id name hName _ (sourceName_mem hOnce hDir hFile) hSpells (spells_sourceName id), hFile⟩
    · rw [← Bool.not_eq_true, ← hFound]
      exact hBlank hDir id
  · rintro ⟨hNames, hBlank⟩
    refine ⟨fun id name hName name' hName' hSpells hSpells' => ?_, fun id => ⟨fun hMem => ?_, fun hFile => ?_⟩⟩
    · rw [(hNames name hName id hSpells).1, (hNames name' hName' id hSpells').1]
    · obtain ⟨name, hName, hSpells⟩ := mem_discover_iff.mp hMem
      exact (hNames name hName id hSpells).2
    · have hDir : c.dir ≠ "" := fun hDir => absurd hFile (by simp [hBlank hDir id])
      exact mem_discover_iff.mpr ⟨_, sourceName_mem hOnce hDir hFile, spells_sourceName id⟩

/-- A corpus of two programs, with a directory and a file that are no sources. -/
def twoPrograms : Files :=
  ⟨[(["randjs", "2.jse.js"], .file 0), (["randjs"], .directory), (["randjs", "1.jazzer.js"], .file 1),
    (["randjs", "1.jse.js"], .file 2), (["randjs", "old.jse.js"], .directory)], [[], [], []]⟩

theorem two_programs_found : (twoPrograms.names.map Prod.fst).Nodup ∧
    ((new "randjs").discover twoPrograms).Pairwise (· < ·) ∧
    ∀ id, id ∈ (new "randjs").discover twoPrograms ↔
      twoPrograms.isFile ((new "randjs").sourcePath id) = true := by
  have hOnce : (twoPrograms.names.map Prod.fst).Nodup := by decide
  refine ⟨hOnce, (discover_lists_sources_iff (new "randjs") twoPrograms hOnce).2.2.mpr ⟨?_, ?_⟩⟩
  · have hAll : (((twoPrograms.children "randjs").map Prod.fst).all fun name => (sourceNumber? name).all
        fun id => name = sourceName id && twoPrograms.isFile ((new "randjs").sourcePath id)) = true := by
      rfl
    intro name hName id hSpells
    have hOne := List.all_eq_true.mp hAll name hName
    rw [sourceNumber?_eq_some_iff.mpr hSpells] at hOne
    simpa using hOne
  · intro hDir
    exact absurd hDir (by decide)

/-- Two names that spell one id, and a name with a sign. -/
def oddlyNamed : Files :=
  ⟨[(["randjs"], .directory), (["randjs", "1.jse.js"], .file 0), (["randjs", "01.jse.js"], .file 1),
    (["randjs", "+2.jse.js"], .file 2)], [[], [], []]⟩

theorem oddly_named_found :
    ((new "randjs").discover oddlyNamed).count ⟨1, Nat.one_pos, ProgramId.one_bounded⟩ = 2 ∧
      ⟨2, Nat.two_pos, ProgramId.two_bounded⟩ ∈ (new "randjs").discover oddlyNamed ∧
      oddlyNamed.isFile ((new "randjs").sourcePath ⟨2, Nat.two_pos, ProgramId.two_bounded⟩) = false := by
  refine ⟨?_, ?_, ?_⟩
  · rw [count_discover]
    decide +kernel
  · rw [mem_discover_iff]
    decide +kernel
  · decide +kernel

end Corpus

end Reanalysis
