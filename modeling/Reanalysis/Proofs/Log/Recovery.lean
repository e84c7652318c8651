import Reanalysis.Proofs.Log.Record
import Reanalysis.Proofs.Log.Writing

/-!
# Logs after a crash

A log may be cut off at any byte. What is read from it are the records whose lines were there up to the
closing brace. When it is opened again and written on, nothing is lost as long as it was cut off behind a
line feed; otherwise the first new line is run together with the piece of the last old one, and both are
lost.
-/

namespace Reanalysis.Log

open Files (Location)
open Text (linesText linesText_cons)

/-! ## What was written -/

/-- These are the contents of a log that was empty before the values were added. -/
def Produces (values : List Json.Value) (bytes : Bytes) : Prop :=
  ∃ (log log' : Log) (fs fs' : Files), fs.contents[log.number]? = some [] ∧ log.AtEnd [] ∧
    Gives (log.appendAll values) fs log' fs' ∧ fs'.contents[log.number]? = some bytes

theorem produces_iff {values : List Json.Value} {bytes : Bytes} :
    Produces values bytes ↔ bytes = values.flatMap line := by
  constructor
  · rintro ⟨log, log', fs, fs', hEmpty, hEnd, hAppend, hBytes⟩
    have hLess := (List.getElem?_eq_some_iff.mp hEmpty).1
    rw [gives_appendAll hEmpty hEnd hAppend, List.nil_append, Files.setContent,
      List.getElem?_set_self hLess] at hBytes
    exact (Option.some.inj hBytes).symm
  · rintro rfl
    have hEmpty : (Files.mk [] [[]]).contents[0]? = some [] := rfl
    have hEnd : (Log.mk "" 0 none).AtEnd [] := atEnd_of_none rfl []
    obtain ⟨log', fs', hAppend⟩ := exists_gives_appendAll ⟨"", 0, none⟩ ⟨[], [[]]⟩ values
    refine ⟨⟨"", 0, none⟩, log', ⟨[], [[]]⟩, fs', hEmpty, hEnd, hAppend, ?_⟩
    rw [gives_appendAll hEmpty hEnd hAppend]
    rfl

/-- Exactly the lines of the first `k` values lie within the first `n` bytes. The last `slack` bytes of
a line may be missing. -/
def Fit (slack : Nat) (values : List Json.Value) (n k : Nat) : Prop :=
  ∀ i, i < k ↔ i < values.length ∧ ((values.take (i + 1)).flatMap line).length ≤ n + slack

theorem Fit.le_length {slack n k : Nat} {values : List Json.Value} (h : Fit slack values n k) :
    k ≤ values.length := by
  refine Nat.le_of_not_lt fun hLess => ?_
  exact absurd ((h _).mp hLess).1 (Nat.lt_irrefl _)

theorem Fit.mono {slack slack' n k k' : Nat} {values : List Json.Value} (h : Fit slack values n k)
    (h' : Fit slack' values n k') (hSlack : slack ≤ slack') : k ≤ k' := by
  refine Nat.le_of_not_lt fun hLess => ?_
  obtain ⟨hi, hFits⟩ := (h k').mp hLess
  exact absurd ((h' k').mpr ⟨hi, by omega⟩) (Nat.lt_irrefl _)

/-! ## Lines in bytes -/

section Bytes

variable {values : List Json.Value}

def Measure.bytes : Measure := ⟨Char.utf8Size, Char.utf8Size_pos, rfl⟩

theorem Measure.size_bytes (cs : List Char) :
    Measure.bytes.size cs = (Text.encode (String.ofList cs)).length := by
  rw [Text.encode_ofList, List.length_flatMap, Measure.size]
  exact congrArg List.sum (List.map_congr_left fun c _ => (String.length_utf8EncodeChar c).symm)

theorem Measure.sizes_bytes (values : List Json.Value) :
    Measure.bytes.sizes (values.map Json.Value.chars) = values.map fun value => (line value).length := by
  rw [Measure.sizes, List.map_map]
  refine List.map_congr_left fun value _ => ?_
  rw [line_eq, ← Measure.size_bytes, Measure.size_line]
  rfl

theorem sum_take_lengths (values : List Json.Value) (k : Nat) :
    ((values.map fun value => (line value).length).take k).sum =
      ((values.take k).flatMap line).length := by
  rw [← List.map_take, List.length_flatMap]

theorem fit_lengths {slack : Nat}
    (h : ∀ size ∈ values.map (fun value => (line value).length), slack < size) (n : Nat) :
    Fit slack values n (complete slack (values.map fun value => (line value).length) n) := by
  intro i
  rw [lt_complete_iff h, sum_take_lengths, List.length_map]

end Bytes

/-! ## Lines of ASCII characters -/

section Ascii

variable {β : Type} {parse : String → Option β} {values : List Json.Value} {bs : List β}

theorem Braced.ascii {cs : List Char} (h : Braced cs) : ∀ c ∈ cs, c.toNat < 128 := by
  refine h.forall_mem (P := fun c => c.toNat < 128) (by decide) (by decide) fun c hc => ?_
  have hBounds := bounds_of_isMark hc
  omega

theorem ascii_linesText {ls : List (List Char)} (h : Lines parse ls bs) :
    ∀ c ∈ linesText ls, c.toNat < 128 := by
  induction h with
  | nil => nofun
  | cons hLine _ ih =>
    intro c hc
    rw [linesText_cons, List.mem_append, List.mem_cons] at hc
    rcases hc with hc | rfl | hc
    · exact hLine.braced.ascii c hc
    · decide
    · exact ih c hc

theorem exists_text_of_prefix {text : List Char} (hAscii : ∀ c ∈ text, c.toNat < 128) {cut : Bytes}
    (h : cut <+: Text.encode (String.ofList text)) :
    ∃ p, p <+: text ∧ cut = Text.encode (String.ofList p) ∧ p.length = cut.length := by
  rw [Text.encode_of_ascii hAscii] at h
  have hPrefix := List.take_prefix cut.length text
  have hLength : cut.length ≤ text.length := by simpa using h.length_le
  refine ⟨text.take cut.length, hPrefix, ?_, by rw [List.length_take, Nat.min_eq_left hLength]⟩
  rw [Text.encode_of_ascii fun c hc => hAscii c (hPrefix.subset hc), List.map_take]
  exact List.prefix_iff_eq_take.mp h

theorem getLast?_encode {p : List Char} (hAscii : ∀ c ∈ p, c.toNat < 128) :
    (Text.encode (String.ofList p)).getLast? = some 10 ↔ p.getLast? = some '\n' := by
  rw [Text.encode_of_ascii hAscii, List.getLast?_map, Option.map_eq_some_iff]
  constructor
  · rintro ⟨c, hLast, hByte⟩
    have hBound := hAscii c (List.mem_of_getLast? hLast)
    have hCode : c.toNat = 10 := by
      have hNat := congrArg UInt8.toNat hByte
      rwa [UInt8.toNat_ofNat_of_lt' (Nat.lt_trans hBound (by decide))] at hNat
    rw [hLast, ← Char.ofNat_toNat c, hCode]
  · intro hLast
    exact ⟨'\n', hLast, rfl⟩

theorem length_line_of_braced {value : Json.Value} (h : Braced value.chars) :
    (line value).length = value.chars.length + 1 := by
  rw [line_eq, Text.encode_of_ascii]
  · simp
  · intro c hc
    rcases List.mem_append.mp hc with hc | hc
    · exact h.ascii c hc
    · rw [List.mem_singleton.mp hc]
      decide

theorem sizes_eq_length_line (h : ∀ value ∈ values, Braced value.chars) :
    sizes (values.map Json.Value.chars) = values.map fun value => (line value).length := by
  rw [sizes, List.map_map]
  exact List.map_congr_left fun value hValue => (length_line_of_braced (h value hValue)).symm

theorem fit_complete {slack : Nat} (hSlack : slack ≤ 1) (h : ∀ value ∈ values, Braced value.chars)
    (n : Nat) : Fit slack values n (complete slack (sizes (values.map Json.Value.chars)) n) := by
  rw [sizes_eq_length_line h]
  refine fit_lengths (List.forall_mem_map.mpr fun value hValue => ?_) n
  have hPos := List.length_pos_iff.mpr (h value hValue).ne_nil
  rw [length_line_of_braced (h value hValue)]
  omega

end Ascii

/-! ## Reading -/

section Reading

variable {γ β : Type} {toJson : γ → Json.Value} {parse : String → Option β} {R : γ → β → Prop}
  {as ts : List γ} {fs fs₁ fs₂ : Files} {path : Location} {number : Nat} {cut bytes : Bytes}
  {log log' : Log}

def readLines (parse : String → Option β) (path : Location) : StoreAction (Contents β) :=
  return parseLines parse (← readText path)

theorem gives_readLines {text : String} (h : fs.read path = .ok (Text.encode text)) :
    Gives (readLines parse path) fs (parseLines parse text) fs :=
  Gives.bind_iff.mpr ⟨text, fs, gives_readText h, Gives.pure_iff.mpr ⟨rfl, rfl⟩⟩

theorem exists_lines (h : ∀ a ∈ as, ∃ b, R a b ∧ Line parse (toJson a).chars b) :
    ∃ bs, List.Forall₂ R as bs ∧ Lines parse ((as.map toJson).map Json.Value.chars) bs := by
  induction as with
  | nil => exact ⟨[], .nil, .nil⟩
  | cons a as ih =>
    obtain ⟨hHead, hTail⟩ := List.forall_mem_cons.mp h
    obtain ⟨b, hb, hLine⟩ := hHead
    obtain ⟨bs, hbs, hLines⟩ := ih hTail
    exact ⟨b :: bs, .cons hb hbs, .cons hLine hLines⟩

theorem braced_map (h : ∀ a ∈ as, ∃ b, R a b ∧ Line parse (toJson a).chars b) :
    ∀ value ∈ as.map toJson, Braced value.chars := by
  intro value hValue
  obtain ⟨a, ha, rfl⟩ := List.mem_map.mp hValue
  obtain ⟨b, -, hLine⟩ := h a ha
  exact hLine.braced

/-- Exactly the records with a closing brace within the first `n` bytes are read, and what is there of
another line is malformed. -/
def Recovers (read : StoreAction (Contents β)) (toJson : γ → Json.Value) (R : γ → β → Prop)
    (as : List γ) (n : Nat) (fs : Files) : Prop :=
  ∃ k records, Fit 1 (as.map toJson) n k ∧
    Gives read fs ⟨records, if (((as.map toJson).take k).flatMap line).length < n then 1 else 0⟩ fs ∧
    List.Forall₂ R (as.take k) records

theorem recovers_of_text {bs : List β} {p : List Char}
    (hRows : Rows parse ((as.map toJson).map Json.Value.chars) bs) (hbs : List.Forall₂ R as bs)
    (hPrefix : p <+: linesText ((as.map toJson).map Json.Value.chars))
    (hRead : fs.read path = .ok (Text.encode (String.ofList p))) :
    Recovers (readLines parse path) toJson R as (Text.encode (String.ofList p)).length fs := by
  have hLong := hRows.one_lt .bytes
  have hText := hRows.parseLines_cut .bytes hPrefix
  rw [Measure.sizes_bytes] at hLong hText
  rw [Measure.size_bytes] at hText
  refine ⟨_, _, fit_lengths hLong _, ?_, List.forall₂_take _ hbs⟩
  rw [← sum_take_lengths, ← hText]
  exact gives_readLines hRead

theorem recovers_of_cut (h : ∀ a ∈ as, ∃ b, R a b ∧ Line parse (toJson a).chars b)
    (hProduces : Produces (as.map toJson) bytes) (hCut : cut <+: bytes)
    (hRead : fs.read path = .ok cut) : Recovers (readLines parse path) toJson R as cut.length fs := by
  obtain ⟨bs, hbs, hLines⟩ := exists_lines h
  rw [produces_iff.mp hProduces, flatMap_line] at hCut
  obtain ⟨p, hPrefix, rfl, -⟩ := exists_text_of_prefix (ascii_linesText hLines) hCut
  exact recovers_of_text hLines.rows hbs hPrefix hRead

theorem read_resumed (h : ∀ a ∈ as, ∃ b, R a b ∧ Line parse (toJson a).chars b)
    (h' : ∀ a ∈ ts, ∃ b, R a b ∧ Line parse (toJson a).chars b)
    (hProduces : Produces (as.map toJson) bytes) (hCut : cut <+: bytes)
    (hFile : fs.Stores path number cut) (hOpen : Gives (attach path) fs log fs₁)
    (hAppend : Gives (log.appendAll (ts.map toJson)) fs₁ log' fs₂) :
    ∃ k k₀ contents, Fit 1 (as.map toJson) cut.length k ∧ Fit 0 (as.map toJson) cut.length k₀ ∧
      Gives (readLines parse path) fs₂ contents fs₂ ∧
      (cut = [] ∨ cut.getLast? = some 10 ∨ ts = [] → List.Forall₂ R (as.take k ++ ts) contents.records) ∧
      (¬ (cut = [] ∨ cut.getLast? = some 10 ∨ ts = []) →
        List.Forall₂ R (as.take k₀ ++ ts.tail) contents.records ∧ contents.malformed = 1) := by
  obtain ⟨bs, hbs, hLines⟩ := exists_lines h
  obtain ⟨ds, hds, hMore⟩ := exists_lines h'
  have hBraced := braced_map h
  rw [produces_iff.mp hProduces, flatMap_line] at hCut
  obtain ⟨p, hPrefix, rfl, hLength⟩ := exists_text_of_prefix (ascii_linesText hLines) hCut
  have hAscii : ∀ c ∈ p, c.toNat < 128 := fun c hc => ascii_linesText hLines c (hPrefix.subset hc)
  have hBlank : Text.encode (String.ofList p) = [] ↔ p = [] := by
    rw [← List.length_eq_zero_iff, ← hLength, List.length_eq_zero_iff]
  obtain ⟨hNumber, hStores⟩ := stores_attach hFile hOpen
  have hEnd := atEnd_of_none (gives_attach hOpen).1 (Text.encode (String.ofList p))
  have hStored := stores_appendAll (hNumber ▸ hStores) hEnd hAppend
  have hText : Text.encode (String.ofList p) ++ (ts.map toJson).flatMap line =
      Text.encode (String.ofList (p ++ linesText ((ts.map toJson).map Json.Value.chars))) := by
    rw [flatMap_line, ← Text.encode_append, String.ofList_append]
  rw [hText] at hStored
  refine ⟨_, _, _, fit_complete (Nat.le_refl 1) hBraced _, fit_complete (Nat.zero_le 1) hBraced _,
    gives_readLines hStored.read, ?_⟩
  rw [hBlank, getLast?_encode hAscii, ← hLength]
  constructor
  · rintro hCase
    by_cases hFeed : p = [] ∨ p.getLast? = some '\n'
    · rw [parseLines_resumed hLines hMore hPrefix hFeed]
      exact List.rel_append (List.forall₂_take _ hbs) hds
    · obtain rfl : ts = [] := by tauto
      have hNone : linesText ((([] : List γ).map toJson).map Json.Value.chars) = [] := rfl
      rw [hNone, List.append_nil, List.append_nil, parseLines_cut hLines hPrefix]
      exact List.forall₂_take _ hbs
  · intro hCase
    obtain ⟨hNe, hFeed, hTs⟩ : p ≠ [] ∧ p.getLast? ≠ some '\n' ∧ ts ≠ [] := by tauto
    cases hds with
    | nil => exact absurd rfl hTs
    | cons hd hds =>
      cases hMore with
      | cons hNext hMore =>
        rw [List.map_cons, List.map_cons, parseLines_torn hLines hNext hMore hPrefix hNe hFeed]
        exact ⟨List.rel_append (List.forall₂_take _ hbs) hds, rfl⟩

end Reading

/-! ## Runs and samples -/

theorem logs_read_back_from_any_cut {fs : Files} {path : Location} {bytes cut : Bytes}
    (hCut : cut <+: bytes) (hFile : fs.read path = .ok cut) :
    (∀ (rs : List Run) (fallback : Mode), (∀ r ∈ rs, r.Built ∧ r.Legible) →
      Produces (rs.map fun r => r.toEntry.toJson) bytes →
      Recovers (readRuns path fallback) (fun r => r.toEntry.toJson) Run.Recalled rs cut.length fs) ∧
    (∀ ss : List Sample, (∀ s ∈ ss, s.Recordable) → Produces (ss.map Sample.toJson) bytes →
      Recovers (readSamples path) Sample.toJson Sample.Recalled ss cut.length fs) := by
  constructor
  · intro rs fallback hRuns hProduces
    refine recovers_of_cut (fun r hr => ?_) hProduces hCut hFile
    obtain ⟨hBuilt, hLegible⟩ := hRuns r hr
    exact Run.line_toJson (hBuilt.storable hLegible) fallback
  · intro ss hSamples hProduces
    refine recovers_of_cut (fun s hs => ?_) hProduces hCut hFile
    exact Sample.line_toJson (hSamples s hs).storable

def twoRuns : List Run :=
  [.completed ⟨1, Nat.one_pos, ProgramId.one_bounded⟩ .full 1.5 0,
    (Run.timedOut ⟨2, Nat.two_pos, ProgramId.two_bounded⟩ .fuzz 0.1).withBudget 10.0]

def twoSamples : List Sample :=
  [⟨⟨1, Nat.one_pos, ProgramId.one_bounded⟩, 10.0, 7⟩,
    ⟨⟨2, Nat.two_pos, ProgramId.two_bounded⟩, 0.25, 0⟩]

def onlyLog (bytes : Bytes) : Files := ⟨[(["log"], .file 0)], [bytes]⟩

theorem stores_onlyLog (bytes : Bytes) : (onlyLog bytes).Stores "log" 0 bytes :=
  ⟨⟨["log"], rfl⟩, rfl⟩

theorem built_twoRuns : ∀ r ∈ twoRuns, r.Built ∧ r.Legible := by
  have hLegible : ∀ r ∈ twoRuns, r.Legible := by decide +kernel
  refine fun r hr => ⟨?_, hLegible r hr⟩
  simp only [twoRuns, List.mem_cons, List.not_mem_nil, or_false] at hr
  rcases hr with rfl | rfl
  · exact .completed _ _ _ (by decide)
  · exact .withBudget (.timedOut _ _ _) (by decide +kernel)

/-- Both logs are cut off within their second lines. -/
theorem read_back_from_second_line :
    let runs := (twoRuns.map fun r => r.toEntry.toJson).flatMap line
    let samples := (twoSamples.map Sample.toJson).flatMap line
    (runs.length = 149 ∧ samples.length = 130) ∧
    Recovers (readRuns "log" .full) (fun r => r.toEntry.toJson) Run.Recalled twoRuns
      (runs.take 100).length (onlyLog (runs.take 100)) ∧
    Recovers (readSamples "log") Sample.toJson Sample.Recalled twoSamples (samples.take 100).length
      (onlyLog (samples.take 100)) := by
  intro runs samples
  refine ⟨by decide +kernel, ?_, ?_⟩
  · exact (logs_read_back_from_any_cut (List.take_prefix 100 runs) (stores_onlyLog _).read).1 twoRuns
      .full built_twoRuns (produces_iff.mpr rfl)
  · refine (logs_read_back_from_any_cut (List.take_prefix 100 samples) (stores_onlyLog _).read).2
      twoSamples ?_ (produces_iff.mpr rfl)
    intro s hs
    simp only [twoSamples, List.mem_cons, List.not_mem_nil, or_false] at hs
    rcases hs with rfl | rfl
    · exact ⟨rfl, by decide, by decide +kernel⟩
    · exact ⟨rfl, by decide, by decide +kernel⟩

/-- A log that was cut off and then written on holds all complete records and all new ones exactly if
it was cut off behind a line feed. Otherwise the line that was cut off and the first new record are
lost. -/
theorem resumed_log_complete_iff (fallback : Mode) {rs ts : List Run} {path : Location} {number : Nat}
    {bytes cut : Bytes} {fs fs₁ fs₂ : Files} {log log' : Log}
    (hRuns : ∀ r ∈ rs ++ ts, r.Built ∧ r.Legible)
    (hProduces : Produces (rs.map fun r => r.toEntry.toJson) bytes) (hCut : cut <+: bytes)
    (hFile : fs.Stores path number cut) (hOpen : Gives (attach path) fs log fs₁)
    (hAppend : Gives (log.appendAll (ts.map fun r => r.toEntry.toJson)) fs₁ log' fs₂) :
    ∃ k k₀ contents, Fit 1 (rs.map fun r => r.toEntry.toJson) cut.length k ∧
      Fit 0 (rs.map fun r => r.toEntry.toJson) cut.length k₀ ∧
      Gives (readRuns path fallback) fs₂ contents fs₂ ∧
      (List.Forall₂ Run.Recalled (rs.take k ++ ts) contents.records ↔
        cut = [] ∨ cut.getLast? = some 10 ∨ ts = []) ∧
      (¬ (cut = [] ∨ cut.getLast? = some 10 ∨ ts = []) →
        List.Forall₂ Run.Recalled (rs.take k₀ ++ ts.tail) contents.records ∧ contents.malformed = 1) := by
  have hLine : ∀ r ∈ rs ++ ts, ∃ r', Run.Recalled r r' ∧
      Line (parseRun fallback) r.toEntry.toJson.chars r' := by
    intro r hr
    obtain ⟨hBuilt, hLegible⟩ := hRuns r hr
    exact Run.line_toJson (hBuilt.storable hLegible) fallback
  obtain ⟨k, k₀, contents, hFit, hFit₀, hRead, hWhole, hTorn⟩ :=
    read_resumed (fun r hr => hLine r (List.mem_append_left ts hr))
      (fun r hr => hLine r (List.mem_append_right rs hr)) hProduces hCut hFile hOpen hAppend
  refine ⟨k, k₀, contents, hFit, hFit₀, hRead, ⟨fun hAll => ?_, hWhole⟩, hTorn⟩
  -- A record too few has been read unless nothing was torn.
  by_contra hCase
  have hLength := hAll.length_eq.trans (hTorn hCase).1.length_eq.symm
  have hMono := hFit₀.mono hFit (Nat.zero_le 1)
  have hTs : 0 < ts.length := List.length_pos_iff.mpr fun hNil => hCase (.inr (.inr hNil))
  have hBound : k ≤ rs.length := by simpa using hFit.le_length
  simp only [List.length_append, List.length_take, List.length_tail] at hLength
  omega

theorem gives_attach_onlyLog (bytes : Bytes) :
    Gives (attach "log") (onlyLog bytes) ⟨"log", 0, none⟩ (onlyLog bytes) := by
  have hParent : Files.parent? "log" = some "" := rfl
  have hPlace : (onlyLog bytes).place "log" = .ok ["log"] := rfl
  have hOpen : (onlyLog bytes).openFile "log" = .ok (0, onlyLog bytes) := by
    rw [Files.openFile_eq, hPlace]
    rfl
  refine Gives.bind_iff.mpr ⟨⟨⟩, onlyLog bytes, ?_, Gives.bind_iff.mpr ⟨0, onlyLog bytes, ?_, rfl⟩⟩
  · rw [makeParents, hParent]
    rfl
  · rw [openFile, Gives.get_bind_iff, hOpen]
    rfl

/-- The log was cut off within its second line, and the same runs are recorded once more: the first run
is there once, the second once instead of twice. -/
theorem second_line_torn_and_resumed :
    let values := twoRuns.map fun r => r.toEntry.toJson
    let cut := (values.flatMap line).take 100
    ¬ (cut = [] ∨ cut.getLast? = some 10 ∨ twoRuns = []) ∧
    ∃ k₀ contents log' fs₂,
      Gives (appendAll ⟨"log", 0, none⟩ values) (onlyLog cut) log' fs₂ ∧ Fit 0 values 100 k₀ ∧
      Gives (readRuns "log" .full) fs₂ contents fs₂ ∧
      List.Forall₂ Run.Recalled (twoRuns.take k₀ ++ twoRuns.tail) contents.records ∧
      contents.malformed = 1 := by
  intro values cut
  obtain ⟨hLength, hNe, hLast⟩ : cut.length = 100 ∧ cut ≠ [] ∧ cut.getLast? ≠ some 10 := by
    decide +kernel
  have hTorn : ¬ (cut = [] ∨ cut.getLast? = some 10 ∨ twoRuns = []) := by
    rintro (h | h | h)
    · exact hNe h
    · exact hLast h
    · cases h
  refine ⟨hTorn, ?_⟩
  obtain ⟨log', fs₂, hAppend⟩ := exists_gives_appendAll ⟨"log", 0, none⟩ (onlyLog cut) values
  have hRuns : ∀ r ∈ twoRuns ++ twoRuns, r.Built ∧ r.Legible := by
    intro r hr
    exact built_twoRuns r (by simpa using hr)
  obtain ⟨k, k₀, contents, -, hFit, hRead, -, hLost⟩ :=
    resumed_log_complete_iff .full hRuns (produces_iff.mpr rfl) (List.take_prefix 100 _)
      (stores_onlyLog cut) (gives_attach_onlyLog cut) hAppend
  obtain ⟨hRecords, hMalformed⟩ := hLost hTorn
  rw [hLength] at hFit
  exact ⟨k₀, contents, log', fs₂, hAppend, hFit, hRead, hRecords, hMalformed⟩

/-- A run that is recorded behind the first seven bytes of a line is not read. -/
theorem run_behind_torn_line_lost :
    let value := (Run.completed ⟨1, by decide, by decide⟩ .full 1.5 0).toEntry.toJson
    let cut := (line value).take 7
    Produces [value] (line value) ∧
    Gives (attach "log") (onlyLog cut) ⟨"log", 0, none⟩ (onlyLog cut) ∧
    Gives (append ⟨"log", 0, none⟩ value) (onlyLog cut) ⟨"log", 0, none⟩
      (onlyLog (cut ++ line value)) ∧
    ∃ contents fs', Gives (readRuns "log" .full) (onlyLog (cut ++ line value)) contents fs' ∧
      (contents.records.isEmpty && contents.malformed == 1) = true := by
  intro value cut
  refine ⟨produces_iff.mpr (by simp), gives_attach_onlyLog cut, rfl, Gives.exists_of_any ?_⟩
  decide +kernel

end Reanalysis.Log
