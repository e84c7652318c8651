import Mathlib.Algebra.Order.Ring.Nat
import Mathlib.Data.List.Forall2
import Reanalysis.Log.Basic
import Reanalysis.Proofs.Json.Balance
import Reanalysis.Proofs.Json.Decimal

/-!
# Lines of a log

A log line is an object without brackets inside. A piece of a line leaves a bracket or a string open,
and a line right behind such a piece closes neither, so no reader takes one of these for a record. From
this it follows what is read when a log is cut off at any point, and when it is written on afterwards.
-/

namespace Reanalysis.Log

open Json Json.Nesting
open Text (linesText linesText_cons)

variable {α β γ : Type} {r : Reader α} {p cs ds : List Char}

/-! ## Pieces of a line -/

/-- An object without brackets inside, written with marks only. -/
def Braced (cs : List Char) : Prop := ∃ body, cs = '\x7b' :: (body ++ ['\x7d']) ∧ Marked body

theorem Braced.ne_nil (h : Braced cs) : cs ≠ [] := by
  obtain ⟨body, rfl, -⟩ := h
  simp

theorem Braced.forall_mem (h : Braced cs) {P : Char → Prop} (hOpen : P '\x7b') (hClose : P '\x7d')
    (hMark : ∀ c, isMark c = true → P c) : ∀ c ∈ cs, P c := by
  obtain ⟨body, rfl, hBody⟩ := h
  intro c hc
  simp only [List.mem_cons, List.mem_append, List.not_mem_nil, or_false] at hc
  rcases hc with rfl | hc | rfl
  · exact hOpen
  · exact hMark c (hBody c hc)
  · exact hClose

theorem bounds_of_isMark {c : Char} (h : isMark c = true) : 33 ≤ c.toNat ∧ c.toNat < 127 := by
  simp only [isMark, Bool.or_eq_true] at h
  rcases h with h | h
  · delta Char.isAlphanum Char.isAlpha Char.isUpper Char.isLower Char.isDigit at h
    simp only [ge_iff_le, Bool.or_eq_true, Bool.and_eq_true, decide_eq_true_eq,
      UInt32.le_iff_toNat_le, Char.toNat_val, Char.reduceToNat] at h
    omega
  · have hAll : "-+._,:\"".toList.all (fun d => 33 ≤ d.toNat ∧ d.toNat < 127) = true := by decide
    exact of_decide_eq_true (List.all_eq_true.mp hAll c (by simpa using h))

theorem ne_of_isMark {c d : Char} (h : isMark c = true) (hd : isMark d = false) : c ≠ d := by
  rintro rfl
  rw [h] at hd
  cases hd

theorem step_of_ne_backslash {s : Nesting} (hEscaped : s.escaped = false) {c : Char} (h : c ≠ '\\') :
    (s.step c).escaped = false ∧ (s.step c).inside = (s.inside ^^ c = '"') := by
  by_cases hQuote : c = '"'
  · simp [step, hEscaped, hQuote]
  · unfold step
    split_ifs <;> simp_all

theorem inside_past {s : Nesting} (hEscaped : s.escaped = false) (h : '\\' ∉ cs) :
    (s.past cs).escaped = false ∧ (s.past cs).inside = (s.inside ^^ cs.count '"' % 2 = 1) := by
  induction cs generalizing s with
  | nil => simp [hEscaped]
  | cons c cs ih =>
    obtain ⟨hc, hcs⟩ := not_or.mp (List.mem_cons.not.mp h)
    obtain ⟨hStep, hFlip⟩ := step_of_ne_backslash hEscaped (Ne.symm hc)
    obtain ⟨hPast, hInside⟩ := ih hStep hcs
    refine ⟨hPast, ?_⟩
    rw [past_cons, hInside, hFlip, List.count_cons]
    by_cases hQuote : c = '"'
    · have hParity : decide ((cs.count '"' + 1) % 2 = 1) = !decide (cs.count '"' % 2 = 1) := by
        rw [← decide_not]
        exact decide_eq_decide.mpr (by omega)
      simp [hQuote, hParity]
    · simp [hQuote]

theorem depth_past {s : Nesting} (h : Marked cs) : (s.past cs).depth = s.depth := by
  induction cs generalizing s with
  | nil => rfl
  | cons c cs ih =>
    obtain ⟨hc, hcs⟩ := marked_cons.mp h
    have hOpening : isOpening c = false := by
      simp [isOpening, ne_of_isMark hc (show isMark '[' = false by decide),
        ne_of_isMark hc (show isMark '\x7b' = false by decide)]
    have hClosing : isClosing c = false := by
      simp [isClosing, ne_of_isMark hc (show isMark ']' = false by decide),
        ne_of_isMark hc (show isMark '\x7d' = false by decide)]
    rw [past_cons, ih hcs, step]
    split_ifs <;> simp_all

theorem not_mem_of_marked (h : Marked cs) {d : Char} (hd : isMark d = false) : d ∉ cs :=
  fun hMem => ne_of_isMark (h d hMem) hd rfl

theorem past_piece (h : Braced cs) (hPrefix : p <+: cs) (hNe : p ≠ []) (hProper : p ≠ cs) :
    ∃ inside, (outsideAt 0).past p = ⟨inside, false, 1⟩ := by
  obtain ⟨body, rfl, hBody⟩ := h
  cases p with
  | nil => exact absurd rfl hNe
  | cons c q =>
    obtain ⟨rfl, hq⟩ := List.cons_prefix_cons.mp hPrefix
    have hMarked : Marked q := by
      rcases List.prefix_concat_iff.mp hq with rfl | hInner
      · exact absurd rfl hProper
      · exact fun c hc => hBody c (hInner.subset hc)
    obtain ⟨hEscaped, -⟩ := inside_past (s := outsideAt 1) rfl
      (not_mem_of_marked hMarked (show isMark '\\' = false by decide))
    refine ⟨((outsideAt 1).past q).inside, ?_⟩
    rw [past_cons, step_opening (.inr rfl), Int.zero_add]
    exact Nesting.ext rfl hEscaped (depth_past hMarked)

theorem Braced.no_backslash (h : Braced cs) : '\\' ∉ cs := by
  intro hMem
  exact h.forall_mem (P := (· ≠ '\\')) (by decide) (by decide)
    (fun c hc => ne_of_isMark hc (by decide)) _ hMem rfl

section Pieces

variable (hKeeps : Keeps r)
include hKeeps

theorem not_read_piece (h : Braced cs) (hPrefix : p <+: cs) (hNe : p ≠ []) (hProper : p ≠ cs) (a : α) :
    readWhole r p ≠ .ok a := by
  intro hRead
  obtain ⟨inside, hPast⟩ := past_piece h hPrefix hNe hProper
  have hBalance := hKeeps.readWhole hRead 0
  rw [hPast] at hBalance
  exact absurd (congrArg Nesting.depth hBalance) (by simp [outsideAt])

/-- A line right behind a piece of another line closes nothing that the piece has opened. -/
theorem not_read_merged (h : Braced cs) (hPrefix : p <+: cs) (hNe : p ≠ []) (hProper : p ≠ cs)
    (hNext : Braced ds) {b : α} (hRead : readWhole r ds = .ok b) (a : α) :
    readWhole r (p ++ ds) ≠ .ok a := by
  intro hMerged
  obtain ⟨inside, hPast⟩ := past_piece h hPrefix hNe hProper
  have hBalance := hKeeps.readWhole hMerged 0
  rw [past_append, hPast] at hBalance
  cases inside with
  | false =>
    have hLine : (⟨false, false, 1⟩ : Nesting).past ds = outsideAt 1 := hKeeps.readWhole hRead 1
    rw [hLine] at hBalance
    exact absurd (congrArg Nesting.depth hBalance) (by decide)
  | true =>
    -- The strings of the line and what lies between them change places.
    obtain ⟨-, hInside⟩ := inside_past (s := ⟨true, false, 1⟩) rfl hNext.no_backslash
    obtain ⟨-, hOutside⟩ := inside_past (s := outsideAt 0) rfl hNext.no_backslash
    rw [hBalance] at hInside
    rw [hKeeps.readWhole hRead 0] at hOutside
    simp_all [outsideAt]

end Pieces

/-! ## Line by line -/

/-- The contents with one more line in front. -/
def Contents.push (line : Option β) (c : Contents β) : Contents β :=
  match line with
  | some b => ⟨b :: c.records, c.malformed⟩
  | none => ⟨c.records, c.malformed + 1⟩

/-- A text that has a line for itself, without blanks at its ends. -/
structure OneLine (l : List Char) : Prop where
  ne_nil : l ≠ []
  no_feed : '\n' ∉ l
  no_return : '\r' ∉ l
  trimmed : Text.trim (String.ofList l) = String.ofList l

theorem oneLine_of_not_blank {l : List Char} (hNe : l ≠ []) (h : ∀ c ∈ l, Text.isBlank c = false) :
    OneLine l where
  ne_nil := hNe
  no_feed := fun hMem => absurd (h _ hMem) (by decide)
  no_return := fun hMem => absurd (h _ hMem) (by decide)
  trimmed := Text.trim_of_not_blank h

section Parsing

variable {parse : String → Option β} {l : List Char}

theorem parseLines_of_lines {text rest : String} (h : OneLine l)
    (hLines : Text.lines text = String.ofList l :: Text.lines rest) :
    parseLines parse text = (parseLines parse rest).push (parse (String.ofList l)) := by
  have hText : String.ofList l ≠ "" := by simpa using h.ne_nil
  rw [parseLines, parseLines, hLines, List.map_cons, h.trimmed,
    List.filter_cons_of_pos (by simpa using hText)]
  cases hParse : parse (String.ofList l) with
  | some b => simp [Contents.push, hParse]
  | none => simp [Contents.push, hParse]

theorem parseLines_line (h : OneLine l) (rest : List Char) :
    parseLines parse (String.ofList (l ++ '\n' :: rest)) =
      (parseLines parse (String.ofList rest)).push (parse (String.ofList l)) := by
  apply parseLines_of_lines h
  rw [Text.lines, Text.lines, String.toList_ofList, String.toList_ofList,
    Text.linesFrom_append h.no_feed, List.reverse_nil, List.nil_append,
    Text.dropReturn_of_not_mem h.no_return, List.map_cons]

theorem parseLines_last (h : OneLine l) :
    parseLines parse (String.ofList l) = Contents.push (parse (String.ofList l)) ⟨[], 0⟩ := by
  have hLines : Text.lines (String.ofList l) = String.ofList l :: Text.lines "" := by
    rw [Text.lines, String.toList_ofList, Text.linesFrom_of_not_mem h.no_feed [] h.ne_nil]
    rfl
  exact parseLines_of_lines h hLines

/-! ## Logs that were cut off -/

/-- A line that is read as a record. A piece of it is none, and neither is what becomes of a piece, or
of the whole line, when a line is written right behind it. -/
structure Line (parse : String → Option β) (cs : List Char) (b : β) : Prop where
  braced : Braced cs
  parsed : parse (String.ofList cs) = some b
  piece : ∀ p, p <+: cs → p ≠ [] → p ≠ cs → parse (String.ofList p) = none
  merged : ∀ p ds c, p <+: cs → p ≠ [] → Braced ds → parse (String.ofList ds) = some c →
    parse (String.ofList (p ++ ds)) = none

theorem line_of_reader (hKeeps : Keeps r)
    (hParse : ∀ cs b, parse (String.ofList cs) = some b → ∃ a, readWhole r cs = .ok a) {a : α} {b : β}
    (hBraced : Braced cs) (hRun : ∀ rest, r.run (cs ++ rest) = .ok (a, rest))
    (hParsed : parse (String.ofList cs) = some b) : Line parse cs b := by
  have hNone {p : List Char} (h : ∀ a, readWhole r p ≠ .ok a) : parse (String.ofList p) = none := by
    rw [Option.eq_none_iff_forall_ne_some]
    intro b' hb'
    obtain ⟨a', ha'⟩ := hParse p b' hb'
    exact h a' ha'
  refine ⟨hBraced, hParsed, ?_, ?_⟩
  · intro p hPrefix hNe hProper
    exact hNone (not_read_piece hKeeps hBraced hPrefix hNe hProper)
  · intro p ds c hPrefix hNe hNext hc
    obtain ⟨a', hRead⟩ := hParse ds c hc
    apply hNone
    by_cases hWhole : p = cs
    · -- The record is read to its end, and what follows is not blank.
      intro a'' hMerged
      obtain ⟨body, rfl, -⟩ := hNext
      rw [hWhole, readWhole, hRun] at hMerged
      cases hMerged
    · exact not_read_merged hKeeps hBraced hPrefix hNe hWhole hNext hRead

theorem Braced.not_blank (h : Braced cs) : ∀ c ∈ cs, Text.isBlank c = false := by
  apply h.forall_mem (P := fun c => Text.isBlank c = false) (by decide) (by decide)
  intro c hc
  obtain ⟨hLower, hUpper⟩ := bounds_of_isMark hc
  simp only [Text.isBlank, Bool.or_eq_false_iff, Bool.and_eq_false_iff, decide_eq_false_iff_not,
    beq_eq_false_iff_ne, ne_eq]
  omega

/-- How many of the lines lie within the first `n` bytes, given the lengths of the lines. The last
`slack` bytes of a line may be missing. -/
def complete (slack : Nat) : List Nat → Nat → Nat
  | [], _ => 0
  | size :: sizes, n => if size ≤ n + slack then complete slack sizes (n - size) + 1 else 0

def sizes (ls : List (List Char)) : List Nat := ls.map fun l => l.length + 1

end Parsing

/-- How much each character counts for. -/
structure Measure where
  weight : Char → Nat
  pos : ∀ c, 0 < weight c
  feed : weight '\n' = 1

namespace Measure

variable (w : Measure) {l q : List Char}

def size (cs : List Char) : Nat := (cs.map w.weight).sum

def sizes (ls : List (List Char)) : List Nat := ls.map fun l => w.size l + 1

def characters : Measure := ⟨fun _ => 1, fun _ => Nat.one_pos, rfl⟩

theorem size_append : w.size (l ++ q) = w.size l + w.size q := by
  rw [size, List.map_append, List.sum_append, size, size]

theorem size_line : w.size (l ++ '\n' :: q) = w.size l + 1 + w.size q := by
  rw [size_append, size, size, size, List.map_cons, List.sum_cons, w.feed, Nat.add_assoc]

theorem size_pos (h : l ≠ []) : 0 < w.size l := by
  cases l with
  | nil => exact absurd rfl h
  | cons c l =>
    rw [size, List.map_cons, List.sum_cons]
    exact Nat.add_pos_left (w.pos c) _

theorem size_lt (h : q <+: l) (hProper : q ≠ l) : w.size q < w.size l := by
  obtain ⟨rest, rfl⟩ := h
  have hRest : rest ≠ [] := by
    rintro rfl
    exact hProper (List.append_nil q).symm
  rw [size_append]
  exact Nat.lt_add_of_pos_right (w.size_pos hRest)

theorem size_characters (cs : List Char) : characters.size cs = cs.length := by
  simp [size, characters]

theorem sizes_characters (ls : List (List Char)) : characters.sizes ls = Log.sizes ls := by
  simp [sizes, Log.sizes, size_characters]

end Measure

section Cut

variable {parse : String → Option β} {l : List Char} {ls ks : List (List Char)} {bs ds : List β}

abbrev Lines (parse : String → Option β) : List (List Char) → List β → Prop :=
  List.Forall₂ (Line parse)

/-- A line that is read as a record, and of which no piece is. -/
structure Row (parse : String → Option β) (cs : List Char) (b : β) : Prop where
  oneLine : OneLine cs
  parsed : parse (String.ofList cs) = some b
  piece : ∀ p, p <+: cs → p ≠ [] → p ≠ cs → parseLines parse (String.ofList p) = ⟨[], 1⟩

abbrev Rows (parse : String → Option β) : List (List Char) → List β → Prop :=
  List.Forall₂ (Row parse)

theorem Line.row {b : β} (h : Line parse l b) : Row parse l b := by
  refine ⟨oneLine_of_not_blank h.braced.ne_nil h.braced.not_blank, h.parsed, ?_⟩
  intro p hPiece hNe hProper
  have hBlank : ∀ c ∈ p, Text.isBlank c = false := fun c hc => h.braced.not_blank c (hPiece.subset hc)
  rw [parseLines_last (oneLine_of_not_blank hNe hBlank), h.piece p hPiece hNe hProper]
  rfl

theorem Row.parseLines_push {b : β} (h : Row parse l b) (rest : List Char) :
    parseLines parse (String.ofList (l ++ '\n' :: rest)) =
      (parseLines parse (String.ofList rest)).push (some b) := by
  rw [parseLines_line h.oneLine, h.parsed]

theorem parseLines_push {b : β} (h : Line parse l b) (rest : List Char) :
    parseLines parse (String.ofList (l ++ '\n' :: rest)) =
      (parseLines parse (String.ofList rest)).push (some b) :=
  h.row.parseLines_push rest

theorem parseLines_lines (h : Lines parse ls bs) :
    parseLines parse (String.ofList (linesText ls)) = ⟨bs, 0⟩ := by
  induction h with
  | nil => rfl
  | cons hLine _ ih => rw [linesText_cons, parseLines_push hLine, ih, Contents.push]

section Counting

variable {slack size n : Nat} {ns : List Nat}

theorem complete_cons_add : complete slack (size :: ns) (size + n) = complete slack ns n + 1 := by
  rw [complete, if_pos (by omega), Nat.add_sub_cancel_left]

theorem complete_cons_of_lt (h : n + slack < size) : complete slack (size :: ns) n = 0 := by
  rw [complete, if_neg (by omega)]

theorem complete_zero (h : ∀ size ∈ ns, slack < size) : complete slack ns 0 = 0 := by
  cases ns with
  | nil => rfl
  | cons size ns =>
    have hSize := h size List.mem_cons_self
    exact complete_cons_of_lt (by omega)

variable (slack) (l q : List Char) (ls : List (List Char))

theorem complete_line : complete slack (sizes (l :: ls)) (l ++ '\n' :: q).length =
    complete slack (sizes ls) q.length + 1 := by
  have hLength : (l ++ '\n' :: q).length = l.length + 1 + q.length := by
    rw [List.length_append, List.length_cons]
    omega
  rw [hLength, sizes, List.map_cons, complete_cons_add, sizes]

theorem complete_piece (h : n + slack ≤ l.length) : complete slack (sizes (l :: ls)) n = 0 :=
  complete_cons_of_lt (Nat.lt_succ_of_le h)

end Counting

theorem Rows.one_lt (w : Measure) (h : Rows parse ls bs) : ∀ size ∈ w.sizes ls, 1 < size := by
  induction h with
  | nil => exact List.forall_mem_nil _
  | cons hRow _ ih =>
    exact List.forall_mem_cons.mpr ⟨Nat.lt_add_of_pos_left (w.size_pos hRow.oneLine.ne_nil), ih⟩

/-- From a text that is cut off anywhere the records are read whose lines are there, up to the line
feed; what is there of another line counts as malformed. -/
theorem Rows.parseLines_cut (w : Measure) (h : Rows parse ls bs) (hCut : p <+: linesText ls) :
    parseLines parse (String.ofList p) =
      let k := complete 1 (w.sizes ls) (w.size p)
      ⟨bs.take k, if ((w.sizes ls).take k).sum < w.size p then 1 else 0⟩ := by
  induction h generalizing p with
  | nil =>
    rw [List.prefix_nil.mp hCut]
    rfl
  | @cons l b ls bs hRow hRows ih =>
    rw [linesText_cons] at hCut
    have hSizes : w.sizes (l :: ls) = (w.size l + 1) :: w.sizes ls := rfl
    rw [hSizes]
    rcases Text.prefix_line_cases hCut with hPiece | ⟨q, rfl, hq⟩
    · by_cases hWhole : p = l
      · have hCount : complete 1 ((w.size l + 1) :: w.sizes ls) (w.size l) = 1 := by
          rw [complete, if_pos (Nat.le_refl _), Nat.sub_eq_zero_of_le (Nat.le_succ _),
            complete_zero (Rows.one_lt w hRows)]
        rw [hWhole, parseLines_last hRow.oneLine, hRow.parsed, hCount]
        simp [Contents.push]
      · have hShort := w.size_lt hPiece hWhole
        rw [complete_cons_of_lt (by omega)]
        by_cases hNil : p = []
        · rw [hNil]
          rfl
        · rw [hRow.piece p hPiece hNil hWhole]
          simp [w.size_pos hNil]
    · rw [hRow.parseLines_push, ih hq, w.size_line, complete_cons_add]
      refine congrArg (Contents.mk (b :: _)) (if_congr ?_ rfl rfl)
      rw [List.take_succ_cons, List.sum_cons, Nat.add_lt_add_iff_left]

theorem Lines.rows (h : Lines parse ls bs) : Rows parse ls bs := h.imp fun _ _ hLine => hLine.row

theorem parseLines_cut (h : Lines parse ls bs) (hCut : p <+: linesText ls) :
    parseLines parse (String.ofList p) =
      let k := complete 1 (sizes ls) p.length
      ⟨bs.take k, if ((sizes ls).take k).sum < p.length then 1 else 0⟩ := by
  rw [h.rows.parseLines_cut .characters hCut, Measure.sizes_characters, Measure.size_characters]

/-! ## Logs that are written on -/

theorem getLast?_line (l q : List Char) :
    (l ++ '\n' :: q).getLast? = if q = [] then some '\n' else q.getLast? := by
  cases q with
  | nil => simp
  | cons c q => rw [List.getLast?_append_of_ne_nil _ (by simp), List.getLast?_cons_cons, if_neg (by simp)]

theorem Braced.feed_not_mem (h : Braced cs) (hPiece : p <+: cs) : p.getLast? ≠ some '\n' := by
  intro hLast
  have hMem := hPiece.subset (List.mem_of_getLast? hLast)
  exact absurd (h.not_blank _ hMem) (by decide)

/-- Where a log ends with its last line, nothing is lost. -/
theorem parseLines_resumed (h : Lines parse ls bs) (hMore : Lines parse ks ds)
    (hCut : p <+: linesText ls) (hEnd : p = [] ∨ p.getLast? = some '\n') :
    parseLines parse (String.ofList (p ++ linesText ks)) =
      ⟨bs.take (complete 1 (sizes ls) p.length) ++ ds, 0⟩ := by
  induction h generalizing p with
  | nil =>
    rw [List.prefix_nil.mp hCut, List.nil_append, parseLines_lines hMore]
    rfl
  | @cons l b ls bs hLine hLines ih =>
    rw [linesText_cons] at hCut
    rcases Text.prefix_line_cases hCut with hPiece | ⟨q, rfl, hq⟩
    · rcases hEnd with rfl | hEnd
      · rw [List.nil_append, parseLines_lines hMore, List.length_nil,
          ← Measure.sizes_characters, complete_zero (Rows.one_lt _ (Lines.rows (.cons hLine hLines)))]
        rfl
      · exact absurd hEnd (hLine.braced.feed_not_mem hPiece)
    · have hRest : q = [] ∨ q.getLast? = some '\n' := by
        by_cases hq : q = []
        · exact .inl hq
        · rw [getLast?_line, if_neg hq] at hEnd
          exact .inr (hEnd.resolve_left (by simp))
      rw [List.append_assoc, List.cons_append, parseLines_push hLine, ih hq hRest, complete_line]
      rfl

/-- Where a log ends within a line, or right before its line feed, that line and the next record are
lost. -/
theorem parseLines_torn {k : List Char} {d : β} (h : Lines parse ls bs) (hNext : Line parse k d)
    (hMore : Lines parse ks ds) (hCut : p <+: linesText ls) (hNe : p ≠ [])
    (hTorn : p.getLast? ≠ some '\n') :
    parseLines parse (String.ofList (p ++ linesText (k :: ks))) =
      ⟨bs.take (complete 0 (sizes ls) p.length) ++ ds, 1⟩ := by
  induction h generalizing p with
  | nil => exact absurd (List.prefix_nil.mp hCut) hNe
  | @cons l b ls bs hLine hLines ih =>
    rw [linesText_cons] at hCut
    rcases Text.prefix_line_cases hCut with hPiece | ⟨q, rfl, hq⟩
    · have hBlank : ∀ c ∈ p ++ k, Text.isBlank c = false := by
        intro c hc
        rcases List.mem_append.mp hc with hc | hc
        · exact hLine.braced.not_blank c (hPiece.subset hc)
        · exact hNext.braced.not_blank c hc
      have hMerged := hLine.merged p k d hPiece hNe hNext.braced hNext.parsed
      rw [linesText_cons, ← List.append_assoc,
        parseLines_line (oneLine_of_not_blank (by simp [hNe]) hBlank), hMerged,
        parseLines_lines hMore, complete_piece 0 _ _ hPiece.length_le]
      rfl
    · by_cases hEmpty : q = []
      · exact absurd (by rw [getLast?_line, if_pos hEmpty]) hTorn
      · rw [getLast?_line, if_neg hEmpty] at hTorn
        rw [List.append_assoc, List.cons_append, parseLines_push hLine, ih hq hEmpty hTorn,
          complete_line]
        rfl

theorem lt_complete_iff {slack : Nat} {ns : List Nat} (h : ∀ size ∈ ns, slack < size) (i n : Nat) :
    i < complete slack ns n ↔ i < ns.length ∧ (ns.take (i + 1)).sum ≤ n + slack := by
  induction ns generalizing i n with
  | nil => simp [complete]
  | cons size ns ih =>
    obtain ⟨hSize, hSizes⟩ := List.forall_mem_cons.mp h
    rw [complete, List.take_succ_cons, List.sum_cons, List.length_cons]
    split
    · cases i with
      | zero => simp; omega
      | succ i =>
        rw [Nat.add_lt_add_iff_right, ih hSizes, Nat.add_lt_add_iff_right, and_congr_right_iff]
        intro hi
        have hNext : slack < (ns.take (i + 1)).sum := by
          cases ns with
          | nil => cases hi
          | cons next ns =>
            rw [List.take_succ_cons, List.sum_cons]
            have := hSizes next List.mem_cons_self
            omega
        omega
    · omega

end Cut

end Reanalysis.Log
