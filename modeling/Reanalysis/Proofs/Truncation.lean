import Reanalysis.Proofs.Document
import Reanalysis.Proofs.Json.Grounded

/-!
# Diff documents that are cut off

A document that is cut off has some of its lines left and perhaps a piece of the next one. A piece of
a line is not read, as its brace is still open; whole lines are too few for the number that the header
announces.
-/

namespace Reanalysis

/-! ## Cut texts and their lines -/

namespace Text

/-- The line can be told from its neighbours. -/
structure IsLine (l : List Char) : Prop where
  ne_nil : l ≠ []
  no_feed : '\n' ∉ l
  no_return : '\r' ∉ l

theorem IsLine.linesFrom_append {l : List Char} (h : IsLine l) (rest : List Char) :
    linesFrom [] (l ++ '\n' :: rest) = l :: linesFrom [] rest := by
  rw [Text.linesFrom_append h.no_feed, List.reverse_nil, List.nil_append,
    dropReturn_of_not_mem h.no_return]

theorem IsLine.linesFrom_self {l : List Char} (h : IsLine l) : linesFrom [] l = [l] :=
  linesFrom_of_not_mem h.no_feed [] h.ne_nil

theorem linesFrom_piece {l p : List Char} (h : IsLine l) (hPrefix : p <+: l) (hNe : p ≠ []) :
    linesFrom [] p = [p] :=
  linesFrom_of_not_mem (fun hFeed => h.no_feed (hPrefix.subset hFeed)) [] hNe

/-- The lines `rows` of a cut text: too few of the lines, or a piece at their end. -/
inductive Cut : List (List Char) → List (List Char) → Prop
  | short {ls : List (List Char)} {k : Nat} : k < ls.length → Cut ls (ls.take k)
  | piece {ls : List (List Char)} {k : Nat} {l p : List Char} : ls[k]? = some l → p <+: l → p ≠ [] →
      p ≠ l → Cut ls (ls.take k ++ [p])

theorem Cut.cons {ls rows : List (List Char)} (h : Cut ls rows) (l : List Char) :
    Cut (l :: ls) (l :: rows) := by
  cases h with
  | @short k hk => exact .short (k := k + 1) (Nat.succ_lt_succ hk)
  | @piece k l' p hl hPrefix hNe hProper => exact .piece (k := k + 1) hl hPrefix hNe hProper

/-- What is left of a text has all of its lines only if at most the last line feed is missing. -/
theorem cut_linesFrom {ls : List (List Char)} (h : ∀ l ∈ ls, IsLine l) {p : List Char}
    (hp : p <+: linesText ls) :
    Cut ls (linesFrom [] p) ∨ p = linesText ls ∨ p ++ ['\n'] = linesText ls := by
  induction ls generalizing p with
  | nil => exact .inr (.inl (List.prefix_nil.mp hp))
  | cons l ls ih =>
    have hLine := h l List.mem_cons_self
    rw [linesText_cons] at hp ⊢
    rcases prefix_line_cases hp with hPiece | ⟨q, rfl, hq⟩
    · by_cases hEmpty : p = []
      · subst hEmpty
        exact .inl (.short (k := 0) (Nat.succ_pos _))
      · rw [linesFrom_piece hLine hPiece hEmpty]
        by_cases hWhole : p = l
        · subst hWhole
          cases ls with
          | nil => exact .inr (.inr rfl)
          | cons next ls => exact .inl (.short (k := 1) (by simp))
        · exact .inl (.piece (k := 0) rfl hPiece hEmpty hWhole)
    · rw [hLine.linesFrom_append]
      rcases ih (fun l' hl' => h l' (List.mem_cons_of_mem _ hl')) hq with hCut | rfl | hLast
      · exact .inl (hCut.cons l)
      · exact .inr (.inl rfl)
      · exact .inr (.inr (by simp [← hLast]))

theorem linesText_concat (ls : List (List Char)) (l : List Char) :
    linesText (ls ++ [l]) = linesText ls ++ l ++ ['\n'] := by
  simp [linesText]

theorem linesFrom_linesText_append {ls : List (List Char)} (h : ∀ l ∈ ls, IsLine l)
    (rest : List Char) : linesFrom [] (linesText ls ++ rest) = ls ++ linesFrom [] rest := by
  induction ls with
  | nil => rfl
  | cons l ls ih =>
    have hLine := h l List.mem_cons_self
    rw [linesText_cons, List.append_assoc, List.cons_append, hLine.linesFrom_append,
      ih fun l' hl' => h l' (List.mem_cons_of_mem _ hl')]
    rfl

theorem linesFrom_unended {ls : List (List Char)} (h : ∀ l ∈ ls, IsLine l) {p : List Char}
    (hp : p ++ ['\n'] = linesText ls) : linesFrom [] p = ls := by
  rcases List.eq_nil_or_concat ls with rfl | ⟨init, last, rfl⟩
  · simp [linesText] at hp
  · rw [List.concat_eq_append] at h hp ⊢
    rw [linesText_concat] at hp
    obtain rfl := List.append_cancel_right hp
    rw [linesFrom_linesText_append fun l hl => h l (List.mem_append_left _ hl),
      (h last (List.mem_append_right _ List.mem_cons_self)).linesFrom_self]

end Text

/-! ## Readers of whole lines -/

open Json (Keeps keeps_required keeps_optional)

theorem Path.keeps_reader : Keeps Path.reader := Json.keeps_string.refined _

theorem Site.keeps_reader : Keeps Site.reader := by
  apply Json.keeps_record
  intro m hm d
  simp only [Site.fields, List.mem_cons, List.not_mem_nil, or_false] at hm
  rcases hm with rfl | rfl | rfl
  · exact keeps_required Path.keeps_reader d
  · exact keeps_required Json.keeps_string d
  · exact keeps_required (Json.keeps_typedNumber _) d

theorem Change.keeps_reader : Keeps Change.reader := by
  apply Json.keeps_record
  intro m hm d
  simp only [Change.fields, List.mem_cons, List.not_mem_nil, or_false] at hm
  rcases hm with rfl | rfl | rfl | rfl | rfl | rfl | rfl | rfl
  · exact keeps_required (Json.keeps_named _) d
  · exact keeps_required Path.keeps_reader d
  · exact keeps_optional Path.keeps_reader d
  · exact keeps_optional (Json.keeps_typedNumber _) d
  · exact keeps_optional (Json.keeps_typedNumber _) d
  · exact keeps_optional Json.keeps_string d
  · exact keeps_optional Json.keeps_string d
  · exact keeps_optional Site.keeps_reader d

namespace Diff

namespace Header

theorem keeps_fields (m : Json.Member Draft) (hm : m ∈ fields) (d : Draft) : Keeps (m.read d) := by
  simp only [fields, List.mem_cons, List.not_mem_nil, or_false] at hm
  rcases hm with rfl | rfl | rfl | rfl
  · exact keeps_required ((Json.keeps_typedNumber _).refined _) d
  · exact keeps_required (Json.keeps_string.refined _) d
  · exact keeps_required (Json.keeps_string.refined _) d
  · exact keeps_required (Json.keeps_typedNumber _) d

theorem keeps_keep (name : String) (d : Draft) : Keeps (keep name d) :=
  Json.keeps_colon.bind fun _ => (Json.keeps_value _).captured.bind fun _ => Json.keeps_pure _

theorem keeps_reader : Keeps reader := by
  intro depth cs
  refine Json.carries_lookValue_bind fun c tail => ?_
  split
  · rename_i hOpen
    refine Json.carries_advance_bind ?_
    rw [Json.step_opening (.inr hOpen)]
    refine Json.carries_bind (Json.carries_members (Json.keeps_memberOf keeps_fields keeps_keep) {})
      fun d rest => ?_
    split
    · exact Json.carries_pure _
    · exact Json.carries_throw _
  split
  · exact Json.carries_throw _
  · exact Json.carries_mismatch c

end Header

/-! ## Documents -/

namespace Document

variable {d : Document}

theorem isLine_of_mem_lines (h : d.Fits) : ∀ l ∈ d.lines.map String.toList, Text.IsLine l := by
  intro cs hcs
  obtain ⟨l, hl, rfl⟩ := List.mem_map.mp hcs
  obtain ⟨⟨hFeed, hReturn⟩, hBlank⟩ := mem_lines h hl
  refine ⟨?_, hFeed, hReturn⟩
  intro hNil
  rw [Text.isBlankText, hNil] at hBlank
  cases hBlank

theorem toList_render (d : Document) :
    d.render.toList = Text.linesText (d.lines.map String.toList) := by
  simp [render, String.toList_join, Text.linesText, List.flatMap_map]

/-- A piece of a line is not blank, and neither kind of line is read from it. -/
theorem not_read_piece (h : d.Fits) {l : String} (hl : l ∈ d.lines) {p : List Char}
    (hPrefix : p <+: l.toList) (hNe : p ≠ []) (hProper : p ≠ l.toList) :
    Text.isBlankText (String.ofList p) = false ∧
      ∀ {α : Type} {r : Json.Reader α}, Keeps r → ∃ e, readLine r (String.ofList p) = .error e := by
  obtain ⟨depth, kvs, hPlain, rfl⟩ := exists_object_of_mem_lines h hl
  rw [Json.Value.render, String.toList_ofList] at hPrefix hProper
  constructor
  · rw [Text.isBlankText, String.toList_ofList]
    cases p with
    | nil => exact absurd rfl hNe
    | cons c p =>
      rw [Json.Value.chars] at hPrefix
      obtain ⟨rfl, _⟩ := List.cons_prefix_cons.mp hPrefix
      rfl
  · intro α r hKeeps
    rw [readLine, Json.read, String.toList_ofList]
    cases hRead : Json.readWhole r p with
    | ok a => exact absurd hRead (hKeeps.not_read_piece hPlain hPrefix hNe hProper a)
    | error e => exact ⟨_, rfl⟩

theorem parse_of_header (h : d.Fits) {text : String} {rows : List String}
    (hText : (Text.lines text).filter (!Text.isBlankText ·) = d.header.toJson.render :: rows) :
    parse text = (do
      let changes ← rows.mapM (readLine Change.reader)
      if changes.length ≠ d.header.changeCount then
        throw (.wrongCount d.header.changeCount changes.length)
      return ⟨d.header, changes⟩) := by
  rw [parse, hText]
  simp only [readLine_render (Header.written_toJson h.header), Json.ok_bind]

theorem parse_of_take (h : d.Fits) (hCount : d.header.changeCount = d.changes.length)
    {text : String} {k : Nat} (hk : k < d.lines.length)
    (hText : (Text.lines text).filter (!Text.isBlankText ·) = d.lines.take k) :
    ∃ e, parse text = .error e := by
  cases k with
  | zero =>
    rw [parse, hText]
    exact ⟨_, rfl⟩
  | succ k =>
    have hShort : k < d.changes.length := by
      simpa [lines] using hk
    have hChanges : (d.changes.take k).length ≠ d.header.changeCount := by
      rw [List.length_take, hCount]
      omega
    rw [lines, List.take_succ_cons, ← List.map_take] at hText
    rw [parse_of_header h hText, mapM_readLine fun c hc => h.changes c (List.mem_of_mem_take hc),
      Json.ok_bind, if_pos hChanges]
    exact ⟨_, rfl⟩

theorem mapM_readLine_concat {α : Type} {r : Json.Reader α} (rows : List String) {last : String}
    (hLast : ∃ e, readLine r last = .error e) :
    ∃ e, (rows ++ [last]).mapM (readLine r) = .error e := by
  obtain ⟨e, hLast⟩ := hLast
  rw [List.mapM_append]
  cases rows.mapM (readLine r) with
  | error e' => exact ⟨e', rfl⟩
  | ok as =>
    refine ⟨e, ?_⟩
    rw [Json.ok_bind, List.mapM_cons, hLast]
    rfl

theorem parse_of_piece (h : d.Fits) {text : String} {k : Nat} {l : String} {p : List Char}
    (hl : d.lines[k]? = some l) (hPrefix : p <+: l.toList) (hNe : p ≠ []) (hProper : p ≠ l.toList)
    (hText : (Text.lines text).filter (!Text.isBlankText ·) = d.lines.take k ++ [String.ofList p]) :
    ∃ e, parse text = .error e := by
  obtain ⟨_, hRead⟩ := not_read_piece h (List.mem_of_getElem? hl) hPrefix hNe hProper
  cases k with
  | zero =>
    obtain ⟨e, hHeader⟩ := hRead Header.keeps_reader
    rw [parse, hText]
    refine ⟨e, ?_⟩
    dsimp only [List.take_zero, List.nil_append]
    rw [hHeader]
    rfl
  | succ k =>
    obtain ⟨e, hChanges⟩ := mapM_readLine_concat ((d.changes.map (·.toJson.render)).take k)
      (hRead Change.keeps_reader)
    rw [lines, List.take_succ_cons, List.cons_append] at hText
    rw [parse_of_header h hText, hChanges]
    exact ⟨e, rfl⟩

theorem map_ofList_lines (d : Document) : (d.lines.map String.toList).map String.ofList = d.lines := by
  simp

theorem filter_take_lines (h : d.Fits) (k : Nat) :
    (d.lines.take k).filter (!Text.isBlankText ·) = d.lines.take k := by
  rw [List.filter_eq_self]
  intro l hl
  rw [(mem_lines h (List.mem_of_mem_take hl)).2]
  rfl

theorem parse_of_cut (h : d.Fits) (hCount : d.header.changeCount = d.changes.length) {t : String}
    (hCut : Text.Cut (d.lines.map String.toList) (Text.linesFrom [] t.toList)) :
    ∃ e, parse t = .error e := by
  generalize hRows : Text.linesFrom [] t.toList = rows at hCut
  have hText : Text.lines t = rows.map String.ofList := by rw [Text.lines, hRows]
  cases hCut with
  | @short k hk =>
    apply parse_of_take h hCount (by simpa using hk)
    rw [hText, List.map_take, map_ofList_lines, filter_take_lines h]
  | @piece k l p hl hPrefix hNe hProper =>
    rw [List.getElem?_map] at hl
    obtain ⟨line, hLine, rfl⟩ := Option.map_eq_some_iff.mp hl
    apply parse_of_piece h hLine hPrefix hNe hProper
    have hBlank := (not_read_piece h (List.mem_of_getElem? hLine) hPrefix hNe hProper).1
    rw [hText, List.map_append, List.map_take, map_ofList_lines, List.filter_append,
      filter_take_lines h]
    simp [hBlank]

theorem parse_unended (h : d.Fits) (hCount : d.header.changeCount = d.changes.length) {t : String}
    (hText : t ++ "\n" = d.render) : parse t = .ok d := by
  have hChars : t.toList ++ ['\n'] = Text.linesText (d.lines.map String.toList) := by
    rw [← toList_render, ← hText]
    simp
  have hSame : Text.lines t = Text.lines d.render := by
    rw [Text.lines, Text.linesFrom_unended (isLine_of_mem_lines h) hChars, map_ofList_lines, render,
      Text.lines_join fun l hl => (mem_lines h hl).1]
  rw [parse, hSame, ← parse, parse_render h hCount]

/-- Of the beginnings of a document's text, those are rejected that lack more than the last line
feed. -/
theorem truncated_rejected_iff (h : d.Fits) (hCount : d.header.changeCount = d.changes.length)
    {t : String} (hPrefix : t.toList <+: d.render.toList) :
    (∃ e, parse t = .error e) ↔ t ≠ d.render ∧ t ++ "\n" ≠ d.render := by
  constructor
  · rintro ⟨e, hError⟩
    constructor
    · rintro rfl
      rw [parse_render h hCount] at hError
      cases hError
    · intro hText
      rw [parse_unended h hCount hText] at hError
      cases hError
  · rintro ⟨hProper, hText⟩
    rw [toList_render] at hPrefix
    rcases Text.cut_linesFrom (isLine_of_mem_lines h) hPrefix with hCut | hWhole | hLast
    · exact parse_of_cut h hCount hCut
    · rw [← toList_render] at hWhole
      exact absurd (String.toList_injective hWhole) hProper
    · rw [← toList_render] at hLast
      exact absurd (String.toList_injective (by simpa using hLast)) hText

/-- Behind the header there is only the brace of the first change. -/
def brokenOff : String := unusualDocument.header.toJson.render ++ "\n\x7b"

theorem exists_rest_of_brokenOff :
    ∃ rest, brokenOff.toList ++ rest = unusualDocument.render.toList ∧ 2 ≤ rest.length := by
  obtain ⟨first, rest, hChanges⟩ : ∃ first rest, unusualDocument.changes = first :: rest :=
    ⟨_, _, rfl⟩
  obtain ⟨body, hBody⟩ : ∃ body, first.toJson.chars = '\x7b' :: (body ++ ['\x7d']) := ⟨_, rfl⟩
  refine ⟨body ++ '\x7d' :: '\n' :: Text.linesText ((rest.map (·.toJson.render)).map String.toList),
    ?_, by rw [List.length_append, List.length_cons, List.length_cons]; omega⟩
  rw [toList_render, lines, hChanges]
  simp [brokenOff, Text.linesText_cons, Json.Value.render, hBody]

theorem brokenOff_rejected : ∃ e, parse brokenOff = .error e := by
  obtain ⟨rest, hRender, hLong⟩ := exists_rest_of_brokenOff
  have hFits : unusualDocument.Fits := by decide
  refine (truncated_rejected_iff hFits rfl ⟨rest, hRender⟩).mpr ⟨?_, ?_⟩
  · intro hWhole
    have hLength := congrArg List.length hRender
    rw [← hWhole, List.length_append] at hLength
    omega
  · intro hText
    have hLength := congrArg List.length hRender
    have hFeed : "\n".toList.length = 1 := by decide
    rw [← hText, String.toList_append, List.length_append, List.length_append, hFeed] at hLength
    omega

end Document

end Diff

end Reanalysis
