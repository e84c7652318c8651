import Reanalysis.Proofs.Log.Line
import Reanalysis.Proofs.Wire

/-!
# The log of skips

Every entry of the log of skips is a line that is read back as it was, whatever text it holds. A log that
ends with a line feed is read line by line also after it was written on.
-/

namespace Reanalysis

open Json Log
open Text (linesText linesText_cons)

/-! ## Whole lines -/

theorem Text.linesFrom_append_feed (current front rest : List Char) :
    linesFrom current (front ++ '\n' :: rest) =
      linesFrom current (front ++ ['\n']) ++ linesFrom [] rest := by
  induction front generalizing current with
  | nil => simp [linesFrom]
  | cons c front ih =>
    by_cases hc : c = '\n'
    · subst hc
      simp [linesFrom, ih []]
    · simp [linesFrom, ih (c :: current)]

/-- The text is empty or ends with a line feed. -/
def Text.Whole (text : String) : Prop := text = "" ∨ text.toList.getLast? = some '\n'

theorem Text.Whole.lines_append {text : String} (h : Text.Whole text) (more : String) :
    Text.lines (text ++ more) = Text.lines text ++ Text.lines more := by
  rcases h with rfl | hLast
  · rw [String.empty_append]
    rfl
  · obtain ⟨front, hFront⟩ := List.getLast?_eq_some_iff.mp hLast
    rw [Text.lines, Text.lines, Text.lines, String.toList_append, hFront, List.append_assoc,
      List.singleton_append, Text.linesFrom_append_feed, List.map_append]

theorem Log.parseLines_append {β : Type} {parse : String → Option β} {text : String}
    (h : Text.Whole text) (more : String) :
    parseLines parse (text ++ more) =
      ⟨(parseLines parse text).records ++ (parseLines parse more).records,
        (parseLines parse text).malformed + (parseLines parse more).malformed⟩ := by
  simp only [parseLines, h.lines_append, List.map_append, List.filter_append, List.filterMap_append,
    List.length_append]

theorem Log.oneLine_object {depth : Nat} {kvs : List (String × Value)}
    (h : (Value.object kvs).Plain depth) : OneLine (Value.object kvs).chars := by
  have hPrintable := Value.printable h
  have hNot : ∀ c : Char, c.toNat < 32 → c ∉ (Value.object kvs).chars := by
    intro c hc hMem
    have := hPrintable c hMem
    omega
  refine ⟨by simp [Value.chars], hNot '\n' (by decide), hNot '\r' (by decide), ?_⟩
  have hOpen : Text.isBlank '\x7b' = false := by decide
  have hClose : Text.isBlank '\x7d' = false := by decide
  rw [Text.trim, String.toList_ofList, Value.chars, Text.trimChars, Text.trimStart,
    List.dropWhile_cons_of_neg (by simp [hOpen]), Text.trimEnd, ← List.cons_append,
    List.reverse_append, List.reverse_singleton, List.singleton_append,
    List.dropWhile_cons_of_neg (by simp [hClose]), List.reverse_cons, List.reverse_reverse]

/-! ## Entries -/

namespace Skip

theorem written_toJson (s : Skip) : Written 1 reader s.toJson s := by
  have hObject : ∀ (name detail : String) (reason : Reason), Reason.ofName? name = some reason →
      Written 1 reader (.object [("reason", .text name), ("detail", .text detail)])
        (reason.withDetail detail) := by
    intro name detail reason hName
    have hReason : Reads (Draft.member "reason" {}) (':' :: (Value.text name).chars)
        { reason := some reason } := by
      intro rest hRest
      have hRead : Written 0 (named Reason.ofName?) (.text name) reason := written_named hName
      simp [Draft.member, hRead.reads rest hRest]
    have hDetail : Reads (Draft.member "detail" { reason := some reason })
        (':' :: (Value.text detail).chars) { reason := some reason, detail := some detail } := by
      intro rest hRest
      have hRead : Written 0 string (.text detail) detail := written_string detail
      simp [Draft.member, hRead.reads rest hRest]
    have hFills : Fills 0 Draft.member {} [("reason", .text name), ("detail", .text detail)]
        { reason := some reason, detail := some detail } :=
      .cons trivial hReason (.cons trivial hDetail (.nil _))
    refine ⟨hFills.plain, by simp, fun rest hRest => ?_⟩
    rw [Value.chars, List.cons_append, reader, run_lookValue_bind (by decide), List.append_assoc,
      List.singleton_append]
    simp [run_members hFills.leads rest]
  cases s with
  | missingSource path => exact hObject "missing_source" path .missingSource rfl
  | diffFailed text => exact hObject "diff_failed" text .diffFailed rfl

namespace Entry

theorem written_toJson (e : Entry) : Written 2 reader e.toJson e := by
  have hProgram : Written 1 ProgramId.reader e.program.toJson e.program := e.program.written_toJson
  have hFills : Fills 1 (memberOf fields passOver) {}
      (present [("program_id", some e.program.toJson), ("workflow", some (.text e.workflow)),
        ("skip", some e.skip.toJson)])
      ⟨some e.program, some e.workflow, some e.skip⟩ :=
    .required rfl rfl hProgram <|
    .required rfl rfl (written_string e.workflow) <|
    .required rfl rfl e.skip.written_toJson <| .nil _
  exact written_record hFills rfl

theorem parseSkip_render (e : Entry) : parseSkip (String.ofList e.toJson.chars) = some e := by
  have hRead := e.written_toJson.reads [] ends_nil
  rw [List.append_nil] at hRead
  rw [parseSkip, Json.read, String.toList_ofList, readWhole, hRead]
  rfl

theorem parseLines_entries (es : List Entry) :
    parseLines parseSkip (String.ofList (linesText ((es.map toJson).map Value.chars))) = ⟨es, 0⟩ := by
  induction es with
  | nil => rfl
  | cons e es ih =>
    have hLine : OneLine e.toJson.chars := oneLine_object e.written_toJson.plain
    rw [List.map_cons, List.map_cons, linesText_cons, parseLines_line hLine, parseSkip_render, ih]
    rfl

end Entry

end Skip

end Reanalysis
