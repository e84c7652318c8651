import Reanalysis.Proofs.Json.Grounded
import Reanalysis.Proofs.Log.Recovery
import Reanalysis.Proofs.Log.Skips

/-!
# The log of skips after a crash

Unlike the other logs, the log of skips holds free text. Where it is cut off between two characters the
records whose lines are there are read back, as from the other logs. Where it is cut off within a
character the file is no text any more, and nothing is read from it at all.
-/

namespace Reanalysis

open Files (Location)

/-! ## Bytes of a text that is cut off -/

namespace Text

variable {text s : List Char} {cut : Bytes}

theorem head_eq_of_encode {c d : Char} {bytes rest : Bytes}
    (h : String.utf8EncodeChar c ++ bytes = String.utf8EncodeChar d ++ rest) : c = d := by
  have hRead : ∀ (c : Char) (bytes : Bytes),
      ByteArray.utf8DecodeChar? (String.utf8EncodeChar c ++ bytes).toByteArray 0 = some c := by
    intro c bytes
    rw [List.toByteArray_append]
    exact ByteArray.utf8DecodeChar?_utf8EncodeChar_append
  have hBoth := hRead c bytes
  rw [h, hRead d rest] at hBoth
  exact (Option.some.inj hBoth).symm

theorem prefix_of_encode (h : encode (String.ofList s) <+: encode (String.ofList text)) :
    s <+: text := by
  induction s generalizing text with
  | nil => exact List.nil_prefix
  | cons c s ih =>
    rw [encode_cons] at h
    cases text with
    | nil =>
      rw [encode_nil, List.prefix_nil, List.append_eq_nil_iff] at h
      have hLength := congrArg List.length h.1
      have hPos := c.utf8Size_pos
      rw [String.length_utf8EncodeChar, List.length_nil] at hLength
      omega
    | cons d text =>
      rw [encode_cons] at h
      obtain ⟨rest, hRest⟩ := id h
      rw [List.append_assoc] at hRest
      obtain rfl := head_eq_of_encode hRest
      exact List.cons_prefix_cons.mpr ⟨rfl, ih ((List.prefix_append_right_inj _).mp h)⟩

/-- The first `n` bytes end within a character. -/
def Severs (bytes : Bytes) (n : Nat) : Prop :=
  ∃ front c back, bytes = encode (String.ofList (front ++ c :: back)) ∧
    (encode (String.ofList front)).length < n ∧ n < (encode (String.ofList (front ++ [c]))).length

theorem exists_text_or_severs (h : cut <+: encode (String.ofList text)) :
    (∃ p, p <+: text ∧ cut = encode (String.ofList p)) ∨
      Severs (encode (String.ofList text)) cut.length := by
  induction text generalizing cut with
  | nil =>
    rw [encode_nil, List.prefix_nil] at h
    exact .inl ⟨[], List.nil_prefix, h.trans encode_nil.symm⟩
  | cons c text ih =>
    rw [encode_cons] at h
    by_cases hShort : cut.length < (String.utf8EncodeChar c).length
    · by_cases hNil : cut = []
      · exact .inl ⟨[], List.nil_prefix, hNil.trans encode_nil.symm⟩
      · refine .inr ⟨[], c, text, rfl, ?_, ?_⟩
        · rw [encode_nil]
          exact List.length_pos_iff.mpr hNil
        · rwa [List.nil_append, encode_cons, encode_nil, List.append_nil]
    · have hHead : String.utf8EncodeChar c <+: cut :=
        List.prefix_of_prefix_length_le (List.prefix_append _ _) h (Nat.le_of_not_lt hShort)
      obtain ⟨rest, rfl⟩ := hHead
      rcases ih ((List.prefix_append_right_inj _).mp h) with
        ⟨p, hp, rfl⟩ | ⟨front, d, back, hText, hLow, hHigh⟩
      · exact .inl ⟨c :: p, List.cons_prefix_cons.mpr ⟨rfl, hp⟩, (encode_cons c p).symm⟩
      · refine .inr ⟨c :: front, d, back, ?_, ?_, ?_⟩
        · rw [encode_cons, hText, List.cons_append, encode_cons]
        · rw [encode_cons, List.length_append, List.length_append]
          exact Nat.add_lt_add_left hLow _
        · rw [List.cons_append, encode_cons, List.length_append, List.length_append]
          exact Nat.add_lt_add_left hHigh _

theorem decode?_of_severs (h : cut <+: encode (String.ofList text))
    (hSevers : Severs (encode (String.ofList text)) cut.length) : decode? cut = none := by
  rw [Option.eq_none_iff_forall_ne_some]
  intro s hs
  obtain ⟨front, c, back, hText, hLow, hHigh⟩ := hSevers
  rw [hText, eq_encode_of_decode? hs, ← String.ofList_toList (s := s)] at h
  rw [eq_encode_of_decode? hs, ← String.ofList_toList (s := s)] at hLow hHigh
  have hPrefix : s.toList <+: front ++ c :: back := prefix_of_encode h
  have hFront : front ++ [c] <+: front ++ c :: back := ⟨back, by simp⟩
  rcases List.prefix_or_prefix_of_prefix hPrefix hFront with hInner | ⟨rest, hRest⟩
  · rcases List.prefix_concat_iff.mp hInner with hWhole | ⟨rest, hRest⟩
    · rw [hWhole] at hHigh
      exact absurd hHigh (Nat.lt_irrefl _)
    · rw [← hRest, encode_front, List.length_append] at hLow
      omega
  · rw [← hRest, encode_front (front ++ [c]), List.length_append] at hHigh
    omega

theorem not_severs_encode (h : s <+: text) :
    ¬ Severs (encode (String.ofList text)) (encode (String.ofList s)).length := by
  intro hSevers
  have hNone := decode?_of_severs (encode_prefix_encode h) hSevers
  rw [decode?_encode] at hNone
  cases hNone

end Text

/-! ## Pieces of an entry -/

open Json Json.Nesting Log
open Text (linesText Severs)

theorem Log.parseLines_of_trim {β : Type} {parse : String → Option β} {p : List Char}
    (hFeed : '\n' ∉ p) (hTrim : Text.trimChars p ≠ [])
    (hNone : parse (String.ofList (Text.trimChars p)) = none) :
    parseLines parse (String.ofList p) = ⟨[], 1⟩ := by
  have hNe : p ≠ [] := by
    rintro rfl
    exact hTrim rfl
  have hLines : Text.lines (String.ofList p) = [String.ofList p] := by
    rw [Text.lines, String.toList_ofList, Text.linesFrom_of_not_mem hFeed [] hNe]
    rfl
  have hText : String.ofList (Text.trimChars p) ≠ "" := by simpa using hTrim
  simp [parseLines, hLines, Text.trim, hText, hNone]

namespace Skip

theorem Draft.keeps_member (name : String) (d : Draft) : Keeps (Draft.member name d) := by
  unfold Draft.member
  split
  · extract_lets reason
    have hReason : Keeps (reason ()) := by
      refine keeps_colon.bind fun _ => (keeps_named _).bind fun _ => ?_
      split
      · exact keeps_pure _
      · exact keeps_pure _
      · exact keeps_throw _
    split
    · exact (keeps_throw _).bind fun _ => hReason
    · exact hReason
  split
  · extract_lets detail
    have hDetail : Keeps (detail ()) := by
      refine keeps_colon.bind fun _ => ?_
      split
      · exact keeps_string.bind fun _ => keeps_pure _
      · exact (keeps_value _).bind fun _ => keeps_pure _
    split
    · exact (keeps_throw _).bind fun _ => hDetail
    · exact hDetail
  · exact keeps_passOver name d

theorem keeps_reader : Keeps reader := by
  intro depth cs
  refine carries_lookValue_bind fun c tail => ?_
  split
  · rename_i hOpen
    refine carries_advance_bind ?_
    rw [step_opening (.inr hOpen)]
    refine carries_bind (carries_members Draft.keeps_member {}) fun d rest => ?_
    split
    · exact carries_pure _
    · exact carries_throw _
  split
  · rename_i hOpen
    refine carries_advance_bind ?_
    rw [step_opening (.inl hOpen)]
    refine carries_nextElement_bind true (fun rest => ?_) fun tail => carries_throw_bind _
    refine carries_bind (keeps_string.refined _ _ rest) fun reason rest => ?_
    refine carries_nextElement_bind false (fun rest => ?_) fun tail => carries_throw_bind _
    refine carries_bind (keeps_string _ rest) fun detail rest => ?_
    refine carries_look_bind fun rest => ?_
    split
    · rename_i hHead
      exact carries_head hHead fun tail => carries_close (.inl rfl) tail _
    · exact carries_throw _
    · exact carries_throw _
  · exact carries_mismatch c

namespace Entry

theorem keeps_reader : Keeps reader := by
  apply keeps_record
  intro m hm d
  simp only [fields, List.mem_cons, List.not_mem_nil, or_false] at hm
  rcases hm with rfl | rfl | rfl
  · exact keeps_required ((keeps_typedNumber _).refined _) d
  · exact keeps_required keeps_string d
  · exact keeps_required Skip.keeps_reader d

theorem row_toJson (e : Entry) : Row parseSkip e.toJson.chars e := by
  have hPlain := e.written_toJson.plain
  have hLine : OneLine e.toJson.chars := oneLine_object hPlain
  refine ⟨hLine, e.parseSkip_render, ?_⟩
  intro p hPiece hNe hProper
  cases p with
  | nil => exact absurd rfl hNe
  | cons c q =>
    obtain rfl : c = '\x7b' := (List.cons_prefix_cons.mp hPiece).1
    have hTrim : Text.trimChars ('\x7b' :: q) = '\x7b' :: Text.trimEnd q :=
      Text.trimChars_cons (by decide)
    have hShorter : '\x7b' :: Text.trimEnd q <+: '\x7b' :: q :=
      List.cons_prefix_cons.mpr ⟨rfl, Text.trimEnd_prefix_self q⟩
    have hCut : '\x7b' :: Text.trimEnd q ≠ e.toJson.chars := by
      intro hWhole
      rw [hWhole] at hShorter
      exact hProper (hPiece.eq_of_length_le hShorter.length_le)
    have hFeed : '\n' ∉ '\x7b' :: q := fun hFeed => hLine.no_feed (hPiece.subset hFeed)
    refine parseLines_of_trim hFeed (hTrim ▸ List.cons_ne_nil _ _) ?_
    rw [hTrim, parseSkip, Json.read, String.toList_ofList]
    have hNot := keeps_reader.not_read_piece hPlain (hShorter.trans hPiece) (List.cons_ne_nil _ _) hCut
    cases hRead : readWhole reader ('\x7b' :: Text.trimEnd q) with
    | error fault => rfl
    | ok e' => exact absurd hRead (hNot e')

theorem rows_toJson (es : List Entry) :
    Rows parseSkip ((es.map toJson).map Value.chars) es := by
  induction es with
  | nil => exact .nil
  | cons e es ih => exact .cons e.row_toJson ih

end Entry

end Skip

/-! ## Reading -/

namespace Log

variable {β : Type} {parse : String → Option β} {fs : Files} {path : Location} {bytes cut : Bytes}

theorem fails_readLines (hRead : fs.read path = .ok cut) (hText : Text.decode? cut = none) :
    Fails (readLines parse path) fs (.io path .notText) fs := by
  have hFile : fs.readText path = .error .notText := by
    simp only [Files.readText, hRead, bind, Except.bind, hText]
    rfl
  refine Fails.bind ?_ _
  rw [readText, Fails.get_bind_iff, hFile]
  rfl

/-- The records of a log of skips that was cut off are read exactly if no character was. -/
theorem skips_read_back_iff {es : List Skip.Entry}
    (hProduces : Produces (es.map Skip.Entry.toJson) bytes) (hCut : cut <+: bytes)
    (hRead : fs.read path = .ok cut) :
    (Recovers (readSkips path) Skip.Entry.toJson Eq es cut.length fs ↔ ¬ Severs bytes cut.length) ∧
      (Severs bytes cut.length → Fails (readSkips path) fs (.io path .notText) fs) := by
  rw [produces_iff.mp hProduces, flatMap_line] at hCut ⊢
  have hFails (hSevers : Severs _ cut.length) : Fails (readSkips path) fs (.io path .notText) fs :=
    fails_readLines hRead (Text.decode?_of_severs hCut hSevers)
  refine ⟨⟨?_, ?_⟩, hFails⟩
  · rintro ⟨k, records, -, hGives, -⟩ hSevers
    exact (hFails hSevers).not_gives hGives
  · intro hWhole
    obtain ⟨p, hPrefix, rfl⟩ := (Text.exists_text_or_severs hCut).resolve_right hWhole
    exact recovers_of_text (Skip.Entry.rows_toJson es) (List.forall₂_refl es) hPrefix hRead

def accentedSkips : List Skip.Entry :=
  [⟨⟨1, Nat.one_pos, ProgramId.one_bounded⟩, "full", .missingSource "é"⟩,
    ⟨⟨2, Nat.two_pos, ProgramId.two_bounded⟩, "full", .diffFailed "é"⟩]

def accentedText : List Char :=
  linesText ((accentedSkips.map Skip.Entry.toJson).map Json.Value.chars)

theorem produces_accentedText :
    Produces (accentedSkips.map Skip.Entry.toJson) (Text.encode (String.ofList accentedText)) :=
  produces_iff.mpr (flatMap_line _).symm

/-- The second line is cut off behind a character of two bytes. -/
theorem skips_read_back_behind_character :
    let cut := Text.encode (String.ofList (accentedText.take 159))
    (accentedText[158]? = some 'é' ∧ cut.length = 161) ∧
    Recovers (readSkips "log") Skip.Entry.toJson Eq accentedSkips cut.length (onlyLog cut) := by
  intro cut
  have hPrefix : accentedText.take 159 <+: accentedText := List.take_prefix 159 accentedText
  exact ⟨by decide +kernel, (skips_read_back_iff produces_accentedText (Text.encode_prefix_encode hPrefix)
    (stores_onlyLog cut).read).1.mpr (Text.not_severs_encode hPrefix)⟩

/-- The second line is cut off within a character, and the first one is not read either. -/
theorem complete_skip_not_read :
    let cut := (Text.encode (String.ofList accentedText)).take 160
    Fit 1 (accentedSkips.map Skip.Entry.toJson) cut.length 1 ∧
    Fails (readSkips "log") (onlyLog cut) (.io "log" .notText) (onlyLog cut) := by
  intro cut
  have hCount : complete 1 ((accentedSkips.map Skip.Entry.toJson).map fun value => (line value).length)
      cut.length = 1 := by decide +kernel
  have hFit : Fit 1 (accentedSkips.map Skip.Entry.toJson) cut.length _ :=
    fit_lengths (by decide +kernel) _
  rw [hCount] at hFit
  have hText : accentedText = accentedText.take 158 ++ 'é' :: accentedText.drop 159 := by decide +kernel
  have hSevers : Severs (Text.encode (String.ofList accentedText)) cut.length :=
    ⟨accentedText.take 158, 'é', accentedText.drop 159, by rw [← hText], by decide +kernel⟩
  have hNone := Text.decode?_of_severs (List.take_prefix 160 _) hSevers
  exact ⟨hFit, fails_readLines (stores_onlyLog cut).read hNone⟩

end Log

end Reanalysis
