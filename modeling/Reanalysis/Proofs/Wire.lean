import Mathlib.Tactic.MkIffOfInductiveProp
import Reanalysis.Diff.Change
import Reanalysis.Digest.Basic
import Reanalysis.Program.Id
import Reanalysis.Proofs.Json.Typed
import Reanalysis.Proofs.Json.Yields

/-!
# Paths, digests, sites and changes on the wire

What is written of a path, a digest, a program id, a site or a change is read back as what was
written. Numbers are read within 64 bits only, so this is about paths, sites and changes that
`Fits`; whatever a reader returns does.
-/

namespace Reanalysis

/-! ## Paths -/

namespace Segment

/-- An index is a machine word. -/
def Fits : Segment → Prop
  | .index i => i < Json.wordBound
  | .thenArm | .elseArm => True

instance : DecidablePred Fits
  | .index i => inferInstanceAs (Decidable (i < Json.wordBound))
  | .thenArm => .isTrue trivial
  | .elseArm => .isTrue trivial

theorem parse?_chars {s : Segment} (h : s.Fits) : parse? s.chars = some s := by
  cases s with
  | thenArm => simp [parse?, chars]
  | elseArm => simp [parse?, chars]
  | index i =>
    obtain ⟨d, ds, hDigits, hDigit⟩ := Text.exists_toDigits i
    have hThen : Nat.toDigits 10 i ≠ "then".toList := by
      rw [hDigits]
      simpa using fun hd => absurd hd (Text.ne_of_isDigit hDigit (by decide))
    have hElse : Nat.toDigits 10 i ≠ "else".toList := by
      rw [hDigits]
      simpa using fun hd => absurd hd (Text.ne_of_isDigit hDigit (by decide))
    have hIndex : Text.boundedNat? 0x10000000000000000 (Nat.toDigits 10 i) = some i :=
      Text.boundedNat?_toDigits h
    rw [chars, parse?, if_neg hThen, if_neg hElse, hIndex, Option.map_some]

theorem fits_of_parse? {cs : List Char} {s : Segment} (h : parse? cs = some s) : s.Fits := by
  rw [parse?] at h
  split at h
  · cases h
    trivial
  split at h
  · cases h
    trivial
  · obtain ⟨i, hIndex, rfl⟩ := Option.map_eq_some_iff.mp h
    exact Text.lt_of_boundedNat? hIndex

theorem dot_not_mem_chars (s : Segment) : '.' ∉ s.chars := by
  cases s with
  | thenArm => simp [chars]
  | elseArm => simp [chars]
  | index i =>
    intro hDot
    exact absurd (Text.isDigit_of_mem_toDigits hDot) (by decide)

theorem chars_ne_nil (s : Segment) : s.chars ≠ [] := by
  cases s with
  | thenArm => simp [chars]
  | elseArm => simp [chars]
  | index i => exact Nat.toDigits_ne_nil

end Segment

namespace Path

def Fits (p : Path) : Prop := ∀ s ∈ p, s.Fits

instance (p : Path) : Decidable p.Fits := inferInstanceAs (Decidable (∀ s ∈ p, s.Fits))

theorem ofParts_map_chars {p : Path} (h : p.Fits) : ofParts (p.map Segment.chars) = .ok p := by
  induction p with
  | nil => rfl
  | cons s p ih =>
    rw [List.map_cons, ofParts, Segment.parse?_chars (h s List.mem_cons_self),
      ih fun t ht => h t (List.mem_cons_of_mem _ ht)]
    rfl

theorem parse_render {p : Path} (h : p.Fits) : parse p.render = .ok p := by
  cases p with
  | nil => rfl
  | cons s p =>
    have hParts : Text.split '.' (render (s :: p)).toList = (s :: p).map Segment.chars := by
      rw [render, String.toList_ofList, chars]
      refine Text.split_join (by simp) fun part hPart => ?_
      obtain ⟨t, -, rfl⟩ := List.mem_map.mp hPart
      exact t.dot_not_mem_chars
    have hNe : (render (s :: p)).isEmpty = false := by
      rw [Bool.eq_false_iff]
      intro hEmpty
      rw [String.isEmpty_iff.mp hEmpty] at hParts
      exact s.chars_ne_nil (List.cons.inj hParts).1.symm
    rw [parse, hNe, hParts, ofParts_map_chars h]
    rfl

theorem fits_of_ofParts {parts : List (List Char)} {p : Path} (h : ofParts parts = .ok p) :
    p.Fits := by
  induction parts generalizing p with
  | nil =>
    cases h
    simp [Fits]
  | cons part parts ih =>
    rw [ofParts] at h
    cases hPart : Segment.parse? part with
    | none => rw [hPart] at h; cases h
    | some s =>
      cases hRest : ofParts parts with
      | error e => rw [hPart, hRest] at h; cases h
      | ok q =>
        rw [hPart, hRest] at h
        cases h
        exact List.forall_mem_cons.mpr ⟨Segment.fits_of_parse? hPart, ih hRest⟩

theorem fits_of_parse {s : String} {p : Path} (h : parse s = .ok p) : p.Fits := by
  rw [parse] at h
  split at h
  · cases h
    simp [Fits]
  · exact fits_of_ofParts h

theorem written_toJson {depth : Nat} {p : Path} (h : p.Fits) :
    Json.Written depth reader p.toJson p :=
  (Json.written_string p.render).refined (by rw [parse_render h]; rfl)

theorem yields_reader : Json.Yields reader Fits := by
  refine (Json.yields_any Json.string).refined fun s p _ hParse => ?_
  cases hResult : parse s with
  | error e => rw [hResult] at hParse; cases hParse
  | ok q =>
    rw [hResult] at hParse
    cases hParse
    exact fits_of_parse hResult

end Path

/-! ## Digests and program ids -/

namespace Digest

theorem hexDigit_ascii : ∀ n < 16, (Json.hexDigit n).toNat < 128 ∧
    Text.isBlank (Json.hexDigit n) = false := by decide

theorem nibble_hexDigit : ∀ n < 16, ∀ position,
    nibble (UInt8.ofNat (Json.hexDigit n).toNat) position = .ok n := by
  have hValue : ∀ n < 16,
      Json.hexValue? (Char.ofNat (UInt8.ofNat (Json.hexDigit n).toNat).toNat) = some n := by decide
  intro n hn position
  rw [nibble, hValue n hn]

theorem exists_of_mem_hexChars {b : Bytes} {c : Char} (h : c ∈ hexChars b) :
    ∃ n < 16, c = Json.hexDigit n := by
  obtain ⟨x, -, hc⟩ := List.mem_flatMap.mp h
  have hx := x.toNat_lt
  simp only [List.mem_cons, List.not_mem_nil, or_false] at hc
  rcases hc with rfl | rfl
  · exact ⟨x.toNat / 16, by omega, rfl⟩
  · exact ⟨x.toNat % 16, by omega, rfl⟩

theorem encode_trim_render (d : Digest) :
    Text.encode (Text.trim d.render) = (hexChars d.bytes).map fun c => UInt8.ofNat c.toNat := by
  have hAscii : ∀ c ∈ hexChars d.bytes, c.toNat < 128 ∧ Text.isBlank c = false := by
    intro c hc
    obtain ⟨n, hn, rfl⟩ := exists_of_mem_hexChars hc
    exact hexDigit_ascii n hn
  rw [render, Text.trim_of_not_blank fun c hc => (hAscii c hc).2,
    Text.encode_of_ascii fun c hc => (hAscii c hc).1]

theorem decodeFrom_hexChars (position : Nat) (b : Bytes) :
    decodeFrom position ((hexChars b).map fun c => UInt8.ofNat c.toNat) = .ok b := by
  induction b generalizing position with
  | nil => rfl
  | cons x b ih =>
    have hx := x.toNat_lt
    have hHigh := nibble_hexDigit (x.toNat / 16) (by omega) position
    have hLow := nibble_hexDigit (x.toNat % 16) (by omega) (position + 1)
    have hByte : UInt8.ofNat (16 * (x.toNat / 16) + x.toNat % 16) = x := by
      rw [Nat.div_add_mod, UInt8.ofNat_toNat]
    rw [hexChars, List.flatMap_cons, List.map_append, ← hexChars, List.map_cons, List.map_cons,
      List.map_nil, List.cons_append, List.cons_append, List.nil_append, decodeFrom, hHigh, hLow,
      ih]
    simp only [Json.ok_bind, Json.pure_eq_ok, hByte]

theorem length_hexChars (b : Bytes) : (hexChars b).length = 2 * b.length := by
  induction b with
  | nil => rfl
  | cons x b ih =>
    rw [hexChars, List.flatMap_cons, ← hexChars, List.length_append, ih]
    simp
    omega

theorem parse_render (d : Digest) : parse d.render = .ok d := by
  have hLength : (Text.encode (Text.trim d.render)).length = 64 := by
    rw [encode_trim_render, List.length_map, length_hexChars, d.size]
  have hBytes : decodeFrom 0 (Text.encode (Text.trim d.render)) = .ok d.bytes := by
    rw [encode_trim_render, decodeFrom_hexChars]
  unfold parse
  rw [if_neg (by omega), dif_neg (by omega)]
  split
  · rename_i e hDecode
    rw [hBytes] at hDecode
    cases hDecode
  · rename_i bytes hDecode
    rw [hBytes] at hDecode
    cases hDecode
    rfl

theorem written_toJson {depth : Nat} (d : Digest) : Json.Written depth reader d.toJson d :=
  (Json.written_string d.render).refined (by rw [parse_render]; rfl)

end Digest

theorem ProgramId.written_toJson {depth : Nat} (id : ProgramId) :
    Json.Written depth reader id.toJson id :=
  (Json.written_natBelow id.bounded (Nat.lt_trans id.bounded (by decide))).refined id.ofNat?_number

theorem ProgramId.one_bounded : 1 < 0x100000000 := by decide

theorem ProgramId.two_bounded : 2 < 0x100000000 := by decide

theorem ProgramId.four_bounded : 4 < 0x100000000 := by decide

/-! ## Sites -/

namespace Site

@[mk_iff]
structure Fits (s : Site) : Prop where
  path : s.path.Fits
  line : s.line < Json.wordBound

instance (s : Site) : Decidable s.Fits := decidable_of_iff' _ (fits_iff s)

theorem written_toJson {depth : Nat} {s : Site} (h : s.Fits) :
    Json.Written (depth + 1) reader s.toJson s := by
  have hFills : Json.Fills depth (Json.memberOf fields Json.passOver) {}
      (Json.present [("path", some s.path.toJson), ("test", some (.text s.test)),
        ("line", some (.nat s.line))]) ⟨some s.path, some s.test, some s.line⟩ :=
    .required rfl rfl (Path.written_toJson h.path) <|
    .required rfl rfl (Json.written_string s.test) <|
    .required rfl rfl (Json.written_natBelow h.line h.line) <| .nil _
  exact Json.written_record hFills rfl

structure Draft.Fits (d : Draft) : Prop where
  path : ∀ p ∈ d.path, p.Fits
  line : ∀ n ∈ d.line, n < Json.wordBound

theorem yields_fields (m : Json.Member Draft) (hm : m ∈ fields) :
    ∀ d, Draft.Fits d → Json.Yields (m.read d) Draft.Fits := by
  simp only [fields, List.mem_cons, List.not_mem_nil, or_false] at hm
  rcases hm with rfl | rfl | rfl
  · exact Json.yields_required Path.yields_reader fun d p hd hp => ⟨by simpa using hp, hd.line⟩
  · exact Json.yields_required (Json.yields_any _) fun d s hd _ => ⟨hd.path, hd.line⟩
  · exact Json.yields_required (Json.yields_natBelow _) fun d n hd hn =>
      ⟨hd.path, by simpa using hn⟩

theorem yields_reader : Json.Yields reader Fits := by
  refine Json.yields_record yields_fields ⟨by simp, by simp⟩ fun d s hd hMake => ?_
  simp only [Option.pure_def, Option.bind_eq_bind, Option.bind_eq_some_iff] at hMake
  obtain ⟨p, hPath, test, -, n, hLine, hSite⟩ := hMake
  cases hSite
  exact ⟨hd.path p hPath, hd.line n hLine⟩

end Site

/-! ## Changes -/

theorem ChangeKind.ofName?_name (k : ChangeKind) : ofName? k.name = some k := by cases k <;> rfl

namespace Change

@[mk_iff]
structure Fits (c : Change) : Prop where
  path : c.path.Fits
  modifiedPath : ∀ p ∈ c.modifiedPath, p.Fits
  baseLine : ∀ n ∈ c.baseLine, n < Json.wordBound
  modifiedLine : ∀ n ∈ c.modifiedLine, n < Json.wordBound
  anchor : ∀ s ∈ c.anchor, s.Fits

instance (c : Change) : Decidable c.Fits := decidable_of_iff' _ (fits_iff c)

theorem fills_members {depth : Nat} {c : Change} (h : c.Fits) :
    Json.Fills (depth + 1) (Json.memberOf fields Json.passOver) {}
      (Json.present
        [("kind", some (.text c.kind.name)),
         ("path", some c.path.toJson),
         ("modified_path", c.modifiedPath.map Path.toJson),
         ("base_line", c.baseLine.map .nat),
         ("modified_line", c.modifiedLine.map .nat),
         ("base_text", c.baseText.map .text),
         ("modified_text", c.modifiedText.map .text),
         ("anchor", c.anchor.map Site.toJson)])
      ⟨some c.kind, some c.path, c.modifiedPath.map some, c.baseLine.map some,
        c.modifiedLine.map some, c.baseText.map some, c.modifiedText.map some,
        c.anchor.map some⟩ := by
  exact
    .required rfl rfl (Json.written_named c.kind.ofName?_name) <|
    .required rfl rfl (Path.written_toJson h.path) <|
    .optional (fun d x => { d with modifiedPath := x }) rfl rfl rfl (fun _ => rfl)
      (fun p hp => Path.written_toJson (h.modifiedPath p hp)) <|
    .optional (fun d x => { d with baseLine := x }) rfl rfl rfl (fun _ => rfl)
      (fun n hn => Json.written_natBelow (h.baseLine n hn) (h.baseLine n hn)) <|
    .optional (fun d x => { d with modifiedLine := x }) rfl rfl rfl (fun _ => rfl)
      (fun n hn => Json.written_natBelow (h.modifiedLine n hn) (h.modifiedLine n hn)) <|
    .optional (fun d x => { d with baseText := x }) rfl rfl rfl (fun _ => rfl)
      (fun s _ => Json.written_string s) <|
    .optional (fun d x => { d with modifiedText := x }) rfl rfl rfl (fun _ => rfl)
      (fun s _ => Json.written_string s) <|
    .optional (fun d x => { d with anchor := x }) rfl rfl rfl (fun _ => rfl)
      (fun s hs => Site.written_toJson (h.anchor s hs)) <|
    .nil _

theorem written_toJson {depth : Nat} {c : Change} (h : c.Fits) :
    Json.Written (depth + 2) reader c.toJson c := by
  refine Json.written_record (fills_members h) ?_
  simp only [Json.join_map_some]
  rfl

structure Draft.Fits (d : Draft) : Prop where
  path : ∀ p ∈ d.path, p.Fits
  modifiedPath : ∀ p ∈ d.modifiedPath.join, p.Fits
  baseLine : ∀ n ∈ d.baseLine.join, n < Json.wordBound
  modifiedLine : ∀ n ∈ d.modifiedLine.join, n < Json.wordBound
  anchor : ∀ s ∈ d.anchor.join, s.Fits

theorem yields_fields (m : Json.Member Draft) (hm : m ∈ fields) :
    ∀ d, Draft.Fits d → Json.Yields (m.read d) Draft.Fits := by
  simp only [fields, List.mem_cons, List.not_mem_nil, or_false] at hm
  rcases hm with rfl | rfl | rfl | rfl | rfl | rfl | rfl | rfl
  · exact Json.yields_required (Json.yields_any _) fun d _ hd _ => { hd with }
  · exact Json.yields_required Path.yields_reader fun d p hd hp =>
      { hd with path := by simpa using hp }
  · exact Json.yields_optional Path.yields_reader fun d o hd ho => { hd with modifiedPath := ho }
  · exact Json.yields_optional (Json.yields_natBelow _) fun d o hd ho => { hd with baseLine := ho }
  · exact Json.yields_optional (Json.yields_natBelow _) fun d o hd ho =>
      { hd with modifiedLine := ho }
  · exact Json.yields_optional (Json.yields_any _) fun d _ hd _ => { hd with }
  · exact Json.yields_optional (Json.yields_any _) fun d _ hd _ => { hd with }
  · exact Json.yields_optional Site.yields_reader fun d o hd ho => { hd with anchor := ho }

theorem yields_reader : Json.Yields reader Fits := by
  refine Json.yields_record yields_fields
    ⟨by simp, by simp, by simp, by simp, by simp⟩ fun d c hd hMake => ?_
  simp only [Option.pure_def, Option.bind_eq_bind, Option.bind_eq_some_iff] at hMake
  obtain ⟨kind, -, path, hPath, hChange⟩ := hMake
  cases hChange
  exact ⟨hd.path path hPath, hd.modifiedPath, hd.baseLine, hd.modifiedLine, hd.anchor⟩

end Change

end Reanalysis
