import Reanalysis.Diff.Document
import Reanalysis.Proofs.Wire

/-!
# Diff documents on the wire

A header holds the members of its plan among its own ones: the reader keeps what it does not know
as text and reads the plan off that text. A document survives being written and read exactly when
its numbers are machine words and its header announces as many changes as there are, and every text
that is accepted stands for such a document.
-/

namespace Reanalysis

@[mk_iff]
structure Plan.Fits (p : Plan) : Prop where
  invalidated : ∀ s ∈ p.invalidated, s.Fits
  reusable : ∀ s ∈ p.reusable, s.Fits
  resumeFrom : ∀ s ∈ p.resumeFrom, s.Fits

instance (p : Plan) : Decidable p.Fits := decidable_of_iff' _ (Plan.fits_iff p)

namespace Diff

namespace Header

@[mk_iff]
structure Fits (h : Header) : Prop where
  changeCount : h.changeCount < Json.wordBound
  plan : h.plan.Fits

instance (h : Header) : Decidable h.Fits := decidable_of_iff' _ (fits_iff h)

/-! ## Members that are kept as text -/

theorem reads_keep {v : Json.Value} (h : v.Plain (Json.depthLimit - 1)) (name : String)
    (d : Draft) :
    Json.Reads (keep name d) (':' :: v.chars)
      { d with others := d.others ++ [(name, v.chars)] } := by
  intro rest hRest
  have hValue := Json.reads_value h rest hRest
  simp [keep, Json.captured, hValue]

theorem fills_others {kvs : List (String × Json.Value)}
    (h : ∀ p ∈ kvs, fields.find? (·.name = p.1) = none ∧ p.2.Plain (Json.depthLimit - 1))
    (d : Draft) :
    Json.Fills (Json.depthLimit - 1) (Json.memberOf fields keep) d kvs
      { d with others := d.others ++ kvs.map fun p => (p.1, p.2.chars) } := by
  induction kvs generalizing d with
  | nil => simpa using .nil d
  | cons p kvs ih =>
    obtain ⟨hFind, hPlain⟩ := h p List.mem_cons_self
    have hRest := ih (fun q hq => h q (List.mem_cons_of_mem _ hq))
      { d with others := d.others ++ [(p.1, p.2.chars)] }
    have hKeep : Json.Reads (Json.memberOf fields keep p.1 d) (':' :: p.2.chars)
        { d with others := d.others ++ [(p.1, p.2.chars)] } := by
      rw [Json.memberOf, hFind]
      exact reads_keep hPlain p.1 d
    simpa using Json.Fills.cons hPlain hKeep hRest

/-! ## The plan -/

theorem written_sites {ss : List Site} (h : ∀ s ∈ ss, s.Fits) :
    Json.Written (Json.depthLimit - 1) (Json.listOf Site.reader) (.list (ss.map Site.toJson)) ss :=
  Json.written_listOf fun s hs => Site.written_toJson (h s hs)

theorem plain_planMembers {p : Plan} (h : p.Fits) :
    ∀ kv ∈ Json.present p.members,
      fields.find? (·.name = kv.1) = none ∧ kv.2.Plain (Json.depthLimit - 1) := by
  intro kv hkv
  obtain ⟨⟨name, v⟩, hMember, hValue⟩ := List.mem_filterMap.mp hkv
  obtain ⟨v, rfl, rfl⟩ := Option.map_eq_some_iff.mp hValue
  simp only [Plan.members, List.mem_cons, List.not_mem_nil, or_false, Prod.mk.injEq] at hMember
  rcases hMember with ⟨rfl, hv⟩ | ⟨rfl, hv⟩ | ⟨rfl, hv⟩
  · cases hv
    exact ⟨rfl, (written_sites h.invalidated).plain⟩
  · cases hv
    exact ⟨rfl, (written_sites h.reusable).plain⟩
  · obtain ⟨s, hs, rfl⟩ := Option.map_eq_some_iff.mp hv.symm
    exact ⟨rfl, (Site.written_toJson (h.resumeFrom s hs)).plain⟩

theorem planFrom_cons {m : Json.Member PlanDraft} {name : String} {v : Json.Value}
    {d d' : PlanDraft} (hFind : planFields.find? (·.name = name) = some m)
    (hFree : m.taken d = false) (h : Json.Reads (m.read d) v.chars d')
    (rest : List (String × List Char)) :
    planFrom d ((name, v.chars) :: rest) = planFrom d' rest := by
  simp [planFrom, hFind, hFree, h.readWhole]

theorem planFrom_members {p : Plan} (h : p.Fits) :
    planFrom {} ((Json.present p.members).map fun kv => (kv.1, kv.2.chars)) =
      some ⟨some p.invalidated, some p.reusable, p.resumeFrom.map some⟩ := by
  obtain ⟨invalidated, reusable, resumeFrom⟩ := p
  have hInvalidated := (written_sites h.invalidated).reads.map fun ss =>
    (⟨some ss, none, none⟩ : PlanDraft)
  have hReusable := (written_sites h.reusable).reads.map fun ss =>
    (⟨some invalidated, some ss, none⟩ : PlanDraft)
  cases resumeFrom with
  | none => exact (planFrom_cons rfl rfl hInvalidated _).trans (planFrom_cons rfl rfl hReusable _)
  | some s =>
    have hSite : Json.Written 1 Site.reader s.toJson s := Site.written_toJson (h.resumeFrom s rfl)
    have hResume := hSite.nullable.map fun o =>
      (⟨some invalidated, some reusable, some o⟩ : PlanDraft)
    exact (planFrom_cons rfl rfl hInvalidated _).trans <|
      (planFrom_cons rfl rfl hReusable _).trans (planFrom_cons rfl rfl hResume _)

theorem written_toJson {h : Header} (hFits : h.Fits) :
    Json.Written Json.depthLimit reader h.toJson h := by
  have hFills : Json.Fills (Json.depthLimit - 1) (Json.memberOf fields keep) {}
      (Json.present
        ([("program_id", some h.program.toJson),
          ("base_digest", some h.baseDigest.toJson),
          ("modified_digest", some h.modifiedDigest.toJson),
          ("change_count", some (.nat h.changeCount))] ++ h.plan.members))
      ⟨some h.program, some h.baseDigest, some h.modifiedDigest, some h.changeCount,
        (Json.present h.plan.members).map fun kv => (kv.1, kv.2.chars)⟩ :=
    .required rfl rfl h.program.written_toJson <|
    .required rfl rfl h.baseDigest.written_toJson <|
    .required rfl rfl h.modifiedDigest.written_toJson <|
    .required rfl rfl (Json.written_natBelow hFits.changeCount hFits.changeCount) <|
    fills_others (plain_planMembers hFits.plan) _
  refine ⟨hFills.plain, by simp [toJson], ?_⟩
  intro rest hRest
  have hMembers := Json.reads_members hFills rest hRest
  have hMake : make? ⟨some h.program, some h.baseDigest, some h.modifiedDigest, some h.changeCount,
      (Json.present h.plan.members).map fun kv => (kv.1, kv.2.chars)⟩ = some h := by
    simp [make?, planFrom_members hFits.plan]
  rw [toJson, Json.Value.chars, List.cons_append, reader, Json.run_lookValue_bind (by decide),
    if_pos rfl]
  simp only [StateT.run_bind, Json.run_advance, Json.ok_bind, hMembers, hMake, StateT.run_pure,
    Json.pure_eq_ok]

/-! ## What the reader returns -/

structure PlanDraft.Fits (d : PlanDraft) : Prop where
  invalidated : ∀ ss ∈ d.invalidated, ∀ s ∈ ss, s.Fits
  reusable : ∀ ss ∈ d.reusable, ∀ s ∈ ss, s.Fits
  resumeFrom : ∀ s ∈ d.resumeFrom.join, s.Fits

theorem yields_planFields (m : Json.Member PlanDraft) (hm : m ∈ planFields) :
    ∀ d, PlanDraft.Fits d → Json.Yields (m.read d) PlanDraft.Fits := by
  simp only [planFields, List.mem_cons, List.not_mem_nil, or_false] at hm
  rcases hm with rfl | rfl | rfl
  · exact Json.yields_required Site.yields_reader.listOf fun d ss hd hss =>
      { hd with invalidated := by simpa using hss }
  · exact Json.yields_required Site.yields_reader.listOf fun d ss hd hss =>
      { hd with reusable := by simpa using hss }
  · exact Json.yields_optional Site.yields_reader fun d o hd ho => { hd with resumeFrom := ho }

theorem PlanDraft.Fits.planFrom {d d' : PlanDraft} (h : d.Fits) {kept : List (String × List Char)}
    (hPlan : Header.planFrom d kept = some d') : d'.Fits := by
  induction kept generalizing d with
  | nil =>
    cases hPlan
    exact h
  | cons p kept ih =>
    obtain ⟨name, text⟩ := p
    rw [Header.planFrom] at hPlan
    split at hPlan
    · exact ih h hPlan
    · rename_i m hFind
      split at hPlan
      · cases hPlan
      · split at hPlan
        · rename_i next hRead
          have hYields := yields_planFields m (List.mem_of_find?_eq_some hFind) d h
          exact ih (hYields.readWhole hRead) hPlan
        · cases hPlan

theorem yields_keep (name : String) (d : Draft) (hd : ∀ n ∈ d.changeCount, n < Json.wordBound) :
    Json.Yields (keep name d) fun d => ∀ n ∈ d.changeCount, n < Json.wordBound :=
  Json.yields_after fun _ => Json.yields_after fun _ => Json.yields_pure hd

theorem yields_fields (m : Json.Member Draft) (hm : m ∈ fields) :
    ∀ d : Draft, (∀ n ∈ d.changeCount, n < Json.wordBound) →
      Json.Yields (m.read d) fun d => ∀ n ∈ d.changeCount, n < Json.wordBound := by
  simp only [fields, List.mem_cons, List.not_mem_nil, or_false] at hm
  rcases hm with rfl | rfl | rfl | rfl
  · exact Json.yields_required (Json.yields_any _) fun d _ hd _ => hd
  · exact Json.yields_required (Json.yields_any _) fun d _ hd _ => hd
  · exact Json.yields_required (Json.yields_any _) fun d _ hd _ => hd
  · exact Json.yields_required (Json.yields_natBelow _) fun d n _ hn => by simpa using hn

theorem fits_of_make? {d : Draft} {h : Header} (hd : ∀ n ∈ d.changeCount, n < Json.wordBound)
    (hMake : make? d = some h) : h.Fits := by
  simp only [make?, Option.pure_def, Option.bind_eq_bind, Option.bind_eq_some_iff] at hMake
  obtain ⟨_, -, _, -, _, -, count, hCount, plan, hPlan, invalidated, hInvalidated, reusable,
    hReusable, hHeader⟩ := hMake
  cases hHeader
  have hFits : plan.Fits := PlanDraft.Fits.planFrom ⟨by simp, by simp, by simp⟩ hPlan
  exact ⟨hd count hCount, hFits.invalidated _ hInvalidated, hFits.reusable _ hReusable,
    hFits.resumeFrom⟩

theorem yields_reader : Json.Yields reader Fits := by
  refine Json.yields_after fun c => ?_
  split
  · refine Json.yields_after fun _ => ?_
    refine (Json.yields_members (Json.yields_memberOf yields_fields yields_keep)
      (by simp)).bind fun d hd => ?_
    split
    · rename_i h hMake
      exact Json.yields_pure (fits_of_make? hd hMake)
    · exact Json.yields_throw _
  split
  · exact Json.yields_throw _
  · exact Json.yields_mismatch c

end Header

/-! ## Documents -/

namespace Document

/-- The numbers are machine words. -/
@[mk_iff]
structure Fits (d : Document) : Prop where
  header : d.header.Fits
  changes : ∀ c ∈ d.changes, c.Fits

instance (d : Document) : Decidable d.Fits := decidable_of_iff' _ (fits_iff d)

theorem readLine_render {α : Type} {depth : Nat} {r : Json.Reader α} {v : Json.Value} {a : α}
    (h : Json.Written depth r v a) : readLine r v.render = .ok a := by
  rw [readLine, Json.read, Json.Value.render, String.toList_ofList, h.reads.readWhole]

theorem mapM_readLine {cs : List Change} (h : ∀ c ∈ cs, c.Fits) :
    (cs.map (·.toJson.render)).mapM (readLine Change.reader) = .ok cs := by
  induction cs with
  | nil => rfl
  | cons c cs ih =>
    have hWritten : Json.Written 2 Change.reader c.toJson c :=
      Change.written_toJson (h c List.mem_cons_self)
    rw [List.map_cons, List.mapM_cons, readLine_render hWritten,
      ih fun c' hc' => h c' (List.mem_cons_of_mem _ hc')]
    rfl

theorem render_object {depth : Nat} {kvs : List (String × Json.Value)}
    (h : (Json.Value.object kvs).Plain depth) :
    ('\n' ∉ (Json.Value.object kvs).render.toList ∧ '\r' ∉ (Json.Value.object kvs).render.toList) ∧
      Text.isBlankText (Json.Value.object kvs).render = false := by
  have hPrintable := Json.Value.printable h
  rw [Text.isBlankText, Json.Value.render, String.toList_ofList]
  refine ⟨⟨fun hFeed => ?_, fun hReturn => ?_⟩, ?_⟩
  · exact absurd (hPrintable _ hFeed) (by decide)
  · exact absurd (hPrintable _ hReturn) (by decide)
  · rw [Json.Value.chars, List.all_cons, show Text.isBlank '\x7b' = false by decide, Bool.false_and]

theorem exists_object_of_mem_lines {d : Document} (h : d.Fits) {l : String} (hl : l ∈ d.lines) :
    ∃ depth kvs, (Json.Value.object kvs).Plain depth ∧ l = (Json.Value.object kvs).render := by
  rcases List.mem_cons.mp hl with rfl | hl
  · exact ⟨_, _, (Header.written_toJson h.header).plain, rfl⟩
  · obtain ⟨c, hc, rfl⟩ := List.mem_map.mp hl
    have hWritten : Json.Written 2 Change.reader c.toJson c :=
      Change.written_toJson (h.changes c hc)
    exact ⟨_, _, hWritten.plain, rfl⟩

theorem mem_lines {d : Document} (h : d.Fits) {l : String} (hl : l ∈ d.lines) :
    ('\n' ∉ l.toList ∧ '\r' ∉ l.toList) ∧ Text.isBlankText l = false := by
  obtain ⟨depth, kvs, hPlain, rfl⟩ := exists_object_of_mem_lines h hl
  exact render_object hPlain

theorem parse_render {d : Document} (h : d.Fits)
    (hCount : d.header.changeCount = d.changes.length) : parse d.render = .ok d := by
  have hLines : (Text.lines d.render).filter (!Text.isBlankText ·) = d.lines := by
    rw [render, Text.lines_join fun l hl => (mem_lines h hl).1, List.filter_eq_self]
    intro l hl
    rw [(mem_lines h hl).2]
    rfl
  rw [parse, hLines, lines]
  simp [readLine_render (Header.written_toJson h.header), mapM_readLine h.changes, hCount]

theorem fits_of_readLine {α : Type} {r : Json.Reader α} {P : α → Prop} (h : Json.Yields r P)
    {line : String} {a : α} (hRead : readLine r line = .ok a) : P a := by
  rw [readLine] at hRead
  split at hRead
  · rename_i b hLine
    cases hRead
    exact h.readWhole hLine
  · cases hRead

theorem fits_of_mapM_readLine {ls : List String} {cs : List Change}
    (h : ls.mapM (readLine Change.reader) = .ok cs) : ∀ c ∈ cs, c.Fits := by
  induction ls generalizing cs with
  | nil =>
    cases h
    simp
  | cons l ls ih =>
    rw [List.mapM_cons] at h
    cases hHead : readLine Change.reader l with
    | error e => rw [hHead] at h; cases h
    | ok c =>
      cases hTail : ls.mapM (readLine Change.reader) with
      | error e => rw [hHead, hTail] at h; cases h
      | ok rest =>
        rw [hHead, hTail] at h
        cases h
        exact List.forall_mem_cons.mpr
          ⟨fits_of_readLine Change.yields_reader hHead, ih hTail⟩

theorem fits_of_parse {text : String} {d : Document} (h : parse text = .ok d) :
    d.Fits ∧ d.header.changeCount = d.changes.length := by
  rw [parse] at h
  split at h
  · cases h
  · rename_i first rest hLines
    cases hHeader : readLine Header.reader first with
    | error e => rw [hHeader] at h; cases h
    | ok header =>
      cases hChanges : rest.mapM (readLine Change.reader) with
      | error e => rw [hHeader, hChanges] at h; cases h
      | ok changes =>
        rw [hHeader, hChanges] at h
        simp only [Json.ok_bind] at h
        split at h
        · cases h
        · rename_i hCount
          cases h
          exact ⟨⟨fits_of_readLine Header.yields_reader hHeader, fits_of_mapM_readLine hChanges⟩,
            (Decidable.not_not.mp hCount).symm⟩

/-- A document survives the wire exactly when its numbers are machine words and its header announces
its changes, and every text that is accepted is read as such a document. -/
theorem wire_round_trip :
    (∀ d : Document, parse d.render = .ok d ↔
      d.Fits ∧ d.header.changeCount = d.changes.length) ∧
    ∀ (text : String) (d : Document), parse text = .ok d →
      d.header.changeCount = d.changes.length ∧ parse d.render = .ok d := by
  refine ⟨fun d => ⟨fits_of_parse, fun h => parse_render h.1 h.2⟩, fun text d h => ?_⟩
  obtain ⟨hFits, hCount⟩ := fits_of_parse h
  exact ⟨hCount, parse_render hFits hCount⟩

/-- Quotes, backslashes, line ends and control characters in texts, and the largest index. -/
def unusualDocument : Document where
  header := {
    program := ⟨1, Nat.one_pos, ProgramId.one_bounded⟩
    baseDigest := ⟨List.replicate 32 0xab, by decide⟩
    modifiedDigest := ⟨List.replicate 32 0, by decide⟩
    changeCount := 2
    plan := ⟨[⟨[.index 1], "( a == \"\\\" )", 3⟩], [],
      some ⟨[.index 0xffffffffffffffff, .elseArm, .index 0], "( \r\n )", 0⟩⟩ }
  changes :=
    [⟨.removed, [.index 0], none, some 1, none, some "say ( \"\t\x01é\" ) ;", none, none⟩,
     ⟨.added, [], some [.index 2], none, some 4, none, some "",
       some ⟨[.index 1], "( a == \"\\\" )", 3⟩⟩]

theorem unusualDocument_round_trip :
    unusualDocument.Fits ∧ unusualDocument.header.changeCount = unusualDocument.changes.length ∧
      parse unusualDocument.render = .ok unusualDocument := by
  have hFits : unusualDocument.Fits := by decide
  have hParse := (wire_round_trip.1 unusualDocument).mpr ⟨hFits, rfl⟩
  obtain ⟨hCount, hAgain⟩ := wire_round_trip.2 unusualDocument.render unusualDocument hParse
  exact ⟨hFits, hCount, hAgain⟩

end Document

end Diff

end Reanalysis
