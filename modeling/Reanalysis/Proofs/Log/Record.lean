import Reanalysis.Proofs.Log.Line
import Reanalysis.Proofs.Wire

/-!
# Runs and samples as lines

What is written of a run or of a sample is a line that is read back, whenever its floating-point
numbers are. A run comes back with all but the exact seconds, a sample with all but the exact budget.
-/

namespace Reanalysis

open Json Log

/-! ## Objects of numbers and names -/

theorem Json.marked_commaSeparated {ts : List (List Char)} (h : ∀ t ∈ ts, Marked t) :
    Marked (commaSeparated ts) := by
  cases ts with
  | nil => exact List.forall_mem_nil _
  | cons t ts =>
    rw [commaSeparated_cons, marked_append]
    refine ⟨h t List.mem_cons_self, ?_⟩
    intro c hc
    obtain ⟨u, hu, hMem⟩ := List.mem_flatMap.mp hc
    rcases List.mem_cons.mp hMem with rfl | hMem
    · decide
    · exact h u (List.mem_cons_of_mem _ hu) c hMem

theorem Log.braced_object {members : List (String × Option Value)}
    (h : ∀ p ∈ members, Marked (quoted p.1) ∧ ∀ v ∈ p.2, Marked v.chars) :
    Braced (Value.object (present members)).chars := by
  refine ⟨commaSeparated (Value.memberChars (present members)), rfl, marked_commaSeparated ?_⟩
  rw [memberChars_eq_map]
  intro t ht
  obtain ⟨q, hq, rfl⟩ := List.mem_map.mp ht
  obtain ⟨p, hp, hPresent⟩ := List.mem_filterMap.mp hq
  obtain ⟨v, hv, rfl⟩ := Option.map_eq_some_iff.mp hPresent
  obtain ⟨hName, hValue⟩ := h p hp
  exact marked_append.mpr ⟨hName, marked_cons.mpr ⟨by decide, hValue v hv⟩⟩

theorem Json.readWhole_of_run {α : Type} {r : Reader α} {cs : List Char} {a : α}
    (h : ∀ rest, r.run (cs ++ rest) = .ok (a, rest)) : readWhole r cs = .ok a := by
  have hAlone := h []
  rw [List.append_nil] at hAlone
  rw [readWhole, hAlone]
  rfl

theorem Json.readWhole_of_toOption {α : Type} {r : Reader α} {cs : List Char} {a : α}
    (h : (Json.read r (String.ofList cs)).toOption = some a) : readWhole r cs = .ok a := by
  rw [Json.read, String.toList_ofList] at h
  cases hRead : readWhole r cs with
  | error e => rw [hRead] at h; cases h
  | ok b => rw [hRead] at h; cases h; rfl

/-! ## Runs -/

namespace Run

/-- The numbers of the run can be read back from their text, the seconds as a time. -/
structure Storable (r : Run) : Prop where
  code : -0x80000000 ≤ r.code ∧ r.code < 0x80000000
  seconds : ∃ x, ReadsBack r.seconds x ∧ x.isFinite = true ∧ ¬ x < 0.0
  budget : ∀ b ∈ r.budget, ∃ x, ReadsBack b x

/-- The runs that are recorded: with a code of 32 bits, and with a finite budget if with any. -/
inductive Built : Run → Prop
  | completed (program : ProgramId) (mode : Mode) (seconds : Float) {code : Int}
      (hCode : -0x80000000 ≤ code ∧ code < 0x80000000) : Built (.completed program mode seconds code)
  | timedOut (program : ProgramId) (mode : Mode) (seconds : Float) :
      Built (.timedOut program mode seconds)
  | launchFailed (program : ProgramId) (mode : Mode) (seconds : Float) :
      Built (.launchFailed program mode seconds)
  | withBudget {r : Run} {budget : Float} (h : Built r) (hFinite : budget.isFinite = true) :
      Built (r.withBudget budget)

/-- The numbers of the run read back as they should. -/
def Legible (r : Run) : Prop := Faithful r.seconds ∧ ∀ b ∈ r.budget, Faithful b

instance (r : Run) : Decidable r.Legible := inferInstanceAs (Decidable (_ ∧ _))

theorem elapsed_cases (x : Float) : (elapsed x).isFinite = true ∧ 0.0 ≤ elapsed x := by
  rw [elapsed, atLeastZero]
  split
  · rename_i hFinite
    split
    · rename_i hPositive
      exact ⟨hFinite, float_le_of_lt hPositive⟩
    · decide
  · decide

theorem Storable.of_elapsed {r : Run} {x : Float} (hCode : -0x80000000 ≤ r.code ∧ r.code < 0x80000000)
    (hSeconds : r.seconds = elapsed x) (hBudget : ∀ b ∈ r.budget, b.isFinite = true) (h : r.Legible) :
    r.Storable := by
  obtain ⟨hFinite, hSign⟩ := elapsed_cases x
  refine ⟨hCode, ?_, fun b hb => ?_⟩
  · rw [← hSeconds] at hFinite hSign
    obtain ⟨y, hRead, hy, hKept, -⟩ := h.1 hFinite
    exact ⟨y, hRead, hy, float_not_lt_of_le (hKept hSign)⟩
  · obtain ⟨y, hRead, -⟩ := h.2 b hb (hBudget b hb)
    exact ⟨y, hRead⟩

theorem Built.storable {r : Run} (hBuilt : r.Built) (h : r.Legible) : r.Storable := by
  have hParts : (-0x80000000 ≤ r.code ∧ r.code < 0x80000000) ∧ (∃ x, r.seconds = elapsed x) ∧
      ∀ b ∈ r.budget, b.isFinite = true := by
    clear h
    induction hBuilt with
    | completed program mode seconds hCode => exact ⟨hCode, ⟨seconds, rfl⟩, nofun⟩
    | timedOut program mode seconds =>
      have hCode : -0x80000000 ≤ Status.timeoutCode ∧ Status.timeoutCode < 0x80000000 := by decide
      exact ⟨hCode, ⟨seconds, rfl⟩, nofun⟩
    | launchFailed program mode seconds =>
      have hCode : -0x80000000 ≤ Status.launchCode ∧ Status.launchCode < 0x80000000 := by decide
      exact ⟨hCode, ⟨seconds, rfl⟩, nofun⟩
    | withBudget _ hFinite ih =>
      refine ⟨ih.1, ih.2.1, ?_⟩
      rintro b hb
      cases hb
      exact hFinite
  obtain ⟨hCode, ⟨x, hSeconds⟩, hBudget⟩ := hParts
  exact .of_elapsed hCode hSeconds hBudget h

/-- What a log keeps of a run. -/
structure Recalled (r r' : Run) : Prop where
  program : r'.program = r.program
  code : r'.code = r.code
  status : r'.status = r.status
  mode : r'.mode = r.mode
  budget : r'.budget.isSome = r.budget.isSome

theorem marked_status (s : Status) : Marked s.toJson.chars := by cases s <;> decide

theorem marked_mode (m : Mode) : Marked m.toJson.chars := by cases m <;> decide

theorem braced_toJson (r : Run) : Braced r.toEntry.toJson.chars := by
  apply braced_object
  simp only [toEntry, Option.map_some, List.forall_mem_cons, Option.mem_def, Option.some.injEq,
    forall_eq']
  refine ⟨⟨by decide, marked_intChars _⟩, ⟨by decide, marked_floatChars _⟩,
    ⟨by decide, marked_intChars _⟩, ⟨by decide, marked_status _⟩, ⟨by decide, marked_mode _⟩,
    ⟨by decide, ?_⟩, List.forall_mem_nil _⟩
  intro v hv
  obtain ⟨b, -, rfl⟩ := Option.map_eq_some_iff.mp hv
  exact marked_floatChars b

theorem keeps_fields (m : Member Entry.Draft) (hm : m ∈ Entry.fields) (d : Entry.Draft) :
    Keeps (m.read d) := by
  simp only [Entry.fields, List.mem_cons, List.not_mem_nil, or_false] at hm
  rcases hm with rfl | rfl | rfl | rfl | rfl | rfl
  · exact keeps_required (keeps_typedNumber _) d
  · exact keeps_required (keeps_typedNumber _) d
  · exact keeps_required (keeps_typedNumber _) d
  · exact keeps_optional (keeps_named _) d
  · exact keeps_optional (keeps_named _) d
  · exact keeps_optional (keeps_typedNumber _) d

theorem keeps_reader : Keeps Entry.reader := keeps_record keeps_fields _ _

theorem run_reader {r : Run} (h : r.Storable) : ∃ x budget,
    (x.isFinite = true ∧ ¬ x < 0.0) ∧ budget.isSome = r.budget.isSome ∧
    ∀ rest, Entry.reader.run (r.toEntry.toJson.chars ++ rest) =
      .ok (⟨r.program.number, x, r.code, some r.status, some r.mode, budget⟩, rest) := by
  obtain ⟨x, hx, hTime⟩ := h.seconds
  have hProgram : Written 0 (natBelow 0x100000000) (.nat r.program.number) r.program.number :=
    written_natBelow r.program.bounded (Nat.lt_trans r.program.bounded (by decide))
  have hCode := reads_int32 h.code.1 h.code.2
  have hStatus : Written 0 Status.reader r.status.toJson r.status :=
    written_named r.status.ofName?_name
  have hMode : Written 0 Mode.reader r.mode.toJson r.mode := written_named r.mode.ofName?_name
  obtain ⟨budget, hSome, hLeads⟩ : ∃ budget : Option Float, budget.isSome = r.budget.isSome ∧
      Leads (memberOf Entry.fields passOver)
        ⟨some r.program.number, some x, some r.code, some (some r.status), some (some r.mode), none⟩
        (present [("budget", r.budget.map .float)])
        ⟨some r.program.number, some x, some r.code, some (some r.status), some (some r.mode),
          budget.map some⟩ := by
    cases hBudget : r.budget with
    | none => exact ⟨none, rfl, .nil _⟩
    | some b =>
      obtain ⟨y, hy⟩ := h.budget b hBudget
      exact ⟨some y, rfl, .optional rfl rfl hy.reads_nullable (.nil _)⟩
  have hMembers : Leads (memberOf Entry.fields passOver) {}
      (present
        [("id", some (.nat r.program.number)),
         ("time", some (.float r.seconds)),
         ("return_code", some (.int r.code)),
         ("status", some r.status.toJson),
         ("mode", some r.mode.toJson),
         ("budget", r.budget.map .float)])
      ⟨some r.program.number, some x, some r.code, some (some r.status), some (some r.mode),
        budget.map some⟩ :=
    .required rfl rfl hProgram.reads <|
    .required rfl rfl hx.reads <|
    .required rfl rfl hCode <|
    .optional rfl rfl hStatus.nullable <|
    .optional rfl rfl hMode.nullable hLeads
  exact ⟨x, budget, hTime, hSome, run_record hMembers (by simp)⟩

theorem line_toJson {r : Run} (h : r.Storable) (fallback : Mode) :
    ∃ r', Recalled r r' ∧ Line (parseRun fallback) r.toEntry.toJson.chars r' := by
  obtain ⟨x, budget, ⟨hFinite, hSign⟩, hBudget, hRun⟩ := run_reader h
  refine ⟨⟨r.program, x, r.code, r.status, r.mode, budget⟩, ⟨rfl, rfl, rfl, rfl, hBudget⟩, ?_⟩
  refine line_of_reader keeps_reader (fun cs b hParse => ?_) r.braced_toJson hRun ?_
  · obtain ⟨e, he, -⟩ := Option.bind_eq_some_iff.mp hParse
    exact ⟨e, readWhole_of_toOption he⟩
  · have hEntry := ofEntry_toEntry ⟨r.program, x, r.code, r.status, r.mode, budget⟩ fallback hFinite hSign
    rw [parseRun, Json.read, String.toList_ofList, readWhole_of_run hRun]
    exact congrArg Except.toOption hEntry

end Run

/-! ## Samples -/

namespace Sample

/-- The numbers of the sample can be read back from their text, the budget as a budget. -/
structure Storable (s : Sample) : Prop where
  reached : s.reached < wordBound
  budget : ∃ x, ReadsBack s.budget x ∧ x.isFinite = true ∧ ¬ x ≤ 0.0

/-- The sample can be recorded, and its budget reads back as it should. -/
structure Recordable (s : Sample) : Prop where
  valid : s.validate = .ok s
  reached : s.reached < wordBound
  budget : Faithful s.budget

theorem Recordable.storable {s : Sample} (h : s.Recordable) : s.Storable := by
  have hValid := h.valid
  rw [validate] at hValid
  split at hValid
  · cases hValid
  · rename_i hBudget
    simp only [Bool.or_eq_true, Bool.not_eq_true', decide_eq_true_eq, not_or, Bool.not_eq_false] at hBudget
    obtain ⟨hFinite, hSign⟩ := hBudget
    obtain ⟨y, hRead, hy, -, hKept⟩ := h.budget hFinite
    have hPositive := hKept (float_lt_of_not_le hFinite hSign)
    exact ⟨h.reached, y, hRead, hy, float_not_le_of_lt hPositive⟩

/-- What a log keeps of a sample. -/
structure Recalled (s s' : Sample) : Prop where
  program : s'.program = s.program
  reached : s'.reached = s.reached

theorem braced_toJson (s : Sample) : Braced s.toJson.chars := by
  have hMembers : s.toJson = .object (present
      [("program_id", some s.program.toJson), ("time_budget_seconds", some (.float s.budget)),
        ("branches_reached", some (.nat s.reached))]) := rfl
  rw [hMembers]
  apply braced_object
  simp only [List.forall_mem_cons, Option.mem_def, Option.some.injEq, forall_eq']
  exact ⟨⟨by decide, marked_intChars _⟩, ⟨by decide, marked_floatChars _⟩,
    ⟨by decide, marked_intChars _⟩, List.forall_mem_nil _⟩

theorem keeps_fields (m : Member Draft) (hm : m ∈ fields) (d : Draft) : Keeps (m.read d) := by
  simp only [fields, List.mem_cons, List.not_mem_nil, or_false] at hm
  rcases hm with rfl | rfl | rfl
  · exact keeps_required ((keeps_typedNumber _).refined _) d
  · exact keeps_required (keeps_typedNumber _) d
  · exact keeps_required (keeps_typedNumber _) d

theorem keeps_reader : Keeps reader := keeps_record keeps_fields _ _

theorem line_toJson {s : Sample} (h : s.Storable) :
    ∃ s', Recalled s s' ∧ Line parseSample s.toJson.chars s' := by
  obtain ⟨x, hx, hFinite, hSign⟩ := h.budget
  have hProgram : Written 0 ProgramId.reader s.program.toJson s.program := s.program.written_toJson
  have hReached : Written 0 nat64 (.nat s.reached) s.reached := written_natBelow h.reached h.reached
  have hMembers : Leads (memberOf fields passOver) {}
      (present
        [("program_id", some s.program.toJson),
         ("time_budget_seconds", some (.float s.budget)),
         ("branches_reached", some (.nat s.reached))])
      ⟨some s.program, some x, some s.reached⟩ :=
    .required rfl rfl hProgram.reads <|
    .required rfl rfl hx.reads <|
    .required rfl rfl hReached.reads <| .nil _
  have hRun : ∀ rest, reader.run (s.toJson.chars ++ rest) = .ok (⟨s.program, x, s.reached⟩, rest) :=
    run_record hMembers rfl
  refine ⟨⟨s.program, x, s.reached⟩, ⟨rfl, rfl⟩, ?_⟩
  refine line_of_reader keeps_reader (fun cs b hParse => ?_) s.braced_toJson hRun ?_
  · obtain ⟨e, he, -⟩ := Option.bind_eq_some_iff.mp hParse
    exact ⟨e, readWhole_of_toOption he⟩
  · have hValid : validate ⟨s.program, x, s.reached⟩ = .ok ⟨s.program, x, s.reached⟩ := by
      simp [validate, hFinite, hSign]
    rw [parseSample, Json.read, String.toList_ofList, readWhole_of_run hRun]
    change (validate _).toOption = _
    rw [hValid]
    rfl

end Sample

end Reanalysis
