import Reanalysis.Proofs.Json.Token

/-!
# Written values read back

The items of a list and the members of an object are read back one after the other; `Fills` says
what a run through the members of an object makes of a state. A value without floating-point
numbers is read back as itself.
-/

namespace Reanalysis.Json

open Text

variable {α σ : Type}

/-! ## Text between brackets -/

theorem commaSeparated_cons (t : List Char) (ts : List (List Char)) :
    commaSeparated (t :: ts) = t ++ ts.flatMap (',' :: ·) := by
  induction ts generalizing t with
  | nil => simp [commaSeparated]
  | cons u ts ih => simp [commaSeparated, ih]

theorem length_le_separated (ts : List (List Char)) :
    ts.length ≤ (ts.flatMap (',' :: ·)).length := by
  induction ts with
  | nil => simp
  | cons t ts ih =>
    simp only [List.flatMap_cons, List.length_cons, List.length_append]
    omega

theorem itemChars_eq_map (items : List Value) : Value.itemChars items = items.map Value.chars := by
  induction items with
  | nil => rfl
  | cons v items ih => simp [Value.itemChars, ih]

theorem memberChars_eq_map (kvs : List (String × Value)) :
    Value.memberChars kvs = kvs.map fun p => quoted p.1 ++ ':' :: p.2.chars := by
  induction kvs with
  | nil => rfl
  | cons p kvs ih => simp [Value.memberChars, ih]

/-- The text starts with a character that can stand at the front of an item. -/
def Opens (cs : List Char) : Prop := ∃ c rest, cs = c :: rest ∧ isSpace c = false ∧ c ≠ ']'

theorem ends_separated (ts : List (List Char)) {close : Char}
    (h : close = ']' ∨ close = '\x7d') (rest : List Char) :
    Ends (ts.flatMap (',' :: ·) ++ close :: rest) := by
  cases ts with
  | nil => exact ends_cons (.inr h) rest
  | cons t ts => exact ends_cons (.inl rfl) _

section Elements

variable {element : Reader α} {text : α → List Char} {xs : List α}

theorem run_nextElement (first : Bool) {cs : List Char} (h : Opens cs) (rest : List Char) :
    (nextElement first).run ((if first then [] else [',']) ++ (cs ++ rest)) =
      .ok (true, cs ++ rest) := by
  obtain ⟨c, tail, rfl, hSpace, hClose⟩ := h
  cases first with
  | true => simp [nextElement, run_look hSpace]
  | false => simp [nextElement, run_look (show isSpace ',' = false by decide), run_look hSpace]

theorem run_nextElement_close (first : Bool) (rest : List Char) :
    (nextElement first).run (']' :: rest) = .ok (false, ']' :: rest) := by
  simp [nextElement, run_look (show isSpace ']' = false by decide)]

theorem elementsFrom_close (first : Bool) (fuel : Nat) (rest : List Char) :
    (elementsFrom element (fuel + 1) first).run (']' :: rest) = .ok ([], rest) := by
  simp [elementsFrom, run_nextElement_close]

theorem elementsFrom_item (first : Bool) {fuel : Nat} {x : α} {cs rest after : List Char}
    (hRead : Reads element cs x) (hOpens : Opens cs) (hEnds : Ends rest)
    (hRest : (elementsFrom element fuel false).run rest = .ok (xs, after)) :
    (elementsFrom element (fuel + 1) first).run ((if first then [] else [',']) ++ (cs ++ rest)) =
      .ok (x :: xs, after) := by
  simp [elementsFrom, run_nextElement first hOpens, hRead rest hEnds, hRest]

theorem elementsFrom_separated (h : ∀ x ∈ xs, Reads element (text x) x ∧ Opens (text x))
    {fuel : Nat} (hFuel : xs.length < fuel) (rest : List Char) :
    (elementsFrom element fuel false).run ((xs.map text).flatMap (',' :: ·) ++ ']' :: rest) =
      .ok (xs, rest) := by
  induction xs generalizing fuel with
  | nil =>
    obtain ⟨fuel, rfl⟩ := Nat.exists_eq_add_one_of_ne_zero (Nat.ne_zero_of_lt hFuel)
    exact elementsFrom_close false fuel rest
  | cons x xs ih =>
    obtain ⟨fuel, rfl⟩ := Nat.exists_eq_add_one_of_ne_zero (Nat.ne_zero_of_lt hFuel)
    obtain ⟨hRead, hOpens⟩ := h x List.mem_cons_self
    have hRest := ih (fun y hy => h y (List.mem_cons_of_mem _ hy))
      (Nat.lt_of_succ_lt_succ hFuel)
    have hStep := elementsFrom_item false hRead hOpens
      (ends_separated (xs.map text) (.inl rfl) rest) hRest
    simpa using hStep

theorem reads_elements (h : ∀ x ∈ xs, Reads element (text x) x ∧ Opens (text x)) :
    Reads (elements element) (commaSeparated (xs.map text) ++ [']']) xs := by
  intro rest _
  cases xs with
  | nil => simp [elements, commaSeparated, elementsFrom_close]
  | cons x xs =>
    obtain ⟨hRead, hOpens⟩ := h x List.mem_cons_self
    have hLength := length_le_separated (xs.map text)
    have hRest := elementsFrom_separated (fun y hy => h y (List.mem_cons_of_mem _ hy))
      (show xs.length < (commaSeparated ((x :: xs).map text) ++ ']' :: rest).length by
        rw [List.map_cons, commaSeparated_cons]
        simp only [List.length_append, List.length_map, List.length_cons] at hLength ⊢
        omega) rest
    have hStep := elementsFrom_item true hRead hOpens
      (ends_separated (xs.map text) (.inl rfl) rest) hRest
    rw [elements, StateT.run_bind, run_get, ok_bind, List.append_assoc, List.singleton_append]
    simpa [commaSeparated_cons] using hStep

end Elements

/-! ## Members -/

/-- No floating-point numbers, whole numbers within 64 bits, and at most `depth` brackets open at
once. -/
def Value.Plain : Nat → Value → Prop
  | _, .null | _, .bool _ | _, .text _ => True
  | _, .int n => -0x8000000000000000 ≤ n ∧ n < wordBound
  | _, .float _ => False
  | 0, .list _ | 0, .object _ => False
  | depth + 1, .list items => ∀ v ∈ items, Plain depth v
  | depth + 1, .object kvs => ∀ p ∈ kvs, Plain depth p.2

theorem Value.plain_int_iff {depth : Nat} {n : Int} :
    (Value.int n).Plain depth ↔ -0x8000000000000000 ≤ n ∧ n < wordBound := by
  cases depth <;> rfl

/-- Reading the members of an object one after the other leads from one state to another. -/
inductive Leads (member : String → σ → Reader σ) : σ → List (String × Value) → σ → Prop where
  | nil (s : σ) : Leads member s [] s
  | cons {s s₁ s₂ : σ} {name : String} {v : Value} {kvs : List (String × Value)} :
      Reads (member name s) (':' :: v.chars) s₁ → Leads member s₁ kvs s₂ →
        Leads member s ((name, v) :: kvs) s₂

/-- Reading the members of an object one after the other leads from one state to another. The
members have at most `depth` brackets open at once. -/
inductive Fills (depth : Nat) (member : String → σ → Reader σ) :
    σ → List (String × Value) → σ → Prop where
  | nil (s : σ) : Fills depth member s [] s
  | cons {s s₁ s₂ : σ} {name : String} {v : Value} {kvs : List (String × Value)} :
      v.Plain depth → Reads (member name s) (':' :: v.chars) s₁ → Fills depth member s₁ kvs s₂ →
        Fills depth member s ((name, v) :: kvs) s₂

section Members

variable {depth : Nat} {member : String → σ → Reader σ} {kvs : List (String × Value)} {s s₁ s₂ : σ}

theorem run_nextName (first : Bool) (name : String) (rest : List Char) :
    (nextName first).run ((if first then [] else [',']) ++ (quoted name ++ rest)) =
      .ok (some name, rest) := by
  cases first with
  | true =>
    simp [nextName, quoted, run_look (show isSpace '"' = false by decide), run_stringBody]
  | false =>
    simp [nextName, quoted, run_look (show isSpace ',' = false by decide),
      run_look (show isSpace '"' = false by decide), run_stringBody]

theorem membersFrom_close (first : Bool) (fuel : Nat) (s : σ) (rest : List Char) :
    (membersFrom member (fuel + 1) first s).run ('\x7d' :: rest) = .ok (s, rest) := by
  simp [membersFrom, nextName, run_look (show isSpace '\x7d' = false by decide)]

theorem membersFrom_member (first : Bool) {fuel : Nat} {name : String} {cs rest after : List Char}
    (hRead : Reads (member name s) cs s₁) (hEnds : Ends rest)
    (hRest : (membersFrom member fuel false s₁).run rest = .ok (s₂, after)) :
    (membersFrom member (fuel + 1) first s).run
        ((if first then [] else [',']) ++ (quoted name ++ cs ++ rest)) = .ok (s₂, after) := by
  rw [List.append_assoc]
  simp [membersFrom, run_nextName, hRead rest hEnds, hRest]

theorem membersFrom_separated (h : Leads member s kvs s₂) {fuel : Nat}
    (hFuel : kvs.length < fuel) (rest : List Char) :
    (membersFrom member fuel false s).run
        ((Value.memberChars kvs).flatMap (',' :: ·) ++ '\x7d' :: rest) = .ok (s₂, rest) := by
  induction h generalizing fuel with
  | nil s =>
    obtain ⟨fuel, rfl⟩ := Nat.exists_eq_add_one_of_ne_zero (Nat.ne_zero_of_lt hFuel)
    exact membersFrom_close false fuel s rest
  | cons hRead _ ih =>
    obtain ⟨fuel, rfl⟩ := Nat.exists_eq_add_one_of_ne_zero (Nat.ne_zero_of_lt hFuel)
    have hStep := membersFrom_member false hRead (ends_separated _ (.inr rfl) rest)
      (ih (Nat.lt_of_succ_lt_succ hFuel))
    simpa [Value.memberChars] using hStep

theorem run_members (h : Leads member s kvs s₂) (rest : List Char) :
    (members member s).run (commaSeparated (Value.memberChars kvs) ++ '\x7d' :: rest) =
      .ok (s₂, rest) := by
  rw [members, StateT.run_bind, run_get, ok_bind]
  cases h with
  | nil s => exact membersFrom_close true _ s rest
  | @cons _ s₁ _ name v kvs hRead hLeads =>
    have hLength := length_le_separated (Value.memberChars kvs)
    have hRest := membersFrom_separated hLeads
      (show kvs.length < (commaSeparated (Value.memberChars ((name, v) :: kvs)) ++
          '\x7d' :: rest).length by
        rw [Value.memberChars, commaSeparated_cons]
        simp only [memberChars_eq_map, List.length_append, List.length_map,
          List.length_cons] at hLength ⊢
        omega) rest
    have hStep := membersFrom_member true hRead (ends_separated _ (.inr rfl) rest) hRest
    simpa [Value.memberChars, commaSeparated_cons] using hStep

theorem Fills.leads (h : Fills depth member s kvs s₂) : Leads member s kvs s₂ := by
  induction h with
  | nil s => exact .nil s
  | cons _ hRead _ ih => exact .cons hRead ih

theorem reads_members (h : Fills depth member s kvs s₂) :
    Reads (members member s) (commaSeparated (Value.memberChars kvs) ++ ['\x7d']) s₂ := by
  intro rest _
  rw [List.append_assoc, List.singleton_append]
  exact run_members h.leads rest

theorem Fills.plain (h : Fills depth member s kvs s₂) : (Value.object kvs).Plain (depth + 1) := by
  induction h with
  | nil s => exact List.forall_mem_nil _
  | cons hPlain _ _ ih => exact List.forall_mem_cons.mpr ⟨hPlain, ih⟩

end Members

/-! ## Values -/

theorem Value.exists_chars {depth : Nat} {v : Value} (h : v.Plain depth) :
    ∃ c rest, v.chars = c :: rest ∧ isSpace c = false ∧ c ≠ ']' ∧ (c = 'n' → v = .null) := by
  cases v with
  | null => simp [chars, isSpace]
  | bool b => cases b <;> simp [chars, isSpace]
  | float x => exact absurd h (by simp [Plain])
  | text s => simp [chars, quoted, isSpace]
  | list items => simp [chars, isSpace]
  | object kvs => simp [chars, isSpace]
  | int n =>
    rw [chars, intChars]
    split
    · simp [isSpace]
    · obtain ⟨d, ds, hDigits, hDigit⟩ := exists_toDigits n.toNat
      refine ⟨d, ds, hDigits, isSpace_eq_false_of_isDigit hDigit,
        ne_of_isDigit hDigit (by decide), ?_⟩
      intro hNull
      exact absurd hNull (ne_of_isDigit hDigit (by decide))

theorem Value.opens {depth : Nat} {v : Value} (h : v.Plain depth) : Opens v.chars := by
  obtain ⟨c, rest, hChars, hSpace, hClose, -⟩ := v.exists_chars h
  exact ⟨c, rest, hChars, hSpace, hClose⟩

theorem reads_scalar_int {list object : Reader Value} {n : Int} {depth : Nat}
    (h : (Value.int n).Plain depth) :
    Reads (value.scalar list object) (Value.int n).chars (.int n) := by
  intro rest hRest
  obtain ⟨hLower, hUpper⟩ := Value.plain_int_iff.mp h
  rw [Value.chars, intChars]
  split
  · obtain ⟨k, rfl⟩ : ∃ k : Nat, n = -(k : Int) := ⟨n.natAbs, by omega⟩
    have hNumber := reads_negative (n := k) (by omega) (by omega) rest hRest
    rw [List.cons_append] at hNumber
    rw [Int.natAbs_neg, Int.natAbs_natCast, List.cons_append, value.scalar,
      run_lookValue_bind (by decide)]
    simp [hNumber]
  · have hNumber := reads_nat (n := n.toNat) (by omega) rest hRest
    obtain ⟨d, ds, hDigits, hDigit⟩ := exists_toDigits n.toNat
    have hValue : (n.toNat : Int) = n := by omega
    rw [hDigits, List.cons_append] at hNumber ⊢
    have hNull : d ≠ 'n' := ne_of_isDigit hDigit (by decide)
    have hTrue : d ≠ 't' := ne_of_isDigit hDigit (by decide)
    have hFalse : d ≠ 'f' := ne_of_isDigit hDigit (by decide)
    rw [value.scalar, run_lookValue_bind (isSpace_eq_false_of_isDigit hDigit)]
    simp [hNull, hTrue, hFalse, hDigit, hNumber, Value.nat, hValue]

theorem reads_scalar {list object : Reader Value} {v : Value} {depth : Nat} (h : v.Plain depth)
    (hList : ∀ items, v = .list items →
      Reads list (commaSeparated (Value.itemChars items) ++ [']']) v)
    (hObject : ∀ kvs, v = .object kvs →
      Reads object (commaSeparated (Value.memberChars kvs) ++ ['\x7d']) v) :
    Reads (value.scalar list object) v.chars v := by
  intro rest hRest
  cases v with
  | null =>
    have hChars : Value.null.chars ++ rest = 'n' :: 'u' :: 'l' :: 'l' :: rest := by
      simp [Value.chars]
    rw [hChars, value.scalar, run_lookValue_bind (by decide)]
    simp [word]
  | bool b =>
    cases b with
    | true =>
      have hChars : (Value.bool true).chars ++ rest = 't' :: 'r' :: 'u' :: 'e' :: rest := by
        simp [Value.chars]
      rw [hChars, value.scalar, run_lookValue_bind (by decide)]
      simp [word]
    | false =>
      have hChars : (Value.bool false).chars ++ rest = 'f' :: 'a' :: 'l' :: 's' :: 'e' :: rest := by
        simp [Value.chars]
      rw [hChars, value.scalar, run_lookValue_bind (by decide)]
      simp [word]
  | float x => exact absurd h (by simp [Value.Plain])
  | text s =>
    rw [Value.chars, quoted, List.cons_append, List.append_assoc, value.scalar,
      run_lookValue_bind (by decide)]
    simp [Char.isDigit, run_stringBody]
  | list items =>
    have hItems := hList items rfl rest hRest
    rw [Value.chars, List.cons_append, value.scalar, run_lookValue_bind (by decide)]
    simpa [Char.isDigit] using hItems
  | object kvs =>
    have hMembers := hObject kvs rfl rest hRest
    rw [Value.chars, List.cons_append, value.scalar, run_lookValue_bind (by decide)]
    simpa [Char.isDigit] using hMembers
  | int n => exact reads_scalar_int h rest hRest

theorem fills_kept {depth : Nat} {r : Reader Value} {kvs : List (String × Value)}
    (h : ∀ p ∈ kvs, p.2.Plain depth ∧ Reads r p.2.chars p.2) (done : List (String × Value)) :
    Fills depth (fun name done => do colon; return (name, ← r) :: done) done kvs
      (kvs.reverse ++ done) := by
  induction kvs generalizing done with
  | nil => exact .nil done
  | cons p kvs ih =>
    have hRest := ih (fun q hq => h q (List.mem_cons_of_mem _ hq)) (p :: done)
    rw [List.reverse_cons, List.append_assoc, List.singleton_append]
    obtain ⟨hPlain, hRead⟩ := h p List.mem_cons_self
    refine .cons hPlain ?_ hRest
    intro rest hEnds
    simp [hRead rest hEnds]

theorem reads_value {depth : Nat} {v : Value} (h : v.Plain depth) :
    Reads (value depth) v.chars v := by
  induction depth generalizing v with
  | zero =>
    apply reads_scalar h
    · rintro items rfl
      exact absurd h (by simp [Value.Plain])
    · rintro kvs rfl
      exact absurd h (by simp [Value.Plain])
  | succ depth ih =>
    apply reads_scalar h
    · rintro items rfl
      rw [itemChars_eq_map]
      exact (reads_elements fun v hv => ⟨ih (h v hv), Value.opens (h v hv)⟩).map Value.list
    · rintro kvs rfl
      have hFills := fills_kept (fun p hp => ⟨h p hp, ih (h p hp)⟩) []
      have hMembers := (reads_members hFills).map fun done => Value.object done.reverse
      simpa using hMembers

/-! ## Control characters -/

/-- Free of control characters, so that the text stays on one line. -/
def Printable (cs : List Char) : Prop := ∀ c ∈ cs, 32 ≤ c.toNat

theorem printable_append {cs ds : List Char} :
    Printable (cs ++ ds) ↔ Printable cs ∧ Printable ds := List.forall_mem_append

theorem printable_cons {c : Char} {cs : List Char} :
    Printable (c :: cs) ↔ 32 ≤ c.toNat ∧ Printable cs := List.forall_mem_cons

theorem printable_escapeChar (c : Char) : Printable (escapeChar c) := by
  have hHex : ∀ n < 16, 32 ≤ (hexDigit n).toNat := by decide
  unfold escapeChar
  iterate 7
    split
    · simp [Printable]
  split
  · have hHigh := hHex (c.toNat / 16) (by omega)
    have hLow := hHex (c.toNat % 16) (by omega)
    simp [Printable, hHigh, hLow]
  · simp only [Printable, List.mem_singleton, forall_eq]
    omega

theorem printable_quoted (s : String) : Printable (quoted s) := by
  rw [quoted, printable_cons, printable_append]
  refine ⟨by decide, ?_, by simp [Printable]⟩
  intro c hc
  obtain ⟨d, -, hd⟩ := List.mem_flatMap.mp hc
  exact printable_escapeChar d c hd

theorem printable_toDigits (n : Nat) : Printable (Nat.toDigits 10 n) := by
  intro c hc
  have hBounds := bounds_of_isDigit (isDigit_of_mem_toDigits hc)
  omega

theorem printable_commaSeparated {ts : List (List Char)} (h : ∀ t ∈ ts, Printable t) :
    Printable (commaSeparated ts) := by
  cases ts with
  | nil => simp [commaSeparated, Printable]
  | cons t ts =>
    rw [commaSeparated_cons, printable_append]
    refine ⟨h t List.mem_cons_self, ?_⟩
    intro c hc
    obtain ⟨u, hu, hMem⟩ := List.mem_flatMap.mp hc
    rcases List.mem_cons.mp hMem with rfl | hMem
    · decide
    · exact h u (List.mem_cons_of_mem _ hu) c hMem

theorem printable_intChars (n : Int) : Printable (intChars n) := by
  rw [intChars]
  split
  · exact printable_cons.mpr ⟨by decide, printable_toDigits _⟩
  · exact printable_toDigits _

theorem Value.printable {depth : Nat} {v : Value} (h : v.Plain depth) : Printable v.chars := by
  induction depth using Nat.strongRecOn generalizing v with
  | ind depth ih =>
    cases v with
    | null => simp [chars, Printable]
    | bool b => cases b <;> simp [chars, Printable]
    | int n => exact printable_intChars n
    | float x => exact absurd h (by simp [Plain])
    | text s => exact printable_quoted s
    | list items =>
      cases depth with
      | zero => exact h.elim
      | succ depth =>
        rw [chars, itemChars_eq_map, printable_cons, printable_append]
        refine ⟨by decide, printable_commaSeparated ?_, by simp [Printable]⟩
        intro t ht
        obtain ⟨v, hv, rfl⟩ := List.mem_map.mp ht
        exact ih depth (Nat.lt_succ_self _) (h v hv)
    | object kvs =>
      cases depth with
      | zero => exact h.elim
      | succ depth =>
        rw [chars, memberChars_eq_map, printable_cons, printable_append]
        refine ⟨by decide, printable_commaSeparated ?_, by simp [Printable]⟩
        intro t ht
        obtain ⟨p, hp, rfl⟩ := List.mem_map.mp ht
        refine printable_append.mpr ⟨printable_quoted p.1, printable_cons.mpr ⟨by decide, ?_⟩⟩
        exact ih depth (Nat.lt_succ_self _) (h p hp)

end Reanalysis.Json
