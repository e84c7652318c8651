import Reanalysis.Proofs.Json.Balance
import Reanalysis.Proofs.Json.Values

/-!
# What is written closes at its end only

A scan through the text of a value never comes below the depth it starts at and ends where it
started. So an object that is cut off leaves its brace open, wherever the cut falls, and no reader
of whole values accepts it.
-/

namespace Reanalysis.Json

namespace Nesting

variable {s : Nesting} {floor : Int} {cs ds : List Char}

/-- The scan does not come below the floor. -/
def Above (floor : Int) : Nesting → List Char → Prop
  | s, [] => floor ≤ s.depth
  | s, c :: cs => floor ≤ s.depth ∧ Above floor (s.step c) cs

theorem Above.start (h : Above floor s cs) : floor ≤ s.depth := by
  cases cs with
  | nil => exact h
  | cons c cs => exact h.1

theorem above_append :
    Above floor s (cs ++ ds) ↔ Above floor s cs ∧ Above floor (s.past cs) ds := by
  induction cs generalizing s with
  | nil => exact ⟨fun h => ⟨h.start, h⟩, fun h => h.2⟩
  | cons c cs ih => rw [List.cons_append, Above, ih, Above, past_cons, and_assoc]

theorem Above.le_depth (h : Above floor s cs) {p : List Char} (hp : p <+: cs) :
    floor ≤ (s.past p).depth := by
  obtain ⟨q, rfl⟩ := hp
  exact (above_append.mp h).2.start

theorem Above.mono (h : Above floor s cs) {low : Int} (hLow : low ≤ floor) : Above low s cs := by
  induction cs generalizing s with
  | nil => exact Int.le_trans hLow h
  | cons c cs ih => exact ⟨Int.le_trans hLow h.1, ih h.2⟩

end Nesting

open Nesting

variable {cs ds : List Char} {c : Char}

/-- Outside of strings, the text goes back to the depth it starts at and is never below it. -/
structure Grounded (cs : List Char) : Prop where
  above (d : Int) : Above d (outsideAt d) cs
  past (d : Int) : (outsideAt d).past cs = outsideAt d

theorem grounded_nil : Grounded [] := ⟨fun d => Int.le_refl d, fun _ => rfl⟩

theorem Grounded.append (hcs : Grounded cs) (hds : Grounded ds) : Grounded (cs ++ ds) := by
  constructor
  · intro d
    rw [above_append, hcs.past]
    exact ⟨hcs.above d, hds.above d⟩
  · intro d
    rw [past_append, hcs.past, hds.past]

theorem grounded_singleton (h : isNeutral c = true) : Grounded [c] := by
  constructor
  · intro d
    rw [Above, step_neutral h]
    exact ⟨Int.le_refl d, Int.le_refl d⟩
  · intro d
    rw [past_cons, step_neutral h, past_nil]

theorem grounded_of_neutral (h : cs.all isNeutral = true) : Grounded cs := by
  induction cs with
  | nil => exact grounded_nil
  | cons c cs ih =>
    obtain ⟨hHead, hTail⟩ := Bool.and_eq_true_iff.mp h
    exact (grounded_singleton hHead).append (ih hTail)

theorem Grounded.bracketed (h : Grounded cs) {opening closing : Char}
    (hOpening : opening = '[' ∨ opening = '\x7b') (hClosing : closing = ']' ∨ closing = '\x7d') :
    Grounded (opening :: (cs ++ [closing])) := by
  constructor
  · intro d
    rw [Above, step_opening hOpening, above_append, h.past, Above, step_closing hClosing]
    have hUp : d ≤ d + 1 := by omega
    exact ⟨Int.le_refl d, (h.above _).mono hUp, hUp, Int.le_refl d⟩
  · intro d
    rw [past_cons, step_opening hOpening, past_append, h.past, past_cons, step_closing hClosing,
      past_nil]

/-! ## Strings -/

/-- Within a string, the text leaves the string open. -/
structure Held (cs : List Char) : Prop where
  above (d : Int) : Above d (insideAt d) cs
  past (d : Int) : (insideAt d).past cs = insideAt d

theorem held_nil : Held [] := ⟨fun d => Int.le_refl d, fun _ => rfl⟩

theorem Held.append (hcs : Held cs) (hds : Held ds) : Held (cs ++ ds) := by
  constructor
  · intro d
    rw [above_append, hcs.past]
    exact ⟨hcs.above d, hds.above d⟩
  · intro d
    rw [past_append, hcs.past, hds.past]

theorem held_singleton (h : ∀ d, (insideAt d).step c = insideAt d) : Held [c] := by
  constructor
  · intro d
    rw [Above, h]
    exact ⟨Int.le_refl d, Int.le_refl d⟩
  · intro d
    rw [past_cons, h, past_nil]

theorem held_escape (c : Char) : Held ['\\', c] := by
  constructor
  · intro d
    simp [Above, step, insideAt]
  · intro d
    simp [step, insideAt]

theorem held_escapeChar (c : Char) : Held (escapeChar c) := by
  have hHex : ∀ n < 16, (hexValue? (hexDigit n)).isSome = true := by decide
  unfold escapeChar
  iterate 7
    split
    · exact held_escape _
  split
  · have hZero : Held ['0'] := held_singleton fun d => step_hex (by decide)
    have hHigh : Held [hexDigit (c.toNat / 16)] :=
      held_singleton fun d => step_hex (hHex _ (by omega))
    have hLow : Held [hexDigit (c.toNat % 16)] :=
      held_singleton fun d => step_hex (hHex _ (by omega))
    exact (held_escape 'u').append (hZero.append (hZero.append (hHigh.append hLow)))
  · rename_i hQuote hSlash _ _ _ _ _ _
    exact held_singleton fun d => by simp [step, insideAt, hQuote, hSlash]

theorem held_escaped (s : List Char) : Held (s.flatMap escapeChar) := by
  induction s with
  | nil => exact held_nil
  | cons c s ih => exact (held_escapeChar c).append ih

theorem grounded_quoted (s : String) : Grounded (quoted s) := by
  have hBody := held_escaped s.toList
  constructor
  · intro d
    have hOpen : (outsideAt d).step '"' = insideAt d := rfl
    rw [quoted, Above, hOpen, above_append, hBody.past]
    exact ⟨Int.le_refl d, hBody.above d, Int.le_refl d, Int.le_refl d⟩
  · intro d
    have hOpen : (outsideAt d).step '"' = insideAt d := rfl
    rw [quoted, past_cons, hOpen, past_append, hBody.past]
    rfl

/-! ## Values -/

theorem grounded_toDigits (n : Nat) : Grounded (Nat.toDigits 10 n) := by
  apply grounded_of_neutral
  rw [List.all_eq_true]
  intro c hc
  exact isNeutral_of_isDigit (Text.isDigit_of_mem_toDigits hc)

theorem grounded_intChars (n : Int) : Grounded (intChars n) := by
  rw [intChars]
  split
  · exact (grounded_singleton (by decide)).append (grounded_toDigits _)
  · exact grounded_toDigits _

theorem grounded_commaSeparated {ts : List (List Char)} (h : ∀ t ∈ ts, Grounded t) :
    Grounded (commaSeparated ts) := by
  fun_induction commaSeparated ts with
  | case1 => exact grounded_nil
  | case2 t => exact h t List.mem_cons_self
  | case3 t u ts ih =>
    have hRest := ih fun t' ht' => h t' (List.mem_cons_of_mem _ ht')
    have hComma : Grounded [','] := grounded_singleton (by decide)
    exact (h t List.mem_cons_self).append (hComma.append hRest)

theorem grounded_memberChars {kvs : List (String × Value)} (h : ∀ p ∈ kvs, Grounded p.2.chars) :
    Grounded (commaSeparated (Value.memberChars kvs)) := by
  rw [memberChars_eq_map]
  apply grounded_commaSeparated
  intro t ht
  obtain ⟨p, hp, rfl⟩ := List.mem_map.mp ht
  have hColon : Grounded [':'] := grounded_singleton (by decide)
  exact (grounded_quoted p.1).append (hColon.append (h p hp))

theorem Value.grounded {depth : Nat} {v : Value} (h : v.Plain depth) : Grounded v.chars := by
  induction depth using Nat.strongRecOn generalizing v with
  | ind depth ih =>
    cases v with
    | null => exact grounded_of_neutral (by decide)
    | bool b => cases b <;> exact grounded_of_neutral (by decide)
    | int n => exact grounded_intChars n
    | float x => exact absurd h (by simp [Plain])
    | text s => exact grounded_quoted s
    | list items =>
      cases depth with
      | zero => exact h.elim
      | succ depth =>
        rw [chars, itemChars_eq_map]
        refine (grounded_commaSeparated ?_).bracketed (.inl rfl) (.inl rfl)
        intro t ht
        obtain ⟨v, hv, rfl⟩ := List.mem_map.mp ht
        exact ih depth (Nat.lt_succ_self _) (h v hv)
    | object kvs =>
      cases depth with
      | zero => exact h.elim
      | succ depth =>
        refine (grounded_memberChars ?_).bracketed (.inr rfl) (.inr rfl)
        intro p hp
        exact ih depth (Nat.lt_succ_self _) (h p hp)

/-! ## Objects that are cut off -/

theorem Value.one_le_depth_of_piece {depth : Nat} {kvs : List (String × Value)}
    (h : (Value.object kvs).Plain depth) {p : List Char} (hPrefix : p <+: (Value.object kvs).chars)
    (hNe : p ≠ []) (hProper : p ≠ (Value.object kvs).chars) :
    1 ≤ ((outsideAt 0).past p).depth := by
  rw [Value.chars] at hPrefix hProper
  cases p with
  | nil => exact absurd rfl hNe
  | cons c q =>
    obtain ⟨rfl, hq⟩ := List.cons_prefix_cons.mp hPrefix
    have hInner : q <+: commaSeparated (Value.memberChars kvs) := by
      rcases List.prefix_concat_iff.mp hq with rfl | hInner
      · exact absurd rfl hProper
      · exact hInner
    cases depth with
    | zero => exact h.elim
    | succ depth =>
      have hMembers := grounded_memberChars fun p hp => Value.grounded (h p hp)
      rw [past_cons, step_opening (.inr rfl)]
      exact (hMembers.above (0 + 1)).le_depth hInner

theorem Keeps.not_read_piece {α : Type} {r : Reader α} (hKeeps : Keeps r) {depth : Nat}
    {kvs : List (String × Value)} (h : (Value.object kvs).Plain depth) {p : List Char}
    (hPrefix : p <+: (Value.object kvs).chars) (hNe : p ≠ [])
    (hProper : p ≠ (Value.object kvs).chars) (a : α) : Json.readWhole r p ≠ .ok a := by
  intro hRead
  have hOpen := Value.one_le_depth_of_piece h hPrefix hNe hProper
  rw [hKeeps.readWhole hRead 0] at hOpen
  exact absurd hOpen (by decide)

end Reanalysis.Json
