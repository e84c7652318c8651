import Reanalysis.Json.Record
import Reanalysis.Proofs.Json.Token

/-!
# What readers return

`Yields r P` says that whatever `r` returns, on any text, satisfies `P`. Reading the members of a
record keeps every property of the draft that each member keeps, in the list form as well as in the
object form.
-/

namespace Reanalysis.Json

variable {α β σ : Type} {P : α → Prop} {Q : β → Prop}

def Yields (r : Reader α) (P : α → Prop) : Prop := ∀ cs a rest, r.run cs = .ok (a, rest) → P a

theorem yields_any (r : Reader α) : Yields r fun _ => True := fun _ _ _ _ => trivial

theorem yields_pure {a : α} (h : P a) : Yields (pure a : Reader α) P := by
  intro cs b rest hRun
  cases hRun
  exact h

theorem yields_throw (e : Fault) : Yields (throw e : Reader α) P := by
  intro cs a rest hRun
  cases hRun

theorem Yields.bind {x : Reader α} {f : α → Reader β} (hx : Yields x P)
    (hf : ∀ a, P a → Yields (f a) Q) : Yields (x >>= f) Q := by
  intro cs b rest hRun
  rw [StateT.run_bind] at hRun
  cases hStep : x.run cs with
  | error e => rw [hStep] at hRun; cases hRun
  | ok step =>
    rw [hStep] at hRun
    exact hf step.1 (hx cs step.1 step.2 hStep) step.2 b rest hRun

theorem Yields.readWhole {r : Reader α} (h : Yields r P) {cs : List Char} {a : α}
    (hRead : Json.readWhole r cs = .ok a) : P a := by
  rw [Json.readWhole] at hRead
  cases hRun : r.run cs with
  | error e => rw [hRun] at hRead; cases hRead
  | ok step =>
    obtain ⟨b, rest⟩ := step
    rw [hRun] at hRead
    change (if (rest.dropWhile isSpace).isEmpty then .ok b else .error Fault.malformed) =
      Except.ok a at hRead
    split at hRead
    · cases hRead
      exact h cs _ rest hRun
    · cases hRead

theorem yields_after {x : Reader α} {f : α → Reader β} (hf : ∀ a, Yields (f a) Q) :
    Yields (x >>= f) Q :=
  (yields_any x).bind fun a _ => hf a

theorem yields_mismatch (c : Char) : Yields (mismatch c : Reader α) P := by
  unfold mismatch
  split
  · exact yields_after fun _ => yields_throw _
  split
  · exact yields_after fun _ => yields_throw _
  split
  · exact yields_after fun _ => yields_throw _
  split
  · exact yields_after fun _ => yields_throw _
  split
  · exact yields_after fun _ => yields_after fun _ => yields_throw _
  split
  · exact yields_throw _
  · exact yields_throw _

theorem yields_natBelow (bound : Nat) : Yields (natBelow bound) (· < bound) := by
  unfold natBelow typedNumber
  refine yields_after fun c => ?_
  split
  · refine yields_after fun n => ?_
    cases n with
    | nat n =>
      by_cases h : n < bound
      · simp only [if_pos h]
        exact yields_pure h
      · simp only [if_neg h]
        exact yields_throw _
    | negative n => exact yields_throw _
    | float x => exact yields_throw _
  · exact yields_mismatch c

theorem Yields.refined {r : Reader α} {make : α → Option β} (h : Yields r P)
    (hMake : ∀ a b, P a → make a = some b → Q b) : Yields (Json.refined r make) Q := by
  refine h.bind fun a ha => ?_
  split
  · rename_i b hb
    exact yields_pure (hMake a b ha hb)
  · exact yields_throw _

theorem Yields.nullable {r : Reader α} (h : Yields r P) :
    Yields (Json.nullable r) fun o => ∀ a ∈ o, P a := by
  refine yields_after fun c => ?_
  split
  · exact yields_after fun _ => yields_pure (by simp)
  · exact h.bind fun a ha => yields_pure (by simpa using ha)

/-! ## Lists -/

theorem yields_elementsFrom {element : Reader α} (h : Yields element P) (fuel : Nat)
    (first : Bool) :
    Yields (elementsFrom element fuel first) fun xs => ∀ x ∈ xs, P x := by
  induction fuel generalizing first with
  | zero => exact yields_throw _
  | succ fuel ih =>
    refine yields_after fun more => ?_
    split
    · refine h.bind fun x hx => (ih false).bind fun xs hxs => ?_
      exact yields_pure (List.forall_mem_cons.mpr ⟨hx, hxs⟩)
    · exact yields_after fun _ => yields_pure (by simp)

theorem Yields.listOf {r : Reader α} (h : Yields r P) :
    Yields (Json.listOf r) fun xs => ∀ x ∈ xs, P x := by
  refine yields_after fun c => ?_
  split
  · exact yields_after fun _ => yields_after fun cs => yields_elementsFrom h _ true
  · exact yields_mismatch c

/-! ## Records -/

section Records

variable {I : σ → Prop} {ms : List (Member σ)}

theorem yields_members {member : String → σ → Reader σ}
    (h : ∀ name s, I s → Yields (member name s) I) {s : σ} (hs : I s) :
    Yields (members member s) I := by
  refine yields_after fun cs => ?_
  generalize cs.length + 1 = fuel
  suffices ∀ first, Yields (membersFrom member fuel first s) I from this true
  induction fuel generalizing s with
  | zero => exact fun first => yields_throw _
  | succ fuel ih =>
    intro first
    refine yields_after fun name => ?_
    cases name with
    | none => exact yields_after fun _ => yields_pure hs
    | some name => exact (h name s hs).bind fun s' hs' => ih hs' false

theorem yields_memberOf {other : String → σ → Reader σ}
    (h : ∀ m ∈ ms, ∀ s, I s → Yields (m.read s) I)
    (hOther : ∀ name s, I s → Yields (other name s) I) (name : String) (s : σ) (hs : I s) :
    Yields (memberOf ms other name s) I := by
  unfold memberOf
  split
  · rename_i m hFind
    split
    · exact yields_after fun _ => yields_after fun _ => h m (List.mem_of_find?_eq_some hFind) s hs
    · exact yields_after fun _ => h m (List.mem_of_find?_eq_some hFind) s hs
  · exact hOther name s hs

theorem yields_positional (h : ∀ m ∈ ms, ∀ s, I s → Yields (m.read s) I) (first : Bool) {s : σ}
    (hs : I s) : Yields (positional ms first s) I := by
  induction ms generalizing first s with
  | nil =>
    refine yields_after fun c => ?_
    split
    · exact yields_after fun _ => yields_pure hs
    · exact yields_throw _
    · exact yields_throw _
  | cons m ms ih =>
    have hRest : ∀ m ∈ ms, ∀ s, I s → Yields (m.read s) I :=
      fun m' hm' => h m' (List.mem_cons_of_mem _ hm')
    refine yields_after fun more => ?_
    split
    · exact (h m List.mem_cons_self s hs).bind fun s' hs' => ih hRest false hs'
    · split
      · exact ih hRest false hs
      · exact yields_throw _

theorem yields_passOver (name : String) (s : σ) (hs : I s) : Yields (passOver name s) I :=
  yields_after fun _ => yields_after fun _ => yields_pure hs

theorem yields_record {draft : σ} {make : σ → Option α}
    (h : ∀ m ∈ ms, ∀ s, I s → Yields (m.read s) I) (hDraft : I draft)
    (hMake : ∀ s a, I s → make s = some a → P a) : Yields (record ms draft make) P := by
  refine yields_after fun c => ?_
  split
  · exact yields_after fun _ => (yields_positional h true hDraft).refined hMake
  split
  · exact yields_after fun _ =>
      (yields_members (yields_memberOf h yields_passOver) hDraft).refined hMake
  · exact (yields_mismatch c).refined hMake

theorem yields_required {name : String} {get : σ → Option β} {put : σ → β → σ} {r : Reader β}
    (h : Yields r Q) (hPut : ∀ s b, I s → Q b → I (put s b)) (s : σ) (hs : I s) :
    Yields ((Member.required name get put r).read s) I :=
  h.bind fun b hb => yields_pure (hPut s b hs hb)

theorem yields_optional {name : String} {get : σ → Option (Option β)} {put : σ → Option β → σ}
    {r : Reader β} (h : Yields r Q) (hPut : ∀ s o, I s → (∀ b ∈ o, Q b) → I (put s o)) (s : σ)
    (hs : I s) : Yields ((Member.optional name get put r).read s) I :=
  h.nullable.bind fun o ho => yields_pure (hPut s o hs ho)

end Records

end Reanalysis.Json
