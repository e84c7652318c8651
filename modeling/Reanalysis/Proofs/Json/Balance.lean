import Reanalysis.Json.Record
import Reanalysis.Proofs.Json.Yields

/-!
# What readers accept is balanced

A scan through a text keeps track of open strings and open brackets. `Carries s cs r s'` says that a
reader which gets through, from the text `cs` on, takes a scan from `s` to `s'`. A value leaves the
scan as it was, so a text that is read as a whole closes whatever it opens.
-/

namespace Reanalysis.Json

/-- Where a reader stands: within a string or not, behind a backslash or not, and how many brackets are
open. -/
@[ext]
structure Nesting where
  inside : Bool
  escaped : Bool
  depth : Int
deriving DecidableEq

namespace Nesting

def outsideAt (depth : Int) : Nesting := ⟨false, false, depth⟩

def insideAt (depth : Int) : Nesting := ⟨true, false, depth⟩

def isOpening (c : Char) : Bool := c = '[' || c = '\x7b'

def isClosing (c : Char) : Bool := c = ']' || c = '\x7d'

def step (s : Nesting) (c : Char) : Nesting :=
  if s.escaped then { s with escaped := false }
  else if c = '"' then { s with inside := !s.inside }
  else if s.inside then { s with escaped := c = '\\' }
  else if isOpening c then { s with depth := s.depth + 1 }
  else if isClosing c then { s with depth := s.depth - 1 }
  else s

def past (s : Nesting) (cs : List Char) : Nesting := cs.foldl step s

@[simp] theorem past_nil (s : Nesting) : s.past [] = s := rfl

@[simp] theorem past_cons (s : Nesting) (c : Char) (cs : List Char) :
    s.past (c :: cs) = (s.step c).past cs := rfl

theorem past_append (s : Nesting) (cs ds : List Char) : s.past (cs ++ ds) = (s.past cs).past ds :=
  List.foldl_append

/-- Neither a quote nor a bracket. -/
def isNeutral (c : Char) : Bool := c ≠ '"' && !isOpening c && !isClosing c

theorem step_neutral {c : Char} (h : isNeutral c = true) (depth : Int) :
    (outsideAt depth).step c = outsideAt depth := by
  simp only [isNeutral, Bool.and_eq_true, decide_eq_true_eq, Bool.not_eq_true'] at h
  simp [step, outsideAt, h]

theorem past_dropWhile {p : Char → Bool} (h : ∀ c, p c = true → isNeutral c = true) (depth : Int)
    (cs : List Char) :
    (outsideAt depth).past cs = (outsideAt depth).past (cs.dropWhile p) := by
  induction cs with
  | nil => rfl
  | cons c cs ih =>
    rw [List.dropWhile_cons]
    split
    · rename_i hc
      rw [past_cons, step_neutral (h c hc), ih]
    · rfl

theorem isNeutral_of_isSpace {c : Char} (h : isSpace c = true) : isNeutral c = true := by
  simp only [isSpace, Bool.or_eq_true, decide_eq_true_eq] at h
  rcases h with ((rfl | rfl) | rfl) | rfl <;> decide

theorem isNeutral_of_isDigit {c : Char} (h : c.isDigit = true) : isNeutral c = true := by
  have hQuote : c ≠ '"' := Text.ne_of_isDigit h (by decide)
  have hList : c ≠ '[' := Text.ne_of_isDigit h (by decide)
  have hObject : c ≠ '\x7b' := Text.ne_of_isDigit h (by decide)
  have hListEnd : c ≠ ']' := Text.ne_of_isDigit h (by decide)
  have hObjectEnd : c ≠ '\x7d' := Text.ne_of_isDigit h (by decide)
  simp [isNeutral, isOpening, isClosing, hQuote, hList, hObject, hListEnd, hObjectEnd]

end Nesting

open Nesting

variable {α β σ : Type} {s s₁ s₂ : Nesting} {cs : List Char} {d : Int}

/-- If the reader gets through, the scan goes from one state to the other. -/
def Carries (s : Nesting) (cs : List Char) (r : Reader α) (s' : Nesting) : Prop :=
  ∀ a rest, r.run cs = .ok (a, rest) → s.past cs = s'.past rest

/-- The reader takes whole values only. -/
def Keeps (r : Reader α) : Prop := ∀ d cs, Carries (outsideAt d) cs r (outsideAt d)

theorem carries_pure (a : α) : Carries s cs (pure a : Reader α) s := by
  intro b rest hRun
  cases hRun
  rfl

theorem carries_throw (e : Fault) : Carries s cs (throw e : Reader α) s₁ := by
  intro a rest hRun
  cases hRun

theorem carries_throw_bind (e : Fault) {f : α → Reader β} : Carries s cs (throw e >>= f) s₁ := by
  intro a rest hRun
  cases hRun

theorem carries_of_yields {r : Reader α} (h : Yields r fun _ => False) : Carries s cs r s₁ :=
  fun a rest hRun => (h cs a rest hRun).elim

theorem carries_bind {x : Reader α} {f : α → Reader β} (hx : Carries s cs x s₁)
    (hf : ∀ a rest, Carries s₁ rest (f a) s₂) : Carries s cs (x >>= f) s₂ := by
  intro b rest hRun
  rw [StateT.run_bind] at hRun
  cases hStep : x.run cs with
  | error e => rw [hStep] at hRun; cases hRun
  | ok step =>
    rw [hStep] at hRun
    exact (hx step.1 step.2 hStep).trans (hf step.1 step.2 b rest hRun)

theorem carries_get_bind {f : List Char → Reader α} (h : Carries s cs (f cs) s₁) :
    Carries s cs (get >>= f) s₁ := h

theorem carries_set_bind {cs' : List Char} {f : PUnit → Reader α} (hSet : s.past cs = s₁.past cs')
    (h : Carries s₁ cs' (f ⟨⟩) s₂) : Carries s cs (set cs' >>= f) s₂ :=
  fun a rest hRun => hSet.trans (h a rest hRun)

theorem carries_advance_bind {c : Char} {tail : List Char} {f : PUnit → Reader α}
    (h : Carries (s.step c) tail (f ⟨⟩) s₁) : Carries s (c :: tail) (advance >>= f) s₁ :=
  fun a rest hRun => h a rest hRun

theorem carries_look_bind {f : Option Char → Reader α}
    (h : ∀ rest, Carries (outsideAt d) rest (f rest.head?) s₁) :
    Carries (outsideAt d) cs (look >>= f) s₁ := by
  intro a rest hRun
  rw [past_dropWhile (fun c => isNeutral_of_isSpace)]
  exact h _ a rest hRun

theorem carries_lookValue_bind {f : Char → Reader α}
    (h : ∀ c tail, Carries (outsideAt d) (c :: tail) (f c) s₁) :
    Carries (outsideAt d) cs (lookValue >>= f) s₁ := by
  rw [lookValue, bind_assoc]
  refine carries_look_bind fun rest => ?_
  cases rest with
  | nil => exact carries_throw _
  | cons c tail => exact h c tail

theorem Keeps.bind {x : Reader α} {f : α → Reader β} (hx : Keeps x) (hf : ∀ a, Keeps (f a)) :
    Keeps (x >>= f) :=
  fun d cs => carries_bind (hx d cs) fun a rest => hf a d rest

theorem keeps_pure (a : α) : Keeps (pure a : Reader α) := fun _ _ => carries_pure a

theorem keeps_throw (e : Fault) : Keeps (throw e : Reader α) := fun _ _ => carries_throw e

/-- A text that is read as a whole closes what it opens. -/
theorem Keeps.readWhole {r : Reader α} (h : Keeps r) {a : α} (hRead : Json.readWhole r cs = .ok a)
    (d : Int) : (outsideAt d).past cs = outsideAt d := by
  rw [Json.readWhole] at hRead
  cases hRun : r.run cs with
  | error e => rw [hRun] at hRead; cases hRead
  | ok step =>
    obtain ⟨b, rest⟩ := step
    rw [hRun] at hRead
    change (if (rest.dropWhile isSpace).isEmpty then .ok b else .error Fault.malformed) =
      Except.ok a at hRead
    split at hRead
    · rename_i hEmpty
      rw [h d cs b rest hRun, past_dropWhile (fun c => isNeutral_of_isSpace),
        List.isEmpty_iff.mp hEmpty, past_nil]
    · cases hRead

/-! ## Words and numbers -/

theorem keeps_word {w : List Char} (h : w.all isNeutral = true) : Keeps (word w) := by
  intro d cs
  induction w generalizing cs with
  | nil => exact carries_pure _
  | cons c w ih =>
    obtain ⟨hHead, hTail⟩ := Bool.and_eq_true_iff.mp h
    have hStep := step_neutral hHead d
    refine carries_get_bind ?_
    cases cs with
    | nil => exact carries_throw _
    | cons c' cs =>
      dsimp only
      split
      · rename_i hEq
        exact carries_set_bind (by rw [past_cons, hEq, hStep]) (ih hTail cs)
      · exact carries_throw _

theorem keeps_digits : Keeps digits := by
  intro d cs
  refine carries_get_bind (carries_set_bind ?_ (carries_pure _))
  exact past_dropWhile (fun c => isNeutral_of_isDigit) d cs

theorem keeps_someDigits (early : Fault) : Keeps (someDigits early) := by
  refine keeps_digits.bind fun ds => ?_
  intro d cs
  split
  · exact carries_get_bind (carries_bind (carries_throw _) fun _ _ => carries_pure _)
  · exact carries_pure _

theorem carries_pass {p : Prop} [Decidable p] {f : PUnit → Reader α}
    (hp : p → ∃ c, cs.head? = some c ∧ isNeutral c = true)
    (hf : ∀ rest, Carries (outsideAt d) rest (f ⟨⟩) s₁) :
    Carries (outsideAt d) cs (if p then advance >>= f else f ⟨⟩) s₁ := by
  split
  · rename_i h
    obtain ⟨c, hHead, hNeutral⟩ := hp h
    cases cs with
    | nil => cases hHead
    | cons c' tail =>
      cases hHead
      refine carries_advance_bind ?_
      rw [step_neutral hNeutral]
      exact hf tail
  · exact hf cs

theorem carries_exponent {early : Fault} {f : List Char → List Char → Reader α} {c : Char}
    (hHead : cs.head? = some c) (hNeutral : isNeutral c = true)
    (hf : ∀ text ds rest, Carries (outsideAt d) rest (f text ds) (outsideAt d)) :
    Carries (outsideAt d) cs (advance >>= fun _ => get >>= fun text =>
      if text.head? = some '+' || text.head? = some '-' then
        advance >>= fun _ => someDigits early >>= f text
      else someDigits early >>= f text) (outsideAt d) := by
  refine carries_pass (p := True) (fun _ => ⟨c, hHead, hNeutral⟩) fun rest => ?_
  refine carries_get_bind (carries_pass ?_ fun rest' => ?_)
  · intro hSign
    simp only [Bool.or_eq_true, decide_eq_true_eq] at hSign
    rcases hSign with hPlus | hMinus
    · exact ⟨'+', hPlus, by decide⟩
    · exact ⟨'-', hMinus, by decide⟩
  · exact carries_bind (keeps_someDigits early d rest') fun ds rest'' => hf rest ds rest''

theorem keeps_literal (early : Fault) : Keeps (literal early) := by
  intro d cs
  unfold literal
  refine carries_get_bind (carries_pass ?_ fun rest => ?_)
  · intro hMinus
    exact ⟨'-', by simpa using hMinus, by decide⟩
  refine carries_bind (keeps_someDigits early d rest) fun whole rest => ?_
  extract_lets afterPart afterWhole
  have hPart (part : Option (List Char)) (rest : List Char) :
      Carries (outsideAt d) rest (afterPart part) (outsideAt d) := by
    refine carries_get_bind ?_
    dsimp only
    split
    · rename_i hHead
      exact carries_exponent hHead (by decide) fun _ _ _ => carries_pure _
    · rename_i hHead
      exact carries_exponent hHead (by decide) fun _ _ _ => carries_pure _
    · exact carries_pure _
  suffices h : ∀ rest, Carries (outsideAt d) rest (afterWhole ()) (outsideAt d) by
    split
    · exact carries_throw_bind _
    · exact h rest
  intro rest
  refine carries_get_bind ?_
  split
  · rename_i hPoint
    refine carries_pass (p := True) (fun _ => ⟨'.', hPoint, by decide⟩) fun rest => ?_
    exact carries_bind (keeps_someDigits early d rest) fun ds rest => hPart _ rest
  · exact hPart none rest

theorem keeps_number : Keeps number := by
  refine (keeps_literal _).bind fun l => ?_
  split
  · exact keeps_pure _
  · exact keeps_throw _

/-! ## Strings -/

theorem step_hex {c : Char} (h : (hexValue? c).isSome = true) : (insideAt d).step c = insideAt d := by
  have hQuote : c ≠ '"' := by
    rintro rfl
    exact absurd h (by decide)
  have hSlash : c ≠ '\\' := by
    rintro rfl
    exact absurd h (by decide)
  simp [step, insideAt, hQuote, hSlash]

theorem past_drop_hex {n : Nat} {ds : List Nat} (h : (cs.take n).mapM hexValue? = some ds) :
    (insideAt d).past cs = (insideAt d).past (cs.drop n) := by
  induction n generalizing cs ds with
  | zero => rfl
  | succ n ih =>
    cases cs with
    | nil => rfl
    | cons c cs =>
      rw [List.take_succ_cons, List.mapM_cons] at h
      obtain ⟨x, hHead, hRest⟩ := Option.bind_eq_some_iff.mp h
      obtain ⟨xs, hTail, -⟩ := Option.bind_eq_some_iff.mp hRest
      rw [past_cons, step_hex (by rw [hHead]; rfl), ih hTail, List.drop_succ_cons]

theorem carries_hexCode : Carries (insideAt d) cs hexCode (insideAt d) := by
  refine carries_get_bind ?_
  split
  · rename_i hDigits
    exact carries_set_bind (past_drop_hex hDigits) (carries_pure _)
  · exact carries_throw _

theorem carries_expectInString (c : Char) : Carries s cs (expectInString c) (s.step c) := by
  refine carries_get_bind ?_
  cases cs with
  | nil => exact carries_throw _
  | cons c' rest =>
    dsimp only
    split
    · rename_i hEq
      subst hEq
      intro u rest' hRun
      cases hRun
      rfl
    · exact carries_throw _

theorem carries_unicodeEscape : Carries (insideAt d) cs unicodeEscape (insideAt d) := by
  refine carries_bind carries_hexCode fun n rest => ?_
  split
  · exact carries_throw _
  split
  · refine carries_bind (carries_expectInString '\\') fun _ rest => ?_
    refine carries_bind (carries_expectInString 'u') fun _ rest => ?_
    refine carries_bind carries_hexCode fun low rest => ?_
    split
    · exact carries_pure _
    · exact carries_throw _
  · exact carries_pure _

theorem carries_stringFrom {unicode : Reader Char}
    (h : ∀ cs, Carries (insideAt d) cs unicode (insideAt d)) (fuel : Nat) (cs : List Char) :
    Carries (insideAt d) cs (stringFrom unicode fuel) (outsideAt d) := by
  induction fuel generalizing cs with
  | zero => exact carries_throw _
  | succ fuel ih =>
    have hRest (c : Char) (rest : List Char) :
        Carries (insideAt d) rest (do return c :: (← stringFrom unicode fuel)) (outsideAt d) :=
      carries_bind (ih rest) fun _ _ => carries_pure _
    refine carries_get_bind ?_
    split
    · exact carries_throw _
    · exact carries_set_bind rfl (carries_pure _)
    · exact carries_throw _
    · rename_i e rest
      refine carries_set_bind rfl ?_
      dsimp only
      split
      · exact carries_bind (h rest) fun c rest => hRest c rest
      · split
        · exact hRest _ rest
        · exact carries_throw_bind _
    · rename_i c rest hQuote hLast hEscape
      have hSlash : c ≠ '\\' := by
        intro hc
        cases rest with
        | nil => exact hLast hc rfl
        | cons e rest => exact hEscape e rest hc rfl
      have hStep : (insideAt d).step c = insideAt d := by
        simp only [insideAt, step, Bool.false_eq_true, if_false, if_neg hQuote, if_true,
          decide_eq_false hSlash]
      dsimp only
      split
      · exact carries_throw_bind _
      · exact carries_set_bind (by rw [past_cons, hStep]) (hRest c rest)

theorem carries_stringBody : Carries (insideAt d) cs stringBody (outsideAt d) :=
  carries_get_bind
    (carries_bind (carries_stringFrom (fun _ => carries_unicodeEscape) _ cs) fun _ _ => carries_pure _)

theorem carries_skipString : Carries (insideAt d) cs skipString (outsideAt d) := by
  have hEscape (cs : List Char) :
      Carries (insideAt d) cs (do let _ ← hexCode; return ' ') (insideAt d) :=
    carries_bind carries_hexCode fun _ _ => carries_pure _
  exact carries_get_bind
    (carries_bind (carries_stringFrom hEscape _ cs) fun _ _ => carries_pure _)

/-! ## Lists and objects -/

theorem keeps_colon : Keeps colon := by
  intro d cs
  refine carries_look_bind fun rest => ?_
  split
  · exact carries_throw _
  · rename_i hHead
    exact carries_pass (p := True) (fun _ => ⟨':', hHead, by decide⟩) fun _ => carries_pure _
  · exact carries_throw _

theorem carries_head {c : Char} {r : Reader α} (hHead : cs.head? = some c)
    (h : ∀ tail, Carries s (c :: tail) r s₁) : Carries s cs r s₁ := by
  cases cs with
  | nil => cases hHead
  | cons c' tail =>
    cases hHead
    exact h tail

theorem carries_nextElement_bind (first : Bool) {f : Bool → Reader α}
    (hMore : ∀ rest, Carries (outsideAt d) rest (f true) s₁)
    (hLast : ∀ tail, Carries (outsideAt d) (']' :: tail) (f false) s₁) :
    Carries (outsideAt d) cs (nextElement first >>= f) s₁ := by
  unfold nextElement
  rw [bind_assoc]
  refine carries_look_bind fun rest => ?_
  split
  · exact carries_throw_bind _
  · rename_i hHead
    exact carries_head hHead hLast
  · rename_i c _ hHead
    split
    · exact hMore rest
    split
    · rename_i hComma
      subst hComma
      rw [bind_assoc]
      refine carries_pass (p := True) (fun _ => ⟨',', hHead, by decide⟩) fun rest => ?_
      rw [bind_assoc]
      refine carries_look_bind fun rest => ?_
      split
      · exact carries_throw_bind _
      · exact carries_throw_bind _
      · exact hMore rest
    · exact carries_throw_bind _

theorem carries_nextName_bind (first : Bool) {f : Option String → Reader α}
    (hMore : ∀ name rest, Carries (outsideAt d) rest (f (some name)) s₁)
    (hLast : ∀ tail, Carries (outsideAt d) ('\x7d' :: tail) (f none) s₁) :
    Carries (outsideAt d) cs (nextName first >>= f) s₁ := by
  have hName (tail : List Char) : Carries (outsideAt d) ('"' :: tail)
      ((do advance; return some (← stringBody)) >>= f) s₁ := by
    rw [bind_assoc]
    refine carries_advance_bind ?_
    rw [bind_assoc]
    exact carries_bind carries_stringBody fun name rest => hMore name rest
  unfold nextName
  rw [bind_assoc]
  refine carries_look_bind fun rest => ?_
  split
  · exact carries_throw_bind _
  · rename_i hHead
    exact carries_head hHead hLast
  · rename_i c _ hHead
    split
    · split
      · rename_i hQuote
        subst hQuote
        exact carries_head hHead hName
      · exact carries_throw_bind _
    split
    · rename_i hComma
      subst hComma
      rw [bind_assoc]
      refine carries_pass (p := True) (fun _ => ⟨',', hHead, by decide⟩) fun rest => ?_
      rw [bind_assoc]
      refine carries_look_bind fun rest => ?_
      split
      · exact carries_throw_bind _
      · rename_i hQuote
        exact carries_head hQuote hName
      · exact carries_throw_bind _
    · exact carries_throw_bind _

theorem step_opening {c : Char} (h : c = '[' ∨ c = '\x7b') :
    (outsideAt d).step c = outsideAt (d + 1) := by
  rcases h with rfl | rfl <;> rfl

theorem step_closing {c : Char} (h : c = ']' ∨ c = '\x7d') :
    (outsideAt (d + 1)).step c = outsideAt d := by
  rcases h with rfl | rfl <;> simp [step, outsideAt, isOpening, isClosing]

theorem carries_close {c : Char} (h : c = ']' ∨ c = '\x7d') (tail : List Char) (a : α) :
    Carries (outsideAt (d + 1)) (c :: tail) (do advance; return a) (outsideAt d) := by
  refine carries_advance_bind ?_
  rw [step_closing h]
  exact carries_pure a

theorem carries_elementsFrom {element : Reader α} (h : Keeps element) (fuel : Nat) (first : Bool)
    (cs : List Char) :
    Carries (outsideAt (d + 1)) cs (elementsFrom element fuel first) (outsideAt d) := by
  induction fuel generalizing first cs with
  | zero => exact carries_throw _
  | succ fuel ih =>
    refine carries_nextElement_bind first (fun rest => ?_) fun tail => ?_
    · refine carries_bind (h _ rest) fun x rest => ?_
      exact carries_bind (ih false rest) fun _ _ => carries_pure _
    · exact carries_close (.inl rfl) tail _

theorem carries_elements {element : Reader α} (h : Keeps element) :
    Carries (outsideAt (d + 1)) cs (elements element) (outsideAt d) :=
  carries_get_bind (carries_elementsFrom h _ true cs)

theorem carries_membersFrom {member : String → σ → Reader σ} (h : ∀ name x, Keeps (member name x))
    (fuel : Nat) (first : Bool) (x : σ) (cs : List Char) :
    Carries (outsideAt (d + 1)) cs (membersFrom member fuel first x) (outsideAt d) := by
  induction fuel generalizing first x cs with
  | zero => exact carries_throw _
  | succ fuel ih =>
    refine carries_nextName_bind first (fun name rest => ?_) fun tail => ?_
    · exact carries_bind (h name x _ rest) fun y rest => ih false y rest
    · exact carries_close (.inr rfl) tail _

theorem carries_members {member : String → σ → Reader σ} (h : ∀ name x, Keeps (member name x))
    (x : σ) : Carries (outsideAt (d + 1)) cs (members member x) (outsideAt d) :=
  carries_get_bind (carries_membersFrom h _ true x cs)

/-! ## Values -/

theorem carries_skipMembers {value : Reader Unit} (h : Keeps value) (fuel : Nat) (first : Bool)
    (cs : List Char) :
    Carries (outsideAt (d + 1)) cs (skipFrom.skipMembers value fuel first) (outsideAt d) := by
  induction fuel generalizing first cs with
  | zero => exact carries_throw _
  | succ fuel ih =>
    refine carries_look_bind fun rest => ?_
    split
    · exact carries_throw _
    · rename_i hHead
      exact carries_head hHead fun tail => carries_close (.inr rfl) tail _
    · rename_i c _ hHead
      extract_lets member
      have hMember (rest : List Char) :
          Carries (outsideAt (d + 1)) rest (member ()) (outsideAt d) := by
        refine carries_look_bind fun rest => ?_
        split
        · exact carries_throw _
        · rename_i hQuote
          refine carries_head hQuote fun tail => carries_advance_bind ?_
          refine carries_bind carries_skipString fun _ rest => ?_
          refine carries_bind (keeps_colon _ rest) fun _ rest => ?_
          exact carries_bind (h _ rest) fun _ rest => ih false rest
        · exact carries_throw _
      split
      · split
        · rename_i hComma
          subst hComma
          exact carries_pass (p := True) (fun _ => ⟨',', hHead, by decide⟩) hMember
        · exact carries_throw_bind _
      · exact hMember rest

theorem keeps_skipFrom (fuel : Nat) : Keeps (skipFrom fuel) := by
  induction fuel with
  | zero => exact keeps_throw _
  | succ fuel ih =>
    intro d cs
    refine carries_lookValue_bind fun c tail => ?_
    split
    · exact keeps_word (by decide) d _
    split
    · exact keeps_word (by decide) d _
    split
    · exact keeps_word (by decide) d _
    split
    · exact carries_bind (keeps_literal _ d _) fun _ _ => carries_pure _
    split
    · rename_i hQuote
      subst hQuote
      exact carries_advance_bind carries_skipString
    split
    · rename_i hOpen
      refine carries_advance_bind ?_
      rw [step_opening (.inl hOpen)]
      exact carries_bind (carries_elements ih) fun _ _ => carries_pure _
    split
    · rename_i hOpen
      refine carries_advance_bind ?_
      rw [step_opening (.inr hOpen)]
      exact carries_get_bind (carries_skipMembers ih _ true tail)
    · exact carries_throw _

theorem keeps_ignored : Keeps ignored :=
  fun d cs => carries_get_bind (keeps_skipFrom _ d cs)

theorem keeps_scalar {list object : Reader Value}
    (hList : ∀ d cs, Carries (outsideAt (d + 1)) cs list (outsideAt d))
    (hObject : ∀ d cs, Carries (outsideAt (d + 1)) cs object (outsideAt d)) :
    Keeps (value.scalar list object) := by
  intro d cs
  refine carries_lookValue_bind fun c tail => ?_
  split
  · exact carries_bind (keeps_word (by decide) d _) fun _ _ => carries_pure _
  split
  · exact carries_bind (keeps_word (by decide) d _) fun _ _ => carries_pure _
  split
  · exact carries_bind (keeps_word (by decide) d _) fun _ _ => carries_pure _
  split
  · refine carries_bind (keeps_number d _) fun n rest => ?_
    cases n <;> exact carries_pure _
  split
  · rename_i hQuote
    subst hQuote
    exact carries_advance_bind (carries_bind carries_stringBody fun _ _ => carries_pure _)
  split
  · rename_i hOpen
    refine carries_advance_bind ?_
    rw [step_opening (.inl hOpen)]
    exact hList d tail
  split
  · rename_i hOpen
    refine carries_advance_bind ?_
    rw [step_opening (.inr hOpen)]
    exact hObject d tail
  · exact carries_throw _

theorem keeps_value (depth : Nat) : Keeps (value depth) := by
  induction depth with
  | zero => exact keeps_scalar (fun _ _ => carries_throw _) fun _ _ => carries_throw _
  | succ depth ih =>
    apply keeps_scalar
    · exact fun d cs => carries_bind (carries_elements ih) fun _ _ => carries_pure _
    · refine fun d cs => carries_bind (carries_members ?_ []) fun _ _ => carries_pure _
      exact fun _ _ => keeps_colon.bind fun _ => ih.bind fun _ => keeps_pure _

theorem Keeps.captured {r : Reader α} (h : Keeps r) : Keeps (Json.captured r) :=
  fun d cs => carries_get_bind (carries_bind (h d cs) fun _ _ => carries_get_bind (carries_pure _))

theorem carries_mismatch (c : Char) : Carries s cs (mismatch c : Reader α) s₁ :=
  carries_of_yields (yields_mismatch c)

theorem keeps_typedNumber (convert : Number → Option α) : Keeps (typedNumber convert) := by
  intro d cs
  refine carries_lookValue_bind fun c tail => ?_
  split
  · refine carries_bind (keeps_number d _) fun n rest => ?_
    split
    · exact carries_pure _
    · exact carries_throw _
  · exact carries_mismatch c

theorem keeps_string : Keeps string := by
  intro d cs
  refine carries_lookValue_bind fun c tail => ?_
  split
  · rename_i hQuote
    subst hQuote
    exact carries_advance_bind carries_stringBody
  · exact carries_mismatch c

theorem Keeps.refined {r : Reader α} (h : Keeps r) (make : α → Option β) :
    Keeps (Json.refined r make) := by
  refine h.bind fun a => ?_
  split
  · exact keeps_pure _
  · exact keeps_throw _

theorem Keeps.nullable {r : Reader α} (h : Keeps r) : Keeps (Json.nullable r) := by
  intro d cs
  refine carries_look_bind fun rest => ?_
  split
  · exact carries_bind (keeps_word (by decide) d rest) fun _ _ => carries_pure _
  · exact carries_bind (h d rest) fun _ _ => carries_pure _

theorem carries_closed (a : α) (d : Int) (rest : List Char) :
    Carries (outsideAt (d + 1)) rest (do
      match ← look with
      | some '\x7d' => advance; return a
      | some _ => throw .malformed
      | none => throw .truncated) (outsideAt d) := by
  refine carries_look_bind fun rest => ?_
  split
  · rename_i hHead
    exact carries_head hHead fun tail => carries_close (.inr rfl) tail _
  · exact carries_throw _
  · exact carries_throw _

theorem keeps_named (find : String → Option α) : Keeps (named find) := by
  intro d cs
  refine carries_lookValue_bind fun c tail => ?_
  split
  · rename_i hQuote
    subst hQuote
    refine carries_advance_bind (carries_bind carries_stringBody fun name rest => ?_)
    split
    · exact carries_pure _
    · exact carries_throw _
  split
  · rename_i hOpen
    refine carries_advance_bind ?_
    rw [step_opening (.inr hOpen)]
    refine carries_lookValue_bind fun c tail => ?_
    dsimp only
    split
    · exact carries_throw_bind _
    refine carries_bind (keeps_string.refined find _ _) fun a rest => ?_
    refine carries_bind (keeps_colon _ rest) fun _ rest => ?_
    refine carries_lookValue_bind fun c tail => ?_
    split
    · exact carries_bind (keeps_word (by decide) _ _) fun _ rest => carries_closed a d rest
    · exact carries_bind (carries_mismatch c) fun _ rest => carries_closed a d rest
  · exact carries_throw _

/-! ## Records -/

section Records

variable {ms : List (Member σ)}

theorem keeps_required {name : String} {get : σ → Option β} {put : σ → β → σ} {r : Reader β}
    (h : Keeps r) (x : σ) : Keeps ((Member.required name get put r).read x) :=
  h.bind fun _ => keeps_pure _

theorem keeps_optional {name : String} {get : σ → Option (Option β)} {put : σ → Option β → σ}
    {r : Reader β} (h : Keeps r) (x : σ) : Keeps ((Member.optional name get put r).read x) :=
  h.nullable.bind fun _ => keeps_pure _

theorem keeps_memberOf {other : String → σ → Reader σ} (h : ∀ m ∈ ms, ∀ x, Keeps (m.read x))
    (hOther : ∀ name x, Keeps (other name x)) (name : String) (x : σ) :
    Keeps (memberOf ms other name x) := by
  unfold memberOf
  split
  · rename_i m hFind
    have hMember : Keeps (do colon; m.read x) :=
      keeps_colon.bind fun _ => h m (List.mem_of_find?_eq_some hFind) x
    split
    · exact fun d cs => carries_throw_bind _
    · exact hMember
  · exact hOther name x

theorem keeps_passOver (name : String) (x : σ) : Keeps (passOver name x) :=
  keeps_colon.bind fun _ => keeps_ignored.bind fun _ => keeps_pure _

theorem carries_positional (h : ∀ m ∈ ms, ∀ x, Keeps (m.read x)) (first : Bool) (x : σ)
    (cs : List Char) :
    Carries (outsideAt (d + 1)) cs (positional ms first x) (outsideAt d) := by
  induction ms generalizing first x cs with
  | nil =>
    refine carries_look_bind fun rest => ?_
    split
    · rename_i hHead
      exact carries_head hHead fun tail => carries_close (.inl rfl) tail _
    · exact carries_throw _
    · exact carries_throw _
  | cons m ms ih =>
    have hRest := ih fun m' hm' => h m' (List.mem_cons_of_mem _ hm')
    refine carries_nextElement_bind first (fun rest => ?_) fun tail => ?_
    · exact carries_bind (h m List.mem_cons_self x _ rest) fun y rest => hRest false y rest
    · split
      · rename_i hMore
        cases hMore
      split
      · exact hRest false x _
      · exact carries_throw _

theorem keeps_record (h : ∀ m ∈ ms, ∀ x, Keeps (m.read x)) (draft : σ) (make : σ → Option α) :
    Keeps (record ms draft make) := by
  intro d cs
  refine carries_lookValue_bind fun c tail => ?_
  extract_lets close
  have hClose (x : σ) (rest : List Char) : Carries (outsideAt d) rest (close x) (outsideAt d) := by
    unfold close
    split
    · exact carries_pure _
    · exact carries_throw _
  split
  · rename_i hOpen
    refine carries_advance_bind ?_
    rw [step_opening (.inl hOpen)]
    exact carries_bind (carries_positional h true draft tail) fun x rest => hClose x rest
  split
  · rename_i hOpen
    refine carries_advance_bind ?_
    rw [step_opening (.inr hOpen)]
    exact carries_bind (carries_members (keeps_memberOf h keeps_passOver) draft)
      fun x rest => hClose x rest
  · exact carries_bind (carries_mismatch c) fun x rest => hClose x rest

end Records

end Reanalysis.Json
