import Reanalysis.Json.Record
import Reanalysis.Proofs.Json.Values

/-!
# Typed values read back

`Written depth r v a` says that `v` is a way to write `a` that the typed reader `r` reads back. A
record is made from the state that its members fill.
-/

namespace Reanalysis.Json

open Text

variable {α β σ : Type}

/-- The value is plain, it is not null, and the reader returns `a` for its text. -/
structure Written (depth : Nat) (r : Reader α) (v : Value) (a : α) : Prop where
  plain : v.Plain depth
  ne_null : v ≠ .null
  reads : Reads r v.chars a

section Alternatives

variable {depth : Nat} {r : Reader α} {v : Value} {a : α}

theorem written_string (s : String) : Written depth string (.text s) s where
  plain := by cases depth <;> trivial
  ne_null := by simp
  reads := by
    intro rest _
    rw [Value.chars, quoted, List.cons_append, List.append_assoc, string,
      run_lookValue_bind (by decide)]
    simp [run_stringBody]

theorem written_natBelow {bound n : Nat} (hBound : n < bound) (hWord : n < wordBound) :
    Written depth (natBelow bound) (.nat n) n where
  plain := Value.plain_int_iff.mpr (by omega)
  ne_null := by simp [Value.nat]
  reads := by
    intro rest hRest
    have hNumber := reads_nat hWord rest hRest
    obtain ⟨d, ds, hDigits, hDigit⟩ := exists_toDigits n
    have hChars : (Value.nat n).chars = d :: ds := by
      rw [← hDigits]
      simp [Value.nat, Value.chars, intChars]
    rw [hDigits, List.cons_append] at hNumber
    rw [hChars, List.cons_append, natBelow, typedNumber,
      run_lookValue_bind (isSpace_eq_false_of_isDigit hDigit)]
    simp [hDigit, hNumber, hBound]

theorem Written.refined (h : Written depth r v a) {make : α → Option β} {b : β}
    (hMake : make a = some b) : Written depth (Json.refined r make) v b where
  plain := h.plain
  ne_null := h.ne_null
  reads := by
    intro rest hRest
    simp [Json.refined, h.reads rest hRest, hMake]

theorem written_named {find : String → Option α} {name : String} (h : find name = some a) :
    Written depth (named find) (.text name) a where
  plain := (written_string name).plain
  ne_null := by simp
  reads := by
    intro rest _
    rw [Value.chars, quoted, List.cons_append, List.append_assoc, named,
      run_lookValue_bind (by decide)]
    simp [run_stringBody, h]

theorem Written.nullable (h : Written depth r v a) : Reads (Json.nullable r) v.chars (some a) := by
  intro rest hRest
  obtain ⟨c, tail, hChars, hSpace, -, hWord⟩ := v.exists_chars h.plain
  have hc : c ≠ 'n' := fun hc => h.ne_null (hWord hc)
  have hRead := h.reads rest hRest
  rw [hChars, List.cons_append] at hRead ⊢
  simp [Json.nullable, run_look hSpace, hc, hRead]

theorem written_listOf {toJson : α → Value} {xs : List α}
    (h : ∀ x ∈ xs, Written depth r (toJson x) x) :
    Written (depth + 1) (listOf r) (.list (xs.map toJson)) xs where
  plain := by
    intro v hv
    obtain ⟨x, hx, rfl⟩ := List.mem_map.mp hv
    exact (h x hx).plain
  ne_null := by simp
  reads := by
    intro rest hRest
    have hItems := reads_elements (fun x hx => ⟨(h x hx).reads, Value.opens (h x hx).plain⟩)
      rest hRest
    rw [Value.chars, itemChars_eq_map, List.map_map, List.cons_append, listOf,
      run_lookValue_bind (by decide)]
    simpa [Function.comp_def] using hItems

end Alternatives

/-! ## Records -/

section Records

variable {depth : Nat} {ms : List (Member σ)} {m : Member σ} {other : String → σ → Reader σ}
  {name label : String} {r : Reader β} {s s₁ s₂ : σ}

theorem reads_memberOf {v : Value} (hFind : ms.find? (·.name = name) = some m)
    (hFree : m.taken s = false) (h : Reads (m.read s) v.chars s₁) :
    Reads (memberOf ms other name s) (':' :: v.chars) s₁ := by
  intro rest hRest
  simp [memberOf, hFind, hFree, h rest hRest]

theorem Fills.required {get : σ → Option β} {put : σ → β → σ} {v : Value} {b : β}
    {kvs : List (String × Option Value)}
    (hFind : ms.find? (·.name = name) = some (.required label get put r)) (hFree : get s = none)
    (h : Written depth r v b)
    (hRest : Fills depth (memberOf ms other) (put s b) (present kvs) s₂) :
    Fills depth (memberOf ms other) s (present ((name, some v) :: kvs)) s₂ := by
  have hMember : Reads (memberOf ms other name s) (':' :: v.chars) (put s b) :=
    reads_memberOf hFind (by simp [Member.required, hFree]) (h.reads.map (put s))
  exact .cons h.plain hMember hRest

theorem Fills.optional {get : σ → Option (Option β)} {put : σ → Option β → σ} {o : Option β}
    {toJson : β → Value} {kvs : List (String × Option Value)} (set : σ → Option (Option β) → σ)
    (hFind : ms.find? (·.name = name) = some (.optional label get put r)) (hFree : get s = none)
    (hNone : set s none = s) (hSome : ∀ b, set s (some (some b)) = put s (some b))
    (h : ∀ b ∈ o, Written depth r (toJson b) b)
    (hRest : Fills depth (memberOf ms other) (set s (o.map some)) (present kvs) s₂) :
    Fills depth (memberOf ms other) s (present ((name, o.map toJson) :: kvs)) s₂ := by
  cases o with
  | none =>
    rw [Option.map_none, hNone] at hRest
    exact hRest
  | some b =>
    rw [Option.map_some, hSome] at hRest
    have hMember : Reads (memberOf ms other name s) (':' :: (toJson b).chars) (put s (some b)) :=
      reads_memberOf hFind (by simp [Member.optional, hFree]) ((h b rfl).nullable.map (put s))
    exact .cons (h b rfl).plain hMember hRest

@[simp] theorem join_map_some (o : Option β) : (o.map some).join = o := by cases o <;> rfl

theorem Leads.required {get : σ → Option β} {put : σ → β → σ} {v : Value} {b : β}
    {kvs : List (String × Option Value)}
    (hFind : ms.find? (·.name = name) = some (.required label get put r)) (hFree : get s = none)
    (h : Reads r v.chars b) (hRest : Leads (memberOf ms other) (put s b) (present kvs) s₂) :
    Leads (memberOf ms other) s (present ((name, some v) :: kvs)) s₂ :=
  .cons (reads_memberOf hFind (by simp [Member.required, hFree]) (h.map (put s))) hRest

theorem Leads.optional {get : σ → Option (Option β)} {put : σ → Option β → σ} {v : Value} {b : β}
    {kvs : List (String × Option Value)}
    (hFind : ms.find? (·.name = name) = some (.optional label get put r)) (hFree : get s = none)
    (h : Reads (Json.nullable r) v.chars (some b))
    (hRest : Leads (memberOf ms other) (put s (some b)) (present kvs) s₂) :
    Leads (memberOf ms other) s (present ((name, some v) :: kvs)) s₂ :=
  .cons (reads_memberOf hFind (by simp [Member.optional, hFree]) (h.map (put s))) hRest

theorem run_record {draft : σ} {make : σ → Option β} {kvs : List (String × Value)} {b : β}
    (h : Leads (memberOf ms passOver) draft kvs s) (hMake : make s = some b) (rest : List Char) :
    (record ms draft make).run ((Value.object kvs).chars ++ rest) = .ok (b, rest) := by
  rw [Value.chars, List.cons_append, record, run_lookValue_bind (by decide), List.append_assoc,
    List.singleton_append]
  simp [run_members h rest, hMake]

theorem written_record {draft : σ} {make : σ → Option β} {kvs : List (String × Value)} {b : β}
    (h : Fills depth (memberOf ms passOver) draft kvs s) (hMake : make s = some b) :
    Written (depth + 1) (record ms draft make) (.object kvs) b where
  plain := h.plain
  ne_null := by simp
  reads := fun rest _ => run_record h.leads hMake rest

end Records

end Reanalysis.Json
