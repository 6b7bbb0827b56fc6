import Denotation.Proofs.Parsing

/-!
# The two roots

No source is a statement and an expression. Keywords are lexed as names, and an assignment starts as
an expression does, so the first token does not tell the two apart. But every statement holds an
equals sign or a keyword that no expression holds, and tokens alone decide what is derived.

So a source that is tried under both roots is a program under one of them at most, and it does not
matter which root is tried first.
-/

namespace Denotation

/-! ## What only statements hold -/

/-- The token stands in statements only. -/
def Token.MarksStatement (t : Token) : Prop :=
  t.kind = .equals ∨ t.IsWord .whileWord ∨ t.IsWord .ifWord ∨ t.IsWord .doNothing

theorem not_marksStatement_of_kind {t : Token} (he : t.kind ≠ .equals) (hn : t.kind ≠ .name) :
    ¬ t.MarksStatement := by
  rintro (h | h | h | h)
  · exact he h
  all_goals exact hn h.1

theorem not_marksStatement_of_value {t : Token} (hk : t.kind = .name)
    (hv : ∀ k ∈ [Keyword.whileWord, .ifWord, .doNothing], t.value ≠ k.text) :
    ¬ t.MarksStatement := by
  rintro (h | h | h | h)
  · rw [hk] at h
    cases h
  all_goals exact hv _ (by decide) h.2

/-- No token of an expression marks a statement. -/
theorem Level.Derives.not_marksStatement {x : Level} {ts : List Token} {e : Expr Empty}
    (h : x.Derives ts e) : ∀ t ∈ ts, ¬ t.MarksStatement := by
  induction h with
  | lessThan hl ho hr ihl ihr | add hl ho hr ihl ihr | multiply hl ho hr ihl ihr =>
    have hop := not_marksStatement_of_kind (by rw [ho]; decide) (by rw [ho]; decide)
    exact List.forall_mem_append.mpr ⟨ihl, List.forall_mem_cons.mpr ⟨hop, ihr⟩⟩
  | ofAdd h ih | ofMultiply h ih | ofTerm h ih => exact ih
  | brackets hl h hr ih =>
    have hleft := not_marksStatement_of_kind (by rw [hl]; decide) (by rw [hl]; decide)
    have hright := not_marksStatement_of_kind (by rw [hr]; decide) (by rw [hr]; decide)
    refine List.forall_mem_append.mpr ⟨List.forall_mem_cons.mpr ⟨hleft, ih⟩, ?_⟩
    exact List.forall_mem_singleton.mpr hright
  | number hk hn =>
    exact List.forall_mem_singleton.mpr
      (not_marksStatement_of_kind (by rw [hk]; decide) (by rw [hk]; decide))
  | true h | false h =>
    refine List.forall_mem_singleton.mpr (not_marksStatement_of_value h.1 ?_)
    rw [h.2]
    decide
  | name hk hr =>
    refine List.forall_mem_singleton.mpr (not_marksStatement_of_value hk fun k _ hv => ?_)
    exact hr ⟨k, hv.symm⟩

/-- Some token of a statement marks it. -/
theorem Grade.Derives.exists_marksStatement {x : Grade} {ts : List Token} {a : Stmt Empty}
    (h : x.Derives ts a) : ∃ t ∈ ts, t.MarksStatement := by
  induction h with
  | sequence ha ho hb iha ihb =>
    obtain ⟨t, ht, hm⟩ := iha
    exact ⟨t, List.mem_append_left _ ht, hm⟩
  | single h ih => exact ih
  | loop hw => exact ⟨_, by simp, Or.inr (Or.inl hw)⟩
  | branch hw => exact ⟨_, by simp, Or.inr (Or.inr (Or.inl hw))⟩
  | assign hk hr hs he => exact ⟨_, by simp, Or.inl hs⟩
  | doNothing hw => exact ⟨_, by simp, Or.inr (Or.inr (Or.inr hw))⟩

/-! ## Programs under one root -/

section
variable {root root' : Root} {source : Text} {ts : List Token} {m n : Node Empty}

/-- Tokens derive a program from one root at most. -/
theorem Root.Derives.root_unique (h : root.Derives ts m) (h' : root'.Derives ts n) :
    root = root' := by
  have hclash : ∀ {a : Stmt Empty} {e : Expr Empty}, Grade.statement.Derives ts a →
      ¬ Level.expression.Derives ts e := by
    intro a e ha he
    obtain ⟨t, ht, hmarks⟩ := ha.exists_marksStatement
    exact he.not_marksStatement t ht hmarks
  cases h with
  | statement ha =>
    cases h' with
    | statement _ => rfl
    | expression he => exact absurd he (hclash ha)
  | expression he =>
    cases h' with
    | statement ha => exact absurd he (hclash ha)
    | expression _ => rfl

/-- A source is a program under one root at most. -/
theorem parse_root_unique (h : parse root source = .ok m) (h' : parse root' source = .ok n) :
    root = root' := by
  obtain ⟨ts, hlex, hts⟩ := parse_eq_ok_iff.mp h
  obtain ⟨us, hlex', hus⟩ := parse_eq_ok_iff.mp h'
  obtain rfl := hlex.unique hlex'
  exact hts.root_unique hus

/-- The root that is tried after this one. -/
def Root.other : Root → Root
  | .statement => .expression
  | .expression => .statement

/-- The program that a source spells under the first root or else under the other one. When it
spells none, the error is the one that it has as a statement. -/
def parseTrying (first : Root) (source : Text) : Except ParseError (Node Empty) :=
  match parse first source with
  | .ok n => .ok n
  | .error _ =>
    match parse first.other source with
    | .ok n => .ok n
    | .error _ => parse .statement source

theorem parseAny_eq_parseTrying (source : Text) :
    parseAny source = parseTrying .statement source := by
  have hother : Root.statement.other = .expression := rfl
  unfold parseAny parseTrying
  rw [hother]
  cases parse .statement source with
  | ok n => rfl
  | error e => cases parse .expression source <;> rfl

/-- A program is found whichever root is tried first. -/
theorem parseTrying_of_ok (h : parse root source = .ok n) (first : Root) :
    parseTrying first source = .ok n := by
  unfold parseTrying
  cases hfirst : parse first source with
  | ok m =>
    obtain rfl := parse_root_unique hfirst h
    exact hfirst.symm.trans h
  | error e =>
    have hne : first ≠ root := by
      rintro rfl
      rw [h] at hfirst
      cases hfirst
    have hother : first.other = root := by
      cases first with
      | statement => cases root with
        | statement => exact absurd rfl hne
        | expression => rfl
      | expression => cases root with
        | statement => rfl
        | expression => exact absurd rfl hne
    rw [hother, h]

/-- If there is none, the error is the same whichever root is tried first. -/
theorem parseTrying_of_none (h : ∀ root n, parse root source ≠ .ok n) (first : Root) :
    parseTrying first source = parse .statement source := by
  unfold parseTrying
  cases hfirst : parse first source with
  | ok m => exact absurd hfirst (h first m)
  | error e =>
    cases hother : parse first.other source with
    | ok m => exact absurd hother (h first.other m)
    | error e' => rfl

theorem parseAny_eq_ok_iff : parseAny source = .ok n ↔ ∃ root, parse root source = .ok n := by
  rw [parseAny_eq_parseTrying]
  constructor
  · intro h
    by_contra hnone
    have hall : ∀ root m, parse root source ≠ .ok m := by
      intro root m hm
      rw [parseTrying_of_ok hm] at h
      exact hnone ⟨root, hm.trans h⟩
    rw [parseTrying_of_none hall] at h
    exact hall .statement n h
  · rintro ⟨root, h⟩
    exact parseTrying_of_ok h .statement

theorem parseAny_eq_of_first (first : Root) (source : Text) :
    parseAny source = parseTrying first source := by
  rw [parseAny_eq_parseTrying]
  by_cases h : ∃ root n, parse root source = .ok n
  · obtain ⟨root, n, h⟩ := h
    rw [parseTrying_of_ok h, parseTrying_of_ok h]
  · have hall : ∀ root n, parse root source ≠ .ok n := fun root n hn => h ⟨root, n, hn⟩
    rw [parseTrying_of_none hall, parseTrying_of_none hall]

end

/-- The two roots do not overlap: no source is a program under both. Whichever of them is tried
first, a source is parsed to the same program or the same error. It is parsed to a program just if
it is one under exactly one root, and then to that program. -/
theorem parse_roots_disjoint (source : Text) :
    ¬ ((∃ m, parse .statement source = .ok m) ∧ ∃ n, parse .expression source = .ok n) ∧
    (∀ first, parseAny source = parseTrying first source) ∧
    (∀ n, parseAny source = .ok n ↔ ∃ root, parse root source = .ok n) ∧
    ((∃ n, parseAny source = .ok n) ↔ ∃! root, ∃ n, parse root source = .ok n) := by
  refine ⟨?_, fun first => parseAny_eq_of_first first source, fun n => parseAny_eq_ok_iff, ?_⟩
  · rintro ⟨⟨m, hm⟩, n, hn⟩
    cases parse_root_unique hm hn
  · constructor
    · rintro ⟨n, h⟩
      obtain ⟨root, hroot⟩ := parseAny_eq_ok_iff.mp h
      refine ⟨root, ⟨n, hroot⟩, ?_⟩
      rintro root' ⟨m, hm⟩
      exact parse_root_unique hm hroot
    · rintro ⟨root, ⟨n, hn⟩, -⟩
      exact ⟨n, parseAny_eq_ok_iff.mpr ⟨root, hn⟩⟩

end Denotation
