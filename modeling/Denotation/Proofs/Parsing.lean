import Denotation.Proofs.Grammar
import Denotation.Proofs.Lexing

/-!
# Parsing is sound and complete

The parser accepts exactly what the grammar derives. `Takes` says that a parsing function takes a
construct and leaves a rest. Every parsing function has one lemma that says when it takes something;
soundness and completeness both follow from these lemmas alone, the first by induction on how much
is left to parse, the second by induction on derivations.
-/

namespace Denotation

/-! ## What the parsing functions take -/

/-- Parsing takes the construct and leaves the rest. -/
def Takes {α : Type} {s : List ScanResult} (x : ParseOutcome α s) (v : α) (rest : List ScanResult) :
    Prop :=
  ∃ h, x = .ok ⟨v, rest, h⟩

section
variable {α β : Type} {s s' rest rest' : List ScanResult} {v w : α}

theorem Takes.shorter {x : ParseOutcome α s} (h : Takes x v rest) : rest.length < s.length :=
  let ⟨h, _⟩ := h; h

theorem Takes.unique {x : ParseOutcome α s} (h : Takes x v rest) (h' : Takes x w rest') :
    v = w ∧ rest = rest' := by
  obtain ⟨_, h⟩ := h
  obtain ⟨_, h'⟩ := h'
  rw [h] at h'
  cases h'
  exact ⟨rfl, rfl⟩

theorem takes_bind {x : ParseOutcome α s'} {f : Parsed α s' → ParseOutcome β s} {b : β} :
    Takes (x >>= f) b rest ↔
      ∃ a mid, ∃ h : Takes x a mid, Takes (f ⟨a, mid, h.shorter⟩) b rest := by
  constructor
  · rintro ⟨h, hx⟩
    cases x with
    | error e => cases hx
    | ok p => exact ⟨p.value, p.rest, ⟨p.shorter, rfl⟩, h, hx⟩
  · rintro ⟨a, mid, ⟨hm, rfl⟩, h, hf⟩
    exact ⟨h, hf⟩

theorem takes_pure {a : α} {h : rest'.length < s.length} :
    Takes (s := s) (pure ⟨a, rest', h⟩) v rest ↔ a = v ∧ rest' = rest := by
  constructor
  · rintro ⟨_, hx⟩
    cases hx
    exact ⟨rfl, rfl⟩
  · rintro ⟨rfl, rfl⟩
    exact ⟨h, rfl⟩

theorem takes_throw {e : ParseFailure} : ¬ Takes (s := s) (throw e) v rest := by
  rintro ⟨_, hx⟩
  cases hx

theorem takes_guard {c : Prop} [Decidable c] {e : ParseFailure} {f : β → ParseOutcome α s}
    {x : ParseOutcome α s} :
    Takes (if c then throw e >>= f else x) v rest ↔ ¬ c ∧ Takes x v rest := by
  by_cases hc : c
  · rw [if_pos hc]
    refine ⟨fun h => ?_, fun h => absurd hc h.1⟩
    obtain ⟨_, hx⟩ := h
    cases hx
  · rw [if_neg hc]
    exact ⟨fun h => ⟨hc, h⟩, fun h => h.2⟩

theorem takes_anyToken {t : Token} : Takes (anyToken s) t rest ↔ s = .ok t :: rest := by
  constructor
  · rintro ⟨_, hx⟩
    rcases s with _ | ⟨e | u, more⟩ <;> cases hx
    rfl
  · rintro rfl
    exact ⟨by simp, rfl⟩

theorem takes_expectKind {k : TokenKind} {t : Token} :
    Takes (expectKind k s) t rest ↔ s = .ok t :: rest ∧ t.kind = k := by
  unfold expectKind
  rw [takes_bind]
  constructor
  · rintro ⟨u, mid, hu, h⟩
    rw [takes_anyToken] at hu
    split at h
    · rename_i hk
      obtain ⟨rfl, rfl⟩ := takes_pure.mp h
      exact ⟨hu, hk⟩
    · exact absurd h takes_throw
  · rintro ⟨rfl, hk⟩
    refine ⟨t, rest, takes_anyToken.mpr rfl, ?_⟩
    rw [if_pos hk]
    exact takes_pure.mpr ⟨rfl, rfl⟩

theorem takes_expectKeyword {k : Keyword} {u : Unit} :
    Takes (expectKeyword k s) u rest ↔ ∃ t, s = .ok t :: rest ∧ t.IsWord k := by
  unfold expectKeyword
  rw [takes_bind]
  constructor
  · rintro ⟨t, mid, ht, h⟩
    obtain ⟨hs, hk⟩ := takes_expectKind.mp ht
    split at h
    · rename_i hv
      obtain ⟨-, rfl⟩ := takes_pure.mp h
      exact ⟨t, hs, hk, hv⟩
    · exact absurd h takes_throw
  · rintro ⟨t, rfl, hk, hv⟩
    refine ⟨t, rest, takes_expectKind.mpr ⟨rfl, hk⟩, ?_⟩
    rw [if_pos hv]
    exact takes_pure.mpr ⟨rfl, rfl⟩

end

section
variable {α : Type} {s more rest : List ScanResult} {ks ks' : List TokenKind} {k o c : TokenKind}
  {combine : α → α → α} {operand again inner parse : (s : List ScanResult) → ParseOutcome α s}
  {ts us : List Token} {t left right : Token} {v w : α} {D E : List Token → α → Prop}

theorem Parsed.shorter_of_rest (p : Parsed α s) (h : p.rest = .ok t :: more) :
    more.length < s.length := by
  have hp := p.shorter
  rw [h, List.length_cons] at hp
  exact Nat.lt_of_succ_lt hp

theorem Parsed.shorter_than (p : Parsed α more) (h : more.length < s.length) :
    p.rest.length < s.length :=
  Nat.lt_trans p.shorter h

/-- Parses an operand and, if the token after it is of the given kind, goes on after that token. -/
def chain (k : TokenKind) (combine : α → α → α)
    (operand again : (s : List ScanResult) → ParseOutcome α s) (s : List ScanResult) :
    ParseOutcome α s := do
  let left ← operand s
  match h : left.rest with
  | .ok t :: more =>
    if t.kind = k then
      have hmore : more.length < s.length := left.shorter_of_rest h
      let right ← again more
      return ⟨combine left.value right.value, right.rest, right.shorter_than hmore⟩
    else return left
  | .error e :: more => throw ⟨.scan e, more⟩
  | [] => throw ⟨.cutOff, []⟩

/-- Parses a construct between two tokens of the given kinds. -/
def enclosed (o c : TokenKind) (inner : (s : List ScanResult) → ParseOutcome α s)
    (s : List ScanResult) : ParseOutcome α s := do
  let opened ← expectKind o s
  let p ← inner opened.rest
  let closed ← expectKind c p.rest
  return ⟨p.value, closed.rest, by
    have := opened.shorter; have := p.shorter; have := closed.shorter; omega⟩

theorem takes_chain :
    Takes (chain k combine operand again s) v rest ↔
      ∃ l t more, Takes (operand s) l (.ok t :: more) ∧
      (t.kind ≠ k ∧ v = l ∧ rest = .ok t :: more ∨
        t.kind = k ∧ ∃ r, Takes (again more) r rest ∧ v = combine l r) := by
  unfold chain
  rw [takes_bind]
  constructor
  · rintro ⟨l, mid, hl, h⟩
    rcases mid with _ | ⟨e | t, more⟩
    · exact absurd h takes_throw
    · exact absurd h takes_throw
    · refine ⟨l, t, more, hl, ?_⟩
      simp only at h
      split at h
      · rename_i hk
        rw [takes_bind] at h
        obtain ⟨r, rest', hr, h⟩ := h
        obtain ⟨rfl, rfl⟩ := takes_pure.mp h
        exact Or.inr ⟨hk, r, hr, rfl⟩
      · rename_i hk
        obtain ⟨rfl, rfl⟩ := takes_pure.mp h
        exact Or.inl ⟨hk, rfl, rfl⟩
  · rintro ⟨l, t, more, hl, h⟩
    refine ⟨l, _, hl, ?_⟩
    simp only
    rcases h with ⟨hk, rfl, rfl⟩ | ⟨hk, r, hr, rfl⟩
    · rw [if_neg hk]
      exact takes_pure.mpr ⟨rfl, rfl⟩
    · rw [if_pos hk, takes_bind]
      exact ⟨r, rest, hr, takes_pure.mpr ⟨rfl, rfl⟩⟩

theorem takes_enclosed :
    Takes (enclosed o c inner s) v rest ↔ ∃ t more u, s = .ok t :: more ∧ t.kind = o ∧
      Takes (inner more) v (.ok u :: rest) ∧ u.kind = c := by
  unfold enclosed
  simp only [takes_bind, takes_expectKind, takes_pure]
  constructor
  · rintro ⟨t, more, ⟨rfl, ht⟩, v', mid, hv, u, rest', ⟨rfl, hu⟩, rfl, rfl⟩
    exact ⟨t, more, u, rfl, ht, hv, hu⟩
  · rintro ⟨t, more, u, rfl, ht, hv, hu⟩
    exact ⟨t, more, ⟨rfl, ht⟩, v, _, hv, u, rest, ⟨rfl, hu⟩, rfl, rfl⟩

/-! ## Soundness and completeness of a parsing function -/

/-- What the parsing function takes from the results derives what it makes of it. -/
def Sound (parse : (s : List ScanResult) → ParseOutcome α s) (D : List Token → α → Prop)
    (s : List ScanResult) : Prop :=
  ∀ v rest, Takes (parse s) v rest → ∃ ts : List Token, s = ts.map .ok ++ rest ∧ D ts v

/-- The results start with a token of none of the given kinds. -/
def Stops (ks : List TokenKind) (rest : List ScanResult) : Prop :=
  ∃ t more, rest = .ok t :: more ∧ t.kind ∉ ks

/-- The parsing function takes the tokens in front of all results that none of the kinds starts. -/
def Accepts (parse : (s : List ScanResult) → ParseOutcome α s) (ks : List TokenKind)
    (ts : List Token) (v : α) : Prop :=
  ∀ rest, Stops ks rest → Takes (parse (ts.map .ok ++ rest)) v rest

theorem stops_of_kind (ht : t.kind = k) (hk : k ∉ ks) : Stops ks (.ok t :: rest) :=
  ⟨t, rest, rfl, ht ▸ hk⟩

theorem sound_chain (hone : ∀ {ts v}, D ts v → E ts v)
    (hmore : ∀ {ts us t v w}, D ts v → t.kind = k → E us w → E (ts ++ t :: us) (combine v w))
    (hoperand : Sound operand D s)
    (hagain : ∀ s' : List ScanResult, s'.length < s.length → Sound again E s') :
    Sound (chain k combine operand again) E s := by
  intro v rest h
  obtain ⟨l, t, more, hl, hcases⟩ := takes_chain.mp h
  obtain ⟨ts, rfl, hts⟩ := hoperand l _ hl
  rcases hcases with ⟨hk, rfl, rfl⟩ | ⟨hk, r, hr, rfl⟩
  · exact ⟨ts, rfl, hone hts⟩
  · obtain ⟨us, rfl, hus⟩ := hagain more (by simp; omega) r rest hr
    exact ⟨ts ++ t :: us, by simp, hmore hts hk hus⟩

theorem sound_enclosed
    (hinner : ∀ s' : List ScanResult, s'.length < s.length → Sound inner D s')
    (h : Takes (enclosed o c inner s) v rest) :
    ∃ left ts right, s = .ok left :: ts.map .ok ++ .ok right :: rest ∧ left.kind = o ∧ D ts v ∧
      right.kind = c := by
  obtain ⟨left, more, right, rfl, hl, hv, hr⟩ := takes_enclosed.mp h
  obtain ⟨ts, rfl, hts⟩ := hinner more (by simp) v _ hv
  exact ⟨left, ts, right, rfl, hl, hts, hr⟩

theorem Accepts.chain_one (h : Accepts operand ks ts v) :
    Accepts (chain k combine operand again) (k :: ks) ts v := by
  rintro rest ⟨t, more, rfl, ht⟩
  rw [List.mem_cons, not_or] at ht
  exact takes_chain.mpr ⟨v, t, more, h _ ⟨t, more, rfl, ht.2⟩, Or.inl ⟨ht.1, rfl, rfl⟩⟩

theorem Accepts.chain_more (h : Accepts operand ks ts v) (ht : t.kind = k) (hk : k ∉ ks)
    (h' : Accepts again ks' us w) :
    Accepts (chain k combine operand again) ks' (ts ++ t :: us) (combine v w) := by
  intro rest hs
  rw [List.map_append, List.append_assoc]
  have hoperand := h (.ok t :: (us.map .ok ++ rest)) (stops_of_kind ht hk)
  exact takes_chain.mpr ⟨v, t, _, hoperand, Or.inr ⟨ht, w, h' rest hs, rfl⟩⟩

theorem Accepts.enclosed (hl : left.kind = o) (h : Accepts inner ks ts v) (hr : right.kind = c)
    (hc : c ∉ ks) :
    Takes (enclosed o c inner (.ok left :: (ts.map .ok ++ .ok right :: rest))) v rest :=
  takes_enclosed.mpr ⟨left, _, right, rfl, hl, h _ (stops_of_kind hr hc), hr⟩

end

/-! ## Expressions -/

/-- The parsing function of a symbol. -/
def Level.parse : Level → (s : List ScanResult) → ParseOutcome (Expr Empty) s
  | .expression, s => parseTier .less s
  | .add, s => parseTier .plus s
  | .multiply, s => parseTier .star s
  | .term, s => parseTerm s

/-- The symbol of a tier of operators. -/
def Tier.level : Tier → Level
  | .less => .expression
  | .plus => .add
  | .star => .multiply

/-- The symbol of the left operands of a tier. -/
def Tier.below : Tier → Level
  | .less => .add
  | .plus => .multiply
  | .star => .term

section
variable {s rest : List ScanResult} {e : Expr Empty} {tier : Tier}

theorem Tier.parse_level :
    tier.level.parse = chain tier.kind tier.combine tier.below.parse tier.level.parse := by
  funext s
  have hlevel : tier.level.parse = parseTier tier := by cases tier <;> rfl
  rw [hlevel, parseTier]
  cases tier <;> rfl

theorem takes_term :
    Takes (parseTerm s) e rest ↔ ∃ t more, s = .ok t :: more ∧
      (t.kind ≠ .parenOpen ∧ atom t = .ok e ∧ rest = more ∨
        t.kind = .parenOpen ∧ ∃ u, Takes (parseTier .less more) e (.ok u :: rest) ∧
          u.kind = .parenClose) := by
  rw [parseTerm, takes_bind]
  constructor
  · rintro ⟨t, more, ht, h⟩
    refine ⟨t, more, takes_anyToken.mp ht, ?_⟩
    simp only at h
    split at h
    · rename_i hk
      rw [takes_bind] at h
      obtain ⟨e', mid, he, h⟩ := h
      rw [takes_bind] at h
      obtain ⟨u, rest', hu, h⟩ := h
      obtain ⟨rfl, hclose⟩ := takes_expectKind.mp hu
      obtain ⟨rfl, rfl⟩ := takes_pure.mp h
      exact Or.inr ⟨hk, u, he, hclose⟩
    · rename_i hk
      split at h
      · rename_i e' he
        obtain ⟨rfl, rfl⟩ := takes_pure.mp h
        exact Or.inl ⟨hk, he, rfl⟩
      · exact absurd h takes_throw
  · rintro ⟨t, more, rfl, h⟩
    refine ⟨t, more, takes_anyToken.mpr rfl, ?_⟩
    simp only
    rcases h with ⟨hk, he, rfl⟩ | ⟨hk, u, he, hu⟩
    · rw [if_neg hk, he]
      exact takes_pure.mpr ⟨rfl, rfl⟩
    · rw [if_pos hk, takes_bind]
      refine ⟨e, _, he, ?_⟩
      rw [takes_bind]
      exact ⟨u, rest, takes_expectKind.mpr ⟨rfl, hu⟩, takes_pure.mpr ⟨rfl, rfl⟩⟩

/-- A token that stands for an expression is a term. -/
theorem derives_of_atom {t : Token} (h : atom t = .ok e) : Level.term.Derives [t] e := by
  unfold atom at h
  split at h
  · rename_i hk
    split at h
    · rename_i n hn
      cases h
      exact .number hk hn
    · cases h
  · rename_i hk
    split at h
    · rename_i hw
      cases h
      exact .true ⟨hk, (ofText?_eq_some_iff.mp hw).symm⟩
    · rename_i hw
      cases h
      exact .false ⟨hk, (ofText?_eq_some_iff.mp hw).symm⟩
    · cases h
    · rename_i hw
      cases h
      exact .name hk (ofText?_eq_none_iff.mp hw)
  · cases h

theorem derives_tier {ts : List Token} (h : tier.below.Derives ts e) : tier.level.Derives ts e := by
  cases tier with
  | less => exact .ofAdd h
  | plus => exact .ofMultiply h
  | star => exact .ofTerm h

theorem derives_combine {ts us : List Token} {op : Token} {l r : Expr Empty}
    (hl : tier.below.Derives ts l) (ho : op.kind = tier.kind) (hr : tier.level.Derives us r) :
    tier.level.Derives (ts ++ op :: us) (tier.combine l r) := by
  cases tier with
  | less => exact .lessThan hl ho hr
  | plus => exact .add hl ho hr
  | star => exact .multiply hl ho hr

theorem sound_term
    (ih : ∀ s' : List ScanResult, s'.length < s.length →
      Sound Level.expression.parse Level.expression.Derives s') :
    Sound Level.term.parse Level.term.Derives s := by
  intro e rest h
  obtain ⟨t, more, rfl, ⟨hk, he, rfl⟩ | ⟨hk, u, he, hu⟩⟩ := takes_term.mp h
  · exact ⟨[t], rfl, derives_of_atom he⟩
  · obtain ⟨ts, rfl, hts⟩ := ih more (by simp) e _ he
    exact ⟨t :: ts ++ [u], by simp, .brackets hk hts hu⟩

theorem sound_tier (tier : Tier)
    (ih : ∀ s' : List ScanResult, s'.length < s.length →
      Sound tier.level.parse tier.level.Derives s')
    (hbelow : Sound tier.below.parse tier.below.Derives s) :
    Sound tier.level.parse tier.level.Derives s := by
  rw [Tier.parse_level]
  exact sound_chain derives_tier derives_combine hbelow ih

/-- The parsing functions of expressions are sound. -/
theorem Level.sound (s : List ScanResult) (x : Level) : Sound x.parse x.Derives s := by
  induction hn : s.length using Nat.strong_induction_on generalizing s x with
  | h n ih =>
    have ih' : ∀ x : Level, ∀ s' : List ScanResult, s'.length < s.length →
        Sound x.parse x.Derives s' := fun x s' hs' => ih s'.length (hn ▸ hs') s' x rfl
    -- an operand stands in front of the same results, so the tighter symbols come first
    have hterm : Sound Level.term.parse Level.term.Derives s := sound_term (ih' .expression)
    have hmultiply : Sound Level.multiply.parse Level.multiply.Derives s :=
      sound_tier .star (ih' _) hterm
    have hadd : Sound Level.add.parse Level.add.Derives s := sound_tier .plus (ih' _) hmultiply
    cases x with
    | expression => exact sound_tier .less (ih' _) hadd
    | add => exact hadd
    | multiply => exact hmultiply
    | term => exact hterm

/-- The operators that an expression of a level would go on with: that of the level, and those of the
tighter levels. -/
def Level.operators : Level → List TokenKind
  | .expression => [.less, .plus, .star]
  | .add => [.plus, .star]
  | .multiply => [.star]
  | .term => []

theorem operators_level : tier.level.operators = tier.kind :: tier.below.operators := by
  cases tier <;> rfl

theorem kind_not_mem_operators_below : tier.kind ∉ tier.below.operators := by
  cases tier <;> decide

theorem accepts_of_below {ts : List Token} (tier : Tier)
    (h : Accepts tier.below.parse tier.below.operators ts e) :
    Accepts tier.level.parse tier.level.operators ts e := by
  rw [operators_level, Tier.parse_level]
  exact h.chain_one

theorem accepts_of_operands {ts us : List Token} (tier : Tier) {op : Token} {l r : Expr Empty}
    (hl : Accepts tier.below.parse tier.below.operators ts l) (ho : op.kind = tier.kind)
    (hr : Accepts tier.level.parse tier.level.operators us r) :
    Accepts tier.level.parse tier.level.operators (ts ++ op :: us) (tier.combine l r) := by
  rw [Tier.parse_level]
  exact hl.chain_more ho kind_not_mem_operators_below hr

theorem accepts_atom {t : Token} (hk : t.kind ≠ .parenOpen) (h : atom t = .ok e) :
    Accepts Level.term.parse Level.term.operators [t] e :=
  fun rest _ => takes_term.mpr ⟨t, rest, rfl, Or.inl ⟨hk, h, rfl⟩⟩

/-- The parsing functions of expressions are complete. -/
theorem Level.Derives.accepts {x : Level} {ts : List Token} (h : x.Derives ts e) :
    Accepts x.parse x.operators ts e := by
  induction h with
  | lessThan hl ho hr ihl ihr => exact accepts_of_operands .less ihl ho ihr
  | ofAdd h ih => exact accepts_of_below .less ih
  | add hl ho hr ihl ihr => exact accepts_of_operands .plus ihl ho ihr
  | ofMultiply h ih => exact accepts_of_below .plus ih
  | multiply hl ho hr ihl ihr => exact accepts_of_operands .star ihl ho ihr
  | ofTerm h ih => exact accepts_of_below .star ih
  | @brackets ts left right e hl h hr ih =>
    intro rest hs
    have hinner := ih (.ok right :: rest) (stops_of_kind hr (by decide))
    exact takes_term.mpr ⟨left, _, by simp, Or.inr ⟨hl, right, hinner, hr⟩⟩
  | number hk hn => exact accepts_atom (by rw [hk]; decide) (by simp [atom, hk, hn])
  | true h =>
    refine accepts_atom (by rw [h.1]; decide) ?_
    simp [atom, h.1, ofText?_eq_some_iff.mpr h.2.symm]
  | false h =>
    refine accepts_atom (by rw [h.1]; decide) ?_
    simp [atom, h.1, ofText?_eq_some_iff.mpr h.2.symm]
  | name hk hr =>
    refine accepts_atom (by rw [hk]; decide) ?_
    simp [atom, hk, ofText?_eq_none_iff.mpr hr]

end

/-! ## Statements -/

/-- The parsing function of a symbol. -/
def Grade.parse : Grade → (s : List ScanResult) → ParseOutcome (Stmt Empty) s
  | .statement, s => parseStatement s
  | .sequenced, s => parseSequenced s

section
variable {s rest : List ScanResult} {a : Stmt Empty}

theorem parseCondition_eq_enclosed :
    parseCondition = enclosed .parenOpen .parenClose Level.expression.parse := rfl

theorem parseBlock_eq_enclosed :
    parseBlock = enclosed .braceOpen .braceClose Grade.statement.parse := by
  funext s
  rw [parseBlock]
  rfl

theorem Grade.parse_statement :
    Grade.statement.parse =
      chain .semicolon .sequence Grade.sequenced.parse Grade.statement.parse := by
  funext s
  rw [Grade.parse, parseStatement]
  rfl

theorem takes_assign :
    Takes (parseAssign s) a rest ↔ ∃ name sign more e, s = .ok name :: .ok sign :: more ∧
      name.kind = .name ∧ ¬ Reserved name.value ∧ sign.kind = .equals ∧
      Takes (Level.expression.parse more) e rest ∧ a = .assign name.value e := by
  unfold parseAssign
  simp only [takes_bind, takes_expectKind, takes_guard, takes_pure, isSome_ofText?_iff]
  constructor
  · rintro ⟨name, mid, ⟨rfl, hk⟩, hr, sign, more, ⟨rfl, hs⟩, e, rest', he, rfl, rfl⟩
    exact ⟨name, sign, more, e, rfl, hk, hr, hs, he, rfl⟩
  · rintro ⟨name, sign, more, e, rfl, hk, hr, hs, he, rfl⟩
    exact ⟨name, _, ⟨rfl, hk⟩, hr, sign, more, ⟨rfl, hs⟩, e, rest, he, rfl, rfl⟩

theorem takes_sequenced :
    Takes (parseSequenced s) a rest ↔ ∃ t more, s = .ok t :: more ∧
      (t.IsWord .whileWord ∧ (∃ c b mid, Takes (parseCondition more) c mid ∧
          Takes (parseBlock mid) b rest ∧ a = .loop c b) ∨
        t.IsWord .ifWord ∧ (∃ c b d mid mid' mid'', Takes (parseCondition more) c mid ∧
          Takes (parseBlock mid) b mid' ∧ Takes (expectKeyword .elseWord mid') () mid'' ∧
          Takes (parseBlock mid'') d rest ∧ a = .branch c b d) ∨
        t.IsWord .doNothing ∧ a = .doNothing ∧ rest = more ∨
        Takes (parseAssign s) a rest) := by
  rw [parseSequenced]
  simp only [takes_bind, takes_anyToken, takes_guard, not_not]
  constructor
  · rintro ⟨t, more, rfl, hk, h⟩
    refine ⟨t, more, rfl, ?_⟩
    split at h
    · rename_i hw
      simp only [takes_bind, takes_pure] at h
      obtain ⟨c, mid, hc, b, rest', hb, rfl, rfl⟩ := h
      exact Or.inl ⟨⟨hk, (ofText?_eq_some_iff.mp hw).symm⟩, c, b, mid, hc, hb, rfl⟩
    · rename_i hw
      simp only [takes_bind, takes_pure] at h
      obtain ⟨c, mid, hc, b, mid', hb, u, mid'', he, d, rest', hd, rfl, rfl⟩ := h
      exact Or.inr (Or.inl ⟨⟨hk, (ofText?_eq_some_iff.mp hw).symm⟩, c, b, d, mid, mid', mid'', hc,
        hb, he, hd, rfl⟩)
    · rename_i hw
      obtain ⟨rfl, rfl⟩ := takes_pure.mp h
      exact Or.inr (Or.inr (Or.inl ⟨⟨hk, (ofText?_eq_some_iff.mp hw).symm⟩, rfl, rfl⟩))
    · exact Or.inr (Or.inr (Or.inr h))
  · rintro ⟨t, more, rfl, ⟨hw, c, b, mid, hc, hb, rfl⟩ |
      ⟨hw, c, b, d, mid, mid', mid'', hc, hb, he, hd, rfl⟩ | ⟨hw, rfl, rfl⟩ | h⟩
    · refine ⟨t, more, rfl, hw.1, ?_⟩
      rw [ofText?_eq_some_iff.mpr hw.2.symm]
      simp only [takes_bind, takes_pure]
      exact ⟨c, mid, hc, b, rest, hb, rfl, rfl⟩
    · refine ⟨t, more, rfl, hw.1, ?_⟩
      rw [ofText?_eq_some_iff.mpr hw.2.symm]
      simp only [takes_bind, takes_pure]
      exact ⟨c, mid, hc, b, mid', hb, (), mid'', he, d, rest, hd, rfl, rfl⟩
    · refine ⟨t, rest, rfl, hw.1, ?_⟩
      rw [ofText?_eq_some_iff.mpr hw.2.symm]
      exact takes_pure.mpr ⟨rfl, rfl⟩
    · obtain ⟨name, sign, more', e, hs, hk, hr, -⟩ := takes_assign.mp h
      obtain ⟨rfl, rfl⟩ : t = name ∧ more = .ok sign :: more' := by simpa using hs
      refine ⟨t, _, rfl, hk, ?_⟩
      rw [ofText?_eq_none_iff.mpr hr]
      exact h

theorem sound_sequenced
    (ih : ∀ s' : List ScanResult, s'.length < s.length →
      Sound Grade.statement.parse Grade.statement.Derives s') :
    Sound Grade.sequenced.parse Grade.sequenced.Derives s := by
  intro a rest h
  obtain ⟨t, more, rfl, hcases⟩ := takes_sequenced.mp h
  simp only [parseCondition_eq_enclosed, parseBlock_eq_enclosed] at hcases
  rcases hcases with ⟨hw, c, b, mid, hc, hb, rfl⟩ |
    ⟨hw, c, b, d, mid, mid', mid'', hc, hb, he, hd, rfl⟩ | ⟨hw, rfl, rfl⟩ | h
  · obtain ⟨left, ts, right, rfl, hl, hts, hr⟩ :=
      sound_enclosed (fun s' _ => Level.sound s' .expression) hc
    obtain ⟨opening, us, closing, rfl, ho, hus, hcl⟩ :=
      sound_enclosed (fun s' hs' => ih s' (by simp at hs' ⊢; omega)) hb
    exact ⟨_, by simp, .loop hw hl hts hr ho hus hcl⟩
  · obtain ⟨left, ts, right, rfl, hl, hts, hr⟩ :=
      sound_enclosed (fun s' _ => Level.sound s' .expression) hc
    obtain ⟨opening, us, closing, rfl, ho, hus, hcl⟩ :=
      sound_enclosed (fun s' hs' => ih s' (by simp at hs' ⊢; omega)) hb
    obtain ⟨otherwise, rfl, hword⟩ := takes_expectKeyword.mp he
    obtain ⟨opening', vs, closing', rfl, ho', hvs, hcl'⟩ :=
      sound_enclosed (fun s' hs' => ih s' (by simp at hs' ⊢; omega)) hd
    exact ⟨_, by simp, .branch hw hl hts hr ho hus hcl hword ho' hvs hcl'⟩
  · exact ⟨[t], rfl, .doNothing hw⟩
  · obtain ⟨name, sign, more', e, hs, hk, hr, hsign, he, rfl⟩ := takes_assign.mp h
    obtain ⟨ts, rfl, hts⟩ := Level.sound more' .expression e _ he
    exact ⟨name :: sign :: ts, hs, .assign hk hr hsign hts⟩

/-- Parsing statements is sound. -/
theorem Grade.statement_sound (s : List ScanResult) :
    Sound Grade.statement.parse Grade.statement.Derives s := by
  induction hn : s.length using Nat.strong_induction_on generalizing s with
  | h n ih =>
    have ih' : ∀ s' : List ScanResult, s'.length < s.length →
        Sound Grade.statement.parse Grade.statement.Derives s' :=
      fun s' hs' => ih s'.length (hn ▸ hs') s' rfl
    rw [Grade.parse_statement]
    exact sound_chain .single .sequence (sound_sequenced ih') ih'

/-- What a statement would go on with: the operators of the expression that it may end in, and a
semicolon if it may be a sequence. -/
def Grade.operators : Grade → List TokenKind
  | .statement => .semicolon :: Level.expression.operators
  | .sequenced => Level.expression.operators

/-- Parsing statements is complete. -/
theorem Grade.Derives.accepts {x : Grade} {ts : List Token} (h : x.Derives ts a) :
    Accepts x.parse x.operators ts a := by
  induction h with
  | sequence ha ho hb iha ihb =>
    rw [Grade.parse_statement]
    exact iha.chain_more ho (by decide) ihb
  | single h ih =>
    rw [Grade.parse_statement]
    exact ih.chain_one
  | @loop word left right opening closing ts us c a hw hl hc hr ho ha hcl iha =>
    intro rest _
    let block : List ScanResult := .ok opening :: (us.map .ok ++ .ok closing :: rest)
    have hcondition :
        Takes (parseCondition (.ok left :: (ts.map .ok ++ .ok right :: block))) c block :=
      hc.accepts.enclosed hl hr (by decide)
    have hblock : Takes (parseBlock block) a rest := by
      rw [parseBlock_eq_enclosed]
      exact iha.enclosed ho hcl (by decide)
    exact takes_sequenced.mpr ⟨word, _, by simp [block],
      Or.inl ⟨hw, c, a, block, hcondition, hblock, rfl⟩⟩
  | @branch word left right opening closing otherwise opening' closing' ts us vs c a b hw hl hc hr
      ho ha hcl he ho' hb hcl' iha ihb =>
    intro rest _
    let block' : List ScanResult := .ok opening' :: (vs.map .ok ++ .ok closing' :: rest)
    let block : List ScanResult :=
      .ok opening :: (us.map .ok ++ .ok closing :: .ok otherwise :: block')
    have hcondition :
        Takes (parseCondition (.ok left :: (ts.map .ok ++ .ok right :: block))) c block :=
      hc.accepts.enclosed hl hr (by decide)
    have hblock : Takes (parseBlock block) a (.ok otherwise :: block') := by
      rw [parseBlock_eq_enclosed]
      exact iha.enclosed ho hcl (by decide)
    have hblock' : Takes (parseBlock block') b rest := by
      rw [parseBlock_eq_enclosed]
      exact ihb.enclosed ho' hcl' (by decide)
    have hword : Takes (expectKeyword .elseWord (.ok otherwise :: block')) () block' :=
      takes_expectKeyword.mpr ⟨otherwise, rfl, he⟩
    exact takes_sequenced.mpr ⟨word, _, by simp [block, block'],
      Or.inr (Or.inl ⟨hw, c, a, b, block, _, block', hcondition, hblock, hword, hblock', rfl⟩)⟩
  | assign hk hr hs he =>
    intro rest hstops
    refine takes_sequenced.mpr ⟨_, _, rfl, Or.inr (Or.inr (Or.inr (takes_assign.mpr ?_)))⟩
    exact ⟨_, _, _, _, rfl, hk, hr, hs, he.accepts rest hstops, rfl⟩
  | doNothing hw =>
    intro rest _
    exact takes_sequenced.mpr ⟨_, rest, rfl, Or.inr (Or.inr (Or.inl ⟨hw, rfl, rfl⟩))⟩

end

/-! ## Programs -/

section
variable {root : Root} {s rest : List ScanResult} {ts : List Token} {m n : Node Empty}

theorem takes_root_statement :
    Takes (parseRoot .statement s) n rest ↔ ∃ a, Takes (parseStatement s) a rest ∧ n = .stmt a := by
  simp only [parseRoot, takes_bind, takes_pure]
  constructor
  · rintro ⟨a, mid, ha, rfl, rfl⟩
    exact ⟨a, ha, rfl⟩
  · rintro ⟨a, ha, rfl⟩
    exact ⟨a, rest, ha, rfl, rfl⟩

theorem takes_root_expression :
    Takes (parseRoot .expression s) n rest ↔
      ∃ e, Takes (parseExpression s) e rest ∧ n = .expr e := by
  simp only [parseRoot, takes_bind, takes_pure]
  constructor
  · rintro ⟨e, mid, he, rfl, rfl⟩
    exact ⟨e, he, rfl⟩
  · rintro ⟨e, he, rfl⟩
    exact ⟨e, rest, he, rfl, rfl⟩

/-- Parsing programs is sound. -/
theorem Root.sound (h : Takes (parseRoot root s) n rest) :
    ∃ ts : List Token, s = ts.map .ok ++ rest ∧ root.Derives ts n := by
  cases root with
  | statement =>
    obtain ⟨a, ha, rfl⟩ := takes_root_statement.mp h
    obtain ⟨ts, rfl, hts⟩ := Grade.statement_sound s a rest ha
    exact ⟨ts, rfl, .statement hts⟩
  | expression =>
    obtain ⟨e, he, rfl⟩ := takes_root_expression.mp h
    obtain ⟨ts, rfl, hts⟩ := Level.sound s .expression e rest he
    exact ⟨ts, rfl, .expression hts⟩

/-- Parsing programs is complete. -/
theorem Root.Derives.takes (h : root.Derives ts n) {e : Token} (he : e.kind = .ending) :
    Takes (parseRoot root (ts.map .ok ++ .ok e :: rest)) n (.ok e :: rest) := by
  cases h with
  | statement h =>
    exact takes_root_statement.mpr ⟨_, h.accepts _ (stops_of_kind he (by decide)), rfl⟩
  | expression h =>
    exact takes_root_expression.mpr ⟨_, h.accepts _ (stops_of_kind he (by decide)), rfl⟩

/-- Tokens derive one program at most. -/
theorem Root.Derives.unique (h : root.Derives ts m) (h' : root.Derives ts n) : m = n := by
  -- the parser takes both in front of an end of input, and it takes one program at most
  let e : Token := ⟨.ending, [], ⟨[], 0, 0⟩⟩
  have htakes : Takes (parseRoot root (ts.map .ok ++ [.ok e])) m [.ok e] := h.takes rfl
  exact (htakes.unique (h'.takes rfl)).1

theorem parseResults_eq_ok_iff :
    parseResults root s = .ok n ↔ ∃ e rest, Takes (parseRoot root s) n (.ok e :: rest) ∧
      e.kind = .ending := by
  unfold parseResults
  constructor
  · intro h
    cases hp : parseRoot root s with
    | error f =>
      rw [hp] at h
      cases h
    | ok p =>
      cases hq : expectKind .ending p.rest with
      | error f => simp [hp, hq, bind, Except.bind] at h
      | ok q =>
        obtain rfl : p.value = n := by simpa [hp, hq, bind, Except.bind, pure, Except.pure] using h
        obtain ⟨hrest, hk⟩ := takes_expectKind.mp ⟨q.shorter, hq⟩
        exact ⟨q.value, q.rest, ⟨hrest ▸ p.shorter, by simp only [← hrest]⟩, hk⟩
  · rintro ⟨e, rest, ⟨_, hp⟩, he⟩
    obtain ⟨_, hq⟩ := takes_expectKind.mpr (show .ok e :: rest = .ok e :: rest ∧ _ from ⟨rfl, he⟩)
    simp [hp, hq, bind, Except.bind, pure, Except.pure]

theorem parse_eq_ok_iff {source : Text} :
    parse root source = .ok n ↔
      ∃ ts, (Scanner.ofText source [] .complete).Lexes ts ∧ root.Derives ts n := by
  have hresults : parse root source = .ok n ↔
      parseResults root (Scanner.ofText source [] .complete).stream = .ok n := by
    unfold parse Scanner.parse
    cases parseResults root (Scanner.ofText source [] .complete).stream <;> simp [Except.mapError]
  rw [hresults, parseResults_eq_ok_iff]
  constructor
  · rintro ⟨e, rest, h, he⟩
    obtain ⟨ts, hs, hts⟩ := Root.sound h
    exact ⟨ts, Scanner.lexes_of_results he hs, hts⟩
  · rintro ⟨ts, hlex, hts⟩
    obtain ⟨e, he, hs⟩ := hlex.results (Nat.lt_succ_self _)
    refine ⟨e, [], ?_, he⟩
    rw [Scanner.stream, hs]
    exact hts.takes he

end

/-- The parser accepts exactly the grammar: a source is parsed to a program just if it lexes to the
end without an error and its tokens derive the program, and they derive no other. -/
theorem parse_eq_ok_iff_derives (root : Root) (source : Text) :
    (∀ n, parse root source = .ok n ↔
      ∃ ts, (Scanner.ofText source [] .complete).Lexes ts ∧ root.Derives ts n) ∧
    (∀ ts m n, root.Derives ts m → root.Derives ts n → m = n) :=
  ⟨fun _ => parse_eq_ok_iff, fun _ _ _ h h' => h.unique h'⟩

/-- The tokens of a sum derive it, and its source is parsed to it. -/
theorem parse_sum :
    Root.expression.Derives
        [⟨.number, "1", ⟨[], 1, 1⟩⟩, ⟨.plus, "+", ⟨[], 1, 3⟩⟩, ⟨.name, "x", ⟨[], 1, 5⟩⟩]
        (.expr (.add (.number 1) (.variable "x"))) ∧
      parse .expression "1 + x" = .ok (.expr (.add (.number 1) (.variable "x"))) := by
  have hx : ¬ Reserved "x" := by
    rintro ⟨k, hk⟩
    cases k <;> exact absurd hk (by decide)
  have hone : Level.term.Derives [⟨.number, "1", ⟨[], 1, 1⟩⟩] (.number 1) := .number rfl (by decide)
  have hvar : Level.term.Derives [⟨.name, "x", ⟨[], 1, 5⟩⟩] (.variable "x") := .name rfl hx
  have hsum : Level.add.Derives
      ([⟨.number, "1", ⟨[], 1, 1⟩⟩] ++ ⟨.plus, "+", ⟨[], 1, 3⟩⟩ :: [⟨.name, "x", ⟨[], 1, 5⟩⟩])
      (.add (.number 1) (.variable "x")) := .add (.ofTerm hone) rfl (.ofMultiply (.ofTerm hvar))
  refine ⟨.expression (.ofAdd hsum), ((parse_eq_ok_iff_derives .expression "1 + x").1 _).mpr
    ⟨_, ?_, .expression (.ofAdd hsum)⟩⟩
  exact .token rfl (by decide) (.token rfl (by decide) (.token rfl (by decide) (.ending rfl rfl)))

end Denotation
