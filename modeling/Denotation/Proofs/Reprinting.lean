import Denotation.Proofs.Roots
import Denotation.Proofs.Spelling

/-!
# Printed programs read back

A printed program is parsed to the program itself with its sequences nested to the right, provided
that its names are names of the grammar and its numbers are not negative. An expression is printed
with brackets where the grammar wants a stronger operand, so it is derived from the symbol of its
own level; a statement is printed as the list of its steps, so grouping is all that is lost.

A printed expression is no statement, so it does not matter that a source is tried as a statement
first.
-/

namespace Denotation

/-! ## What can be printed -/

/-- The text can name a variable. -/
def IsVariable (t : Text) : Prop := IsName t ∧ ¬ Reserved t

/-- The names can name variables and no number is negative. -/
def Expr.Printable : Expr Empty → Prop
  | .variable name => IsVariable name
  | .number n => 0 ≤ n
  | .boolean _ => True
  | .add l r | .multiply l r | .lessThan l r => l.Printable ∧ r.Printable

/-- The names can name variables and no number is negative. -/
def Stmt.Printable : Stmt Empty → Prop
  | .doNothing => True
  | .assign name e => IsVariable name ∧ e.Printable
  | .sequence a b => a.Printable ∧ b.Printable
  | .branch c a b => c.Printable ∧ a.Printable ∧ b.Printable
  | .loop c a => c.Printable ∧ a.Printable

/-- The names can name variables and no number is negative. -/
def Node.Printable : Node Empty → Prop
  | .expr e => e.Printable
  | .stmt s => s.Printable

/-! ## Nesting to the right -/

namespace Stmt

/-- Whether the statement is a sequence. -/
def isSequence : Stmt Empty → Bool
  | .sequence .. => true
  | _ => false

/-- The steps of one statement and then another statement, nested to the right. -/
def join : Stmt Empty → Stmt Empty → Stmt Empty
  | .sequence a b, c => .sequence a (b.join c)
  | a, c => .sequence a c

/-- The statement with every sequence nested to the right. -/
def toRight : Stmt Empty → Stmt Empty
  | .sequence a b => a.toRight.join b.toRight
  | .branch c a b => .branch c a.toRight b.toRight
  | .loop c a => .loop c a.toRight
  | .doNothing => .doNothing
  | .assign name e => .assign name e

/-- No sequence has a sequence as its first part. -/
def RightNested : Stmt Empty → Prop
  | .sequence a b => a.isSequence = false ∧ a.RightNested ∧ b.RightNested
  | .branch _ a b => a.RightNested ∧ b.RightNested
  | .loop _ a => a.RightNested
  | .doNothing | .assign .. => True

theorem join_of_not_sequence {a : Stmt Empty} (h : a.isSequence = false) (b : Stmt Empty) :
    a.join b = .sequence a b := by
  cases a with
  | sequence => cases h
  | _ => rfl

theorem RightNested.join {a b : Stmt Empty} (ha : a.RightNested) (hb : b.RightNested) :
    (a.join b).RightNested := by
  induction a with
  | sequence a c _ ihc => exact ⟨ha.1, ha.2.1, ihc ha.2.2⟩
  | gap g => exact g.elim
  | _ => exact ⟨rfl, ha, hb⟩

theorem rightNested_toRight (s : Stmt Empty) : s.toRight.RightNested := by
  induction s with
  | sequence a b iha ihb => exact iha.join ihb
  | branch c a b iha ihb => exact ⟨iha, ihb⟩
  | loop c a ih => exact ih
  | gap g => exact g.elim
  | _ => trivial

theorem RightNested.toRight_eq {s : Stmt Empty} (h : s.RightNested) : s.toRight = s := by
  induction s with
  | sequence a b iha ihb =>
    rw [toRight, iha h.2.1, ihb h.2.2, join_of_not_sequence h.1]
  | branch c a b iha ihb => rw [toRight, iha h.1, ihb h.2]
  | loop c a ih => rw [toRight, ih h]
  | gap g => exact g.elim
  | _ => rfl

end Stmt

/-! ## Expressions -/

/-- How strongly the expressions of a symbol bind at least. -/
def Level.strength : Level → Nat
  | .expression => 1
  | .add => 2
  | .multiply => 3
  | .term => 4

/-- The symbol that an expression is derived from without brackets. -/
def Expr.level : Expr Empty → Level
  | .lessThan .. => .expression
  | .add .. => .add
  | .multiply .. => .multiply
  | _ => .term

theorem Expr.strength_level (e : Expr Empty) : e.level.strength = e.strength := by
  cases e <;> rfl

section
variable {x y : Level} {ts : List Token} {e : Expr Empty}

theorem Level.Derives.toMultiply (h : x.Derives ts e) (hx : 3 ≤ x.strength) :
    Level.multiply.Derives ts e := by
  cases x with
  | term => exact .ofTerm h
  | multiply => exact h
  | add => exact absurd hx (by decide)
  | expression => exact absurd hx (by decide)

theorem Level.Derives.toAdd (h : x.Derives ts e) (hx : 2 ≤ x.strength) :
    Level.add.Derives ts e := by
  cases x with
  | term | multiply => exact .ofMultiply (h.toMultiply (by decide))
  | add => exact h
  | expression => exact absurd hx (by decide)

theorem Level.Derives.toExpression (h : x.Derives ts e) : Level.expression.Derives ts e := by
  cases x with
  | term | multiply | add => exact .ofAdd (h.toAdd (by decide))
  | expression => exact h

/-- What a symbol derives is derived from every weaker symbol. -/
theorem Level.Derives.weaken (h : x.Derives ts e) (hy : y.strength ≤ x.strength) :
    y.Derives ts e := by
  cases y with
  | expression => exact h.toExpression
  | add => exact h.toAdd hy
  | multiply => exact h.toMultiply hy
  | term =>
    cases x with
    | term => exact h
    | _ => exact absurd hy (by decide)

/-- An operand is bracketed if the grammar wants a stronger one. -/
theorem spells_operand (h : Spells false e.print (e.level.Derives · e)) (y : Level) :
    Spells false (bracketIf (e.strength < y.strength) e.print) (y.Derives · e) := by
  unfold bracketIf
  by_cases hs : e.strength < y.strength
  · rw [if_pos (by simpa using hs)]
    have hopen : Spells true "(" (Kinds [.parenOpen]) := spells_marks "(".toList (by decide)
    have hall := (hopen.append h (Or.inl rfl)).marked ")".toList (by decide) (by decide)
    refine hall.of_safe.mono ?_
    rintro ts ⟨_, ws, rfl, ⟨us, vs, rfl, hus, hvs⟩, hws⟩
    obtain ⟨left, rfl, hl⟩ := kinds_singleton.mp hus
    obtain ⟨right, rfl, hr⟩ := kinds_singleton.mp hws
    have hterm : Level.term.Derives (left :: vs ++ [right]) e := .brackets hl hvs.toExpression hr
    exact hterm.weaken (by cases y <;> decide)
  · rw [if_neg (by simpa using hs)]
    refine h.mono fun ts hts => hts.weaken ?_
    rw [e.strength_level]
    omega

theorem spells_binary (tier : Tier) (op : List Char)
    (hop : op.all isMark = true)
    (hk : op.filterMap TokenKind.ofPunctuation? = [tier.kind]) {l r : Expr Empty}
    (hl : Spells false l.print (l.level.Derives · l))
    (hr : Spells false r.print (r.level.Derives · r)) :
    Spells false (bracketIf (l.strength < tier.below.strength) l.print ++ Text.ofChars op
        ++ bracketIf (r.strength < tier.level.strength) r.print)
      (tier.level.Derives · (tier.combine l r)) := by
  have hne : op ≠ [] := by
    rintro rfl
    cases hk
  have hleft := (spells_operand hl tier.below).marked op hne hop
  refine (hleft.append (spells_operand hr tier.level) (Or.inl rfl)).mono ?_
  rintro ts ⟨_, ws, rfl, ⟨us, vs, rfl, hus, hvs⟩, hws⟩
  rw [hk] at hvs
  obtain ⟨t, rfl, ht⟩ := kinds_singleton.mp hvs
  rw [List.append_assoc]
  exact derives_combine hus ht hws

theorem isName_text (k : Keyword) : IsName k.text := by
  cases k <;> exact ⟨_, _, rfl, by decide, List.all_eq_true.mp (by decide)⟩

theorem spells_word (k : Keyword) : Spells false k.text (One (·.IsWord k)) :=
  spells_name (isName_text k)

/-- A printed expression is derived from the symbol of its level. -/
theorem Expr.spells (e : Expr Empty) (h : e.Printable) :
    Spells false e.print (e.level.Derives · e) := by
  induction e with
  | «variable» name =>
    refine (spells_name h.1).mono ?_
    rintro ts ⟨t, rfl, hk, rfl⟩
    exact .name hk h.2
  | number n =>
    refine (spells_digits (Text.ofInt64_ne_nil n) (Text.digits_ofInt64 h)).mono ?_
    rintro ts ⟨t, rfl, hk, hv⟩
    exact .number hk (hv ▸ Text.toInt64?_ofInt64 n)
  | boolean b =>
    cases b with
    | true =>
      refine (spells_word .trueWord).mono ?_
      rintro ts ⟨t, rfl, ht⟩
      exact .true ht
    | false =>
      refine (spells_word .falseWord).mono ?_
      rintro ts ⟨t, rfl, ht⟩
      exact .false ht
  | add l r ihl ihr => exact spells_binary .plus " + ".toList (by decide) rfl (ihl h.1) (ihr h.2)
  | multiply l r ihl ihr =>
    exact spells_binary .star " * ".toList (by decide) rfl (ihl h.1) (ihr h.2)
  | lessThan l r ihl ihr =>
    exact spells_binary .less " < ".toList (by decide) rfl (ihl h.1) (ihr h.2)
  | gap g => exact g.elim

end

/-! ## Statements -/

theorem Expr.lacksOperand_eq_false (e : Expr Empty) : e.lacksOperand = false := by
  have hgap : ∀ e : Expr Empty, e.isMissing = false := by
    intro e
    cases e with
    | gap g => exact g.elim
    | _ => rfl
  induction e with
  | add l r ihl ihr | multiply l r ihl ihr | lessThan l r ihl ihr =>
    simp only [lacksOperand, hgap, ihl, ihr, Bool.or_self]
  | gap g => exact g.elim
  | _ => rfl

theorem Expr.printInside_eq (e : Expr Empty) : e.printInside = e.print := by
  rw [printInside, e.lacksOperand_eq_false]
  rfl

theorem Expr.spells_inside (e : Expr Empty) (h : e.Printable) :
    Spells false e.printInside (Level.expression.Derives · e) := by
  rw [e.printInside_eq]
  exact (e.spells h).mono fun ts hts => hts.toExpression

section
variable {a b : Stmt Empty} {ts us : List Token}

theorem not_sequence_of_derives (h : Grade.sequenced.Derives ts a) : a.isSequence = false := by
  cases h <;> rfl

/-- Statements with a semicolon between them are derived with their steps joined. -/
theorem derives_join {op : Token} (ha : Grade.statement.Derives ts a) (ho : op.kind = .semicolon)
    (hb : Grade.statement.Derives us b) : Grade.statement.Derives (ts ++ op :: us) (a.join b) := by
  -- along the derivation of the first statement, whose last step takes the second one on
  generalize hx : Grade.statement = x at ha
  induction ha with
  | sequence ha ho' hc iha ihc =>
    rw [List.append_assoc, Stmt.join]
    exact .sequence ha ho' (ihc hx)
  | single ha _ =>
    rw [Stmt.join_of_not_sequence (not_sequence_of_derives ha)]
    exact .sequence ha ho hb
  | _ => cases hx

/-- A keyword, a condition in brackets and an opening brace. -/
theorem spells_head (k : Keyword) {c : Expr Empty} (hc : c.Printable) :
    Spells true (k.text ++ Text.ofString " (" ++ c.printInside ++ Text.ofString ") \x7b ") fun ts =>
      ∃ word left us right opening, ts = word :: left :: us ++ [right, opening] ∧ word.IsWord k ∧
        left.kind = .parenOpen ∧ Level.expression.Derives us c ∧ right.kind = .parenClose ∧
        opening.kind = .braceOpen := by
  have hword := (spells_word k).marked " (".toList (by decide) (by decide)
  have hcond := hword.append (c.spells_inside hc) (Or.inl rfl)
  refine (hcond.marked ") \x7b ".toList (by decide) (by decide)).mono ?_
  rintro ts ⟨_, ys, rfl, ⟨_, xs, rfl, ⟨us, vs, rfl, ⟨word, rfl, hw⟩, hvs⟩, hxs⟩, hys⟩
  obtain ⟨left, rfl, hl⟩ := kinds_singleton.mp hvs
  obtain ⟨right, _, rfl, hr, hys⟩ := kinds_cons.mp hys
  obtain ⟨opening, rfl, ho⟩ := kinds_singleton.mp hys
  exact ⟨word, left, xs, right, opening, rfl, hw, hl, hxs, hr, ho⟩

theorem print_loop (c : Expr Empty) (a : Stmt Empty) :
    (Stmt.loop c a).print
      = Keyword.whileWord.text ++ Text.ofString " (" ++ c.printInside ++ Text.ofString ") \x7b "
          ++ a.print ++ Text.ofString " \x7d" := by
  simp only [Stmt.print, Text.concat, List.flatten_cons, List.flatten_nil, List.append_assoc,
    List.append_nil]
  rfl

theorem print_branch (c : Expr Empty) (a b : Stmt Empty) :
    (Stmt.branch c a b).print
      = Keyword.ifWord.text ++ Text.ofString " (" ++ c.printInside ++ Text.ofString ") \x7b "
          ++ a.print ++ Text.ofString " \x7d " ++ Keyword.elseWord.text ++ Text.ofString " \x7b "
          ++ b.print ++ Text.ofString " \x7d" := by
  simp only [Stmt.print, Text.concat, List.flatten_cons, List.flatten_nil, List.append_assoc,
    List.append_nil]
  rfl

/-- A printed statement is derived with its sequences nested to the right. -/
theorem Stmt.spells (s : Stmt Empty) (h : s.Printable) :
    Spells false s.print (Grade.statement.Derives · s.toRight) := by
  induction s with
  | doNothing =>
    refine (spells_word .doNothing).mono ?_
    rintro ts ⟨t, rfl, ht⟩
    exact .single (.doNothing ht)
  | assign name e =>
    have hsign := (spells_name h.1.1).marked " = ".toList (by decide) (by decide)
    refine (hsign.append (e.spells_inside h.2) (Or.inl rfl)).mono ?_
    rintro ts ⟨_, ws, rfl, ⟨us, vs, rfl, ⟨t, rfl, hk, rfl⟩, hvs⟩, hws⟩
    obtain ⟨sign, rfl, hs⟩ := kinds_singleton.mp hvs
    exact .single (.assign hk h.1.2 hs hws)
  | sequence a b iha ihb =>
    have hsign := (iha h.1).marked "; ".toList (by decide) (by decide)
    refine (hsign.append (ihb h.2) (Or.inl rfl)).mono ?_
    rintro ts ⟨_, ws, rfl, ⟨us, vs, rfl, hus, hvs⟩, hws⟩
    obtain ⟨sign, rfl, hs⟩ := kinds_singleton.mp hvs
    rw [List.append_assoc]
    exact derives_join hus hs hws
  | branch c a b iha ihb =>
    rw [print_branch]
    have hthen := (spells_head .ifWord h.1).append (iha h.2.1) (Or.inl rfl)
    have helse := (hthen.marked " \x7d ".toList (by decide) (by decide)).append
      (spells_word .elseWord) (Or.inl rfl)
    have hblock := (helse.marked " \x7b ".toList (by decide) (by decide)).append (ihb h.2.2)
      (Or.inl rfl)
    refine (hblock.marked " \x7d".toList (by decide) (by decide)).of_safe.mono ?_
    rintro ts ⟨_, zs, rfl, ⟨_, vs, rfl, ⟨_, ys, rfl, ⟨_, _, rfl, ⟨_, xs, rfl, ⟨_, us, rfl,
      ⟨word, left, cs, right, opening, rfl, hw, hl, hc, hr, ho⟩, ha⟩, hxs⟩, otherwise, rfl, he⟩,
      hys⟩, hb⟩, hzs⟩
    obtain ⟨closing, rfl, hcl⟩ := kinds_singleton.mp hxs
    obtain ⟨opening', rfl, ho'⟩ := kinds_singleton.mp hys
    obtain ⟨closing', rfl, hcl'⟩ := kinds_singleton.mp hzs
    have hderives := Grade.Derives.branch hw hl hc hr ho ha hcl he ho' hb hcl'
    simpa [toRight] using Grade.Derives.single hderives
  | loop c a ih =>
    rw [print_loop]
    have hbody := (spells_head .whileWord h.1).append (ih h.2) (Or.inl rfl)
    refine (hbody.marked " \x7d".toList (by decide) (by decide)).of_safe.mono ?_
    rintro ts ⟨_, xs, rfl, ⟨_, us, rfl, ⟨word, left, cs, right, opening, rfl, hw, hl, hc, hr, ho⟩,
      ha⟩, hxs⟩
    obtain ⟨closing, rfl, hcl⟩ := kinds_singleton.mp hxs
    have hderives := Grade.Derives.loop hw hl hc hr ho ha hcl
    simpa [toRight] using Grade.Derives.single hderives
  | gap g => exact g.elim

end

/-! ## Programs -/

namespace Node

/-- The program with every sequence nested to the right. -/
def toRight : Node Empty → Node Empty
  | .expr e => .expr e
  | .stmt s => .stmt s.toRight

/-- No sequence has a sequence as its first part. -/
def RightNested : Node Empty → Prop
  | .expr _ => True
  | .stmt s => s.RightNested

theorem rightNested_toRight (n : Node Empty) : n.toRight.RightNested := by
  cases n with
  | expr e => trivial
  | stmt s => exact s.rightNested_toRight
  | gap g => exact g.elim

theorem RightNested.toRight_eq {n : Node Empty} (h : n.RightNested) : n.toRight = n := by
  cases n with
  | expr e => rfl
  | stmt s => rw [toRight, Stmt.RightNested.toRight_eq h]
  | gap g => exact g.elim

end Node

/-- A printed statement is parsed to the statement nested to the right. -/
theorem parse_print_stmt {s : Stmt Empty} (h : s.Printable) :
    parse .statement s.print = .ok (.stmt s.toRight) := by
  obtain ⟨ts, hlex, hts⟩ := (s.spells h).lexes
  exact parse_eq_ok_iff.mpr ⟨ts, hlex, .statement hts⟩

/-- A printed expression is parsed to the expression. -/
theorem parse_print_expr {e : Expr Empty} (h : e.Printable) :
    parse .expression e.print = .ok (.expr e) := by
  obtain ⟨ts, hlex, hts⟩ := (e.spells h).lexes
  exact parse_eq_ok_iff.mpr ⟨ts, hlex, .expression hts.toExpression⟩

theorem parseAny_print_toRight {n : Node Empty} (h : n.Printable) :
    parseAny n.print = .ok n.toRight := by
  cases n with
  | expr e => exact parseAny_eq_ok_iff.mpr ⟨.expression, parse_print_expr h⟩
  | stmt s => exact parseAny_eq_ok_iff.mpr ⟨.statement, parse_print_stmt h⟩
  | gap g => exact g.elim

/-- A printed program is parsed to the program with every sequence nested to the right, and to the
program itself if no sequence has a sequence as its first part. -/
theorem parseAny_print (n : Node Empty) (h : n.Printable) :
    parseAny n.print = .ok n.toRight ∧ n.toRight.RightNested ∧
      (n.RightNested → parseAny n.print = .ok n) := by
  refine ⟨parseAny_print_toRight h, n.rightNested_toRight, fun hn => ?_⟩
  rw [parseAny_print_toRight h, hn.toRight_eq]

/-- A sequence nested to the left comes back nested to the right, with brackets where they were. -/
theorem parseAny_print_nested_left :
    (Node.stmt (.sequence (.sequence .doNothing (.assign "x" (.multiply (.add (.number 1)
        (.variable "x")) (.number 2)))) .doNothing)).Printable ∧
      parseAny (Node.stmt (.sequence (.sequence .doNothing (.assign "x" (.multiply (.add (.number 1)
        (.variable "x")) (.number 2)))) .doNothing)).print
      = .ok (.stmt (.sequence .doNothing (.sequence (.assign "x" (.multiply (.add (.number 1)
          (.variable "x")) (.number 2))) .doNothing))) := by
  have hx : IsVariable "x" := by
    refine ⟨⟨'x', [], rfl, by decide, by simp⟩, ?_⟩
    rintro ⟨k, hk⟩
    cases k <;> exact absurd hk (by decide)
  have hone : (0 : Int64) ≤ 1 := by decide
  have htwo : (0 : Int64) ≤ 2 := by decide
  refine ⟨?printable, (parseAny_print _ ?printable).1⟩
  exact ⟨⟨trivial, hx, ⟨hone, hx⟩, htwo⟩, trivial⟩

end Denotation
