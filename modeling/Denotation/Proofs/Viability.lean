import Denotation.Proofs.ParserDescent

/-!
# The parser asks in time

A list of tokens is viable if it can be continued to a program. The trees of the parser ask for a
token only after viable tokens, so a failure is noticed at the first token that makes the tokens not
viable. `Accords` says this of a tree and a symbol of the grammar, wherever the symbol may stand:
the context of the symbol is given by what is viable.
-/

namespace Denotation

open Descent

/-! ## Trees in accord with the grammar -/

/-- What derives from the symbol is viable after the tokens. -/
def Admits {α : Type} (viable : List Token → Prop) (D : List Token → α → Prop)
    (taken : List Token) : Prop :=
  ∀ ts v, D ts v → viable (taken ++ ts)

/-- The start of viable tokens is viable. -/
def PrefixClosed (viable : List Token → Prop) : Prop :=
  ∀ ts us, viable (ts ++ us) → viable ts

/-- Wherever the symbol may stand, the tree is safe, and the tokens that it takes derive the value
that it gives. -/
def Accords {α : Type} (d : Descent α) (D : List Token → α → Prop) : Prop :=
  ∀ (viable : List Token → Prop) (post : List Token → Option Token → α → Prop) (taken : List Token)
    (held : Option Token), PrefixClosed viable → Admits viable D taken →
    (∀ ts v held, D ts v → post (taken ++ ts) held v) → Safe viable post taken held d

section
variable {α β : Type} {d d' : Descent α} {f : α → Descent β} {D E : List Token → α → Prop}
  {viable : List Token → Prop} {taken : List Token} {k o c : TokenKind} {combine : α → α → α}

theorem Admits.viable_taken (hadmits : Admits viable D taken) (hclosed : PrefixClosed viable)
    (hD : ∃ ts v, D ts v) : viable taken := by
  obtain ⟨ts, v, h⟩ := hD
  exact hclosed taken ts (hadmits ts v h)

theorem Accords.mono (h : Accords d D) (hDE : ∀ ts v, D ts v → E ts v) : Accords d E := by
  intro viable post taken held hclosed hadmits hpost
  exact h viable post taken held hclosed (fun ts v hts => hadmits ts v (hDE ts v hts))
    fun ts v held hts => hpost ts v held (hDE ts v hts)

theorem accords_exhausted : Accords (α := α) .exhausted D := fun _ _ _ _ _ _ _ => trivial

theorem accords_done (v : α) : Accords (.done v) fun ts w => ts = [] ∧ w = v := by
  intro viable post taken held _ _ hpost
  have h := hpost [] v held ⟨rfl, rfl⟩
  rwa [List.append_nil] at h

theorem Accords.bind {G : α → List Token → β → Prop} (hd : Accords d D)
    (hf : ∀ v, Accords (f v) (G v)) (hG : ∀ v, ∃ ts w, G v ts w) :
    Accords (d.bind f) fun ts w => ∃ us vs v, ts = us ++ vs ∧ D us v ∧ G v vs w := by
  intro viable post taken held hclosed hadmits hpost
  have hfirst : Safe viable (fun taken' _ v => ∃ us, taken' = taken ++ us ∧ D us v) taken held
      d := by
    refine hd viable _ taken held hclosed (fun us v hus => ?_) fun us v _ hus => ⟨us, rfl, hus⟩
    obtain ⟨vs, w, hvs⟩ := hG v
    refine hclosed (taken ++ us) vs ?_
    rw [List.append_assoc]
    exact hadmits _ w ⟨us, vs, v, rfl, hus, hvs⟩
  refine hfirst.bind fun taken' held' v htaken => ?_
  obtain ⟨us, rfl, hus⟩ := htaken
  refine hf v viable post (taken ++ us) held' hclosed (fun vs w hvs => ?_) fun vs w held'' hvs => ?_
  · rw [List.append_assoc]
    exact hadmits _ w ⟨us, vs, v, rfl, hus, hvs⟩
  · rw [List.append_assoc]
    exact hpost _ w held'' ⟨us, vs, v, rfl, hus, hvs⟩

theorem Accords.map (hd : Accords d D) (g : α → β) :
    Accords (d.bind fun v => .done (g v)) fun ts w => ∃ v, D ts v ∧ w = g v := by
  refine Accords.mono (hd.bind (fun v => accords_done (g v)) fun v => ⟨[], g v, rfl, rfl⟩) ?_
  rintro ts w ⟨us, _, v, rfl, hus, rfl, rfl⟩
  exact ⟨v, by rwa [List.append_nil], rfl⟩

/-- A token that is judged at once. -/
theorem accords_expect {judge : Token → Except ParseError α}
    (hok : ∀ t v, judge t = .ok v → D [t] v)
    (hrefused : ∀ t e, judge t = .error e → ∃ w, e = .unexpected t w) (hD : ∃ ts v, D ts v) :
    Accords (expect judge) D := by
  intro viable post taken held hclosed hadmits hpost
  have hviable := hadmits.viable_taken hclosed hD
  refine ⟨hviable, fun t _ => ?_⟩
  show Safe viable post (taken ++ [t]) none (ofExcept (judge t))
  cases hjudge : judge t with
  | ok v => exact hpost [t] v none (hok t v hjudge)
  | error e => exact ⟨taken, t, by simp, hviable, Or.inl (hrefused t e hjudge)⟩

theorem exists_token (k : TokenKind) : ∃ t : Token, t.kind = k := ⟨⟨k, [], ⟨[], 0, 0⟩⟩, rfl⟩

theorem accords_expectKind (k : TokenKind) :
    Accords (expect (judgeKind k)) fun ts v => ts = [v] ∧ v.kind = k := by
  refine accords_expect (fun t v h => ?_) (fun t e h => ?_) ?_
  · unfold judgeKind at h
    split at h
    · rename_i hk
      cases h
      exact ⟨rfl, hk⟩
    · cases h
  · unfold judgeKind at h
    split at h
    · cases h
    · cases h
      exact ⟨_, rfl⟩
  · obtain ⟨t, ht⟩ := exists_token k
    exact ⟨[t], t, rfl, ht⟩

theorem accords_expectKeyword (k : Keyword) :
    Accords (expect (judgeKeyword k)) fun ts _ => ∃ t : Token, ts = [t] ∧ t.IsWord k := by
  refine accords_expect (fun t v h => ?_) (fun t e h => ?_) ?_
  · unfold judgeKeyword at h
    split at h
    · rename_i hk
      split at h
      · rename_i hv
        exact ⟨t, rfl, hk, hv⟩
      · cases h
    · cases h
  · unfold judgeKeyword at h
    split at h
    · split at h
      · cases h
      · cases h
        exact ⟨_, rfl⟩
    · cases h
      exact ⟨_, rfl⟩
  · exact ⟨[⟨.name, k.text, ⟨[], 0, 0⟩⟩], (), _, rfl, rfl, rfl⟩

theorem accords_chain (hd : Accords d D) (hd' : Accords d' E) (hone : ∀ ts v, D ts v → E ts v)
    (hmore : ∀ ts us t v w, D ts v → t.kind = k → E us w → E (ts ++ t :: us) (combine v w)) :
    Accords (Descent.chain k combine d d') E := by
  intro viable post taken held hclosed hadmits hpost
  have hfirst : Safe viable (fun taken' _ v => ∃ ts, taken' = taken ++ ts ∧ D ts v) taken held d :=
    hd viable _ taken held hclosed (fun ts v hts => hadmits ts v (hone ts v hts))
      fun ts v _ hts => ⟨ts, rfl, hts⟩
  refine hfirst.bind fun taken' held' v htaken => ?_
  obtain ⟨ts, rfl, hts⟩ := htaken
  refine ⟨hadmits ts v (hone ts v hts), fun t _ => ?_⟩
  show Safe viable post (taken ++ ts) (some t) (if t.kind = k then _ else _)
  by_cases hk : t.kind = k
  · rw [if_pos hk]
    refine ⟨t, rfl, ?_⟩
    have hassoc : ∀ us, taken ++ ts ++ [t] ++ us = taken ++ (ts ++ t :: us) := by simp
    have hsecond : Safe viable (fun taken' _ w => ∃ us, taken' = taken ++ (ts ++ t :: us) ∧ E us w)
        (taken ++ ts ++ [t]) none d' := by
      refine hd' viable _ _ none hclosed (fun us w hus => ?_) fun us w _ hus => ⟨us, hassoc us, hus⟩
      rw [hassoc]
      exact hadmits _ _ (hmore ts us t v w hts hk hus)
    refine hsecond.bind fun taken' held'' w htaken => ?_
    obtain ⟨us, rfl, hus⟩ := htaken
    exact hpost _ _ held'' (hmore ts us t v w hts hk hus)
  · rw [if_neg hk]
    exact hpost ts v (some t) (hone ts v hts)

theorem accords_closed (hd : Accords d D) :
    Accords (Descent.closed c d) fun ts v => ∃ us t, ts = us ++ [t] ∧ D us v ∧ t.kind = c := by
  have hend : ∀ v : α, Accords ((expect (judgeKind c)).bind fun _ => .done v) fun ts w =>
      ∃ t, (ts = [t] ∧ t.kind = c) ∧ w = v := fun v => (accords_expectKind c).map fun _ => v
  refine Accords.mono (hd.bind hend fun v => ?_) ?_
  · obtain ⟨t, ht⟩ := exists_token c
    exact ⟨[t], v, t, ⟨rfl, ht⟩, rfl⟩
  · rintro ts w ⟨us, _, v, rfl, hus, t, ⟨rfl, ht⟩, rfl⟩
    exact ⟨us, t, rfl, hus, ht⟩

theorem accords_enclosed (hd : Accords d D) (hD : ∃ ts v, D ts v) :
    Accords (Descent.enclosed o c d) fun ts v =>
      ∃ left us right, ts = left :: us ++ [right] ∧ left.kind = o ∧ D us v ∧ right.kind = c := by
  refine Accords.mono ((accords_expectKind o).bind (fun _ => accords_closed hd) fun _ => ?_) ?_
  · obtain ⟨ts, v, hts⟩ := hD
    obtain ⟨t, ht⟩ := exists_token c
    exact ⟨ts ++ [t], v, ts, t, rfl, hts, ht⟩
  · rintro ts v ⟨_, _, left, rfl, ⟨rfl, hl⟩, us, right, rfl, hus, hr⟩
    exact ⟨left, us, right, rfl, hl, hus, hr⟩

end

/-! ## Expressions -/

/-- The token of a number. -/
def zeroToken : Token := ⟨.number, "0", ⟨[], 0, 0⟩⟩

theorem derives_zeroToken (x : Level) : x.Derives [zeroToken] (.number 0) := by
  have hterm : Level.term.Derives [zeroToken] (.number 0) := .number rfl (by decide)
  cases x with
  | expression => exact .ofAdd (.ofMultiply (.ofTerm hterm))
  | add => exact .ofMultiply (.ofTerm hterm)
  | multiply => exact .ofTerm hterm
  | term => exact hterm

theorem atom_error {t : Token} {e : ParseError} (h : atom t = .error e) :
    (∃ w, e = .unexpected t w) ∨
      e = .badNumber t ∧ t.kind = .number ∧ Text.toInt64? t.value = none := by
  unfold atom at h
  split at h
  · rename_i hk
    split at h
    · cases h
    · rename_i hn
      cases h
      exact Or.inr ⟨rfl, hk, hn⟩
  · split at h
    · cases h
    · cases h
    · cases h
      exact Or.inl ⟨_, rfl⟩
    · cases h
  · cases h
    exact Or.inl ⟨_, rfl⟩

theorem accords_term {n : Nat}
    (ih : Accords (Level.expression.descent n) Level.expression.Derives) :
    Accords (Level.term.descent (n + 1)) Level.term.Derives := by
  intro viable post taken held hclosed hadmits hpost
  have hviable := hadmits.viable_taken hclosed ⟨_, _, derives_zeroToken .term⟩
  refine ⟨hviable, fun t _ => ?_⟩
  show Safe viable post (taken ++ [t]) none (if t.kind = .parenOpen then _ else _)
  by_cases hk : t.kind = .parenOpen
  · rw [if_pos hk]
    have hbrackets : ∀ ts v, (∃ us r, ts = us ++ [r] ∧ Level.expression.Derives us v ∧
        r.kind = .parenClose) → Level.term.Derives (t :: ts) v := by
      rintro ts v ⟨us, r, rfl, hus, hr⟩
      exact .brackets hk hus hr
    refine accords_closed ih viable post _ none hclosed
      (fun ts v hts => ?_) fun ts v held hts => ?_
    · rw [List.append_assoc]
      exact hadmits _ v (hbrackets ts v hts)
    · rw [List.append_assoc]
      exact hpost _ v held (hbrackets ts v hts)
  · rw [if_neg hk]
    cases hatom : atom t with
    | ok e => exact hpost [t] e none (derives_of_atom hatom)
    | error e =>
      refine ⟨taken, t, by simp, hviable, (atom_error hatom).imp_right ?_⟩
      rintro ⟨he, hnumber, hvalue⟩
      exact ⟨he, hnumber, hvalue, zeroToken, rfl, hadmits _ _ (derives_zeroToken .term)⟩

theorem accords_tier {n : Nat} (tier : Tier)
    (hbelow : Accords (tier.below.descent n) tier.below.Derives)
    (hagain : Accords (tier.level.descent n) tier.level.Derives) :
    Accords (tier.level.descent (n + 1)) tier.level.Derives := by
  rw [Tier.descent_level]
  exact accords_chain hbelow hagain (fun _ _ h => derives_tier h)
    fun _ _ _ _ _ hl ho hr => derives_combine hl ho hr

/-- The trees of expressions are in accord with the grammar. -/
theorem Level.accords (n : Nat) (x : Level) : Accords (x.descent n) x.Derives := by
  induction n generalizing x with
  | zero => cases x <;> exact accords_exhausted
  | succ n ih =>
    cases x with
    | expression => exact accords_tier .less (ih _) (ih _)
    | add => exact accords_tier .plus (ih _) (ih _)
    | multiply => exact accords_tier .star (ih _) (ih _)
    | term => exact accords_term (ih _)

/-! ## Statements -/

/-- The token of a statement. -/
def idleToken : Token := ⟨.name, Keyword.doNothing.text, ⟨[], 0, 0⟩⟩

theorem derives_idleToken (x : Grade) : x.Derives [idleToken] .doNothing := by
  have hsequenced : Grade.sequenced.Derives [idleToken] .doNothing := .doNothing ⟨rfl, rfl⟩
  cases x with
  | statement => exact .single hsequenced
  | sequenced => exact hsequenced

section
variable {condition value : Descent (Expr Empty)} {block : Descent (Stmt Empty)}

/-- The tokens are an expression in brackets. -/
def IsCondition (ts : List Token) (c : Expr Empty) : Prop :=
  ∃ left us right, ts = left :: us ++ [right] ∧ left.kind = .parenOpen ∧
    Level.expression.Derives us c ∧ right.kind = .parenClose

/-- The tokens are a statement in braces. -/
def IsBlock (ts : List Token) (a : Stmt Empty) : Prop :=
  ∃ left us right, ts = left :: us ++ [right] ∧ left.kind = .braceOpen ∧
    Grade.statement.Derives us a ∧ right.kind = .braceClose

theorem exists_isBlock : ∃ ts a, IsBlock ts a := by
  obtain ⟨left, hleft⟩ := exists_token .braceOpen
  obtain ⟨right, hright⟩ := exists_token .braceClose
  exact ⟨_, _, left, _, right, rfl, hleft, derives_idleToken .statement, hright⟩

theorem exists_isCondition : ∃ ts c, IsCondition ts c := by
  obtain ⟨left, hleft⟩ := exists_token .parenOpen
  obtain ⟨right, hright⟩ := exists_token .parenClose
  exact ⟨_, _, left, _, right, rfl, hleft, derives_zeroToken .expression, hright⟩

theorem accords_loop (hcondition : Accords condition IsCondition) (hblock : Accords block IsBlock) :
    Accords (loopDescent condition block) Grade.sequenced.Derives := by
  obtain ⟨bs, b, hb⟩ := exists_isBlock
  obtain ⟨cs, c, hc⟩ := exists_isCondition
  have hbody := fun c => hblock.map (Stmt.loop c)
  have hrest := hcondition.bind hbody fun c => ⟨bs, _, b, hb, rfl⟩
  refine Accords.mono ((accords_expectKeyword .whileWord).bind (fun _ => hrest) fun _ => ?_) ?_
  · exact ⟨_, _, cs, bs, c, rfl, hc, b, hb, rfl⟩
  · rintro ts a ⟨_, _, _, rfl, ⟨word, rfl, hw⟩, _, _, c, rfl, hc, b, hb, rfl⟩
    obtain ⟨left, us, right, rfl, hl, hus, hr⟩ := hc
    obtain ⟨opening, vs, closing, rfl, ho, hvs, hcl⟩ := hb
    simpa using Grade.Derives.loop hw hl hus hr ho hvs hcl

theorem accords_branch (hcondition : Accords condition IsCondition)
    (hblock : Accords block IsBlock) :
    Accords (branchDescent condition block) Grade.sequenced.Derives := by
  obtain ⟨bs, b, hb⟩ := exists_isBlock
  obtain ⟨cs, c, hc⟩ := exists_isCondition
  have hword : ∃ ts, ∃ t : Token, ts = [t] ∧ t.IsWord .elseWord :=
    ⟨_, ⟨.name, Keyword.elseWord.text, ⟨[], 0, 0⟩⟩, rfl, rfl, rfl⟩
  obtain ⟨ws, hws⟩ := hword
  have hno := fun c yes => hblock.map (Stmt.branch c yes)
  have helse := fun c yes => (accords_expectKeyword .elseWord).bind (fun _ => hno c yes)
    fun _ => ⟨bs, _, b, hb, rfl⟩
  have hyes := fun c => hblock.bind (helse c) fun yes => ⟨_, _, ws, bs, (), rfl, hws, b, hb, rfl⟩
  have hrest := hcondition.bind hyes fun c =>
    ⟨_, _, bs, _, b, rfl, hb, ws, bs, (), rfl, hws, b, hb, rfl⟩
  refine Accords.mono ((accords_expectKeyword .ifWord).bind (fun _ => hrest) fun _ => ?_) ?_
  · exact ⟨_, _, cs, _, c, rfl, hc, bs, _, b, rfl, hb, ws, bs, (), rfl, hws, b, hb, rfl⟩
  · rintro ts a ⟨_, _, _, rfl, ⟨word, rfl, hw⟩, _, _, c, rfl, hc, _, _, yes, rfl, hyes, _, _, _,
      rfl, ⟨otherwise, rfl, he⟩, no, hno, rfl⟩
    obtain ⟨left, us, right, rfl, hl, hus, hr⟩ := hc
    obtain ⟨opening, vs, closing, rfl, ho, hvs, hcl⟩ := hyes
    obtain ⟨opening', vs', closing', rfl, ho', hvs', hcl'⟩ := hno
    simpa using Grade.Derives.branch hw hl hus hr ho hvs hcl he ho' hvs' hcl'

theorem accords_variable :
    Accords (expect judgeVariable) fun ts name =>
      ∃ t : Token, ts = [t] ∧ t.kind = .name ∧ ¬ Reserved t.value ∧ name = t.value := by
  refine accords_expect (fun t v h => ?_) (fun t e h => ?_) ?_
  · unfold judgeVariable at h
    split at h
    · rename_i hk
      split at h
      · cases h
      · rename_i hr
        cases h
        exact ⟨t, rfl, hk, fun hres => hr (isSome_ofText?_iff.mpr hres), rfl⟩
    · cases h
  · unfold judgeVariable at h
    split at h
    · split at h
      · cases h
        exact ⟨_, rfl⟩
      · cases h
    · cases h
      exact ⟨_, rfl⟩
  · have hx : ¬ Reserved "x" := ofText?_eq_none_iff.mp (by decide)
    exact ⟨_, _, ⟨.name, "x", ⟨[], 0, 0⟩⟩, rfl, rfl, hx, rfl⟩

theorem accords_assign (hvalue : Accords value Level.expression.Derives) :
    Accords (assignDescent value) Grade.sequenced.Derives := by
  obtain ⟨sign, hsign⟩ := exists_token .equals
  have hzero := derives_zeroToken .expression
  have hassigned := fun name => hvalue.map (Stmt.assign name)
  have hsigned := fun name => (accords_expectKind .equals).bind (fun _ => hassigned name)
    fun _ => ⟨_, _, _, hzero, rfl⟩
  refine Accords.mono (accords_variable.bind hsigned fun name => ?_) ?_
  · exact ⟨_, _, [sign], _, sign, rfl, ⟨rfl, hsign⟩, _, hzero, rfl⟩
  · rintro ts a ⟨_, _, name, rfl, ⟨t, rfl, hk, hr, rfl⟩, _, us, _, rfl, ⟨rfl, hs⟩, e, he, rfl⟩
    exact .assign hk hr hs he

theorem accords_sequenced (hcondition : Accords condition IsCondition)
    (hblock : Accords block IsBlock) (hvalue : Accords value Level.expression.Derives) :
    Accords (sequencedDescent condition block value) Grade.sequenced.Derives := by
  intro viable post taken held hclosed hadmits hpost
  have hviable := hadmits.viable_taken hclosed ⟨_, _, derives_idleToken .sequenced⟩
  refine ⟨hviable, fun t _ => ?_⟩
  show Safe viable post taken (some t) (if t.kind ≠ .name then _ else _)
  by_cases hk : t.kind = .name
  · rw [if_neg (by simpa using hk)]
    have hassign := accords_assign hvalue viable post taken (some t) hclosed hadmits hpost
    cases hword : Keyword.ofText? t.value with
    | none => exact hassign
    | some word =>
      cases word with
      | whileWord =>
        exact accords_loop hcondition hblock viable post taken (some t) hclosed hadmits hpost
      | ifWord =>
        exact accords_branch hcondition hblock viable post taken (some t) hclosed hadmits hpost
      | doNothing =>
        have hw : t.IsWord .doNothing := ⟨hk, (ofText?_eq_some_iff.mp hword).symm⟩
        exact ⟨t, rfl, hpost [t] _ none (.doNothing hw)⟩
      | elseWord => exact hassign
      | trueWord => exact hassign
      | falseWord => exact hassign
  · rw [if_pos hk]
    exact ⟨taken, t, rfl, hviable, Or.inl ⟨_, rfl⟩⟩

end

/-- The trees of statements are in accord with the grammar. -/
theorem Grade.accords (n : Nat) (x : Grade) : Accords (x.descent n) x.Derives := by
  induction n generalizing x with
  | zero => cases x <;> exact accords_exhausted
  | succ n ih =>
    cases x with
    | statement =>
      exact accords_chain (ih .sequenced) (ih .statement) (fun _ _ h => .single h)
        fun _ _ _ _ _ ha ho hb => .sequence ha ho hb
    | sequenced =>
      have hexpression := Level.accords n .expression
      exact accords_sequenced (accords_enclosed hexpression ⟨_, _, derives_zeroToken .expression⟩)
        (accords_enclosed (ih .statement) ⟨_, _, derives_idleToken .statement⟩) hexpression

theorem Root.accords (n : Nat) (root : Root) : Accords (root.descent n) root.Derives := by
  cases root with
  | statement =>
    refine Accords.mono ((Grade.accords n .statement).map Node.stmt) ?_
    rintro ts _ ⟨a, ha, rfl⟩
    exact .statement ha
  | expression =>
    refine Accords.mono ((Level.accords n .expression).map Node.expr) ?_
    rintro ts _ ⟨e, he, rfl⟩
    exact .expression he

/-! ## Numbers are refused alike -/

section
variable {α : Type} {d d' : Descent α} {k o c : TokenKind} {combine : α → α → α}
  {condition value : Descent (Expr Empty)} {block : Descent (Stmt Empty)}

theorem uniform_ofExcept (x : Except ParseError α) : (Descent.ofExcept x).Uniform := by
  cases x <;> trivial

theorem uniform_expect {judge : Token → Except ParseError α} (w : Wanted)
    (h : ∀ t, t.kind = .number → judge t = .error (.unexpected t w)) : (expect judge).Uniform :=
  ⟨fun t => uniform_ofExcept (judge t), Or.inl ⟨w, fun t ht => congrArg Descent.ofExcept (h t ht)⟩⟩

theorem uniform_expectKind (hk : k ≠ .number) : (expect (judgeKind k)).Uniform :=
  uniform_expect (.kind k) fun _ ht => if_neg fun h => hk (h.symm.trans ht)

theorem uniform_expectKeyword (k : Keyword) : (expect (judgeKeyword k)).Uniform :=
  uniform_expect (.kind .name) fun t ht => if_neg (by rw [ht]; decide)

theorem uniform_variable : (expect judgeVariable).Uniform :=
  uniform_expect (.kind .name) fun t ht => if_neg (by rw [ht]; decide)

theorem uniform_chain (hd : d.Uniform) (hd' : d'.Uniform) (hk : k ≠ .number) :
    (Descent.chain k combine d d').Uniform := by
  refine hd.bind (fun l => ?_) fun l => trivial
  refine ⟨fun t => ?_, Or.inr ⟨.done l, trivial, fun t ht => ?_⟩⟩
  · show (if t.kind = k then _ else _ : Descent α).Uniform
    split
    · exact hd'.bind (fun _ => trivial) fun _ => trivial
    · trivial
  · have hne : ¬ t.kind = k := fun h => hk (h.symm.trans ht)
    exact if_neg hne

theorem uniform_closed (hd : d.Uniform) (hc : c ≠ .number) : (Descent.closed c d).Uniform := by
  refine hd.bind (fun v => ?_) fun v => trivial
  exact (uniform_expectKind hc).bind (fun _ => trivial) fun _ => trivial

theorem uniform_enclosed (hd : d.Uniform) (hon : d.Onward) (ho : o ≠ .number) (hc : c ≠ .number) :
    (Descent.enclosed o c d).Uniform :=
  (uniform_expectKind ho).bind (fun _ => uniform_closed hd hc) fun _ => hon.bind fun _ => trivial

theorem Level.uniform (n : Nat) (x : Level) : (x.descent n).Uniform ∧ (x.descent n).Onward := by
  induction n generalizing x with
  | zero => cases x <;> exact ⟨trivial, trivial⟩
  | succ n ih =>
    have htier : ∀ tier : Tier, (tier.level.descent (n + 1)).Uniform ∧
        (tier.level.descent (n + 1)).Onward := by
      intro tier
      rw [Tier.descent_level]
      refine ⟨uniform_chain (ih _).1 (ih _).1 ?_, (ih _).2.bind fun _ => trivial⟩
      cases tier <;> decide
    cases x with
    | expression => exact htier .less
    | add => exact htier .plus
    | multiply => exact htier .star
    | term =>
      refine ⟨⟨fun t => ?_, Or.inr fun t ht => ?_⟩, trivial⟩
      · show (if t.kind = .parenOpen then _ else _ : Descent (Expr Empty)).Uniform
        split
        · exact uniform_closed (ih .expression).1 (by decide)
        · exact uniform_ofExcept _
      · simp only [atom, ht]
        cases Text.toInt64? t.value with
        | some m => exact Or.inr trivial
        | none => exact Or.inl rfl

theorem uniform_sequenced (hcondition : condition.Uniform) (hcon : condition.Onward)
    (hblock : block.Uniform) (hbon : block.Onward) (hvalue : value.Uniform) (hvon : value.Onward) :
    (sequencedDescent condition block value).Uniform := by
  have hassign : (assignDescent value).Uniform := by
    refine uniform_variable.bind (fun name => ?_) fun name => trivial
    refine (uniform_expectKind (by decide)).bind (fun _ => ?_) fun _ => hvon.bind fun _ => trivial
    exact hvalue.bind (fun _ => trivial) fun _ => trivial
  have hloop : (loopDescent condition block).Uniform := by
    refine (uniform_expectKeyword _).bind (fun _ => ?_)
      fun _ => hcon.bind fun _ => hbon.bind fun _ => trivial
    refine hcondition.bind (fun c => ?_) fun c => hbon.bind fun _ => trivial
    exact hblock.bind (fun _ => trivial) fun _ => trivial
  have hbranch : (branchDescent condition block).Uniform := by
    refine (uniform_expectKeyword _).bind (fun _ => ?_)
      fun _ => hcon.bind fun _ => hbon.bind fun _ => trivial
    refine hcondition.bind (fun c => ?_) fun c => hbon.bind fun _ => trivial
    refine hblock.bind (fun yes => ?_) fun yes => trivial
    refine (uniform_expectKeyword _).bind (fun _ => ?_) fun _ => hbon.bind fun _ => trivial
    exact hblock.bind (fun _ => trivial) fun _ => trivial
  refine ⟨fun t => ?_, Or.inl ⟨.statement, fun t ht => ?_⟩⟩
  · show (if t.kind ≠ .name then _ else _ : Descent (Stmt Empty)).Uniform
    split
    · trivial
    · split
      · exact hloop
      · exact hbranch
      · trivial
      · exact hassign
  · have hname : t.kind ≠ .name := by rw [ht]; decide
    exact if_pos hname

theorem Grade.uniform (n : Nat) (x : Grade) : (x.descent n).Uniform ∧ (x.descent n).Onward := by
  induction n generalizing x with
  | zero => cases x <;> exact ⟨trivial, trivial⟩
  | succ n ih =>
    cases x with
    | statement =>
      exact ⟨uniform_chain (ih .sequenced).1 (ih .statement).1 (by decide),
        (ih .sequenced).2.bind fun _ => trivial⟩
    | sequenced =>
      obtain ⟨hvalue, hvon⟩ := Level.uniform n .expression
      obtain ⟨hbody, hbon⟩ := ih .statement
      refine ⟨uniform_sequenced ?_ trivial ?_ trivial hvalue hvon, trivial⟩
      · exact uniform_enclosed hvalue hvon (by decide) (by decide)
      · exact uniform_enclosed hbody hbon (by decide) (by decide)

theorem uniform_program (n : Nat) (root : Root) : (programDescent n root).Uniform := by
  refine uniform_closed ?_ (by decide)
  cases root with
  | statement => exact (Grade.uniform n .statement).1.bind (fun _ => trivial) fun _ => trivial
  | expression => exact (Level.uniform n .expression).1.bind (fun _ => trivial) fun _ => trivial

end

end Denotation
