import Denotation.Proofs.Grammar
import Denotation.Proofs.Lexing

/-!
# Places do not matter

A token has a kind and a value, its word, and the place where it stands. Which words a source is
lexed to does not depend on where it is thought to start, and the grammar looks at the words only. So
what stands at one place of a source has the meaning there that it has at every other.
-/

namespace Denotation

/-- What the grammar sees of a token. -/
def Token.word (t : Token) : TokenKind × Text := (t.kind, t.value)

/-! ## Lexing -/

theorem skim_fst_eq (inComment : Bool) (cs : List Char) (p q : Position) :
    (skim inComment cs p).1 = (skim inComment cs q).1 := by
  induction cs generalizing inComment p q with
  | nil => rfl
  | cons c cs ih =>
    simp only [skim]
    split
    · exact ih ..
    · split
      · exact ih ..
      · split
        · exact ih ..
        · split
          · exact ih ..
          · rfl

namespace Scanner

/-- The same characters are still to be read. -/
structure Same (s s' : Scanner) : Prop where
  rest : s.rest = s'.rest
  ending : s.ending = s'.ending

/-- Two steps of scanning that come to the same, but for the places. -/
def Agree (x x' : ScanResult × Scanner) : Prop :=
  x.2.Same x'.2 ∧ ∀ t, x.1 = .ok t → ∃ t', x'.1 = .ok t' ∧ t'.word = t.word

variable {s s' : Scanner}

theorem agree_token (h : s.ending = s'.ending) (k : TokenKind) (p q : Position)
    (cs rest : List Char) : Agree (s.token k p cs rest) (s'.token k q cs rest) := by
  refine ⟨⟨rfl, h⟩, fun t ht => ⟨_, rfl, ?_⟩⟩
  cases ht
  rfl

theorem agree_readAt (h : s.ending = s'.ending) (c : Char) (cs : List Char) (p q : Position) :
    Agree (s.readAt c cs p) (s'.readAt c cs q) := by
  unfold readAt
  split
  · exact agree_token h ..
  · split
    · exact agree_token h ..
    · split
      · exact agree_token h ..
      · exact ⟨⟨rfl, h⟩, fun t ht => by cases ht⟩

theorem Same.next (h : s.Same s') : Agree s.next s'.next := by
  have hskim := skim_fst_eq false s.rest s.position s'.position
  unfold Scanner.next
  rw [← h.rest]
  generalize skim false s.rest s.position = x at hskim
  generalize skim false s.rest s'.position = x' at hskim
  obtain ⟨cs, p⟩ := x
  obtain ⟨cs', q⟩ := x'
  obtain rfl : cs = cs' := hskim
  cases cs with
  | nil =>
    refine ⟨⟨rfl, h.ending⟩, fun t ht => ?_⟩
    unfold atEnd at ht ⊢
    rw [← h.ending]
    cases he : s.ending with
    | complete =>
      rw [he] at ht
      cases ht
      exact ⟨_, rfl, rfl⟩
    | failure reason =>
      rw [he] at ht
      cases ht
  | cons c cs => exact agree_readAt h.ending c cs p q

/-- The words of a source are the same wherever it starts. -/
theorem Lexes.same {ts : List Token} (h : s.Lexes ts) (hsame : s.Same s') :
    ∃ us, s'.Lexes us ∧ us.map Token.word = ts.map Token.word := by
  induction h generalizing s' with
  | ending h hk =>
    obtain ⟨t', ht', hword⟩ := hsame.next.2 _ h
    have hkind := congrArg Prod.fst hword
    exact ⟨[], .ending ht' (hkind.trans hk), rfl⟩
  | token h hk hs ih =>
    obtain ⟨t', ht', hword⟩ := hsame.next.2 _ h
    have hkind : t'.kind = _ := congrArg Prod.fst hword
    obtain ⟨us, hus, hwords⟩ := ih hsame.next.1
    refine ⟨t' :: us, .token ht' (hkind ▸ hk) hus, ?_⟩
    rw [List.map_cons, List.map_cons, hword, hwords]

end Scanner

/-! ## Derivations -/

section
variable {t u : Token} {ts us vs : List Token}

theorem exists_cons_of_words (h : us.map Token.word = (t :: ts).map Token.word) :
    ∃ u us', us = u :: us' ∧ (u.kind = t.kind ∧ u.value = t.value) ∧
      us'.map Token.word = ts.map Token.word := by
  obtain ⟨u, us', rfl, hu, hus⟩ := List.map_eq_cons_iff.mp h
  exact ⟨u, us', rfl, Prod.mk.inj hu, hus⟩

theorem exists_singleton_of_words (h : us.map Token.word = [t].map Token.word) :
    ∃ u, us = [u] ∧ u.kind = t.kind ∧ u.value = t.value := by
  obtain ⟨u, us', rfl, hu, hnil⟩ := exists_cons_of_words h
  obtain rfl := List.map_eq_nil_iff.mp hnil
  exact ⟨u, rfl, hu⟩

theorem exists_append_of_words (h : us.map Token.word = (ts ++ vs).map Token.word) :
    ∃ us₁ us₂, us = us₁ ++ us₂ ∧ us₁.map Token.word = ts.map Token.word ∧
      us₂.map Token.word = vs.map Token.word := by
  rw [List.map_append] at h
  exact List.map_eq_append_iff.mp h

/-- Tokens on both sides of an operator. -/
theorem exists_infix_of_words (h : us.map Token.word = (ts ++ t :: vs).map Token.word) :
    ∃ us₁ u us₂, us = us₁ ++ u :: us₂ ∧ us₁.map Token.word = ts.map Token.word ∧
      u.kind = t.kind ∧ us₂.map Token.word = vs.map Token.word := by
  obtain ⟨us₁, _, rfl, h₁, hrest⟩ := exists_append_of_words h
  obtain ⟨u, us₂, rfl, hu, h₂⟩ := exists_cons_of_words hrest
  exact ⟨us₁, u, us₂, rfl, h₁, hu.1, h₂⟩

theorem Token.IsWord.of_word {k : Keyword} (h : t.IsWord k)
    (hu : u.kind = t.kind ∧ u.value = t.value) : u.IsWord k :=
  ⟨hu.1.trans h.1, hu.2.trans h.2⟩

theorem Level.Derives.of_words {x : Level} {e : Expr Empty} (h : x.Derives ts e)
    (hus : us.map Token.word = ts.map Token.word) : x.Derives us e := by
  induction h generalizing us with
  | lessThan hl ho hr ihl ihr =>
    obtain ⟨us₁, op, us₂, rfl, h₁, hop, h₂⟩ := exists_infix_of_words hus
    exact .lessThan (ihl h₁) (hop.trans ho) (ihr h₂)
  | add hl ho hr ihl ihr =>
    obtain ⟨us₁, op, us₂, rfl, h₁, hop, h₂⟩ := exists_infix_of_words hus
    exact .add (ihl h₁) (hop.trans ho) (ihr h₂)
  | multiply hl ho hr ihl ihr =>
    obtain ⟨us₁, op, us₂, rfl, h₁, hop, h₂⟩ := exists_infix_of_words hus
    exact .multiply (ihl h₁) (hop.trans ho) (ihr h₂)
  | ofAdd h ih => exact .ofAdd (ih hus)
  | ofMultiply h ih => exact .ofMultiply (ih hus)
  | ofTerm h ih => exact .ofTerm (ih hus)
  | brackets hl h hr ih =>
    obtain ⟨_, _, rfl, h₁, h₂⟩ := exists_append_of_words hus
    obtain ⟨left, us₁, rfl, hleft, h₁⟩ := exists_cons_of_words h₁
    obtain ⟨right, rfl, hright⟩ := exists_singleton_of_words h₂
    exact .brackets (hleft.1.trans hl) (ih h₁) (hright.1.trans hr)
  | number hk hn =>
    obtain ⟨u, rfl, hu⟩ := exists_singleton_of_words hus
    exact .number (hu.1.trans hk) (by rw [hu.2]; exact hn)
  | true h =>
    obtain ⟨u, rfl, hu⟩ := exists_singleton_of_words hus
    exact .true (h.of_word hu)
  | false h =>
    obtain ⟨u, rfl, hu⟩ := exists_singleton_of_words hus
    exact .false (h.of_word hu)
  | name hk hr =>
    obtain ⟨u, rfl, hu⟩ := exists_singleton_of_words hus
    rw [← hu.2] at hr ⊢
    exact .name (hu.1.trans hk) hr

theorem Grade.Derives.of_words {x : Grade} {s : Stmt Empty} (h : x.Derives ts s)
    (hus : us.map Token.word = ts.map Token.word) : x.Derives us s := by
  induction h generalizing us with
  | sequence ha ho hb iha ihb =>
    obtain ⟨us₁, op, us₂, rfl, h₁, hop, h₂⟩ := exists_infix_of_words hus
    exact .sequence (iha h₁) (hop.trans ho) (ihb h₂)
  | single h ih => exact .single (ih hus)
  | loop hw hl hc hr ho ha hcl ih =>
    obtain ⟨_, _, rfl, h, h₃⟩ := exists_append_of_words hus
    obtain ⟨_, _, rfl, h₁, h₂⟩ := exists_append_of_words h
    obtain ⟨word, _, rfl, hword, h₁⟩ := exists_cons_of_words h₁
    obtain ⟨left, us₁, rfl, hleft, h₁⟩ := exists_cons_of_words h₁
    obtain ⟨right, _, rfl, hright, h₂⟩ := exists_cons_of_words h₂
    obtain ⟨opening, us₂, rfl, hopening, h₂⟩ := exists_cons_of_words h₂
    obtain ⟨closing, rfl, hclosing⟩ := exists_singleton_of_words h₃
    exact .loop (hw.of_word hword) (hleft.1.trans hl) (hc.of_words h₁) (hright.1.trans hr)
      (hopening.1.trans ho) (ih h₂) (hclosing.1.trans hcl)
  | branch hw hl hc hr ho ha hcl he ho' hb hcl' iha ihb =>
    obtain ⟨_, _, rfl, h, h₄⟩ := exists_append_of_words hus
    obtain ⟨_, _, rfl, h, h₃⟩ := exists_append_of_words h
    obtain ⟨_, _, rfl, h₁, h₂⟩ := exists_append_of_words h
    obtain ⟨word, _, rfl, hword, h₁⟩ := exists_cons_of_words h₁
    obtain ⟨left, us₁, rfl, hleft, h₁⟩ := exists_cons_of_words h₁
    obtain ⟨right, _, rfl, hright, h₂⟩ := exists_cons_of_words h₂
    obtain ⟨opening, us₂, rfl, hopening, h₂⟩ := exists_cons_of_words h₂
    obtain ⟨closing, _, rfl, hclosing, h₃⟩ := exists_cons_of_words h₃
    obtain ⟨otherwise, _, rfl, hotherwise, h₃⟩ := exists_cons_of_words h₃
    obtain ⟨opening', us₃, rfl, hopening', h₃⟩ := exists_cons_of_words h₃
    obtain ⟨closing', rfl, hclosing'⟩ := exists_singleton_of_words h₄
    exact .branch (hw.of_word hword) (hleft.1.trans hl) (hc.of_words h₁) (hright.1.trans hr)
      (hopening.1.trans ho) (iha h₂) (hclosing.1.trans hcl) (he.of_word hotherwise)
      (hopening'.1.trans ho') (ihb h₃) (hclosing'.1.trans hcl')
  | assign hk hr hs he =>
    obtain ⟨name, _, rfl, hname, h⟩ := exists_cons_of_words hus
    obtain ⟨sign, us₁, rfl, hsign, h⟩ := exists_cons_of_words h
    rw [← hname.2] at hr ⊢
    exact .assign (hname.1.trans hk) hr (hsign.1.trans hs) (he.of_words h)
  | doNothing hw =>
    obtain ⟨u, rfl, hu⟩ := exists_singleton_of_words hus
    exact .doNothing (hw.of_word hu)

end

end Denotation
