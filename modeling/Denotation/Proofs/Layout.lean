import Denotation.Proofs.Segmentation
import Denotation.Proofs.Spelling
import Denotation.Proofs.Words

/-!
# White space and comments

White space and comments carry no meaning. A source that is lexed without an error can be written
anew, with the values of its tokens one after the other and a blank between them, and is lexed to the
same words. And sources of the same words are parsed alike, whatever stands between the words.

A blank is enough between any two words. Only names and numbers could run into what follows them,
and neither goes on with a blank.
-/

namespace Denotation

/-- A token of a source is lexed again from its value. -/
theorem Token.Spelled.spells {t : Token} (h : t.Spelled) :
    Spells false t.value (One fun u => u.word = t.word) := by
  obtain ⟨cs, rest, hmunch, hvalue⟩ := h
  have hone : ∀ us, One (fun u => u.kind = t.kind ∧ u.value = t.value) us →
      One (fun u => u.word = t.word) us := by
    rintro us ⟨u, rfl, hkind, hvalue⟩
    exact ⟨u, rfl, Prod.ext hkind hvalue⟩
  refine Spells.mono ?_ hone
  generalize t.kind = k at hmunch
  cases hmunch with
  | name hc hcs _ => exact spells_name ⟨_, _, hvalue, hc, hcs⟩
  | number hc hcs _ => exact spells_numeral ⟨_, _, hvalue, List.forall_mem_cons.mpr ⟨hc, hcs⟩⟩
  | punctuation hc =>
    rw [hvalue]
    exact ⟨_, rfl, fun rest Q _ hrest => hrest.punctuation hc⟩

/-- The values of tokens, with a blank between neighbours. -/
def spaced (ts : List Token) : Text := Text.join " " (ts.map Token.value)

theorem spells_spaced {ts : List Token} (h : ∀ t ∈ ts, t.Spelled) :
    Spells false (spaced ts) fun us => us.map Token.word = ts.map Token.word := by
  induction ts with
  | nil =>
    refine (spells_marks [] rfl).of_safe.mono fun us hus => ?_
    rw [kinds_nil.mp hus]
  | cons t ts ih =>
    obtain ⟨ht, hts⟩ := List.forall_mem_cons.mp h
    cases ts with
    | nil =>
      refine ht.spells.mono ?_
      rintro us ⟨u, rfl, hu⟩
      exact congrArg (fun w => [w]) hu
    | cons t' ts =>
      -- the blank closes whatever the value is
      have hblank := ht.spells.marked [' '] (by simp) rfl
      refine (hblank.append (ih hts) (Or.inl rfl)).mono ?_
      rintro _ ⟨_, vs, rfl, ⟨_, gap, rfl, ⟨u, rfl, hu⟩, hgap⟩, hvs⟩
      obtain rfl : gap = [] := kinds_nil.mp hgap
      rw [List.append_nil, List.map_append, hvs, List.map_cons, List.map_nil, hu]
      rfl

/-- The values of the tokens of a source are lexed to the same words. -/
theorem Scanner.Lexes.lexes_spaced {s : Scanner} {ts : List Token} (h : s.Lexes ts) (file : Text) :
    ∃ us, (Scanner.ofText (spaced ts) file .complete).Lexes us ∧
      us.map Token.word = ts.map Token.word := by
  obtain ⟨vs, hvs, hwords⟩ := (spells_spaced h.spelled).lexes
  have hsame : (Scanner.ofText (spaced ts) [] .complete).Same
      (Scanner.ofText (spaced ts) file .complete) := ⟨rfl, rfl⟩
  obtain ⟨us, hus, hwords'⟩ := hvs.same hsame
  exact ⟨us, hus, hwords'.trans hwords⟩

/-- White space and comments carry no meaning. A source that is lexed without an error is lexed to
the same words from the values of its tokens, with a blank between them. Any source of the same words,
however it is laid out and whatever file it stands in, is the same program under either root, or the
tokens of the two at the same index are refused for the same reason. -/
theorem layout_immaterial (source file : Text) (ts : List Token)
    (h : (Scanner.ofText source file .complete).Lexes ts) :
    (∃ vs, (Scanner.ofText (spaced ts) file .complete).Lexes vs ∧
      vs.map Token.word = ts.map Token.word) ∧
    ∀ source' file' us, (Scanner.ofText source' file' .complete).Lexes us →
      ts.map Token.word = us.map Token.word → ∀ root,
        Scanner.SameUnder root (.ofText source file .complete)
          (.ofText source' file' .complete) := by
  refine ⟨h.lexes_spaced file, ?_⟩
  intro source' file' us h' hwords root
  exact h.sameUnder h' rfl rfl hwords root

/-- The tokens of an assignment, at three places. -/
def assignment (p q r : Location) : List Token :=
  [⟨.name, "x", p⟩, ⟨.equals, "=", q⟩, ⟨.number, "1", r⟩]

theorem words_assignment (p q r p' q' r' : Location) :
    (assignment p q r).map Token.word = (assignment p' q' r').map Token.word := rfl

/-- An assignment in two layouts: a statement in both, and no expression in either for the sign. -/
theorem layout_immaterial_assignment :
    (∃ vs, (Scanner.ofText "x = 1" "a" .complete).Lexes vs ∧
      vs.map Token.word
        = ([(.name, "x"), (.equals, "="), (.number, "1")] : List (TokenKind × Text))) ∧
    ∀ root, Scanner.SameUnder root (.ofText "x=1//y" "a" .complete)
      (.ofText "\tx // y\n = 1" "b" .complete) := by
  have h : (Scanner.ofText "x=1//y" "a" .complete).Lexes
      (assignment ⟨"a", 1, 1⟩ ⟨"a", 1, 2⟩ ⟨"a", 1, 3⟩) :=
    .token rfl (by decide) (.token rfl (by decide) (.token rfl (by decide) (.ending rfl rfl)))
  have h' : (Scanner.ofText "\tx // y\n = 1" "b" .complete).Lexes
      (assignment ⟨"b", 1, 2⟩ ⟨"b", 2, 2⟩ ⟨"b", 2, 4⟩) :=
    .token rfl (by decide) (.token rfl (by decide) (.token rfl (by decide) (.ending rfl rfl)))
  obtain ⟨hspaced, hsame⟩ := layout_immaterial _ _ _ h
  have htext : spaced (assignment ⟨"a", 1, 1⟩ ⟨"a", 1, 2⟩ ⟨"a", 1, 3⟩) = "x = 1" := rfl
  rw [htext] at hspaced
  exact ⟨hspaced, hsame _ _ _ h' (words_assignment ..)⟩

end Denotation
