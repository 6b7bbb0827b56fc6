import Denotation.Machine.Basic
import Denotation.Proofs.Writing

/-!
# The grammar of forms

Which sources are one form. A source is first cut into words, with blanks, commas and comments
dropped between them; the words then have to nest as brackets do:

    form = "(" form* ")" | "[" form* "]" | string | atom

`Worded` says the first, `Nests` the second, and neither speaks of offsets, of characters to skip or
of a stack. Reading finds a form if and only if the source is one by this grammar, and it is the
only one.
-/

namespace Denotation

/-! ## Words -/

/-- What may stand between quotes: each backslash goes together with the character after it. -/
inductive Quotable : List Char → Prop where
  | nil : Quotable []
  | plain {c : Char} {cs : List Char} (hq : c ≠ '"') (hb : c ≠ '\\') (h : Quotable cs) :
      Quotable (c :: cs)
  | pair {c : Char} {cs : List Char} (h : Quotable cs) : Quotable ('\\' :: c :: cs)

/-- The form that an atom stands for. -/
inductive AtomOf : List Char → Form → Prop where
  | true : AtomOf "true".toList (.bool true)
  | false : AtomOf "false".toList (.bool false)
  | nil : AtomOf "nil".toList .nil
  | int {cs : List Char} {n : Int64} (h : Text.toInt64? (Text.ofChars cs) = some n) :
      AtomOf cs (.int n)
  | symbol {cs : List Char} (ht : cs ≠ "true".toList) (hf : cs ≠ "false".toList)
      (hn : cs ≠ "nil".toList) (hi : Text.toInt64? (Text.ofChars cs) = none) :
      AtomOf cs (.symbol (Text.ofChars cs))

/-- The characters are these words, with nothing else between them than what is dropped. -/
inductive Worded : List Char → List LexemeKind → Prop where
  | nil : Worded [] []
  | blank {c : Char} {cs : List Char} {ks : List LexemeKind}
      (hc : Text.isBlank c = true ∨ c = ',') (h : Worded cs ks) : Worded (c :: cs) ks
  | comment {cs rest : List Char} {ks : List LexemeKind} (hcs : '\n' ∉ cs)
      (hr : ∀ c ∈ rest.head?, c = '\n') (h : Worded rest ks) : Worded (';' :: cs ++ rest) ks
  | opening (b : Bracket) {cs : List Char} {ks : List LexemeKind} (h : Worded cs ks) :
      Worded (b.openChar :: cs) (.opening b :: ks)
  | closing (b : Bracket) {cs : List Char} {ks : List LexemeKind} (h : Worded cs ks) :
      Worded (b.close :: cs) (.closing b :: ks)
  | string {cs rest : List Char} {t : Text} {ks : List LexemeKind} (hcs : Quotable cs)
      (ht : Text.unquote? cs = some t) (h : Worded rest ks) :
      Worded ('"' :: cs ++ '"' :: rest) (.atom (.text t) :: ks)
  | atom {c : Char} {cs rest : List Char} {f : Form} {ks : List LexemeKind}
      (hc : isAtomStart c = true) (hcs : ∀ d ∈ cs, isAtomChar d = true) (hr : Separated rest)
      (hf : AtomOf (c :: cs) f) (h : Worded rest ks) : Worded (c :: cs ++ rest) (.atom f :: ks)

/-- The words are the forms one after another. -/
inductive Nests : List LexemeKind → List Form → Prop where
  | nil : Nests [] []
  | atom {f : Form} {ks : List LexemeKind} {fs : List Form} (h : Nests ks fs) :
      Nests (.atom f :: ks) (f :: fs)
  | bracket (b : Bracket) {js ks : List LexemeKind} {items fs : List Form} (hitems : Nests js items)
      (h : Nests ks fs) : Nests (.opening b :: js ++ .closing b :: ks) (b.form items :: fs)

/-- The characters are one form of the grammar. -/
def IsForm (cs : List Char) (f : Form) : Prop := ∃ ks, Worded cs ks ∧ Nests ks [f]

/-! ## Cutting a source into words -/

theorem Quotable.stringLength? {cs : List Char} (h : Quotable cs) (rest : List Char) :
    stringLength? (cs ++ '"' :: rest) = some cs.length := by
  induction h with
  | nil => cases rest <;> rfl
  | @plain c cs hq hb h ih =>
    have hc : ∀ d ∈ [c], d ≠ '"' ∧ d ≠ '\\' := by simp [hq, hb]
    have hplain := Text.stringLength?_plain hc (cs ++ '"' :: rest) (by simp)
    rw [ih] at hplain
    exact hplain
  | pair h ih =>
    rw [List.cons_append, List.cons_append, Denotation.stringLength?, ih]
    rfl

theorem exists_quotable {cs : List Char} {n : Nat} (h : stringLength? cs = some n) :
    ∃ qs rest, cs = qs ++ '"' :: rest ∧ Quotable qs ∧ qs.length = n := by
  fun_induction stringLength? cs generalizing n with
  | case1 => cases h
  | case2 c hc =>
    obtain rfl := eq_of_beq hc
    exact ⟨[], [], rfl, .nil, Option.some.inj h⟩
  | case3 => cases h
  | case4 c d rest hc =>
    obtain rfl := eq_of_beq hc
    exact ⟨[], d :: rest, rfl, .nil, Option.some.inj h⟩
  | case5 c d rest hq hb ih =>
    obtain rfl := eq_of_beq hb
    obtain ⟨m, hm, rfl⟩ := Option.map_eq_some_iff.mp h
    obtain ⟨qs, after, rfl, hqs, rfl⟩ := ih hm
    exact ⟨'\\' :: d :: qs, after, rfl, .pair hqs, rfl⟩
  | case6 c d rest hq hb ih =>
    obtain ⟨m, hm, rfl⟩ := Option.map_eq_some_iff.mp h
    obtain ⟨qs, after, hrest, hqs, rfl⟩ := ih hm
    rw [hrest]
    exact ⟨c :: qs, after, rfl, .plain (by simpa using hq) (by simpa using hb) hqs, rfl⟩

theorem ofChars_beq_ofString {cs : List Char} {w : String} :
    (Text.ofChars cs == Text.ofString w) = true ↔ cs = w.toList := by
  rw [beq_iff_eq]
  exact Text.ofChars_inj

theorem atomOf_iff {cs : List Char} {f : Form} : AtomOf cs f ↔ atomForm cs = f := by
  constructor
  · intro h
    cases h with
    | true | false | nil => rfl
    | int h =>
      -- the words that are atoms of their own are no integers
      have hword : ∀ w : String, Text.toInt64? (Text.ofString w) = none →
          (Text.ofChars cs == Text.ofString w) = false := by
        intro w hw
        rw [beq_eq_false_iff_ne]
        intro he
        rw [he, hw] at h
        cases h
      simp only [atomForm, hword "true" (by decide), hword "false" (by decide),
        hword "nil" (by decide), h, Bool.false_eq_true, if_false]
    | symbol ht hf hn hi =>
      simp only [atomForm, ofChars_beq_ofString, ht, hf, hn, hi, if_false]
  · rintro rfl
    simp only [atomForm, ofChars_beq_ofString]
    by_cases ht : cs = "true".toList
    · rw [if_pos ht, ht]
      exact .true
    by_cases hf : cs = "false".toList
    · rw [if_neg ht, if_pos hf, hf]
      exact .false
    by_cases hn : cs = "nil".toList
    · rw [if_neg ht, if_neg hf, if_pos hn, hn]
      exact .nil
    rw [if_neg ht, if_neg hf, if_neg hn]
    cases hi : Text.toInt64? (Text.ofChars cs) with
    | none => exact .symbol ht hf hn hi
    | some n => exact .int hi

theorem Worded.kinds {cs : List Char} {ks : List LexemeKind} (h : Worded cs ks) (offset : Nat) :
    (lexemesFrom 0 offset cs).map Lexeme.kind = ks := by
  induction h generalizing offset with
  | nil => rfl
  | blank hc h ih =>
    rw [lexemesFrom, if_pos (by simpa using hc), ih]
  | @comment cs rest ks hcs hr h ih =>
    have hplain : ∀ c ∈ cs, (c != '\n') = true :=
      fun c hc => bne_iff_ne.mpr (ne_of_mem_of_not_mem hc hcs)
    have hbreak : ∀ c ∈ rest.head?, (c != '\n') = false :=
      fun c hc => bne_eq_false_iff_eq.mpr (hr c hc)
    have hline := (takeWhile_of_run hplain hbreak).1
    rw [List.cons_append, lexemesFrom, if_neg (by decide), if_pos (by decide), hline,
      lexemesFrom_length_append, ih]
  | opening b h ih => rw [lexemesFrom_opening, List.map_cons, ih]
  | closing b h ih => rw [lexemesFrom_closing, List.map_cons, ih]
  | string hcs ht h ih =>
    rw [lexemesFrom_quoted (hcs.stringLength? _) ht, List.map_cons, ih]
  | atom hc hcs hr hf h ih =>
    rw [lexemesFrom_atom hc hcs hr, atomOf_iff.mp hf, List.map_cons, ih]

/-- The blanks among the characters that end an atom are blanks between words, too. -/
theorem isAtomStart_of_not_mem {c : Char} (hblank : Text.isBlank c = false)
    (hother : c ∉ "()[]\";,".toList) : isAtomStart c = true := by
  have hne : ∀ d, Text.isBlank d = true → c ≠ d := by
    rintro d hd rfl
    rw [hblank] at hd
    cases hd
  simp only [String.reduceToList, List.mem_cons, not_or] at hother
  simp [isAtomStart, isAtomChar, hblank, hother, hne ' ' (by decide), hne '\t' (by decide),
    hne '\r' (by decide), hne '\n' (by decide)]

/-- A source that is cut without a fault is made of the words that it is cut into. -/
theorem worded_of_lexemes (skip offset : Nat) (cs : List Char)
    (h : ∀ e, .fault e ∉ (lexemesFrom skip offset cs).map Lexeme.kind) :
    Worded (cs.drop skip) ((lexemesFrom skip offset cs).map Lexeme.kind) := by
  fun_induction lexemesFrom skip offset cs with
  | case1 =>
    rw [List.drop_nil]
    exact .nil
  | case2 skip offset c rest ih => exact ih h
  | case3 offset c rest next hc ih => exact .blank (by simpa using hc) (ih h)
  | case4 offset c rest next hblank hc ih =>
    obtain rfl := eq_of_beq hc
    obtain ⟨line, after, rfl, htake, -, hline, hafter⟩ := exists_run (· != '\n') rest
    have hwords := ih h
    rw [htake] at hwords ⊢
    rw [List.drop_left] at hwords
    refine .comment (fun hmem => ?_) (fun d hd => ?_) hwords
    · exact absurd (hline _ hmem) (by decide)
    · simpa using hafter d hd
  | case5 offset c rest next hblank hcomment hc ih =>
    obtain rfl := eq_of_beq hc
    exact .opening .round (ih fun e he => h e (List.mem_cons_of_mem _ he))
  | case6 offset c rest next hblank hcomment hround hc ih =>
    obtain rfl := eq_of_beq hc
    exact .opening .square (ih fun e he => h e (List.mem_cons_of_mem _ he))
  | case7 offset c rest next hblank hcomment hround hsquare hc ih =>
    obtain rfl := eq_of_beq hc
    exact .closing .round (ih fun e he => h e (List.mem_cons_of_mem _ he))
  | case8 offset c rest next hblank hcomment hround hsquare hround' hc ih =>
    obtain rfl := eq_of_beq hc
    exact .closing .square (ih fun e he => h e (List.mem_cons_of_mem _ he))
  | case9 | case10 => exact absurd List.mem_cons_self (h _)
  | case11 offset c rest next _ _ _ _ _ _ hc n hlen t ht ih =>
    obtain rfl := eq_of_beq hc
    obtain ⟨qs, after, rfl, hqs, rfl⟩ := exists_quotable hlen
    have hwords := ih fun e he => h e (List.mem_cons_of_mem _ he)
    rw [List.take_left] at ht
    have hdrop : (qs ++ '"' :: after).drop (qs.length + 1) = after := by
      rw [← List.drop_drop, List.drop_left]
      rfl
    rw [hdrop] at hwords
    exact .string hqs ht hwords
  | case12 offset c rest next hblank hcomment hround hsquare hround' hsquare' hquote more ih =>
    obtain ⟨run, after, rfl, htake, -, hrun, hafter⟩ := exists_run isAtomChar rest
    have hwords := ih fun e he => h e (List.mem_cons_of_mem _ he)
    have hmore : more = run := htake
    rw [hmore] at hwords ⊢
    rw [List.drop_left] at hwords
    simp only [Bool.or_eq_true, beq_iff_eq, not_or, Bool.not_eq_true] at *
    have hother : c ∉ "()[]\";,".toList := by simp [*]
    have hstart : isAtomStart c = true := isAtomStart_of_not_mem hblank.1 hother
    exact .atom hstart hrun hafter (atomOf_iff.mpr rfl) hwords

/-! ## Nesting the words -/

theorem assemble_opening (b : Bracket) (offset : Nat) (rest : List Lexeme)
    (stack : List OpenBracket) :
    assemble (⟨.opening b, offset⟩ :: rest) stack = assemble rest (⟨b, []⟩ :: stack) := by
  rw [assemble]

theorem assemble_atom (f : Form) (offset : Nat) (rest : List Lexeme) (stack : List OpenBracket) :
    assemble (⟨.atom f, offset⟩ :: rest) stack = handOver f rest stack := by
  rw [assemble]
  rfl

theorem assemble_closing (b : Bracket) (items : List Form) (offset : Nat) (rest : List Lexeme)
    (outer : List OpenBracket) :
    assemble (⟨.closing b, offset⟩ :: rest) (⟨b, items⟩ :: outer)
      = handOver (b.form items.reverse) rest outer := by
  rw [assemble]
  exact if_pos rfl

/-- The words of forms, inside a bracket, add the forms to it. -/
theorem Nests.assemble {ks : List LexemeKind} {fs : List Form} (h : Nests ks fs)
    {ls : List Lexeme} (hls : ls.map Lexeme.kind = ks) (rest : List Lexeme) (b : OpenBracket)
    (outer : List OpenBracket) :
    assemble (ls ++ rest) (b :: outer)
      = assemble rest ({ b with items := fs.reverse ++ b.items } :: outer) := by
  induction h generalizing ls rest b outer with
  | nil =>
    obtain rfl := List.map_eq_nil_iff.mp hls
    rfl
  | atom h ih =>
    obtain ⟨⟨_, offset⟩, us, rfl, rfl, hus⟩ := List.map_eq_cons_iff.mp hls
    rw [List.cons_append, assemble_atom]
    refine (ih hus rest _ outer).trans ?_
    rw [List.reverse_cons, List.append_assoc]
    rfl
  | bracket kind hitems h ihitems ih =>
    obtain ⟨_, _, rfl, hopening, hclosing⟩ := List.map_eq_append_iff.mp hls
    obtain ⟨⟨_, offset⟩, us, rfl, rfl, hus⟩ := List.map_eq_cons_iff.mp hopening
    obtain ⟨⟨_, offset'⟩, vs, rfl, rfl, hvs⟩ := List.map_eq_cons_iff.mp hclosing
    rw [List.append_assoc, List.cons_append, assemble_opening, ihitems hus, List.cons_append,
      assemble_closing]
    refine (ih hvs rest _ outer).trans ?_
    simp only [List.append_nil, List.reverse_reverse, List.reverse_cons, List.append_assoc]
    rfl

theorem wholeForm_eq_ok {f g : Form} {ls : List Lexeme} (h : wholeForm f ls = .ok g) :
    ls = [] ∧ f = g := by
  cases ls with
  | nil => exact ⟨rfl, Except.ok.inj h⟩
  | cons l ls => cases h

/-- An open bracket is closed by the words of forms and its closing bracket, and what is left is
assembled without it. -/
theorem exists_nests_of_assemble {ls : List Lexeme} {b : OpenBracket} {outer : List OpenBracket}
    {g : Form} (h : assemble ls (b :: outer) = .ok g) :
    ∃ us offset vs fs, ls = us ++ ⟨.closing b.bracket, offset⟩ :: vs ∧
      Nests (us.map Lexeme.kind) fs ∧
      handOver (b.bracket.form (b.items.reverse ++ fs)) vs outer = .ok g := by
  -- what follows an inner bracket is shorter than the rest of the words, but no tail of it
  induction hn : ls.length using Nat.strongRecOn generalizing ls b outer with
  | ind n ih =>
    subst hn
    match ls with
    | [] => cases h
    | ⟨.fault e, offset⟩ :: rest => cases h
    | ⟨.atom f, offset⟩ :: rest =>
      rw [assemble_atom] at h
      obtain ⟨us, offset', vs, fs, rfl, hus, hover⟩ := ih rest.length (by simp) h rfl
      rw [List.reverse_cons, List.append_assoc] at hover
      exact ⟨⟨.atom f, offset⟩ :: us, offset', vs, f :: fs, rfl, .atom hus, hover⟩
    | ⟨.closing c, offset⟩ :: rest =>
      obtain ⟨kind, items⟩ := b
      by_cases hc : kind = c
      · subst hc
        rw [assemble_closing] at h
        refine ⟨[], offset, rest, [], rfl, .nil, ?_⟩
        rw [List.append_nil]
        exact h
      · rw [assemble] at h
        simp only [if_neg hc] at h
        cases h
    | ⟨.opening c, offset⟩ :: rest =>
      rw [assemble_opening] at h
      obtain ⟨us, offset', vs, items, rfl, hus, hover⟩ := ih rest.length (by simp) h rfl
      obtain ⟨us', offset'', vs', fs, rfl, hus', hover'⟩ := ih vs.length (by simp; omega) hover rfl
      refine ⟨⟨.opening c, offset⟩ :: us ++ ⟨.closing c, offset'⟩ :: us', offset'', vs',
        c.form items :: fs, by simp, ?_, ?_⟩
      · rw [List.map_append, List.map_cons, List.map_cons]
        exact .bracket c hus hus'
      · rw [List.reverse_cons, List.append_assoc] at hover'
        exact hover'

/-! ## Reading -/

theorem Nests.no_fault {ks : List LexemeKind} {fs : List Form} (h : Nests ks fs) (e : ReadError) :
    .fault e ∉ ks := by
  induction h with
  | nil => exact List.not_mem_nil
  | atom h ih => simpa using ih
  | bracket b hitems h ihitems ih => simp [ihitems, ih]

/-- The lexemes that are assembled into a form, with no bracket open, are its words. -/
theorem nests_iff_assemble {ls : List Lexeme} {f : Form} :
    Nests (ls.map Lexeme.kind) [f] ↔ assemble ls [] = .ok f := by
  constructor
  · intro h
    generalize hks : ls.map Lexeme.kind = ks at h
    cases h with
    | atom h =>
      cases h
      obtain ⟨⟨_, offset⟩, us, rfl, rfl, hus⟩ := List.map_eq_cons_iff.mp hks
      obtain rfl := List.map_eq_nil_iff.mp hus
      rw [assemble_atom]
      rfl
    | bracket b hitems h =>
      cases h
      obtain ⟨_, _, rfl, hopening, hclosing⟩ := List.map_eq_append_iff.mp hks
      obtain ⟨⟨_, offset⟩, us, rfl, rfl, hus⟩ := List.map_eq_cons_iff.mp hopening
      obtain ⟨⟨_, offset'⟩, vs, rfl, rfl, hvs⟩ := List.map_eq_cons_iff.mp hclosing
      obtain rfl := List.map_eq_nil_iff.mp hvs
      rw [List.cons_append, assemble_opening, hitems.assemble hus, assemble_closing,
        List.append_nil, List.reverse_reverse]
      rfl
  · intro h
    match ls with
    | [] => cases h
    | ⟨.fault e, offset⟩ :: rest => cases h
    | ⟨.closing c, offset⟩ :: rest => cases h
    | ⟨.atom g, offset⟩ :: rest =>
      rw [assemble_atom] at h
      obtain ⟨rfl, rfl⟩ := wholeForm_eq_ok h
      exact .atom .nil
    | ⟨.opening c, offset⟩ :: rest =>
      rw [assemble_opening] at h
      obtain ⟨us, offset', vs, fs, rfl, hus, hover⟩ := exists_nests_of_assemble h
      obtain ⟨rfl, rfl⟩ := wholeForm_eq_ok hover
      rw [List.map_cons, List.map_append]
      exact .bracket c hus .nil

theorem Form.read_eq_ok_iff {source : Text} {f : Form} :
    Form.read source = .ok f ↔ IsForm source.chars f := by
  rw [Form.read, ← nests_iff_assemble]
  constructor
  · intro h
    exact ⟨_, worded_of_lexemes 0 0 source.chars h.no_fault, h⟩
  · rintro ⟨ks, hwords, h⟩
    rwa [lexemes, hwords.kinds]

/-- Reading accepts the grammar and nothing else: it finds a form if and only if the source is one,
no source is two forms, and a source that is none is a syntax error, with which every run of it
fails. -/
theorem Form.read_grammar (source : Text) :
    (∀ f, Form.read source = .ok f ↔ IsForm source.chars f) ∧
      (∀ f g, IsForm source.chars f → IsForm source.chars g → f = g) ∧
      ((¬ ∃ f, IsForm source.chars f) ↔ ∃ e, Form.read source = .error e ∧
        Text.ofString "syntax error: " <+: (RunError.unreadable e).message ∧
        ∀ fuel cancelled args m,
          Machine.run fuel cancelled source args m = some (.error (.unreadable e), m)) := by
  refine ⟨fun f => Form.read_eq_ok_iff, fun f g hf hg => ?_, ?_⟩
  · rw [← Form.read_eq_ok_iff] at hf hg
    exact Except.ok.inj (hf.symm.trans hg)
  simp only [← Form.read_eq_ok_iff]
  constructor
  · intro hnone
    cases hread : Form.read source with
    | ok f => exact absurd ⟨f, hread⟩ hnone
    | error e =>
      refine ⟨e, rfl, List.prefix_append _ _, fun fuel cancelled args m => ?_⟩
      rw [Machine.run, hread]
  · rintro ⟨e, hread, -⟩ ⟨f, hf⟩
    rw [hread] at hf
    cases hf

/-- A comment hides a bracket, and so does a string, where a backslash hides the quote. -/
example : Form.read "(a ;)\n\"\\\")\",[] -7)"
    = .ok (.list [.symbol "a", .text "\")", .vector [], .int (-7)]) := by
  rfl

end Denotation
