import Denotation.Proofs.Formatting
import Denotation.Proofs.Places
import Denotation.Proofs.Sequencing
import Denotation.Proofs.Sessions
import Mathlib.Data.Set.List

/-!
# Programs on several lines

Two lines with a semicolon at the start of the second are one program, whose steps are those of the
first line and then those of the second. A line break ends whatever stands in front of it: a name, a
number, and a comment that would go on otherwise. So the tokens of the first line are those it has on
its own, and the second line only stands at another place.

A session that is given the lines one by one comes to the environment that it comes to with the
program as a whole, as long as its limit of rounds, which each line has for itself, is enough for
all of them.
-/

namespace Denotation

/-! ## Lexing lines -/

/-- Spacing in front of a line break does not go on after it; a comment that the line ends in is
ended by the line break. -/
theorem skim_line (inComment : Bool) (cs tail : List Char) (p : Position) :
    skim inComment (cs ++ '\n' :: tail) p =
      match skim inComment cs p with
      | ([], q) => skim false tail q.newline
      | (c :: rest, q) => (c :: rest ++ '\n' :: tail, q) := by
  fun_induction skim inComment cs p with
  | case1 => rfl
  | case2 inComment c cs p hc ih =>
    rw [List.cons_append, skim, if_pos hc, ih]
  | case3 c cs p hc ih =>
    rw [List.cons_append, skim, if_neg hc, if_pos rfl, ih]
  | case4 inComment c cs p hc hcomment hblank ih =>
    rw [List.cons_append, skim, if_neg hc, if_neg hcomment, if_pos hblank, ih]
  | case5 inComment c cs p hc hcomment hblank hslash ih =>
    have hslash' : (c == '/' && (cs ++ '\n' :: tail).head? == some '/') = true := by
      cases cs with
      | nil => simp at hslash
      | cons d cs => exact hslash
    rw [List.cons_append, skim, if_neg hc, if_neg hcomment, if_neg hblank, if_pos hslash', ih]
  | case6 inComment c cs p hc hcomment hblank hslash =>
    have hslash' : ¬ (c == '/' && (cs ++ '\n' :: tail).head? == some '/') = true := by
      cases cs with
      | nil => simp
      | cons d cs => exact hslash
    rw [List.cons_append, skim, if_neg hc, if_neg hcomment, if_neg hblank, if_neg hslash']
    rfl

/-- A run of characters does not go on after a line break. -/
theorem takeWhile_line {f : Char → Bool} (hf : f '\n' = false) (cs tail : List Char) :
    (cs ++ '\n' :: tail).takeWhile f = cs.takeWhile f ∧
      (cs ++ '\n' :: tail).dropWhile f = cs.dropWhile f ++ '\n' :: tail := by
  induction cs with
  | nil => simp [hf]
  | cons c cs ih =>
    by_cases hc : f c = true
    · simp [hc, ih]
    · simp [hc]

namespace Scanner

/-- The scanner with a line break and more characters to read. -/
def withLine (s : Scanner) (tail : List Char) : Scanner :=
  { s with rest := s.rest ++ '\n' :: tail }

variable {s : Scanner} {t : Token}

/-- A token in front of a line break is read as before the end. -/
theorem readAt_withLine {c : Char} {cs : List Char} {p : Position} (tail : List Char)
    (h : (s.readAt c cs p).1 = .ok t) :
    (s.withLine tail).readAt c (cs ++ '\n' :: tail) p
      = (.ok t, (s.readAt c cs p).2.withLine tail) := by
  have hname := takeWhile_line (f := isNameChar) (by decide) cs tail
  have hdigit := takeWhile_line (f := Text.isDigit) (by decide) cs tail
  unfold readAt at h ⊢
  by_cases hletter : Text.isLetter c = true
  · rw [if_pos hletter] at h
    rw [if_pos hletter, if_pos hletter, hname.1, hname.2, ← h]
    rfl
  rw [if_neg hletter] at h ⊢
  by_cases hnumber : Text.isDigit c = true
  · rw [if_pos hnumber] at h
    rw [if_neg hletter, if_pos hnumber, if_pos hnumber, hdigit.1, hdigit.2, ← h]
    rfl
  rw [if_neg hnumber] at h
  rw [if_neg hletter, if_neg hnumber, if_neg hnumber]
  cases hk : TokenKind.ofPunctuation? c with
  | some k =>
    rw [hk] at h
    simp only [← h]
    rfl
  | none =>
    rw [hk] at h
    cases h

/-- A step on a line that another follows: it reads what it would read without the other, or goes on
to the other. -/
theorem next_withLine (tail : List Char) (h : s.next.1 = .ok t) :
    t.kind = .ending ∧ (∃ p, (s.withLine tail).next = { s with rest := tail, position := p }.next) ∨
    t.kind ≠ .ending ∧ (s.withLine tail).next = (.ok t, s.next.2.withLine tail) := by
  have hskim := skim_line false s.rest tail s.position
  have hunfold : (s.withLine tail).next =
      match skim false (s.rest ++ '\n' :: tail) s.position with
      | ([], p) => (s.atEnd p, { s with rest := [], position := p })
      | (c :: cs, p) => (s.withLine tail).readAt c cs p := rfl
  rw [hskim] at hunfold
  rw [hunfold]
  unfold next at h ⊢
  generalize skim false s.rest s.position = x at h
  obtain ⟨cs, p⟩ := x
  cases cs with
  | nil =>
    refine Or.inl ⟨?_, p.newline, ?_⟩
    · simp only [atEnd] at h
      split at h
      · cases h
        rfl
      · cases h
    · dsimp only
      generalize skim false tail p.newline = y
      obtain ⟨cs, q⟩ := y
      cases cs <;> rfl
  | cons c cs =>
    refine Or.inr ⟨?_, readAt_withLine tail h⟩
    rcases s.readAt_cases c cs p with ⟨k, lexeme, rest, -, hmunch, hread⟩ | ⟨-, -, -, hread⟩
    · simp only [hread] at h
      cases h
      exact hmunch.ne_ending
    · simp only [hread] at h
      cases h

/-- Lexing a line and then what follows it. -/
theorem Lexes.withLine {ts : List Token} {tail : List Char} {Q : List Token → Prop}
    (h : s.Lexes ts) (hfile : s.file = []) (hending : s.ending = .complete)
    (htail : LexesTo tail Q) : ∃ us, (s.withLine tail).Lexes (ts ++ us) ∧ Q us := by
  induction h with
  | @ending s t h hk =>
    rcases next_withLine tail h with ⟨-, p, hnext⟩ | ⟨hne, -⟩
    · obtain ⟨us, hus, hq⟩ := htail p
      refine ⟨us, hus.of_next_eq ?_, hq⟩
      rw [hnext, hfile, hending]
    · exact absurd hk hne
  | @token s t ts h hk hs ih =>
    rcases next_withLine tail h with ⟨heq, -⟩ | ⟨-, hnext⟩
    · exact absurd heq hk
    · obtain ⟨hfile', hending'⟩ := s.source_next
      obtain ⟨us, hus, hq⟩ := ih (hfile'.trans hfile) (hending'.trans hending)
      refine ⟨us, .token (t := t) ?_ hk ?_, hq⟩
      · rw [hnext]
      · rw [hnext]
        exact hus

end Scanner

theorem lexes_lines {l₁ l₂ : Text} {ts us : List Token}
    (h₁ : (Scanner.ofText l₁ [] .complete).Lexes ts)
    (h₂ : (Scanner.ofText l₂ [] .complete).Lexes us) :
    ∃ op us', op.kind = .semicolon ∧ us'.map Token.word = us.map Token.word ∧
      (Scanner.ofText (l₁ ++ "\n;" ++ l₂) [] .complete).Lexes (ts ++ op :: us') := by
  have hsecond : LexesTo l₂.chars fun us' => us'.map Token.word = us.map Token.word :=
    fun p => h₂.same ⟨rfl, rfl⟩
  have hline := hsecond.punctuation (c := ';') (k := .semicolon) rfl
  obtain ⟨vs, hlex, _, us', rfl, ⟨op, rfl, hop, -⟩, hwords⟩ := h₁.withLine rfl rfl hline
  refine ⟨op, us', hop, hwords, ?_⟩
  have hchars : (l₁ ++ Text.ofString "\n;" ++ l₂).chars = l₁.chars ++ '\n' :: ';' :: l₂.chars := by
    have hline := Text.chars_append_ofChar '\n' l₁ (Text.ofChar ';' ++ l₂)
    rw [Text.chars_ofChar_append] at hline
    rw [← hline]
    simp [Text.ofString, Text.ofChars]
  rw [Scanner.ofText, hchars]
  exact hlex

/-! ## Parsing lines -/

/-- The steps of a statement whose sequences are nested to the right. -/
def Stmt.steps : Stmt Empty → List (Stmt Empty)
  | .sequence a b => a :: b.steps
  | s => [s]

theorem Stmt.steps_join (a b : Stmt Empty) : (a.join b).steps = a.steps ++ b.steps := by
  induction a with
  | sequence x y ihx ihy => rw [join, steps, steps, ihy, List.cons_append]
  | gap g => exact g.elim
  | _ => rfl

section
variable {l₁ l₂ : Text} {a b : Stmt Empty}

theorem parse_lines (h₁ : parse .statement l₁ = .ok (.stmt a))
    (h₂ : parse .statement l₂ = .ok (.stmt b)) :
    parse .statement (l₁ ++ "\n;" ++ l₂) = .ok (.stmt (a.join b)) := by
  obtain ⟨ts, hts, ha⟩ := parse_eq_ok_iff.mp h₁
  obtain ⟨us, hus, hb⟩ := parse_eq_ok_iff.mp h₂
  cases ha with
  | statement ha =>
    cases hb with
    | statement hb =>
      obtain ⟨op, us', hop, hwords, hlex⟩ := lexes_lines hts hus
      exact parse_eq_ok_iff.mpr ⟨_, hlex, .statement (derives_join ha hop (hb.of_words hwords))⟩

end

/-- No token starts with the character that starts a command. -/
theorem not_command_of_parse {root : Root} {line : Text} {n : Node Empty}
    (h : parse root line = .ok n) : line.startsWith ":" = false := by
  obtain ⟨ts, hts, -⟩ := parse_eq_ok_iff.mp h
  by_contra hcolon
  obtain ⟨rest, rfl⟩ : ∃ rest, line = Text.ofChar ':' ++ rest := by
    cases line with
    | nil => exact absurd rfl hcolon
    | cons b rest =>
      have hstart : Text.startsWith (b :: rest) ":"
          = (if (0x3A : UInt8) == b then some rest else none).isSome := rfl
      by_cases hb : (0x3A : UInt8) == b
      · obtain rfl := eq_of_beq hb
        exact ⟨rest, rfl⟩
      · rw [hstart, if_neg hb] at hcolon
        exact absurd rfl hcolon
  rw [Scanner.ofText, Text.chars_ofChar_append] at hts
  cases hts with
  | ending hnext hk => cases hnext
  | token hnext hk hs => cases hnext

/-! ## Sessions -/

theorem exists_target_of_renderFor {n : Node Gap} {name text : Text}
    (h : n.renderFor name = .ok text) : ∃ t : Target, t.name = name := by
  cases hname : Target.ofName name with
  | error e =>
    rw [Node.renderFor, hname] at h
    cases h
  | ok t => exact ⟨t, Target.ofName_eq_ok_iff.mp hname⟩

/-- Rendering for names succeeds only if each of them is the name of a target. -/
theorem exists_targets_of_renderAll {n : Node Gap} {names : List Text} {texts : List (Text × Text)}
    (h : n.renderAll names = .ok texts) :
    ∃ targets : List Target, names = targets.map Target.name := by
  obtain ⟨rfl, htexts⟩ := mapM_pairs_eq_ok.mp h
  have hrange : texts.map Prod.fst ∈ Set.range (List.map Target.name) := by
    rw [Set.range_list_map]
    intro name hname
    obtain ⟨p, hp, rfl⟩ := List.mem_map.mp hname
    exact exists_target_of_renderFor (htexts p hp)
  obtain ⟨targets, htargets⟩ := hrange
  exact ⟨targets, htargets.symm⟩

namespace Session

/-- The session takes the line for a program, renders it for every target and evaluates it to a
value in so many rounds, by what the counter tells, and that is its reply. -/
structure Runs (s : Session) (fuel : Nat) (cancelled : Bool) (line : Text) (k : Nat) (r : Reply) :
    Prop where
  value : ∃ n texts v, parseAny line = .ok n ∧
    (n.mapGaps Empty.elim).renderAll s.targets = .ok texts ∧
    evaluate fuel s.maxRounds cancelled (n.render .clojure) s.env = some ⟨.ok v, shownRounds k⟩
  reply : s.eval fuel cancelled line = some r

variable {s : Session} {fuel k : Nat} {cancelled : Bool} {line : Text} {r : Reply} {a : Stmt Empty}

theorem runs_of_evaluate (hp : parse .statement line = .ok (.stmt a)) {targets : List Target}
    (ht : s.targets = targets.map Target.name) {v : Value}
    (h : evaluate fuel s.maxRounds cancelled ((Node.stmt a).render .clojure) s.env
      = some ⟨.ok v, shownRounds k⟩) :
    s.Runs fuel cancelled line k
      ⟨Text.concat [s.shown targets (.stmt a), "=> ", v.format, "\n"], s.adopt v⟩ := by
  have hany := parseAny_eq_ok_iff.mpr ⟨.statement, hp⟩
  refine ⟨⟨_, _, v, hany, ht ▸ (Node.stmt a).renderAll_names targets, h⟩, ?_⟩
  rw [eval, not_command_of_parse hp, hany]
  exact runProgram_ok ht h

/-- A session that has run a statement goes on with the environment that the statement leads to. The
statement takes the rounds that the counter tells, or more by whole turns of the counter. -/
theorem Runs.carries (hp : parse .statement line = .ok (.stmt a))
    (h : s.Runs fuel cancelled line k r) :
    (∃ targets : List Target, s.targets = targets.map Target.name) ∧
      ∃ i b, shownRounds i = shownRounds k ∧ (IsLimit s.maxRounds → i ≤ s.maxRounds) ∧
        a.Carries cancelled s.env i b ∧ r.session = { s with env := b } := by
  obtain ⟨⟨n, texts, v, hany, htexts, hev⟩, hreply⟩ := h
  obtain rfl := Except.ok.inj (hany.symm.trans (parseAny_eq_ok_iff.mpr ⟨.statement, hp⟩))
  obtain ⟨targets, ht⟩ := exists_targets_of_renderAll htexts
  obtain ⟨i, b, rfl, hshown, hi, hcarries⟩ := Stmt.carries_of_evaluate hev
  obtain ⟨-, hruns⟩ := runs_of_evaluate hp ht hev
  obtain rfl := Option.some.inj (hreply.symm.trans hruns)
  exact ⟨⟨targets, ht⟩, i, b, hshown.symm, hi, hcarries, rfl⟩

end Session

/-- It does not matter how a program is split into lines. Two lines that are statements are one
statement with a semicolon between them, with the steps of both, nested to the right. If a session
runs the first and then the second, in no more rounds together than it allows one line, then with
both at once it comes to the same. -/
theorem Session.runs_lines (l₁ l₂ : Text) (a b : Stmt Empty)
    (h₁ : parse .statement l₁ = .ok (.stmt a)) (h₂ : parse .statement l₂ = .ok (.stmt b)) :
    (parse .statement (l₁ ++ "\n;" ++ l₂) = .ok (.stmt (a.join b)) ∧
      (a.join b).steps = a.steps ++ b.steps ∧ (a.join b).RightNested) ∧
    ∀ (s : Session) (cancelled : Bool) (fuel₁ fuel₂ k₁ k₂ : Nat) (r₁ r₂ : Reply),
      s.Runs fuel₁ cancelled l₁ k₁ r₁ → r₁.session.Runs fuel₂ cancelled l₂ k₂ r₂ →
      s.maxRounds ≤ 0 ∨ k₁ + k₂ ≤ s.maxRounds →
      ∃ r bound, (∀ fuel, bound ≤ fuel → s.Runs fuel cancelled (l₁ ++ "\n;" ++ l₂) (k₁ + k₂) r) ∧
        r.session = r₂.session := by
  have hparse := parse_lines h₁ h₂
  refine ⟨⟨hparse, a.steps_join b, (printable_of_parse hparse).2⟩, ?_⟩
  intro s cancelled fuel₁ fuel₂ k₁ k₂ r₁ r₂ hr₁ hr₂ hk
  obtain ⟨⟨targets, ht⟩, i₁, b₁, hshown₁, hi₁, ha, hs₁⟩ := hr₁.carries h₁
  obtain ⟨-, i₂, b₂, hshown₂, hi₂, hb, hs₂⟩ := hr₂.carries h₂
  rw [hs₁] at hb hs₂ hi₂
  -- under a limit that can be hit the counter has told the rounds as they are
  have hcap : IsLimit s.maxRounds → (i₁ + i₂ : Nat) ≤ s.maxRounds := by
    intro hlimit
    have hsum : k₁ + k₂ ≤ s.maxRounds := hk.resolve_left (Int.not_le.mpr hlimit.1)
    have h₁ : i₁ = k₁ := shownRounds_inj hlimit (hi₁ hlimit) (by omega) hshown₁
    have h₂ : i₂ = k₂ := shownRounds_inj hlimit (hi₂ hlimit) (by omega) hshown₂
    omega
  obtain ⟨bound, hbound⟩ := (ha.join hb).evaluate hcap
  rw [shownRounds_add hshown₁ hshown₂] at hbound
  refine ⟨_, bound, fun fuel hfuel => runs_of_evaluate hparse ht (hbound fuel hfuel), ?_⟩
  rw [hs₂]
  rfl

/-- A comment ends with its line, and a loop takes all the rounds that the session allows. -/
theorem Session.runs_lines_counting :
    ∃ fuel₁ fuel₂ r₁ r₂,
      (start [Target.ruby.name] [] 2).Runs fuel₁ false "x = 1 // one" 0 r₁ ∧
      r₁.session.Runs fuel₂ false "while (x < 3) \x7b x = x + 1 \x7d" 2 r₂ ∧
      ∃ r bound, (∀ fuel, bound ≤ fuel → (start [Target.ruby.name] [] 2).Runs fuel false
          ("x = 1 // one" ++ "\n;" ++ Text.ofString "while (x < 3) \x7b x = x + 1 \x7d") 2 r) ∧
        r.session.env = [(Text.ofString "x", Value.int 3)] := by
  have hx : IsVariable "x" := by
    refine ⟨⟨'x', [], rfl, by decide, by simp⟩, ?_⟩
    rintro ⟨k, hk⟩
    cases k <;> exact absurd hk (by decide)
  have h₁ : parse .statement "x = 1 // one" = .ok (.stmt (.assign "x" (.number 1))) := by
    have hone : Level.term.Derives [⟨.number, "1", ⟨[], 1, 5⟩⟩] (.number 1) :=
      .number rfl (by decide)
    have hassign : Grade.sequenced.Derives
        (⟨.name, "x", ⟨[], 1, 1⟩⟩ :: ⟨.equals, "=", ⟨[], 1, 3⟩⟩ :: [⟨.number, "1", ⟨[], 1, 5⟩⟩])
        (.assign "x" (.number 1)) := .assign rfl hx.2 rfl hone.toExpression
    refine parse_eq_ok_iff.mpr ⟨_, ?_, .statement (.single hassign)⟩
    exact .token rfl (by decide) (.token rfl (by decide) (.token rfl (by decide) (.ending rfl rfl)))
  have h₂ : parse .statement "while (x < 3) \x7b x = x + 1 \x7d"
      = .ok (.stmt (.loop (.lessThan (.variable "x") (.number 3))
        (.assign "x" (.add (.variable "x") (.number 1))))) := by
    have hone : (0 : Int64) ≤ 1 := by decide
    have hthree : (0 : Int64) ≤ 3 := by decide
    have hparse := parse_print_stmt (s := .loop (.lessThan (.variable "x") (.number 3))
      (.assign "x" (.add (.variable "x") (.number 1)))) ⟨⟨hx, hthree⟩, hx, hx, hone⟩
    have hprint : Stmt.print (.loop (.lessThan (.variable "x") (.number 3))
        (.assign "x" (.add (.variable "x") (.number 1))) : Stmt Empty)
        = Text.ofString "while (x < 3) \x7b x = x + 1 \x7d" := by decide +kernel
    rwa [hprint] at hparse
  have hfirst : (Stmt.assign "x" (.number 1)).Carries false [] 0 [("x", .int 1)] := .assign rfl
  have hsecond : (Stmt.loop (.lessThan (.variable "x") (.number 3))
      (.assign "x" (.add (.variable "x") (.number 1)))).Carries false [("x", .int 1)] 2
        [("x", .int 3)] :=
    .loopGoesOn rfl rfl (.assign rfl) (.loopGoesOn rfl rfl (.assign rfl) (.loopStops rfl rfl))
  have hzero : IsLimit 2 → ((0 : Nat) : Int) ≤ 2 := fun _ => by decide
  have htwo : IsLimit 2 → ((2 : Nat) : Int) ≤ 2 := fun _ => by decide
  obtain ⟨fuel₁, hev₁⟩ := hfirst.evaluate hzero
  obtain ⟨fuel₂, hev₂⟩ := hsecond.evaluate htwo
  have ht : (start [Target.ruby.name] [] 2).targets = [Target.ruby].map Target.name := rfl
  have hr₁ := runs_of_evaluate h₁ ht (hev₁ fuel₁ (Nat.le_refl _))
  have hr₂ := runs_of_evaluate (s := { start [Target.ruby.name] [] 2 with env := [("x", .int 1)] })
    h₂ ht (hev₂ fuel₂ (Nat.le_refl _))
  obtain ⟨r, bound, hruns, hsession⟩ := (runs_lines _ _ _ _ h₁ h₂).2 _ _ _ _ _ _ _ _ hr₁ hr₂
    (Or.inr (by decide))
  refine ⟨fuel₁, fuel₂, _, _, hr₁, hr₂, r, bound, hruns, ?_⟩
  rw [hsession]
  rfl

end Denotation
