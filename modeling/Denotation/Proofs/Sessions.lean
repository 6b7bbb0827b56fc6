import Denotation.Proofs.Compilation
import Denotation.Session.Basic

/-!
# Sessions

What a session does with a line, in terms of the semantics of programs: `Session.Answers` has a rule
for every kind of line. A session that starts with registered targets and an environment of integers
and truth values stays within `Session.Sound`, whatever lines it is given. It answers each of them if
its limit of rounds can be hit.

The session takes every value that is an environment for the next environment, also that of an
expression. That no expression has such a value rests on the values stored so far: they are plain,
and programs compute plain values from plain ones.
-/

namespace Denotation

/-! ## Plain values -/

/-- An integer, a truth value or nothing. -/
def Value.IsPlain : Value → Prop
  | .int _ | .bool _ | .nil => True
  | _ => False

/-- Every variable that has a value has a plain one. -/
def Store.Plain (ρ : Store) : Prop := ∀ x v, ρ x = some v → v.IsPlain

def Bindings.Plain (b : Bindings) : Prop := ∀ p ∈ b, p.2.IsPlain

theorem Store.Plain.update {ρ : Store} (h : ρ.Plain) (name : Text) {v : Value} (hv : v.IsPlain) :
    Store.Plain (Function.update ρ name (some v)) := by
  intro x w hw
  by_cases hx : x = name
  · subst hx
    rw [Function.update_self] at hw
    exact Option.some.inj hw ▸ hv
  · rw [Function.update_of_ne hx] at hw
    exact h x w hw

/-- An operator gives a plain value, whatever it is applied to. -/
theorem plain_of_operands {op : Builtin} {g : Int64 → Int64 → Value}
    (hg : ∀ i j, (g i j).IsPlain) {l r : Except TypeError Value} {u : Value}
    (h : (do let v ← l; let w ← r; let (i, j) ← operands op v w; return g i j) = .ok u) :
    u.IsPlain := by
  cases l with
  | error t => cases h
  | ok v =>
    cases r with
    | error t => cases h
    | ok w =>
      simp only [bind, Except.bind] at h
      cases ho : operands op v w with
      | error t => rw [ho] at h; cases h
      | ok p =>
        rw [ho] at h
        cases h
        exact hg p.1 p.2

theorem Expr.value_plain {ρ : Store} (hρ : ρ.Plain) {e : Expr Empty} {v : Value}
    (h : e.value ρ = .ok v) : v.IsPlain := by
  cases e with
  | «variable» name =>
    cases h
    cases hx : ρ name with
    | none => exact trivial
    | some w => exact hρ name w hx
  | number n => cases h; exact trivial
  | boolean b => cases h; exact trivial
  | add l r => exact plain_of_operands (g := fun i j => .int (i + j)) (fun _ _ => trivial) h
  | multiply l r => exact plain_of_operands (g := fun i j => .int (i * j)) (fun _ _ => trivial) h
  | lessThan l r =>
    exact plain_of_operands (g := fun i j => .bool (i < j)) (fun _ _ => trivial) h
  | gap g => exact g.elim

/-- A statement that ends leaves a plain store plain. -/
theorem Stmt.Ends.plain {s : Stmt Empty} {ρ : Store} {k : Nat} {r : Except TypeError Store}
    (h : s.Ends ρ k r) (hρ : ρ.Plain) : ∀ ρ', r = .ok ρ' → ρ'.Plain := by
  induction h with
  | doNothing | loopStops =>
    intro ρ' hr
    exact Except.ok.inj hr ▸ hρ
  | assign he =>
    intro ρ' hr
    exact Except.ok.inj hr ▸ hρ.update _ (Expr.value_plain hρ he)
  | assignFails | sequenceFails | branchFails | loopBodyFails | loopFails =>
    intro ρ' hr
    cases hr
  | sequence ha hb iha ihb => exact ihb (iha hρ _ rfl)
  | branchTrue hc hv hs ih | branchFalse hc hv hs ih => exact ih hρ
  | loopGoesOn hc hv ha hl iha ihl => exact ihl (iha hρ _ rfl)

namespace Bindings

variable {b : Bindings}

theorem Plain.store (h : b.Plain) : b.store.Plain := fun _ _ hx => h _ (mem_of_find? hx)

theorem Ordered.plain (h : b.Ordered) (hs : b.store.Plain) : b.Plain :=
  fun p hp => hs p.1 p.2 (h.find?_of_mem hp)

end Bindings

/-! ## Programs rendered and evaluated -/

theorem Node.renderAll_names (n : Node Empty) (targets : List Target) :
    (n.mapGaps Empty.elim).renderAll (targets.map Target.name)
      = .ok (targets.map fun t => (t.name, n.render t.dialect)) := by
  induction targets with
  | nil => rfl
  | cons t targets ih =>
    rw [renderAll] at ih ⊢
    rw [List.map_cons, List.mapM_cons, ih, n.renderFor_mapGaps]
    rfl

/-- Under a cap that can be hit every evaluation of a program ends. -/
theorem Node.exists_evaluate (n : Node Empty) (env : Environment) {cap : Int} (hcap : IsLimit cap) :
    ∃ ev, ∀ fuel : Nat, n.depth + cap ≤ fuel →
      evaluate fuel cap false (n.render .clojure) env.bindings = some ev := by
  obtain ⟨limit, rfl⟩ := Int.eq_ofNat_of_zero_le (Int.le_of_lt hcap.1)
  have hx := n.evaluate_cases env limit (n.depth + limit)
  generalize evaluate (n.depth + limit) limit false (n.render .clojure) env.bindings = R at hx
  cases hx with
  | @ends k r h hk =>
    refine ⟨_, fun fuel hf => evaluate_of_yields h hk ?_⟩
    have := hk hcap
    omega
  | limited h _ hk =>
    obtain rfl := Int.ofNat_inj.mp hk
    exact ⟨_, fun fuel hf => evaluate_of_completes h hcap (by omega)⟩
  | exhausted h hk hf =>
    have := hk hcap
    omega

/-! ## Replies -/

namespace Session

/-- What a program is shown with: its tree, if asked for, and its rendering in each target. -/
def shown (s : Session) (targets : List Target) (n : Node Empty) : Text :=
  s.treeText n ++ targets.flatMap fun t => Text.concat [t.name, ": ", n.render t.dialect, "\n"]

/-- The replies that a session may give to a line. -/
inductive Answers (s : Session) (line : Text) : Reply → Prop where
  /-- The environment is emptied. -/
  | reset (hc : line.startsWith ":" = true)
      (hw : line.words.head? = some (Text.ofString ":reset")) :
      Answers s line ⟨[], { s with env := [] }⟩
  /-- Any other command keeps the environment. -/
  | command {r : Reply} (hc : line.startsWith ":" = true)
      (hw : line.words.head? ≠ some (Text.ofString ":reset")) (henv : r.session.env = s.env) :
      Answers s line r
  /-- The line is no program. -/
  | unread {e : ParseError} (hc : line.startsWith ":" = false) (hp : parseAny line = .error e) :
      Answers s line ⟨Text.concat ["parse error: ", e.message, "\n"], s⟩
  /-- An expression is evaluated. -/
  | value {targets : List Target} {e : Expr Empty} {v : Value} (hc : line.startsWith ":" = false)
      (hp : parseAny line = .ok (.expr e)) (ht : s.targets = targets.map Target.name)
      (hv : e.value s.env.store = .ok v) :
      Answers s line ⟨Text.concat [s.shown targets (.expr e), "=> ", v.format, "\n"], s⟩
  /-- A statement runs to its end and leaves its environment. -/
  | change {targets : List Target} {st : Stmt Empty} {k : Nat} {env : Environment}
      (hc : line.startsWith ":" = false) (hp : parseAny line = .ok (.stmt st))
      (ht : s.targets = targets.map Target.name) (hs : st.Ends s.env.store k (.ok env.store))
      (hk : IsLimit s.maxRounds → k ≤ s.maxRounds) :
      Answers s line ⟨Text.concat [s.shown targets (.stmt st), "=> ",
        (Value.map env.bindings).format, "\n"], { s with env := env.bindings }⟩
  /-- A program has a type error. -/
  | failure {targets : List Target} {n : Node Empty} {k : Nat} {t : TypeError}
      (hc : line.startsWith ":" = false) (hp : parseAny line = .ok n)
      (ht : s.targets = targets.map Target.name) (hn : n.Yields s.env.store k (.error t))
      (hk : IsLimit s.maxRounds → k ≤ s.maxRounds) :
      Answers s line ⟨Text.concat [s.shown targets n, "error: ",
        EvaluationError.message ⟨t.cause⟩, "\n"], s⟩
  /-- A program takes too many rounds. -/
  | stopped {targets : List Target} {n : Node Empty} {cap : Nat} (hc : line.startsWith ":" = false)
      (hp : parseAny line = .ok n) (ht : s.targets = targets.map Target.name)
      (hcap : s.maxRounds = cap) (hn : n.Completes s.env.store (cap + 1)) :
      Answers s line ⟨Text.concat [s.shown targets n, "error: ",
        EvaluationError.message ⟨.roundLimit cap⟩, "\n"], s⟩

/-- What holds of a session with that limit of rounds as long as it lasts. -/
structure Sound (s : Session) (cap : Int) : Prop where
  targets : ∃ targets : List Target, s.targets = targets.map Target.name
  ordered : s.env.Ordered
  plain : s.env.Plain
  limit : s.maxRounds = cap

variable {s : Session} {cap : Int}

/-! ## One line -/

section
variable {targets : List Target} (ht : s.targets = targets.map Target.name) {n : Node Empty}
  {fuel : Nat} {cancelled : Bool} {k : Int}

include ht

theorem runProgram_ok {v : Value}
    (h : evaluate fuel s.maxRounds cancelled (n.render .clojure) s.env = some ⟨.ok v, k⟩) :
    s.runProgram fuel cancelled n
      = some ⟨Text.concat [s.shown targets n, "=> ", v.format, "\n"], s.adopt v⟩ := by
  rw [runProgram, ht, n.renderAll_names]
  simp only [h, shown, List.flatMap_map, Option.map_some, reply]

theorem runProgram_error {e : EvaluationError}
    (h : evaluate fuel s.maxRounds cancelled (n.render .clojure) s.env = some ⟨.error e, k⟩) :
    s.runProgram fuel cancelled n
      = some ⟨Text.concat [s.shown targets n, "error: ", e.message, "\n"], s⟩ := by
  rw [runProgram, ht, n.renderAll_names]
  simp only [h, shown, List.flatMap_map, Option.map_some, reply]

theorem runProgram_none
    (h : evaluate fuel s.maxRounds cancelled (n.render .clojure) s.env = none) :
    s.runProgram fuel cancelled n = none := by
  rw [runProgram, ht, n.renderAll_names]
  simp only [h, Option.map_none]

end

theorem adopt_of_plain {v : Value} (hv : v.IsPlain) : s.adopt v = s := by
  cases v <;> first | rfl | exact hv.elim

/-- All that a command can do. -/
theorem command_cases (s : Session) (words : List Text) :
    (words.head? = some (Text.ofString ":reset") ∧ s.command words = ⟨[], { s with env := [] }⟩) ∨
    (words.head? ≠ some (Text.ofString ":reset") ∧ ∃ output,
      s.command words = ⟨output, s⟩ ∨
      (∃ targets : List Target,
        s.command words = ⟨output, { s with targets := targets.map Target.name }⟩) ∨
      s.command words = ⟨output, { s with showTree := !s.showTree }⟩) := by
  cases words with
  | nil => exact Or.inr ⟨nofun, _, Or.inl rfl⟩
  | cons word rest =>
    by_cases hreset : word = Text.ofString ":reset"
    · subst hreset
      exact Or.inl ⟨rfl, rfl⟩
    · refine Or.inr ⟨fun h => hreset (Option.some.inj h), ?_⟩
      simp only [command, beq_iff_eq, hreset, if_false]
      split
      · exact ⟨_, Or.inl rfl⟩
      · split
        · rw [chooseTargets]
          split
          · exact ⟨_, Or.inl rfl⟩
          · split
            · exact ⟨_, Or.inr (Or.inl ⟨_, rfl⟩)⟩
            · exact ⟨_, Or.inl rfl⟩
        · split
          · exact ⟨_, Or.inl rfl⟩
          · split
            · exact ⟨_, Or.inr (Or.inr rfl)⟩
            · exact ⟨_, Or.inl rfl⟩

theorem answers_command (hs : s.Sound cap) {line : Text} (hc : line.startsWith ":" = true) :
    (s.command line.words).session.Sound cap ∧ s.Answers line (s.command line.words) := by
  rcases s.command_cases line.words with ⟨hw, hr⟩ | ⟨hw, output, hr | ⟨targets, hr⟩ | hr⟩
  all_goals rw [hr]
  · have hsound : { s with env := [] }.Sound cap := ⟨hs.targets, .nil, nofun, hs.limit⟩
    exact ⟨hsound, .reset hc hw⟩
  · exact ⟨hs, .command hc hw rfl⟩
  · exact ⟨⟨⟨targets, rfl⟩, hs.ordered, hs.plain, hs.limit⟩, .command hc hw rfl⟩
  · exact ⟨⟨hs.targets, hs.ordered, hs.plain, hs.limit⟩, .command hc hw rfl⟩

section
variable {line : Text} {n : Node Empty} {r : Reply} {fuel : Nat}

/-- What a program is answered with, if it is answered. -/
theorem answers_program (hs : s.Sound cap) (hc : line.startsWith ":" = false)
    (hp : parseAny line = .ok n) (h : s.runProgram fuel false n = some r) :
    r.session.Sound cap ∧ s.Answers line r := by
  obtain ⟨targets, ht⟩ := hs.targets
  have hx := n.evaluate_cases ⟨s.env, hs.ordered⟩ s.maxRounds fuel
  generalize hev : evaluate fuel s.maxRounds false (n.render .clojure) s.env = R at hx
  cases hx with
  | @ends k r hy hk =>
    cases r with
    | error t =>
      obtain rfl := Option.some.inj ((runProgram_error ht hev).symm.trans h)
      exact ⟨hs, .failure hc hp ht hy hk⟩
    | ok v =>
      obtain rfl := Option.some.inj ((runProgram_ok ht hev).symm.trans h)
      generalize hr : Except.ok v = r at hy
      cases hy with
      | @expr e =>
        have hplain : v.IsPlain := Expr.value_plain hs.plain.store hr.symm
        rw [adopt_of_plain hplain]
        exact ⟨hs, .value hc hp ht hr.symm⟩
      | @stmt st _ _ env' hends =>
        obtain rfl := Except.ok.inj hr
        have hplain : env'.bindings.Plain :=
          env'.ordered.plain (hends.plain hs.plain.store _ rfl)
        exact ⟨⟨⟨targets, ht⟩, env'.ordered, hplain, hs.limit⟩, .change hc hp ht hends hk⟩
      | stmtFails hends => cases hr
  | limited hn hcap hk =>
    have hreply := (runProgram_error ht hev).symm.trans h
    rw [hk] at hreply
    obtain rfl := Option.some.inj hreply
    exact ⟨hs, .stopped hc hp ht hk hn⟩
  | exhausted =>
    rw [runProgram_none ht hev] at h
    cases h

/-- What a line is answered with, if it is answered. The session stays sound. -/
theorem answers_of_eval (hs : s.Sound cap) (h : s.eval fuel false line = some r) :
    r.session.Sound cap ∧ s.Answers line r := by
  by_cases hc : line.startsWith ":" = true
  · rw [eval, if_pos hc] at h
    obtain rfl := Option.some.inj h
    exact answers_command hs hc
  · have hc' : line.startsWith ":" = false := Bool.eq_false_iff.mpr hc
    rw [eval, if_neg hc] at h
    cases hp : parseAny line with
    | error e =>
      rw [hp] at h
      obtain rfl := Option.some.inj h
      exact ⟨hs, .unread hc' hp⟩
    | ok n =>
      rw [hp] at h
      exact answers_program hs hc' hp h

/-- Every line is answered if the limit of rounds can be hit. -/
theorem exists_eval (hs : s.Sound cap) (hcap : IsLimit cap) (line : Text) :
    ∃ r bound, ∀ fuel, bound ≤ fuel → s.eval fuel false line = some r := by
  by_cases hc : line.startsWith ":" = true
  · exact ⟨_, 0, fun fuel _ => if_pos hc⟩
  · simp only [eval, if_neg hc]
    cases hp : parseAny line with
    | error e => exact ⟨_, 0, fun fuel _ => rfl⟩
    | ok n =>
      obtain ⟨targets, ht⟩ := hs.targets
      have hlimit : IsLimit s.maxRounds := hs.limit.symm ▸ hcap
      obtain ⟨ev, hev⟩ := n.exists_evaluate ⟨s.env, hs.ordered⟩ hlimit
      obtain ⟨result, k⟩ := ev
      cases result with
      | error e =>
        exact ⟨_, (n.depth + s.maxRounds).toNat,
          fun fuel hf => runProgram_error ht (hev fuel (by omega))⟩
      | ok v =>
        exact ⟨_, (n.depth + s.maxRounds).toNat,
          fun fuel hf => runProgram_ok ht (hev fuel (by omega))⟩

end

/-! ## Render errors -/

/-- A render error is printed right after the tree of the program. -/
def PrintsRenderError (s : Session) (line output : Text) : Prop :=
  line.startsWith ":" = false ∧ ∃ n, parseAny line = .ok n ∧
    s.treeText n ++ Text.ofString "render error: " <+: output

/-- What follows the tree tells a render error from a rendering and from a result: the first two
bytes suffice. -/
theorem not_prefix_shown (targets : List Target) (n : Node Empty) (mark rest : Text)
    (hmark : mark = Text.ofString "=> " ∨ mark = Text.ofString "error: ") :
    ¬ s.treeText n ++ Text.ofString "render error: " <+:
        Text.concat [s.shown targets n, mark, rest, "\n"] := by
  have htake (a b : Text) (hlen : 2 ≤ a.length) (hab : a.take 2 ≠ [0x72, 0x65]) :
      ¬ Text.ofString "render error: " <+: a ++ b := by
    rintro ⟨c, hc⟩
    have h2 := congrArg (List.take 2) hc
    rw [List.take_append_of_le_length hlen] at h2
    exact hab h2.symm
  intro h
  simp only [Text.concat, shown, List.flatten_cons, List.append_assoc,
    List.prefix_append_right_inj] at h
  cases targets with
  | nil =>
    rw [List.flatMap_nil, List.nil_append] at h
    rcases hmark with rfl | rfl <;> exact htake _ _ (by decide) (by decide) h
  | cons t targets =>
    simp only [List.flatMap_cons, List.append_assoc] at h
    cases t <;> exact htake _ _ (by decide) (by decide) h

theorem Answers.not_printsRenderError {line : Text} {r : Reply} (h : s.Answers line r) :
    ¬ s.PrintsRenderError line r.output := by
  rintro ⟨hc, n, hp, hout⟩
  cases h with
  | reset hc' | command hc' =>
    rw [hc] at hc'
    cases hc'
  | unread _ hp' =>
    rw [hp] at hp'
    cases hp'
  | value _ hp' | change _ hp' =>
    obtain rfl := Except.ok.inj (hp.symm.trans hp')
    exact not_prefix_shown _ _ _ _ (Or.inl rfl) hout
  | failure _ hp' | stopped _ hp' =>
    obtain rfl := Except.ok.inj (hp.symm.trans hp')
    exact not_prefix_shown _ _ _ _ (Or.inr rfl) hout

/-! ## Whole sessions -/

/-- The replies to lines that are given one after the other; `none` when the fuel runs out. -/
def evalLines (fuel : Nat) : Session → List Text → Option (List Reply)
  | _, [] => some []
  | s, line :: lines => do
    let r ← s.eval fuel false line
    let replies ← r.session.evalLines fuel lines
    return r :: replies

/-- What holds after a line. -/
structure Keeps (s : Session) (line : Text) (r : Reply) : Prop where
  targets : ∀ name ∈ r.session.targets, ∃ t : Target, name = t.name
  values : ∀ p ∈ r.session.env, p.2.IsPlain
  noRenderError : ¬ s.PrintsRenderError line r.output
  answers : s.Answers line r

/-- What holds after every one of the lines. -/
inductive Log : Session → List Text → List Reply → Prop where
  | done {s : Session} : Log s [] []
  | line {s : Session} {line : Text} {lines : List Text} {r : Reply} {replies : List Reply}
      (h : s.Keeps line r) (hrest : Log r.session lines replies) :
      Log s (line :: lines) (r :: replies)

theorem keeps_of_sound {line : Text} {r : Reply} (hr : r.session.Sound cap)
    (h : s.Answers line r) : s.Keeps line r := by
  refine ⟨fun name hname => ?_, hr.plain, h.not_printsRenderError, h⟩
  obtain ⟨targets, ht⟩ := hr.targets
  rw [ht] at hname
  obtain ⟨t, -, rfl⟩ := List.mem_map.mp hname
  exact ⟨t, rfl⟩

theorem evalLines_cons_eq_some {fuel : Nat} {line : Text} {lines : List Text}
    {replies : List Reply} :
    s.evalLines fuel (line :: lines) = some replies ↔ ∃ r rest, s.eval fuel false line = some r ∧
      r.session.evalLines fuel lines = some rest ∧ r :: rest = replies := by
  simp only [evalLines, Option.bind_eq_bind, Option.bind_eq_some_iff, Option.pure_def,
    Option.some.injEq, exists_and_left]

theorem log_of_evalLines (hs : s.Sound cap) {fuel : Nat} {lines : List Text}
    {replies : List Reply} (h : s.evalLines fuel lines = some replies) : s.Log lines replies := by
  induction lines generalizing s replies with
  | nil =>
    cases h
    exact .done
  | cons line lines ih =>
    obtain ⟨r, rest, heval, hrest, rfl⟩ := evalLines_cons_eq_some.mp h
    obtain ⟨hr, hanswers⟩ := answers_of_eval hs heval
    exact .line (keeps_of_sound hr hanswers) (ih hr hrest)

theorem exists_evalLines (hs : s.Sound cap) (hcap : IsLimit cap) (lines : List Text) :
    ∃ replies bound, ∀ fuel, bound ≤ fuel → s.evalLines fuel lines = some replies := by
  induction lines generalizing s with
  | nil => exact ⟨[], 0, fun _ _ => rfl⟩
  | cons line lines ih =>
    obtain ⟨r, bound, heval⟩ := exists_eval hs hcap line
    obtain ⟨hr, -⟩ := answers_of_eval hs (heval bound (Nat.le_refl _))
    obtain ⟨replies, bound', hrest⟩ := ih hr
    refine ⟨r :: replies, max bound bound', fun fuel hf => evalLines_cons_eq_some.mpr ?_⟩
    exact ⟨r, replies, heval fuel (by omega), hrest fuel (by omega), rfl⟩

/-- A session starts with registered targets and an environment of integers and truth values.
Whatever lines it is given, after each of them its targets are registered and its values plain, and
no render error is printed. Its environment is changed by a statement that runs to its end, into the
environment which that statement leaves, and by `:reset`. If its limit of rounds is positive and not
the largest, then it answers all lines. -/
theorem exists_log_of_start (targets : List Target) (env : Environment) (maxRounds : Int)
    (lines : List Text)
    (henv : ∀ p ∈ env.bindings, (∃ n, p.2 = .int n) ∨ ∃ b, p.2 = .bool b) :
    (∀ fuel replies,
      (start (targets.map Target.name) env.bindings maxRounds).evalLines fuel lines = some replies →
      (start (targets.map Target.name) env.bindings maxRounds).Log lines replies) ∧
    (0 < maxRounds → maxRounds < Int64.maxValue.toInt → ∃ replies bound, ∀ fuel, bound ≤ fuel →
      (start (targets.map Target.name) env.bindings maxRounds).evalLines fuel lines
        = some replies) := by
  have hsound : (start (targets.map Target.name) env.bindings maxRounds).Sound maxRounds := by
    refine ⟨⟨targets, rfl⟩, env.ordered, fun p hp => ?_, rfl⟩
    rcases henv p hp with ⟨n, h⟩ | ⟨b, h⟩ <;> rw [h] <;> exact trivial
  exact ⟨fun fuel replies => log_of_evalLines hsound,
    fun hpos hmax => exists_evalLines hsound ⟨hpos, hmax⟩ lines⟩

theorem exists_log_of_start_counting :
    (∀ p ∈ [(Text.ofString "x", Value.int 3), (Text.ofString "y", Value.bool true)],
      (∃ n, p.2 = .int n) ∨ ∃ b, p.2 = .bool b) ∧
    ∃ replies, (∃ bound, ∀ fuel, bound ≤ fuel →
        (start [Target.ruby.name] [("x", .int 3), ("y", .bool true)] 5).evalLines fuel
          ["x = x + 1", "x", "while (y) { z = y }", ":reset", "x + 1"] = some replies) ∧
      (start [Target.ruby.name] [("x", .int 3), ("y", .bool true)] 5).Log
        ["x = x + 1", "x", "while (y) { z = y }", ":reset", "x + 1"] replies := by
  have henv : ∀ p ∈ [(Text.ofString "x", Value.int 3), (Text.ofString "y", Value.bool true)],
      (∃ n, p.2 = .int n) ∨ ∃ b, p.2 = .bool b := by simp
  have hordered : Bindings.Ordered [("x", .int 3), ("y", .bool true)] :=
    List.pairwise_pair.mpr (by decide)
  obtain ⟨hlog, hends⟩ := exists_log_of_start [.ruby] ⟨_, hordered⟩ 5
    ["x = x + 1", "x", "while (y) { z = y }", ":reset", "x + 1"] henv
  obtain ⟨replies, bound, hreplies⟩ := hends (by decide) (by decide)
  exact ⟨henv, replies, ⟨bound, hreplies⟩, hlog bound replies (hreplies bound (Nat.le_refl _))⟩

end Session

end Denotation
