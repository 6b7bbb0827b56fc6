import Denotation.CommandLine.Basic
import Denotation.Proofs.Characters
import Denotation.Proofs.Gaps

/-!
# Settings that hold up

Settings are checked before they are used, and then read again by whatever uses them: the targets and
the root are resolved a second time, and the environment is turned into one that programs compute
with. `Settings.Valid` says what settings are accepted without a word about how names are looked up.
Settings that are accepted resolve, so nothing that comes after the check can find fault with them.

Flags put other targets and another root in place of those of the settings, and what comes out is
checked like any other settings.
-/

namespace Denotation

/-! ## What names mean -/

/-- A user means the target by its name or its short name, in upper or lower case and with white space
around it. -/
def Target.IsMeant (t : Target) (typed : Text) : Prop :=
  typed.trim.toLower = t.name ∨ typed.trim.toLower = t.shortName

/-- The name stands for the root, in upper or lower case. No name at all stands for the root of
statements. -/
def Root.IsNamed : Root → Text → Prop
  | .statement, name => name = [] ∨ name.toLower = Root.statement.name
  | .expression, name => name.toLower = Root.expression.name

theorem Target.ofShortName?_eq_some_iff {name : Text} {t : Target} :
    Target.ofShortName? name = some t ↔ t.shortName = name := by
  constructor
  · intro h
    exact beq_iff_eq.mp (List.find?_some (p := fun u : Target => u.shortName == name) h)
  · rintro rfl
    cases t <;> rfl

/-- No name is also a short name. -/
theorem Target.ofShortName?_name (t : Target) : Target.ofShortName? t.name = none := by
  cases t <;> rfl

theorem Target.resolve_eq_ok_iff {typed : Text} {t : Target} :
    Target.resolve typed = .ok t ↔ t.IsMeant typed := by
  unfold Target.resolve Target.IsMeant
  dsimp only
  cases hshort : Target.ofShortName? typed.trim.toLower with
  | some u =>
    have hu := Target.ofShortName?_eq_some_iff.mp hshort
    have hname : typed.trim.toLower ≠ t.name := by
      intro h
      rw [h, t.ofShortName?_name] at hshort
      cases hshort
    constructor
    · intro h
      obtain rfl : u = t := Except.ok.inj h
      exact Or.inr hu.symm
    · rintro (h | h)
      · exact absurd h hname
      · rw [Target.ofShortName?_eq_some_iff.mpr h.symm] at hshort
        exact congrArg Except.ok (Option.some.inj hshort).symm
  | none =>
    have hne : typed.trim.toLower ≠ t.shortName := by
      intro h
      rw [Target.ofShortName?_eq_some_iff.mpr h.symm] at hshort
      cases hshort
    constructor
    · intro h
      exact Or.inl (Target.ofName_eq_ok_iff.mp h).symm
    · rintro (h | h)
      · exact Target.ofName_eq_ok_iff.mpr h.symm
      · exact absurd h hne

theorem Text.toLower_eq_nil_iff {t : Text} : t.toLower = [] ↔ t = [] := by
  constructor
  · intro h
    have hchars : t.chars.map Text.lowerChar = [] := Text.ofChars_inj.mp (h.trans rfl)
    have hpieces : t.pieces = [] := List.map_eq_nil_iff.mp (List.map_eq_nil_iff.mp hchars)
    rw [← Text.ofPieces_pieces t, hpieces]
    rfl
  · rintro rfl
    rfl

theorem Settings.resolvedRoot_eq_ok_iff {s : Settings} {root : Root} :
    s.resolvedRoot = .ok root ↔ root.IsNamed s.root := by
  have hnames : Root.expression.name ≠ Root.statement.name ∧ Root.expression.name ≠ [] := by decide
  unfold Settings.resolvedRoot
  simp only [Bool.or_eq_true, List.isEmpty_iff, Text.toLower_eq_nil_iff, beq_iff_eq]
  by_cases hstatement : s.root = [] ∨ s.root.toLower = Root.statement.name
  · rw [if_pos hstatement]
    cases root with
    | statement => exact ⟨fun _ => hstatement, fun _ => rfl⟩
    | expression =>
      refine ⟨nofun, fun h => ?_⟩
      have hname : s.root.toLower = Root.expression.name := h
      rcases hstatement with hnil | hother
      · rw [Text.toLower_eq_nil_iff.mpr hnil] at hname
        exact absurd hname.symm hnames.2
      · exact absurd (hname.symm.trans hother) hnames.1
  · rw [if_neg hstatement]
    by_cases hexpression : s.root.toLower = Root.expression.name
    · rw [if_pos hexpression]
      cases root with
      | statement => exact ⟨nofun, fun h => absurd h hstatement⟩
      | expression => exact ⟨fun _ => hexpression, fun _ => rfl⟩
    · rw [if_neg hexpression]
      cases root with
      | statement => exact ⟨nofun, fun h => absurd h hstatement⟩
      | expression => exact ⟨nofun, fun h => absurd h hexpression⟩

/-! ## What is accepted -/

/-- Settings may give a variable the value: an integer or a truth value. -/
def Value.IsSettable (v : Value) : Prop :=
  (∃ n, v = .word n) ∨ (∃ n, v = .int n) ∨ ∃ b, v = .bool b

/-- What is asked of settings. -/
structure Settings.Valid (s : Settings) : Prop where
  /-- There is a target. -/
  some_target : s.targets ≠ []
  /-- Every target is one. -/
  targets : ∀ typed ∈ s.targets, ∃ t : Target, t.IsMeant typed
  /-- The root is one. -/
  root : ∃ root : Root, root.IsNamed s.root
  /-- The limit of rounds is not negative. -/
  rounds : 0 ≤ s.maxRounds
  /-- Variables have integers and truth values. -/
  env : ∀ b ∈ s.env, b.2.IsSettable
  /-- Interpreters are given for targets. -/
  interpreters : ∀ i ∈ s.interpreters, ∃ t : Target, t.IsMeant i.1

namespace Settings

variable {s : Settings}

theorem isComputable_iff (v : Value) : isComputable v.kind = true ↔ v.IsSettable := by
  unfold Value.IsSettable
  cases v with
  | other k => cases k <;> simp [Value.kind, BareKind.kind, isComputable]
  | _ => simp [Value.kind, isComputable]

/-- Names give no problem if each of them means a target. -/
theorem filterMap_resolve_eq_nil_iff {α β : Type} (name : α → Text)
    (problem : UnsupportedTarget → β) (l : List α) :
    (l.filterMap fun a =>
      match Target.resolve (name a) with
      | .ok _ => none
      | .error e => some (problem e)) = [] ↔
      ∀ a ∈ l, ∃ t : Target, t.IsMeant (name a) := by
  rw [List.filterMap_eq_nil_iff]
  refine forall₂_congr fun a _ => ?_
  constructor
  · intro h
    cases hresolve : Target.resolve (name a) with
    | ok t => exact ⟨t, Target.resolve_eq_ok_iff.mp hresolve⟩
    | error e =>
      rw [hresolve] at h
      cases h
  · rintro ⟨t, ht⟩
    rw [Target.resolve_eq_ok_iff.mpr ht]

theorem targetProblems_eq_nil_iff :
    s.targetProblems = [] ↔ s.targets ≠ [] ∧ ∀ typed ∈ s.targets, ∃ t : Target, t.IsMeant typed := by
  have hnames := filterMap_resolve_eq_nil_iff id SettingsProblem.target s.targets
  unfold targetProblems
  rw [List.append_eq_nil_iff]
  refine and_congr ?_ hnames
  cases s.targets <;> simp

theorem rootProblems_eq_nil_iff : s.rootProblems = [] ↔ ∃ root : Root, root.IsNamed s.root := by
  unfold rootProblems
  constructor
  · intro h
    cases hroot : s.resolvedRoot with
    | ok root => exact ⟨root, resolvedRoot_eq_ok_iff.mp hroot⟩
    | error e =>
      rw [hroot] at h
      cases h
  · rintro ⟨root, hroot⟩
    rw [resolvedRoot_eq_ok_iff.mpr hroot]

theorem runProblems_eq_nil_iff :
    s.runProblems = [] ↔ 0 ≤ s.maxRounds ∧ (∀ b ∈ s.env, b.2.IsSettable) ∧
      ∀ i ∈ s.interpreters, ∃ t : Target, t.IsMeant i.1 := by
  have hnames := filterMap_resolve_eq_nil_iff Prod.fst SettingsProblem.interpreter s.interpreters
  unfold runProblems
  rw [List.append_eq_nil_iff, List.append_eq_nil_iff, and_assoc]
  refine and_congr ?_ (and_congr ?_ hnames)
  · by_cases h : s.maxRounds < 0
    · simp [h]
    · simp [h, Int.not_lt.mp h]
  · simp only [List.filterMap_eq_nil_iff, ← isComputable_iff]
    refine forall₂_congr fun b _ => ?_
    by_cases h : isComputable b.2.kind <;> simp [h]

theorem validate_eq_ok_iff : s.validate = .ok () ↔ s.Valid := by
  have hproblems : s.validate = .ok () ↔ s.problems = [] := by
    unfold validate
    by_cases h : s.problems = [] <;> simp [h]
  rw [hproblems]
  unfold problems
  rw [List.append_eq_nil_iff, List.append_eq_nil_iff, targetProblems_eq_nil_iff,
    rootProblems_eq_nil_iff, runProblems_eq_nil_iff]
  constructor
  · rintro ⟨⟨⟨hsome, htargets⟩, hroot⟩, hrounds, henv, hinterpreters⟩
    exact ⟨hsome, htargets, hroot, hrounds, henv, hinterpreters⟩
  · intro h
    exact ⟨⟨⟨h.some_target, h.targets⟩, h.root⟩, h.rounds, h.env, h.interpreters⟩

end Settings

/-! ## What accepted settings resolve to -/

/-- The second list holds the targets of the first one, each once, in the order in which they first
occur there. -/
structure FirstOccurrences (meant ts : List Target) : Prop where
  /-- Each target is there once. -/
  nodup : ts.Nodup
  /-- No target is lost and none is added. -/
  mem_iff : ∀ t, t ∈ ts ↔ t ∈ meant
  /-- The order is that of the first occurrences. -/
  ordered : ts.Pairwise fun t u => meant.idxOf t < meant.idxOf u

/-- The value that settings give, and the one that programs compute with: an integer of the machine
is one of 64 bits there, other integers and truth values are the same. -/
inductive Value.ComputesAs : Value → Value → Prop where
  | word (n : Int) : ComputesAs (.word n) (.int (Int64.ofInt n))
  | int (n : Int64) : ComputesAs (.int n) (.int n)
  | bool (b : Bool) : ComputesAs (.bool b) (.bool b)

namespace Settings

variable {s : Settings}

theorem mem_distinctFrom {seen ts : List Target} {t : Target} :
    t ∈ distinctFrom seen ts ↔ t ∈ ts ∧ t ∉ seen := by
  induction ts generalizing seen with
  | nil => simp [distinctFrom]
  | cons u ts ih =>
    unfold distinctFrom
    by_cases hu : u ∈ seen
    · rw [if_pos (by simpa using hu), ih, List.mem_cons]
      constructor
      · rintro ⟨ht, hseen⟩
        exact ⟨Or.inr ht, hseen⟩
      · rintro ⟨rfl | ht, hseen⟩
        · exact absurd hu hseen
        · exact ⟨ht, hseen⟩
    · rw [if_neg (by simpa using hu), List.mem_cons, ih, List.mem_cons, List.mem_cons]
      by_cases htu : t = u
      · subst htu
        simp [hu]
      · simp [htu]

theorem pairwise_idxOf_cons {t : Target} {us ts : List Target} (hnot : t ∉ us)
    (h : us.Pairwise fun u v => ts.idxOf u < ts.idxOf v) :
    us.Pairwise fun u v => (t :: ts).idxOf u < (t :: ts).idxOf v := by
  refine h.imp_of_mem fun {u v} hu hv huv => ?_
  have htu : t ≠ u := fun heq => hnot (heq ▸ hu)
  have htv : t ≠ v := fun heq => hnot (heq ▸ hv)
  rw [List.idxOf_cons_ne _ htu, List.idxOf_cons_ne _ htv]
  exact Nat.succ_lt_succ huv

theorem pairwise_distinctFrom (seen ts : List Target) :
    (distinctFrom seen ts).Pairwise fun t u => ts.idxOf t < ts.idxOf u := by
  induction ts generalizing seen with
  | nil => exact List.Pairwise.nil
  | cons t ts ih =>
    unfold distinctFrom
    by_cases ht : t ∈ seen
    · rw [if_pos (by simpa using ht)]
      have hnot : t ∉ distinctFrom seen ts := fun hmem => (mem_distinctFrom.mp hmem).2 ht
      exact pairwise_idxOf_cons hnot (ih seen)
    · rw [if_neg (by simpa using ht)]
      have hnot : t ∉ distinctFrom (t :: seen) ts :=
        fun hmem => (mem_distinctFrom.mp hmem).2 List.mem_cons_self
      refine List.Pairwise.cons (fun u hu => ?_) (pairwise_idxOf_cons hnot (ih (t :: seen)))
      have htu : t ≠ u := fun heq => hnot (heq ▸ hu)
      rw [List.idxOf_cons_self, List.idxOf_cons_ne _ htu]
      exact Nat.succ_pos _

theorem firstOccurrences_distinctFrom (meant : List Target) :
    FirstOccurrences meant (distinctFrom [] meant) := by
  have hordered := pairwise_distinctFrom [] meant
  refine ⟨?_, fun t => by simp [mem_distinctFrom], hordered⟩
  refine hordered.imp fun {t u} hlt heq => ?_
  rw [heq] at hlt
  exact lt_irrefl _ hlt

theorem mapM_resolve_of_meant {names : List Text} {meant : List Target}
    (h : List.Forall₂ (fun typed t => Target.IsMeant t typed) names meant) :
    names.mapM Target.resolve = .ok meant := by
  induction h with
  | nil => rfl
  | cons hmeant _ ih =>
    rw [List.mapM_cons, Target.resolve_eq_ok_iff.mpr hmeant, ih]
    rfl

theorem exists_meant {names : List Text} (h : ∀ typed ∈ names, ∃ t : Target, t.IsMeant typed) :
    ∃ meant : List Target, List.Forall₂ (fun typed t => t.IsMeant typed) names meant := by
  induction names with
  | nil => exact ⟨[], .nil⟩
  | cons typed names ih =>
    obtain ⟨t, ht⟩ := h typed List.mem_cons_self
    obtain ⟨meant, hmeant⟩ := ih fun u hu => h u (List.mem_cons_of_mem _ hu)
    exact ⟨t :: meant, .cons ht hmeant⟩

theorem initialValue_of_settable {v : Value} (h : v.IsSettable) : v.ComputesAs (initialValue v) := by
  rcases h with ⟨n, rfl⟩ | ⟨n, rfl⟩ | ⟨b, rfl⟩
  · exact .word n
  · exact .int n
  · exact .bool b

theorem initialEnv_of_settable (h : ∀ b ∈ s.env, b.2.IsSettable) :
    List.Forall₂ (fun b c => c.1 = b.1 ∧ b.2.ComputesAs c.2) s.env s.initialEnv := by
  unfold initialEnv
  rw [List.forall₂_map_right_iff, List.forall₂_same]
  intro b hb
  exact ⟨rfl, initialValue_of_settable (h b hb)⟩

/-- What settings resolve to: the targets meant without repetition, the root named, and an environment
of the same variables. -/
structure ResolvesTo (s : Settings) (ts : List Target) (root : Root) : Prop where
  /-- There is a target. -/
  some_target : ts ≠ []
  /-- The targets resolve to those that are meant, each where it comes first. -/
  targets : s.resolvedTargets = .ok ts ∧ ∃ meant : List Target,
    List.Forall₂ (fun typed t => t.IsMeant typed) s.targets meant ∧ FirstOccurrences meant ts
  /-- The root resolves to the one that is named. -/
  root : s.resolvedRoot = .ok root ∧ root.IsNamed s.root
  /-- Variables have integers of 64 bits and truth values. -/
  env : List.Forall₂ (fun b c => c.1 = b.1 ∧ b.2.ComputesAs c.2) s.env s.initialEnv

theorem Valid.resolvesTo (h : s.Valid) : ∃ ts root, s.ResolvesTo ts root := by
  obtain ⟨meant, hmeant⟩ := exists_meant h.targets
  obtain ⟨root, hroot⟩ := h.root
  have hfirst := firstOccurrences_distinctFrom meant
  have hresolved : s.resolvedTargets = .ok (distinctFrom [] meant) := by
    unfold resolvedTargets
    rw [mapM_resolve_of_meant hmeant]
    rfl
  refine ⟨distinctFrom [] meant, root, ?_, ⟨hresolved, meant, hmeant, hfirst⟩,
    ⟨resolvedRoot_eq_ok_iff.mpr hroot, hroot⟩, initialEnv_of_settable h.env⟩
  intro hnil
  have hnone : meant = [] := by
    refine List.eq_nil_iff_forall_not_mem.mpr fun t ht => ?_
    have hmem := (hfirst.mem_iff t).mpr ht
    rw [hnil] at hmem
    cases hmem
  rw [hnone, List.forall₂_nil_right_iff] at hmeant
  exact h.some_target hmeant

/-- Nothing is left to go wrong before the prompt opens or the source is read. -/
theorem ResolvesTo.proceed {ts : List Target} {root : Root} (h : s.ResolvesTo ts root)
    (hvalid : s.validate = .ok ()) {m : Type → Type} [Monad m] (host : Host m) (f : Flags) :
    CommandLine.proceed host s f =
      if f.interactive then
        pure (.interactive (Session.start (ts.map Target.name) s.initialEnv s.maxRounds))
      else CommandLine.compile host s f ts root := by
  unfold CommandLine.proceed
  rw [hvalid, h.targets.1, h.root.1]

/-- Settings, with what any flags put in their place, are accepted if and only if they are valid, and
settings that are accepted resolve: a run goes on to the prompt or to the source with the targets and
the root that are meant. -/
theorem validate_ok_resolves (s : Settings) (flags : List Flags) :
    let chosen := flags.foldl Settings.withFlags s
    (chosen.validate = .ok () ↔ chosen.Valid) ∧
      (chosen.validate = .ok () → ∃ ts root, chosen.ResolvesTo ts root ∧
        ∀ (m : Type → Type) [Monad m] (host : Host m) (f : Flags),
          CommandLine.proceed host chosen f =
            if f.interactive then
              pure (.interactive
                (Session.start (ts.map Target.name) chosen.initialEnv chosen.maxRounds))
            else CommandLine.compile host chosen f ts root) := by
  intro chosen
  refine ⟨validate_eq_ok_iff, fun hvalid => ?_⟩
  obtain ⟨ts, root, hresolves⟩ := (validate_eq_ok_iff.mp hvalid).resolvesTo
  exact ⟨ts, root, hresolves, fun m _ host f => hresolves.proceed hvalid host f⟩

/-- Settings of an expression, with a variable of each kind that may be set. -/
def ofExpression : Settings :=
  { defaults with
    root := "Expression"
    env := [("n", .word 3), ("k", .int (-1)), ("b", .bool true)]
    interpreters := [("JS", "node")] }

/-- Flags with a target that is meant twice. -/
def repeatingFlags : Flags := { targets := " Py,js,clojure,python" }

theorem ofExpression_resolves :
    let chosen := [repeatingFlags].foldl Settings.withFlags ofExpression
    chosen.validate = .ok () ∧ ∃ ts root, chosen.ResolvesTo ts root ∧
      ts = [.python, .javascript, .clojure] ∧ root = .expression := by
  intro chosen
  have hvalid : chosen.validate = .ok () := rfl
  obtain ⟨ts, root, hresolves, -⟩ := (validate_ok_resolves ofExpression [repeatingFlags]).2 hvalid
  have htargets : chosen.resolvedTargets = .ok [.python, .javascript, .clojure] := rfl
  have hroot : chosen.resolvedRoot = .ok .expression := rfl
  refine ⟨hvalid, ts, root, hresolves, ?_, ?_⟩
  · exact Except.ok.inj (hresolves.targets.1.symm.trans htargets)
  · exact Except.ok.inj (hresolves.root.1.symm.trans hroot)

end Settings

end Denotation
