import Denotation.Proofs.Validation

/-!
# Which interpreter is called

Settings give interpreters by name, and a target has more than one: its short name, any mixture of
cases, and any white space around it. All of them are accepted side by side, and the one that is
looked at last counts. The order is thus no matter exactly as long as all names of a target are given
the same interpreter.
-/

namespace Denotation

namespace Settings

variable {l : List (Text × Text)} {t : Target} {entry : Text × Text}

/-! ## The last name counts -/

theorem commandIn_concat_of_isMeant (h : t.IsMeant entry.1) :
    commandIn (l ++ [entry]) t = entry.2 := by
  obtain ⟨name, command⟩ := entry
  have hresolve : Target.resolve name = .ok t := Target.resolve_eq_ok_iff.mpr h
  simp only [commandIn, List.foldl_append, List.foldl_cons, List.foldl_nil, hresolve, if_pos]

theorem commandIn_concat_of_not_isMeant (h : ¬ t.IsMeant entry.1) :
    commandIn (l ++ [entry]) t = commandIn l t := by
  obtain ⟨name, command⟩ := entry
  simp only [commandIn, List.foldl_append, List.foldl_cons, List.foldl_nil]
  cases hresolve : Target.resolve name with
  | error e => rfl
  | ok u =>
    refine if_neg ?_
    rintro rfl
    exact h (Target.resolve_eq_ok_iff.mp hresolve)

theorem commandIn_of_forall_not_isMeant (h : ∀ a ∈ l, ¬ t.IsMeant a.1) : commandIn l t = [] := by
  induction l using List.reverseRecOn with
  | nil => rfl
  | append_singleton l entry ih =>
    have hlast := h entry (by simp)
    rw [commandIn_concat_of_not_isMeant hlast]
    exact ih fun a ha => h a (List.mem_append_left _ ha)

theorem commandIn_of_forall_eq {command : Text} (h : ∀ a ∈ l, t.IsMeant a.1 → a.2 = command)
    (hsome : ∃ a ∈ l, t.IsMeant a.1) : commandIn l t = command := by
  induction l using List.reverseRecOn with
  | nil =>
    obtain ⟨a, ha, -⟩ := hsome
    cases ha
  | append_singleton l entry ih =>
    by_cases hlast : t.IsMeant entry.1
    · rw [commandIn_concat_of_isMeant hlast]
      exact h entry (by simp) hlast
    · rw [commandIn_concat_of_not_isMeant hlast]
      refine ih (fun a ha => h a (List.mem_append_left _ ha)) ?_
      obtain ⟨a, ha, hmeant⟩ := hsome
      rcases List.mem_append.mp ha with hl | hentry
      · exact ⟨a, hl, hmeant⟩
      · obtain rfl := List.mem_singleton.mp hentry
        exact absurd hmeant hlast

/-! ## Orders -/

/-- All names that mean the target are given one interpreter. -/
def OneCommand (s : Settings) (t : Target) : Prop :=
  ∀ a ∈ s.interpreters, ∀ b ∈ s.interpreters, t.IsMeant a.1 → t.IsMeant b.1 → a.2 = b.2

variable {s : Settings}

theorem OneCommand.commandFor_eq (h : s.OneCommand t) {order : List (Text × Text)}
    (horder : order.Perm s.interpreters) :
    commandFor { s with interpreters := order } t = s.commandFor t := by
  change commandIn order t = commandIn s.interpreters t
  by_cases hsome : ∃ a ∈ s.interpreters, t.IsMeant a.1
  · obtain ⟨a, ha, hmeant⟩ := hsome
    have hall : ∀ b ∈ s.interpreters, t.IsMeant b.1 → b.2 = a.2 := by
      intro b hb hb'
      exact h b hb a ha hb' hmeant
    rw [commandIn_of_forall_eq hall ⟨a, ha, hmeant⟩]
    exact commandIn_of_forall_eq (fun b hb => hall b (horder.mem_iff.mp hb))
      ⟨a, horder.mem_iff.mpr ha, hmeant⟩
  · have hnone : ∀ a ∈ s.interpreters, ¬ t.IsMeant a.1 := by
      intro a ha hmeant
      exact hsome ⟨a, ha, hmeant⟩
    rw [commandIn_of_forall_not_isMeant hnone]
    exact commandIn_of_forall_not_isMeant fun a ha => hnone a (horder.mem_iff.mp ha)

/-- Every entry for the target is the one that counts in some order. -/
theorem exists_order_commandFor {a : Text × Text} (ha : a ∈ s.interpreters) (h : t.IsMeant a.1) :
    ∃ order, order.Perm s.interpreters ∧
      commandFor { s with interpreters := order } t = a.2 := by
  refine ⟨s.interpreters.erase a ++ [a], ?_, commandIn_concat_of_isMeant h⟩
  have hlast : (s.interpreters.erase a ++ [a]).Perm (a :: s.interpreters.erase a) :=
    List.perm_append_comm
  exact hlast.trans (List.perm_cons_erase ha).symm

theorem runProgram_of_commandFor_eq {m : Type → Type} [Monad m] (host : Host m)
    {order : List (Text × Text)}
    (h : commandFor { s with interpreters := order } t = s.commandFor t) (program : Text) :
    CommandLine.runProgram host { s with interpreters := order } t program
      = CommandLine.runProgram host s t program := by
  unfold CommandLine.runProgram
  rw [h]
  rfl

/-- The interpreter that is called for a target is the same in every order of the settings if and only
if all names of the target are given one, and then everything that a run does is the same. -/
theorem commandFor_perm_iff {m : Type → Type} [Monad m] (host : Host m) (s : Settings) (t : Target) :
    ((∀ order : List (Text × Text), order.Perm s.interpreters →
        commandFor { s with interpreters := order } t = s.commandFor t) ↔ s.OneCommand t) ∧
      (s.OneCommand t → ∀ order : List (Text × Text), order.Perm s.interpreters → ∀ program,
        CommandLine.runProgram host { s with interpreters := order } t program
          = CommandLine.runProgram host s t program) := by
  refine ⟨⟨?_, fun h order horder => h.commandFor_eq horder⟩, ?_⟩
  · intro hsame a ha b hb hmeant hmeant'
    obtain ⟨first, hfirst, hcommand⟩ := exists_order_commandFor ha hmeant
    obtain ⟨second, hsecond, hcommand'⟩ := exists_order_commandFor hb hmeant'
    calc a.2 = s.commandFor t := hcommand.symm.trans (hsame first hfirst)
      _ = b.2 := (hsame second hsecond).symm.trans hcommand'
  · intro h order horder program
    exact runProgram_of_commandFor_eq host (h.commandFor_eq horder) program

/-- Both names of a target are accepted with an interpreter each, and then the order decides. -/
theorem commandFor_depends_on_order :
    let given := [(Text.ofString "js", Text.ofString "first"),
      (Text.ofString "javascript", Text.ofString "second")]
    let s := { defaults with interpreters := given }
    s.validate = .ok () ∧ s.commandFor .javascript = Text.ofString "second" ∧
      commandFor { s with interpreters := given.reverse } .javascript = Text.ofString "first" := by
  refine ⟨by rfl, by decide, by decide⟩

end Settings

end Denotation
