import Denotation.Proofs.Compilation
import Denotation.Proofs.Variables

/-!
# Statements see their own variables only

Two runs of one statement, from environments that agree on the names that stand in it, go along with
each other step by step: they take the same branches, start the same rounds and fail in the same way,
or both run out of fuel. Whatever else the environments bind is carried along and comes out as it
went in.

`Alike` is what holds of the two environments all along, and `Lockstep` says of the two runs that they
come to the same and leave such environments. Expressions leave nothing, so two runs of an expression
are simply the same.
-/

namespace Denotation

/-! ## Expressions -/

theorem apply_get (b : Bindings) (name : Text) :
    Builtin.get.apply [.map b, .text name] = .ok ((b.store name).getD .nil) := rfl

/-- A builtin on two operands goes the same way in two environments if the operands do. -/
theorem enter_call_congr (op : Builtin) {l r : Form} {v v' : Value}
    (hl : ∀ n vs vs', enter n l vs v = enter n l vs' v')
    (hr : ∀ n vs vs', enter n r vs v = enter n r vs' v') (n : Nat) (vs vs' : List Value) :
    enter n (.call op (.here l) (.here r)) vs v = enter n (.call op (.here l) (.here r)) vs' v' := by
  rcases n with _ | _ | n
  · rfl
  · rw [enter_one_call, enter_one_call]
  · rw [enter_call, enter_call, evalValue_here, evalValue_here, evalValue_here, evalValue_here,
      hl n (v :: vs) (v' :: vs'), hr n (v :: vs) (v' :: vs')]

/-- The value of an expression depends on the variables that it reads, and neither on others nor on
the environments around. -/
theorem Expr.enter_congr (e : Expr Empty) {c c' : Bindings}
    (h : ∀ x ∈ e.names, c.store x = c'.store x) (n : Nat) (vs vs' : List Value) :
    enter n e.body vs (.map c) = enter n e.body vs' (.map c') := by
  induction e generalizing n vs vs' with
  | «variable» name =>
    rcases n with _ | _ | n
    · rfl
    · rw [body, enter_one_call, enter_one_call]
    · have hname := h name (List.mem_singleton.mpr rfl)
      rw [body, enter_call, enter_call, evalValue_symbol_e, evalValue_symbol_e, evalValue_text,
        evalValue_text]
      simp only [pure_bind, apply_get, hname]
  | number k | boolean k => cases n <;> rfl
  | add l r ihl ihr | multiply l r ihl ihr | lessThan l r ihl ihr =>
    obtain ⟨hl, hr⟩ := List.forall_mem_append.mp h
    exact enter_call_congr _ (ihl hl) (ihr hr) n vs vs'
  | gap g => exact g.elim

/-! ## Two runs -/

section
variable (names assigned : List Text) (b b' : Bindings)

/-- Two environments along two runs that started with `b` and `b'`: they agree on the names, and each
has for a variable that is not assigned what the run started with. -/
structure Alike (c c' : Bindings) : Prop where
  agree : ∀ x ∈ names, c.store x = c'.store x
  left : ∀ x ∉ assigned, c.store x = b.store x
  right : ∀ x ∉ assigned, c'.store x = b'.store x
  ordered : b.Ordered → c.Ordered
  ordered' : b'.Ordered → c'.Ordered

/-- Two runs on one machine come to the same, and what they leave is alike. -/
inductive Lockstep : Result Value → Result Value → Prop where
  | value {c c' : Bindings} {m : Machine} (h : Alike names assigned b b' c c') :
      Lockstep (.ok (.map c) m) (.ok (.map c') m)
  | failure {e : RunError} {m : Machine} : Lockstep (.error e m) (.error e m)
  | exhausted : Lockstep .exhausted .exhausted

end

section
variable {names assigned : List Text} {b b' c c' : Bindings} {x x' : Run Value}
  {f f' : Value → Run Value} {m : Machine}

/-- Binding an assigned variable to one value keeps environments alike. -/
theorem Alike.insert (h : Alike names assigned b b' c c') {name : Text} (hname : name ∈ assigned)
    (v : Value) : Alike names assigned b b' (c.insert name v) (c'.insert name v) where
  agree := by
    intro x hx
    rw [Bindings.store_insert, Bindings.store_insert]
    by_cases hxn : x = name
    · rw [hxn, Function.update_self, Function.update_self]
    · rw [Function.update_of_ne hxn, Function.update_of_ne hxn]
      exact h.agree x hx
  left := by
    intro x hx
    have hxn : x ≠ name := fun hxn => hx (hxn ▸ hname)
    rw [Bindings.store_insert, Function.update_of_ne hxn]
    exact h.left x hx
  right := by
    intro x hx
    have hxn : x ≠ name := fun hxn => hx (hxn ▸ hname)
    rw [Bindings.store_insert, Function.update_of_ne hxn]
    exact h.right x hx
  ordered := fun hb => (h.ordered hb).insert name v
  ordered' := fun hb => (h.ordered' hb).insert name v

/-- An expression of the names has the same runs in environments that are alike. -/
theorem Alike.enter_expr (h : Alike names assigned b b' c c') {e : Expr Empty}
    (he : ∀ x ∈ e.names, x ∈ names) (n : Nat) (vs vs' : List Value) :
    enter n e.body vs (.map c) = enter n e.body vs' (.map c') :=
  e.enter_congr (fun x hx => h.agree x (he x hx)) n vs vs'

/-- Two runs in lockstep go on with the environments that they leave. -/
theorem Lockstep.bind (hx : Lockstep names assigned b b' (x m) (x' m))
    (hf : ∀ c c' m, Alike names assigned b b' c c' →
      Lockstep names assigned b b' (f (.map c) m) (f' (.map c') m)) :
    Lockstep names assigned b b' ((x >>= f) m) ((x' >>= f') m) := by
  simp only [Bind.bind, Run.bind]
  generalize x m = R at hx
  generalize x' m = R' at hx
  cases hx with
  | value h => exact hf _ _ _ h
  | failure => exact .failure
  | exhausted => exact .exhausted

/-- Two runs go on after what is the same run for both. -/
theorem Lockstep.same (x : Run Value) (m : Machine)
    (hf : ∀ v m, Lockstep names assigned b b' (f v m) (f' v m)) :
    Lockstep names assigned b b' ((x >>= f) m) ((x >>= f') m) := by
  simp only [Bind.bind, Run.bind]
  cases x m with
  | ok v m => exact hf v m
  | error e m => exact .failure
  | exhausted => exact .exhausted

/-- Whether a round may start does not depend on what it starts with. -/
theorem Lockstep.nextRound (v v' : Value) {y y' : Run Value}
    (h : ∀ m, Lockstep names assigned b b' (y m) (y' m)) (m : Machine) :
    Lockstep names assigned b b' ((startRound 1 [v] >>= fun _ => y) m)
      ((startRound 1 [v'] >>= fun _ => y') m) := by
  have hstart : startRound 1 [v] m = startRound 1 [v'] m := rfl
  simp only [Bind.bind, Run.bind, hstart]
  cases startRound 1 [v'] m with
  | ok u m => exact h m
  | error e m => exact .failure
  | exhausted => exact .exhausted

/-! ## Statements -/

/-- The rounds of a loop, one after the other, by the rounds that are left. -/
theorem lockstep_loop {e : Expr Empty} {a : Stmt Empty} (he : ∀ x ∈ e.names, x ∈ names)
    (ha : ∀ n vs vs' c c' m, Alike names assigned b b' c c' → Lockstep names assigned b b'
      (enter n a.body vs (.map c) m) (enter n a.body vs' (.map c') m))
    (n : Nat) (vs vs' : List Value) (f : Nat) :
    ∀ c c' m, Alike names assigned b b' c c' → Lockstep names assigned b b'
      (turns n f (Stmt.loop e a).body vs (.map c) m)
      (turns n f (Stmt.loop e a).body vs' (.map c') m) := by
  induction f with
  | zero => exact fun c c' m h => .exhausted
  | succ f ih =>
    intro c c' m h
    rcases n with _ | _ | n
    · exact .exhausted
    · exact .exhausted
    · rw [Stmt.body, turns_loop, turns_loop, h.enter_expr he n (.map c :: vs) (.map c' :: vs')]
      refine .same _ m fun v m => ?_
      by_cases htruthy : v.isTruthy = true
      · rw [if_pos htruthy, if_pos htruthy]
        cases n with
        | zero => exact .exhausted
        | succ n =>
          rw [evalValue_here, evalValue_here]
          refine (ha n _ _ c c' m h).bind fun d d' m hd => ?_
          exact Lockstep.nextRound (.map d) (.map d') (fun m => ih d d' m hd) m
      · rw [if_neg htruthy, if_neg htruthy]
        exact .value h

/-- Two runs of a statement go in lockstep if the environments agree on its names. -/
theorem Stmt.lockstep (s : Stmt Empty) (hnames : ∀ x ∈ s.names, x ∈ names)
    (hassigned : ∀ x ∈ s.assigned, x ∈ assigned) (n : Nat) (vs vs' : List Value) (c c' : Bindings)
    (m : Machine) (h : Alike names assigned b b' c c') :
    Lockstep names assigned b b' (enter n s.body vs (.map c) m)
      (enter n s.body vs' (.map c') m) := by
  induction s generalizing n vs vs' c c' m with
  | doNothing =>
    cases n with
    | zero => exact .exhausted
    | succ n => exact .value h
  | assign name e =>
    obtain ⟨-, he⟩ := List.forall_mem_cons.mp hnames
    rcases n with _ | _ | n
    · exact .exhausted
    · exact .exhausted
    · rw [body, enter_assoc, enter_assoc, evalValue_here, evalValue_here,
        h.enter_expr he n (.map c :: vs) (.map c' :: vs')]
      refine .same _ m fun v m => ?_
      rw [apply_assoc, apply_assoc]
      exact .value (h.insert (hassigned name (List.mem_singleton.mpr rfl)) v)
  | sequence a d iha ihd =>
    obtain ⟨hna, hnd⟩ := List.forall_mem_append.mp hnames
    obtain ⟨haa, had⟩ := List.forall_mem_append.mp hassigned
    rcases n with _ | _ | n
    · exact .exhausted
    · exact .exhausted
    · rw [body, enter_sequence, enter_sequence]
      exact (iha hna haa n _ _ c c' m h).bind fun c c' m h => ihd hnd had (n + 1) _ _ c c' m h
  | branch e a d iha ihd =>
    obtain ⟨hne, hn⟩ := List.forall_mem_append.mp hnames
    obtain ⟨hna, hnd⟩ := List.forall_mem_append.mp hn
    obtain ⟨haa, had⟩ := List.forall_mem_append.mp hassigned
    rcases n with _ | _ | n
    · exact .exhausted
    · exact .exhausted
    · rw [body, enter_choice, enter_choice, h.enter_expr hne n (.map c :: vs) (.map c' :: vs')]
      refine .same _ m fun v m => ?_
      by_cases htruthy : v.isTruthy = true
      · rw [if_pos htruthy, if_pos htruthy]
        exact iha hna haa n _ _ c c' m h
      · rw [if_neg htruthy, if_neg htruthy]
        exact ihd hnd had n _ _ c c' m h
  | loop e a ih =>
    obtain ⟨hne, hna⟩ := List.forall_mem_append.mp hnames
    exact lockstep_loop hne (ih hna hassigned) n vs vs' n c c' m h
  | gap g => exact g.elim

end

/-! ## Evaluations -/

/-- What two evaluations of a statement come to, from environments that agree on its names. -/
inductive Stmt.Parallel (s : Stmt Empty) (env env' : Environment) :
    Option Evaluation → Option Evaluation → Prop where
  /-- Both leave an environment after the same number of rounds. What they leave agrees on the names
  of the statement, and every variable that it does not assign is as it was. -/
  | value {out out' : Environment} {k : Int} (hagree : ∀ x ∈ s.names, out.store x = out'.store x)
      (hkeep : ∀ x ∉ s.assigned, out.store x = env.store x)
      (hkeep' : ∀ x ∉ s.assigned, out'.store x = env'.store x) :
      Parallel s env env' (some ⟨.ok (.map out.bindings), k⟩) (some ⟨.ok (.map out'.bindings), k⟩)
  /-- Both fail with the same error after the same number of rounds. -/
  | failure {e : EvaluationError} {k : Int} :
      Parallel s env env' (some ⟨.error e, k⟩) (some ⟨.error e, k⟩)
  /-- Neither ends with the fuel that there is. -/
  | unended : Parallel s env env' none none

/-- Two evaluations come to the same and leave what is alike. -/
theorem Stmt.parallel_of_agree (s : Stmt Empty) {env env' : Environment}
    (h : ∀ x ∈ s.names, env.store x = env'.store x) (fuel : Nat) (cap : Int) (cancelled : Bool) :
    s.Parallel env env'
      (evaluate fuel cap cancelled ((Node.stmt s).render .clojure) env.bindings)
      (evaluate fuel cap cancelled ((Node.stmt s).render .clojure) env'.bindings) := by
  have halike : Alike s.names s.assigned env.bindings env'.bindings env.bindings env'.bindings :=
    ⟨h, fun _ _ => rfl, fun _ _ => rfl, id, id⟩
  have hrun := s.lockstep (fun _ => id) (fun _ => id) fuel [] [] _ _ ⟨cap, 0, cancelled, #[]⟩ halike
  rw [evaluate_render_on, evaluate_render_on, Node.body]
  generalize enter fuel s.body [] (.map env.bindings) _ = R at hrun ⊢
  generalize enter fuel s.body [] (.map env'.bindings) _ = R' at hrun ⊢
  cases hrun with
  | @value c c' m hc =>
    exact @Parallel.value s env env' ⟨c, hc.ordered env.ordered⟩ ⟨c', hc.ordered' env'.ordered⟩
      m.rounds hc.agree hc.left hc.right
  | failure => exact .failure
  | exhausted => exact .unended

/-- With a cap an evaluation ends, given fuel for as many rounds. -/
theorem Node.evaluate_ne_none (n : Node Empty) (env : Environment) {cap : Int} {fuel : Nat}
    (hcap : IsLimit cap) (hfuel : n.depth + cap ≤ fuel) :
    evaluate fuel cap false (n.render .clojure) env.bindings ≠ none := by
  have hx := n.evaluate_cases env cap fuel
  intro hnone
  rw [hnone] at hx
  cases hx with
  | exhausted h hk hf =>
    have := hk hcap
    omega

/-- A statement sees its own variables only: from environments that agree on the names that stand in
it, its rendering is evaluated to the same outcome with the same error and the same rounds, for every
cap, whether the run is cancelled or not. What the two evaluations leave agrees on those names, and
every variable that the statement never assigns keeps its value, or stays without one. With a cap,
unless it is the largest integer, both evaluations end. -/
theorem Stmt.evaluate_render_parallel (s : Stmt Empty) (env env' : Environment)
    (h : ∀ x ∈ s.names, env.store x = env'.store x) (fuel : Nat) (cap : Int) (cancelled : Bool) :
    s.Parallel env env'
      (evaluate fuel cap cancelled ((Node.stmt s).render .clojure) env.bindings)
      (evaluate fuel cap cancelled ((Node.stmt s).render .clojure) env'.bindings) ∧
    (0 < cap → cap < Int64.maxValue.toInt → s.depth + cap ≤ fuel →
      evaluate fuel cap false ((Node.stmt s).render .clojure) env.bindings ≠ none) := by
  refine ⟨s.parallel_of_agree h fuel cap cancelled, fun hcap hmax hfuel => ?_⟩
  exact (Node.stmt s).evaluate_ne_none env ⟨hcap, hmax⟩ hfuel

/-- A loop that counts to two does not notice a flag, and leaves it. -/
theorem Stmt.evaluate_render_parallel_counting :
    (∀ x ∈ (Stmt.loop (.lessThan (.variable "x") (.number 2))
        (.assign "x" (.add (.variable "x") (.number 1)))).names,
      Bindings.store [("x", .int 1)] x
        = Bindings.store [("flag", .bool true), ("x", .int 1)] x) ∧
    ∃ out : Environment,
      evaluate 20 0 false ((Node.stmt (.loop (.lessThan (.variable "x") (.number 2))
          (.assign "x" (.add (.variable "x") (.number 1))))).render .clojure)
          [("flag", .bool true), ("x", .int 1)]
        = some ⟨.ok (.map out.bindings), 1⟩ ∧
      out.store "x" = some (.int 2) ∧ out.store "flag" = some (.bool true) := by
  let env : Environment := ⟨[("x", .int 1)], List.pairwise_singleton _ _⟩
  let env' : Environment := ⟨[("flag", .bool true), ("x", .int 1)],
    List.pairwise_pair.mpr (by decide)⟩
  have hagree : ∀ x ∈ (Stmt.loop (.lessThan (.variable "x") (.number 2))
      (.assign "x" (.add (.variable "x") (.number 1)))).names, env.store x = env'.store x := by
    intro x hx
    have hx : x = "x" := by simpa [names, Expr.names] using hx
    rw [hx]
    rfl
  refine ⟨hagree, ?_⟩
  have hfirst : evaluate 20 0 false ((Node.stmt (.loop (.lessThan (.variable "x") (.number 2))
      (.assign "x" (.add (.variable "x") (.number 1))))).render .clojure) env.bindings
        = some ⟨.ok (.map [("x", .int 2)]), 1⟩ := by
    rw [evaluate_render_on]
    rfl
  have hparallel := (evaluate_render_parallel _ env env' hagree 20 0 false).1
  rw [hfirst] at hparallel
  generalize hR : some (Evaluation.mk (.ok (.map [("x", .int 2)])) 1) = R at hparallel
  generalize evaluate 20 0 false _ env'.bindings = R' at hparallel ⊢
  cases hparallel with
  | @value out out' k hnames hkeep hkeep' =>
    simp only [Option.some.injEq, Evaluation.mk.injEq, Except.ok.injEq, Value.map.injEq] at hR
    obtain ⟨hout, rfl⟩ := hR
    have hx := hnames "x" (by simp [names, Expr.names])
    rw [Environment.store, ← hout] at hx
    exact ⟨out', rfl, hx.symm, hkeep' "flag" (by decide)⟩
  | failure => cases hR
  | unended => cases hR

end Denotation
