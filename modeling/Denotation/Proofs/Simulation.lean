import Denotation.Proofs.Requests

/-!
# Runs side by side

Evaluation is put together from few steps: it looks up and changes the frames that the machine
keeps, it starts rounds, it does one thing after another, and it may run out of fuel. A relation
between computations that these steps respect therefore holds between every evaluation and the same
evaluation with more fuel. `Simulation` says what has to be checked of such a relation, and
`Simulation.form` is what follows.
-/

namespace Denotation

/-- A computation that only reads and writes the frames that the machine keeps. -/
def Run.onFrames {α : Type} (g : Array Bindings → Except RunError α × Array Bindings) : Run α :=
  fun m => Run.ofExcept (g m.frames).1 { m with frames := (g m.frames).2 }

/-- A relation between computations that the steps of the machine respect. A computation that runs
out of fuel is related to every other. -/
structure Simulation (R : {α : Type} → Run α → Run α → Prop) : Prop where
  exhausted {α : Type} (y : Run α) : R Run.exhausted y
  onFrames {α : Type} (g : Array Bindings → Except RunError α × Array Bindings) :
    R (Run.onFrames g) (Run.onFrames g)
  startRound (arity : Nat) (args : List Value) : R (startRound arity args) (startRound arity args)
  bind {α β : Type} {x y : Run α} {f g : α → Run β} (hx : R x y) (hf : ∀ a, R (f a) (g a)) :
    R (x >>= f) (y >>= g)

theorem Machine.lookup_eq_of_frames {m m' : Machine} (h : m.frames = m'.frames) (scope : Scope)
    (name : Text) : m.lookup scope name = m'.lookup scope name := by
  induction scope with
  | nil => rfl
  | cons frame outer ih =>
    cases frame with
    | own bindings => simp only [lookup, ih]
    | shared number => simp only [lookup, ih, h]

/-- The value of a symbol depends on the frames of the machine alone. -/
theorem evalStep_symbol_eq_onFrames (ev : Evaluate) (fuel : Nat) (name : Text) (scope : Scope) :
    evalStep ev fuel (.symbol name) scope = Run.onFrames fun frames =>
      (((Machine.mk 0 0 false frames).lookup scope name).elim (.error (.unbound name))
        fun v => .ok (.value v), frames) := by
  funext m
  have hframes : (Machine.mk 0 0 false m.frames).frames = m.frames := rfl
  have hlookup := Machine.lookup_eq_of_frames hframes scope name
  simp only [evalStep, Run.onFrames, hlookup]
  cases m.lookup scope name <;> rfl

namespace Simulation

variable {R : {α : Type} → Run α → Run α → Prop}

theorem related_ite {α : Type} {c : Prop} [Decidable c] {x x' y y' : Run α} (hc : c → R x y)
    (hn : ¬ c → R x' y') : R (if c then x else x') (if c then y else y') := by
  by_cases h : c
  · rw [if_pos h, if_pos h]
    exact hc h
  · rw [if_neg h, if_neg h]
    exact hn h

variable (hR : Simulation R)

include hR

theorem ofExcept {α : Type} (x : Except RunError α) : R (Run.ofExcept x) (Run.ofExcept x) :=
  hR.onFrames fun frames => (x, frames)

theorem pure {α : Type} (a : α) : R (pure a) (pure a) := hR.ofExcept (.ok a)

theorem fail {α : Type} (e : RunError) : R (Run.fail e : Run α) (Run.fail e) :=
  hR.ofExcept (.error e)

theorem makeFrame : R newFrame newFrame :=
  hR.onFrames fun frames => (.ok frames.size, frames.push [])

theorem growFrame (number : Nat) (name : Text) (v : Value) :
    R (extendFrame number name v) (extendFrame number name v) :=
  hR.onFrames fun frames => (.ok (), frames.modify number fun b => (name, v) :: b)

theorem goOn (arity : Nat) {again again' : List Value → Run Value}
    (h : ∀ args, R (again args) (again' args)) (o : Outcome) :
    R (o.goOn arity again) (o.goOn arity again') := by
  cases o with
  | value v => exact hR.pure v
  | recur pending => exact hR.bind (hR.startRound arity pending) fun _ => h pending

variable {ev ev' : Evaluate} (hev : ∀ f scope, R (ev f scope) (ev' f scope)) {fuel fuel' : Nat}
  (hfuel : fuel ≤ fuel')

include hev

theorem value (f : Form) (scope : Scope) : R (evalValue ev f scope) (evalValue ev' f scope) := by
  refine hR.bind (hev f scope) fun o => ?_
  cases o with
  | value v => exact hR.pure v
  | recur pending => exact hR.fail .misplacedRecur

theorem args (scope : Scope) (forms : List Form) :
    R (evalArgs ev scope forms) (evalArgs ev' scope forms) := by
  induction forms with
  | nil => exact hR.pure []
  | cons f rest ih =>
    refine hR.bind (hR.value hev f scope) fun v => ?_
    exact hR.bind ih fun values => hR.pure (v :: values)

theorem body (scope : Scope) (forms : List Form) :
    R (evalBody ev scope forms) (evalBody ev' scope forms) := by
  fun_induction evalBody ev scope forms with
  | case1 => exact hR.pure _
  | case2 f => exact hev f scope
  | case3 f rest hrest ih =>
    rw [evalBody]
    · exact hR.bind (hR.value hev f scope) fun _ => ih
    · exact hrest

theorem initialOwn (scope : Scope) (bound : Bindings) (forms : List Form) :
    R (bindOwn ev scope bound forms) (bindOwn ev' scope bound forms) := by
  fun_induction bindOwn ev scope bound forms with
  | case1 bound name init rest ih => exact hR.bind (hR.value hev init _) fun v => ih v
  | case2 bound f init rest hf =>
    rw [bindOwn]
    · exact hR.fail _
    · exact hf
  | case3 forms bound hsymbol hpair =>
    rw [bindOwn]
    · exact hR.pure bound
    · exact hsymbol
    · exact hpair

theorem initialShared (scope : Scope) (number : Nat) (forms : List Form) :
    R (bindShared ev scope number forms) (bindShared ev' scope number forms) := by
  fun_induction bindShared ev scope number forms with
  | case1 name init rest ih =>
    refine hR.bind (hR.value hev init _) fun v => ?_
    exact hR.bind (hR.growFrame number name v) fun _ => ih
  | case2 f init rest hf =>
    rw [bindShared]
    · exact hR.fail _
    · exact hf
  | case3 forms hsymbol hpair =>
    rw [bindShared]
    · exact hR.pure ()
    · exact hsymbol
    · exact hpair

theorem initials (bindings : List Form) (scope : Scope) :
    R (bindLoop ev bindings scope) (bindLoop ev' bindings scope) := by
  refine related_ite (fun _ => ?_) fun _ => ?_
  · refine hR.bind hR.makeFrame fun number => ?_
    exact hR.bind (hR.initialShared hev scope number bindings) fun _ => hR.pure _
  · exact hR.bind (hR.initialOwn hev scope [] bindings) fun bound => hR.pure _

theorem branch (rest : List Form) (scope : Scope) :
    R (evalBranch ev rest scope) (evalBranch ev' rest scope) := by
  fun_cases evalBranch ev rest scope with
  | case1 test yes =>
    refine hR.bind (hR.value hev test scope) fun v => ?_
    exact related_ite (fun _ => hev yes scope) fun _ => hR.pure _
  | case2 test yes no =>
    refine hR.bind (hR.value hev test scope) fun v => ?_
    exact related_ite (fun _ => hev yes scope) fun _ => hev no scope
  | case3 rest htwo hthree =>
    rw [evalBranch]
    · exact hR.fail _
    · exact htwo
    · exact hthree

include hfuel

/-- With more fuel a closure has as many rounds left, or more. -/
theorem called (name : Option Text) (params : List Text) (body : List Form) (scope : Scope)
    (args : List Value) :
    R (callRounds ev name params body scope fuel args)
      (callRounds ev' name params body scope fuel' args) := by
  induction fuel generalizing fuel' args with
  | zero => exact hR.exhausted _
  | succ fuel ih =>
    obtain ⟨more, rfl⟩ : ∃ more, fuel' = more + 1 := ⟨fuel' - 1, by omega⟩
    rw [callRounds_succ, callRounds_succ]
    refine related_ite (fun _ => hR.fail _) fun _ => ?_
    refine hR.bind (hR.body hev _ body) fun o => ?_
    exact hR.goOn params.length (fun pending => ih (Nat.le_of_succ_le_succ hfuel) pending) o

theorem looped (names : List Text) (body : List Form) (scope : Scope) (inner : Frame) :
    R (loopRounds ev names body scope fuel inner) (loopRounds ev' names body scope fuel' inner) := by
  induction fuel generalizing fuel' inner with
  | zero => exact hR.exhausted _
  | succ fuel ih =>
    obtain ⟨more, rfl⟩ : ∃ more, fuel' = more + 1 := ⟨fuel' - 1, by omega⟩
    rw [loopRounds_succ, loopRounds_succ]
    refine hR.bind (hR.body hev _ body) fun o => ?_
    exact hR.goOn names.length (fun pending => ih (Nat.le_of_succ_le_succ hfuel) _) o

theorem apply (callee : Value) (args : List Value) :
    R (applyValue ev fuel callee args) (applyValue ev' fuel' callee args) := by
  cases callee with
  | builtin b => exact hR.ofExcept (b.apply args)
  | closure name params body scope => exact hR.called hev hfuel name params body scope args
  | _ => exact hR.fail _

theorem loop (rest : List Form) (scope : Scope) :
    R (evalLoop ev fuel rest scope) (evalLoop ev' fuel' rest scope) := by
  fun_cases evalLoop ev fuel rest scope with
  | case1 => exact hR.fail _
  | case2 bindings body hodd =>
    rw [evalLoop, if_pos hodd]
    exact hR.fail _
  | case3 bindings body hodd =>
    rw [evalLoop, if_neg hodd]
    refine hR.bind (hR.initials hev bindings scope) fun inner => ?_
    exact hR.looped hev hfuel _ body scope inner
  | case4 rest hnil hvector =>
    rw [evalLoop]
    · exact hR.fail _
    · exact hnil
    · exact hvector

theorem step (f : Form) (scope : Scope) :
    R (evalStep ev fuel f scope) (evalStep ev' fuel' f scope) := by
  cases f with
  | nil | bool | int | text => exact hR.pure _
  | symbol name =>
    rw [evalStep_symbol_eq_onFrames, evalStep_symbol_eq_onFrames]
    exact hR.onFrames _
  | vector items => exact hR.bind (hR.args hev scope items) fun values => hR.pure _
  | list items =>
    cases items with
    | nil => exact hR.pure _
    | cons head rest =>
      rw [evalStep, evalStep]
      cases head.special? with
      | none =>
        refine hR.bind (hR.value hev head scope) fun callee => ?_
        refine hR.bind (hR.args hev scope rest) fun args => ?_
        exact hR.bind (hR.apply hev hfuel callee args) fun v => hR.pure _
      | some special =>
        cases special with
        | fn => exact hR.bind (hR.ofExcept (evalFn rest scope)) fun v => hR.pure _
        | branch => exact hR.branch hev rest scope
        | loop => exact hR.bind (hR.loop hev hfuel rest scope) fun v => hR.pure _
        | recur => exact hR.bind (hR.args hev scope rest) fun args => hR.pure _

omit hev

theorem evaluation (f : Form) (scope : Scope) : R (eval fuel f scope) (eval fuel' f scope) := by
  induction fuel generalizing fuel' f scope with
  | zero => exact hR.exhausted _
  | succ fuel ih =>
    obtain ⟨more, rfl⟩ : ∃ more, fuel' = more + 1 := ⟨fuel' - 1, by omega⟩
    have hle : fuel ≤ more := Nat.le_of_succ_le_succ hfuel
    exact hR.step (fun f scope => ih hle f scope) hle f scope

/-- A simulation holds between the run of a form and the same run with more fuel. -/
theorem form (f : Form) (args : List Value) :
    R (runForm fuel f args) (runForm fuel' f args) := by
  refine hR.bind (hR.evaluation hfuel f []) fun o => ?_
  cases o with
  | value callee => exact hR.apply (fun f scope => hR.evaluation hfuel f scope) hfuel callee args
  | recur pending => exact hR.fail _

end Simulation

end Denotation
