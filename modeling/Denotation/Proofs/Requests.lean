import Mathlib.Tactic.Common
import Denotation.Machine.Basic

/-!
# Requests for another round

A request for another round is an outcome of evaluation beside values, and the types of the machine
keep the two apart. The watched machine below does not rely on that: where the machine asks a form
for a value, it takes any outcome and hands it on. It writes down every request that turns up where
none may stand, and leaks as soon as a request would be kept in a frame, among arguments or in a
vector.

The watched machine never leaks, and apart from what it writes down it is the machine. It writes
something down exactly when the machine fails for a misplaced `recur`.
-/

namespace Denotation

/-- Where no request for another round may stand. -/
inductive Place where
  | operator
  | argument
  | item
  | test
  | initialiser
  /-- A form of a body before the last one. -/
  | earlier
  deriving DecidableEq, Repr

/-- What a watched computation comes to. -/
inductive Watched (α : Type) where
  /-- The computation ends, after requests were met at some places. -/
  | ends (r : Result α) (met : List Place)
  /-- A request is kept like a value. -/
  | leaks

/-- A watched computation on a machine. -/
def Watch (α : Type) := Machine → Watched α

namespace Watch

variable {α β : Type}

protected def pure (a : α) : Watch α := fun m => .ends (.ok a m) []

protected def bind (w : Watch α) (k : α → Watch β) : Watch β := fun m =>
  match w m with
  | .ends (.ok a m) met =>
    match k a m with
    | .ends r met' => .ends r (met ++ met')
    | .leaks => .leaks
  | .ends (.error e m) met => .ends (.error e m) met
  | .ends .exhausted met => .ends .exhausted met
  | .leaks => .leaks

instance : Monad Watch where
  pure := Watch.pure
  bind := Watch.bind

/-- A computation that evaluates nothing. -/
def lift (x : Run α) : Watch α := fun m => .ends (x m) []

/-- A request turns up where none may stand. -/
def meet (place : Place) : Watch α := fun m => .ends (.error .misplacedRecur m) [place]

/-- Takes an outcome for a value. -/
def keep : Outcome → Watch Value
  | .value v => return v
  | .recur _ => fun _ => .leaks

/-! ## The watched machine -/

section
variable (ev : Form → Scope → Watch Outcome)

/-- The outcome of a form at a place where no request may stand. -/
def value (place : Place) (f : Form) (scope : Scope) : Watch Outcome := do
  match ← ev f scope with
  | .value v => return .value v
  | .recur _ => meet place

def args (place : Place) (scope : Scope) : List Form → Watch (List Value)
  | [] => return []
  | f :: rest => do
    let v ← keep (← value ev place f scope)
    let values ← args place scope rest
    return v :: values

def body (scope : Scope) : List Form → Watch Outcome
  | [] => return .value .nil
  | [f] => ev f scope
  | f :: rest => do
    let _ ← value ev .earlier f scope
    body scope rest

/-- Goes round in the body of a closure. -/
def called (name : Option Text) (params : List Text) (forms : List Form) (scope : Scope) :
    Nat → List Value → Watch Outcome
  | 0, _ => lift Run.exhausted
  | fuel + 1, values =>
    if values.length ≠ params.length then
      lift (Run.fail (.miscount (.closure name params.length values.length)))
    else do
      let self := name.toList.map fun n => (n, .closure name params forms scope)
      match ← body ev (.own (bindAll self params values) :: scope) forms with
      | .value v => return .value v
      | .recur pending =>
        lift (startRound params.length pending)
        called name params forms scope fuel pending

/-- Calls an outcome with arguments. -/
def apply (fuel : Nat) (callee : Outcome) (values : List Value) : Watch Outcome :=
  match callee with
  | .value (.builtin b) => do return .value (← lift (Run.ofExcept (b.apply values)))
  | .value (.closure name params forms scope) => called ev name params forms scope fuel values
  | .value v => lift (Run.fail (.notCallable v.display))
  | .recur pending =>
    lift (Run.fail (.notCallable (Text.concat ["&\x7b", (Value.vector pending).display, "\x7d"])))

def initialOwn (scope : Scope) : Bindings → List Form → Watch Bindings
  | bound, .symbol name :: init :: rest => do
    let v ← keep (← value ev .initialiser init (.own bound :: scope))
    initialOwn scope ((name, v) :: bound) rest
  | _, f :: _ :: _ => lift (Run.fail (.malformed (.loopBinding f)))
  | bound, _ => return bound

def initialShared (scope : Scope) (number : Nat) : List Form → Watch Unit
  | .symbol name :: init :: rest => do
    let v ← keep (← value ev .initialiser init (.shared number :: scope))
    lift (extendFrame number name v)
    initialShared scope number rest
  | f :: _ :: _ => lift (Run.fail (.malformed (.loopBinding f)))
  | _ => return ()

def initials (bindings : List Form) (scope : Scope) : Watch Frame := do
  if Form.anyMakesClosure bindings then
    let number ← lift newFrame
    initialShared ev scope number bindings
    return .shared number
  else return .own (← initialOwn ev scope [] bindings)

/-- Goes round in the body of a loop. -/
def looped (names : List Text) (forms : List Form) (scope : Scope) : Nat → Frame → Watch Outcome
  | 0, _ => lift Run.exhausted
  | fuel + 1, inner => do
    match ← body ev (inner :: scope) forms with
    | .value v => return .value v
    | .recur pending =>
      lift (startRound names.length pending)
      looped names forms scope fuel (.own (bindAll [] names pending))

def loop (fuel : Nat) (rest : List Form) (scope : Scope) : Watch Outcome :=
  match rest with
  | [] => lift (Run.fail (.malformed .loopWithoutBindings))
  | .vector bindings :: forms =>
    if bindings.length % 2 == 1 then lift (Run.fail (.malformed .loopBindings))
    else do
      let inner ← initials ev bindings scope
      looped ev (Form.loopNames bindings) forms scope fuel inner
  | _ => lift (Run.fail (.malformed .loopBindings))

/-- Whether a condition with this outcome holds; a request is neither `nil` nor `false`. -/
def holds : Outcome → Bool
  | .value v => v.isTruthy
  | .recur _ => true

def branch (rest : List Form) (scope : Scope) : Watch Outcome :=
  match rest with
  | [test, yes] => do
    if holds (← value ev .test test scope) then ev yes scope else return .value .nil
  | [test, yes, no] => do
    if holds (← value ev .test test scope) then ev yes scope else ev no scope
  | _ => lift (Run.fail (.malformed (.branchForms rest.length)))

def step (fuel : Nat) (f : Form) (scope : Scope) : Watch Outcome :=
  match f with
  | .nil => return .value .nil
  | .bool b => return .value (.bool b)
  | .int n => return .value (.int n)
  | .text t => return .value (.text t)
  | .symbol name => lift fun m =>
    match m.lookup scope name with
    | some v => .ok (.value v) m
    | none => .error (.unbound name) m
  | .vector items => do return .value (.vector (← args ev .item scope items))
  | .list [] => return .value (.list [])
  | .list (head :: rest) =>
    match head.special? with
    | some .fn => do return .value (← lift (Run.ofExcept (evalFn rest scope)))
    | some .branch => branch ev rest scope
    | some .loop => loop ev fuel rest scope
    | some .recur => do return .recur (← args ev .argument scope rest)
    | none => do
      let callee ← value ev .operator head scope
      let values ← args ev .argument scope rest
      apply ev fuel callee values

end

def outcome : Nat → Form → Scope → Watch Outcome
  | 0, _, _ => lift Run.exhausted
  | fuel + 1, f, scope => step (outcome fuel) fuel f scope

/-- Runs a program under watch. -/
def run (fuel : Nat) (cancelled : Bool) (program : Text) (values : List Value) (m : Machine) :
    Watched Outcome :=
  match Form.read program with
  | .error e => .ends (.error (.unreadable e) m) []
  | .ok f => (outcome fuel f [] >>= fun callee => apply (outcome fuel) fuel callee values)
      { m with cancelled }

end Watch

/-! ## Failures that no request causes -/

/-- The computation does not fail for a misplaced `recur`. -/
def Run.Orderly {α : Type} (x : Run α) : Prop := ∀ m m', x m ≠ .error .misplacedRecur m'

theorem orderly_ofExcept {α : Type} {x : Except RunError α} (hx : x ≠ .error .misplacedRecur) :
    (Run.ofExcept x).Orderly := by
  intro m m' h
  cases x with
  | ok a => cases h
  | error e =>
    cases h
    exact hx rfl

theorem orderly_startRound (arity : Nat) (args : List Value) : (startRound arity args).Orderly := by
  intro m m' h
  simp only [startRound] at h
  split at h
  · cases h
  · split at h
    · cases h
    · split at h <;> cases h

section
variable {α β : Type} {x : Except RunError α}

theorem bind_ne (hx : x ≠ .error .misplacedRecur) {f : α → Except RunError β}
    (hf : ∀ a, f a ≠ .error .misplacedRecur) : x >>= f ≠ .error .misplacedRecur := by
  cases x with
  | ok a => exact hf a
  | error e =>
    intro h
    cases h
    exact hx rfl

theorem map_ne (hx : x ≠ .error .misplacedRecur) (f : α → β) :
    x.map f ≠ .error .misplacedRecur := by
  cases x with
  | ok a => nofun
  | error e =>
    intro h
    cases h
    exact hx rfl

end

theorem integers_ne (b : Builtin) (n : Nat) (args : List Value) :
    b.integers n args ≠ .error .misplacedRecur := by
  fun_induction Builtin.integers b n args with
  | case1 | case3 => nofun
  | case2 n k rest ih => exact bind_ne ih fun _ => nofun

theorem increasing_ne (n : Nat) (k : Int64) (args : List Value) :
    Builtin.increasing n k args ≠ .error .misplacedRecur := by
  fun_induction Builtin.increasing n k args with
  | case1 | case3 | case4 => nofun
  | case2 n prev k rest hlt ih => exact ih

theorem assocAll_ne (b : Bindings) (args : List Value) :
    Builtin.assocAll b args ≠ .error .misplacedRecur := by
  fun_induction Builtin.assocAll b args with
  | case1 b k v rest ih => exact ih
  | case2 | case3 => nofun

theorem applyAssoc_ne (args : List Value) : Builtin.applyAssoc args ≠ .error .misplacedRecur := by
  unfold Builtin.applyAssoc
  split
  · nofun
  · split
    · nofun
    · split
      · exact map_ne (assocAll_ne _ _) _
      · exact map_ne (assocAll_ne _ _) _
      · nofun

theorem Builtin.apply_ne (b : Builtin) (args : List Value) :
    b.apply args ≠ .error .misplacedRecur := by
  cases b with
  | get =>
    rw [apply]
    fun_cases applyGet args <;> nofun
  | assoc => exact applyAssoc_ne args
  | add | multiply => exact map_ne (integers_ne _ _ _) _
  | less =>
    rw [apply]
    fun_cases applyLess args with
    | case1 | case3 => nofun
    | case2 => exact map_ne (increasing_ne _ _ _) _

theorem paramNames_ne (params : List Form) : paramNames params ≠ .error .misplacedRecur := by
  fun_induction paramNames params with
  | case1 | case3 => nofun
  | case2 name rest ih => exact bind_ne ih fun _ => nofun

theorem evalFn_ne (rest : List Form) (scope : Scope) :
    evalFn rest scope ≠ .error .misplacedRecur := by
  have hclosure (name : Option Text) (rest : List Form) :
      makeClosure name rest scope ≠ .error .misplacedRecur := by
    fun_cases makeClosure name rest scope with
    | case1 | case3 => nofun
    | case2 => exact map_ne (paramNames_ne _) _
  fun_cases evalFn rest scope <;> exact hclosure _ _

/-! ## Rounds -/

instance : LawfulMonad Run := LawfulMonad.mk' Run
  (fun x => by funext m; simp only [Functor.map, Run.bind]; cases x m <;> rfl)
  (fun a f => rfl)
  (fun x f g => by funext m; simp only [bind, Run.bind]; cases x m <;> rfl)

theorem applyValue_builtin (ev : Evaluate) (fuel : Nat) (b : Builtin) (args : List Value) :
    applyValue ev fuel (.builtin b) args = Run.ofExcept (b.apply args) := rfl

theorem applyValue_closure (ev : Evaluate) (fuel : Nat) (name : Option Text) (params : List Text)
    (body : List Form) (scope : Scope) (args : List Value) :
    applyValue ev fuel (.closure name params body scope) args
      = callRounds ev name params body scope fuel args := rfl

/-- What the outcome of a body leads to: its value, or another round with the arguments that it asks
for. -/
def Outcome.goOn (arity : Nat) (again : List Value → Run Value) : Outcome → Run Value
  | .value v => return v
  | .recur pending => do
    startRound arity pending
    again pending

theorem callRounds_succ (ev : Evaluate) (name : Option Text) (params : List Text)
    (body : List Form) (scope : Scope) (fuel : Nat) (args : List Value) :
    callRounds ev name params body scope (fuel + 1) args
      = if args.length ≠ params.length then
          Run.fail (.miscount (.closure name params.length args.length))
        else
          evalBody ev (.own (bindAll (name.toList.map fun n => (n, .closure name params body scope))
              params args) :: scope) body
            >>= Outcome.goOn params.length (callRounds ev name params body scope fuel) := by
  funext m
  rw [callRounds]
  split
  · rfl
  · simp only [bind, Run.bind]
    cases evalBody ev (.own (bindAll (name.toList.map fun n => (n, .closure name params body scope))
        params args) :: scope) body m with
    | ok o m =>
      cases o with
      | value v => rfl
      | recur pending =>
        simp only [Outcome.goOn, bind, Run.bind]
        cases startRound params.length pending m <;> rfl
    | error e m => rfl
    | exhausted => rfl

theorem loopRounds_succ (ev : Evaluate) (names : List Text) (body : List Form) (scope : Scope)
    (fuel : Nat) (inner : Frame) :
    loopRounds ev names body scope (fuel + 1) inner
      = evalBody ev (inner :: scope) body >>= Outcome.goOn names.length fun pending =>
          loopRounds ev names body scope fuel (.own (bindAll [] names pending)) := by
  funext m
  simp only [loopRounds, bind, Run.bind]
  cases evalBody ev (inner :: scope) body m with
  | ok o m =>
    cases o with
    | value v => rfl
    | recur pending =>
      simp only [Outcome.goOn, bind, Run.bind]
      cases startRound names.length pending m <;> rfl
  | error e m => rfl
  | exhausted => rfl

/-! ## The watched machine is the machine -/

/-- The result with its value seen in another way. -/
def Result.map {α β : Type} (g : α → β) : Result α → Result β
  | .ok a m => .ok (g a) m
  | .error e m => .error e m
  | .exhausted => .exhausted

theorem Result.toOption_map {α β : Type} (g : α → β) (r : Result α) :
    (r.map g).toOption = r.toOption.map fun (x, m) => (x.map g, m) := by
  cases r <;> rfl

theorem Result.toOption_eq_error {α : Type} {r : Result α} {e : RunError} {m : Machine} :
    r.toOption = some (.error e, m) ↔ r = .error e m := by
  cases r <;> simp [toOption]

namespace Watch

variable {α β γ δ : Type}

/-- A watched computation goes as the computation `x` does, whose values it sees through `g`. It
never leaks, and meets a request exactly when `x` fails for a misplaced `recur`. -/
def Mirrors (g : α → β) (w : Watch β) (x : Run α) : Prop :=
  ∀ m, ∃ met, w m = .ends ((x m).map g) met ∧ (met ≠ [] ↔ ∃ m', x m = .error .misplacedRecur m')

theorem mirrors_lift {x : Run α} (hx : x.Orderly) : Mirrors id (lift x) x := by
  intro m
  refine ⟨[], ?_, by simpa using hx m⟩
  rw [lift]
  cases x m <;> rfl

theorem mirrors_fail {e : RunError} (he : e ≠ .misplacedRecur) (g : α → β) :
    Mirrors g (lift (Run.fail e)) (Run.fail e) :=
  fun m => ⟨[], rfl, by simpa [Run.fail] using he⟩

theorem mirrors_pure (a : α) (g : α → β) : Mirrors g (pure (g a)) (pure a) :=
  fun m => ⟨[], rfl, by simp [pure, Run.pure]⟩

theorem mirrors_meet (place : Place) (g : α → β) :
    Mirrors g (meet place) (Run.fail .misplacedRecur) :=
  fun m => ⟨[place], rfl, by simp [Run.fail]⟩

theorem mirrors_bind {g : α → β} {h : γ → δ} {w : Watch β} {x : Run α} {k : β → Watch δ}
    {f : α → Run γ} (hw : Mirrors g w x) (hk : ∀ a, Mirrors h (k (g a)) (f a)) :
    Mirrors h (w >>= k) (x >>= f) := by
  intro m
  obtain ⟨met, hend, hmet⟩ := hw m
  simp only [bind, Watch.bind, Run.bind, hend]
  cases hx : x m with
  | ok a m' =>
    -- what goes on has met nothing so far
    have hnil : met = [] := by simpa [hx] using hmet
    obtain ⟨met', hend', hmet'⟩ := hk a m'
    refine ⟨met', ?_, hmet'⟩
    simp only [Result.map, hend', hnil, List.nil_append]
  | error e m' =>
    rw [hx] at hmet
    refine ⟨met, rfl, hmet.trans ?_⟩
    simp
  | exhausted =>
    rw [hx] at hmet
    refine ⟨met, rfl, hmet.trans ?_⟩
    simp

theorem mirrors_map {g : α → β} {w : Watch α} {x : Run α} (hw : Mirrors id w x) :
    Mirrors g (do return g (← w)) x := by
  intro m
  obtain ⟨met, hend, hmet⟩ := hw m
  refine ⟨met, ?_, hmet⟩
  simp only [bind, Watch.bind, hend]
  cases x m with
  | ok a m' => simp [Result.map, pure, Watch.pure]
  | error e m' => rfl
  | exhausted => rfl

theorem Mirrors.seen {g : α → β} {w : Watch β} {x : Run α} (hw : Mirrors g w x) :
    Mirrors id w (do return g (← x)) := by
  intro m
  obtain ⟨met, hend, hmet⟩ := hw m
  refine ⟨met, hend.trans ?_, hmet.trans ?_⟩
  · simp only [bind, Run.bind]
    cases x m <;> rfl
  · simp only [bind, Run.bind]
    cases x m <;> simp [pure, Run.pure]

theorem mirrors_ite {g : α → β} {c : Prop} [Decidable c] {w w' : Watch β} {x x' : Run α}
    (hc : c → Mirrors g w x) (hn : ¬ c → Mirrors g w' x') :
    Mirrors g (if c then w else w') (if c then x else x') := by
  split
  · exact hc ‹c›
  · exact hn ‹¬ c›

theorem keep_value_bind (v : Value) (k : Value → Watch α) : keep (.value v) >>= k = k v := by
  funext m
  simp only [bind, Watch.bind, keep, pure, Watch.pure]
  cases k v m <;> rfl

section
variable {ev : Evaluate} {watched : Form → Scope → Watch Outcome}
  (hev : ∀ f scope, Mirrors id (watched f scope) (ev f scope))

include hev

theorem mirrors_value (place : Place) (f : Form) (scope : Scope) :
    Mirrors Outcome.value (value watched place f scope) (evalValue ev f scope) := by
  refine mirrors_bind (hev f scope) fun o => ?_
  cases o with
  | value v => exact mirrors_pure v Outcome.value
  | recur pending => exact mirrors_meet place Outcome.value

theorem mirrors_args (place : Place) (scope : Scope) (forms : List Form) :
    Mirrors id (args watched place scope forms) (evalArgs ev scope forms) := by
  induction forms with
  | nil => exact mirrors_pure [] id
  | cons f rest ih =>
    refine mirrors_bind (mirrors_value hev place f scope) fun v => ?_
    -- an outcome that has passed `value` can be kept
    rw [keep_value_bind]
    exact mirrors_bind ih fun values => mirrors_pure (v :: values) id

theorem mirrors_body (scope : Scope) (forms : List Form) :
    Mirrors id (body watched scope forms) (evalBody ev scope forms) := by
  fun_induction body watched scope forms with
  | case1 => exact mirrors_pure _ id
  | case2 f => exact hev f scope
  | case3 f rest hrest ih =>
    rw [evalBody]
    · exact mirrors_bind (mirrors_value hev .earlier f scope) fun _ => ih
    · exact hrest

theorem mirrors_called (name : Option Text) (params : List Text) (forms : List Form)
    (scope : Scope) (fuel : Nat) (values : List Value) :
    Mirrors Outcome.value (called watched name params forms scope fuel values)
      (callRounds ev name params forms scope fuel values) := by
  induction fuel generalizing values with
  | zero => exact fun m => ⟨[], rfl, by simp [callRounds]⟩
  | succ fuel ih =>
    rw [callRounds_succ, called]
    refine mirrors_ite (fun _ => mirrors_fail (by simp) _) fun _ => ?_
    refine mirrors_bind (mirrors_body hev _ forms) fun o => ?_
    cases o with
    | value v => exact mirrors_pure v Outcome.value
    | recur pending =>
      exact mirrors_bind (mirrors_lift (orderly_startRound _ _)) fun _ => ih pending

theorem mirrors_apply (fuel : Nat) (callee : Value) (values : List Value) :
    Mirrors Outcome.value (apply watched fuel (.value callee) values)
      (applyValue ev fuel callee values) := by
  cases callee with
  | builtin b =>
    have happly : (Run.ofExcept (b.apply values)).Orderly := orderly_ofExcept (b.apply_ne values)
    exact mirrors_map (mirrors_lift happly)
  | closure name params forms scope => exact mirrors_called hev name params forms scope fuel values
  | _ => exact mirrors_fail (by simp) _

theorem mirrors_initialOwn (scope : Scope) (bound : Bindings) (forms : List Form) :
    Mirrors id (initialOwn watched scope bound forms) (bindOwn ev scope bound forms) := by
  fun_induction bindOwn ev scope bound forms with
  | case1 bound name init rest ih =>
    refine mirrors_bind (mirrors_value hev .initialiser init _) fun v => ?_
    rw [keep_value_bind]
    exact ih v
  | case2 bound f init rest hf =>
    rw [initialOwn]
    · exact mirrors_fail (by simp) _
    · exact hf
  | case3 forms bound hsymbol hpair =>
    rw [initialOwn]
    · exact mirrors_pure bound id
    · exact hsymbol
    · exact hpair

theorem mirrors_initialShared (scope : Scope) (number : Nat) (forms : List Form) :
    Mirrors id (initialShared watched scope number forms)
      (bindShared ev scope number forms) := by
  fun_induction bindShared ev scope number forms with
  | case1 name init rest ih =>
    refine mirrors_bind (mirrors_value hev .initialiser init _) fun v => ?_
    rw [keep_value_bind]
    exact mirrors_bind (mirrors_lift nofun) fun _ => ih
  | case2 f init rest hf =>
    rw [initialShared]
    · exact mirrors_fail (by simp) _
    · exact hf
  | case3 forms hsymbol hpair =>
    rw [initialShared]
    · exact mirrors_pure () id
    · exact hsymbol
    · exact hpair

theorem mirrors_initials (bindings : List Form) (scope : Scope) :
    Mirrors id (initials watched bindings scope) (bindLoop ev bindings scope) := by
  refine mirrors_ite (fun _ => ?_) fun _ => ?_
  · refine mirrors_bind (mirrors_lift nofun) fun number => ?_
    exact mirrors_bind (mirrors_initialShared hev scope number bindings) fun _ =>
      mirrors_pure (Frame.shared number) id
  · exact mirrors_bind (mirrors_initialOwn hev scope [] bindings) fun bound =>
      mirrors_pure (Frame.own bound) id

theorem mirrors_looped (names : List Text) (forms : List Form) (scope : Scope) (fuel : Nat)
    (inner : Frame) :
    Mirrors Outcome.value (looped watched names forms scope fuel inner)
      (loopRounds ev names forms scope fuel inner) := by
  induction fuel generalizing inner with
  | zero => exact fun m => ⟨[], rfl, by simp [loopRounds]⟩
  | succ fuel ih =>
    rw [loopRounds_succ]
    refine mirrors_bind (mirrors_body hev _ forms) fun o => ?_
    cases o with
    | value v => exact mirrors_pure v Outcome.value
    | recur pending =>
      exact mirrors_bind (mirrors_lift (orderly_startRound _ _)) fun _ => ih _

theorem mirrors_loop (fuel : Nat) (rest : List Form) (scope : Scope) :
    Mirrors Outcome.value (loop watched fuel rest scope) (evalLoop ev fuel rest scope) := by
  fun_cases evalLoop ev fuel rest scope with
  | case1 => exact mirrors_fail (by simp) _
  | case2 bindings forms hodd =>
    rw [loop, if_pos hodd]
    exact mirrors_fail (by simp) _
  | case3 bindings forms hodd =>
    rw [loop, if_neg hodd]
    exact mirrors_bind (mirrors_initials hev bindings scope) fun _ => mirrors_looped hev _ _ _ _ _
  | case4 rest hnil hvector =>
    rw [loop]
    · exact mirrors_fail (by simp) _
    · exact hnil
    · exact hvector

theorem mirrors_branch (rest : List Form) (scope : Scope) :
    Mirrors id (branch watched rest scope) (evalBranch ev rest scope) := by
  fun_cases evalBranch ev rest scope with
  | case1 test yes =>
    refine mirrors_bind (mirrors_value hev .test test scope) fun v => ?_
    exact mirrors_ite (fun _ => hev yes scope) fun _ => mirrors_pure _ id
  | case2 test yes no =>
    refine mirrors_bind (mirrors_value hev .test test scope) fun v => ?_
    exact mirrors_ite (fun _ => hev yes scope) fun _ => hev no scope
  | case3 rest htwo hthree =>
    rw [branch]
    · exact mirrors_fail (by simp) _
    · exact htwo
    · exact hthree

theorem mirrors_step (fuel : Nat) (f : Form) (scope : Scope) :
    Mirrors id (step watched fuel f scope) (evalStep ev fuel f scope) := by
  cases f with
  | nil | bool | int | text => exact mirrors_pure _ id
  | symbol name =>
    refine mirrors_lift fun m m' h => ?_
    split at h <;> cases h
  | vector items =>
    exact mirrors_bind (mirrors_args hev .item scope items) fun _ => mirrors_pure _ id
  | list items =>
    cases items with
    | nil => exact mirrors_pure _ id
    | cons head rest =>
      rw [step, evalStep]
      cases head.special? with
      | none =>
        refine mirrors_bind (mirrors_value hev .operator head scope) fun callee => ?_
        refine mirrors_bind (mirrors_args hev .argument scope rest) fun values => ?_
        exact (mirrors_apply hev fuel callee values).seen
      | some special =>
        cases special with
        | fn =>
          have hfn : (Run.ofExcept (evalFn rest scope)).Orderly :=
            orderly_ofExcept (evalFn_ne rest scope)
          exact mirrors_bind (mirrors_lift hfn) fun v => mirrors_pure (Outcome.value v) id
        | branch => exact mirrors_branch hev rest scope
        | loop => exact (mirrors_loop hev fuel rest scope).seen
        | recur =>
          exact mirrors_bind (mirrors_args hev .argument scope rest) fun values =>
            mirrors_pure (Outcome.recur values) id

end

theorem mirrors_outcome (fuel : Nat) (f : Form) (scope : Scope) :
    Mirrors id (outcome fuel f scope) (eval fuel f scope) := by
  induction fuel generalizing f scope with
  | zero => exact fun m => ⟨[], rfl, by simp [eval, Run.exhausted]⟩
  | succ fuel ih => exact mirrors_step ih fuel f scope

theorem mirrors_form (fuel : Nat) (f : Form) (values : List Value) :
    Mirrors Outcome.value
      (outcome fuel f [] >>= fun callee => apply (outcome fuel) fuel callee values)
      (runForm fuel f values) := by
  refine mirrors_bind (mirrors_outcome fuel f []) fun o => ?_
  cases o with
  | value callee => exact mirrors_apply (mirrors_outcome fuel) fuel callee values
  | recur pending => exact mirrors_fail (by simp) _

theorem apply_ends (fuel : Nat) (callee : Value) (values : List Value) (m : Machine) :
    ∃ r met, apply (outcome fuel) fuel (.value callee) values m = .ends r met ∧
      r = (applyValue (eval fuel) fuel callee values m).map Outcome.value ∧
      ∀ pending m', r ≠ .ok (.recur pending) m' := by
  obtain ⟨met, hend, -⟩ := mirrors_apply (mirrors_outcome fuel) fuel callee values m
  refine ⟨_, met, hend, rfl, fun pending m' h => ?_⟩
  cases hx : applyValue (eval fuel) fuel callee values m <;> rw [hx] at h <;> cases h

/-- No request for another round escapes. Whatever the program and its arguments, and whatever the
machine has run before, no request is kept in a frame, as an argument or in a vector, and the run
gives what the machine gives: a value if anything. Requests are met where none may stand exactly
when the run fails for a misplaced `recur`. Calls give what calls of the machine give, never a
request. -/
theorem run_ends (fuel : Nat) (cancelled : Bool) (program : Text) (values : List Value)
    (m : Machine) :
    (∃ r met, run fuel cancelled program values m = .ends r met ∧
      r.toOption = (Machine.run fuel cancelled program values m).map
        (fun (x, m') => (x.map Outcome.value, m')) ∧
      (met ≠ [] ↔ ∃ m', Machine.run fuel cancelled program values m
        = some (.error .misplacedRecur, m'))) ∧
    ∀ (callee : Value) args m, ∃ r met,
      apply (outcome fuel) fuel (.value callee) args m = .ends r met ∧
      r = (applyValue (eval fuel) fuel callee args m).map Outcome.value ∧
      ∀ pending m', r ≠ .ok (.recur pending) m' := by
  refine ⟨?_, apply_ends fuel⟩
  rw [run, Machine.run]
  cases Form.read program with
  | error e => exact ⟨_, [], rfl, rfl, by simp⟩
  | ok f =>
    obtain ⟨met, hend, hmet⟩ := mirrors_form fuel f values { m with cancelled }
    exact ⟨_, met, hend, Result.toOption_map _ _,
      hmet.trans (exists_congr fun m' => Result.toOption_eq_error.symm)⟩

example : run 9 false "(fn [x] (if (recur x) 1 2))" [.int 1] (.ofCap 0)
    = .ends (.error .misplacedRecur (.ofCap 0)) [.test] := rfl

end Watch

end Denotation
