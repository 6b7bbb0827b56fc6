import Denotation.Proofs.Execution
import Denotation.Proofs.Simulation

/-!
# Loops are calls

A loop evaluates its initialisers one after the other in a frame that grows, and makes the first
round in that frame; a call of a closure evaluates its arguments outside, binds them all at once, and
counts them again at the head of every round. The two come to the same where no initialiser can tell:
where none mentions a name of the loop, and none makes a closure, which would keep the growing frame.

`Form.SeesAlike` says that a form cannot tell two scopes from each other. Such a form is evaluated
in both in the same way, whatever loops it holds and whatever closures it calls. So the initialisers
go as arguments do, and leave the frame in which a closure makes its first round.
`loopRounds_eq_callRounds` says that from there on the rounds of a loop are the rounds of a closure.
-/

namespace Denotation

/-! ## Symbols of a form -/

mutual

/-- The symbols that stand in a form, at whatever depth. -/
def Form.symbols : Form → List Text
  | .symbol name => [name]
  | .list items => Form.symbolsOf items
  | .vector items => Form.symbolsOf items
  | _ => []

/-- The symbols that stand in the forms. -/
def Form.symbolsOf : List Form → List Text
  | [] => []
  | f :: rest => f.symbols ++ Form.symbolsOf rest

end

/-- The form makes no closure, and each of its symbols has the same value in the two scopes. -/
structure Form.SeesAlike (s s' : Scope) (f : Form) : Prop where
  noClosure : f.makesClosure = false
  lookup : ∀ name ∈ f.symbols, ∀ m : Machine, m.lookup s name = m.lookup s' name

namespace Form

variable {s s' : Scope} {f head : Form} {items rest : List Form}

theorem symbols_subset_of_mem (h : f ∈ items) {name : Text} (hname : name ∈ f.symbols) :
    name ∈ symbolsOf items := by
  induction items with
  | nil => cases h
  | cons g items ih =>
    rw [symbolsOf]
    rcases List.mem_cons.mp h with rfl | h
    · exact List.mem_append_left _ hname
    · exact List.mem_append_right _ (ih h)

theorem makesClosure_of_mem (h : anyMakesClosure items = false) (hf : f ∈ items) :
    f.makesClosure = false := by
  induction items with
  | nil => cases hf
  | cons g items ih =>
    rw [anyMakesClosure, Bool.or_eq_false_iff] at h
    rcases List.mem_cons.mp hf with rfl | hf
    · exact h.1
    · exact ih h.2 hf

theorem anyMakesClosure_eq_false (h : ∀ f ∈ items, f.makesClosure = false) :
    anyMakesClosure items = false := by
  induction items with
  | nil => rfl
  | cons g items ih =>
    obtain ⟨hg, hitems⟩ := List.forall_mem_cons.mp h
    rw [anyMakesClosure, hg, ih hitems]
    rfl

/-- What a bracket cannot tell, its items cannot. -/
theorem seesAlike_of_mem (hc : anyMakesClosure items = false)
    (hl : ∀ name ∈ symbolsOf items, ∀ m : Machine, m.lookup s name = m.lookup s' name) :
    ∀ f ∈ items, f.SeesAlike s s' :=
  fun _ hf => ⟨makesClosure_of_mem hc hf, fun name hn => hl name (symbols_subset_of_mem hf hn)⟩

theorem SeesAlike.of_vector (h : (Form.vector items).SeesAlike s s') :
    ∀ f ∈ items, f.SeesAlike s s' := seesAlike_of_mem h.noClosure h.lookup

/-- A list that cannot tell makes no closure itself, and neither its head nor the rest can tell. -/
theorem SeesAlike.of_list (h : (Form.list (head :: rest)).SeesAlike s s') :
    head.special? ≠ some .fn ∧ head.SeesAlike s s' ∧ ∀ f ∈ rest, f.SeesAlike s s' := by
  have hc := h.noClosure
  rw [makesClosure, Bool.or_eq_false_iff, Bool.or_eq_false_iff] at hc
  obtain ⟨⟨hfn, hhead⟩, hrest⟩ := hc
  have hitems : anyMakesClosure (head :: rest) = false := by
    rw [anyMakesClosure, hhead, hrest]
    rfl
  obtain ⟨hh, hr⟩ := List.forall_mem_cons.mp (seesAlike_of_mem hitems h.lookup)
  exact ⟨beq_eq_false_iff_ne.mp hfn, hh, hr⟩

/-- A frame in front of both scopes hides the same names of both. -/
theorem SeesAlike.inside (h : f.SeesAlike s s') (frame : Frame) :
    f.SeesAlike (frame :: s) (frame :: s') := by
  refine ⟨h.noClosure, fun name hname m => ?_⟩
  have houter := h.lookup name hname m
  cases frame with
  | own bindings => rw [Machine.lookup, Machine.lookup, houter]
  | shared number => rw [Machine.lookup, Machine.lookup, houter]

end Form

/-! ## Forms that cannot tell two scopes from each other -/

section
variable {ev : Evaluate} (hev : ∀ f s s', f.SeesAlike s s' → ev f s = ev f s') {s s' : Scope}

include hev

theorem evalValue_alike {f : Form} (h : f.SeesAlike s s') :
    evalValue ev f s = evalValue ev f s' := by
  rw [evalValue, evalValue, hev f s s' h]

theorem evalArgs_alike {forms : List Form} (h : ∀ f ∈ forms, f.SeesAlike s s') :
    evalArgs ev s forms = evalArgs ev s' forms := by
  induction forms with
  | nil => rfl
  | cons f rest ih =>
    obtain ⟨hf, hrest⟩ := List.forall_mem_cons.mp h
    rw [evalArgs, evalArgs, evalValue_alike hev hf, ih hrest]

theorem evalBody_alike {forms : List Form} (h : ∀ f ∈ forms, f.SeesAlike s s') :
    evalBody ev s forms = evalBody ev s' forms := by
  fun_induction evalBody ev s forms with
  | case1 => rfl
  | case2 f => exact hev f s s' (h f List.mem_cons_self)
  | case3 f rest hrest ih =>
    obtain ⟨hf, htail⟩ := List.forall_mem_cons.mp h
    rw [evalBody, evalValue_alike hev hf, ih htail]
    exact hrest

/-- Every round of a loop has its frame in front of both scopes. -/
theorem loopRounds_alike (names : List Text) {body : List Form} (h : ∀ f ∈ body, f.SeesAlike s s')
    (fuel : Nat) (inner : Frame) :
    loopRounds ev names body s fuel inner = loopRounds ev names body s' fuel inner := by
  induction fuel generalizing inner with
  | zero => rfl
  | succ fuel ih =>
    have hbody : evalBody ev (inner :: s) body = evalBody ev (inner :: s') body :=
      evalBody_alike hev fun f hf => (h f hf).inside inner
    have hagain : (fun pending => loopRounds ev names body s fuel (.own (bindAll [] names pending)))
        = fun pending => loopRounds ev names body s' fuel (.own (bindAll [] names pending)) :=
      funext fun pending => ih _
    rw [loopRounds_succ, loopRounds_succ, hbody, hagain]

theorem bindOwn_alike (bound : Bindings) {forms : List Form} (h : ∀ f ∈ forms, f.SeesAlike s s') :
    bindOwn ev s bound forms = bindOwn ev s' bound forms := by
  fun_induction bindOwn ev s bound forms with
  | case1 bound name init rest ih =>
    obtain ⟨-, h⟩ := List.forall_mem_cons.mp h
    obtain ⟨hinit, hrest⟩ := List.forall_mem_cons.mp h
    have hvalue := evalValue_alike hev (hinit.inside (.own bound))
    simp only [bindOwn, hvalue, fun v => ih v hrest]
  | case2 bound f init rest hf => rw [bindOwn]; exact hf
  | case3 forms bound hsymbol hpair =>
    rw [bindOwn]
    · exact hsymbol
    · exact hpair

theorem bindLoop_alike {bindings : List Form} (hc : Form.anyMakesClosure bindings = false)
    (h : ∀ f ∈ bindings, f.SeesAlike s s') : bindLoop ev bindings s = bindLoop ev bindings s' := by
  have hnot : ¬ Form.anyMakesClosure bindings = true := by rw [hc]; exact Bool.false_ne_true
  rw [bindLoop, bindLoop, if_neg hnot, if_neg hnot, bindOwn_alike hev [] h]

theorem evalLoop_alike (fuel : Nat) {rest : List Form} (h : ∀ f ∈ rest, f.SeesAlike s s') :
    evalLoop ev fuel rest s = evalLoop ev fuel rest s' := by
  fun_cases evalLoop ev fuel rest s with
  | case1 => rfl
  | case2 bindings body hodd => rw [evalLoop, if_pos hodd]
  | case3 bindings body hodd =>
    obtain ⟨hbindings, hbody⟩ := List.forall_mem_cons.mp h
    rw [evalLoop, if_neg hodd, bindLoop_alike hev hbindings.noClosure hbindings.of_vector]
    exact congrArg (bindLoop ev bindings s' >>= ·)
      (funext fun inner => loopRounds_alike hev _ hbody fuel inner)
  | case4 rest hnil hvector =>
    rw [evalLoop]
    · exact hnil
    · exact hvector

theorem evalBranch_alike {rest : List Form} (h : ∀ f ∈ rest, f.SeesAlike s s') :
    evalBranch ev rest s = evalBranch ev rest s' := by
  fun_cases evalBranch ev rest s with
  | case1 test yes =>
    have htest := evalValue_alike hev (h test (by simp))
    have hyes := hev yes s s' (h yes (by simp))
    rw [evalBranch, htest, hyes]
  | case2 test yes no =>
    have htest := evalValue_alike hev (h test (by simp))
    have hyes := hev yes s s' (h yes (by simp))
    have hno := hev no s s' (h no (by simp))
    rw [evalBranch, htest, hyes, hno]
  | case3 rest htwo hthree =>
    rw [evalBranch]
    · exact htwo
    · exact hthree

theorem evalStep_alike (fuel : Nat) {f : Form} (h : f.SeesAlike s s') :
    evalStep ev fuel f s = evalStep ev fuel f s' := by
  cases f with
  | nil | bool | int | text => rfl
  | symbol name =>
    have hname : name ∈ (Form.symbol name).symbols := List.mem_singleton.mpr rfl
    funext m
    simp only [evalStep, h.lookup name hname m]
  | vector items => rw [evalStep, evalStep, evalArgs_alike hev h.of_vector]
  | list items =>
    cases items with
    | nil => rfl
    | cons head rest =>
      obtain ⟨hfn, hhead, hrest⟩ := h.of_list
      rw [evalStep, evalStep]
      cases hspecial : head.special? with
      | none => simp only [evalValue_alike hev hhead, evalArgs_alike hev hrest]
      | some special =>
        cases special with
        | fn => exact absurd hspecial hfn
        | branch => exact evalBranch_alike hev hrest
        | loop => simp only [evalLoop_alike hev fuel hrest]
        | recur => simp only [evalArgs_alike hev hrest]

end

/-- A form that cannot tell two scopes from each other is evaluated in both in the same way. -/
theorem eval_alike (fuel : Nat) :
    ∀ (f : Form) (s s' : Scope), f.SeesAlike s s' → eval fuel f s = eval fuel f s' := by
  induction fuel with
  | zero => exact fun _ _ _ _ => rfl
  | succ fuel ih => exact fun f s s' h => evalStep_alike ih fuel h

/-! ## The initialisers of a loop -/

/-- Names that a form does not mention can be bound in front of it. -/
theorem seesAlike_own {f : Form} (hc : f.makesClosure = false) {bound : Bindings}
    (h : ∀ b ∈ bound, b.1 ∉ f.symbols) (scope : Scope) :
    f.SeesAlike (.own bound :: scope) scope := by
  refine ⟨hc, fun name hname m => ?_⟩
  have hfind : bound.find? name = none := by
    induction bound with
    | nil => rfl
    | cons b bound ih =>
      obtain ⟨hb, hbound⟩ := List.forall_mem_cons.mp h
      have hne : ¬ (b.1 == name) = true := fun hk => hb (beq_iff_eq.mp hk ▸ hname)
      rw [Bindings.find?, if_neg hne]
      exact ih hbound
  rw [Machine.lookup, hfind]
  rfl

theorem length_of_evalArgs {ev : Evaluate} {scope : Scope} {forms : List Form} {m m' : Machine}
    {values : List Value} (h : evalArgs ev scope forms m = .ok values m') :
    values.length = forms.length := by
  induction forms generalizing m m' values with
  | nil =>
    cases h
    rfl
  | cons f rest ih =>
    rw [evalArgs] at h
    simp only [bind, Run.bind] at h
    cases hv : evalValue ev f scope m with
    | error e m₁ => rw [hv] at h; cases h
    | exhausted => rw [hv] at h; cases h
    | ok v m₁ =>
      rw [hv] at h
      simp only at h
      cases hvs : evalArgs ev scope rest m₁ with
      | error e m₂ => rw [hvs] at h; cases h
      | exhausted => rw [hvs] at h; cases h
      | ok vs m₂ =>
        rw [hvs] at h
        cases h
        rw [List.length_cons, List.length_cons, ih hvs]

/-- What follows arguments has to do only with as many values as there are arguments. -/
theorem evalArgs_bind_congr (ev : Evaluate) (scope : Scope) {forms : List Form}
    {f g : List Value → Run Value} (h : ∀ vs, vs.length = forms.length → f vs = g vs) :
    evalArgs ev scope forms >>= f = evalArgs ev scope forms >>= g := by
  funext m
  simp only [bind, Run.bind]
  cases hvs : evalArgs ev scope forms m with
  | error e m' => rfl
  | exhausted => rfl
  | ok values m' => exact congrFun (h values (length_of_evalArgs hvs)) m'

namespace Form

/-- The names of a loop, each with its initialiser after it. -/
def pairs (bindings : List (Text × Form)) : List Form :=
  bindings.flatMap fun b => [.symbol b.1, b.2]

/-- `(loop [name init ...] body ...)` -/
def looping (bindings : List (Text × Form)) (body : List Form) : Form :=
  .list (.symbol "loop" :: .vector (pairs bindings) :: body)

/-- `((fn [name ...] body ...) init ...)` -/
def calling (bindings : List (Text × Form)) (body : List Form) : Form :=
  .list (.list (.symbol "fn" :: .vector (bindings.map fun b => .symbol b.1) :: body)
    :: bindings.map Prod.snd)

end Form

section
variable {bindings : List (Text × Form)}

/-- The initialisers of a loop go as the arguments of a call, if none of them makes a closure or
mentions a name that is bound before it. The bindings grow along the induction, and end up as the
frame in which the arguments of a call are bound. -/
theorem bindOwn_eq_evalArgs (fuel : Nat) (scope : Scope) (bound : Bindings)
    (hc : ∀ b ∈ bindings, b.2.makesClosure = false)
    (hbound : ∀ b ∈ bindings, ∀ x ∈ bound, x.1 ∉ b.2.symbols)
    (hnames : ∀ b ∈ bindings, ∀ c ∈ bindings, c.1 ∉ b.2.symbols)
    (k : Bindings → Run Value) :
    bindOwn (eval fuel) scope bound (Form.pairs bindings) >>= k
      = evalArgs (eval fuel) scope (bindings.map Prod.snd) >>= fun vs =>
        k (bindAll bound (bindings.map Prod.fst) vs) := by
  induction bindings generalizing bound with
  | nil => rfl
  | cons b bindings ih =>
    obtain ⟨name, init⟩ := b
    obtain ⟨hcinit, hc⟩ := List.forall_mem_cons.mp hc
    obtain ⟨hfresh, hbound⟩ := List.forall_mem_cons.mp hbound
    have halike := seesAlike_own hcinit hfresh scope
    have hvalue := evalValue_alike (eval_alike fuel) halike
    -- the name is bound for the initialisers after it, and none of them mentions it
    have hbound' : ∀ v : Value, ∀ c ∈ bindings, ∀ x ∈ (name, v) :: bound, x.1 ∉ c.2.symbols := by
      intro v c hmem
      have hname := hnames c (List.mem_cons_of_mem _ hmem) (name, init) List.mem_cons_self
      exact List.forall_mem_cons.mpr ⟨hname, hbound c hmem⟩
    have hnames' : ∀ b ∈ bindings, ∀ c ∈ bindings, c.1 ∉ b.2.symbols := fun b hb c hcm =>
      hnames b (List.mem_cons_of_mem _ hb) c (List.mem_cons_of_mem _ hcm)
    have hrest := fun v => ih ((name, v) :: bound) hc (hbound' v) hnames'
    simp only [Form.pairs, List.flatMap_cons, List.cons_append, List.nil_append, bindOwn, hvalue,
      evalArgs, List.map_cons, bind_assoc, pure_bind] at hrest ⊢
    exact congrArg _ (funext hrest)

theorem length_pairs (bindings : List (Text × Form)) :
    (Form.pairs bindings).length = 2 * bindings.length := by
  induction bindings with
  | nil => rfl
  | cons b bindings ih =>
    have hcons : Form.pairs (b :: bindings) = .symbol b.1 :: b.2 :: Form.pairs bindings := rfl
    rw [hcons, List.length_cons, List.length_cons, List.length_cons, ih]
    omega

theorem anyMakesClosure_pairs (h : ∀ b ∈ bindings, b.2.makesClosure = false) :
    Form.anyMakesClosure (Form.pairs bindings) = false := by
  refine Form.anyMakesClosure_eq_false fun f hf => ?_
  obtain ⟨b, hb, hf⟩ := List.mem_flatMap.mp hf
  rcases List.mem_cons.mp hf with rfl | hf
  · rfl
  · obtain rfl := List.mem_singleton.mp hf
    exact h b hb

theorem paramNames_map_symbol (bindings : List (Text × Form)) :
    paramNames (bindings.map fun b => .symbol b.1) = .ok (bindings.map Prod.fst) := by
  induction bindings with
  | nil => rfl
  | cons b bindings ih =>
    rw [List.map_cons, paramNames, ih]
    rfl

theorem Form.loopNames_pairs (bindings : List (Text × Form)) :
    Form.loopNames (Form.pairs bindings) = bindings.map Prod.fst := by
  induction bindings with
  | nil => rfl
  | cons b bindings ih =>
    have hcons : Form.pairs (b :: bindings) = .symbol b.1 :: b.2 :: Form.pairs bindings := rfl
    rw [hcons, Form.loopNames, ih, List.map_cons]

/-! ## The rounds -/

/-- A body that asks for another round is refused the round or gives as many arguments as there are
names. -/
theorem Outcome.goOn_congr {arity : Nat} {again again' : List Value → Run Value}
    (h : ∀ args, args.length = arity → again args = again' args) :
    Outcome.goOn arity again = Outcome.goOn arity again' := by
  funext o
  cases o with
  | value v => rfl
  | recur pending =>
    by_cases hcount : pending.length = arity
    · exact congrArg (startRound arity pending >>= ·) (funext fun _ => h pending hcount)
    · funext m
      simp only [Outcome.goOn, bind, Run.bind, startRound, if_pos hcount]

/-- A loop in the frame of its names and a closure go round in the same way. -/
theorem loopRounds_eq_callRounds (ev : Evaluate) (names : List Text) (body : List Form)
    (scope : Scope) (fuel : Nat) {args : List Value} (h : args.length = names.length) :
    loopRounds ev names body scope fuel (.own (bindAll [] names args))
      = callRounds ev none names body scope fuel args := by
  induction fuel generalizing args with
  | zero => rfl
  | succ fuel ih =>
    have hagain : (Outcome.goOn names.length fun pending =>
          loopRounds ev names body scope fuel (.own (bindAll [] names pending)))
        = Outcome.goOn names.length (callRounds ev none names body scope fuel) :=
      Outcome.goOn_congr fun pending hpending => ih hpending
    rw [loopRounds_succ, callRounds_succ, if_neg (not_not_intro h), hagain]
    rfl

/-! ## The two of them -/

/-- A loop makes a frame for its names and goes round from there. -/
theorem eval_looping_rounds (bindings : List (Text × Form)) (body : List Form) (fuel : Nat)
    (scope : Scope) :
    eval (fuel + 1) (.looping bindings body) scope
      = (bindLoop (eval fuel) (Form.pairs bindings) scope >>=
          loopRounds (eval fuel) (bindings.map Prod.fst) body scope fuel)
        >>= fun v => pure (.value v) := by
  have hspecial : Form.special? (.symbol "loop") = some .loop := rfl
  have heven : ¬ ((Form.pairs bindings).length % 2 == 1) = true := by
    rw [length_pairs, beq_iff_eq]
    omega
  rw [Form.looping, eval]
  simp only [evalStep, hspecial, evalLoop, if_neg heven, Form.loopNames_pairs]

/-- A loop evaluates its initialisers like arguments, binds them in its own frame and goes round. -/
theorem eval_looping (hc : ∀ b ∈ bindings, b.2.makesClosure = false)
    (hnames : ∀ b ∈ bindings, ∀ c ∈ bindings, c.1 ∉ b.2.symbols) (body : List Form) (fuel : Nat)
    (scope : Scope) :
    eval (fuel + 1) (.looping bindings body) scope
      = (evalArgs (eval fuel) scope (bindings.map Prod.snd) >>= fun vs =>
          loopRounds (eval fuel) (bindings.map Prod.fst) body scope fuel
            (.own (bindAll [] (bindings.map Prod.fst) vs)))
        >>= fun v => pure (.value v) := by
  have hclosure : ¬ Form.anyMakesClosure (Form.pairs bindings) = true := by
    rw [anyMakesClosure_pairs hc]
    exact Bool.false_ne_true
  have hown : bindLoop (eval fuel) (Form.pairs bindings) scope
      = bindOwn (eval fuel) scope [] (Form.pairs bindings) >>= fun bound => pure (.own bound) :=
    if_neg hclosure
  have hrounds : bindLoop (eval fuel) (Form.pairs bindings) scope >>=
        loopRounds (eval fuel) (bindings.map Prod.fst) body scope fuel
      = bindOwn (eval fuel) scope [] (Form.pairs bindings) >>= fun bound =>
          loopRounds (eval fuel) (bindings.map Prod.fst) body scope fuel (.own bound) := by
    rw [hown]
    exact (bind_assoc _ _ _).trans (congrArg _ (funext fun bound => pure_bind _ _))
  have hinit := bindOwn_eq_evalArgs fuel scope [] hc
    (fun _ _ _ hx => absurd hx List.not_mem_nil) hnames fun bound =>
      loopRounds (eval fuel) (bindings.map Prod.fst) body scope fuel (.own bound)
  rw [eval_looping_rounds, hrounds, hinit]

/-- A call makes the closure, evaluates its arguments and goes round. -/
theorem eval_calling (bindings : List (Text × Form)) (body : List Form) (fuel : Nat)
    (scope : Scope) :
    eval (fuel + 2) (.calling bindings body) scope
      = (evalArgs (eval (fuel + 1)) scope (bindings.map Prod.snd) >>=
          callRounds (eval (fuel + 1)) none (bindings.map Prod.fst) body scope (fuel + 1))
        >>= fun v => pure (.value v) := by
  have hcallee : evalValue (eval (fuel + 1))
      (.list (.symbol "fn" :: .vector (bindings.map fun b => .symbol b.1) :: body)) scope
        = pure (.closure none (bindings.map Prod.fst) body scope) := by
    have hspecial : Form.special? (.symbol "fn") = some .fn := rfl
    rw [evalValue, eval]
    simp only [evalStep, hspecial, evalFn, makeClosure, paramNames_map_symbol]
    rfl
  have hhead : Form.special?
      (.list (.symbol "fn" :: .vector (bindings.map fun b => .symbol b.1) :: body)) = none := rfl
  rw [Form.calling, eval]
  simp only [evalStep, hhead, hcallee, pure_bind, applyValue_closure]
  exact (bind_assoc _ _ _).symm

/-- A loop and the call of a closure with its names and body go the same way, on every machine: they
come to the same value or failure after the same rounds, or both run out of fuel. The initialisers
must mention none of the names and make no closure; the names may even repeat. -/
theorem eval_looping_eq_calling (bindings : List (Text × Form)) (body : List Form)
    (hinit : ∀ b ∈ bindings, b.2.makesClosure = false ∧ ∀ c ∈ bindings, c.1 ∉ b.2.symbols)
    (scope : Scope) (fuel : Nat) (m : Machine) :
    eval fuel (.looping bindings body) scope m = eval fuel (.calling bindings body) scope m := by
  have hc : ∀ b ∈ bindings, b.2.makesClosure = false := fun b hb => (hinit b hb).1
  have hnames : ∀ b ∈ bindings, ∀ c ∈ bindings, c.1 ∉ b.2.symbols := fun b hb => (hinit b hb).2
  rcases fuel with _ | _ | fuel
  · rfl
  · -- there is fuel for neither the first initialiser nor a round
    rw [eval_looping hc hnames]
    cases bindings with
    | nil => rfl
    | cons b bindings => rfl
  · have hlength : (bindings.map Prod.snd).length = (bindings.map Prod.fst).length := by
      rw [List.length_map, List.length_map]
    have hrounds := evalArgs_bind_congr (eval (fuel + 1)) scope fun vs hvs =>
      loopRounds_eq_callRounds (eval (fuel + 1)) (bindings.map Prod.fst) body scope (fuel + 1)
        (hvs.trans hlength)
    rw [eval_looping hc hnames, eval_calling, hrounds]

/-- A loop that goes round once and then calls a closure made in its first round. -/
theorem eval_looping_eq_calling_captured :
    (∀ b ∈ [(Text.ofString "i", Form.list [.symbol "+", .symbol "x", .int 1]), ("f", .nil)],
      b.2.makesClosure = false ∧
        ∀ c ∈ [(Text.ofString "i", Form.list [.symbol "+", .symbol "x", .int 1]), ("f", .nil)],
          c.1 ∉ b.2.symbols) ∧
    eval 9 (.looping [("i", .list [.symbol "+", .symbol "x", .int 1]), ("f", .nil)]
        [.list [.symbol "if", .list [.symbol "<", .symbol "i", .int 7],
          .list [.symbol "recur", .list [.symbol "+", .symbol "i", .int 1],
            .list [.symbol "fn", .vector [], .symbol "i"]],
          .list [.symbol "f"]]]) [.own [("x", .int 5)]] ⟨3, 2, false, #[]⟩
      = .ok (.value (.int 6)) ⟨3, 3, false, #[]⟩ := by
  have hinit : ∀ b ∈ [(Text.ofString "i", Form.list [.symbol "+", .symbol "x", .int 1]),
      ("f", .nil)], b.2.makesClosure = false ∧
        ∀ c ∈ [(Text.ofString "i", Form.list [.symbol "+", .symbol "x", .int 1]), ("f", .nil)],
          c.1 ∉ b.2.symbols := by decide
  refine ⟨hinit, ?_⟩
  rw [eval_looping_eq_calling _ _ hinit]
  rfl

end

end Denotation
