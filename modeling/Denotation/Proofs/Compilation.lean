import Denotation.Proofs.Counters
import Denotation.Proofs.Environments
import Denotation.Proofs.Execution

/-!
# Compilation is correct

The machine, run on the Clojure rendering of a program, does what the semantics says. `Stmt.follows`
says it of statements, for every amount of fuel and every cap at once: either the run ends as the
semantics does, having started a round for every completed execution of a loop body, or it is
stopped by the cap at the first execution too many, or the fuel runs out, and then more executions
were completed than the fuel is good for.

`Node.evaluate_cases` carries this over to `evaluate`. From it follow the two main results: without
a cap a run gives exactly the value or the type error of the semantics, and with a cap every run
ends.
-/

namespace Denotation

/-- A type error as the machine reports it. -/
def TypeError.cause (t : TypeError) : RunError := .mismatch (.operand t.operator t.position t.kind)

/-! ## Builtins -/

/-- The operator takes two integers and gives the value that the function says. -/
def Builtin.Computes (op : Builtin) (g : Int64 → Int64 → Value) : Prop :=
  ∀ v w, op.apply [v, w]
    = ((operands op v w).map fun p => g p.1 p.2).mapError TypeError.cause

theorem integers_pair (op : Builtin) (v w : Value) :
    op.integers 1 [v, w]
      = ((operands op v w).map fun p => [p.1, p.2]).mapError TypeError.cause := by
  cases v with
  | int m => cases w <;> rfl
  | _ => rfl

theorem computes_of_integers {op : Builtin} {g : Int64 → Int64 → Value} {total : List Int64 → Value}
    (hop : ∀ args, op.apply args = (op.integers 1 args).map total)
    (hg : ∀ m n, total [m, n] = g m n) : op.Computes g := by
  intro v w
  rw [hop, integers_pair]
  cases operands op v w with
  | ok p => exact congrArg Except.ok (hg p.1 p.2)
  | error t => rfl

theorem computes_add : Builtin.add.Computes fun m n => .int (m + n) :=
  computes_of_integers (fun _ => rfl) fun m n => by simp

theorem computes_multiply : Builtin.multiply.Computes fun m n => .int (m * n) :=
  computes_of_integers (fun _ => rfl) fun m n => by simp

theorem computes_less : Builtin.less.Computes fun m n => .bool (m < n) := by
  intro v w
  cases v with
  | int m =>
    cases w with
    | int n =>
      by_cases h : m < n <;>
        simp [Builtin.apply, Builtin.applyLess, Builtin.increasing, operands, h, Except.map,
          Except.mapError]
    | _ => rfl
  | _ => rfl

theorem apply_assoc (b : Bindings) (name : Text) (v : Value) :
    Builtin.assoc.apply [.map b, .text name, v] = .ok (.map (b.insert name v)) := by
  simp [Builtin.apply, Builtin.applyAssoc, Value.entries?, Builtin.assocAll, Except.map]

/-! ## Expressions -/

/-- What a run comes to that settles as the semantics does, unless its fuel is short. -/
inductive Settles (r : Except TypeError Value) (short : Prop) (m : Machine) :
    Result Value → Prop where
  | value {v : Value} (h : r = .ok v) : Settles r short m (.ok v m)
  | failure {t : TypeError} (h : r = .error t) : Settles r short m (.error t.cause m)
  | exhausted (h : short) : Settles r short m .exhausted

variable {r : Except TypeError Value} {short short' : Prop} {m : Machine} {n N : Nat}
  {x : Run Value}

/-- A computation that settles and then another. -/
theorem Settles.bind {f : Value → Run Value} {g : Value → Except TypeError Value}
    (hx : Settles r short m (x m)) (hs : short → short')
    (hf : ∀ v, r = .ok v → Settles (g v) short' m (f v m)) :
    Settles (r >>= g) short' m ((x >>= f) m) := by
  simp only [Bind.bind, Run.bind]
  generalize x m = R at hx
  cases hx with
  | value h =>
    subst h
    exact hf _ rfl
  | failure h =>
    subst h
    exact .failure rfl
  | exhausted h => exact .exhausted (hs h)

theorem Settles.ofExcept (r : Except TypeError Value) (short : Prop) (m : Machine) :
    Settles r short m (Run.ofExcept (r.mapError TypeError.cause) m) := by
  cases r with
  | ok v => exact .value rfl
  | error t => exact .failure rfl

/-- The fuel that the value of an expression takes at most. -/
def Expr.depth : Expr Empty → Nat
  | .variable _ | .number _ | .boolean _ => 2
  | .add l r | .multiply l r | .lessThan l r => max l.depth r.depth + 2

theorem settles_binary {op : Builtin} {g : Int64 → Int64 → Value} (hop : op.Computes g)
    {l r : Expr Empty} {b : Bindings} {vs : List Value}
    (hl : ∀ n vs, Settles (l.value b.store) (n < l.depth) m (enter n l.body vs (.map b) m))
    (hr : ∀ n vs, Settles (r.value b.store) (n < r.depth) m (enter n r.body vs (.map b) m)) :
    Settles (do let v ← l.value b.store; let w ← r.value b.store
                (operands op v w).map fun p => g p.1 p.2) (n < max l.depth r.depth + 2) m
      (enter n (.call op (.here l.body) (.here r.body)) vs (.map b) m) := by
  rcases n with _ | _ | n
  · exact .exhausted (by omega)
  · rw [enter_one_call]
    exact .exhausted (by omega)
  · rw [enter_call, evalValue_here, evalValue_here]
    refine (hl n _).bind (by omega) fun v _ => (hr n _).bind (by omega) fun w _ => ?_
    rw [hop v w]
    exact .ofExcept _ _ _

/-- Entering the body of an expression settles as the value of the expression. -/
theorem Expr.settles (e : Expr Empty) (n : Nat) (vs : List Value) (b : Bindings) (m : Machine) :
    Settles (e.value b.store) (n < e.depth) m (enter n e.body vs (.map b) m) := by
  induction e generalizing n vs with
  | «variable» name =>
    rcases n with _ | _ | n
    · exact .exhausted (by rw [depth]; decide)
    · exact .exhausted (by rw [depth]; decide)
    · rw [body, enter_call, evalValue_symbol_e, evalValue_text]
      exact .value rfl
  | number k =>
    cases n with
    | zero => exact .exhausted (by rw [depth]; decide)
    | succ n => exact .value rfl
  | boolean k =>
    cases n with
    | zero => exact .exhausted (by rw [depth]; decide)
    | succ n => exact .value rfl
  | add l r ihl ihr => exact settles_binary computes_add ihl ihr
  | multiply l r ihl ihr => exact settles_binary computes_multiply ihl ihr
  | lessThan l r ihl ihr => exact settles_binary computes_less ihl ihr
  | gap g => exact g.elim

/-! ## Machines along a run -/

/-- The machine was not cancelled and has not started more rounds than it may. -/
def Machine.Ready (m : Machine) : Prop := m.cancelled = false ∧ m.Room 0

theorem Machine.Ready.after (hm : m.Ready) {k : Nat} (hk : m.Room k) : (m.after k).Ready :=
  ⟨hm.1, Room.right hk⟩

/-- A machine that is ready starts a round or notices that it is one too many. -/
theorem startRound_of_ready (hm : m.Ready) (v : Value) :
    startRound 1 [v] m = .ok () (m.after 1) ∧ m.Room 1 ∨
    startRound 1 [v] m = .error (.roundLimit m.cap) (m.after 1) ∧ IsLimit m.cap ∧
      m.cap = m.rounds := by
  obtain ⟨hlive, hroom⟩ := hm
  have harity : [v].length = 1 := rfl
  rw [startRound_of_count harity]
  by_cases h : IsLimit m.cap ∧ m.cap = m.rounds
  · obtain ⟨hcap, heq⟩ := h
    have hmax := hcap.2
    have hcount : (m.after 1).rounds = m.rounds + 1 := Machine.rounds_after (by omega)
    have hlt : (m.after 1).cap < (m.after 1).rounds := by
      rw [hcount]
      exact heq ▸ Int.lt_succ m.cap
    have hlimit : (m.after 1).clearance = .error (.roundLimit m.cap) :=
      Machine.clearance_of_limit hcap.1 hlt
    exact Or.inr ⟨by rw [hlimit]; rfl, hcap, heq⟩
  · have hone : m.Room 1 := by
      intro hcap
      have hle := hroom hcap
      have hne : m.cap ≠ m.rounds := fun heq => h ⟨hcap, heq⟩
      omega
    have hclear : (m.after 1).clearance = .ok () := Machine.clearance_of_live hone.within hlive
    exact Or.inl ⟨by rw [hclear]; rfl, hone⟩

/-! ## Runs of statements -/

/-- What a run comes to that starts in an environment and goes along with a statement. The statement
is given by how it can end and by how many executions of loop bodies it completes; `short` says for
how many of them the fuel does not last. -/
inductive Follows (ends : Nat → Except TypeError Store → Prop) (completes short : Nat → Prop)
    (b : Bindings) (m : Machine) : Result Value → Prop where
  /-- The run ends, with a round for every completed execution. -/
  | done {k : Nat} {b' : Bindings} (h : ends k (.ok b'.store)) (ho : b.Ordered → b'.Ordered)
      (hr : m.Room k) : Follows ends completes short b m (.ok (.map b') (m.after k))
  /-- The run fails with a type error, with a round for every completed execution. -/
  | fails {k : Nat} {t : TypeError} (h : ends k (.error t)) (hr : m.Room k) :
      Follows ends completes short b m (.error t.cause (m.after k))
  /-- The run stops after one execution too many. -/
  | limited {k : Nat} (h : completes (k + 1)) (hcap : IsLimit m.cap) (hk : m.cap = m.rounds + k) :
      Follows ends completes short b m (.error (.roundLimit m.cap) (m.after (k + 1)))
  /-- The fuel runs out, not sooner than it has to. -/
  | exhausted {k : Nat} (h : completes k) (hr : m.Room k) (hs : short k) :
      Follows ends completes short b m .exhausted

section
variable {ends ends' : Nat → Except TypeError Store → Prop} {completes completes' : Nat → Prop}
  {spent spent' : Nat → Prop} {b b' : Bindings} {R : Result Value} {f : Value → Run Value}

theorem Follows.doneNow (h : ends 0 (.ok b'.store)) (ho : b.Ordered → b'.Ordered) (hm : m.Ready) :
    Follows ends completes spent b m (.ok (.map b') m) := by
  have hdone : Follows ends completes spent b m (.ok (.map b') (m.after 0)) := .done h ho hm.2
  rwa [Machine.after_zero] at hdone

theorem Follows.failsNow {t : TypeError} (h : ends 0 (.error t)) (hm : m.Ready) :
    Follows ends completes spent b m (.error t.cause m) := by
  have hfails : Follows ends completes spent b m (.error t.cause (m.after 0)) := .fails h hm.2
  rwa [Machine.after_zero] at hfails

/-- A run that goes along with the rest of a statement goes along with the statement. -/
theorem Follows.rest {j : Nat} (h : Follows ends completes spent b' (m.after j) R) (hj : m.Room j)
    (ho : b.Ordered → b'.Ordered) (he : ∀ k r, ends k r → ends' (j + k) r)
    (hc : ∀ k, completes k → completes' (j + k)) (hf : ∀ k, spent k → spent' (j + k)) :
    Follows ends' completes' spent' b m R := by
  cases h with
  | done h ho' hr =>
    rw [Machine.after_after]
    exact .done (he _ _ h) (fun hb => ho' (ho hb)) (hj.add hr)
  | fails h hr =>
    rw [Machine.after_after]
    exact .fails (he _ _ h) (hj.add hr)
  | @limited k h hcap hk =>
    have hcount : (m.after j).rounds = m.rounds + j := hj.rounds_after hcap
    have hsum : m.cap = m.rounds + (j + k : Nat) := by
      rw [hcount, Int.add_assoc] at hk
      exact hk
    rw [Machine.after_after]
    exact .limited (hc _ h) hcap hsum
  | exhausted h hr hs => exact .exhausted (hc _ h) (hj.add hr) (hf _ hs)

theorem Follows.mono (h : Follows ends completes spent b m R) (he : ∀ k r, ends k r → ends' k r)
    (hc : ∀ k, completes k → completes' k) (hf : ∀ k, spent k → spent' k) :
    Follows ends' completes' spent' b m R := by
  cases h with
  | done h ho hr => exact .done (he _ _ h) ho hr
  | fails h hr => exact .fails (he _ _ h) hr
  | limited h hcap hk => exact .limited (hc _ h) hcap hk
  | exhausted h hr hs => exact .exhausted (hc _ h) hr (hf _ hs)

/-- A run of a statement and then a computation on the environment that it leaves. -/
theorem Follows.bind (hx : Follows ends completes spent b m (x m))
    (he : ∀ k t, ends k (.error t) → ends' k (.error t)) (hc : ∀ k, completes k → completes' k)
    (hs : ∀ k, spent k → spent' k)
    (hf : ∀ k (b' : Bindings), ends k (.ok b'.store) → (b.Ordered → b'.Ordered) → m.Room k →
      Follows ends' completes' spent' b m (f (.map b') (m.after k))) :
    Follows ends' completes' spent' b m ((x >>= f) m) := by
  simp only [Bind.bind, Run.bind]
  generalize x m = R at hx
  cases hx with
  | done h ho hr => exact hf _ _ h ho hr
  | fails h hr => exact .fails (he _ _ h) hr
  | limited h hcap hk => exact .limited (hc _ h) hcap hk
  | exhausted h hr hk => exact .exhausted (hc _ h) hr (hs _ hk)

/-- A run of an expression and then a computation on its value. -/
theorem Follows.bindSettles (hm : m.Ready) (hx : Settles r short m (x m))
    (he : ∀ t, r = .error t → ends 0 (.error t)) (hc : completes 0) (hs : short → spent 0)
    (hf : ∀ v, r = .ok v → Follows ends completes spent b m (f v m)) :
    Follows ends completes spent b m ((x >>= f) m) := by
  simp only [Bind.bind, Run.bind]
  generalize x m = R at hx
  cases hx with
  | value h => exact hf _ h
  | failure h => exact .failsNow (he _ h) hm
  | exhausted h => exact .exhausted hc hm.2 (hs h)

end

/-- The fuel that a statement takes besides one unit for every execution of a loop body. -/
def Stmt.depth : Stmt Empty → Nat
  | .doNothing => 1
  | .assign _ e => e.depth + 3
  | .sequence a b => max a.depth b.depth + 3
  | .branch c a b => max c.depth (max a.depth b.depth) + 3
  | .loop c a => max c.depth a.depth + 4

theorem follows_loop {c : Expr Empty} {a : Stmt Empty} {d : Nat}
    (ha : ∀ n vs b m, m.Ready → Follows (a.Ends b.store) (a.Completes b.store) (n < d + ·) b m
      (enter n a.body vs (.map b) m)) (vs : List Value) (f : Nat) :
    ∀ (b : Bindings) (m : Machine), m.Ready →
      Follows ((Stmt.loop c a).Ends b.store) ((Stmt.loop c a).Completes b.store)
        (fun k => f ≤ k ∨ n < max c.depth d + 3 + k) b m
        (turns n f (Stmt.loop c a).body vs (.map b) m) := by
  induction f with
  | zero => exact fun b m hm => .exhausted (k := 0) .none hm.2 (Or.inl (Nat.le_refl 0))
  | succ f ih =>
    intro b m hm
    rcases n with _ | _ | n
    · exact .exhausted (k := 0) .none hm.2 (Or.inr (by omega))
    · exact .exhausted (k := 0) .none hm.2 (Or.inr (by omega))
    · rw [Stmt.body, turns_loop]
      refine .bindSettles hm (c.settles n _ b m) (fun t => .loopFails) .none
        (fun h => Or.inr (by omega)) fun v hv => ?_
      by_cases htruthy : v.isTruthy = true
      · have htrue : v.CountsTrue := Value.countsTrue_iff.mpr htruthy
        rw [if_pos htruthy]
        cases n with
        | zero => exact .exhausted (k := 0) .none hm.2 (Or.inr (by omega))
        | succ n =>
          rw [evalValue_here]
          refine (ha n _ b m hm).bind (fun k t => .loopBodyFails hv htrue)
            (fun k => .inBody hv htrue) (fun k hk => Or.inr (by omega)) fun j b' hj ho hr => ?_
          -- the body is completed, and the next round goes on with what it leaves
          have hstart := startRound_of_ready (hm.after hr) (.map b')
          simp only [bind, Run.bind]
          rcases hstart with ⟨hstart, hr'⟩ | ⟨hstart, hcap, hlim⟩
          · have hroom : m.Room (j + 1) := hr.add hr'
            rw [hstart]
            rw [Machine.after_after]
            refine (ih b' _ (hm.after hroom)).rest hroom ho (fun k r => .loopGoesOn hv htrue hj)
              (fun k => .afterBody hv htrue hj) fun k hk => ?_
            omega
          · rw [hstart, Machine.after_after]
            rw [hr.rounds_after hcap] at hlim
            exact .limited (Stmt.Completes.afterBody hv htrue hj .none) hcap hlim
      · rw [if_neg htruthy]
        exact .doneNow (.loopStops hv (mt Value.countsTrue_iff.mp htruthy)) id hm

/-- Entering the body of a statement goes along with the statement. -/
theorem Stmt.follows (s : Stmt Empty) (n : Nat) (vs : List Value) (b : Bindings) (m : Machine)
    (hm : m.Ready) :
    Follows (s.Ends b.store) (s.Completes b.store) (n < s.depth + ·) b m
      (enter n s.body vs (.map b) m) := by
  induction s generalizing n vs b m with
  | doNothing =>
    cases n with
    | zero => exact .exhausted (k := 0) .none hm.2 (by rw [depth]; decide)
    | succ n => exact .doneNow .doNothing id hm
  | assign name e =>
    rcases n with _ | _ | n
    · exact .exhausted (k := 0) .none hm.2 (by rw [depth]; omega)
    · exact .exhausted (k := 0) .none hm.2 (by rw [depth]; omega)
    · rw [body, enter_assoc, evalValue_here]
      refine .bindSettles hm (e.settles n _ b m) (fun t => .assignFails) .none
        (fun h => by rw [depth]; omega) fun v hv => ?_
      have hends : (assign name e).Ends b.store 0 (.ok (Bindings.store (b.insert name v))) := by
        rw [Bindings.store_insert]
        exact .assign hv
      rw [apply_assoc]
      exact .doneNow hends (fun hb => hb.insert name v) hm
  | sequence a c iha ihc =>
    rcases n with _ | _ | n
    · exact .exhausted (k := 0) .none hm.2 (by rw [depth]; omega)
    · exact .exhausted (k := 0) .none hm.2 (by rw [depth]; omega)
    · rw [body, enter_sequence, depth]
      refine (iha n _ b m hm).bind (fun k t => .sequenceFails) (fun k => .first)
        (fun k hk => by omega) fun j b' hj ho hr => ?_
      exact (ihc (n + 1) _ b' _ (hm.after hr)).rest hr ho (fun k r => .sequence hj)
        (fun k => .second hj) fun k hk => by omega
  | branch c a d iha ihd =>
    rcases n with _ | _ | n
    · exact .exhausted (k := 0) .none hm.2 (by rw [depth]; omega)
    · exact .exhausted (k := 0) .none hm.2 (by rw [depth]; omega)
    · rw [body, enter_choice, depth]
      refine .bindSettles hm (c.settles n _ b m) (fun t => .branchFails) .none
        (fun h => by omega) fun v hv => ?_
      by_cases htruthy : v.isTruthy = true
      · have htrue : v.CountsTrue := Value.countsTrue_iff.mpr htruthy
        rw [if_pos htruthy]
        exact (iha n _ b m hm).mono (fun k r => .branchTrue hv htrue)
          (fun k => .branchTrue hv htrue) fun k hk => by omega
      · have hfalse : ¬ v.CountsTrue := mt Value.countsTrue_iff.mp htruthy
        rw [if_neg htruthy]
        exact (ihd n _ b m hm).mono (fun k r => .branchFalse hv hfalse)
          (fun k => .branchFalse hv hfalse) fun k hk => by omega
  | loop c a ih =>
    rw [depth]
    exact (follows_loop ih vs n b m hm).mono (fun _ _ => id) (fun _ => id) fun k hk => by omega
  | gap g => exact g.elim

/-! ## Evaluation -/

/-- What an evaluation shows of a run. -/
def Result.evaluation : Result Value → Option Evaluation
  | .ok v m => some ⟨.ok v, m.rounds⟩
  | .error e m => some ⟨.error ⟨e⟩, m.rounds⟩
  | .exhausted => none

/-- To evaluate a rendering is to enter the body of the program, on a machine that may have been
cancelled. -/
theorem evaluate_render_on (n : Node Empty) (fuel : Nat) (cap : Int) (cancelled : Bool)
    (b : Bindings) :
    evaluate fuel cap cancelled (n.render .clojure) b
      = (enter fuel n.body [] (.map b) ⟨cap, 0, cancelled, #[]⟩).evaluation := by
  rw [evaluate, Machine.run, n.read_render, ← runForm_closing]
  simp only [Machine.ofCap]
  cases runForm fuel n.body.closing [.map b] ⟨cap, 0, cancelled, #[]⟩ <;> rfl

theorem evaluate_render (n : Node Empty) (fuel : Nat) (cap : Int) (b : Bindings) :
    evaluate fuel cap false (n.render .clojure) b
      = (enter fuel n.body [] (.map b) (.ofCap cap)).evaluation :=
  evaluate_render_on n fuel cap false b

/-- What an evaluation shows of a program that ends. -/
def Evaluation.ofSemantics (r : Except TypeError Value) (k : Nat) : Evaluation :=
  ⟨r.mapError fun t => ⟨t.cause⟩, shownRounds k⟩

/-- The fuel that a program takes besides one unit for every execution of a loop body. -/
def Node.depth : Node Empty → Nat
  | .expr e => e.depth
  | .stmt s => s.depth

/-- What an evaluation of a program can come to. -/
inductive Node.Outcome (n : Node Empty) (env : Environment) (cap : Int) (fuel : Nat) :
    Option Evaluation → Prop where
  /-- The evaluation ends as the program does. -/
  | ends {k : Nat} {r : Except TypeError Value} (h : n.Yields env.store k r)
      (hk : IsLimit cap → k ≤ cap) : Outcome n env cap fuel (some (.ofSemantics r k))
  /-- The program completes one execution too many. -/
  | limited {k : Nat} (h : n.Completes env.store (k + 1)) (hcap : IsLimit cap) (hk : cap = k) :
      Outcome n env cap fuel (some ⟨.error ⟨.roundLimit cap⟩, k + 1⟩)
  /-- The fuel runs out. -/
  | exhausted {k : Nat} (h : n.Completes env.store k) (hk : IsLimit cap → k ≤ cap)
      (hf : fuel < n.depth + k) : Outcome n env cap fuel none

variable {env : Environment} {cap : Int} {fuel k : Nat}

theorem rounds_mk_after {cancelled : Bool} :
    ((Machine.mk cap 0 cancelled #[]).after k).rounds = shownRounds k := by
  simp only [Machine.rounds, Machine.after, Int64.zero_add]
  rfl

theorem room_mk_iff {cancelled : Bool} :
    (Machine.mk cap 0 cancelled #[]).Room k ↔ (IsLimit cap → k ≤ cap) := by
  have hzero : (Machine.mk cap 0 cancelled #[]).rounds = 0 := rfl
  rw [Machine.Room, hzero, Int.zero_add]

theorem ready_ofCap (cap : Int) : (Machine.ofCap cap).Ready :=
  ⟨rfl, room_mk_iff.mpr fun h => Int.le_of_lt h.1⟩

theorem Expr.evaluate_cases (e : Expr Empty) :
    (Node.expr e).Outcome env cap fuel
      (enter fuel e.body [] (.map env.bindings) (.ofCap cap)).evaluation := by
  have hcap : IsLimit cap → (0 : Nat) ≤ cap := fun h => Int.le_of_lt h.1
  have hx := e.settles fuel [] env.bindings (.ofCap cap)
  generalize enter fuel e.body [] (.map env.bindings) (.ofCap cap) = R at hx
  have hy : (Node.expr e).Yields env.store 0 (e.value env.store) := .expr
  cases hx with
  | value h =>
    rw [Environment.store, h] at hy
    exact .ends hy hcap
  | failure h =>
    rw [Environment.store, h] at hy
    exact .ends hy hcap
  | exhausted h => exact .exhausted (k := 0) rfl hcap h

theorem Stmt.evaluate_cases (s : Stmt Empty) :
    (Node.stmt s).Outcome env cap fuel
      (enter fuel s.body [] (.map env.bindings) (.ofCap cap)).evaluation := by
  have hx := s.follows fuel [] env.bindings (.ofCap cap) (ready_ofCap cap)
  generalize enter fuel s.body [] (.map env.bindings) (.ofCap cap) = R at hx
  cases hx with
  | @done k b' h ho hr =>
    rw [Result.evaluation, Machine.ofCap, rounds_mk_after]
    exact .ends (@Node.Yields.stmt s _ k ⟨b', ho env.ordered⟩ h) (room_mk_iff.mp hr)
  | fails h hr =>
    rw [Result.evaluation, Machine.ofCap, rounds_mk_after]
    exact .ends (.stmtFails h) (room_mk_iff.mp hr)
  | @limited k h hcap hk =>
    have hcount : cap = k := hk.trans (Int.zero_add _)
    have hmax : cap < Int64.maxValue.toInt := hcap.2
    have hshown : shownRounds (k + 1) = k + 1 := shownRounds_of_le (by omega)
    rw [Result.evaluation, Machine.ofCap, rounds_mk_after, hshown]
    exact .limited h hcap hcount
  | exhausted h hr hs => exact .exhausted h (room_mk_iff.mp hr) hs

namespace Node

variable {n : Node Empty} {r : Except TypeError Value}

/-- Every evaluation of a rendered program comes to one of the outcomes. -/
theorem evaluate_cases (n : Node Empty) (env : Environment) (cap : Int) (fuel : Nat) :
    n.Outcome env cap fuel (evaluate fuel cap false (n.render .clojure) env.bindings) := by
  rw [evaluate_render]
  cases n with
  | expr e => exact e.evaluate_cases
  | stmt s => exact s.evaluate_cases
  | gap g => exact g.elim

/-- A program that ends within the cap is evaluated as the semantics says. -/
theorem evaluate_of_yields (h : n.Yields env.store k r) (hk : IsLimit cap → k ≤ cap)
    (hfuel : n.depth + k ≤ fuel) :
    evaluate fuel cap false (n.render .clojure) env.bindings = some (.ofSemantics r k) := by
  have hx := n.evaluate_cases env cap fuel
  generalize evaluate fuel cap false (n.render .clojure) env.bindings = R at hx
  cases hx with
  | ends h' =>
    obtain ⟨rfl, rfl⟩ := h.unique h'
    rfl
  | limited h' hcap hk' =>
    have := h.completes_iff.mp h'
    have := hk hcap
    omega
  | exhausted h' hk' hf =>
    have := h.completes_iff.mp h'
    omega

/-- An evaluation without a cap that ends shows how the program ends. -/
theorem yields_of_evaluate {ev : Evaluation} (hcap : cap ≤ 0)
    (h : evaluate fuel cap false (n.render .clojure) env.bindings = some ev) :
    ∃ k r, n.Yields env.store k r ∧ ev = .ofSemantics r k := by
  have hx := n.evaluate_cases env cap fuel
  rw [h] at hx
  cases hx with
  | ends h' => exact ⟨_, _, h', rfl⟩
  | limited _ hcap' => exact absurd hcap'.1 (Int.not_lt.mpr hcap)

/-- A program that completes more executions than the cap allows is stopped. -/
theorem evaluate_of_completes {cap : Nat} (h : n.Completes env.store (cap + 1)) (hcap : IsLimit cap)
    (hfuel : n.depth + cap ≤ fuel) :
    evaluate fuel cap false (n.render .clojure) env.bindings
      = some ⟨.error ⟨.roundLimit cap⟩, cap + 1⟩ := by
  have hx := n.evaluate_cases env cap fuel
  generalize evaluate fuel cap false (n.render .clojure) env.bindings = R at hx
  cases hx with
  | ends h' hk =>
    have := h'.completes_iff.mp h
    have := hk hcap
    omega
  | limited h' hcap' hk =>
    obtain rfl := Int.ofNat_inj.mp hk
    rfl
  | exhausted h' hk hf =>
    have := hk hcap
    omega

/-- Without a cap, evaluating the rendering of a program gives a value exactly if the program does,
and fails exactly if the program has a type error, with this error and no other. It shows a round for
every completed execution of a loop body, as far as the counter can. -/
theorem evaluate_render_iff_yields (n : Node Empty) (env : Environment) (cap : Int)
    (hcap : cap ≤ 0) :
    (∀ v c, (∃ fuel, evaluate fuel cap false (n.render .clojure) env.bindings = some ⟨.ok v, c⟩) ↔
      ∃ k, n.Yields env.store k (.ok v) ∧ c = shownRounds k) ∧
    (∀ e c, (∃ fuel, evaluate fuel cap false (n.render .clojure) env.bindings
        = some ⟨.error e, c⟩) ↔
      ∃ k t, n.Yields env.store k (.error t) ∧ e = ⟨t.cause⟩ ∧ c = shownRounds k) := by
  have hany : ∀ k : Nat, IsLimit cap → k ≤ cap :=
    fun k hlimit => absurd hlimit.1 (Int.not_lt.mpr hcap)
  refine ⟨fun v c => ⟨?_, ?_⟩, fun e c => ⟨?_, ?_⟩⟩
  · rintro ⟨fuel, h⟩
    obtain ⟨k, r, hy, hev⟩ := yields_of_evaluate hcap h
    cases r with
    | ok w =>
      cases hev
      exact ⟨k, hy, rfl⟩
    | error t => cases hev
  · rintro ⟨k, h, rfl⟩
    exact ⟨_, evaluate_of_yields h (hany k) (Nat.le_refl _)⟩
  · rintro ⟨fuel, h⟩
    obtain ⟨k, r, hy, hev⟩ := yields_of_evaluate hcap h
    cases r with
    | ok w => cases hev
    | error t =>
      cases hev
      exact ⟨k, t, hy, rfl, rfl⟩
  · rintro ⟨k, t, h, rfl, rfl⟩
    exact ⟨_, evaluate_of_yields h (hany k) (Nat.le_refl _)⟩

/-- A loop that makes its own counter a truth value fails when it compares the counter again. -/
theorem evaluate_render_spoilt_counter :
    (0 : Int) ≤ 0 ∧
      ∃ fuel, evaluate fuel 0 false
          ((stmt (.loop (.lessThan (.variable "x") (.number 2))
            (.assign "x" (.lessThan (.variable "x") (.number 5))))).render .clojure)
          [("x", .int 0)]
        = some ⟨.error ⟨.mismatch (.operand .less 1 .bool)⟩, 1⟩ := by
  let env : Environment := ⟨[("x", .int 0)], List.pairwise_singleton _ _⟩
  refine ⟨Int.le_refl 0, ((evaluate_render_iff_yields _ env 0 (Int.le_refl 0)).2 _ 1).mpr ?_⟩
  exact ⟨1, ⟨.less, 1, .bool⟩, .stmtFails (.loopGoesOn rfl (Value.countsTrue_iff.mpr rfl)
    (.assign rfl) (.loopFails rfl)), rfl, rfl⟩

/-- With a cap every evaluation of a rendered program ends. If the program ends after no more
executions of loop bodies than the cap, the evaluation shows how, and has started as many rounds; if
the program completes more executions, the evaluation fails at the first one too many. The largest
integer is no cap, for the counter never passes it. -/
theorem evaluate_render_capped (n : Node Empty) (env : Environment) (cap : Nat) (hcap : 0 < cap)
    (hmax : cap < Int64.maxValue.toInt) :
    ∃ ev, (∀ fuel, n.depth + cap ≤ fuel →
        evaluate fuel cap false (n.render .clojure) env.bindings = some ev) ∧
      (∀ k r, n.Yields env.store k r → k ≤ cap →
        ev = ⟨r.mapError fun t => ⟨t.cause⟩, k⟩) ∧
      (n.Completes env.store (cap + 1) → ev = ⟨.error ⟨.roundLimit cap⟩, cap + 1⟩) ∧
      ((∃ k r, n.Yields env.store k r ∧ k ≤ cap) ∨ n.Completes env.store (cap + 1)) := by
  have hlimit : IsLimit cap := ⟨Int.natCast_pos.mpr hcap, hmax⟩
  by_cases hc : n.Completes env.store (cap + 1)
  · refine ⟨_, fun fuel => evaluate_of_completes hc hlimit, fun k r h hk => ?_, fun _ => rfl,
      Or.inr hc⟩
    have := h.completes_iff.mp hc
    omega
  · have hx := n.evaluate_cases env cap (n.depth + cap)
    generalize evaluate (n.depth + cap) cap false (n.render .clojure) env.bindings = R at hx
    cases hx with
    | @ends k r h hk =>
      have hle := hk hlimit
      have hshown : shownRounds k = k := shownRounds_of_le (by omega)
      refine ⟨_, fun fuel hf => evaluate_of_yields h hk (by omega), fun k' r' h' _ => ?_,
        fun h' => absurd h' hc, Or.inl ⟨k, r, h, by omega⟩⟩
      obtain ⟨rfl, rfl⟩ := h.unique h'
      rw [Evaluation.ofSemantics, hshown]
    | limited h' _ hk =>
      obtain rfl := Int.ofNat_inj.mp hk
      exact absurd h' hc
    | exhausted h' hk hf =>
      have := hk hlimit
      omega

/-- A loop without end is stopped by the cap. -/
theorem evaluate_render_endless :
    0 < 1 ∧ (1 : Int) < Int64.maxValue.toInt ∧
      ∃ fuel, evaluate fuel 1 false ((stmt (.loop (.boolean true) .doNothing)).render .clojure) []
        = some ⟨.error ⟨.roundLimit 1⟩, 2⟩ := by
  let env : Environment := ⟨[], List.Pairwise.nil⟩
  have hmax : (1 : Int) < Int64.maxValue.toInt := by decide
  obtain ⟨ev, hev, -, hlimit, -⟩ :=
    evaluate_render_capped (.stmt (.loop (.boolean true) .doNothing)) env 1 Nat.one_pos hmax
  have htrue : (Value.bool true).CountsTrue := Value.countsTrue_iff.mpr rfl
  have hc := hlimit (.afterBody rfl htrue .doNothing (.afterBody rfl htrue .doNothing .none))
  exact ⟨Nat.one_pos, hmax, _, hc ▸ hev _ (Nat.le_refl _)⟩

end Node

end Denotation
