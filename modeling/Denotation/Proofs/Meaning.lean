import Mathlib.Logic.Function.Basic
import Denotation.Machine.Value
import Denotation.Simple.Tree

/-!
# The meaning of programs

A big-step semantics of Simple that knows nothing of targets and machines. An expression has a value
in a store, unless an operator meets an operand that is no integer. A statement changes the store;
`Stmt.Ends` relates it to the store or the error it ends with and to the number of executions of
loop bodies that were completed on the way, and relates nothing to a statement that runs for ever.

A condition holds unless its value is nil or false, and need not be a truth value.

`Stmt.Completes` counts the completed executions of a run that need not end. A run that ends has
completed every number up to its total and no more.
-/

namespace Denotation

/-- The values of variables; a variable may have none. -/
abbrev Store := Text → Option Value

/-- An operand that is no integer. -/
structure TypeError where
  /-- The operator. -/
  operator : Builtin
  /-- Which operand of the operator it is, counted from one. -/
  position : Nat
  /-- What it is instead. -/
  kind : Kind
  deriving DecidableEq, Repr

/-- The integers that the operands of an operator are; the left one is looked at first. -/
def operands (op : Builtin) : Value → Value → Except TypeError (Int64 × Int64)
  | .int m, .int n => .ok (m, n)
  | .int _, r => .error ⟨op, 2, r.kind⟩
  | l, _ => .error ⟨op, 1, l.kind⟩

/-- The value of an expression. Both operands are evaluated, the left one first, before the operator
looks at them. -/
def Expr.value (ρ : Store) : Expr Empty → Except TypeError Value
  | .variable name => .ok ((ρ name).getD .nil)
  | .number n => .ok (.int n)
  | .boolean b => .ok (.bool b)
  | .add l r => do
    let v ← l.value ρ
    let w ← r.value ρ
    let (m, n) ← operands .add v w
    return .int (m + n)
  | .multiply l r => do
    let v ← l.value ρ
    let w ← r.value ρ
    let (m, n) ← operands .multiply v w
    return .int (m * n)
  | .lessThan l r => do
    let v ← l.value ρ
    let w ← r.value ρ
    let (m, n) ← operands .less v w
    return .bool (m < n)

/-- The value counts as true. -/
def Value.CountsTrue (v : Value) : Prop := v ≠ .nil ∧ v ≠ .bool false

/-- The machine takes the same values for true. -/
theorem Value.countsTrue_iff {v : Value} : v.CountsTrue ↔ v.isTruthy = true := by
  cases v with
  | nil => exact ⟨fun h => absurd rfl h.1, fun h => by cases h⟩
  | bool b =>
    cases b with
    | false => exact ⟨fun h => absurd rfl h.2, fun h => by cases h⟩
    | true => exact ⟨fun _ => rfl, fun _ => ⟨by simp, by simp⟩⟩
  | _ => exact ⟨fun _ => rfl, fun _ => ⟨by simp, by simp⟩⟩

/-- The statement, run in the store, ends with the result after the given number of completed
executions of loop bodies. -/
inductive Stmt.Ends : Stmt Empty → Store → Nat → Except TypeError Store → Prop where
  | doNothing {ρ : Store} : Ends .doNothing ρ 0 (.ok ρ)
  | assign {name : Text} {e : Expr Empty} {ρ : Store} {v : Value} (he : e.value ρ = .ok v) :
      Ends (.assign name e) ρ 0 (.ok (Function.update ρ name (some v)))
  | assignFails {name : Text} {e : Expr Empty} {ρ : Store} {t : TypeError}
      (he : e.value ρ = .error t) : Ends (.assign name e) ρ 0 (.error t)
  | sequence {a b : Stmt Empty} {ρ ρ' : Store} {j k : Nat} {r : Except TypeError Store}
      (ha : Ends a ρ j (.ok ρ')) (hb : Ends b ρ' k r) : Ends (.sequence a b) ρ (j + k) r
  | sequenceFails {a b : Stmt Empty} {ρ : Store} {k : Nat} {t : TypeError}
      (ha : Ends a ρ k (.error t)) : Ends (.sequence a b) ρ k (.error t)
  | branchTrue {c : Expr Empty} {a b : Stmt Empty} {ρ : Store} {v : Value} {k : Nat}
      {r : Except TypeError Store} (hc : c.value ρ = .ok v) (hv : v.CountsTrue)
      (ha : Ends a ρ k r) : Ends (.branch c a b) ρ k r
  | branchFalse {c : Expr Empty} {a b : Stmt Empty} {ρ : Store} {v : Value} {k : Nat}
      {r : Except TypeError Store} (hc : c.value ρ = .ok v) (hv : ¬ v.CountsTrue)
      (hb : Ends b ρ k r) : Ends (.branch c a b) ρ k r
  | branchFails {c : Expr Empty} {a b : Stmt Empty} {ρ : Store} {t : TypeError}
      (hc : c.value ρ = .error t) : Ends (.branch c a b) ρ 0 (.error t)
  | loopStops {c : Expr Empty} {a : Stmt Empty} {ρ : Store} {v : Value} (hc : c.value ρ = .ok v)
      (hv : ¬ v.CountsTrue) : Ends (.loop c a) ρ 0 (.ok ρ)
  | loopGoesOn {c : Expr Empty} {a : Stmt Empty} {ρ ρ' : Store} {v : Value} {j k : Nat}
      {r : Except TypeError Store} (hc : c.value ρ = .ok v) (hv : v.CountsTrue)
      (ha : Ends a ρ j (.ok ρ')) (hl : Ends (.loop c a) ρ' k r) :
      Ends (.loop c a) ρ (j + 1 + k) r
  | loopBodyFails {c : Expr Empty} {a : Stmt Empty} {ρ : Store} {v : Value} {k : Nat}
      {t : TypeError}
      (hc : c.value ρ = .ok v) (hv : v.CountsTrue) (ha : Ends a ρ k (.error t)) :
      Ends (.loop c a) ρ k (.error t)
  | loopFails {c : Expr Empty} {a : Stmt Empty} {ρ : Store} {t : TypeError}
      (hc : c.value ρ = .error t) : Ends (.loop c a) ρ 0 (.error t)

/-- The statement, run in the store, completes at least the given number of executions of loop
bodies, whether it ends or not. -/
inductive Stmt.Completes : Stmt Empty → Store → Nat → Prop where
  | none {s : Stmt Empty} {ρ : Store} : Completes s ρ 0
  | first {a b : Stmt Empty} {ρ : Store} {k : Nat} (ha : Completes a ρ k) :
      Completes (.sequence a b) ρ k
  | second {a b : Stmt Empty} {ρ ρ' : Store} {j k : Nat} (ha : a.Ends ρ j (.ok ρ'))
      (hb : Completes b ρ' k) : Completes (.sequence a b) ρ (j + k)
  | branchTrue {c : Expr Empty} {a b : Stmt Empty} {ρ : Store} {v : Value} {k : Nat}
      (hc : c.value ρ = .ok v) (hv : v.CountsTrue) (ha : Completes a ρ k) :
      Completes (.branch c a b) ρ k
  | branchFalse {c : Expr Empty} {a b : Stmt Empty} {ρ : Store} {v : Value} {k : Nat}
      (hc : c.value ρ = .ok v) (hv : ¬ v.CountsTrue) (hb : Completes b ρ k) :
      Completes (.branch c a b) ρ k
  | inBody {c : Expr Empty} {a : Stmt Empty} {ρ : Store} {v : Value} {k : Nat}
      (hc : c.value ρ = .ok v) (hv : v.CountsTrue) (ha : Completes a ρ k) :
      Completes (.loop c a) ρ k
  | afterBody {c : Expr Empty} {a : Stmt Empty} {ρ ρ' : Store} {v : Value} {j k : Nat}
      (hc : c.value ρ = .ok v) (hv : v.CountsTrue) (ha : a.Ends ρ j (.ok ρ'))
      (hl : Completes (.loop c a) ρ' k) : Completes (.loop c a) ρ (j + 1 + k)

namespace Stmt

variable {s : Stmt Empty} {ρ : Store} {j k : Nat} {r : Except TypeError Store}

/-- A statement ends in one way only. -/
theorem Ends.unique (h : s.Ends ρ k r) : ∀ {k' r'}, s.Ends ρ k' r' → k = k' ∧ r = r' := by
  induction h with
  | doNothing =>
    intro k' r' h'
    cases h'
    exact ⟨rfl, rfl⟩
  | assign he | assignFails he | branchFails he | loopFails he =>
    intro k' r' h'
    cases h' <;> grind
  | sequence ha hb iha ihb =>
    intro k' r' h'
    cases h' with
    | sequence ha' hb' =>
      obtain ⟨rfl, hρ⟩ := iha ha'
      obtain rfl := Except.ok.inj hρ
      obtain ⟨rfl, rfl⟩ := ihb hb'
      exact ⟨rfl, rfl⟩
    | sequenceFails ha' => exact absurd (iha ha').2 (by simp)
  | sequenceFails ha iha =>
    intro k' r' h'
    cases h' with
    | sequence ha' hb' => exact absurd (iha ha').2 (by simp)
    | sequenceFails ha' => exact iha ha'
  | branchTrue hc hv hs ih | branchFalse hc hv hs ih =>
    intro k' r' h'
    cases h' <;> grind
  | loopStops hc hv =>
    intro k' r' h'
    cases h' <;> grind
  | loopGoesOn hc hv ha hl iha ihl =>
    intro k' r' h'
    cases h' with
    | loopGoesOn hc' hv' ha' hl' =>
      obtain ⟨rfl, hρ⟩ := iha ha'
      obtain rfl := Except.ok.inj hρ
      obtain ⟨rfl, rfl⟩ := ihl hl'
      exact ⟨rfl, rfl⟩
    | loopBodyFails hc' hv' ha' => exact absurd (iha ha').2 (by simp)
    | loopStops hc' hv' | loopFails hc' => grind
  | loopBodyFails hc hv ha iha =>
    intro k' r' h'
    cases h' with
    | loopGoesOn hc' hv' ha' hl' => exact absurd (iha ha').2 (by simp)
    | loopBodyFails hc' hv' ha' => exact iha ha'
    | loopStops hc' hv' | loopFails hc' => grind

/-- A run that ends has completed every number of executions up to its total. -/
theorem Ends.completes (h : s.Ends ρ k r) : ∀ {j}, j ≤ k → s.Completes ρ j := by
  induction h with
  | doNothing | assign | assignFails | branchFails | loopStops | loopFails =>
    intro j hj
    obtain rfl := Nat.le_zero.mp hj
    exact .none
  | @sequence a b ρ ρ' i k r ha hb iha ihb =>
    intro j hj
    by_cases hi : j ≤ i
    · exact .first (iha hi)
    · have hb' := Completes.second ha (ihb (j := j - i) (by omega))
      rwa [show i + (j - i) = j by omega] at hb'
  | sequenceFails ha iha => exact fun hj => .first (iha hj)
  | branchTrue hc hv ha ih => exact fun hj => .branchTrue hc hv (ih hj)
  | branchFalse hc hv hb ih => exact fun hj => .branchFalse hc hv (ih hj)
  | @loopGoesOn c a ρ ρ' v i k r hc hv ha hl iha ihl =>
    intro j hj
    by_cases hi : j ≤ i
    · exact .inBody hc hv (iha hi)
    · have hl' := Completes.afterBody hc hv ha (ihl (j := j - (i + 1)) (by omega))
      rwa [show i + 1 + (j - (i + 1)) = j by omega] at hl'
  | loopBodyFails hc hv ha iha => exact fun hj => .inBody hc hv (iha hj)

/-- A run that ends completes no more executions than its total. -/
theorem Ends.le_of_completes (h : s.Ends ρ k r) : ∀ {j}, s.Completes ρ j → j ≤ k := by
  induction h with
  | doNothing | assign | assignFails =>
    intro j hj
    cases hj
    exact Nat.le_refl 0
  | branchFails hc | loopFails hc =>
    intro j hj
    cases hj <;> grind
  | sequence ha hb iha ihb =>
    intro j hj
    cases hj with
    | none => exact Nat.zero_le _
    | first ha' => exact Nat.le_add_right_of_le (iha ha')
    | second ha' hb' =>
      obtain ⟨rfl, hρ⟩ := ha.unique ha'
      obtain rfl := Except.ok.inj hρ
      exact Nat.add_le_add_left (ihb hb') _
  | sequenceFails ha iha =>
    intro j hj
    cases hj with
    | none => exact Nat.zero_le _
    | first ha' => exact iha ha'
    | second ha' hb' => exact absurd (ha.unique ha').2 (by simp)
  | branchTrue hc hv hs ih | branchFalse hc hv hs ih =>
    intro j hj
    cases hj <;> grind
  | loopStops hc hv =>
    intro j hj
    cases hj <;> grind
  | loopGoesOn hc hv ha hl iha ihl =>
    intro j hj
    cases hj with
    | none => exact Nat.zero_le _
    | inBody hc' hv' ha' =>
      have := iha ha'
      omega
    | afterBody hc' hv' ha' hl' =>
      obtain ⟨rfl, hρ⟩ := ha.unique ha'
      obtain rfl := Except.ok.inj hρ
      exact Nat.add_le_add_left (ihl hl') _
  | loopBodyFails hc hv ha iha =>
    intro j hj
    cases hj with
    | none => exact Nat.zero_le _
    | inBody hc' hv' ha' => exact iha ha'
    | afterBody hc' hv' ha' hl' => exact absurd (ha.unique ha').2 (by simp)

end Stmt

end Denotation
