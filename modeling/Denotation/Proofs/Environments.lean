import Mathlib.Tactic
import Denotation.Proofs.Meaning

/-!
# Environments

Bindings in the order of their names are maps: binding a name changes the value of that name and no
other, keeps the order, and two bindings in order that give every name the same value are the same.
An environment is a list of bindings in order.
-/

namespace Denotation

theorem Text.before_iff_lt (s t : Text) : Text.before s t = true ↔ s < t := by
  induction s generalizing t with
  | nil => cases t <;> simp [Text.before]
  | cons a s ih =>
    cases t with
    | nil => simp [Text.before]
    | cons b t => simp [Text.before, ih, List.cons_lt_cons_iff]

namespace Bindings

/-- The values that bindings give to variables. -/
def store (b : Bindings) : Store := fun name => b.find? name

/-- The names are in order, each bound once. -/
def Ordered (b : Bindings) : Prop := b.Pairwise fun p q => p.1 < q.1

variable {b b' : Bindings}

theorem store_cons (k : Text) (v : Value) (b : Bindings) :
    store ((k, v) :: b) = Function.update b.store k (some v) := by
  funext name
  by_cases h : k = name
  · subst h
    simp [store, find?]
  · rw [Function.update_of_ne (Ne.symm h)]
    simp [store, find?, h]

/-- Binding a name changes the value of that name and no other. -/
theorem store_insert (name : Text) (v : Value) (b : Bindings) :
    store (b.insert name v) = Function.update b.store name (some v) := by
  fun_induction insert name v b with
  | case1 => exact store_cons name v []
  | case2 k w b h =>
    obtain rfl := beq_iff_eq.mp h
    rw [store_cons, store_cons, Function.update_idem]
  | case3 k w b h hlt => rw [store_cons]
  | case4 k w b h hlt ih =>
    have hne : k ≠ name := fun hk => h (beq_iff_eq.mpr hk.symm)
    rw [store_cons, store_cons, ih, Function.update_comm hne]

theorem mem_insert {p : Text × Value} {name : Text} {v : Value} (h : p ∈ b.insert name v) :
    p = (name, v) ∨ p ∈ b := by
  fun_induction insert name v b with
  | case1 => exact Or.inl (List.mem_singleton.mp h)
  | case2 k w b _ => exact (List.mem_cons.mp h).imp_right (List.mem_cons_of_mem _)
  | case3 k w b _ _ => exact List.mem_cons.mp h
  | case4 k w b _ _ ih =>
    rcases List.mem_cons.mp h with h | h
    · exact Or.inr (h ▸ List.mem_cons_self)
    · exact (ih h).imp_right (List.mem_cons_of_mem _)

theorem lt_of_not_before {s t : Text} (hne : s ≠ t) (h : ¬ Text.before s t = true) : t < s := by
  rw [Text.before_iff_lt] at h
  by_contra h'
  exact hne (Std.Trichotomous.trichotomous s t h h')

/-- Binding a name keeps the order. -/
theorem Ordered.insert (h : b.Ordered) (name : Text) (v : Value) : (b.insert name v).Ordered := by
  fun_induction Bindings.insert name v b with
  | case1 => exact List.pairwise_singleton _ _
  | case2 k w b hk =>
    obtain rfl := beq_iff_eq.mp hk
    exact List.pairwise_cons.mpr (List.pairwise_cons.mp h)
  | case3 k w b _ hlt =>
    have hlt := (Text.before_iff_lt name k).mp hlt
    refine List.pairwise_cons.mpr ⟨fun q hq => ?_, h⟩
    rcases List.mem_cons.mp hq with rfl | hq
    · exact hlt
    · exact List.lt_trans hlt ((List.pairwise_cons.mp h).1 q hq)
  | case4 k w b hne hnot ih =>
    obtain ⟨hk, hb⟩ := List.pairwise_cons.mp h
    refine List.pairwise_cons.mpr ⟨fun q hq => ?_, ih hb⟩
    rcases mem_insert hq with rfl | hq
    · exact lt_of_not_before (fun hn => hne (beq_iff_eq.mpr hn)) hnot
    · exact hk q hq

theorem find?_eq_none_of_lt {name : Text} (h : ∀ p ∈ b, name < p.1) : b.find? name = none := by
  induction b with
  | nil => rfl
  | cons p b ih =>
    obtain ⟨k, w⟩ := p
    have hk : k ≠ name := by
      rintro rfl
      exact List.lt_irrefl k (h (k, w) List.mem_cons_self)
    simp only [find?, beq_iff_eq, if_neg hk]
    exact ih fun q hq => h q (List.mem_cons_of_mem _ hq)

theorem mem_of_find? {name : Text} {v : Value} (h : b.find? name = some v) : (name, v) ∈ b := by
  induction b with
  | nil => cases h
  | cons p b ih =>
    obtain ⟨k, w⟩ := p
    rw [find?] at h
    split at h
    · rename_i hk
      obtain rfl := beq_iff_eq.mp hk
      exact Option.some.inj h ▸ List.mem_cons_self
    · exact List.mem_cons_of_mem _ (ih h)

theorem Ordered.find?_of_mem (h : b.Ordered) {p : Text × Value} (hp : p ∈ b) :
    b.find? p.1 = some p.2 := by
  induction b with
  | nil => cases hp
  | cons q b ih =>
    obtain ⟨hlt, hb⟩ := List.pairwise_cons.mp h
    rcases List.mem_cons.mp hp with rfl | hp
    · simp [find?]
    · have hne : q.1 ≠ p.1 := fun heq => List.lt_irrefl p.1 (heq ▸ hlt p hp)
      simp only [find?, beq_iff_eq, hne, if_false]
      exact ih hb hp

/-- A bound name is no smaller than the first name. -/
theorem Ordered.not_lt_head {k name : Text} {v w : Value} (h : Ordered ((k, v) :: b))
    (hf : find? name ((k, v) :: b) = some w) : ¬ name < k := by
  intro hlt
  have hnone : find? name ((k, v) :: b) = none := by
    refine find?_eq_none_of_lt fun p hp => ?_
    rcases List.mem_cons.mp hp with rfl | hp
    · exact hlt
    · exact List.lt_trans hlt ((List.pairwise_cons.mp h).1 p hp)
  rw [hnone] at hf
  cases hf

/-- Bindings in order are determined by the values that they give to variables. -/
theorem Ordered.eq_of_store (h : b.Ordered) (h' : b'.Ordered) (heq : b.store = b'.store) :
    b = b' := by
  induction b generalizing b' with
  | nil =>
    cases b' with
    | nil => rfl
    | cons q b' => simpa [store, find?] using congrFun heq q.1
  | cons p b ih =>
    obtain ⟨k, v⟩ := p
    cases b' with
    | nil => simpa [store, find?] using congrFun heq k
    | cons q b' =>
      obtain ⟨k', v'⟩ := q
      have hk : find? k ((k', v') :: b') = some v := by
        simpa [store, find?] using (congrFun heq k).symm
      have hk' : find? k' ((k, v) :: b) = some v' := by simpa [store, find?] using congrFun heq k'
      obtain rfl : k = k' :=
        Std.Trichotomous.trichotomous k k' (h'.not_lt_head hk) (h.not_lt_head hk')
      obtain rfl : v' = v := by simpa [find?] using hk
      obtain ⟨hlt, hb⟩ := List.pairwise_cons.mp h
      obtain ⟨hlt', hb'⟩ := List.pairwise_cons.mp h'
      rw [ih hb hb']
      funext name
      -- the two tails give no value to the first name, and agree with the wholes elsewhere
      by_cases hname : name = k
      · subst hname
        rw [store, store, find?_eq_none_of_lt hlt, find?_eq_none_of_lt hlt']
      · have := congrFun heq name
        rwa [store_cons, store_cons, Function.update_of_ne hname,
          Function.update_of_ne hname] at this

end Bindings

/-- A map from names to values. -/
structure Environment where
  /-- The names with their values. -/
  bindings : Bindings
  /-- The names are in order. -/
  ordered : bindings.Ordered

/-- The values of variables in an environment. -/
def Environment.store (env : Environment) : Store := env.bindings.store

/-! ## Programs -/

/-- The program, run in the store, ends with a value or a type error after the given number of
completed executions of loop bodies. The value of a statement is the environment that it leaves. -/
inductive Node.Yields : Node Empty → Store → Nat → Except TypeError Value → Prop where
  | expr {e : Expr Empty} {ρ : Store} : Yields (.expr e) ρ 0 (e.value ρ)
  | stmt {s : Stmt Empty} {ρ : Store} {k : Nat} {env : Environment}
      (h : s.Ends ρ k (.ok env.store)) :
      Yields (.stmt s) ρ k (.ok (.map env.bindings))
  | stmtFails {s : Stmt Empty} {ρ : Store} {k : Nat} {t : TypeError} (h : s.Ends ρ k (.error t)) :
      Yields (.stmt s) ρ k (.error t)

/-- The program, run in the store, completes at least the given number of executions of loop bodies,
whether it ends or not. -/
def Node.Completes : Node Empty → Store → Nat → Prop
  | .expr _, _, k => k = 0
  | .stmt s, ρ, k => s.Completes ρ k

namespace Node

variable {n : Node Empty} {ρ : Store} {j k k' : Nat} {r r' : Except TypeError Value}

/-- A program ends in one way only. -/
theorem Yields.unique (h : n.Yields ρ k r) (h' : n.Yields ρ k' r') : k = k' ∧ r = r' := by
  cases h with
  | expr =>
    cases h'
    exact ⟨rfl, rfl⟩
  | @stmt s _ _ env h =>
    cases h' with
    | @stmt _ _ _ env' h' =>
      obtain ⟨hk, hs⟩ := h.unique h'
      have hb := env.ordered.eq_of_store env'.ordered (Except.ok.inj hs)
      exact ⟨hk, by rw [hb]⟩
    | stmtFails h' => exact absurd (h.unique h').2 (by simp)
  | stmtFails h =>
    cases h' with
    | stmt h' => exact absurd (h.unique h').2 (by simp)
    | stmtFails h' =>
      obtain ⟨hk, hs⟩ := h.unique h'
      exact ⟨hk, by rw [Except.error.inj hs]⟩

/-- A program that ends completes as many executions as its total, and no more. -/
theorem Yields.completes_iff (h : n.Yields ρ k r) : n.Completes ρ j ↔ j ≤ k := by
  cases h with
  | expr => exact Nat.le_zero.symm
  | stmt h => exact ⟨h.le_of_completes, h.completes⟩
  | stmtFails h => exact ⟨h.le_of_completes, h.completes⟩

end Node

end Denotation
