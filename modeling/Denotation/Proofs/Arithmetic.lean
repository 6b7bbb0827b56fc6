import Mathlib.Tactic
import Denotation.Machine.Builtin

/-!
# Builtins of any number of arguments

`+` and `*` wrap around after every argument. The result is the exact sum or product wrapped around
once, so that neither the order of the arguments nor a grouping into nested calls matters. `<` looks
at its arguments from left to right and stops at the first that is no integer or not greater than
the one before it: which of the two comes first decides between an error and `false`.
-/

namespace Denotation

/-! ## Arguments -/

/-- The value is the first argument that is no integer; positions count from one. -/
def FirstOther (args : List Value) (position : Nat) (v : Value) : Prop :=
  ∃ (ns : List Int64) (rest : List Value),
    args = ns.map .int ++ v :: rest ∧ v.kind ≠ .int ∧ position = ns.length + 1

/-- The integers in front of the first argument that is none. -/
def leadingInts : List Value → List Int64
  | .int n :: rest => n :: leadingInts rest
  | _ => []

/-- An integer is followed by one that is no greater. -/
def Drops (ns : List Int64) : Prop :=
  ∃ i m n, ns[i]? = some m ∧ ns[i + 1]? = some n ∧ n.toInt ≤ m.toInt

/-- Arguments that are grouped into nested calls. -/
inductive Grouping where
  | argument (v : Value)
  | call (parts : List Grouping)

namespace Grouping

mutual

/-- The arguments, without the grouping. -/
def arguments : Grouping → List Value
  | .argument v => [v]
  | .call parts => allArguments parts

/-- The arguments of all parts. -/
def allArguments : List Grouping → List Value
  | [] => []
  | g :: rest => g.arguments ++ allArguments rest

end

mutual

/-- The value of the nested calls, all of one builtin. -/
def value (b : Builtin) : Grouping → Except RunError Value
  | .argument v => .ok v
  | .call parts => do b.apply (← values b parts)

/-- The values of all parts. -/
def values (b : Builtin) : List Grouping → Except RunError (List Value)
  | [] => .ok []
  | g :: rest => return (← g.value b) :: (← values b rest)

end

end Grouping

/-- The builtin gives the total of its arguments, wrapped around once, or refuses the first that is
no integer; neither their order nor a grouping matters. -/
structure Builtin.Totals (b : Builtin) (total : List Int → Int) : Prop where
  /-- The total is exact before it is wrapped around. -/
  exact_total : ∀ ns : List Int64,
    b.apply (ns.map .int) = .ok (.int (Int64.ofInt (total (ns.map Int64.toInt))))
  /-- Only an argument that is no integer is refused, and the first one is named. -/
  refuses : ∀ args e, b.apply args = .error e ↔
    ∃ position v, FirstOther args position v ∧ e = .mismatch (.operand b position v.kind)
  /-- The order does not matter. -/
  reorders : ∀ args args' v, args.Perm args' → (b.apply args = .ok v ↔ b.apply args' = .ok v)
  /-- A grouping does not matter. -/
  groups : ∀ parts v, (Grouping.call parts).value b = .ok v ↔
    b.apply (Grouping.call parts).arguments = .ok v

/-- What `<` makes of its arguments. -/
structure Builtin.Compares (args : List Value) : Prop where
  /-- It holds when they are integers that increase. -/
  holds : Builtin.less.apply args = .ok (.bool true) ↔
    ∃ ns : List Int64, args = ns.map .int ∧ (ns.map Int64.toInt).Pairwise (· < ·)
  /-- It does not hold when they drop before one is met that is no integer. -/
  fails : Builtin.less.apply args = .ok (.bool false) ↔ Drops (leadingInts args)
  /-- Otherwise the first that is no integer is refused. -/
  refuses : ∀ e, Builtin.less.apply args = .error e ↔ ¬ Drops (leadingInts args) ∧
    ∃ position v, FirstOther args position v ∧ e = .mismatch (.operand .less position v.kind)

variable {args : List Value} {ns : List Int64}

/-- Arguments are integers up to the first that is none. -/
theorem ints_or_other (args : List Value) :
    (∃ ns : List Int64, args = ns.map .int) ∨
      ∃ (ns : List Int64) (v : Value) (rest : List Value),
        args = ns.map .int ++ v :: rest ∧ v.kind ≠ .int := by
  induction args with
  | nil => exact .inl ⟨[], rfl⟩
  | cons v args ih =>
    by_cases hv : v.kind = .int
    · obtain ⟨n, rfl⟩ : ∃ n, v = .int n := by
        cases v with
        | int n => exact ⟨n, rfl⟩
        | other k => cases k <;> cases hv
        | _ => cases hv
      rcases ih with ⟨ns, rfl⟩ | ⟨ns, w, rest, rfl, hw⟩
      · exact .inl ⟨n :: ns, rfl⟩
      · exact .inr ⟨n :: ns, w, rest, rfl, hw⟩
    · exact .inr ⟨[], v, args, rfl, hv⟩

theorem leadingInts_map (ns : List Int64) : leadingInts (ns.map .int) = ns := by
  induction ns with
  | nil => rfl
  | cons n ns ih => exact congrArg (n :: ·) ih

theorem leadingInts_other (ns : List Int64) {v : Value} (hv : v.kind ≠ .int) (rest : List Value) :
    leadingInts (ns.map .int ++ v :: rest) = ns := by
  induction ns with
  | nil =>
    cases v with
    | int n => exact absurd rfl hv
    | _ => rfl
  | cons n ns ih => exact congrArg (n :: ·) ih

/-- An argument that is no integer is not among integers. -/
theorem not_firstOther_map {position : Nat} {v : Value} :
    ¬ FirstOther (ns.map .int) position v := by
  rintro ⟨ms, rest, heq, hv, -⟩
  have hmem : v ∈ ns.map Value.int := by simp [heq]
  obtain ⟨n, -, rfl⟩ := List.mem_map.mp hmem
  exact hv rfl

theorem firstOther_iff {w : Value} {rest : List Value} (hw : w.kind ≠ .int) {position : Nat}
    {v : Value} :
    FirstOther (ns.map .int ++ w :: rest) position v ↔ position = ns.length + 1 ∧ v = w := by
  constructor
  · rintro ⟨ms, more, heq, hv, rfl⟩
    have hms : ms = ns := by
      rw [← leadingInts_other ms hv more, ← heq, leadingInts_other ns hw]
    subst hms
    exact ⟨rfl, (List.cons.inj (List.append_cancel_left heq)).1.symm⟩
  · rintro ⟨rfl, rfl⟩
    exact ⟨ns, rest, rfl, hw, rfl⟩

/-! ## Totals -/

namespace Builtin

theorem integers_map (b : Builtin) (n : Nat) (ns : List Int64) :
    b.integers n (ns.map .int) = .ok ns := by
  induction ns generalizing n with
  | nil => rfl
  | cons k ns ih =>
    rw [List.map_cons, integers, ih]
    rfl

theorem integers_other (b : Builtin) (n : Nat) (ns : List Int64) {v : Value} (hv : v.kind ≠ .int)
    (rest : List Value) :
    b.integers n (ns.map .int ++ v :: rest)
      = .error (.mismatch (.operand b (n + ns.length) v.kind)) := by
  induction ns generalizing n with
  | nil =>
    cases v with
    | int k => exact absurd rfl hv
    | _ => rfl
  | cons k ns ih =>
    rw [List.map_cons, List.cons_append, integers, ih, List.length_cons, Nat.add_right_comm]
    rfl

/-- The builtin folds the integers that its arguments are. -/
def Folds (b : Builtin) (op : Int64 → Int64 → Int64) (unit : Int64) : Prop :=
  ∀ args, b.apply args = (b.integers 1 args).map fun ns => .int (ns.foldl op unit)

variable {b : Builtin} {op : Int64 → Int64 → Int64} {unit : Int64} {v : Value}

theorem Folds.apply_map (h : b.Folds op unit) (ns : List Int64) :
    b.apply (ns.map .int) = .ok (.int (ns.foldl op unit)) := by
  rw [h, integers_map]
  rfl

theorem Folds.apply_other (h : b.Folds op unit) (ns : List Int64) (hv : v.kind ≠ .int)
    (rest : List Value) :
    b.apply (ns.map .int ++ v :: rest)
      = .error (.mismatch (.operand b (ns.length + 1) v.kind)) := by
  rw [h, integers_other b 1 ns hv, Nat.add_comm]
  rfl

theorem Folds.eq_ok_iff (h : b.Folds op unit) :
    b.apply args = .ok v ↔ ∃ ns : List Int64, args = ns.map .int ∧ v = .int (ns.foldl op unit) := by
  constructor
  · intro hok
    rcases ints_or_other args with ⟨ns, rfl⟩ | ⟨ns, w, rest, rfl, hw⟩
    · rw [h.apply_map] at hok
      exact ⟨ns, rfl, (Except.ok.inj hok).symm⟩
    · rw [h.apply_other ns hw] at hok
      cases hok
  · rintro ⟨ns, rfl, rfl⟩
    exact h.apply_map ns

theorem Folds.eq_error_iff (h : b.Folds op unit) {e : RunError} :
    b.apply args = .error e ↔
      ∃ position v, FirstOther args position v ∧ e = .mismatch (.operand b position v.kind) := by
  rcases ints_or_other args with ⟨ns, rfl⟩ | ⟨ns, w, rest, rfl, hw⟩
  · rw [h.apply_map]
    constructor
    · intro he
      cases he
    · rintro ⟨position, v, hfirst, -⟩
      exact absurd hfirst not_firstOther_map
  · rw [h.apply_other ns hw]
    constructor
    · intro he
      exact ⟨_, w, (firstOther_iff hw).mpr ⟨rfl, rfl⟩, (Except.error.inj he).symm⟩
    · rintro ⟨position, v, hfirst, rfl⟩
      obtain ⟨rfl, rfl⟩ := (firstOther_iff hw).mp hfirst
      rfl

theorem Folds.reorders [Std.Associative op] [Std.Commutative op] (h : b.Folds op unit)
    {args' : List Value} (hperm : args.Perm args') (hok : b.apply args = .ok v) :
    b.apply args' = .ok v := by
  obtain ⟨ns, rfl, rfl⟩ := h.eq_ok_iff.mp hok
  obtain ⟨ms, rfl⟩ : ∃ ms : List Int64, args' = ms.map .int := by
    refine (ints_or_other args').resolve_right ?_
    rintro ⟨ms, w, rest, rfl, hw⟩
    have hmem : w ∈ ns.map Value.int := hperm.mem_iff.mpr (by simp)
    obtain ⟨n, -, rfl⟩ := List.mem_map.mp hmem
    exact hw rfl
  have hms : ms.Perm ns :=
    (List.map_perm_map_iff fun _ _ heq => Value.int.inj heq).mp hperm.symm
  rw [h.apply_map, hms.foldl_op_eq]

/-! ## Groupings -/

theorem exists_values (parts : List Grouping) (hok : (Grouping.call parts).value b = .ok v) :
    ∃ vs, Grouping.values b parts = .ok vs ∧ b.apply vs = .ok v := by
  rw [Grouping.value] at hok
  cases hvs : Grouping.values b parts with
  | error e => rw [hvs] at hok; cases hok
  | ok vs => exact ⟨vs, rfl, by rwa [hvs] at hok⟩

mutual

/-- Only integers have an integer for their value. -/
theorem Folds.ints_of_value (h : b.Folds op unit) (g : Grouping) {n : Int64}
    (hn : g.value b = .ok (.int n)) : ∃ ns : List Int64, g.arguments = ns.map .int := by
  cases g with
  | argument v =>
    obtain rfl := Except.ok.inj hn
    exact ⟨[n], rfl⟩
  | call parts =>
    obtain ⟨vs, hvs, hn⟩ := exists_values parts hn
    obtain ⟨ms, rfl, -⟩ := h.eq_ok_iff.mp hn
    exact h.ints_of_values parts hvs

theorem Folds.ints_of_values (h : b.Folds op unit) (parts : List Grouping) {ms : List Int64}
    (hms : Grouping.values b parts = .ok (ms.map .int)) :
    ∃ ns : List Int64, Grouping.allArguments parts = ns.map .int := by
  cases parts with
  | nil => exact ⟨[], rfl⟩
  | cons g parts =>
    rw [Grouping.values] at hms
    cases hv : g.value b with
    | error e => rw [hv] at hms; cases hms
    | ok v =>
      cases hvs : Grouping.values b parts with
      | error e => rw [hv, hvs] at hms; cases hms
      | ok vs =>
        rw [hv, hvs] at hms
        have hcons : v :: vs = ms.map .int := Except.ok.inj hms
        obtain ⟨n, rest, rfl, rfl, rfl⟩ := List.map_eq_cons_iff.mp hcons.symm
        obtain ⟨front, hfront⟩ := h.ints_of_value g hv
        obtain ⟨back, hback⟩ := h.ints_of_values parts hvs
        refine ⟨front ++ back, ?_⟩
        rw [Grouping.allArguments, hfront, hback, List.map_append]

end

/-- Integers may be folded before they are joined to others. -/
theorem op_foldl [Std.Associative op] [Std.LawfulIdentity op unit] (n : Int64) (ns : List Int64) :
    op n (ns.foldl op unit) = ns.foldl op n := by
  have hassoc : ns.foldl op (op n unit) = op n (ns.foldl op unit) := List.foldl_assoc
  have hunit : op n unit = n := Std.LawfulRightIdentity.right_id n
  rw [← hassoc, hunit]

mutual

/-- A part made of integers has a value, which counts for its integers. -/
theorem Folds.value_of_ints [Std.Associative op] [Std.LawfulIdentity op unit]
    (h : b.Folds op unit) (g : Grouping) {ns : List Int64} (hns : g.arguments = ns.map .int) :
    ∃ n, g.value b = .ok (.int n) ∧ ∀ m, op m n = ns.foldl op m := by
  cases g with
  | argument v =>
    obtain ⟨n, rfl, rfl⟩ : ∃ n, ns = [n] ∧ .int n = v := by
      simpa [Grouping.arguments, eq_comm, List.map_eq_singleton_iff] using hns
    exact ⟨n, rfl, fun m => rfl⟩
  | call parts =>
    obtain ⟨ms, hms, hfold⟩ := h.values_of_ints parts hns
    refine ⟨ms.foldl op unit, ?_, fun m => (op_foldl m ms).trans (hfold m)⟩
    rw [Grouping.value, hms]
    exact h.apply_map ms

theorem Folds.values_of_ints [Std.Associative op] [Std.LawfulIdentity op unit]
    (h : b.Folds op unit) (parts : List Grouping) {ns : List Int64}
    (hns : Grouping.allArguments parts = ns.map .int) :
    ∃ ms : List Int64, Grouping.values b parts = .ok (ms.map .int) ∧
      ∀ m, ms.foldl op m = ns.foldl op m := by
  cases parts with
  | nil =>
    obtain rfl := List.map_eq_nil_iff.mp hns.symm
    exact ⟨[], rfl, fun m => rfl⟩
  | cons g parts =>
    obtain ⟨front, back, rfl, hfront, hback⟩ := List.map_eq_append_iff.mp hns.symm
    obtain ⟨n, hn, hop⟩ := h.value_of_ints g hfront.symm
    obtain ⟨ms, hms, hfold⟩ := h.values_of_ints parts hback.symm
    refine ⟨n :: ms, ?_, fun m => ?_⟩
    · rw [Grouping.values, hn, hms]
      rfl
    · rw [List.foldl_cons, hfold, hop, List.foldl_append]

end

theorem Folds.groups [Std.Associative op] [Std.LawfulIdentity op unit] (h : b.Folds op unit)
    (parts : List Grouping) :
    (Grouping.call parts).value b = .ok v ↔ b.apply (Grouping.call parts).arguments = .ok v := by
  have hints : ∀ ns : List Int64, Grouping.allArguments parts = ns.map .int →
      (Grouping.call parts).value b = b.apply (Grouping.call parts).arguments := by
    intro ns hns
    obtain ⟨ms, hms, hfold⟩ := h.values_of_ints parts hns
    rw [Grouping.value, hms, Grouping.arguments, hns, h.apply_map, ← hfold]
    exact h.apply_map ms
  constructor
  · intro hok
    obtain ⟨vs, hvs, hv⟩ := exists_values parts hok
    obtain ⟨ms, rfl, rfl⟩ := h.eq_ok_iff.mp hv
    obtain ⟨ns, hns⟩ := h.ints_of_values parts hvs
    rw [← hints ns hns, hok]
  · intro hok
    obtain ⟨ns, hns, -⟩ := h.eq_ok_iff.mp hok
    rw [hints ns hns, hok]

/-! ## Exact totals -/

/-- Wrapping around after every step comes to the same as wrapping around once. -/
theorem foldl_eq_ofInt [Std.Associative op] [Std.Commutative op] {exactOp : Int → Int → Int}
    (hop : ∀ m n, Int64.ofInt (exactOp m n) = op (Int64.ofInt m) (Int64.ofInt n)) (m : Int)
    (ns : List Int64) :
    ns.foldl op (Int64.ofInt m) = Int64.ofInt ((ns.map Int64.toInt).foldr exactOp m) := by
  induction ns with
  | nil => rfl
  | cons n ns ih =>
    have hassoc : ns.foldl op (op n (Int64.ofInt m)) = op n (ns.foldl op (Int64.ofInt m)) :=
      List.foldl_assoc
    have hcomm : op (Int64.ofInt m) n = op n (Int64.ofInt m) := Std.Commutative.comm _ _
    calc (n :: ns).foldl op (Int64.ofInt m)
      _ = ns.foldl op (op n (Int64.ofInt m)) := by rw [List.foldl_cons, hcomm]
      _ = op (Int64.ofInt n.toInt) (Int64.ofInt ((ns.map Int64.toInt).foldr exactOp m)) := by
        rw [hassoc, ih, Int64.ofInt_toInt]
      _ = Int64.ofInt (((n :: ns).map Int64.toInt).foldr exactOp m) := (hop _ _).symm

theorem Folds.totals [Std.Associative op] [Std.Commutative op] [Std.LawfulIdentity op unit]
    (h : b.Folds op unit) {total : List Int → Int}
    (htotal : ∀ ns : List Int64,
      ns.foldl op unit = Int64.ofInt (total (ns.map Int64.toInt))) :
    b.Totals total where
  exact_total ns := by rw [h.apply_map, htotal]
  refuses _ _ := h.eq_error_iff
  reorders _ _ _ hperm := ⟨h.reorders hperm, h.reorders hperm.symm⟩
  groups parts _ := h.groups parts

theorem totals_add : add.Totals List.sum := by
  have h : add.Folds (· + ·) 0 := fun args => rfl
  refine h.totals fun ns => ?_
  rw [List.sum_eq_foldr]
  exact foldl_eq_ofInt Int64.ofInt_add 0 ns

theorem totals_multiply : multiply.Totals List.prod := by
  have h : multiply.Folds (· * ·) 1 := fun args => rfl
  refine h.totals fun ns => ?_
  rw [List.prod_eq_foldr]
  exact foldl_eq_ofInt Int64.ofInt_mul 1 ns

/-! ## Comparisons -/

variable {prev : Int64}

/-- Integers that increase are passed over. -/
theorem increasing_of_chain (n : Nat) (h : (prev :: ns).IsChain (· < ·)) (rest : List Value) :
    ∃ last, increasing n prev (ns.map .int ++ rest) = increasing (n + ns.length) last rest := by
  induction ns generalizing n prev with
  | nil => exact ⟨prev, rfl⟩
  | cons k ns ih =>
    obtain ⟨hk, hns⟩ := List.isChain_cons_cons.mp h
    obtain ⟨last, hlast⟩ := ih (n + 1) hns
    refine ⟨last, ?_⟩
    rw [List.map_cons, List.cons_append, increasing, if_pos hk, hlast, List.length_cons,
      Nat.add_right_comm]
    rfl

/-- Integers that do not increase are the end of it, whatever follows. -/
theorem increasing_of_not_chain (n : Nat) (h : ¬ (prev :: ns).IsChain (· < ·))
    (rest : List Value) : increasing n prev (ns.map .int ++ rest) = .ok false := by
  induction ns generalizing n prev with
  | nil => exact absurd (List.isChain_singleton prev) h
  | cons k ns ih =>
    rw [List.map_cons, List.cons_append, increasing]
    by_cases hk : prev < k
    · rw [if_pos hk]
      exact ih (n + 1) fun hns => h (List.isChain_cons_cons.mpr ⟨hk, hns⟩)
    · rw [if_neg hk]

theorem drops_iff : Drops ns ↔ ¬ ns.IsChain (· < ·) := by
  rw [List.isChain_iff_getElem]
  constructor
  · rintro ⟨i, m, n, hm, hn, hle⟩ hchain
    obtain ⟨hi, rfl⟩ := List.getElem?_eq_some_iff.mp hn
    obtain ⟨_, rfl⟩ := List.getElem?_eq_some_iff.mp hm
    exact absurd hle (Int.not_le.mpr (Int64.lt_iff_toInt_lt.mp (hchain i hi)))
  · intro h
    push Not at h
    obtain ⟨i, hi, hle⟩ := h
    refine ⟨i, _, _, List.getElem?_eq_getElem (by omega), List.getElem?_eq_getElem hi, ?_⟩
    exact Int.not_lt.mp fun hlt => absurd (Int64.lt_iff_toInt_lt.mpr hlt) hle

theorem increase_iff : (ns.map Int64.toInt).Pairwise (· < ·) ↔ ns.IsChain (· < ·) := by
  rw [← List.isChain_iff_pairwise, List.isChain_map]
  simp only [Int64.lt_iff_toInt_lt]

theorem less_of_drops (h : Drops (leadingInts args)) : less.apply args = .ok (.bool false) := by
  obtain ⟨ns, rest, rfl, hns⟩ :
      ∃ ns rest, args = ns.map .int ++ rest ∧ leadingInts args = ns := by
    rcases ints_or_other args with ⟨ns, rfl⟩ | ⟨ns, v, rest, rfl, hv⟩
    · exact ⟨ns, [], (List.append_nil _).symm, leadingInts_map ns⟩
    · exact ⟨ns, v :: rest, rfl, leadingInts_other ns hv rest⟩
  rw [hns, drops_iff] at h
  cases ns with
  | nil => exact absurd List.isChain_nil h
  | cons k ns =>
    show (increasing 2 k (ns.map .int ++ rest)).map Value.bool = _
    rw [increasing_of_not_chain 2 h]
    rfl

theorem less_of_chain (hne : ns ≠ []) (h : ns.IsChain (· < ·)) :
    less.apply (ns.map .int) = .ok (.bool true) := by
  obtain ⟨k, ns, rfl⟩ := List.exists_cons_of_ne_nil hne
  obtain ⟨last, hlast⟩ := increasing_of_chain 2 h []
  rw [List.append_nil] at hlast
  show (increasing 2 k (ns.map .int)).map Value.bool = _
  rw [hlast]
  rfl

theorem less_of_other (h : ns.IsChain (· < ·)) {v : Value} (hv : v.kind ≠ .int)
    (rest : List Value) :
    less.apply (ns.map .int ++ v :: rest)
      = .error (.mismatch (.operand .less (ns.length + 1) v.kind)) := by
  -- the first argument and the later ones are checked in two places
  cases ns with
  | nil =>
    cases v with
    | int n => exact absurd rfl hv
    | _ => rfl
  | cons k ns =>
    obtain ⟨last, hlast⟩ := increasing_of_chain 2 h (v :: rest)
    show (increasing 2 k (ns.map .int ++ v :: rest)).map Value.bool = _
    rw [hlast, List.length_cons, show ns.length + 1 + 1 = 2 + ns.length by omega]
    cases v with
    | int n => exact absurd rfl hv
    | _ => rfl

theorem compares (hne : args ≠ []) : Compares args := by
  by_cases hdrops : Drops (leadingInts args)
  · have happly := less_of_drops hdrops
    refine ⟨?_, by simp [happly, hdrops], fun e => by simp [happly, hdrops]⟩
    refine ⟨fun h => by simp [happly] at h, ?_⟩
    rintro ⟨ns, rfl, hns⟩
    rw [leadingInts_map, drops_iff] at hdrops
    exact absurd (increase_iff.mp hns) hdrops
  rcases ints_or_other args with ⟨ns, rfl⟩ | ⟨ns, v, rest, rfl, hv⟩
  · rw [leadingInts_map, drops_iff, not_not] at hdrops
    have happly := less_of_chain (fun h => hne (by rw [h]; rfl)) hdrops
    refine ⟨?_, ?_, fun e => ?_⟩
    · simpa [happly] using ⟨ns, rfl, increase_iff.mpr hdrops⟩
    · simp [happly, leadingInts_map, drops_iff, hdrops]
    · simp [happly, not_firstOther_map]
  · rw [leadingInts_other ns hv, drops_iff, not_not] at hdrops
    have happly := less_of_other hdrops hv rest
    refine ⟨?_, ?_, fun e => ?_⟩
    · refine ⟨fun h => by simp [happly] at h, ?_⟩
      rintro ⟨ms, hms, -⟩
      exact absurd (hms ▸ (firstOther_iff hv).mpr ⟨rfl, rfl⟩) not_firstOther_map
    · simp [happly, leadingInts_other ns hv, drops_iff, hdrops]
    · simp [happly, leadingInts_other ns hv, drops_iff, hdrops, firstOther_iff hv, eq_comm]

/-- `+` and `*` give the exact sum and product wrapped around once, in every order and grouping, or
name the first argument that is no integer; `<` on at least one argument holds, does not hold or
names that argument, whichever its arguments show first. -/
theorem totals_and_compares :
    (add.Totals List.sum ∧ add.apply [] = .ok (.int 0)) ∧
      (multiply.Totals List.prod ∧ multiply.apply [] = .ok (.int 1)) ∧
      ∀ first rest, Compares (first :: rest) :=
  ⟨⟨totals_add, rfl⟩, ⟨totals_multiply, rfl⟩, fun _ _ => compares (List.cons_ne_nil _ _)⟩

end Builtin

end Denotation
