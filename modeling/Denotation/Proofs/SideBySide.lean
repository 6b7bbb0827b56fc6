import Denotation.Proofs.Counters
import Denotation.Proofs.SoundWorlds

/-!
# Runs side by side

Forms that match, evaluated in scopes where the names that belong together are related, come to
related outcomes. One lemma per function of the machine says so, given the same of the evaluator for
the forms inside; `World.eval_abreast` puts them together by induction on the fuel.

Evaluation leaves the frames that are there as they are: the world after it is steady. The only frames
that grow are those of the loops that are being set up, see `World.bindShared_linked`.
-/

namespace Denotation

namespace World

/-! ## Results -/

/-- The two results agree: both fail alike, both run out of fuel, or both end with what is related in
a world that may come to be. -/
inductive Agree {α β : Type} (F : World → Prop) (A : World → α → β → Prop) :
    Result α → Result β → Prop where
  | ok {w : World} {a : α} {a' : β} {m m' : Machine} (hw : F w) (hm : w.Holds m m') (ha : A w a a') :
      Agree F A (.ok a m) (.ok a' m')
  | error {e : RunError} {m m' : Machine} (hrounds : m.rounds = m'.rounds) :
      Agree F A (.error e m) (.error e m')
  | exhausted : Agree F A .exhausted .exhausted

/-- On machines of this world the two computations agree, and no frame grows. -/
def Sim {α β : Type} (w : World) (A : World → α → β → Prop) (x : Run α) (x' : Run β) : Prop :=
  ∀ m m', w.Holds m m' → Agree w.Steady A (x m) (x' m')

/-- The values are related. -/
def RelValue (w : World) (v v' : Value) : Prop := w.Rel (.value v v')

def RelValues (w : World) (vs vs' : List Value) : Prop := w.Rel (.values vs vs')

/-- The outcomes are related. -/
inductive RelOutcome (w : World) : Outcome → Outcome → Prop where
  | value {v v' : Value} (h : w.Rel (.value v v')) : RelOutcome w (.value v) (.value v')
  | recur {vs vs' : List Value} (h : w.Rel (.values vs vs')) : RelOutcome w (.recur vs) (.recur vs')

/-- Both are the same failure, or the values are related. -/
inductive RelExcept (w : World) : Except RunError Value → Except RunError Value → Prop where
  | ok {v v' : Value} (h : w.Rel (.value v v')) : RelExcept w (.ok v) (.ok v')
  | error {e : RunError} : RelExcept w (.error e) (.error e)

section
variable {α α' β β' : Type} {w : World} {F G : World → Prop} {A B : World → α → α' → Prop}
  {C : World → β → β' → Prop}

theorem Agree.mono {r : Result α} {r' : Result α'} (h : Agree F A r r') (hF : ∀ w, F w → G w)
    (hA : ∀ w a a', F w → A w a a' → B w a a') : Agree G B r r' := by
  cases h with
  | ok hw hm ha => exact .ok (hF _ hw) hm (hA _ _ _ hw ha)
  | error hrounds => exact .error hrounds
  | exhausted => exact .exhausted

theorem Agree.bind {x : Run α} {x' : Run α'} {f : α → Run β} {f' : α' → Run β'} {m m' : Machine}
    (h : Agree F A (x m) (x' m'))
    (hf : ∀ w a a' m m', F w → A w a a' → w.Holds m m' → Agree G C (f a m) (f' a' m')) :
    Agree G C ((x >>= f) m) ((x' >>= f') m') := by
  simp only [Bind.bind, Run.bind]
  generalize x m = r at h
  generalize x' m' = r' at h
  cases h with
  | ok hw hm ha => exact hf _ _ _ _ _ hw ha hm
  | error hrounds => exact .error hrounds
  | exhausted => exact .exhausted

theorem Sim.bind {x : Run α} {x' : Run α'} {f : α → Run β} {f' : α' → Run β'} (h : w.Sim A x x')
    (hf : ∀ w' a a', w.Steady w' → A w' a a' → w'.Sim C (f a) (f' a')) :
    w.Sim C (x >>= f) (x' >>= f') := by
  intro m m' hm
  refine (h m m' hm).bind fun w' a a' m m' hw' ha hm' => ?_
  exact (hf w' a a' hw' ha m m' hm').mono (fun _ => hw'.trans) fun _ _ _ _ hc => hc

theorem Sim.pure {a : α} {a' : α'} (h : A w a a') : w.Sim A (Pure.pure a) (Pure.pure a') :=
  fun _ _ hm => .ok (.refl w) hm h

theorem Sim.fail (e : RunError) : w.Sim A (Run.fail e) (Run.fail e) :=
  fun _ _ hm => .error hm.rounds

theorem Sim.ofExcept {x x' : Except RunError Value} (h : w.RelExcept x x') :
    w.Sim RelValue (Run.ofExcept x) (Run.ofExcept x') := by
  cases h with
  | ok h => exact Sim.pure h
  | error => exact Sim.fail _

/-- Both machines count the round, and either may refuse it. -/
theorem sim_startRound {arity : Nat} {args args' : List Value} (h : args.length = args'.length) :
    w.Sim (fun _ _ _ => args.length = arity) (startRound arity args) (startRound arity args') := by
  by_cases hlength : args.length = arity
  · intro m m' hm
    have hcounter : (m.after 1).counter = (m'.after 1).counter := by
      simp only [Machine.after, hm.counter]
    have hrounds : (m.after 1).rounds = (m'.after 1).rounds := congrArg Int64.toInt hcounter
    have hclearance : (m.after 1).clearance = (m'.after 1).clearance :=
      Machine.clearance_congr hm.cap hrounds hm.cancelled
    rw [startRound_of_count hlength, startRound_of_count (h ▸ hlength), hclearance]
    cases (m'.after 1).clearance with
    | error e => exact .error hrounds
    | ok _ =>
      exact .ok (.refl w) ⟨hm.left, hm.right, hm.cap, hcounter, hm.cancelled, hm.sound⟩ hlength
  · rw [startRound_of_miscount hlength, startRound_of_miscount (h ▸ hlength), h]
    exact Sim.fail _

end

/-! ## Names -/

section
variable {w : World} {m m' : Machine} {y y' : Text} {scope scope' : Scope} {lasting : Bool}

theorem lookup_own (m : Machine) (b : Bindings) :
    m.lookup (.own b :: scope) y = (b.find? y).or (m.lookup scope y) := by
  rw [Machine.lookup, Option.orElse_eq_orElse, Option.orElse_eq_or]

theorem lookup_shared {i : Nat} {b : Bindings} (h : m.frames[i]? = some b) :
    m.lookup (.shared i :: scope) y = (b.find? y).or (m.lookup scope y) := by
  rw [Machine.lookup, h, Option.bind_some, Option.orElse_eq_orElse, Option.orElse_eq_or]

theorem Opens.lookup {frame : Frame} {b : Bindings} (h : w.Opens lasting y frame b)
    (hm : w.Holds m m') : m.lookup (frame :: scope) y = (b.find? y).or (m.lookup scope y) := by
  cases h with
  | own => exact lookup_own m b
  | gap hk hb => exact lookup_shared (by rw [hm.left, hb])

/-- Names that are related have related values, or they are one name that has none. -/
theorem Rel.lookup (hm : w.Holds m m') (h : w.Rel (.name lasting y scope y' scope')) :
    (∃ v v', m.lookup scope y = some v ∧ m'.lookup scope' y' = some v' ∧ w.Rel (.value v v'))
      ∨ y = y' ∧ m.lookup scope y = none ∧ m'.lookup scope' y' = none := by
  generalize hitem : Item.name lasting y scope y' scope' = item at h
  induction h generalizing y y' scope scope' with
  | @builtin lasting y =>
    cases hitem
    rw [Machine.lookup, Machine.lookup]
    cases Builtin.ofName? y with
    | none => exact Or.inr ⟨rfl, rfl, rfl⟩
    | some b => exact Or.inl ⟨.builtin b, .builtin b, rfl, rfl, .flat rfl⟩
  | found hopens h h' hv =>
    cases hitem
    refine Or.inl ⟨_, _, ?_, ?_, hv⟩
    · rw [hopens.lookup hm, h, Option.some_or]
    · rw [lookup_own, h', Option.some_or]
  | missed hopens h h' houter ih =>
    cases hitem
    rw [hopens.lookup hm, h, Option.none_or, lookup_own, h', Option.none_or]
    exact ih rfl
  | @linkedFound lasting y i i' b scope scope' hlink hb hy =>
    cases hitem
    obtain ⟨c, c', hc, hc', hframed⟩ := hm.sound.linked i i' hlink
    cases hb.symm.trans hc
    have hunder : NameRel.under (fun _ _ => False) (sameNames (b.map Prod.fst)) y y :=
      NameRel.under_sameNames_iff.mpr (Or.inl ⟨rfl, hy⟩)
    rcases hframed.find hunder with ⟨v, v', h, h', hv⟩ | ⟨-, -, hfalse⟩
    · refine Or.inl ⟨v, v', ?_, ?_, hv⟩
      · rw [lookup_shared (hm.left ▸ hb), h, Option.some_or]
      · rw [lookup_shared (hm.right ▸ hc'), h', Option.some_or]
    · exact hfalse.elim
  | @linkedMissed lasting y y' i i' b scope scope' hlink hb hy hy' hlast houter ih =>
    cases hitem
    obtain ⟨c, c', hc, hc', hframed⟩ := hm.sound.linked i i' hlink
    cases hb.symm.trans hc
    have hkeys : c'.map Prod.fst = b.map Prod.fst := by
      rw [hframed.names', sameNames, List.map_map]
      exact List.map_id _
    have h : b.find? y = none := Bindings.find?_eq_none_iff.mpr hy
    have h' : c'.find? y' = none := Bindings.find?_eq_none_iff.mpr (hkeys ▸ hy')
    rw [lookup_shared (hm.left ▸ hb), h, Option.none_or, lookup_shared (hm.right ▸ hc'), h',
      Option.none_or]
    exact ih rfl
  | _ => cases hitem

end

/-! ## Builtins -/

section
variable {w : World} {v v' k k' : Value} {vs vs' : List Value} {b b' : Bindings}

theorem Rel.text_iff (h : w.Rel (.value v v')) (t : Text) : v = .text t ↔ v' = .text t := by
  constructor <;> rintro rfl <;> cases h <;> rfl

theorem Rel.int_iff (h : w.Rel (.value v v')) (n : Int64) : v = .int n ↔ v' = .int n := by
  constructor <;> rintro rfl <;> cases h <;> rfl

theorem integers_of_not_int (op : Builtin) (i : Nat) (h : ∀ n, v ≠ .int n) :
    op.integers i (v :: vs) = .error (.mismatch (.operand op i v.kind)) := by
  cases v with
  | int n => exact absurd rfl (h n)
  | _ => rfl

theorem Rel.integers (h : w.Rel (.values vs vs')) (op : Builtin) (i : Nat) :
    op.integers i vs = op.integers i vs' := by
  induction vs generalizing vs' i with
  | nil =>
    cases h
    rfl
  | cons v vs ih =>
    cases h with
    | @cons _ v' _ vs' hv hvs =>
      by_cases hint : ∃ n, v = .int n
      · obtain ⟨n, rfl⟩ := hint
        cases (hv.int_iff n).mp rfl
        rw [Builtin.integers, Builtin.integers, ih hvs]
      · have hint' : ∀ n, v' ≠ .int n := fun n hn => hint ⟨n, (hv.int_iff n).mpr hn⟩
        rw [integers_of_not_int op i fun n hn => hint ⟨n, hn⟩, integers_of_not_int op i hint', hv.kind]

theorem increasing_of_not_int (i : Nat) (prev : Int64) (h : ∀ n, v ≠ .int n) :
    Builtin.increasing i prev (v :: vs) = .error (.mismatch (.operand .less i v.kind)) := by
  cases v with
  | int n => exact absurd rfl (h n)
  | _ => rfl

theorem Rel.increasing (h : w.Rel (.values vs vs')) (i : Nat) (prev : Int64) :
    Builtin.increasing i prev vs = Builtin.increasing i prev vs' := by
  induction vs generalizing vs' i prev with
  | nil =>
    cases h
    rfl
  | cons v vs ih =>
    cases h with
    | @cons _ v' _ vs' hv hvs =>
      by_cases hint : ∃ n, v = .int n
      · obtain ⟨n, rfl⟩ := hint
        cases (hv.int_iff n).mp rfl
        rw [Builtin.increasing, Builtin.increasing, ih hvs]
      · have hint' : ∀ n, v' ≠ .int n := fun n hn => hint ⟨n, (hv.int_iff n).mpr hn⟩
        rw [increasing_of_not_int i prev fun n hn => hint ⟨n, hn⟩,
          increasing_of_not_int i prev hint', hv.kind]

theorem Rel.applyLess (h : w.Rel (.values vs vs')) :
    w.RelExcept (Builtin.applyLess vs) (Builtin.applyLess vs') := by
  cases h with
  | nil => exact .error
  | @cons v v' vs vs' hv hvs =>
    have hless : ∀ {v : Value} {vs : List Value}, (∀ n, v ≠ .int n) →
        Builtin.applyLess (v :: vs) = .error (.mismatch (.operand .less 1 v.kind)) := by
      intro v vs h
      cases v with
      | int n => exact absurd rfl (h n)
      | _ => rfl
    by_cases hint : ∃ n, v = .int n
    · obtain ⟨n, rfl⟩ := hint
      cases (hv.int_iff n).mp rfl
      rw [Builtin.applyLess, Builtin.applyLess, hvs.increasing]
      cases Builtin.increasing 2 n vs' with
      | error e => exact .error
      | ok b => exact .ok (.flat rfl)
    · rw [hless fun n hn => hint ⟨n, hn⟩, hless fun n hn => hint ⟨n, (hv.int_iff n).mpr hn⟩, hv.kind]
      exact .error

/-- A value is a map or not, on both sides. -/
theorem Rel.entries (h : w.Rel (.value v v')) :
    (∃ b b', v.entries? = some b ∧ v'.entries? = some b' ∧ w.Rel (.value (.map b) (.map b')))
      ∨ v.entries? = none ∧ v'.entries? = none := by
  cases h with
  | flat h =>
    cases v with
    | unset => exact Or.inl ⟨[], [], rfl, rfl, .map rfl .nil⟩
    | map entries => cases h
    | _ => exact Or.inr ⟨rfl, rfl⟩
  | map hkeys h => exact Or.inl ⟨_, _, rfl, rfl, .map hkeys h⟩
  | _ => exact Or.inr ⟨rfl, rfl⟩

theorem Rel.find (h : w.Rel (.value (.map b) (.map b'))) (y : Text) :
    w.Rel (.value ((b.find? y).getD .nil) ((b'.find? y).getD .nil)) := by
  cases h with
  | flat h => cases h
  | map hkeys hvalues =>
    have hy : NameRel.under (fun _ _ => True) (sameNames (b.map Prod.fst)) y y :=
      NameRel.under_sameNames_self trivial
    rcases (framed_of_keys hkeys hvalues).find hy with ⟨v, v', h, h', hv⟩ | ⟨h, h', -⟩
    · rwa [h, h']
    · rw [h, h']
      exact .flat rfl

theorem Rel.insert (h : w.Rel (.value (.map b) (.map b'))) (y : Text) (hv : w.Rel (.value v v')) :
    w.Rel (.value (.map (b.insert y v)) (.map (b'.insert y v'))) := by
  cases h with
  | flat h => cases h
  | map hkeys hvalues =>
    have hframed := framed_of_keys hkeys hvalues
    have hinsert : ∃ names, w.Framed (sameNames names) (b.insert y v) (b'.insert y v') := by
      clear hkeys hvalues
      generalize b.map Prod.fst = names at hframed
      induction names generalizing b b' with
      | nil =>
        cases hframed
        exact ⟨[y], .cons hv .nil⟩
      | cons n names ih =>
        cases hframed with
        | cons hu hrest =>
          rw [Bindings.insert, Bindings.insert]
          split
          · exact ⟨y :: names, .cons hv hrest⟩
          split
          · exact ⟨y :: n :: names, .cons hv (.cons hu hrest)⟩
          · obtain ⟨later, hlater⟩ := ih hrest
            exact ⟨n :: later, .cons hu hlater⟩
    obtain ⟨names, hnames⟩ := hinsert
    refine .map ?_ hnames.values
    rw [hnames.names, hnames.names', sameNames, List.map_map, List.map_map]
    rfl

theorem Rel.assocAll (h : w.Rel (.value (.map b) (.map b'))) (hvs : w.Rel (.values vs vs')) :
    w.RelExcept ((Builtin.assocAll b vs).map .map) ((Builtin.assocAll b' vs').map .map) := by
  fun_induction Builtin.assocAll b vs generalizing b' vs' with
  | case1 b t v rest ih =>
    cases hvs with
    | cons ht hvs =>
      cases hvs with
      | cons hv hrest =>
        cases (ht.text_iff t).mp rfl
        rw [Builtin.assocAll]
        exact ih (h.insert t hv) hrest
  | case2 b k v rest hkey =>
    cases hvs with
    | @cons _ k' _ _ hk hvs =>
      cases hvs with
      | cons hv hrest =>
        have hkey' : ∀ t, k' = .text t → False := fun t ht => hkey t ((hk.text_iff t).mpr ht)
        rw [Builtin.assocAll, hk.kind]
        · exact .error
        · exact hkey'
  | case3 b vs hpair hother =>
    cases hvs with
    | nil => exact .ok h
    | @cons _ k' _ _ hk hvs =>
      cases hvs with
      | nil =>
        have hsingle : Builtin.assocAll b' [k'] = .ok b' := by cases k' <;> rfl
        rw [hsingle]
        exact .ok h
      | cons hv hrest => exact absurd rfl (hother _ _ _)

theorem applyGet_of_not_text (hb : v.entries? = some b) (h : ∀ t, k ≠ .text t) :
    Builtin.applyGet [v, k] = .error (.mismatch (.key k.kind)) := by
  rw [Builtin.applyGet, hb]
  cases k with
  | text t => exact absurd rfl (h t)
  | _ => rfl

theorem Rel.applyGet (h : w.Rel (.values vs vs')) :
    w.RelExcept (Builtin.applyGet vs) (Builtin.applyGet vs') := by
  cases h with
  | nil => exact .error
  | cons hm hvs =>
    cases hvs with
    | nil => exact .error
    | @cons k k' _ _ hk hvs =>
      cases hvs with
      | cons hv hvs =>
        have hlength := hvs.length_eq
        simp only [Builtin.applyGet, List.length_cons, hlength]
        exact .error
      | nil =>
        rcases hm.entries with ⟨b, b', hb, hb', hmap⟩ | ⟨hb, hb'⟩
        · by_cases htext : ∃ t, k = .text t
          · obtain ⟨t, rfl⟩ := htext
            cases (hk.text_iff t).mp rfl
            rw [Builtin.applyGet, Builtin.applyGet, hb, hb']
            exact .ok (hmap.find t)
          · rw [applyGet_of_not_text hb fun t ht => htext ⟨t, ht⟩,
              applyGet_of_not_text hb' fun t ht => htext ⟨t, (hk.text_iff t).mpr ht⟩, hk.kind]
            exact .error
        · rw [Builtin.applyGet, Builtin.applyGet, hb, hb', hm.kind]
          exact .error

theorem Rel.applyAssoc (h : w.Rel (.values vs vs')) :
    w.RelExcept (Builtin.applyAssoc vs) (Builtin.applyAssoc vs') := by
  cases h with
  | nil => exact .error
  | @cons v v' vs vs' hv hvs =>
    unfold Builtin.applyAssoc
    simp only [← hvs.length_eq]
    split
    · exact .error
    cases hv with
    | flat h =>
      cases v with
      | nil => exact Rel.assocAll (.map rfl .nil) hvs
      | unset => exact Rel.assocAll (.map rfl .nil) hvs
      | map entries => cases h
      | _ => exact .error
    | map hkeys h => exact Rel.assocAll (.map hkeys h) hvs
    | _ => exact .error

theorem Rel.apply (h : w.Rel (.values vs vs')) (op : Builtin) :
    w.RelExcept (op.apply vs) (op.apply vs') := by
  cases op with
  | get => exact h.applyGet
  | assoc => exact h.applyAssoc
  | add =>
    rw [Builtin.apply, Builtin.apply, h.integers]
    cases Builtin.add.integers 1 vs' with
    | error e => exact .error
    | ok ns => exact .ok (.flat rfl)
  | multiply =>
    rw [Builtin.apply, Builtin.apply, h.integers]
    cases Builtin.multiply.integers 1 vs' with
    | error e => exact .error
    | ok ns => exact .ok (.flat rfl)
  | less => exact h.applyLess

end

/-! ## Evaluators -/

/-- Forms that match have related outcomes in scopes where their names are related. -/
def Abreast (ev : Evaluate) : Prop :=
  ∀ (w : World) (P Q : NameRel) (f f' : Form) (scope scope' : Scope),
    Form.Matches P Q (.form f f') → w.Sees P Q scope scope' →
      w.Sim RelOutcome (ev f scope) (ev f' scope')

section
variable {ev : Evaluate} (hev : Abreast ev) {w : World} {P Q : NameRel} {f f' : Form}
  {fs fs' : List Form} {scope scope' : Scope}

include hev

theorem evalValue_abreast (h : Form.Matches P Q (.form f f')) (hs : w.Sees P Q scope scope') :
    w.Sim RelValue (evalValue ev f scope) (evalValue ev f' scope') := by
  refine (hev w P Q f f' scope scope' h hs).bind fun w' o o' hw ho => ?_
  cases ho with
  | value hv => exact Sim.pure hv
  | recur hvs => exact Sim.fail _

theorem evalArgs_abreast (h : Form.Matches P Q (.forms fs fs')) (hs : w.Sees P Q scope scope') :
    w.Sim RelValues (evalArgs ev scope fs) (evalArgs ev scope' fs') := by
  induction fs generalizing fs' w with
  | nil =>
    cases h
    exact Sim.pure .nil
  | cons f fs ih =>
    cases h with
    | cons hf hfs =>
      rw [evalArgs, evalArgs]
      refine (evalValue_abreast hev hf hs).bind fun w₁ v v' hw₁ hv => ?_
      refine (ih hfs (hs.steady hw₁)).bind fun w₂ vs vs' hw₂ hvs => ?_
      exact Sim.pure (.cons (hv.steady hw₂) hvs)

theorem evalBody_abreast (h : Form.Matches P Q (.forms fs fs')) (hs : w.Sees P Q scope scope') :
    w.Sim RelOutcome (evalBody ev scope fs) (evalBody ev scope' fs') := by
  induction fs generalizing fs' w with
  | nil =>
    cases h
    exact Sim.pure (.value (.flat rfl))
  | cons f fs ih =>
    cases h with
    | cons hf hfs =>
      cases hfs with
      | none => exact hev w P Q _ _ scope scope' hf hs
      | cons hg hgs =>
        refine (evalValue_abreast hev hf hs).bind fun w₁ v v' hw₁ hv => ?_
        exact ih (.cons hg hgs) (hs.steady hw₁)

omit hev in
/-- Bodies that ask for another round go on in step if their rounds do. -/
theorem goOn_abreast {o o' : Outcome} {arity : Nat} {again again' : List Value → Run Value}
    (ho : w.RelOutcome o o')
    (h : ∀ w' vs vs', w.Steady w' → w'.Rel (.values vs vs') → vs.length = arity →
      w'.Sim RelValue (again vs) (again' vs')) :
    w.Sim RelValue (o.goOn arity again) (o'.goOn arity again') := by
  cases ho with
  | value hv => exact Sim.pure hv
  | recur hvs =>
    refine (sim_startRound hvs.length_eq).bind fun w' _ _ hw hlength => ?_
    exact h w' _ _ hw (hvs.steady hw) hlength

omit hev in
/-- The frames of two calls. -/
theorem framed_call (name : Option Text) {params : List Text} {callee callee' : Value}
    {args args' : List Value} (hself : w.Rel (.value callee callee'))
    (hargs : w.Rel (.values args args')) (hlength : args.length = params.length) :
    w.Framed (sameNames (params.reverse ++ name.toList))
      (bindAll (name.toList.map fun n => (n, callee)) params args)
      (bindAll (name.toList.map fun n => (n, callee')) params args') := by
  have hname : w.Framed (sameNames name.toList) (name.toList.map fun n => (n, callee))
      (name.toList.map fun n => (n, callee')) := by
    cases name with
    | none => exact .nil
    | some n => exact .cons hself .nil
  have hbinders : sameNames (params.reverse ++ name.toList)
      = (sameNames params).reverse ++ sameNames name.toList := by
    simp [sameNames]
  have hframed := hname.bindAll hargs (hlength.trans (length_sameNames params).symm)
  rwa [map_fst_sameNames, map_snd_sameNames, ← hbinders] at hframed

/-- Closures that match go round and round in step. -/
theorem callRounds_abreast {name : Option Text} {params : List Text} {body body' : List Form}
    (hbody : Form.Matches (P.under (sameNames (params.reverse ++ name.toList)))
      (Q.under (sameNames (params.reverse ++ name.toList))) (.forms body body'))
    (fuel : Nat) (args args' : List Value) (hs : w.Sees P Q scope scope')
    (hself : w.Rel (.value (.closure name params body scope) (.closure name params body' scope')))
    (hargs : w.Rel (.values args args')) :
    w.Sim RelValue (callRounds ev name params body scope fuel args)
      (callRounds ev name params body' scope' fuel args') := by
  induction fuel generalizing w args args' with
  | zero => exact fun m m' hm => .exhausted
  | succ fuel ih =>
    rw [callRounds_succ, callRounds_succ, ← hargs.length_eq]
    by_cases hlength : args.length = params.length
    · rw [if_neg (not_not_intro hlength), if_neg (not_not_intro hlength)]
      have hframe := framed_call name hself hargs hlength
      refine (evalBody_abreast hev hbody (hs.own hframe)).bind fun w₁ o o' hw₁ ho => ?_
      refine goOn_abreast ho fun w₂ vs vs' hw₂ hvs _ => ?_
      have hw := hw₁.trans hw₂
      exact ih vs vs' (hs.steady hw) (hself.steady hw) hvs
    · rw [if_pos hlength, if_pos hlength]
      exact Sim.fail _

/-- Loops go round and round in step, from frames with their names on. -/
theorem loopRounds_abreast {binders : List (Text × Text)} {body body' : List Form}
    {frame frame' : Frame}
    (hbody : Form.Matches (P.under binders.reverse) (Q.under binders.reverse) (.forms body body'))
    (fuel : Nat) (hs : w.Sees P Q scope scope') (hframe : w.RelFrame binders.reverse frame frame') :
    w.Sim RelValue (loopRounds ev (binders.map Prod.fst) body scope fuel frame)
      (loopRounds ev (binders.map Prod.snd) body' scope' fuel frame') := by
  induction fuel generalizing w frame frame' with
  | zero => exact fun m m' hm => .exhausted
  | succ fuel ih =>
    rw [loopRounds_succ, loopRounds_succ, List.length_map, List.length_map]
    refine (evalBody_abreast hev hbody (hframe.sees hs)).bind fun w₁ o o' hw₁ ho => ?_
    refine goOn_abreast ho fun w₂ vs vs' hw₂ hvs hlength => ?_
    have hnext := Framed.bindAll .nil hvs hlength
    rw [List.append_nil] at hnext
    exact ih (hs.steady (hw₁.trans hw₂)) (.own hnext)

omit hev in
theorem sim_notCallable {v v' : Value} (h : v.display = v'.display) :
    w.Sim RelValue (Run.fail (.notCallable v.display)) (Run.fail (.notCallable v'.display)) := by
  rw [h]
  exact Sim.fail _

theorem applyValue_abreast {callee callee' : Value} {args args' : List Value} (fuel : Nat)
    (h : w.Rel (.value callee callee')) (hargs : w.Rel (.values args args')) :
    w.Sim RelValue (applyValue ev fuel callee args) (applyValue ev fuel callee' args') := by
  have hdisplay := h.display
  cases h with
  | flat h =>
    cases callee with
    | builtin op => exact Sim.ofExcept (hargs.apply op)
    | closure => cases h
    | _ => exact Sim.fail _
  | @closure R name params body body' inner inner' hbody hnames hscope =>
    have hsees : w.Sees R R inner inner' :=
      ⟨fun y y' hy => (hnames y y' hy).now, hnames, hscope⟩
    exact callRounds_abreast hev hbody fuel args args' hsees (.closure hbody hnames hscope) hargs
  | _ => exact sim_notCallable hdisplay

/-! ## Loops -/

omit hev in
/-- Without a name and an initialiser in front, there is nothing to bind or the loop fails. -/
theorem bind_of_not_pair {bindings : List Form}
    (h : ∀ name init rest, bindings = .symbol name :: init :: rest → False) :
    (∃ e, (∀ scope b, bindOwn ev scope b bindings = Run.fail e)
        ∧ ∀ scope i, bindShared ev scope i bindings = Run.fail e)
      ∨ (∀ scope b, bindOwn ev scope b bindings = pure b)
        ∧ ∀ scope i, bindShared ev scope i bindings = pure () := by
  cases bindings with
  | nil => exact Or.inr ⟨fun _ _ => rfl, fun _ _ => rfl⟩
  | cons f bindings =>
    cases bindings with
    | nil => cases f <;> exact Or.inr ⟨fun _ _ => rfl, fun _ _ => rfl⟩
    | cons init rest =>
      cases f with
      | symbol name => exact absurd rfl (h name init rest)
      | _ => exact Or.inl ⟨_, fun _ _ => rfl, fun _ _ => rfl⟩

/-- The initialisers of a loop in step, in frames of their own. -/
theorem bindOwn_abreast {binders : List (Text × Text)} {bindings bindings' : List Form}
    {b b' : Bindings} (hs : w.Sees P Q scope scope') (hb : w.Framed binders b b')
    (h : Form.Matches (P.under binders) (Q.under binders) (.inits bindings bindings')) :
    w.Sim (fun w' bound bound' => w'.Framed
        (((Form.loopNames bindings).zip (Form.loopNames bindings')).reverse ++ binders) bound bound')
      (bindOwn ev scope b bindings) (bindOwn ev scope' b' bindings') := by
  induction bindings using Form.loopNames.induct generalizing w binders b b' bindings' with
  | case1 n init rest ih =>
    cases h with
    | done hdone => exact absurd rfl (hdone n init rest)
    | pair hinit hrest =>
      rw [bindOwn, bindOwn, Form.loopNames, Form.loopNames, List.zip_cons_cons, List.reverse_cons,
        List.append_assoc]
      refine (evalValue_abreast hev hinit (hs.own hb)).bind fun w₁ v v' hw₁ hv => ?_
      exact ih (hs.steady hw₁) (.cons hv (hb.onward hw₁.onward)) hrest
  | case2 bindings hpair =>
    cases h with
    | pair => exact absurd rfl (hpair _ _ _)
    | done =>
      rcases bind_of_not_pair hpair with ⟨e, hfail, -⟩ | ⟨hnone, -⟩
      · rw [hfail, hfail]
        exact Sim.fail e
      · rw [hnone, hnone, Form.loopNames]
        · exact Sim.pure hb
        · exact hpair

omit hev in
theorem extendFrame_linked {names : List Text} {i i' : Nat} {n : Text} {v v' : Value} {m m' : Machine}
    (hm : w.Holds m m') (hlink : (i, i') ∈ w.links) (htodo : w.todo i = n :: names)
    (hv : w.Rel (.value v v')) :
    Agree (· = w.grow i (n, v) names (w.right.modify i' fun b => (n, v') :: b)) (fun _ _ _ => True)
      (extendFrame i n v m) (extendFrame i' n v' m') := by
  refine .ok rfl ⟨?_, ?_, hm.cap, hm.counter, hm.cancelled, hm.sound.growLinked hlink htodo hv⟩ trivial
  · rw [grow, hm.left]
  · rw [grow, hm.right]

/-- The initialisers of a loop in step, in frames that both machines keep. Only these two frames grow:
they were not there in the world before the loop, so all that was related in it still is. -/
theorem bindShared_linked {names : List Text} {i i' : Nat} {w₀ : World}
    {bindings bindings' : List Form} {b : Bindings} {m m' : Machine} (hs : w₀.Sees P Q scope scope')
    (hi : w₀.left.size ≤ i) (hw : w₀.Steady w) (hm : w.Holds m m') (hlink : (i, i') ∈ w.links)
    (hb : w.left[i]? = some b) (htodo : w.todo i = Form.loopNames bindings)
    (hnames : ∀ y ∈ Form.loopNames bindings, y ∈ names)
    (hsame : Form.loopNames bindings' = Form.loopNames bindings)
    (h : Form.Matches (P.under (sameNames (b.map Prod.fst)))
      ((Q.clear names).under (sameNames (b.map Prod.fst))) (.inits bindings bindings')) :
    Agree w₀.Steady
      (fun w' _ _ => w'.RelFrame (sameNames ((Form.loopNames bindings).reverse ++ b.map Prod.fst))
        (.shared i) (.shared i'))
      (bindShared ev scope i bindings m) (bindShared ev scope' i' bindings' m') := by
  induction bindings using Form.loopNames.induct generalizing w b m m' bindings' with
  | case1 n init rest ih =>
    cases h with
    | done hdone => exact absurd rfl (hdone n init rest)
    | @pair _ _ _ n' _ init' _ rest' hinit hrest =>
      rw [Form.loopNames] at htodo hnames
      obtain ⟨rfl, hlaters⟩ := List.cons.inj hsame.symm
      rw [bindShared, bindShared, Form.loopNames, List.reverse_cons, List.append_assoc]
      have hclear : ∀ y ∈ w.todo i, y ∈ names := by rwa [htodo]
      have hsees := (hs.steady hw).linked hlink hb hclear
      refine (evalValue_abreast hev hinit hsees m m' hm).bind fun w₁ v v' m₁ m₁' hw₁ hv hm₁ => ?_
      have hlink₁ := hw₁.links _ hlink
      have htodo₁ : w₁.todo i = n :: Form.loopNames rest :=
        (hw₁.todo i (Array.getElem?_eq_some_iff.mp hb).1).trans htodo
      refine (extendFrame_linked hm₁ hlink₁ htodo₁ hv).bind fun w₂ _ _ m₂ m₂' hw₂ _ hm₂ => ?_
      subst hw₂
      -- the frames have the new name in front, as the later bindings expect
      obtain ⟨hgrow, hbase, hb₂, htodo₂⟩ := grow_spec (hw.trans hw₁) hi (hw₁.left i b hb) htodo₁
      exact ih hbase hm₂ (hgrow.links _ hlink₁) hb₂ htodo₂
        (fun y hy => hnames y (List.mem_cons_of_mem _ hy)) hlaters.symm hrest
  | case2 bindings hpair =>
    have hcomplete : Form.loopNames bindings = [] := by
      rw [Form.loopNames]
      exact hpair
    cases h with
    | pair => exact absurd rfl (hpair _ _ _)
    | done =>
      rcases bind_of_not_pair hpair with ⟨e, -, hfail⟩ | ⟨-, hnone⟩
      · rw [hfail, hfail]
        exact .error hm.rounds
      · rw [hnone, hnone, hcomplete]
        exact .ok hw hm (.linked hlink hb (htodo.trans hcomplete) rfl)

theorem bindLoop_abreast {bindings bindings' : List Form} (hs : w.Sees P Q scope scope')
    (hsame : Form.loopNames bindings' = Form.loopNames bindings)
    (h : Form.Matches P (Q.clear (Form.loopNames bindings)) (.inits bindings bindings')) :
    w.Sim (fun w' => w'.RelFrame (sameNames (Form.loopNames bindings)).reverse)
      (bindLoop ev bindings scope) (bindLoop ev bindings' scope') := by
  have hclosures : Form.anyMakesClosure bindings' = Form.anyMakesClosure bindings := h.sameClosures
  rw [bindLoop, bindLoop, hclosures]
  split
  · intro m m' hm
    have hnew : Agree (fun w' => w' = w.withLink (Form.loopNames bindings))
        (fun _ i i' => i = w.left.size ∧ i' = w.right.size) (newFrame m) (newFrame m') := by
      refine .ok rfl ⟨?_, ?_, hm.cap, hm.counter, hm.cancelled, hm.sound.withLink⟩ ⟨?_, ?_⟩
      · rw [withLink, hm.left]
      · rw [withLink, hm.right]
      · rw [hm.left]
      · rw [hm.right]
    refine hnew.bind fun w₁ i i' m₁ m₁' hw₁ hi hm₁ => ?_
    obtain ⟨rfl, rfl⟩ := hi
    have hsteady : w.Steady w₁ := hw₁ ▸ steady_withLink
    have hlink : (w.left.size, w.right.size) ∈ w₁.links := hw₁ ▸ List.mem_cons_self
    have hb : w₁.left[w.left.size]? = some [] := hw₁ ▸ Array.getElem?_push_size
    have htodo : w₁.todo w.left.size = Form.loopNames bindings := by
      rw [hw₁]
      exact if_pos rfl
    have hbound := bindShared_linked hev hs (Nat.le_refl _) hsteady hm₁ hlink hb htodo
      (fun y hy => hy) hsame h
    refine hbound.bind fun w₂ _ _ m₂ m₂' hw₂ hframe hm₂ => .ok hw₂ hm₂ ?_
    rw [List.map_nil, List.append_nil, sameNames_reverse] at hframe
    exact hframe
  · have hinits := h.mono (fun _ _ hy => hy) fun _ _ hy => hy.1
    refine (bindOwn_abreast hev hs .nil hinits).bind fun w' bound bound' hw hframed => ?_
    rw [hsame, zip_self_eq_sameNames, List.append_nil] at hframed
    exact Sim.pure (.own hframed)

theorem evalLoop_abreast {bindings bindings' body body' : List Form} (fuel : Nat)
    (hs : w.Sees P Q scope scope') (heven : (bindings.length % 2 == 1) = false)
    (hlength : bindings'.length = bindings.length)
    (hsame : Form.loopNames bindings' = Form.loopNames bindings)
    (hinits : Form.Matches P (Q.clear (Form.loopNames bindings)) (.inits bindings bindings'))
    (hbody : Form.Matches (P.under (sameNames (Form.loopNames bindings).reverse))
      (Q.under (sameNames (Form.loopNames bindings).reverse)) (.forms body body')) :
    w.Sim RelValue (evalLoop ev fuel (.vector bindings :: body) scope)
      (evalLoop ev fuel (.vector bindings' :: body') scope') := by
  rw [evalLoop, evalLoop, hlength, heven]
  refine (bindLoop_abreast hev hs hsame hinits).bind fun w' frame frame' hw hframe => ?_
  rw [sameNames_reverse] at hbody
  have hrounds := loopRounds_abreast hev hbody fuel (hs.steady hw) hframe
  rw [hsame]
  rwa [map_fst_sameNames, map_snd_sameNames] at hrounds

/-! ## Forms -/

omit hev in
theorem evalFn_eq_ok {name : Option Text} {names : List Text} {params body : List Form}
    (h : paramNames params = .ok names) :
    evalFn (name.toList.map .symbol ++ .vector params :: body) scope
      = .ok (.closure name names body scope) := by
  have hmake : makeClosure name (.vector params :: body) scope
      = .ok (.closure name names body scope) := by
    rw [makeClosure, h]
    rfl
  cases name with
  | none => exact hmake
  | some n => exact hmake

theorem evalBranch_abreast {rest rest' : List Form} (hs : w.Sees P Q scope scope')
    (h : Form.Matches P Q (.forms rest rest')) :
    w.Sim RelOutcome (evalBranch ev rest scope) (evalBranch ev rest' scope') := by
  have hlength := h.length_eq
  cases h with
  | none => exact Sim.fail _
  | cons htest hrest =>
    cases hrest with
    | none => exact Sim.fail _
    | cons hyes hrest =>
      cases hrest with
      | none =>
        refine (evalValue_abreast hev htest hs).bind fun w' v v' hw hv => ?_
        rw [hv.isTruthy]
        split
        · exact hev _ _ _ _ _ _ _ hyes (hs.steady hw)
        · exact Sim.pure (.value (.flat rfl))
      | cons hno hrest =>
        cases hrest with
        | none =>
          refine (evalValue_abreast hev htest hs).bind fun w' v v' hw hv => ?_
          rw [hv.isTruthy]
          split
          · exact hev _ _ _ _ _ _ _ hyes (hs.steady hw)
          · exact hev _ _ _ _ _ _ _ hno (hs.steady hw)
        | cons hmore hrest =>
          simp only [evalBranch, hlength]
          exact Sim.fail _

theorem evalStep_abreast (fuel : Nat) (h : Form.Matches P Q (.form f f'))
    (hs : w.Sees P Q scope scope') :
    w.Sim RelOutcome (evalStep ev fuel f scope) (evalStep ev fuel f' scope') := by
  cases h with
  | nil => exact Sim.pure (.value (.flat rfl))
  | bool => exact Sim.pure (.value (.flat rfl))
  | int => exact Sim.pure (.value (.flat rfl))
  | text => exact Sim.pure (.value (.flat rfl))
  | symbol h =>
    intro m m' hm
    rcases (hs.now _ _ h).lookup hm with ⟨v, v', hv, hv', hrel⟩ | ⟨rfl, hnone, hnone'⟩
    · simp only [evalStep, hv, hv']
      exact .ok (.refl w) hm (.value hrel)
    · simp only [evalStep, hnone, hnone']
      exact .error hm.rounds
  | vector h =>
    rw [evalStep, evalStep]
    refine (evalArgs_abreast hev h hs).bind fun w' vs vs' hw hvs => ?_
    exact Sim.pure (.value (.vector hvs))
  | empty => exact Sim.pure (.value (.list .nil))
  | call hspecial hspecial' hhead hrest =>
    rw [evalStep, hspecial, evalStep, hspecial']
    refine (evalValue_abreast hev hhead hs).bind fun w₁ callee callee' hw₁ hcallee => ?_
    refine (evalArgs_abreast hev hrest (hs.steady hw₁)).bind fun w₂ args args' hw₂ hargs => ?_
    refine (applyValue_abreast hev fuel (hcallee.steady hw₂) hargs).bind fun w₃ v v' hw₃ hv => ?_
    exact Sim.pure (.value hv)
  | inner hspecial hrest =>
    rcases hspecial with hspecial | hspecial
    · rw [evalStep, hspecial, evalStep, hspecial]
      exact evalBranch_abreast hev hs hrest
    · rw [evalStep, hspecial, evalStep, hspecial]
      refine (evalArgs_abreast hev hrest hs).bind fun w' vs vs' hw hvs => ?_
      exact Sim.pure (.recur hvs)
  | fn hspecial hparams hbody =>
    rw [evalStep, hspecial, evalStep, hspecial, evalFn_eq_ok hparams, evalFn_eq_ok hparams]
    exact Sim.pure (.value (.closure hbody hs.later hs.within))
  | fnFails hspecial h h' =>
    rw [evalStep, hspecial, evalStep, hspecial, h, h']
    exact Sim.fail _
  | loop hspecial heven hlength hsame hinits hbody =>
    rw [evalStep, hspecial, evalStep, hspecial]
    refine (evalLoop_abreast hev fuel hs heven hlength hsame hinits hbody).bind fun w' v v' hw hv => ?_
    exact Sim.pure (.value hv)
  | loopFails hspecial h =>
    rw [evalStep, hspecial, evalStep, hspecial, h, h]
    exact Sim.fail _

end

/-- Forms that match are evaluated in step. -/
theorem eval_abreast (fuel : Nat) : Abreast (eval fuel) := by
  induction fuel with
  | zero => exact fun w P Q f f' scope scope' h hs m m' hm => .exhausted
  | succ fuel ih => exact fun w P Q f f' scope scope' h hs => evalStep_abreast ih fuel h hs

end World

end Denotation
