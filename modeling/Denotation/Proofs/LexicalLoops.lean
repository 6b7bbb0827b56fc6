import Denotation.Proofs.SideBySide

/-!
# Loops and lexical scope

In `(loop [n1 i1 ... nk ik] body ...)` an initialiser is evaluated with the names before it bound. By
lexical scope, a function that it makes would see these names and those around the loop, for good.
The machine keeps one frame for all names of such a loop, and adds to it while functions already hold
it: a function sees its own name and the later ones too, once they are bound.

`evalLexically` is the loop by lexical scope. The machine comes to the same if no initialiser makes a
function that uses free its own name or a later one, and in that case a name of the loop may also be
renamed. The machine with its growing frame and the run with copies go side by side, the frame being
the gap of their world.
-/

namespace Denotation

/-! ## What can be told apart -/

/-- The outcome without the insides of closures. -/
def Outcome.erase : Outcome → Outcome
  | .value v => .value v.erase
  | .recur args => .recur (Value.eraseAll args)

/-- What can be seen of a result: the outcome or the failure, and the rounds; `none` if the fuel ran
out. -/
def Result.observed : Result Outcome → Option (Except RunError Outcome × Int)
  | .ok o m => some (.ok o.erase, m.rounds)
  | .error e m => some (.error e, m.rounds)
  | .exhausted => none

/-- Whatever a program goes on to do with the value, the two computations look the same: they fail
alike, or any form that has the value under a name comes to the same. -/
def Run.Indistinct (m : Machine) (x x' : Run Value) : Prop :=
  ∀ (outer : Scope) (more : Nat) (name : Text) (g : Form), Frame.AllWithin m.frames.size outer →
    ((x >>= fun v => eval more g (.own [(name, v)] :: outer)) m).observed
      = ((x' >>= fun v => eval more g (.own [(name, v)] :: outer)) m).observed

/-- Evaluates a loop by lexical scope: each initialiser has a copy of the names before it. -/
def evalLexically (fuel : Nat) (bindings : List (Text × Form)) (body : List Form) (scope : Scope) :
    Run Value := do
  let bound ← bindOwn (eval fuel) scope [] (Form.pairs bindings)
  loopRounds (eval fuel) (bindings.map Prod.fst) body scope fuel (.own bound)

namespace World

theorem Agree.observed {F : World → Prop} {r r' : Result Outcome} (h : Agree F RelOutcome r r') :
    r.observed = r'.observed := by
  cases h with
  | ok hw hm ho =>
    rw [Result.observed, Result.observed, hm.rounds]
    cases ho with
    | value hv => rw [Outcome.erase, Outcome.erase, hv.erase]
    | recur hvs => rw [Outcome.erase, Outcome.erase, hvs.seen.1]
  | error hrounds => rw [Result.observed, Result.observed, hrounds]
  | exhausted => rfl

/-- Computations that go side by side cannot be told apart. -/
theorem Sim.indistinct {m : Machine} {x x' : Run Value} (hm : m.Closed)
    (h : (diagonal m.frames).Sim RelValue x x') : Run.Indistinct m x x' := by
  intro outer more name g houter
  have hrun : (diagonal m.frames).Sim RelOutcome
      (x >>= fun v => eval more g (.own [(name, v)] :: outer))
      (x' >>= fun v => eval more g (.own [(name, v)] :: outer)) := by
    refine h.bind fun w v v' hw hv => ?_
    have hsame : ∀ y, NameRel.under Eq (sameNames [name]) y y := fun y =>
      NameRel.under_sameNames_self rfl
    have hmatches := g.matches_self (fun y _ => hsame y) fun y _ => hsame y
    have hframe : w.Framed [(name, name)] [(name, v)] [(name, v')] := .cons hv .nil
    have hsees := ((sees_self houter).steady hw).own hframe
    exact eval_abreast more _ _ _ _ _ _ _ hmatches hsees
  exact (hrun m m (holds_self hm)).observed

/-- A closed machine stays closed, and the value refers to its frames only: nothing that a program does
leads to a frame that is not there. So what is said of loops on closed machines applies after any run
of a program. -/
theorem closed_of_eval {m m' : Machine} {scope : Scope} {fuel : Nat} {f : Form} {v : Value}
    (hm : m.Closed) (hscope : Frame.AllWithin m.frames.size scope)
    (h : eval fuel f scope m = .ok (.value v) m') :
    m'.Closed ∧ m.frames.size ≤ m'.frames.size ∧ v.Within m'.frames.size := by
  have hmatches := f.matches_self (fun y _ => Eq.refl y) fun y _ => Eq.refl y
  have hagree := eval_abreast fuel _ _ _ _ _ _ _ hmatches (sees_self hscope) m m (holds_self hm)
  rw [h] at hagree
  cases hagree with
  | ok hw hm' ho =>
    cases ho with
    | value hv =>
      refine ⟨hm'.closed, ?_, ?_⟩
      · rw [hm'.left]
        exact hw.size
      · rw [hm'.left]
        exact hv.seen.2

end World

/-! ## One loop with a frame and one with copies -/

/-- Loop bindings that match one by one, where the functions that an initialiser makes use no name
that the first loop is yet to bind. The names may differ. -/
inductive Rebinds : List (Text × Text) → List Form → List Form → Prop where
  | done {binders : List (Text × Text)} {bindings : List Form}
      (h : ∀ name init rest, bindings = .symbol name :: init :: rest → False) :
      Rebinds binders bindings bindings
  | pair {binders : List (Text × Text)} {n n' : Text} {init init' : Form} {rest rest' : List Form}
      (hinit : Form.Matches (NameRel.under Eq binders)
        (fun y y' => y ∉ n :: Form.loopNames rest ∧ NameRel.under Eq binders y y') (.form init init'))
      (hrest : Rebinds ((n, n') :: binders) rest rest') :
      Rebinds binders (.symbol n :: init :: rest) (.symbol n' :: init' :: rest')

theorem Rebinds.matches {binders : List (Text × Text)} {bindings bindings' : List Form}
    (h : Rebinds binders bindings bindings') :
    Form.Matches (NameRel.under Eq binders) (NameRel.under Eq binders) (.inits bindings bindings') := by
  induction h with
  | done h => exact .done h
  | pair hinit hrest ih => exact .pair (hinit.mono (fun _ _ hy => hy) fun _ _ hy => hy.2) ih

theorem Rebinds.length_eq {binders : List (Text × Text)} {bindings bindings' : List Form}
    (h : Rebinds binders bindings bindings') :
    (Form.loopNames bindings).length = (Form.loopNames bindings').length := by
  induction h with
  | done h => rfl
  | pair hinit hrest ih => rw [Form.loopNames, Form.loopNames, List.length_cons, List.length_cons, ih]

namespace World

section
variable {ev : Evaluate} (hev : Abreast ev) {w w₀ : World} {scope scope' : Scope}
  {bindings bindings' body body' : List Form}

theorem extendFrame_gap {names : List Text} {k : Nat} {n : Text} {v : Value} {m m' : Machine}
    (hm : w.Holds m m') (hk : w.gap = some k) (htodo : w.todo k = n :: names)
    (hv : v.Within w.left.size) :
    Agree (· = w.grow k (n, v) names w.right) (fun _ _ _ => True) (extendFrame k n v m)
      ((pure () : Run Unit) m') := by
  refine .ok rfl ⟨?_, hm.right, hm.cap, hm.counter, hm.cancelled, hm.sound.growGap hk htodo hv⟩ trivial
  rw [grow, hm.left]

include hev

/-- The initialisers of a loop in step, in a frame that only the first machine keeps. -/
theorem bindShared_gap {k : Nat} {binders : List (Text × Text)} {b b' : Bindings} {m m' : Machine}
    (hs : w₀.Sees Eq Eq scope scope') (hk₀ : w₀.left.size ≤ k) (hw : w₀.Steady w)
    (hm : w.Holds m m') (hk : w.gap = some k) (hb : w.left[k]? = some b)
    (htodo : w.todo k = Form.loopNames bindings) (hframed : w.Framed binders b b')
    (h : Rebinds binders bindings bindings') :
    Agree w₀.Steady
      (fun w' _ bound' => w'.RelFrame
        (((Form.loopNames bindings).zip (Form.loopNames bindings')).reverse ++ binders) (.shared k)
        (.own bound'))
      (bindShared ev scope k bindings m) (bindOwn ev scope' b' bindings' m') := by
  induction h generalizing w b b' m m' with
  | @pair binders n n' init init' rest rest' hinit hrest ih =>
    rw [Form.loopNames] at htodo
    rw [bindShared, bindOwn, Form.loopNames, Form.loopNames, List.zip_cons_cons, List.reverse_cons,
      List.append_assoc]
    have hsees := (hs.steady hw).gap hk hb hframed
    rw [htodo] at hsees
    refine (evalValue_abreast hev hinit hsees m m' hm).bind fun w₁ v v' m₁ m₁' hw₁ hv hm₁ => ?_
    have hk₁ := hw₁.gap k hk
    have htodo₁ : w₁.todo k = n :: Form.loopNames rest :=
      (hw₁.todo k (Array.getElem?_eq_some_iff.mp hb).1).trans htodo
    have hextend := extendFrame_gap hm₁ hk₁ htodo₁ hv.seen.2
    -- while the first machine adds to its frame, the second run goes on with a longer copy
    rw [← pure_bind () fun _ => bindOwn ev scope' ((n', v') :: b') rest']
    refine hextend.bind fun w₂ _ _ m₂ m₂' hw₂ _ hm₂ => ?_
    subst hw₂
    obtain ⟨hgrow, hbase, hb₂, htodo₂⟩ := grow_spec (hw.trans hw₁) hk₀ (hw₁.left k b hb) htodo₁
    have hv₂ := hv.onward hgrow (Or.inl trivial)
    have hframed₂ := hframed.onward (hw₁.onward.trans hgrow)
    exact ih hbase hm₂ (hgrow.gap k hk₁) hb₂ htodo₂ (.cons hv₂ hframed₂)
  | @done binders bindings hpair =>
    have hcomplete : Form.loopNames bindings = [] := by
      rw [Form.loopNames]
      exact hpair
    rcases bind_of_not_pair hpair with ⟨e, hown, hshared⟩ | ⟨hown, hshared⟩
    · rw [hown, hshared]
      exact .error hm.rounds
    · rw [hown, hshared, hcomplete]
      exact .ok hw hm (.gap hk hb (htodo.trans hcomplete) hframed)

/-- The frame of a loop with the first values of its names, made by the machine and by lexical
scope. -/
theorem bindLoop_gap (hs : w.Sees Eq Eq scope scope') (hgap : w.gap = none)
    (h : Rebinds [] bindings bindings') :
    w.Sim (fun w' frame bound' => w'.RelFrame
        ((Form.loopNames bindings).zip (Form.loopNames bindings')).reverse frame (.own bound'))
      (bindLoop ev bindings scope) (bindOwn ev scope' [] bindings') := by
  have hown : bindOwn ev scope' [] bindings' = bindOwn ev scope' [] bindings' >>= pure :=
    (bind_pure _).symm
  rw [bindLoop, hown]
  split
  · intro m m' hm
    have hnew : Agree (fun w' => w' = w.withGap (Form.loopNames bindings))
        (fun _ i _ => i = w.left.size) (newFrame m) ((pure () : Run Unit) m') := by
      refine .ok rfl ⟨?_, hm.right, hm.cap, hm.counter, hm.cancelled, hm.sound.withGap hgap⟩ ?_
      · rw [withGap, hm.left]
      · rw [hm.left]
    rw [← pure_bind () fun _ => bindOwn ev scope' [] bindings' >>= pure]
    refine hnew.bind fun w₁ k _ m₁ m₁' hw₁ hk hm₁ => ?_
    subst hk
    have hsteady : w.Steady w₁ := hw₁ ▸ steady_withGap hgap
    have hk₁ : w₁.gap = some w.left.size := by
      rw [hw₁]
      rfl
    have hb : w₁.left[w.left.size]? = some [] := hw₁ ▸ Array.getElem?_push_size
    have htodo : w₁.todo w.left.size = Form.loopNames bindings := by
      rw [hw₁]
      exact if_pos rfl
    have hbound := bindShared_gap hev hs (Nat.le_refl _) hsteady hm₁ hk₁ hb htodo .nil h
    refine hbound.bind fun w₂ _ bound m₂ m₂' hw₂ hframe hm₂ => .ok hw₂ hm₂ ?_
    rwa [List.append_nil] at hframe
  · refine (bindOwn_abreast hev hs .nil h.matches).bind fun w' bound bound' hw hframed => ?_
    rw [List.append_nil] at hframed
    exact Sim.pure (.own hframed)

end

/-- The machine and lexical scope in step. -/
theorem looping_lexically {w : World} {scope scope' : Scope} {bindings bindings' : List (Text × Form)}
    {body body' : List Form} (fuel : Nat) (hs : w.Sees Eq Eq scope scope') (hgap : w.gap = none)
    (h : Rebinds [] (Form.pairs bindings) (Form.pairs bindings'))
    (hbody : Form.Matches
      (NameRel.under Eq ((bindings.map Prod.fst).zip (bindings'.map Prod.fst)).reverse)
      (NameRel.under Eq ((bindings.map Prod.fst).zip (bindings'.map Prod.fst)).reverse)
      (.forms body body')) :
    w.Sim RelValue (evalValue (eval (fuel + 1)) (.looping bindings body) scope)
      (evalLexically fuel bindings' body' scope') := by
  have heval : evalValue (eval (fuel + 1)) (.looping bindings body) scope
      = bindLoop (eval fuel) (Form.pairs bindings) scope >>= fun inner =>
        loopRounds (eval fuel) (bindings.map Prod.fst) body scope fuel inner := by
    rw [evalValue, eval_looping_rounds, bind_assoc]
    exact bind_pure _
  have hlength : (bindings.map Prod.fst).length = (bindings'.map Prod.fst).length := by
    rw [← Form.loopNames_pairs, ← Form.loopNames_pairs, h.length_eq]
  rw [heval, evalLexically]
  refine (bindLoop_gap (eval_abreast fuel) hs hgap h).bind fun w' frame bound' hw hframe => ?_
  rw [Form.loopNames_pairs, Form.loopNames_pairs] at hframe
  have hrounds := loopRounds_abreast (eval_abreast fuel) hbody fuel (hs.steady hw) hframe
  rwa [List.map_fst_zip hlength.le, List.map_snd_zip hlength.ge] at hrounds

end World

/-! ## Loops that are lexical, and renamed loops -/

namespace Form

theorem pairs_cons (b : Text × Form) (bindings : List (Text × Form)) :
    pairs (b :: bindings) = .symbol b.1 :: b.2 :: pairs bindings := rfl

theorem pairs_append (bindings bindings' : List (Text × Form)) :
    pairs (bindings ++ bindings') = pairs bindings ++ pairs bindings' := List.flatMap_append

theorem pairs_renameUses (x z : Text) (bindings : List (Text × Form)) :
    pairs (renameUses x z bindings) = renameInits x z (pairs bindings) := by
  induction bindings with
  | nil => rfl
  | cons b bindings ih =>
    obtain ⟨n, init⟩ := b
    rw [renameUses, pairs_cons, pairs_cons, renameInits]
    split
    · rfl
    · rw [ih]

theorem map_fst_renameUses (x z : Text) (bindings : List (Text × Form)) :
    (renameUses x z bindings).map Prod.fst = bindings.map Prod.fst := by
  rw [← loopNames_pairs, pairs_renameUses, loopNames_renameInits, loopNames_pairs]

section
variable {x t z y : Text} {c : Bool} {bindings rest rest' : List Form} {binders : List (Text × Text)}

theorem lexicalInits_pair {name : Text} {init : Form} :
    lexicalInits (.symbol name :: init :: rest) = true
      ↔ (∀ y, (y, true) ∈ init.free → y ∉ name :: loopNames rest) ∧ lexicalInits rest = true := by
  rw [lexicalInits, Bool.and_eq_true, List.all_eq_true]
  refine and_congr_left fun _ => ⟨fun h y hy hmem => ?_, fun h y hmem => ?_⟩
  · have hnot := h y hmem
    simp [hy] at hnot
  · simpa using fun hy => h y hy hmem

theorem lexicalInits_of_append (earlier : List (Text × Form))
    (h : lexicalInits (pairs earlier ++ rest) = true) : lexicalInits rest = true := by
  induction earlier with
  | nil => exact h
  | cons b earlier ih => exact ih (lexicalInits_pair.mp h).2

theorem loopNames_append (earlier : List (Text × Form)) (rest : List Form) :
    loopNames (pairs earlier ++ rest) = earlier.map Prod.fst ++ loopNames rest := by
  induction earlier with
  | nil => rfl
  | cons b earlier ih =>
    rw [pairs_cons, List.cons_append, List.cons_append, loopNames, ih, List.map_cons, List.cons_append]

/-- Behind a binder with two names, the one goes with the other. -/
theorem under_swapped (hsees : ∀ y, NameRel.under Eq binders y y) (hy : y ≠ z) :
    NameRel.under Eq ((x, z) :: binders) y (renamed x z y) := by
  by_cases hyx : y = x
  · exact Or.inl ⟨hyx, if_pos hyx⟩
  · rw [renamed, if_neg hyx]
    exact Or.inr ⟨hyx, hy, hsees y⟩

/-- Lexical bindings match what they are renamed to, one by one. -/
theorem rebinds_renamed (hlexical : lexicalInits bindings = true)
    (hfresh : ∀ f ∈ bindings, Fresh x t f)
    (hsees : ∀ y ∈ symbolsOf bindings, NameRel.under Eq binders y (renamed x t y)) :
    Rebinds binders bindings (renameInits x t bindings) := by
  induction bindings using loopNames.induct generalizing t binders with
  | case1 name init rest ih =>
    obtain ⟨hname, hinits⟩ := List.forall_mem_cons.mp hfresh
    obtain ⟨hinit, hrest⟩ := List.forall_mem_cons.mp hinits
    have hused : ∀ y c, (y, c) ∈ init.free → NameRel.under Eq binders y (renamed x t y) := by
      intro y c hy
      refine hsees y (mem_symbolsOf.mpr ⟨init, by simp, mem_symbols_of_free init y c hy⟩)
    rw [renameInits_pair]
    rw [lexicalInits_pair] at hlexical
    refine .pair (init.matchesRenamed x t _ _ hinit ⟨fun y hy => hused y false hy, fun y hy => ?_⟩) ?_
    · exact ⟨hlexical.1 y hy, hused y true hy⟩
    refine ih hlexical.2 (fun f hf => (hrest f hf).hidden) fun y hy => ?_
    have hname' : x ∉ [name] → t ∉ [name] := hname.not_mem fun y hy => hy
    exact under_renamed (fun _ => hsees y (symbolsOf_subset (by simp +contextual) hy)) hname'
  | case2 bindings hpair =>
    rw [renameInits]
    · exact .done hpair
    · exact hpair

theorem rebinds_self (hlexical : lexicalInits bindings = true)
    (hsees : ∀ y, NameRel.under Eq binders y y) : Rebinds binders bindings bindings := by
  have h := rebinds_renamed (x := []) (t := []) hlexical (fun f _ => Or.inl rfl)
    fun y _ => by rw [renamed_self]; exact hsees y
  rwa [renameInits_self] at h

/-- Bindings that are the same in both loops, in front of bindings that are not. -/
theorem rebinds_append (earlier : List (Text × Form))
    (hlexical : lexicalInits (pairs earlier ++ rest) = true)
    (hsees : ∀ y, NameRel.under Eq binders y y)
    (hrest : ∀ binders, (∀ y, NameRel.under Eq binders y y) → Rebinds binders rest rest') :
    Rebinds binders (pairs earlier ++ rest) (pairs earlier ++ rest') := by
  induction earlier generalizing binders with
  | nil => exact hrest binders hsees
  | cons b earlier ih =>
    rw [pairs_cons, List.cons_append, List.cons_append, lexicalInits_pair] at hlexical
    rw [pairs_cons, List.cons_append, List.cons_append]
    refine .pair (b.2.matches_self (fun y _ => hsees y) fun y hy => ⟨hlexical.1 y hy, hsees y⟩) ?_
    have hself : ∀ y, (NameRel.under Eq binders).under (sameNames [b.1]) y y := fun y =>
      NameRel.under_sameNames_self (hsees y)
    exact ih hlexical.2 hself

/-- The bindings of a loop that is lexical, with another name for one of them. -/
theorem rebinds_swapped {earlier later : List (Text × Form)} {init : Form}
    (hlexical : lexicalInits (pairs (earlier ++ (x, init) :: later)) = true)
    (hfresh : ∀ f ∈ pairs later, Fresh x z f) (hz : z ∉ symbolsOf (pairs later)) :
    Rebinds [] (pairs (earlier ++ (x, init) :: later))
      (pairs (earlier ++ (z, init) :: renameUses x z later)) := by
  rw [pairs_append, pairs_cons] at hlexical ⊢
  rw [pairs_append, pairs_cons, pairs_renameUses]
  refine rebinds_append earlier hlexical (fun y => rfl) fun binders hsees => ?_
  have hrest := (lexicalInits_pair.mp (lexicalInits_of_append earlier hlexical))
  refine .pair (init.matches_self (fun y _ => hsees y) fun y hy => ⟨hrest.1 y hy, hsees y⟩) ?_
  refine rebinds_renamed hrest.2 hfresh fun y hy => under_swapped hsees ?_
  rintro rfl
  exact hz hy

theorem lexicalInits_renameInits (hspecial : (Form.symbol z).special? = none)
    (hz : z ∉ symbolsOf bindings) (h : lexicalInits bindings = true) :
    lexicalInits (renameInits x z bindings) = true := by
  induction bindings using loopNames.induct with
  | case1 name init rest ih =>
    have hnames : loopNames (if name = x then rest else renameInits x z rest) = loopNames rest := by
      split
      · rfl
      · exact loopNames_renameInits rest
    rw [lexicalInits_pair] at h
    rw [renameInits, lexicalInits_pair, hnames]
    refine ⟨fun y hy => ?_, ?_⟩
    · rcases free_of_rename hspecial init y true hy with rfl | hold
      · exact fun hmem => hz (mem_symbolsOf_of_loopNames hmem)
      · exact h.1 y hold
    · split
      · exact h.2
      · exact ih (fun hmem => hz (symbolsOf_subset (by simp +contextual) hmem)) h.2
  | case2 bindings hpair =>
    rw [renameInits, lexicalInits]
    · exact hpair
    · exact hpair

theorem lexicalInits_append (earlier : List (Text × Form)) (hz : z ∉ symbolsOf (pairs earlier))
    (hnames : ∀ y ∈ loopNames rest', y = z ∨ y ∈ loopNames rest) (hrest : lexicalInits rest' = true)
    (h : lexicalInits (pairs earlier ++ rest) = true) :
    lexicalInits (pairs earlier ++ rest') = true := by
  induction earlier with
  | nil => exact hrest
  | cons b earlier ih =>
    rw [pairs_cons] at hz
    rw [pairs_cons, List.cons_append, List.cons_append, lexicalInits_pair, loopNames_append,
      ← List.cons_append] at h ⊢
    refine ⟨fun y hy hmem => ?_, ih (fun hmem => hz (symbolsOf_subset (by simp +contextual) hmem)) h.2⟩
    rcases List.mem_append.mp hmem with hmem | hmem
    · exact h.1 y hy (List.mem_append_left _ hmem)
    · rcases hnames y hmem with rfl | hold
      · exact hz (mem_symbolsOf.mpr ⟨b.2, by simp, mem_symbols_of_free b.2 y true hy⟩)
      · exact h.1 y hy (List.mem_append_right _ hold)

/-- A loop stays lexical when one of its names is renamed. -/
theorem lexicalInits_swapped {earlier later : List (Text × Form)} {init : Form}
    (hspecial : (Form.symbol z).special? = none)
    (hz : z ∉ symbolsOf (pairs (earlier ++ (x, init) :: later)))
    (hlexical : lexicalInits (pairs (earlier ++ (x, init) :: later)) = true) :
    lexicalInits (pairs (earlier ++ (z, init) :: renameUses x z later)) = true := by
  rw [pairs_append, pairs_cons] at hlexical hz
  rw [pairs_append, pairs_cons, pairs_renameUses]
  have hearlier : z ∉ symbolsOf (pairs earlier) := fun hmem =>
    hz (symbolsOf_subset (by simp +contextual) hmem)
  have hlater : z ∉ symbolsOf (pairs later) := fun hmem =>
    hz (symbolsOf_subset (by simp +contextual) hmem)
  have hrest := lexicalInits_pair.mp (lexicalInits_of_append earlier hlexical)
  refine lexicalInits_append earlier hearlier (fun y hy => ?_) ?_ hlexical
  · rw [loopNames, loopNames_renameInits] at hy
    rw [loopNames]
    rcases List.mem_cons.mp hy with rfl | hy
    · exact Or.inl rfl
    · exact Or.inr (List.mem_cons_of_mem _ hy)
  · rw [lexicalInits_pair, loopNames_renameInits]
    refine ⟨fun y hy hin => ?_, lexicalInits_renameInits hspecial hlater hrest.2⟩
    rcases List.mem_cons.mp hin with rfl | hin
    · exact hz (mem_symbolsOf.mpr ⟨init, by simp, mem_symbols_of_free init _ true hy⟩)
    · exact hrest.1 y hy (List.mem_cons_of_mem _ hin)

end

theorem mem_symbols_looping {y : Text} {bindings : List (Text × Form)} {body : List Form} :
    y ∈ (looping bindings body).symbols
      ↔ y = "loop" ∨ y ∈ symbolsOf (pairs bindings) ∨ y ∈ symbolsOf body := by
  simp [looping, symbols, symbolsOf]

section
variable {x z : Text} {earlier later : List (Text × Form)} {init : Form} {body : List Form}

/-- The names of the two loops go together, and `x` goes with `z` unless a later name hides it. -/
theorem body_swapped (hfresh : ∀ f ∈ body, Fresh x z f) (hz : z ∉ symbolsOf body)
    (hlater : x ∉ loopNames (pairs later) → z ∉ loopNames (pairs later)) :
    Matches
      (NameRel.under Eq (((earlier ++ (x, init) :: later).map Prod.fst).zip
        ((earlier ++ (z, init) :: renameUses x z later).map Prod.fst)).reverse)
      (NameRel.under Eq (((earlier ++ (x, init) :: later).map Prod.fst).zip
        ((earlier ++ (z, init) :: renameUses x z later).map Prod.fst)).reverse)
      (.forms body (if x ∈ loopNames (pairs later) then body else renameAll x z body)) := by
  rw [loopNames_pairs] at hlater
  have hbinders : (((earlier ++ (x, init) :: later).map Prod.fst).zip
        ((earlier ++ (z, init) :: renameUses x z later).map Prod.fst)).reverse
      = sameNames (later.map Prod.fst).reverse
        ++ (x, z) :: sameNames (earlier.map Prod.fst).reverse := by
    rw [List.map_append, List.map_append, List.zip_append rfl, zip_self_eq_sameNames, List.map_cons,
      List.map_cons, map_fst_renameUses, List.zip_cons_cons, zip_self_eq_sameNames]
    simp [sameNames]
  have hplain : ∀ y, NameRel.under Eq (sameNames (earlier.map Prod.fst).reverse) y y := fun y =>
    NameRel.under_sameNames_self rfl
  have hcovers : ∀ y c, (y, c) ∈ outside (later.map Prod.fst).reverse (freeAll body) →
      NameRel.under Eq ((x, z) :: sameNames (earlier.map Prod.fst).reverse) y (renamed x z y) := by
    intro y c hy
    refine under_swapped hplain ?_
    rintro rfl
    obtain ⟨f, hf, hfree⟩ := mem_freeAll.mp (mem_outside.mp hy).1
    exact hz (mem_symbolsOf.mpr ⟨f, hf, mem_symbols_of_free f y c hfree⟩)
  have hmatches := (allMatchRenamed body).under (later.map Prod.fst).reverse hfresh
    (by simpa only [List.mem_reverse] using hlater)
    ⟨fun y => hcovers y false, fun y => hcovers y true⟩
  simp only [List.mem_reverse, ← loopNames_pairs] at hmatches
  rw [hbinders, NameRel.under_append, ← loopNames_pairs, ← loopNames_pairs]
  exact hmatches

end

end Form

/-! ## Lexical scope -/

section
variable {m : Machine} {scope : Scope}

theorem indistinct_lexically {bindings : List (Text × Form)} (hm : m.Closed)
    (hscope : Frame.AllWithin m.frames.size scope)
    (hlexical : Form.lexicalInits (Form.pairs bindings) = true) (body : List Form) (fuel : Nat) :
    Run.Indistinct m (evalValue (eval (fuel + 1)) (.looping bindings body) scope)
      (evalLexically fuel bindings body scope) := by
  refine World.Sim.indistinct hm ?_
  refine World.looping_lexically fuel (World.sees_self hscope) rfl ?_ ?_
  · exact Form.rebinds_self hlexical fun y => rfl
  · have hsame : ∀ y, NameRel.under Eq (sameNames (bindings.map Prod.fst).reverse) y y := fun y =>
      NameRel.under_sameNames_self rfl
    rw [zip_self_eq_sameNames, sameNames, ← List.map_reverse]
    exact Form.allMatch_self body hsame hsame

/-- Neither the loop nor the renamed one can be told from the renamed one by lexical scope. -/
theorem indistinct_renamed {earlier later : List (Text × Form)} {x z : Text} {init : Form}
    {body : List Form} (hm : m.Closed) (hscope : Frame.AllWithin m.frames.size scope)
    (hlexical : Form.lexicalInits (Form.pairs (earlier ++ (x, init) :: later)) = true)
    (hinner : (Form.looping later body).lexical = true) (hspecial : (Form.symbol z).special? = none)
    (hz : z ∉ (Form.looping (earlier ++ (x, init) :: later) body).symbols) (fuel : Nat) :
    Run.Indistinct m
      (evalValue (eval (fuel + 1)) (.looping (earlier ++ (x, init) :: later) body) scope)
      (evalValue (eval (fuel + 1)) (.renamedLooping earlier x z init later body) scope) := by
  rw [Form.mem_symbols_looping, not_or, not_or] at hz
  obtain ⟨hword, hpairs, hbody⟩ := hz
  have hlater : z ∉ Form.symbolsOf (Form.pairs later) := by
    intro hmem
    refine hpairs (Form.symbolsOf_subset (fun f hf => ?_) hmem)
    rw [Form.pairs_append, Form.pairs_cons]
    simp [hf]
  have hfresh : Form.Fresh x z (.looping later body) := by
    refine Or.inr ⟨hspecial, ?_, hinner⟩
    rw [Form.mem_symbols_looping, not_or, not_or]
    exact ⟨hword, hlater, hbody⟩
  have hinits : ∀ f ∈ Form.pairs later, Form.Fresh x z f :=
    (hfresh.of_list (.vector (Form.pairs later)) (by simp)).of_vector
  have hbodies : ∀ f ∈ body, Form.Fresh x z f := fun f hf => hfresh.of_list f (by simp [hf])
  have hnames : z ∉ Form.loopNames (Form.pairs later) := fun hmem =>
    hlater (Form.mem_symbolsOf_of_loopNames hmem)
  have hloop := World.Sim.indistinct hm (World.looping_lexically fuel (World.sees_self hscope) rfl
    (Form.rebinds_swapped hlexical hinits hlater) (Form.body_swapped hbodies hbody fun _ => hnames))
  have hrenamed := indistinct_lexically hm hscope
    (Form.lexicalInits_swapped hspecial hpairs hlexical)
    (if x ∈ Form.loopNames (Form.pairs later) then body else Form.renameAll x z body) fuel
  intro outer more name g houter
  exact (hloop outer more name g houter).trans (hrenamed outer more name g houter).symm

/-- A loop no initialiser of which makes a function that uses its own name or a later one obeys lexical
scope: whatever a program does with its value, it cannot tell the loop from one whose functions hold
a copy of the names before them, nor from one with a fresh name in place of one of its names, if the
loops where the name is used are of that kind as well. -/
theorem looping_scope_lexical (bindings : List (Text × Form)) (body : List Form) (hm : m.Closed)
    (hscope : Frame.AllWithin m.frames.size scope)
    (hlexical : Form.lexicalInits (Form.pairs bindings) = true) (fuel : Nat) :
    Run.Indistinct m (evalValue (eval (fuel + 1)) (.looping bindings body) scope)
        (evalLexically fuel bindings body scope) ∧
      ∀ earlier x init later z, bindings = earlier ++ (x, init) :: later →
        (Form.looping later body).lexical = true → (Form.symbol z).special? = none →
        z ∉ (Form.looping bindings body).symbols →
        Run.Indistinct m (evalValue (eval (fuel + 1)) (.looping bindings body) scope)
          (evalValue (eval (fuel + 1)) (.renamedLooping earlier x z init later body) scope) := by
  refine ⟨indistinct_lexically hm hscope hlexical body fuel, ?_⟩
  rintro earlier x init later z rfl hinner hspecial hz
  exact indistinct_renamed hm hscope hlexical hinner hspecial hz fuel

/-- A loop on a machine that has run a program, with the function which that made in scope. Of the
functions that the initialisers make, `f` uses the name before it and `g` the renamed one. -/
theorem looping_scope_lexical_nested :
    Form.lexicalInits (Form.pairs [("x", .int 2),
      ("f", .list [.symbol "fn", .vector [], .symbol "x"]), ("y", .list [.symbol "f"]),
      ("g", .list [.symbol "fn", .vector [], .symbol "y"])]) = true ∧
    ∃ h m, eval 9 (.looping [("h", .list [.symbol "fn", .vector [], .int 3])] [.symbol "h"]) []
        (Machine.ofCap 0) = .ok (.value h) m ∧ m.frames.size = 1 ∧
      Run.Indistinct m
        (evalValue (eval 9) (.looping [("x", .int 2),
          ("f", .list [.symbol "fn", .vector [], .symbol "x"]), ("y", .list [.symbol "f"]),
          ("g", .list [.symbol "fn", .vector [], .symbol "y"])]
          [.list [.symbol "+", .symbol "y", .list [.symbol "g"], .list [.symbol "h"]]])
          [.own [("y", .int 5), ("h", h)]])
        (evalValue (eval 9) (.renamedLooping [("x", .int 2),
          ("f", .list [.symbol "fn", .vector [], .symbol "x"])] "y" "z" (.list [.symbol "f"])
          [("g", .list [.symbol "fn", .vector [], .symbol "y"])]
          [.list [.symbol "+", .symbol "y", .list [.symbol "g"], .list [.symbol "h"]]])
          [.own [("y", .int 5), ("h", h)]]) := by
  have hlexical : Form.lexicalInits (Form.pairs [("x", .int 2),
      ("f", .list [.symbol "fn", .vector [], .symbol "x"]), ("y", .list [.symbol "f"]),
      ("g", .list [.symbol "fn", .vector [], .symbol "y"])]) = true := rfl
  have hstart : (Machine.ofCap 0).Closed := by
    intro i b hb
    cases hb
  obtain ⟨h, m, hrun, hsize⟩ : ∃ h m, eval 9 (.looping [("h",
      .list [.symbol "fn", .vector [], .int 3])] [.symbol "h"]) [] (Machine.ofCap 0)
        = .ok (.value h) m ∧ m.frames.size = 1 := ⟨_, _, rfl, rfl⟩
  have hempty : Frame.AllWithin (Machine.ofCap 0).frames.size [] := trivial
  obtain ⟨hclosed, -, hwithin⟩ := World.closed_of_eval hstart hempty hrun
  have hscope : Frame.AllWithin m.frames.size [.own [("y", .int 5), ("h", h)]] :=
    ⟨⟨trivial, hwithin, trivial⟩, trivial⟩
  refine ⟨hlexical, h, m, hrun, hsize, ?_⟩
  exact (looping_scope_lexical _ _ hclosed hscope hlexical 8).2 _ _ _ _ _ rfl rfl rfl (by decide)

/-- A function sees the name after it, and not the name of that spelling around the loop. -/
theorem looping_captures_later :
    ¬ Run.Indistinct (Machine.ofCap 0)
      (evalValue (eval 9) (.looping [("f", .list [.symbol "fn", .vector [], .symbol "y"]),
        ("y", .int 1)] [.list [.symbol "f"]]) [.own [("y", .int 5)]])
      (evalLexically 8 [("f", .list [.symbol "fn", .vector [], .symbol "y"]), ("y", .int 1)]
        [.list [.symbol "f"]] [.own [("y", .int 5)]]) ∧
    ¬ Run.Indistinct (Machine.ofCap 0)
      (evalValue (eval 9) (.looping [("f", .list [.symbol "fn", .vector [], .symbol "y"]),
        ("y", .int 1)] [.list [.symbol "f"]]) [.own [("y", .int 5)]])
      (evalValue (eval 9) (.renamedLooping [("f", .list [.symbol "fn", .vector [], .symbol "y"])] "y"
        "z" (.int 1) [] [.list [.symbol "f"]]) [.own [("y", .int 5)]]) := by
  have hne : (some (.ok (.value (.int 1)), 0) : Option (Except RunError Outcome × Int))
      ≠ some (.ok (.value (.int 5)), 0) := by
    intro h
    injection h with h
    injection h with h
    injection h with h
    injection h with h
    injection h with h
    exact absurd h (by decide)
  constructor
  · intro h
    exact hne (h [] 1 "v" (.symbol "v") trivial)
  · intro h
    exact hne (h [] 1 "v" (.symbol "v") trivial)

end

end Denotation
