import Denotation.Proofs.FreeNames

/-!
# Forms that match

Two forms match if they are alike but for the names that they use free, and these belong together.
What belongs together is a relation on names, which binders on the way to a use change: `NameRel.under`
says how. There are two relations, one for the names that are used while the form is evaluated and one
for those that a function keeps on using after that.

A form matches itself and what it is renamed to; `Form.matchesRenamed` says under what conditions.
-/

namespace Denotation

/-- What two names have to do with each other. -/
abbrev NameRel := Text → Text → Prop

/-- Binders that are the same on both sides. -/
def sameNames (names : List Text) : List (Text × Text) := names.map fun n => (n, n)

section
variable (names : List Text)

theorem map_fst_sameNames : (sameNames names).map Prod.fst = names := by
  rw [sameNames, List.map_map]
  exact List.map_id _

theorem map_snd_sameNames : (sameNames names).map Prod.snd = names := by
  rw [sameNames, List.map_map]
  exact List.map_id _

theorem length_sameNames : (sameNames names).length = names.length := List.length_map _

theorem sameNames_reverse : sameNames names.reverse = (sameNames names).reverse := List.map_reverse

theorem zip_self_eq_sameNames : names.zip names = sameNames names := by
  induction names with
  | nil => rfl
  | cons n names ih => rw [List.zip_cons_cons, ih, sameNames, sameNames, List.map_cons]

end

namespace NameRel

/-- Inside binders, the innermost first, two names belong together if the same binder binds both, or
if none binds either and they belong together outside. -/
def under (R : NameRel) : List (Text × Text) → NameRel
  | [] => R
  | (n, n') :: binders => fun y y' => y = n ∧ y' = n' ∨ y ≠ n ∧ y' ≠ n' ∧ R.under binders y y'

/-- A function that an initialiser makes outlives the binding of the later names of its loop, so these
must not come between two different names. -/
def clear (R : NameRel) (names : List Text) : NameRel :=
  fun y y' => R y y' ∧ (y = y' ∨ y ∉ names ∧ y' ∉ names)

variable {R R' : NameRel} {y y' : Text} {binders : List (Text × Text)} {names : List Text}

theorem under_mono (h : ∀ y y', R y y' → R' y y') (hy : R.under binders y y') :
    R'.under binders y y' := by
  induction binders with
  | nil => exact h y y' hy
  | cons b binders ih =>
    rcases hy with hbound | ⟨hn, hn', hy⟩
    · exact Or.inl hbound
    · exact Or.inr ⟨hn, hn', ih hy⟩

theorem under_append (R : NameRel) (binders outer : List (Text × Text)) :
    R.under (binders ++ outer) = (R.under outer).under binders := by
  induction binders with
  | nil => rfl
  | cons b binders ih => rw [List.cons_append, under, under, ih]

theorem under_sameNames_iff :
    R.under (sameNames names) y y' ↔ y = y' ∧ y ∈ names ∨ y ∉ names ∧ y' ∉ names ∧ R y y' := by
  induction names with
  | nil => simp [sameNames, under]
  | cons n names ih =>
    have hcons : R.under (sameNames (n :: names)) y y'
        ↔ y = n ∧ y' = n ∨ y ≠ n ∧ y' ≠ n ∧ R.under (sameNames names) y y' := Iff.rfl
    rw [hcons, ih]
    grind

theorem under_sameNames_self (h : R y y) : R.under (sameNames names) y y := by
  rw [under_sameNames_iff]
  by_cases hmem : y ∈ names
  · exact Or.inl ⟨rfl, hmem⟩
  · exact Or.inr ⟨hmem, hmem, h⟩

end NameRel

namespace Form

/-- Two forms, lists of forms or bindings of a loop. -/
inductive Part where
  | form (f f' : Form)
  | forms (fs fs' : List Form)
  | inits (bindings bindings' : List Form)

/-- The two parts are alike but for the names that they use. Names that belong together by the first
relation may stand for each other; where a function uses them, by the second. -/
inductive Matches : NameRel → NameRel → Part → Prop where
  | nil {P Q : NameRel} : Matches P Q (.form .nil .nil)
  | bool {P Q : NameRel} {b : Bool} : Matches P Q (.form (.bool b) (.bool b))
  | int {P Q : NameRel} {n : Int64} : Matches P Q (.form (.int n) (.int n))
  | text {P Q : NameRel} {t : Text} : Matches P Q (.form (.text t) (.text t))
  | symbol {P Q : NameRel} {y y' : Text} (h : P y y') : Matches P Q (.form (.symbol y) (.symbol y'))
  | vector {P Q : NameRel} {items items' : List Form} (h : Matches P Q (.forms items items')) :
      Matches P Q (.form (.vector items) (.vector items'))
  | empty {P Q : NameRel} : Matches P Q (.form (.list []) (.list []))
  | call {P Q : NameRel} {head head' : Form} {rest rest' : List Form}
      (hs : head.special? = none) (hs' : head'.special? = none)
      (hhead : Matches P Q (.form head head')) (hrest : Matches P Q (.forms rest rest')) :
      Matches P Q (.form (.list (head :: rest)) (.list (head' :: rest')))
  | inner {P Q : NameRel} {head : Form} {rest rest' : List Form}
      (hs : head.special? = some .branch ∨ head.special? = some .recur)
      (h : Matches P Q (.forms rest rest')) :
      Matches P Q (.form (.list (head :: rest)) (.list (head :: rest')))
  | fn {P Q : NameRel} {head : Form} {name : Option Text} {names : List Text}
      {params body body' : List Form} (hs : head.special? = some .fn)
      (hp : paramNames params = .ok names)
      (h : Matches (Q.under (sameNames (names.reverse ++ name.toList)))
        (Q.under (sameNames (names.reverse ++ name.toList))) (.forms body body')) :
      Matches P Q (.form (.list (head :: (name.toList.map .symbol ++ .vector params :: body)))
        (.list (head :: (name.toList.map .symbol ++ .vector params :: body'))))
  | fnFails {P Q : NameRel} {head : Form} {rest rest' : List Form} {e : RunError}
      (hs : head.special? = some .fn) (h : ∀ scope, evalFn rest scope = .error e)
      (h' : ∀ scope, evalFn rest' scope = .error e) :
      Matches P Q (.form (.list (head :: rest)) (.list (head :: rest')))
  | loop {P Q : NameRel} {head : Form} {bindings bindings' body body' : List Form}
      (hs : head.special? = some .loop) (heven : (bindings.length % 2 == 1) = false)
      (hlength : bindings'.length = bindings.length)
      (hnames : loopNames bindings' = loopNames bindings)
      (hinits : Matches P (Q.clear (loopNames bindings)) (.inits bindings bindings'))
      (hbody : Matches (P.under (sameNames (loopNames bindings).reverse))
        (Q.under (sameNames (loopNames bindings).reverse)) (.forms body body')) :
      Matches P Q (.form (.list (head :: .vector bindings :: body))
        (.list (head :: .vector bindings' :: body')))
  | loopFails {P Q : NameRel} {head : Form} {rest : List Form} {e : RunError}
      (hs : head.special? = some .loop)
      (h : ∀ ev fuel scope, evalLoop ev fuel rest scope = Run.fail e) :
      Matches P Q (.form (.list (head :: rest)) (.list (head :: rest)))
  | none {P Q : NameRel} : Matches P Q (.forms [] [])
  | cons {P Q : NameRel} {f f' : Form} {fs fs' : List Form} (hf : Matches P Q (.form f f'))
      (hfs : Matches P Q (.forms fs fs')) : Matches P Q (.forms (f :: fs) (f' :: fs'))
  | done {P Q : NameRel} {bindings : List Form}
      (h : ∀ name init rest, bindings = .symbol name :: init :: rest → False) :
      Matches P Q (.inits bindings bindings)
  | pair {P Q : NameRel} {n n' : Text} {init init' : Form} {rest rest' : List Form}
      (hinit : Matches P Q (.form init init'))
      (hrest : Matches (P.under [(n, n')]) (Q.under [(n, n')]) (.inits rest rest')) :
      Matches P Q (.inits (.symbol n :: init :: rest) (.symbol n' :: init' :: rest'))

namespace Matches

variable {P P' Q Q' : NameRel} {part : Part}

theorem mono (h : Matches P Q part) (hP : ∀ y y', P y y' → P' y y')
    (hQ : ∀ y y', Q y y' → Q' y y') : Matches P' Q' part := by
  induction h generalizing P' Q' with
  | nil => exact .nil
  | bool => exact .bool
  | int => exact .int
  | text => exact .text
  | symbol h => exact .symbol (hP _ _ h)
  | vector h ih => exact .vector (ih hP hQ)
  | empty => exact .empty
  | call hs hs' hhead hrest ihhead ihrest => exact .call hs hs' (ihhead hP hQ) (ihrest hP hQ)
  | inner hs h ih => exact .inner hs (ih hP hQ)
  | fn hs hp h ih =>
    exact .fn hs hp (ih (fun _ _ => NameRel.under_mono hQ) fun _ _ => NameRel.under_mono hQ)
  | fnFails hs h h' => exact .fnFails hs h h'
  | loop hs heven hlength hnames hinits hbody ihinits ihbody =>
    refine .loop hs heven hlength hnames (ihinits hP fun y y' hy => ⟨hQ y y' hy.1, hy.2⟩) ?_
    exact ihbody (fun _ _ => NameRel.under_mono hP) fun _ _ => NameRel.under_mono hQ
  | loopFails hs h => exact .loopFails hs h
  | none => exact .none
  | cons hf hfs ihf ihfs => exact .cons (ihf hP hQ) (ihfs hP hQ)
  | done h => exact .done h
  | pair hinit hrest ihinit ihrest =>
    refine .pair (ihinit hP hQ) ?_
    exact ihrest (fun _ _ => NameRel.under_mono hP) fun _ _ => NameRel.under_mono hQ

theorem length_eq {fs fs' : List Form} (h : Matches P Q (.forms fs fs')) : fs.length = fs'.length := by
  induction fs generalizing fs' with
  | nil =>
    cases h
    rfl
  | cons f fs ih =>
    cases h with
    | cons hf hfs => rw [List.length_cons, List.length_cons, ih hfs]

end Matches

/-- The two parts make closures or do not. -/
def Part.SameClosures : Part → Prop
  | .form f f' => f'.makesClosure = f.makesClosure
  | .forms fs fs' => anyMakesClosure fs' = anyMakesClosure fs
  | .inits bindings bindings' => anyMakesClosure bindings' = anyMakesClosure bindings

theorem Matches.sameClosures {P Q : NameRel} {part : Part} (h : Matches P Q part) :
    part.SameClosures := by
  induction h with
  | nil | bool | int | text | symbol | empty | none | loopFails | done => rfl
  | vector h ih => exact ih
  | call hs hs' hhead hrest ihhead ihrest =>
    simp only [Part.SameClosures] at ihhead ihrest
    simp only [Part.SameClosures, makesClosure, hs, hs', ihhead, ihrest]
  | inner hs h ih =>
    simp only [Part.SameClosures] at ih
    simp only [Part.SameClosures, makesClosure, ih]
  | fn hs => simp [Part.SameClosures, makesClosure, hs]
  | fnFails hs => simp [Part.SameClosures, makesClosure, hs]
  | loop hs heven hlength hnames hinits hbody ihinits ihbody =>
    simp only [Part.SameClosures] at ihinits ihbody
    simp only [Part.SameClosures, makesClosure, anyMakesClosure, ihinits, ihbody]
  | cons hf hfs ihf ihfs =>
    simp only [Part.SameClosures] at ihf ihfs
    simp only [Part.SameClosures, anyMakesClosure, ihf, ihfs]
  | pair hinit hrest ihinit ihrest =>
    simp only [Part.SameClosures] at ihinit ihrest
    simp only [Part.SameClosures, anyMakesClosure, makesClosure, ihinit, ihrest]

/-! ## Renamed forms match -/

/-- The name `t` can take the place of `x` in the form: it is that name, or a name that does not stand
in the form and is not special. In the second case no loop of the form may bind `x` too late. -/
def Fresh (x t : Text) (f : Form) : Prop :=
  t = x ∨ (Form.symbol t).special? = none ∧ t ∉ f.symbols ∧ f.lexical = true

/-- The names that are used belong together with what they are renamed to. -/
structure Covers (P Q : NameRel) (x t : Text) (uses : List (Text × Bool)) : Prop where
  now : ∀ y, (y, false) ∈ uses → P y (renamed x t y)
  later : ∀ y, (y, true) ∈ uses → Q y (renamed x t y)

section
variable {P Q : NameRel} {x t y : Text} {uses uses' : List (Text × Bool)} {f head : Form}
  {items params body rest bindings : List Form} {names : List Text}

theorem Covers.left (h : Covers P Q x t (uses ++ uses')) : Covers P Q x t uses :=
  ⟨fun y hy => h.now y (List.mem_append_left _ hy), fun y hy => h.later y (List.mem_append_left _ hy)⟩

theorem Covers.right (h : Covers P Q x t (uses ++ uses')) : Covers P Q x t uses' :=
  ⟨fun y hy => h.now y (List.mem_append_right _ hy),
    fun y hy => h.later y (List.mem_append_right _ hy)⟩

theorem Fresh.of_vector (h : Fresh x t (.vector items)) : ∀ f ∈ items, Fresh x t f := by
  intro f hf
  rcases h with rfl | ⟨hspecial, hsymbols, hlexical⟩
  · exact Or.inl rfl
  · rw [symbols, mem_symbolsOf] at hsymbols
    rw [lexical, lexicalAll_iff] at hlexical
    exact Or.inr ⟨hspecial, fun hmem => hsymbols ⟨f, hf, hmem⟩, hlexical f hf⟩

theorem Fresh.of_list (h : Fresh x t (.list (head :: rest))) : ∀ f ∈ head :: rest, Fresh x t f := by
  intro f hf
  rcases h with rfl | ⟨hspecial, hsymbols, hlexical⟩
  · exact Or.inl rfl
  · rw [symbols, mem_symbolsOf] at hsymbols
    rw [lexical, Bool.and_eq_true, Bool.and_eq_true, lexicalAll_iff] at hlexical
    refine Or.inr ⟨hspecial, fun hmem => hsymbols ⟨f, hf, hmem⟩, ?_⟩
    rcases List.mem_cons.mp hf with rfl | hf
    · exact hlexical.1.2
    · exact hlexical.2 f hf

/-- A name that stands in a form is none of the new ones. -/
theorem Fresh.not_mem (h : Fresh x t f) (hnames : ∀ y ∈ names, y ∈ f.symbols) :
    x ∉ names → t ∉ names := by
  intro hx hmem
  rcases h with rfl | ⟨-, hsymbols, -⟩
  · exact hx hmem
  · exact hsymbols (hnames t hmem)

/-- A name that binders hide is not renamed behind them. -/
theorem Fresh.hidden (h : Fresh x t f) : Fresh x (if x ∈ names then x else t) f := by
  split
  · exact Or.inl rfl
  · exact h

theorem under_renamed {R : NameRel} (h : y ∉ names → R y (renamed x t y)) (ht : x ∉ names → t ∉ names) :
    R.under (sameNames names) y (renamed x (if x ∈ names then x else t) y) := by
  rw [NameRel.under_sameNames_iff]
  unfold renamed at h ⊢
  grind

theorem mem_symbolsOf_of_binders (h : y ∈ binders params) : y ∈ symbolsOf params := by
  fun_induction binders params with
  | case1 => exact absurd h List.not_mem_nil
  | case2 name rest ih =>
    rw [symbolsOf, symbols, List.singleton_append]
    rcases List.mem_cons.mp h with rfl | hrest
    · exact List.mem_cons_self
    · exact List.mem_cons_of_mem _ (ih hrest)
  | case3 f rest hsymbol ih =>
    rw [symbolsOf]
    exact List.mem_append_right _ (ih h)

theorem mem_symbolsOf_of_loopNames (h : y ∈ loopNames bindings) : y ∈ symbolsOf bindings := by
  fun_induction loopNames bindings with
  | case1 name init rest ih =>
    rw [symbolsOf, symbols, List.singleton_append, symbolsOf]
    rcases List.mem_cons.mp h with rfl | hrest
    · exact List.mem_cons_self
    · exact List.mem_cons_of_mem _ (List.mem_append_right _ (ih hrest))
  | case2 => exact absurd h List.not_mem_nil

theorem paramNames_eq_ok (h : paramNames params = .ok names) : names = binders params := by
  induction params generalizing names with
  | nil =>
    cases h
    rfl
  | cons f params ih =>
    cases f with
    | symbol name =>
      rw [paramNames] at h
      cases hrest : paramNames params with
      | error e =>
        rw [hrest] at h
        cases h
      | ok rest =>
        rw [hrest] at h
        cases h
        rw [binders, ih hrest]
    | _ => cases h

end

/-- Whenever a name can be renamed in the form, the form matches what it is renamed to. -/
def MatchesRenamed (f : Form) : Prop :=
  ∀ (x t : Text) (P Q : NameRel), Fresh x t f → Covers P Q x t f.free →
    Matches P Q (.form f (f.rename x t))

def AllMatchRenamed (fs : List Form) : Prop :=
  ∀ (x t : Text) (P Q : NameRel), (∀ f ∈ fs, Fresh x t f) → Covers P Q x t (freeAll fs) →
    Matches P Q (.forms fs (renameAll x t fs))

def InitsMatchRenamed (bindings : List Form) : Prop :=
  ∀ (x t : Text) (P Q : NameRel), (∀ f ∈ bindings, Fresh x t f) →
    Covers P Q x t (freeInits bindings) → Matches P Q (.inits bindings (renameInits x t bindings))

section
variable {P Q : NameRel} {x t name : Text} {f init head : Form}
  {items params body rest bindings : List Form}

theorem AllMatchRenamed.cons (hf : f.MatchesRenamed) (hrest : AllMatchRenamed rest) :
    AllMatchRenamed (f :: rest) := by
  intro x t P Q hfresh hcovers
  obtain ⟨hx, hxs⟩ := List.forall_mem_cons.mp hfresh
  rw [freeAll] at hcovers
  rw [renameAll]
  exact .cons (hf x t P Q hx hcovers.left) (hrest x t P Q hxs hcovers.right)

/-- Forms behind binders, which may hide the name. -/
theorem AllMatchRenamed.under (hbody : AllMatchRenamed body) (names : List Text)
    (hfresh : ∀ f ∈ body, Fresh x t f) (ht : x ∉ names → t ∉ names)
    (hcovers : Covers P Q x t (outside names (freeAll body))) :
    Matches (P.under (sameNames names)) (Q.under (sameNames names))
      (.forms body (if x ∈ names then body else renameAll x t body)) := by
  have hbody' : (if x ∈ names then body else renameAll x t body)
      = renameAll x (if x ∈ names then x else t) body := by
    split
    · rw [renameAll_self]
    · rfl
  rw [hbody']
  refine hbody _ _ _ _ (fun f hf => (hfresh f hf).hidden) ⟨fun y hy => ?_, fun y hy => ?_⟩
  · exact under_renamed (fun hne => hcovers.now y (mem_outside.mpr ⟨hy, hne⟩)) ht
  · exact under_renamed (fun hne => hcovers.later y (mem_outside.mpr ⟨hy, hne⟩)) ht

theorem InitsMatchRenamed.pair (hinit : init.MatchesRenamed) (hrest : InitsMatchRenamed rest) :
    InitsMatchRenamed (.symbol name :: init :: rest) := by
  intro x t P Q hfresh hcovers
  obtain ⟨hname, hinits⟩ := List.forall_mem_cons.mp hfresh
  obtain ⟨hx, hxs⟩ := List.forall_mem_cons.mp hinits
  rw [freeInits] at hcovers
  have ht : x ∉ [name] → t ∉ [name] := hname.not_mem fun y hy => hy
  rw [renameInits_pair]
  refine .pair (hinit x t P Q hx hcovers.left) ?_
  refine hrest _ _ _ _ (fun f hf => (hxs f hf).hidden) ⟨fun y hy => ?_, fun y hy => ?_⟩
  · exact under_renamed (fun hne => hcovers.right.now y (mem_outside.mpr ⟨hy, hne⟩)) ht
  · exact under_renamed (fun hne => hcovers.right.later y (mem_outside.mpr ⟨hy, hne⟩)) ht

theorem InitsMatchRenamed.done
    (h : ∀ name init rest, bindings = .symbol name :: init :: rest → False) :
    InitsMatchRenamed bindings := by
  intro x t P Q hfresh hcovers
  rw [renameInits]
  · exact .done h
  · exact h

/-- A function, named or not, whose parameters are in order or not. -/
theorem matches_fn (name : Option Text) (hs : head.special? = some .fn)
    (hbody : AllMatchRenamed body) (hfresh : ∀ f ∈ body, Fresh x t f)
    (ht : x ∉ name.toList ++ binders params → t ∉ name.toList ++ binders params)
    (hcovers : Covers P Q x t (captured (name.toList ++ binders params) (freeAll body))) :
    Matches P Q (.form (.list (head :: (name.toList.map .symbol ++ .vector params :: body)))
      (.list (head :: (name.toList.map .symbol ++ .vector params ::
        if x ∈ name.toList ++ binders params then body else renameAll x t body)))) := by
  cases hp : paramNames params with
  | error e =>
    have hfails : ∀ (body : List Form) (scope : Scope),
        evalFn (name.toList.map .symbol ++ .vector params :: body) scope = .error e := by
      intro body scope
      have hmap : ∀ name, (paramNames params).map (fun names => Value.closure name names body scope)
          = .error e := fun name => by rw [hp]; rfl
      cases name with
      | none => exact hmap none
      | some name => exact hmap (some name)
    exact .fnFails hs (hfails body) (hfails _)
  | ok names =>
    have hmem : ∀ y, y ∈ names.reverse ++ name.toList ↔ y ∈ name.toList ++ binders params := by
      intro y
      rw [paramNames_eq_ok hp, List.mem_append, List.mem_append, List.mem_reverse, or_comm]
    -- whatever the body uses, the function uses
    have hlater : ∀ y c, (y, c) ∈ outside (names.reverse ++ name.toList) (freeAll body) →
        Q y (renamed x t y) := by
      intro y c hy
      rw [mem_outside, hmem] at hy
      exact hcovers.later y (mem_captured.mpr ⟨rfl, ⟨c, hy.1⟩, hy.2⟩)
    have hmatches := hbody.under (names.reverse ++ name.toList) hfresh
      (by simpa only [hmem] using ht) ⟨fun y => hlater y false, fun y => hlater y true⟩
    simp only [hmem] at hmatches
    exact .fn hs hp hmatches

/-- What follows the word `fn`. -/
def FnMatchesRenamed (rest : List Form) : Prop :=
  ∀ (head : Form) (x t : Text) (P Q : NameRel), head.special? = some .fn →
    Fresh x t (.list (head :: rest)) → Covers P Q x t (freeFn rest) →
    Matches P Q (.form (.list (head :: rest)) (.list (head :: renameFn x t rest)))

theorem FnMatchesRenamed.named (hbody : AllMatchRenamed body) :
    FnMatchesRenamed (.symbol name :: .vector params :: body) := by
  intro head x t P Q hs hfresh hcovers
  have hnames : ∀ y ∈ name :: binders params,
      y ∈ (Form.list (head :: .symbol name :: .vector params :: body)).symbols := by
    intro y hy
    rcases List.mem_cons.mp hy with rfl | hy
    · simp [symbols, symbolsOf]
    · simp [symbols, symbolsOf, mem_symbolsOf_of_binders hy]
  have hbodies : ∀ f ∈ body, Fresh x t f := fun f hf => hfresh.of_list f (by simp [hf])
  rw [freeFn] at hcovers
  rw [renameFn]
  exact matches_fn (some name) hs hbody hbodies (hfresh.not_mem hnames) hcovers

theorem FnMatchesRenamed.unnamed (hbody : AllMatchRenamed body) :
    FnMatchesRenamed (.vector params :: body) := by
  intro head x t P Q hs hfresh hcovers
  have hnames : ∀ y ∈ binders params, y ∈ (Form.list (head :: .vector params :: body)).symbols := by
    intro y hy
    simp [symbols, symbolsOf, mem_symbolsOf_of_binders hy]
  have hbodies : ∀ f ∈ body, Fresh x t f := fun f hf => hfresh.of_list f (by simp [hf])
  rw [freeFn] at hcovers
  rw [renameFn]
  exact matches_fn none hs hbody hbodies (hfresh.not_mem hnames) hcovers

theorem FnMatchesRenamed.fails
    (hnamed : ∀ name params body, rest = .symbol name :: .vector params :: body → False)
    (hunnamed : ∀ params body, rest = .vector params :: body → False) : FnMatchesRenamed rest := by
  intro head x t P Q hs hfresh hcovers
  have hfails : ∃ e, ∀ scope, evalFn rest scope = .error e := by
    cases rest with
    | nil => exact ⟨_, fun _ => rfl⟩
    | cons f rest =>
      cases f with
      | vector params => exact absurd rfl (hunnamed params rest)
      | symbol name =>
        cases rest with
        | nil => exact ⟨_, fun _ => rfl⟩
        | cons g rest =>
          cases g with
          | vector params => exact absurd rfl (hnamed name params rest)
          | _ => exact ⟨_, fun _ => rfl⟩
      | _ => exact ⟨_, fun _ => rfl⟩
  obtain ⟨e, he⟩ := hfails
  rw [renameFn]
  · exact .fnFails hs he he
  · exact hnamed
  · exact hunnamed

/-- What follows the word `loop`. -/
def LoopMatchesRenamed (rest : List Form) : Prop :=
  ∀ (head : Form) (x t : Text) (P Q : NameRel), head.special? = some .loop →
    Fresh x t (.list (head :: rest)) → Covers P Q x t (freeLoop rest) →
    Matches P Q (.form (.list (head :: rest)) (.list (head :: renameLoop x t rest)))

theorem LoopMatchesRenamed.vector (hinits : InitsMatchRenamed bindings) (hbody : AllMatchRenamed body) :
    LoopMatchesRenamed (.vector bindings :: body) := by
  intro head x t P Q hs hfresh hcovers
  rw [renameLoop]
  by_cases hodd : (bindings.length % 2 == 1) = true
  · rw [if_pos hodd]
    exact .loopFails hs fun ev fuel scope => by rw [evalLoop, if_pos hodd]
  rw [if_neg hodd]
  rw [freeLoop] at hcovers
  have hnames : ∀ y ∈ loopNames bindings,
      y ∈ (Form.list (head :: .vector bindings :: body)).symbols := by
    intro y hy
    simp [symbols, symbolsOf, mem_symbolsOf_of_loopNames hy]
  have hbodies : ∀ f ∈ body, Fresh x t f := fun f hf => hfresh.of_list f (by simp [hf])
  have hvector : Fresh x t (.vector bindings) := hfresh.of_list _ (by simp)
  -- the name is not captured before it is bound
  have hclear : Covers P (Q.clear (loopNames bindings)) x t (freeInits bindings) := by
    refine ⟨hcovers.left.now, fun y hy => ⟨hcovers.left.later y hy, ?_⟩⟩
    by_cases hy' : renamed x t y = y
    · exact Or.inl hy'.symm
    · have hyx : y = x := by
        by_contra hne
        exact hy' (if_neg hne)
      have ht : renamed x t y = t := if_pos hyx
      rcases hfresh with htx | ⟨-, hsymbols, hlexical⟩
      · exact absurd (ht.trans (htx.trans hyx.symm)) hy'
      · have hloop : lexicalInits bindings = true := by
          rw [lexical, hs, Bool.and_eq_true, Bool.and_eq_true] at hlexical
          exact hlexical.1.1
        rw [ht]
        exact Or.inr ⟨not_mem_loopNames_of_captured hloop hy, fun hmem => hsymbols (hnames t hmem)⟩
  have hinner := hbody.under (loopNames bindings).reverse hbodies
    (by simpa only [List.mem_reverse] using hfresh.not_mem hnames)
    (by simpa only [outside, List.contains_reverse] using hcovers.right)
  simp only [List.mem_reverse] at hinner
  exact .loop hs (Bool.eq_false_of_not_eq_true hodd) (length_renameInits bindings)
    (loopNames_renameInits bindings) (hinits _ _ _ _ hvector.of_vector hclear) hinner

theorem LoopMatchesRenamed.fails (hvector : ∀ bindings body, rest = .vector bindings :: body → False) :
    LoopMatchesRenamed rest := by
  intro head x t P Q hs hfresh hcovers
  have hfails : ∃ e, ∀ ev fuel scope, evalLoop ev fuel rest scope = Run.fail e := by
    cases rest with
    | nil => exact ⟨_, fun _ _ _ => rfl⟩
    | cons f rest =>
      cases f with
      | vector bindings => exact absurd rfl (hvector bindings rest)
      | _ => exact ⟨_, fun _ _ _ => rfl⟩
  obtain ⟨e, he⟩ := hfails
  rw [renameLoop]
  · exact .loopFails hs he
  · exact hvector

end

/-- A form matches what it is renamed to, and so it matches itself. -/
theorem matchesRenamed (f : Form) : f.MatchesRenamed := by
  apply free.induct MatchesRenamed LoopMatchesRenamed AllMatchRenamed InitsMatchRenamed
    FnMatchesRenamed
  case case1 =>
    intro name x t P Q hfresh hcovers
    exact .symbol (hcovers.now name (List.mem_singleton.mpr rfl))
  case case2 =>
    intro items hitems x t P Q hfresh hcovers
    exact .vector (hitems x t P Q hfresh.of_vector hcovers)
  case case3 =>
    intro x t P Q hfresh hcovers
    exact .empty
  case case4 =>
    intro head rest hs hrest x t P Q hfresh hcovers
    rw [free, hs] at hcovers
    rw [rename, hs]
    exact hrest head x t P Q hs hfresh hcovers
  case case5 =>
    intro head rest hs hrest x t P Q hfresh hcovers
    rw [free, hs] at hcovers
    rw [rename, hs]
    exact hrest head x t P Q hs hfresh hcovers
  case case6 =>
    intro head rest special hfn hloop hs hrest x t P Q hfresh hcovers
    have hinner : head.special? = some .branch ∨ head.special? = some .recur := by
      cases special with
      | fn => exact absurd rfl hfn
      | loop => exact absurd rfl hloop
      | branch => exact Or.inl hs
      | recur => exact Or.inr hs
    have hfree : (Form.list (head :: rest)).free = freeAll rest := by
      rcases hinner with hs | hs <;> rw [free, hs]
    have hrename : (Form.list (head :: rest)).rename x t = .list (head :: renameAll x t rest) := by
      rcases hinner with hs | hs <;> rw [rename, hs]
    rw [hfree] at hcovers
    rw [hrename]
    have hfreshes : ∀ f ∈ rest, Fresh x t f := fun f hf =>
      hfresh.of_list f (List.mem_cons_of_mem _ hf)
    exact .inner hinner (hrest x t P Q hfreshes hcovers)
  case case7 =>
    intro head rest hs hhead hrest x t P Q hfresh hcovers
    obtain ⟨hx, hxs⟩ := List.forall_mem_cons.mp hfresh.of_list
    rw [free, hs] at hcovers
    rw [rename, hs]
    exact .call hs (special?_rename (hx.imp_right And.left) hs) (hhead x t P Q hx hcovers.left)
      (hrest x t P Q hxs hcovers.right)
  case case8 =>
    intro f hsymbol hvector hempty hlist x t P Q hfresh hcovers
    cases f with
    | nil => exact .nil
    | bool => exact .bool
    | int => exact .int
    | text => exact .text
    | symbol name => exact absurd rfl (hsymbol name)
    | vector items => exact absurd rfl (hvector items)
    | list items =>
      cases items with
      | nil => exact absurd rfl hempty
      | cons head rest => exact absurd rfl (hlist head rest)
  case case9 => exact fun bindings body => LoopMatchesRenamed.vector
  case case10 => exact fun rest => LoopMatchesRenamed.fails
  case case11 => exact fun x t P Q hfresh hcovers => .none
  case case12 => exact fun f rest => AllMatchRenamed.cons
  case case13 => exact fun name init rest => InitsMatchRenamed.pair
  case case14 => exact fun bindings => InitsMatchRenamed.done
  case case15 => exact fun name params body => FnMatchesRenamed.named
  case case16 => exact fun params body => FnMatchesRenamed.unnamed
  case case17 => exact fun rest => FnMatchesRenamed.fails

theorem allMatchRenamed (fs : List Form) : AllMatchRenamed fs := by
  induction fs with
  | nil => exact fun x t P Q hfresh hcovers => .none
  | cons f fs ih => exact .cons f.matchesRenamed ih

/-- A form matches itself, whatever belongs together, as long as every name does with itself. -/
theorem matches_self (f : Form) {P Q : NameRel} (hP : ∀ y, (y, false) ∈ f.free → P y y)
    (hQ : ∀ y, (y, true) ∈ f.free → Q y y) : Matches P Q (.form f f) := by
  have hcovers : Covers P Q [] [] f.free :=
    ⟨fun y hy => by rw [renamed_self]; exact hP y hy, fun y hy => by rw [renamed_self]; exact hQ y hy⟩
  have h := f.matchesRenamed [] [] P Q (Or.inl rfl) hcovers
  rwa [rename_self] at h

theorem allMatch_self (fs : List Form) {P Q : NameRel} (hP : ∀ y, P y y) (hQ : ∀ y, Q y y) :
    Matches P Q (.forms fs fs) := by
  induction fs with
  | nil => exact .none
  | cons f fs ih => exact .cons (f.matches_self (fun y _ => hP y) fun y _ => hQ y) ih

end Form

end Denotation
