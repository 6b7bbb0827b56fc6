import Denotation.Proofs.Loops

/-!
# The names that forms use

`Form.free` finds the names that a form uses and does not bind itself, each with a mark that tells
whether a function uses it: such a use outlives the evaluation of the form. `Form.rename` puts another
name in place of one of them. Both go by the text of a program alone: a parameter is bound in the body
of its function, and a name of a loop is bound in the initialisers after it and in the body.

The machine binds more than that: a function that an initialiser makes sees the names of the loop
from its own on as well, as soon as they are bound. `Form.lexicalInits` says that no such function
uses them.
-/

namespace Denotation

namespace Form

/-! ## Free names -/

/-- The names among parameters. -/
def binders : List Form → List Text
  | [] => []
  | .symbol name :: rest => name :: binders rest
  | _ :: rest => binders rest

/-- The uses of other names. -/
def outside (names : List Text) (uses : List (Text × Bool)) : List (Text × Bool) :=
  uses.filter fun u => !names.contains u.1

/-- The uses of other names, by a function. -/
def captured (names : List Text) (uses : List (Text × Bool)) : List (Text × Bool) :=
  (outside names uses).map fun u => (u.1, true)

mutual

/-- The names that a form uses and does not bind, each with a mark whether a function uses it. -/
def free : Form → List (Text × Bool)
  | .symbol name => [(name, false)]
  | .vector items => freeAll items
  | .list [] => []
  | .list (head :: rest) =>
    match head.special? with
    | some .fn => freeFn rest
    | some .loop => freeLoop rest
    | some _ => freeAll rest
    | none => head.free ++ freeAll rest
  | _ => []

def freeAll : List Form → List (Text × Bool)
  | [] => []
  | f :: rest => f.free ++ freeAll rest

/-- The free names of a function, given what follows the word `fn`. -/
def freeFn : List Form → List (Text × Bool)
  | .symbol name :: .vector params :: body => captured (name :: binders params) (freeAll body)
  | .vector params :: body => captured (binders params) (freeAll body)
  | _ => []

/-- The free names of a loop, given what follows the word `loop`. -/
def freeLoop : List Form → List (Text × Bool)
  | .vector bindings :: body => freeInits bindings ++ outside (loopNames bindings) (freeAll body)
  | _ => []

def freeInits : List Form → List (Text × Bool)
  | .symbol name :: init :: rest => init.free ++ outside [name] (freeInits rest)
  | _ => []

end

/-- No initialiser makes a function that uses its own name or a later one. -/
def lexicalInits : List Form → Bool
  | .symbol name :: init :: rest =>
    (name :: loopNames rest).all (fun y => !init.free.contains (y, true)) && lexicalInits rest
  | _ => true

/-- The same of a loop, given what follows the word `loop`. -/
def lexicalLoop : List Form → Bool
  | .vector bindings :: _ => lexicalInits bindings
  | _ => true

mutual

/-- The same of every loop that stands in the form. -/
def lexical : Form → Bool
  | .vector items => lexicalAll items
  | .list [] => true
  | .list (head :: rest) =>
    (head.special? != some .loop || lexicalLoop rest) && head.lexical && lexicalAll rest
  | _ => true

def lexicalAll : List Form → Bool
  | [] => true
  | f :: rest => f.lexical && lexicalAll rest

end

/-! ## Renaming -/

/-- The name that stands for a name once `x` has become `t`. -/
def renamed (x t y : Text) : Text := if y = x then t else y

mutual

/-- The form with the name `t` where `x` is used free. -/
def rename (x t : Text) : Form → Form
  | .symbol name => .symbol (renamed x t name)
  | .vector items => .vector (renameAll x t items)
  | .list (head :: rest) =>
    match head.special? with
    | some .fn => .list (head :: renameFn x t rest)
    | some .loop => .list (head :: renameLoop x t rest)
    | some _ => .list (head :: renameAll x t rest)
    | none => .list (head.rename x t :: renameAll x t rest)
  | f => f

def renameAll (x t : Text) : List Form → List Form
  | [] => []
  | f :: rest => f.rename x t :: renameAll x t rest

def renameFn (x t : Text) : List Form → List Form
  | .symbol name :: .vector params :: body =>
    .symbol name :: .vector params ::
      if x ∈ name :: binders params then body else renameAll x t body
  | .vector params :: body =>
    .vector params :: if x ∈ binders params then body else renameAll x t body
  | rest => rest

def renameLoop (x t : Text) : List Form → List Form
  | .vector bindings :: body =>
    if bindings.length % 2 == 1 then .vector bindings :: body
    else .vector (renameInits x t bindings) ::
      if x ∈ loopNames bindings then body else renameAll x t body
  | rest => rest

def renameInits (x t : Text) : List Form → List Form
  | .symbol name :: init :: rest =>
    .symbol name :: init.rename x t :: if name = x then rest else renameInits x t rest
  | rest => rest

end

/-- The initialisers after the name `x` of a loop, with `z` where they mean that name. -/
def renameUses (x z : Text) : List (Text × Form) → List (Text × Form)
  | [] => []
  | (n, init) :: rest => (n, init.rename x z) :: if n = x then rest else renameUses x z rest

/-- The loop whose name `x` has become `z`, where its initialiser follows `earlier`. -/
def renamedLooping (earlier : List (Text × Form)) (x z : Text) (init : Form)
    (later : List (Text × Form)) (body : List Form) : Form :=
  looping (earlier ++ (z, init) :: renameUses x z later)
    (if x ∈ loopNames (pairs later) then body else renameAll x z body)

section
variable {x t y : Text} {c : Bool} {names : List Text} {uses : List (Text × Bool)}
  {f head : Form} {fs rest bindings : List Form}

theorem mem_outside : (y, c) ∈ outside names uses ↔ (y, c) ∈ uses ∧ y ∉ names := by
  simp [outside]

theorem mem_captured :
    (y, c) ∈ captured names uses ↔ c = true ∧ (∃ d, (y, d) ∈ uses) ∧ y ∉ names := by
  simp only [captured, outside, List.mem_map, List.mem_filter]
  grind

theorem mem_freeAll : (y, c) ∈ freeAll fs ↔ ∃ f ∈ fs, (y, c) ∈ f.free := by
  induction fs with
  | nil => simp [freeAll]
  | cons f fs ih => simp [freeAll, ih]

theorem mem_symbolsOf : y ∈ symbolsOf fs ↔ ∃ f ∈ fs, y ∈ f.symbols := by
  induction fs with
  | nil => simp [symbolsOf]
  | cons f fs ih => simp [symbolsOf, ih]

theorem symbolsOf_subset {fs' : List Form} (h : ∀ f ∈ fs, f ∈ fs') (hy : y ∈ symbolsOf fs) :
    y ∈ symbolsOf fs' := by
  obtain ⟨f, hf, hmem⟩ := mem_symbolsOf.mp hy
  exact mem_symbolsOf.mpr ⟨f, h f hf, hmem⟩

theorem lexicalAll_iff : lexicalAll fs = true ↔ ∀ f ∈ fs, f.lexical = true := by
  induction fs with
  | nil => simp [lexicalAll]
  | cons f fs ih => simp [lexicalAll, ih]

theorem renameAll_eq_map (fs : List Form) : renameAll x t fs = fs.map (rename x t) := by
  induction fs with
  | nil => rfl
  | cons f fs ih => rw [renameAll, ih, List.map_cons]

theorem loopNames_renameInits (bindings : List Form) :
    loopNames (renameInits x t bindings) = loopNames bindings := by
  fun_induction loopNames bindings with
  | case1 name init rest ih =>
    rw [renameInits, loopNames]
    split
    · rfl
    · rw [ih]
  | case2 bindings hpair =>
    rw [renameInits, loopNames]
    · exact hpair
    · exact hpair

theorem length_renameInits (bindings : List Form) :
    (renameInits x t bindings).length = bindings.length := by
  fun_induction loopNames bindings with
  | case1 name init rest ih =>
    rw [renameInits]
    split
    · rfl
    · simp [ih]
  | case2 bindings hpair =>
    rw [renameInits]
    exact hpair

/-- A name of the loop that a function of an initialiser uses free is bound before it. -/
theorem not_mem_loopNames_of_captured (h : lexicalInits bindings = true)
    (hy : (y, true) ∈ freeInits bindings) : y ∉ loopNames bindings := by
  fun_induction lexicalInits bindings with
  | case1 name init rest ih =>
    rw [Bool.and_eq_true] at h
    rw [freeInits, List.mem_append, mem_outside] at hy
    rw [loopNames]
    rcases hy with hinit | ⟨hrest, hname⟩
    · intro hmem
      have hnot := List.all_eq_true.mp h.1 y hmem
      simp [hinit] at hnot
    · have hlater := ih h.2 hrest
      simpa [hlater] using hname
  | case2 bindings hpair =>
    rw [loopNames]
    · exact List.not_mem_nil
    · exact hpair

end

/-! ## Uses and symbols -/

/-- The uses are of these names. -/
def UsesOf (names : List Text) (uses : List (Text × Bool)) : Prop :=
  ∀ y c, (y, c) ∈ uses → y ∈ names

namespace UsesOf

variable {names names' bound : List Text} {uses uses' : List (Text × Bool)}

theorem nil : UsesOf names [] := fun _ _ h => absurd h List.not_mem_nil

theorem mono (h : UsesOf names uses) (hnames : names ⊆ names') : UsesOf names' uses :=
  fun y c hy => hnames (h y c hy)

theorem append (h : UsesOf names uses) (h' : UsesOf names uses') : UsesOf names (uses ++ uses') :=
  fun y c hy => (List.mem_append.mp hy).elim (h y c) (h' y c)

theorem outside (h : UsesOf names uses) (bound : List Text) :
    UsesOf names (outside bound uses) := fun y c hy => h y c (mem_outside.mp hy).1

theorem captured (h : UsesOf names uses) (bound : List Text) :
    UsesOf names (captured bound uses) := by
  intro y c hy
  obtain ⟨-, ⟨d, hd⟩, -⟩ := mem_captured.mp hy
  exact h y d hd

end UsesOf

theorem symbolsOf_subset_cons (f : Form) (fs : List Form) : symbolsOf fs ⊆ symbolsOf (f :: fs) := by
  rw [symbolsOf]
  exact List.subset_append_right _ _

theorem symbols_subset_cons (f : Form) (fs : List Form) : f.symbols ⊆ symbolsOf (f :: fs) := by
  rw [symbolsOf]
  exact List.subset_append_left _ _

/-- Names that are used stand in the form. -/
theorem mem_symbols_of_free (f : Form) : UsesOf f.symbols f.free := by
  apply free.induct (fun f => UsesOf f.symbols f.free)
    (fun rest => UsesOf (symbolsOf rest) (freeLoop rest))
    (fun fs => UsesOf (symbolsOf fs) (freeAll fs))
    (fun bindings => UsesOf (symbolsOf bindings) (freeInits bindings))
    (fun rest => UsesOf (symbolsOf rest) (freeFn rest))
  case case1 =>
    intro name y c hy
    rw [free] at hy
    cases List.mem_singleton.mp hy
    exact List.mem_singleton.mpr rfl
  case case2 =>
    intro items ih
    rw [free, symbols]
    exact ih
  case case3 =>
    rw [free]
    exact .nil
  case case4 | case5 =>
    intro head rest hspecial ih
    simp only [free, hspecial, symbols]
    exact ih.mono (symbolsOf_subset_cons head rest)
  case case6 =>
    intro head rest special hfn hloop hspecial ih
    cases special with
    | fn => exact absurd rfl hfn
    | loop => exact absurd rfl hloop
    | branch | recur =>
      simp only [free, hspecial, symbols]
      exact ih.mono (symbolsOf_subset_cons head rest)
  case case7 =>
    intro head rest hspecial hhead hrest
    simp only [free, hspecial, symbols]
    exact (hhead.mono (symbols_subset_cons head rest)).append
      (hrest.mono (symbolsOf_subset_cons head rest))
  case case8 =>
    intro f hsymbol hvector hnil hcons
    rw [free]
    · exact .nil
    · exact hsymbol
    · exact hvector
    · exact hnil
    · exact hcons
  case case9 =>
    intro bindings body hinits hbody
    rw [freeLoop]
    exact (hinits.mono (symbols_subset_cons (.vector bindings) body)).append
      ((hbody.mono (symbolsOf_subset_cons (.vector bindings) body)).outside _)
  case case10 =>
    intro rest hvector
    rw [freeLoop]
    · exact .nil
    · exact hvector
  case case11 =>
    rw [freeAll]
    exact .nil
  case case12 =>
    intro f rest hf hrest
    rw [freeAll]
    exact (hf.mono (symbols_subset_cons f rest)).append (hrest.mono (symbolsOf_subset_cons f rest))
  case case13 =>
    intro name init rest hinit hrest
    rw [freeInits]
    refine UsesOf.mono ?_ (symbolsOf_subset_cons (.symbol name) (init :: rest))
    exact (hinit.mono (symbols_subset_cons init rest)).append
      ((hrest.mono (symbolsOf_subset_cons init rest)).outside [name])
  case case14 =>
    intro bindings hpair
    rw [freeInits]
    · exact .nil
    · exact hpair
  case case15 =>
    intro name params body hbody
    rw [freeFn]
    refine UsesOf.mono ?_ (symbolsOf_subset_cons (.symbol name) (.vector params :: body))
    exact (hbody.mono (symbolsOf_subset_cons (.vector params) body)).captured _
  case case16 =>
    intro params body hbody
    rw [freeFn]
    exact (hbody.mono (symbolsOf_subset_cons (.vector params) body)).captured _
  case case17 =>
    intro rest hname hvector
    rw [freeFn]
    · exact .nil
    · exact hname
    · exact hvector

/-! ## Uses after renaming -/

theorem special?_rename {x t : Text} {head : Form} (ht : t = x ∨ (Form.symbol t).special? = none)
    (hs : head.special? = none) : (head.rename x t).special? = none := by
  cases head with
  | symbol y =>
    rw [rename, renamed]
    split
    · rename_i hy
      rcases ht with rfl | hspecial
      · rwa [← hy]
      · exact hspecial
    · exact hs
  | list items =>
    cases items with
    | nil => rfl
    | cons f rest =>
      rw [rename]
      split <;> rfl
  | _ => rfl

/-- The uses are those given before or of the new name. -/
def BringsIn (t : Text) (uses uses' : List (Text × Bool)) : Prop :=
  ∀ y c, (y, c) ∈ uses' → y = t ∨ (y, c) ∈ uses

namespace BringsIn

variable {t : Text} {uses uses' more more' : List (Text × Bool)}

theorem refl (t : Text) (uses : List (Text × Bool)) : BringsIn t uses uses := fun _ _ => Or.inr

theorem append (h : BringsIn t uses uses') (h' : BringsIn t more more') :
    BringsIn t (uses ++ more) (uses' ++ more') := by
  intro y c hy
  rcases List.mem_append.mp hy with hy | hy
  · exact (h y c hy).imp_right (List.mem_append_left _)
  · exact (h' y c hy).imp_right (List.mem_append_right _)

theorem outside (h : BringsIn t uses uses') (bound : List Text) :
    BringsIn t (outside bound uses) (outside bound uses') := by
  intro y c hy
  obtain ⟨huse, hbound⟩ := mem_outside.mp hy
  exact (h y c huse).imp_right fun hy => mem_outside.mpr ⟨hy, hbound⟩

theorem captured (h : BringsIn t uses uses') (bound : List Text) :
    BringsIn t (captured bound uses) (captured bound uses') := by
  intro y c hy
  obtain ⟨rfl, ⟨d, huse⟩, hbound⟩ := mem_captured.mp hy
  exact (h y d huse).imp_right fun hy => mem_captured.mpr ⟨rfl, ⟨d, hy⟩, hbound⟩

/-- A body in which the name is not meant keeps its uses. -/
theorem ofBody {p : Prop} [Decidable p] {body body' : List Form}
    (h : BringsIn t (freeAll body) (freeAll body')) :
    BringsIn t (freeAll body) (freeAll (if p then body else body')) := by
  split
  · exact .refl t _
  · exact h

end BringsIn

/-- Renaming brings in the new name and no other. -/
theorem free_of_rename {x t : Text} (ht : (Form.symbol t).special? = none) (f : Form) :
    BringsIn t f.free (f.rename x t).free := by
  apply rename.induct (fun f => BringsIn t f.free (f.rename x t).free)
    (fun rest => BringsIn t (freeLoop rest) (freeLoop (renameLoop x t rest)))
    (fun fs => BringsIn t (freeAll fs) (freeAll (renameAll x t fs)))
    (fun bindings => BringsIn t (freeInits bindings) (freeInits (renameInits x t bindings)))
    (fun rest => BringsIn t (freeFn rest) (freeFn (renameFn x t rest)))
  case case1 =>
    intro name
    rw [rename, renamed]
    split
    · intro y c hy
      rw [free] at hy
      cases List.mem_singleton.mp hy
      exact Or.inl rfl
    · exact .refl t _
  case case2 =>
    intro items ih
    rw [rename, free, free]
    exact ih
  case case3 | case4 =>
    intro head rest hspecial ih
    simp only [rename, free, hspecial]
    exact ih
  case case5 =>
    intro head rest special hfn hloop hspecial ih
    cases special with
    | fn => exact absurd rfl hfn
    | loop => exact absurd rfl hloop
    | branch | recur =>
      simp only [rename, free, hspecial]
      exact ih
  case case6 =>
    intro head rest hspecial hhead hrest
    simp only [rename, free, hspecial, special?_rename (Or.inr ht) hspecial]
    exact hhead.append hrest
  case case7 =>
    intro f hsymbol hvector hlist
    rw [rename]
    · exact .refl t _
    · exact hsymbol
    · exact hvector
    · exact hlist
  case case8 =>
    intro bindings body hodd
    rw [renameLoop, if_pos hodd]
    exact .refl t _
  case case9 =>
    intro bindings body heven hinits hbody
    rw [renameLoop, if_neg heven, freeLoop, freeLoop, loopNames_renameInits]
    exact hinits.append (hbody.ofBody.outside _)
  case case10 =>
    intro rest hvector
    rw [renameLoop]
    · exact .refl t _
    · exact hvector
  case case11 => exact .refl t _
  case case12 =>
    intro f rest hf hrest
    rw [renameAll, freeAll, freeAll]
    exact hf.append hrest
  case case13 =>
    intro name init rest hinit hrest
    rw [renameInits, freeInits, freeInits]
    refine hinit.append (BringsIn.outside ?_ [name])
    split
    · exact .refl t _
    · exact hrest
  case case14 =>
    intro bindings hpair
    rw [renameInits]
    · exact .refl t _
    · exact hpair
  case case15 =>
    intro name params body hbody
    rw [renameFn, freeFn, freeFn]
    exact hbody.ofBody.captured _
  case case16 =>
    intro params body hbody
    rw [renameFn, freeFn, freeFn]
    exact hbody.ofBody.captured _
  case case17 =>
    intro rest hname hvector
    rw [renameFn]
    · exact .refl t _
    · exact hname
    · exact hvector

theorem renamed_self (x y : Text) : renamed x x y = y := by
  rw [renamed]
  split
  · rename_i hy
    rw [hy]
  · rfl

theorem rename_self (x : Text) (f : Form) : f.rename x x = f := by
  apply rename.induct (fun f => f.rename x x = f) (fun rest => renameLoop x x rest = rest)
    (fun fs => renameAll x x fs = fs) (fun bindings => renameInits x x bindings = bindings)
    (fun rest => renameFn x x rest = rest)
  case case1 =>
    intro name
    rw [rename, renamed_self]
  case case2 =>
    intro items ih
    rw [rename, ih]
  case case3 | case4 =>
    intro head rest hspecial ih
    simp only [rename, hspecial, ih]
  case case5 =>
    intro head rest special hfn hloop hspecial ih
    cases special with
    | fn => exact absurd rfl hfn
    | loop => exact absurd rfl hloop
    | branch | recur => simp only [rename, hspecial, ih]
  case case6 =>
    intro head rest hspecial hhead hrest
    simp only [rename, hspecial, hhead, hrest]
  case case7 =>
    intro f hsymbol hvector hlist
    rw [rename]
    · exact hsymbol
    · exact hvector
    · exact hlist
  case case8 =>
    intro bindings body hodd
    rw [renameLoop, if_pos hodd]
  case case9 =>
    intro bindings body heven hinits hbody
    rw [renameLoop, if_neg heven, hinits, hbody, ite_self]
  case case10 =>
    intro rest hvector
    rw [renameLoop]
    exact hvector
  case case11 => rfl
  case case12 =>
    intro f rest hf hrest
    rw [renameAll, hf, hrest]
  case case13 =>
    intro name init rest hinit hrest
    rw [renameInits, hinit, hrest, ite_self]
  case case14 =>
    intro bindings hpair
    rw [renameInits]
    exact hpair
  case case15 =>
    intro name params body hbody
    rw [renameFn, hbody, ite_self]
  case case16 =>
    intro params body hbody
    rw [renameFn, hbody, ite_self]
  case case17 =>
    intro rest hname hvector
    rw [renameFn]
    · exact hname
    · exact hvector

theorem renameAll_self (x : Text) (fs : List Form) : renameAll x x fs = fs := by
  rw [renameAll_eq_map]
  exact List.map_id'' (rename_self x) fs

theorem renameInits_self (x : Text) (bindings : List Form) :
    renameInits x x bindings = bindings := by
  fun_induction loopNames bindings with
  | case1 name init rest ih => rw [renameInits, rename_self, ih, ite_self]
  | case2 bindings hpair =>
    rw [renameInits]
    exact hpair

/-- Behind a name of the loop, that name is not renamed. -/
theorem renameInits_pair (x t name : Text) (init : Form) (rest : List Form) :
    renameInits x t (.symbol name :: init :: rest)
      = .symbol name :: init.rename x t :: renameInits x (if x ∈ [name] then x else t) rest := by
  rw [renameInits]
  by_cases hname : name = x
  · rw [if_pos hname, if_pos (by simp [hname]), renameInits_self]
  · rw [if_neg hname, if_neg (by simpa using Ne.symm hname)]

end Form

end Denotation
