import Denotation.Target.Rendering

/-!
# Gaps in trees

A program of the language, seen as a tree that might have had gaps, has none: the renderer that may
stop at a gap then gives the denotation of the program in every target.

A tree with gaps has no rendering in any target, and the first gap from left to right is to blame.
`Reports` says how the rendering of a part stops at the first gap, with an error and no text; every
construct renders its parts one after the other, so one rule serves them all.
-/

namespace Denotation

theorem Dialect.binary_done (d : Dialect) (op : Text → Text → Text) (l r : Text) :
    d.binary op (.done l) (.done r) = .done (d.function (op (d.applied l) (d.applied r))) := rfl

theorem Expr.tryRender_mapGaps (d : Dialect) (e : Expr Empty) :
    (e.mapGaps Empty.elim).tryRender d = .done (e.render d) := by
  induction e with
  | «variable» name => rfl
  | number n => rfl
  | boolean b => rfl
  | add l r ihl ihr | multiply l r ihl ihr | lessThan l r ihl ihr =>
    rw [mapGaps, tryRender, ihl, ihr, d.binary_done, render]
  | gap g => exact g.elim

theorem Stmt.tryRender_mapGaps (d : Dialect) (s : Stmt Empty) :
    (s.mapGaps Empty.elim).tryRender d = .done (s.render d) := by
  induction s with
  | doNothing => rfl
  | assign name e =>
    rw [mapGaps, tryRender, e.tryRender_mapGaps]
    rfl
  | sequence a b iha ihb =>
    rw [mapGaps, tryRender, iha, ihb]
    rfl
  | branch c a b iha ihb =>
    rw [mapGaps, tryRender, c.tryRender_mapGaps, iha, ihb]
    rfl
  | loop c a ih =>
    rw [mapGaps, tryRender, c.tryRender_mapGaps, ih]
    rfl
  | gap g => exact g.elim

theorem Node.tryRender_mapGaps (d : Dialect) (n : Node Empty) :
    (n.mapGaps Empty.elim).tryRender d = .done (n.render d) := by
  cases n with
  | expr e => exact e.tryRender_mapGaps d
  | stmt s => exact s.tryRender_mapGaps d
  | gap g => exact g.elim

theorem Target.ofName_name (t : Target) : Target.ofName t.name = .ok t := by
  cases t <;> rfl

theorem Target.ofName_eq_ok_iff {name : Text} {t : Target} :
    Target.ofName name = .ok t ↔ t.name = name := by
  constructor
  · intro h
    unfold Target.ofName at h
    cases hfind : Target.ofName? name with
    | none =>
      rw [hfind] at h
      cases h
    | some u =>
      rw [hfind] at h
      cases h
      exact beq_iff_eq.mp (List.find?_some (p := fun u : Target => u.name == name) hfind)
  · rintro rfl
    exact t.ofName_name

/-- What a tree is rendered to in a target: the text, or the error. -/
theorem Node.renderFor_name (n : Node Gap) (t : Target) :
    n.renderFor t.name = (n.tryRender t.dialect).error.elim (.ok (n.tryRender t.dialect).text)
      fun u => .error (.unknown u) := by
  have htarget : (Target.ofName t.name).mapError RenderError.unsupported = .ok t := by
    rw [t.ofName_name]
    rfl
  rw [renderFor, htarget]
  simp only [bind, Except.bind]
  cases (n.tryRender t.dialect).error <;> rfl

/-- A program of the language has a rendering in every target. -/
theorem Node.renderFor_mapGaps (n : Node Empty) (t : Target) :
    (n.mapGaps Empty.elim).renderFor t.name = .ok (n.render t.dialect) := by
  rw [renderFor_name, n.tryRender_mapGaps]
  rfl

/-! ## The first gap -/

/-- The gaps of an expression from left to right. -/
def Expr.gaps : Expr Gap → List UnknownVariant
  | .variable _ | .number _ | .boolean _ => []
  | .add l r | .multiply l r | .lessThan l r => l.gaps ++ r.gaps
  | .gap g => [⟨.expression, g⟩]

/-- The gaps of a statement from left to right, those of a condition first. -/
def Stmt.gaps : Stmt Gap → List UnknownVariant
  | .doNothing => []
  | .assign _ e => e.gaps
  | .sequence a b => a.gaps ++ b.gaps
  | .branch c a b => c.gaps ++ (a.gaps ++ b.gaps)
  | .loop c a => c.gaps ++ a.gaps
  | .gap g => [⟨.statement, g⟩]

/-- The gaps of a program from left to right. -/
def Node.gaps : Node Gap → List UnknownVariant
  | .expr e => e.gaps
  | .stmt s => s.gaps
  | .gap g => [⟨.program, g⟩]

/-- A rendering that stops at the first of the gaps without any text, or has none to stop at. -/
inductive Reports : Rendered → List UnknownVariant → Prop where
  | whole {text : Text} : Reports ⟨text, none⟩ []
  | first {u : UnknownVariant} {later : List UnknownVariant} : Reports ⟨[], some u⟩ (u :: later)

namespace Reports

variable {r left right : Rendered} {f : Text → Rendered} {gs hs : List UnknownVariant} {d : Dialect}

theorem andThen (hr : Reports r gs) (hf : ∀ text, Reports (f text) hs) :
    Reports (r.andThen f) (gs ++ hs) := by
  cases hr with
  | whole => exact hf _
  | first => exact .first

/-- The last part of a construct. -/
theorem andDone (hr : Reports r gs) (f : Text → Text) :
    Reports (r.andThen fun text => .done (f text)) gs := by
  have h : Reports (r.andThen fun text => .done (f text)) (gs ++ []) := hr.andThen fun _ => .whole
  rwa [List.append_nil] at h

theorem applied (hr : Reports r gs) : Reports (d.appliedPart r) gs := hr.andDone d.applied

theorem binary (hl : Reports left gs) (hr : Reports right hs) (op : Text → Text → Text) :
    Reports (d.binary op left right) (gs ++ hs) :=
  hl.applied.andThen fun l => hr.applied.andDone fun r => d.function (op l r)

theorem error_eq (h : Reports r gs) : r.error = gs.head? := by
  cases h <;> rfl

theorem text_of_cons {u : UnknownVariant} {later : List UnknownVariant}
    (h : Reports r (u :: later)) : r = ⟨[], some u⟩ := by
  cases h
  rfl

end Reports

theorem Expr.tryRender_reports (d : Dialect) (e : Expr Gap) : Reports (e.tryRender d) e.gaps := by
  induction e with
  | «variable» name | number n | boolean b => exact .whole
  | add l r ihl ihr | multiply l r ihl ihr | lessThan l r ihl ihr => exact ihl.binary ihr _
  | gap g => exact .first

theorem Stmt.tryRender_reports (d : Dialect) (s : Stmt Gap) : Reports (s.tryRender d) s.gaps := by
  induction s with
  | doNothing => exact .whole
  | assign name e => exact (e.tryRender_reports d).applied.andDone _
  | sequence a b iha ihb => exact iha.applied.andThen fun first => ihb.andDone _
  | branch c a b iha ihb =>
    refine (c.tryRender_reports d).applied.andThen fun condition => ?_
    exact iha.applied.andThen fun consequence => ihb.applied.andDone _
  | loop c a ih =>
    exact (c.tryRender_reports d).applied.andThen fun condition => ih.applied.andDone _
  | gap g => exact .first

theorem Node.tryRender_reports (d : Dialect) (n : Node Gap) : Reports (n.tryRender d) n.gaps := by
  cases n with
  | expr e => exact e.tryRender_reports d
  | stmt s => exact s.tryRender_reports d
  | gap g => exact .first

/-- What the error about a gap says: where it stands, and the type of what stands there. -/
inductive UnknownVariant.Says : UnknownVariant → Text → Prop where
  | noExpression : Says ⟨.expression, .missing⟩ "unknown node variant: expression <nil>"
  | expression (f : Foreign) :
      Says ⟨.expression, .foreign f⟩ ("unknown node variant: expression " ++ f.typeName)
  | noStatement : Says ⟨.statement, .missing⟩ "unknown node variant: statement <nil>"
  | statement (f : Foreign) :
      Says ⟨.statement, .foreign f⟩ ("unknown node variant: statement " ++ f.typeName)
  | noProgram : Says ⟨.program, .missing⟩ "unknown node variant: <nil>"
  | program (f : Foreign) : Says ⟨.program, .foreign f⟩ ("unknown node variant: " ++ f.typeName)

theorem UnknownVariant.message_says (u : UnknownVariant) : u.Says u.message := by
  obtain ⟨slot, gap⟩ := u
  cases slot with
  | expression =>
    cases gap with
    | missing => exact .noExpression
    | foreign f => exact .expression f
  | statement =>
    cases gap with
    | missing => exact .noStatement
    | foreign f => exact .statement f
  | program =>
    cases gap with
    | missing => exact .noProgram
    | foreign f => exact .program f

/-! ## Several targets -/

section
variable {α β ε : Type} {f : α → Except ε β}

/-- Going through a list succeeds with the results for its items, in order. -/
theorem mapM_pairs_eq_ok {xs : List α} {ps : List (α × β)} :
    (xs.mapM fun x => return (x, ← f x)) = .ok ps ↔
      ps.map Prod.fst = xs ∧ ∀ p ∈ ps, f p.1 = .ok p.2 := by
  induction xs generalizing ps with
  | nil =>
    constructor
    · intro h
      cases h
      exact ⟨rfl, fun p hp => absurd hp List.not_mem_nil⟩
    · rintro ⟨hnil, -⟩
      rw [List.map_eq_nil_iff.mp hnil]
      rfl
  | cons x xs ih =>
    rw [List.mapM_cons]
    constructor
    · intro h
      cases hx : f x with
      | error e =>
        rw [hx] at h
        cases h
      | ok b =>
        cases hxs : xs.mapM fun x => return (x, ← f x) with
        | error e =>
          rw [hx, hxs] at h
          cases h
        | ok qs =>
          obtain ⟨hnames, hqs⟩ := ih.mp hxs
          rw [hx, hxs] at h
          cases h
          exact ⟨by rw [List.map_cons, hnames], List.forall_mem_cons.mpr ⟨hx, hqs⟩⟩
    · rintro ⟨hnames, hps⟩
      cases ps with
      | nil => cases hnames
      | cons p ps =>
        obtain ⟨rfl, hrest⟩ := List.cons.inj hnames
        obtain ⟨hp, hps⟩ := List.forall_mem_cons.mp hps
        rw [hp, ih.mpr ⟨hrest, hps⟩]
        rfl

theorem bind_cons_eq_error {y : Except ε (List β)} {b : β} {e : ε} :
    (y >>= fun bs => pure (b :: bs)) = .error e ↔ y = .error e := by
  cases y with
  | error d => exact Iff.rfl
  | ok bs => constructor <;> intro h <;> cases h

/-- Going through a list fails as its first item does that fails. -/
theorem mapM_pairs_eq_error {xs : List α} {e : ε} :
    (xs.mapM fun x => return (x, ← f x)) = .error e ↔
      ∃ before x after, xs = before ++ x :: after ∧ (∀ y ∈ before, ∃ b, f y = .ok b) ∧
        f x = .error e := by
  induction xs with
  | nil =>
    constructor
    · intro h
      cases h
    · rintro ⟨before, x, after, h, -⟩
      exact absurd h.symm (List.append_ne_nil_of_right_ne_nil _ (List.cons_ne_nil _ _))
  | cons x xs ih =>
    rw [List.mapM_cons]
    cases hx : f x with
    | error d =>
      constructor
      · intro h
        cases h
        exact ⟨[], x, xs, rfl, fun y hy => absurd hy List.not_mem_nil, hx⟩
      · rintro ⟨before, y, after, heq, hbefore, hy⟩
        cases before with
        | nil =>
          obtain ⟨rfl, -⟩ := List.cons.inj heq
          rw [hx] at hy
          cases hy
          rfl
        | cons z before =>
          -- the items before the one that fails have results, and the first of them has none
          obtain ⟨rfl, -⟩ := List.cons.inj heq
          obtain ⟨b, hb⟩ := hbefore x List.mem_cons_self
          rw [hx] at hb
          cases hb
    | ok b =>
      refine bind_cons_eq_error.trans (ih.trans ⟨?_, ?_⟩)
      · rintro ⟨before, y, after, rfl, hbefore, hy⟩
        exact ⟨x :: before, y, after, rfl, List.forall_mem_cons.mpr ⟨⟨b, hx⟩, hbefore⟩, hy⟩
      · rintro ⟨before, y, after, heq, hbefore, hy⟩
        cases before with
        | nil =>
          obtain ⟨rfl, -⟩ := List.cons.inj heq
          rw [hx] at hy
          cases hy
        | cons z before =>
          obtain ⟨-, rfl⟩ := List.cons.inj heq
          exact ⟨before, y, after, rfl, (List.forall_mem_cons.mp hbefore).2, hy⟩

end

/-- A tree is rendered in every target or in none. It has no rendering exactly if it has a gap. The
renderer then stops at the first gap from left to right, in whatever target, with no text and the
error about that gap, and the error says where the gap stands and the type of what stands there. A
list of targets gives all the renderings, or fails as the first target does that fails. -/
theorem Node.renderFor_gaps (n : Node Gap) :
    (∀ t : Target, (∃ text, n.renderFor t.name = .ok text) ↔ n.gaps = []) ∧
    (∀ (t : Target) e, n.renderFor t.name = .error e ↔
      ∃ first later, n.gaps = first :: later ∧ e = .unknown first ∧ first.Says e.message ∧
        n.tryRender t.dialect = ⟨[], some first⟩) ∧
    (∀ names texts, n.renderAll names = .ok texts ↔
      texts.map Prod.fst = names ∧ ∀ p ∈ texts, n.renderFor p.1 = .ok p.2) ∧
    (∀ names e, n.renderAll names = .error e ↔
      ∃ before name after, names = before ++ name :: after ∧
        (∀ x ∈ before, ∃ text, n.renderFor x = .ok text) ∧ n.renderFor name = .error e) := by
  refine ⟨fun t => ?_, fun t e => ?_, fun names texts => mapM_pairs_eq_ok,
    fun names e => mapM_pairs_eq_error⟩
  · have hreports := n.tryRender_reports t.dialect
    rw [n.renderFor_name, hreports.error_eq]
    cases hgaps : n.gaps with
    | nil => exact ⟨fun _ => rfl, fun _ => ⟨_, rfl⟩⟩
    | cons first later =>
      constructor
      · rintro ⟨text, h⟩
        cases h
      · intro h
        cases h
  · have hreports := n.tryRender_reports t.dialect
    rw [n.renderFor_name, hreports.error_eq]
    cases hgaps : n.gaps with
    | nil =>
      constructor
      · intro h
        cases h
      · rintro ⟨first, later, h, -⟩
        cases h
    | cons first later =>
      rw [hgaps] at hreports
      constructor
      · intro h
        cases h
        exact ⟨first, later, rfl, rfl, first.message_says, hreports.text_of_cons⟩
      · rintro ⟨first', later', h, rfl, -⟩
        cases h
        rfl

end Denotation
