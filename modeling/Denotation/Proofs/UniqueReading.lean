import Denotation.Proofs.Decimals
import Denotation.Proofs.Gaps
import Denotation.Proofs.Quotation

/-!
# Renderings are read in one way

A rendering is a sequence of segments: fixed bytes, quoted names, decimal integers and renderings of
smaller programs. Read from left to right, such a text can be cut into segments in one way only. A
quoted name ends at its closing quote, an integer before the first byte that is no part of one, and
every smaller rendering before a byte that the target always puts after it, `Target.stop`.

The construct that a text renders need not show at its start: in Python a sum, a sequence and a
choice all start with the same bytes and a smaller rendering. `apart` compares two constructs
segment by segment up to the first place where they differ, and the texts then differ as well. That
any two constructs of a target come apart is a finite check.
-/

namespace Denotation

/-! ## Constructs and their parts -/

/-- The constructs that a program can have at its root. -/
inductive Construct where
  | variable
  | number
  | boolean (b : Bool)
  | add
  | multiply
  | lessThan
  | doNothing
  | assign
  | sequence
  | branch
  | loop
  deriving DecidableEq

def constructs : List Construct :=
  [.variable, .number, .boolean true, .boolean false, .add, .multiply, .lessThan, .doNothing,
    .assign, .sequence, .branch, .loop]

namespace Node

def construct : Node Empty → Construct
  | .expr (.variable _) => .variable
  | .expr (.number _) => .number
  | .expr (.boolean b) => .boolean b
  | .expr (.add _ _) => .add
  | .expr (.multiply _ _) => .multiply
  | .expr (.lessThan _ _) => .lessThan
  | .stmt .doNothing => .doNothing
  | .stmt (.assign _ _) => .assign
  | .stmt (.sequence _ _) => .sequence
  | .stmt (.branch _ _ _) => .branch
  | .stmt (.loop _ _) => .loop

/-- The name at the root of a program, if there is one. -/
def rootName : Node Empty → Text
  | .expr (.variable x) | .stmt (.assign x _) => x
  | _ => []

/-- The integer at the root of a program, if there is one. -/
def rootInteger : Node Empty → Int64
  | .expr (.number k) => k
  | _ => 0

/-- The programs right below the root of a program. -/
def parts : Node Empty → List (Node Empty)
  | .expr (.add l r) | .expr (.multiply l r) | .expr (.lessThan l r) => [.expr l, .expr r]
  | .stmt (.assign _ e) => [.expr e]
  | .stmt (.sequence a b) => [.stmt a, .stmt b]
  | .stmt (.branch c a b) => [.expr c, .stmt a, .stmt b]
  | .stmt (.loop c a) => [.expr c, .stmt a]
  | _ => []

def part (n : Node Empty) (i : Nat) : Node Empty := n.parts.getD i (.stmt .doNothing)

theorem construct_mem (n : Node Empty) : n.construct ∈ constructs := by
  rcases n with (_ | _ | (_ | _) | _ | _ | _ | ⟨⟨⟩⟩) | (_ | _ | _ | _ | _ | ⟨⟨⟩⟩) | ⟨⟨⟩⟩ <;>
    simp [construct, constructs]

end Node

/-! ## Segments -/

namespace Target

/-- What every rendering starts with. -/
def lead : Target → Text
  | .clojure => "(fn [e] "
  | .javascript => "function (e) \x7b "
  | .python => "lambda e: "
  | .ruby => "-> e \x7b "

/-- The byte that follows every rendering inside another. -/
def stop : Target → UInt8
  | .clojure => 0x20
  | .javascript => 0x28
  | .python => 0x29
  | .ruby => 0x29

end Target

theorem prefix_concat {s a : Text} (h : s <+: a) (l : List Text) : s <+: Text.concat (a :: l) :=
  h.trans (List.prefix_append a l.flatten)

namespace Target

variable (t : Target) (c a b : Text)

theorem lead_function : t.lead <+: t.dialect.function b := by
  cases t with
  | python => exact List.prefix_append _ _
  | _ => exact prefix_concat (by decide) _

theorem lead_conditional : t.lead <+: t.dialect.conditional c a b := by
  cases t <;> exact prefix_concat (by decide) _

theorem lead_loop : t.lead <+: t.dialect.loop c b := by
  cases t <;> exact prefix_concat (by decide) _

end Target

theorem Node.lead_render (t : Target) (n : Node Empty) : t.lead <+: n.render t.dialect := by
  cases n with
  | expr e =>
    cases e with
    | gap g => exact g.elim
    | _ => exact t.lead_function _
  | stmt s =>
    cases s with
    | branch c a b => exact t.lead_conditional _ _ _
    | loop c a => exact t.lead_loop _ _
    | gap g => exact g.elim
    | _ => exact t.lead_function _
  | gap g => exact g.elim

/-- The rendering of a program without its start. -/
def Node.core (t : Target) (n : Node Empty) : Text := (n.render t.dialect).drop t.lead.length

theorem Node.lead_append_core (t : Target) (n : Node Empty) :
    t.lead ++ n.core t = n.render t.dialect := by
  obtain ⟨s, hs⟩ := n.lead_render t
  rw [core, ← hs, List.drop_left]

/-- A part of the text of a construct. -/
inductive Segment where
  | byte (b : UInt8)
  /-- The name at the root, in quotes. -/
  | name
  /-- The integer at the root. -/
  | integer
  /-- The rendering of a part, its start apart. -/
  | program (i : Nat)
  deriving DecidableEq

namespace Segment

/-- The segments of a fixed text. -/
def fixed (s : Text) : List Segment := s.map byte

/-- The segments of a whole part. -/
def whole (t : Target) (i : Nat) : List Segment := fixed t.lead ++ [.program i]

variable (t : Target) (n : Node Empty)

/-- The text of a segment in the rendering of a program. -/
def text : Segment → Text
  | .byte b => [b]
  | .name => n.rootName.quote
  | .integer => Text.ofInt64 n.rootInteger
  | .program i => (n.part i).core t

/-- The text of segments one after the other. -/
def texts (l : List Segment) : Text := l.flatMap (text t n)

theorem texts_nil : texts t n [] = [] := rfl

theorem texts_cons (p : Segment) (l : List Segment) :
    texts t n (p :: l) = p.text t n ++ texts t n l := List.flatMap_cons

theorem texts_append (l l' : List Segment) :
    texts t n (l ++ l') = texts t n l ++ texts t n l' := List.flatMap_append

theorem texts_fixed (s : Text) : texts t n (fixed s) = s := by
  induction s with
  | nil => rfl
  | cons b s ih => exact congrArg (b :: ·) ih

theorem texts_whole (i : Nat) : texts t n (whole t i) = (n.part i).render t.dialect := by
  rw [whole, texts_append, texts_fixed, ← (n.part i).lead_append_core]
  simp [texts, text]

end Segment

/-! ## Wordings -/

/-- What a dialect writes, in segments. Names and integers are those of the root. -/
structure Wording where
  param : List Segment
  function : List Segment → List Segment
  apply : List Segment → List Segment → List Segment
  boolean : Bool → List Segment
  add : List Segment → List Segment → List Segment
  multiply : List Segment → List Segment → List Segment
  lessThan : List Segment → List Segment → List Segment
  lookup : List Segment → List Segment
  replace : List Segment → List Segment → List Segment
  conditional : List Segment → List Segment → List Segment → List Segment
  loop : List Segment → List Segment → List Segment

namespace Wording

open Segment

def clojure : Wording where
  param := fixed "e"
  function b := fixed "(fn [e] " ++ b ++ fixed ")"
  apply f x := fixed "(" ++ f ++ fixed " " ++ x ++ fixed ")"
  boolean b := fixed (boolText b)
  add l r := fixed "(+ " ++ l ++ fixed " " ++ r ++ fixed ")"
  multiply l r := fixed "(* " ++ l ++ fixed " " ++ r ++ fixed ")"
  lessThan l r := fixed "(< " ++ l ++ fixed " " ++ r ++ fixed ")"
  lookup e := fixed "(get " ++ e ++ fixed " " ++ name :: fixed ")"
  replace e v := fixed "(assoc " ++ e ++ fixed " " ++ name :: fixed " " ++ v ++ fixed ")"
  conditional c a b := fixed "(fn [e] (if " ++ c ++ fixed " " ++ a ++ fixed " " ++ b ++ fixed "))"
  loop c a := fixed "(fn [e] (if " ++ c ++ fixed " (recur " ++ a ++ fixed ") e))"

def javascript : Wording where
  param := fixed "e"
  function b := fixed "function (e) \x7b return " ++ b ++ fixed "; \x7d"
  apply f x := f ++ fixed "(" ++ x ++ fixed ")"
  boolean b := fixed (boolText b)
  add l r := fixed "(" ++ l ++ fixed ") + (" ++ r ++ fixed ")"
  multiply l r := fixed "(" ++ l ++ fixed ") * (" ++ r ++ fixed ")"
  lessThan l r := fixed "(" ++ l ++ fixed ") < (" ++ r ++ fixed ")"
  lookup e := e ++ fixed "[" ++ name :: fixed "]"
  replace e v :=
    fixed "Object.assign(\x7b\x7d, " ++ e ++ fixed ", \x7b " ++ name :: fixed ": " ++ v ++
      fixed " \x7d)"
  conditional c a b :=
    fixed "function (e) \x7b if (" ++ c ++ fixed ") \x7b return (" ++ a ++
      fixed "); \x7d else \x7b return (" ++ b ++ fixed "); \x7d \x7d"
  loop c a :=
    fixed "function (e) \x7b while (" ++ c ++ fixed ") \x7b e = " ++ a ++
      fixed "; \x7d return e; \x7d"

def python : Wording where
  param := fixed "e"
  function b := fixed "lambda e: " ++ b
  apply f x := fixed "(" ++ f ++ fixed ")(" ++ x ++ fixed ")"
  boolean b := fixed (if b then "True" else "False")
  add l r := l ++ fixed " + " ++ r
  multiply l r := l ++ fixed " * " ++ r
  lessThan l r := l ++ fixed " < " ++ r
  lookup e := e ++ fixed "[" ++ name :: fixed "]"
  replace e v := fixed "\x7b**" ++ e ++ fixed ", " ++ name :: fixed ": " ++ v ++ fixed "\x7d"
  conditional c a b := fixed "lambda e: " ++ a ++ fixed " if " ++ c ++ fixed " else " ++ b
  loop c a :=
    fixed "lambda e: next(e for e in __import__(\"itertools\").accumulate(" ++
      fixed "__import__(\"itertools\").repeat(None), lambda e, _: " ++ a ++
      fixed ", initial=e) if not " ++ c ++ fixed ")"

def ruby : Wording where
  param := fixed "e"
  function b := fixed "-> e \x7b " ++ b ++ fixed " \x7d"
  apply f x := fixed "(" ++ f ++ fixed ").call(" ++ x ++ fixed ")"
  boolean b := fixed (boolText b)
  add l r := l ++ fixed " + " ++ r
  multiply l r := l ++ fixed " * " ++ r
  lessThan l r := l ++ fixed " < " ++ r
  lookup e := e ++ fixed "[" ++ name :: fixed "]"
  replace e v := e ++ fixed ".merge(\x7b " ++ name :: fixed " => " ++ v ++ fixed " \x7d)"
  conditional c a b :=
    fixed "-> e \x7b if " ++ c ++ fixed " then " ++ a ++ fixed " else " ++ b ++ fixed " end \x7d"
  loop c a := fixed "-> e \x7b while " ++ c ++ fixed "; e = " ++ a ++ fixed "; end; e \x7d"

end Wording

/-- The wording of a target. -/
def Target.wording : Target → Wording
  | .clojure => .clojure
  | .javascript => .javascript
  | .python => .python
  | .ruby => .ruby

section
open Segment

/-- In a program of root name `x` and root integer `k`, the wording has the texts of the dialect. -/
structure Wording.Words (w : Wording) (d : Dialect) (x : Text) (k : Int64)
    (text : List Segment → Text) : Prop where
  param : text w.param = d.param
  integer : text [.integer] = d.integer k
  function : ∀ b, text (w.function b) = d.function (text b)
  apply : ∀ f y, text (w.apply f y) = d.apply (text f) (text y)
  boolean : ∀ b, text (w.boolean b) = d.boolean b
  add : ∀ l r, text (w.add l r) = d.add (text l) (text r)
  multiply : ∀ l r, text (w.multiply l r) = d.multiply (text l) (text r)
  lessThan : ∀ l r, text (w.lessThan l r) = d.lessThan (text l) (text r)
  lookup : ∀ e, text (w.lookup e) = d.lookup (text e) x
  replace : ∀ e v, text (w.replace e v) = d.replace (text e) x (text v)
  conditional : ∀ c a b, text (w.conditional c a b) = d.conditional (text c) (text a) (text b)
  loop : ∀ c a, text (w.loop c a) = d.loop (text c) (text a)

theorem Target.words (t : Target) (n : Node Empty) :
    t.wording.Words t.dialect n.rootName n.rootInteger (texts t n) := by
  cases t
  all_goals
    constructor <;> intros <;>
    simp [Target.wording, Target.dialect, Wording.clojure, Wording.javascript, Wording.python,
      Wording.ruby, Dialect.clojure, Dialect.javascript, Dialect.python, Dialect.ruby, texts_append,
      texts_cons, texts_fixed, texts_nil, Segment.text, Text.concat]

end

/-- The segments of a part, applied to the environment. -/
def Target.applied (t : Target) (i : Nat) : List Segment :=
  t.wording.apply (Segment.whole t i) t.wording.param

/-- The segments of a construct. -/
def Construct.script (t : Target) : Construct → List Segment
  | .variable => t.wording.function (t.wording.lookup t.wording.param)
  | .number => t.wording.function [.integer]
  | .boolean b => t.wording.function (t.wording.boolean b)
  | .add => t.wording.function (t.wording.add (t.applied 0) (t.applied 1))
  | .multiply => t.wording.function (t.wording.multiply (t.applied 0) (t.applied 1))
  | .lessThan => t.wording.function (t.wording.lessThan (t.applied 0) (t.applied 1))
  | .doNothing => t.wording.function t.wording.param
  | .assign => t.wording.function (t.wording.replace t.wording.param (t.applied 0))
  | .sequence => t.wording.function (t.wording.apply (Segment.whole t 1) (t.applied 0))
  | .branch => t.wording.conditional (t.applied 0) (t.applied 1) (t.applied 2)
  | .loop => t.wording.loop (t.applied 0) (t.applied 1)

theorem Segment.texts_applied (t : Target) (n : Node Empty) (i : Nat) :
    texts t n (t.applied i) = t.dialect.applied ((n.part i).render t.dialect) := by
  rw [Target.applied, (t.words n).apply, (t.words n).param, texts_whole, Dialect.applied]

/-- A rendering is the text of the script of its construct. -/
theorem Node.texts_script (t : Target) (n : Node Empty) :
    Segment.texts t n (n.construct.script t) = n.render t.dialect := by
  have h := t.words n
  cases n with
  | expr e =>
    cases e with
    | gap g => exact g.elim
    | _ =>
      simp only [construct, Construct.script, h.function, h.lookup, h.param, h.integer, h.boolean,
        h.add, h.multiply, h.lessThan, Segment.texts_applied]
      rfl
  | stmt s =>
    cases s with
    | gap g => exact g.elim
    | _ =>
      simp only [construct, Construct.script, h.function, h.replace, h.param, h.apply,
        h.conditional, h.loop, Segment.texts_applied, Segment.texts_whole]
      rfl
  | gap g => exact g.elim

/-! ## Comparing scripts -/

namespace Segment

/-- The segments hold the same kind of text. -/
def alike : Segment → Segment → Bool
  | .program _, .program _ => true
  | p, q => p == q

/-- No text of one segment starts like a text of the other. -/
def clashes : Segment → Segment → Bool
  | .byte a, .byte b => a != b
  | .byte a, .name | .name, .byte a => a != 0x22
  | .byte a, .integer | .integer, .byte a => !Text.numerals.contains a
  | .name, .integer | .integer, .name => true
  | _, _ => false

/-- The first two segments that are not alike do not start alike. -/
def apart : List Segment → List Segment → Bool
  | p :: l, q :: l' => if p.alike q then apart l l' else p.clashes q
  | _, _ => false

/-- The byte shows where the segment ends. -/
def closedBy (t : Target) : Segment → UInt8 → Bool
  | .integer, b => !Text.numerals.contains b
  | .program _, b => b == t.stop
  | _, _ => true

/-- Every name, integer and program is followed by a byte that shows where it ends. -/
def delimited (t : Target) : List Segment → Bool
  | [] => true
  | .byte _ :: l => delimited t l
  | p :: .byte b :: l => p.closedBy t b && delimited t l
  | _ => false

end Segment

/-- The segments of a construct and of the byte after its rendering. -/
def Construct.stopped (t : Target) (k : Construct) : List Segment :=
  k.script t ++ [Segment.byte t.stop]

/-- What the text of a construct holds besides bytes. -/
def Construct.holes : Construct → List Segment
  | .variable => [.name]
  | .number => [.integer]
  | .boolean _ | .doNothing => []
  | .add | .multiply | .lessThan | .sequence | .loop => [.program 0, .program 1]
  | .assign => [.name, .program 0]
  | .branch => [.program 0, .program 1, .program 2]

/-- The script is delimited, it holds the holes of the construct and besides bytes nothing else, and
it comes apart from the script of every other construct. -/
def Construct.isClear (t : Target) (k : Construct) : Bool :=
  Segment.delimited t (k.stopped t) && k.holes.all (k.stopped t).contains
    && (k.stopped t).all (fun p => k.holes.contains p || p matches .byte _)
    && constructs.all fun k' => k == k' || Segment.apart (k.stopped t) (k'.stopped t)

theorem constructs_clear (t : Target) : constructs.all (Construct.isClear t) = true := by
  cases t <;> decide +kernel

namespace Construct

variable {k : Construct}

theorem isClear_of_mem (t : Target) (hk : k ∈ constructs) :
    Segment.delimited t (k.stopped t) = true ∧ (∀ p ∈ k.holes, p ∈ k.stopped t) ∧
      (∀ i, .program i ∈ k.stopped t → .program i ∈ k.holes) ∧
      ∀ k' ∈ constructs, k ≠ k' → Segment.apart (k.stopped t) (k'.stopped t) = true := by
  have h := List.all_eq_true.mp (constructs_clear t) k hk
  simp only [isClear, Bool.and_eq_true, List.all_eq_true, List.contains_eq_mem, decide_eq_true_eq,
    Bool.or_eq_true, beq_iff_eq] at h
  obtain ⟨⟨⟨hdelimited, hholes⟩, honly⟩, hapart⟩ := h
  refine ⟨hdelimited, hholes, fun i hi => ?_, fun k' hk' hne => ?_⟩
  · simpa using honly _ hi
  · simpa [hne] using hapart k' hk'

end Construct

/-! ## Reading scripts -/

/-- The rendering of the program in front of its stop is recognised among all renderings. -/
def Node.Legible (t : Target) (n : Node Empty) : Prop :=
  ∀ (n' : Node Empty) (s s' : Text),
    n.render t.dialect ++ t.stop :: s = n'.render t.dialect ++ t.stop :: s' → n = n' ∧ s = s'

theorem Node.core_append_inj {t : Target} {m n : Node Empty} {s s' : Text} (hm : m.Legible t)
    (h : m.core t ++ t.stop :: s = n.core t ++ t.stop :: s') : m = n ∧ s = s' := by
  refine hm n s s' ?_
  rw [← m.lead_append_core, ← n.lead_append_core, List.append_assoc, List.append_assoc, h]

namespace Segment

/-- Two programs have the same in the segment. -/
def Agrees (m n : Node Empty) : Segment → Prop
  | .byte _ => True
  | .name => m.rootName = n.rootName
  | .integer => m.rootInteger = n.rootInteger
  | .program i => m.part i = n.part i

variable {t : Target} {m n : Node Empty} {p q : Segment} {l l' : List Segment} {s s' : Text}

/-- Two segments that are alike, each in front of a byte that shows where it ends. -/
theorem text_append_inj {b b' : UInt8} (hpq : p.alike q = true) (hb : p.closedBy t b = true)
    (hb' : q.closedBy t b' = true) (hp : ∀ i, p = .program i → (m.part i).Legible t)
    (h : p.text t m ++ b :: s = q.text t n ++ b' :: s') :
    (p = q → p.Agrees m n) ∧ b :: s = b' :: s' := by
  cases p with
  | byte c =>
    obtain rfl := beq_iff_eq.mp hpq
    exact ⟨fun _ => trivial, (List.cons.inj h).2⟩
  | name =>
    obtain rfl := beq_iff_eq.mp hpq
    obtain ⟨hname, hrest⟩ := Text.quote_append_inj h
    exact ⟨fun _ => hname, hrest⟩
  | integer =>
    obtain rfl := beq_iff_eq.mp hpq
    simp only [closedBy, Bool.not_eq_true', List.contains_eq_mem, decide_eq_false_iff_not]
      at hb hb'
    obtain ⟨hinteger, hrest⟩ := Text.ofInt_append_inj hb hb' h
    exact ⟨fun _ => Int64.toInt_inj.mp hinteger, hrest⟩
  | program i =>
    cases q with
    | program j =>
      obtain rfl := beq_iff_eq.mp hb
      obtain rfl := beq_iff_eq.mp hb'
      obtain ⟨hpart, rfl⟩ := Node.core_append_inj (hp i rfl) h
      refine ⟨fun hij => ?_, rfl⟩
      cases hij
      exact hpart
    | _ => cases hpq

theorem delimited_cons (h : delimited t (p :: l) = true) :
    delimited t l = true ∧
      ((∃ b, p = .byte b) ∨ ∃ b l₀, l = .byte b :: l₀ ∧ p.closedBy t b = true) := by
  cases p with
  | byte b => exact ⟨h, Or.inl ⟨b, rfl⟩⟩
  | _ =>
    cases l with
    | nil => cases h
    | cons q l =>
      cases q with
      | byte b =>
        obtain ⟨hb, hl⟩ := Bool.and_eq_true_iff.mp h
        exact ⟨hl, Or.inr ⟨b, l, rfl, hb⟩⟩
      | _ => cases h

/-- The first segments of delimited scripts, if they are alike. -/
theorem texts_cons_inj (hpq : p.alike q = true) (hl : delimited t (p :: l) = true)
    (hl' : delimited t (q :: l') = true) (hp : ∀ i, p = .program i → (m.part i).Legible t)
    (h : texts t m (p :: l) ++ s = texts t n (q :: l') ++ s') :
    (p = q → p.Agrees m n) ∧ texts t m l ++ s = texts t n l' ++ s' := by
  rw [texts_cons, texts_cons, List.append_assoc, List.append_assoc] at h
  rcases (delimited_cons hl).2 with ⟨c, rfl⟩ | ⟨b, l₀, rfl, hb⟩
  · obtain rfl := beq_iff_eq.mp hpq
    exact ⟨fun _ => trivial, (List.cons.inj h).2⟩
  · rcases (delimited_cons hl').2 with ⟨c, rfl⟩ | ⟨b', l₀', rfl, hb'⟩
    · cases p <;> cases beq_iff_eq.mp hpq
      exact ⟨fun _ => trivial, (List.cons.inj h).2⟩
    · exact text_append_inj hpq hb hb' hp h

/-- Texts that start alike are of segments that may. -/
theorem not_clashes (h : p.text t m ++ s = q.text t n ++ s') : p.clashes q = false := by
  have hint : ∀ (k : Int64) (x : Text) {c : UInt8} {y : Text},
      Text.ofInt64 k ++ x = c :: y → c ∈ Text.numerals := by
    intro k x c y hk
    obtain ⟨b, bs, hb⟩ := List.exists_cons_of_ne_nil (Text.ofInt64_ne_nil k)
    rw [hb] at hk
    obtain ⟨rfl, -⟩ := List.cons.inj hk
    have hmem : b ∈ Text.ofInt64 k := hb ▸ List.mem_cons_self
    exact Text.ofInt_subset k.toInt b hmem
  have hquote : (0x22 : UInt8) ∉ Text.numerals := by decide
  cases p <;> cases q <;> try rfl
  case byte.byte a b => exact bne_eq_false_iff_eq.mpr (List.cons.inj h).1
  case byte.name a => exact bne_eq_false_iff_eq.mpr (List.cons.inj h).1
  case name.byte a => exact bne_eq_false_iff_eq.mpr (List.cons.inj h).1.symm
  case byte.integer a =>
    have hmem : a ∈ Text.numerals := hint _ _ h.symm
    exact congrArg not (List.contains_iff_mem.mpr hmem)
  case integer.byte a =>
    have hmem : a ∈ Text.numerals := hint _ _ h
    exact congrArg not (List.contains_iff_mem.mpr hmem)
  case name.integer => exact absurd (hint _ _ h.symm) hquote
  case integer.name => exact absurd (hint _ _ h) hquote

/-- Delimited scripts with the same text do not come apart, and if they are one script the programs
have the same in it. -/
theorem compare_texts (hl : delimited t l = true) (hl' : delimited t l' = true)
    (hp : ∀ i, .program i ∈ l → (m.part i).Legible t)
    (h : texts t m l ++ s = texts t n l' ++ s') :
    apart l l' = false ∧ (l = l' → (∀ p ∈ l, p.Agrees m n) ∧ s = s') := by
  induction l generalizing l' with
  | nil =>
    refine ⟨by cases l' <;> rfl, ?_⟩
    rintro rfl
    exact ⟨by simp, h⟩
  | cons p l ih =>
    cases l' with
    | nil => exact ⟨rfl, fun hl => by cases hl⟩
    | cons q l' =>
      by_cases hpq : p.alike q = true
      · obtain ⟨hagrees, hrest⟩ :=
          texts_cons_inj hpq hl hl' (fun i hi => hp i (hi ▸ List.mem_cons_self)) h
        obtain ⟨hapart, heq⟩ := ih (delimited_cons hl).1 (delimited_cons hl').1
          (fun i hi => hp i (List.mem_cons_of_mem p hi)) hrest
        refine ⟨by rwa [apart, if_pos hpq], fun hll => ?_⟩
        obtain ⟨rfl, rfl⟩ := List.cons.inj hll
        obtain ⟨hall, rfl⟩ := heq rfl
        exact ⟨List.forall_mem_cons.mpr ⟨hagrees rfl, hall⟩, rfl⟩
      · rw [texts_cons, texts_cons, List.append_assoc, List.append_assoc] at h
        refine ⟨by rw [apart, if_neg hpq]; exact not_clashes h, fun hll => ?_⟩
        obtain ⟨rfl, rfl⟩ := List.cons.inj hll
        exact absurd (by cases p <;> simp [alike]) hpq

end Segment

/-! ## Reading programs -/

namespace Node

variable {t : Target} {m n : Node Empty}

theorem sizeOf_part_lt {i : Nat} (h : .program i ∈ n.construct.holes) :
    sizeOf (n.part i) < sizeOf n := by
  rcases n with (_ | _ | _ | _ | _ | _ | ⟨⟨⟩⟩) | (_ | _ | _ | _ | _ | ⟨⟨⟩⟩) | ⟨⟨⟩⟩ <;>
    simp [construct, Construct.holes] at h <;>
    rcases h with rfl | rfl | rfl <;>
    simp [part, parts] <;> omega

/-- A program is its construct with what the holes hold. -/
theorem eq_of_agrees (hk : m.construct = n.construct)
    (h : ∀ p ∈ m.construct.holes, p.Agrees m n) : m = n := by
  rcases m with (_ | _ | _ | _ | _ | _ | ⟨⟨⟩⟩) | (_ | _ | _ | _ | _ | ⟨⟨⟩⟩) | ⟨⟨⟩⟩ <;>
  rcases n with (_ | _ | _ | _ | _ | _ | ⟨⟨⟩⟩) | (_ | _ | _ | _ | _ | ⟨⟨⟩⟩) | ⟨⟨⟩⟩ <;>
  cases hk <;>
  simp_all [construct, Construct.holes, Segment.Agrees, rootName, rootInteger, part, parts]

theorem texts_stopped (n : Node Empty) (s : Text) :
    Segment.texts t n (n.construct.stopped t) ++ s = n.render t.dialect ++ t.stop :: s := by
  rw [Construct.stopped, Segment.texts_append, n.texts_script, List.append_assoc]
  rfl

/-- Every rendering in front of its stop is recognised. -/
theorem legible (t : Target) (m : Node Empty) : m.Legible t := by
  intro n s s' h
  obtain ⟨hdelimited, hholes, hprograms, hapart⟩ := Construct.isClear_of_mem t m.construct_mem
  -- by induction on the size of the program whose rendering is read
  have hp : ∀ i, .program i ∈ m.construct.stopped t → (m.part i).Legible t := by
    intro i hi
    have hlt := sizeOf_part_lt (hprograms i hi)
    exact legible t (m.part i)
  rw [← texts_stopped, ← texts_stopped] at h
  have hn := Construct.isClear_of_mem t n.construct_mem
  obtain ⟨hmeet, heq⟩ := Segment.compare_texts hdelimited hn.1 hp h
  have hk : m.construct = n.construct := by
    by_contra hne
    exact Bool.eq_false_iff.mp hmeet (hapart _ n.construct_mem hne)
  obtain ⟨hagrees, rfl⟩ := heq (by rw [hk])
  exact ⟨eq_of_agrees hk fun p hp => hagrees p (hholes p hp), rfl⟩
termination_by sizeOf m

end Node

/-- Two programs have the same rendering in a target only if they are the same. -/
theorem Node.renderFor_eq_iff (t : Target) (m n : Node Empty) :
    (m.mapGaps Empty.elim).renderFor t.name = (n.mapGaps Empty.elim).renderFor t.name ↔ m = n := by
  refine ⟨fun h => ?_, fun h => by rw [h]⟩
  rw [m.renderFor_mapGaps, n.renderFor_mapGaps] at h
  exact (legible t m n [] [] (by rw [Except.ok.inj h])).1

end Denotation
