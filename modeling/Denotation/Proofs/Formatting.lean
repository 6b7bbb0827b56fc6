import Denotation.Proofs.Reprinting
import Denotation.Proofs.Segmentation

/-!
# Formatting is stable

What the parser accepts is a program in canonical form: its names are names of the grammar, its
numbers are not negative, and its sequences are nested to the right. None of this has to be checked
on the tree. A name comes from a token that the scanner has cut out as a name, a number from one that
starts with a digit and so has no sign, and a sequence from a rule of the grammar that wants
something else on its left.

A program in canonical form is printed to a source of itself. So to print what was parsed, and to
parse and print that again, changes nothing more.
-/

namespace Denotation

/-! ## Tokens of a source -/

section
variable {t : Token}

theorem Token.Spelled.isName (h : t.Spelled) (hk : t.kind = .name) : IsName t.value := by
  obtain ⟨cs, rest, hmunch, hvalue⟩ := h
  rw [hk] at hmunch
  cases hmunch with
  | name hc hcs hr => exact ⟨_, _, hvalue, hc, hcs⟩
  | punctuation hc =>
    unfold TokenKind.ofPunctuation? at hc
    split at hc <;> cases hc

/-- A number does not start with a minus sign. -/
theorem Token.Spelled.head_ne_minus (h : t.Spelled) (hk : t.kind = .number) (bs : Text) :
    t.value ≠ 0x2D :: bs := by
  obtain ⟨cs, rest, hmunch, hvalue⟩ := h
  rw [hk] at hmunch
  cases hmunch with
  | @number c cs _ hc hcs hr =>
    intro hminus
    have hchars : Text.chars t.value = '-' :: Text.chars bs := by
      rw [hminus]
      exact Text.chars_ofChar_append '-' bs
    rw [hvalue, Text.chars_ofChars] at hchars
    obtain ⟨rfl, -⟩ := List.cons.inj hchars
    exact absurd hc (by decide)
  | punctuation hc =>
    unfold TokenKind.ofPunctuation? at hc
    split at hc <;> cases hc

end

theorem Text.toInt?_nonneg {t : Text} {i : Int} (ht : ∀ bs, t ≠ 0x2D :: bs)
    (h : Text.toInt? t = some i) : 0 ≤ i := by
  unfold Text.toInt? at h
  split at h
  · obtain ⟨m, -, rfl⟩ := Option.map_eq_some_iff.mp h
    exact Int.natCast_nonneg m
  · exact absurd rfl (ht _)
  · obtain ⟨m, -, rfl⟩ := Option.map_eq_some_iff.mp h
    exact Int.natCast_nonneg m

theorem Text.toInt64?_nonneg {t : Text} {n : Int64} (ht : ∀ bs, t ≠ 0x2D :: bs)
    (h : Text.toInt64? t = some n) : 0 ≤ n := by
  obtain ⟨i, hi, hn⟩ := Option.bind_eq_some_iff.mp h
  have hnonneg := Text.toInt?_nonneg ht hi
  unfold Text.word? at hn
  split at hn
  · rename_i hfits
    obtain rfl := Option.some.inj hn
    rw [Int64.le_iff_toInt_le, Int64.toInt_ofInt_of_le hfits.1
      (Int.lt_of_le_of_lt hfits.2 (by decide))]
    exact hnonneg
  · cases hn

/-! ## Parsed programs -/

section
variable {ts : List Token}

/-- What is derived from the tokens of a source can be printed. -/
theorem Level.Derives.printable {x : Level} {e : Expr Empty} (h : x.Derives ts e)
    (hts : ∀ t ∈ ts, t.Spelled) : e.Printable := by
  induction h with
  | lessThan hl ho hr ihl ihr | add hl ho hr ihl ihr | multiply hl ho hr ihl ihr =>
    obtain ⟨hts, hus⟩ := List.forall_mem_append.mp hts
    exact ⟨ihl hts, ihr (List.forall_mem_cons.mp hus).2⟩
  | ofAdd h ih | ofMultiply h ih | ofTerm h ih => exact ih hts
  | brackets hl h hr ih =>
    exact ih fun t ht => hts t (by simp [ht])
  | number hk hn =>
    have hspelled := List.forall_mem_singleton.mp hts
    exact Text.toInt64?_nonneg (hspelled.head_ne_minus hk) hn
  | true h | false h => trivial
  | name hk hr =>
    have hspelled := List.forall_mem_singleton.mp hts
    exact ⟨hspelled.isName hk, hr⟩

theorem Grade.Derives.printable {x : Grade} {s : Stmt Empty} (h : x.Derives ts s)
    (hts : ∀ t ∈ ts, t.Spelled) : s.Printable := by
  induction h with
  | sequence ha ho hb iha ihb =>
    obtain ⟨hts, hus⟩ := List.forall_mem_append.mp hts
    exact ⟨iha hts, ihb (List.forall_mem_cons.mp hus).2⟩
  | single h ih => exact ih hts
  | loop hw hl hc hr ho ha hcl ih =>
    exact ⟨hc.printable fun t ht => hts t (by simp [ht]), ih fun t ht => hts t (by simp [ht])⟩
  | branch hw hl hc hr ho ha hcl he ho' hb hcl' iha ihb =>
    exact ⟨hc.printable fun t ht => hts t (by simp [ht]), iha fun t ht => hts t (by simp [ht]),
      ihb fun t ht => hts t (by simp [ht])⟩
  | assign hk hr hs he =>
    obtain ⟨hname, hts⟩ := List.forall_mem_cons.mp hts
    exact ⟨⟨hname.isName hk, hr⟩, he.printable (List.forall_mem_cons.mp hts).2⟩
  | doNothing hw => trivial

/-- What the grammar derives is nested to the right, whatever its tokens are. -/
theorem Grade.Derives.rightNested {x : Grade} {s : Stmt Empty} (h : x.Derives ts s) :
    s.RightNested := by
  induction h with
  | sequence ha ho hb iha ihb => exact ⟨not_sequence_of_derives ha, iha, ihb⟩
  | single h ih => exact ih
  | loop hw hl hc hr ho ha hcl ih => exact ih
  | branch hw hl hc hr ho ha hcl he ho' hb hcl' iha ihb => exact ⟨iha, ihb⟩
  | assign hk hr hs he => trivial
  | doNothing hw => trivial

end

section
variable {root : Root} {source : Text} {n : Node Empty}

theorem printable_of_parse (h : parse root source = .ok n) : n.Printable ∧ n.RightNested := by
  obtain ⟨ts, hlex, hts⟩ := parse_eq_ok_iff.mp h
  cases hts with
  | statement hts => exact ⟨hts.printable hlex.spelled, hts.rightNested⟩
  | expression hts => exact ⟨hts.printable hlex.spelled, trivial⟩

/-- What a root parses is parsed again from what it is printed to. -/
theorem parse_print_of_parse (h : parse root source = .ok n) : parse root n.print = .ok n := by
  obtain ⟨hprintable, hnested⟩ := printable_of_parse h
  obtain ⟨ts, -, hts⟩ := parse_eq_ok_iff.mp h
  cases hts with
  | @statement ts s hts =>
    have hparse := parse_print_stmt hprintable
    rwa [Stmt.RightNested.toRight_eq hnested] at hparse
  | expression hts => exact parse_print_expr hprintable

end

/-- The names can name variables, no number is negative, and no sequence has a sequence as its first
part. -/
structure Node.Canonical (n : Node Empty) : Prop where
  printable : n.Printable
  rightNested : n.RightNested

/-- The program that a source spells, printed. -/
def reprint (root : Root) (source : Text) : Except ParseError Text :=
  (parse root source).map Node.print

/-- Formatting is stable: a program that was parsed is in canonical form and is parsed again from
what it is printed to, so that printing it once more gives the same text. -/
theorem canonical_of_parse (root : Root) (source : Text) (n : Node Empty)
    (h : parse root source = .ok n) :
    n.Canonical ∧ parse root n.print = .ok n ∧
      reprint root source = .ok n.print ∧ reprint root n.print = .ok n.print := by
  obtain ⟨hprintable, hnested⟩ := printable_of_parse h
  have hagain := parse_print_of_parse h
  refine ⟨⟨hprintable, hnested⟩, hagain, ?_, ?_⟩
  · rw [reprint, h]
    rfl
  · rw [reprint, hagain]
    rfl

/-- Brackets, leading zeros and comments go, and the text that is left stays. -/
theorem canonical_of_parse_accented :
    parse .expression "(é) + 007 // seven" = .ok (.expr (.add (.variable "é") (.number 7))) ∧
      parse .expression "é + 7" = .ok (.expr (.add (.variable "é") (.number 7))) := by
  have hfree : ¬ Reserved "é" := ofText?_eq_none_iff.mp (by decide)
  have hname : Level.term.Derives [⟨.name, "é", ⟨[], 1, 2⟩⟩] (.variable "é") := .name rfl hfree
  have hleft : Level.term.Derives
      (⟨.parenOpen, "(", ⟨[], 1, 1⟩⟩ :: [⟨.name, "é", ⟨[], 1, 2⟩⟩]
        ++ [⟨.parenClose, ")", ⟨[], 1, 3⟩⟩]) (.variable "é") := .brackets rfl hname.toExpression rfl
  have hright : Level.term.Derives [⟨.number, "007", ⟨[], 1, 7⟩⟩] (.number 7) :=
    .number rfl (by decide)
  have hsum : Level.add.Derives (_ ++ ⟨.plus, "+", ⟨[], 1, 5⟩⟩ :: _)
      (.add (.variable "é") (.number 7)) := .add (.ofTerm hleft) rfl (.ofMultiply (.ofTerm hright))
  have hparse : parse .expression "(é) + 007 // seven"
      = .ok (.expr (.add (.variable "é") (.number 7))) := by
    refine parse_eq_ok_iff.mpr ⟨_, ?_, .expression (.ofAdd hsum)⟩
    have hlex : (Scanner.ofText "(é) + 007 // seven" [] .complete).results 6
        = [⟨.parenOpen, "(", ⟨[], 1, 1⟩⟩, ⟨.name, "é", ⟨[], 1, 2⟩⟩, ⟨.parenClose, ")", ⟨[], 1, 3⟩⟩,
            ⟨.plus, "+", ⟨[], 1, 5⟩⟩, ⟨.number, "007", ⟨[], 1, 7⟩⟩].map .ok
          ++ [.ok ⟨.ending, [], ⟨[], 1, 12⟩⟩] := by decide +kernel
    exact Scanner.lexes_of_results rfl hlex
  have hprint : (Node.expr (.add (.variable "é") (.number 7))).print = "é + 7" := by
    decide +kernel
  exact ⟨hparse, hprint ▸ (canonical_of_parse .expression _ _ hparse).2.1⟩

end Denotation
