import Denotation.Proofs.Decimals
import Denotation.Proofs.Quotation
import Denotation.Simple.Token

/-!
# Traces are read in one way

A trace is a text, one line for each token that was scanned. Nothing of the tokens is lost in it: the
name of a kind holds no quote, a quoted text ends at its closing quote, and an integer ends before
the first byte that is no part of one. Only the label of the source may hold anything at all, and
that is the same in every line.
-/

namespace Denotation

namespace TokenKind

/-- The kinds of token. -/
def all : List TokenKind :=
  [.unknown, .parenOpen, .parenClose, .braceOpen, .braceClose, .semicolon, .name, .number, .equals,
    .plus, .star, .less, .ending]

/-- The kind that is shown as a text. -/
def ofDisplay? (t : Text) : Option TokenKind := all.find? fun k => k.display == t

theorem ofDisplay?_display (k : TokenKind) : ofDisplay? k.display = some k := by
  cases k <;> rfl

theorem display_injective {k k' : TokenKind} (h : k.display = k'.display) : k = k' := by
  have hk := ofDisplay?_display k
  rw [h, ofDisplay?_display k'] at hk
  exact (Option.some.inj hk).symm

/-- A kind in front of a quoted text is recognised. -/
theorem display_append_inj {k k' : TokenKind} {x y s t : Text}
    (h : k.display ++ 0x20 :: (x.quote ++ s) = k'.display ++ 0x20 :: (y.quote ++ t)) :
    k = k' ∧ x.quote ++ s = y.quote ++ t := by
  have hplain (k : TokenKind) : ∀ c ∈ k.display ++ [0x20], (c != 0x22) = true := by
    have hall : (k.display ++ [0x20]).all (· != 0x22) = true := by cases k <;> decide
    exact List.all_eq_true.mp hall
  -- a quoted text starts with the first quote of the line
  have hquotes : (k.display ++ [0x20]) ++ 0x22 :: (x.quote.tail ++ s)
      = (k'.display ++ [0x20]) ++ 0x22 :: (y.quote.tail ++ t) := by
    rw [List.append_assoc, List.append_assoc]
    exact h
  obtain ⟨hkinds, hrest⟩ := Text.append_cons_inj (hplain k) (hplain k') rfl rfl hquotes
  exact ⟨display_injective (List.append_cancel_right hkinds), hrest⟩

end TokenKind

namespace Token

theorem traceLine_eq (t : Token) :
    t.traceLine = Text.concat ["TOKEN: [", t.kind.display, " ", t.value.quote, " at ",
      t.location.file, ":", Text.ofInt t.location.row, ":", Text.ofInt t.location.col, "]\n"] := by
  simp [traceLine, display, Location.display, Text.concat]

theorem traceLine_append (t : Token) (x : Text) :
    t.traceLine ++ x = Text.ofString "TOKEN: [" ++ (t.kind.display ++ 0x20 :: (t.value.quote
      ++ (Text.ofString " at " ++ (t.location.file ++ 0x3A :: (Text.ofInt t.location.row ++ 0x3A ::
        (Text.ofInt t.location.col ++ 0x5D :: 0x0A :: x)))))) := by
  rw [traceLine_eq]
  simp only [Text.concat, List.flatten_cons, List.flatten_nil, List.append_nil, List.append_assoc]
  rfl

/-- The line of a token is recognised, if the label of the source is known. -/
theorem traceLine_append_inj {t u : Token} {x y : Text} (hfile : t.location.file = u.location.file)
    (h : t.traceLine ++ x = u.traceLine ++ y) : t = u ∧ x = y := by
  rw [traceLine_append, traceLine_append, hfile] at h
  obtain ⟨hkind, hquoted⟩ := TokenKind.display_append_inj (List.append_cancel_left h)
  obtain ⟨hvalue, hplace⟩ := Text.quote_append_inj hquoted
  have hnumbers := List.append_cancel_left (List.append_cancel_left hplace)
  obtain ⟨hrow, hnumber⟩ := Text.ofInt_append_inj (by decide) (by decide) (List.cons.inj hnumbers).2
  obtain ⟨hcol, hend⟩ := Text.ofInt_append_inj (by decide) (by decide) (List.cons.inj hnumber).2
  have hlocation : t.location = u.location := (Location.mk.injEq ..).mpr ⟨hfile, hrow, hcol⟩
  refine ⟨(Token.mk.injEq ..).mpr ⟨hkind, hvalue, hlocation⟩, ?_⟩
  exact (List.cons.inj (List.cons.inj hend).2).2

end Token

/-- The text is the trace of the tokens of a source with that label: a line for each of them. -/
structure IsTrace (file : Text) (ts : List Token) (trace : Text) : Prop where
  labels : ∀ t ∈ ts, t.location.file = file
  lines : trace = ts.flatMap Token.traceLine

/-- The tokens can be read back from their trace. -/
theorem IsTrace.unique {file trace : Text} {ts us : List Token} (h : IsTrace file ts trace)
    (h' : IsTrace file us trace) : ts = us := by
  obtain ⟨hts, rfl⟩ := h
  obtain ⟨hus, hlines⟩ := h'
  induction ts generalizing us with
  | nil =>
    cases us with
    | nil => rfl
    | cons u us =>
      rw [List.flatMap_cons, Token.traceLine_append] at hlines
      cases hlines
  | cons t ts ih =>
    cases us with
    | nil =>
      rw [List.flatMap_cons, Token.traceLine_append] at hlines
      cases hlines
    | cons u us =>
      have hfile : t.location.file = u.location.file :=
        (hts t List.mem_cons_self).trans (hus u List.mem_cons_self).symm
      rw [List.flatMap_cons, List.flatMap_cons] at hlines
      obtain ⟨rfl, hrest⟩ := Token.traceLine_append_inj hfile hlines
      rw [ih (fun t' h => hts t' (List.mem_cons_of_mem t h))
        (fun t' h => hus t' (List.mem_cons_of_mem t h)) hrest]

end Denotation
