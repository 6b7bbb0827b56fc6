import Denotation.Proofs.Formatting
import Denotation.Proofs.JsonReading
import Denotation.Proofs.UniqueReading
import Denotation.Proofs.Variables

/-!
# Renderings without escapes

A name of a source is made of letters, digits, hyphens and underscores. All of these are printable
and none is a quote or a backslash, so a name that was parsed stands in a rendering as it is spelled,
between double quotes. Nothing else in a rendering needs an escape either: a program that was parsed
means to a host language what it says, whatever that language takes an escape for.

That letters and digits are printable is a fact about three tables. They are compared range by range.
-/

namespace Denotation

/-! ## Tables of characters -/

namespace Text.Ranges

variable {r s : Ranges} {p : Nat × Nat} {n : Nat}

theorem increasing_cons (h : increasing (p :: r) = true) :
    p.1 ≤ p.2 ∧ increasing r = true ∧ ∀ q ∈ r, p.2 < q.1 := by
  induction r generalizing p with
  | nil => exact ⟨by simpa [increasing] using h, rfl, by simp⟩
  | cons q r ih =>
    simp only [increasing, Bool.and_eq_true, decide_eq_true_eq] at h
    obtain ⟨⟨hp, hpq⟩, hqr⟩ := h
    obtain ⟨hq, -, hafter⟩ := ih hqr
    refine ⟨hp, hqr, List.forall_mem_cons.mpr ⟨hpq, fun q' hq' => ?_⟩⟩
    have := hafter q' hq'
    omega

/-- In a list in increasing order no range hides one that comes after it. -/
theorem contains_of_mem (hr : r.increasing = true) (hp : p ∈ r) (hfirst : p.1 ≤ n)
    (hlast : n ≤ p.2) : r.contains n = true := by
  induction r with
  | nil => cases hp
  | cons q r ih =>
    obtain ⟨hq, hrest, hafter⟩ := increasing_cons hr
    rw [contains]
    rcases List.mem_cons.mp hp with rfl | hp
    · rw [if_neg (Nat.not_lt.mpr hfirst), if_pos hlast]
    · have hlt := hafter p hp
      rw [if_neg (by omega), if_neg (by omega)]
      exact ih hrest hp

/-- Each range of the first list lies inside a range of the second, in the order of both. -/
def within (r : Ranges) : Ranges → Bool
  | [] => r.isEmpty
  | q :: s => within (r.dropWhile fun p => q.1 ≤ p.1 && p.2 ≤ q.2) s

theorem exists_mem_of_within (h : r.within s = true) (hp : p ∈ r) :
    ∃ q ∈ s, q.1 ≤ p.1 ∧ p.2 ≤ q.2 := by
  induction s generalizing r with
  | nil =>
    obtain rfl := List.isEmpty_iff.mp h
    cases hp
  | cons q s ih =>
    rw [← List.takeWhile_append_dropWhile (p := fun p => q.1 ≤ p.1 && p.2 ≤ q.2) (l := r),
      List.mem_append] at hp
    rcases hp with hp | hp
    · have hpq := List.all_eq_true.mp List.all_takeWhile p hp
      exact ⟨q, List.mem_cons_self, by simpa using hpq⟩
    · obtain ⟨q', hq', hpq⟩ := ih h hp
      exact ⟨q', List.mem_cons_of_mem q hq', hpq⟩

theorem contains_of_within (hs : s.increasing = true) (h : r.within s = true)
    (hn : r.contains n = true) : s.contains n = true := by
  obtain ⟨p, hp, hfirst, hlast⟩ := exists_mem_of_contains hn
  obtain ⟨q, hq, hqfirst, hqlast⟩ := exists_mem_of_within h hp
  exact contains_of_mem hs hq (Nat.le_trans hqfirst hfirst) (Nat.le_trans hlast hqlast)

end Text.Ranges

/-! ## Names in quotes -/

namespace Text

/-- Letters and digits are printable. -/
theorem isPrintable_of_isNameChar {c : Char} (h : isNameChar c = true) : isPrintable c = true := by
  have hincreasing : printableRanges.increasing = true := by decide +kernel
  have hletters : letterRanges.within printableRanges = true := by decide +kernel
  have hdigits : digitRanges.within printableRanges = true := by decide +kernel
  simp only [isNameChar, Bool.or_eq_true, beq_iff_eq] at h
  rcases h with ((h | h) | rfl) | rfl
  · exact Ranges.contains_of_within hincreasing hletters h
  · exact Ranges.contains_of_within hincreasing hdigits h
  · decide
  · decide

theorem ne_of_isNameChar {c : Char} (h : isNameChar c = true) : c ≠ '"' ∧ c ≠ '\\' := by
  have hquote : isNameChar '"' = false := by decide +kernel
  have hbackslash : isNameChar '\\' = false := by decide +kernel
  constructor
  · rintro rfl
    simp [hquote] at h
  · rintro rfl
    simp [hbackslash] at h

/-- No character besides the backslash has the byte of a backslash. -/
theorem backslash_notMem_ofChar {c : Char} (h : c ≠ '\\') : (0x5C : UInt8) ∉ ofChar c := by
  intro hmem
  by_cases hc : c.toNat < 0x80
  · have hbyte : ofChar c = [UInt8.ofNat c.toNat] := by simp [ofChar, hc]
    rw [hbyte, List.mem_singleton] at hmem
    have hnat : c.toNat = 0x5C := by
      rw [← toNat_ofNat_byte (show c.toNat < 256 by omega), ← hmem]
      rfl
    exact h (Char.toNat_inj.mp hnat)
  · have hle := Text.bytes_ofChar_of_le (Nat.le_of_not_lt hc) _ hmem
    exact absurd hle (by decide)

theorem pieces_ofChars (cs : List Char) :
    (ofChars cs).pieces = cs.map fun c => ⟨c, ofChar c⟩ := by
  induction cs with
  | nil => rfl
  | cons c cs ih => rw [ofChars_cons, pieces_ofChar_append, ih, List.map_cons]

variable {cs : List Char}

/-- A text of characters that names are made of stands between quotes as it is. -/
theorem quote_ofChars (h : ∀ c ∈ cs, isNameChar c = true) :
    (ofChars cs).quote = 0x22 :: (ofChars cs ++ [0x22]) := by
  have hplain : ∀ c ∈ cs, escapePiece '"' ⟨c, ofChar c⟩ = ofChar c := by
    intro c hc
    obtain ⟨hquote, hbackslash⟩ := ne_of_isNameChar (h c hc)
    have hprintable := isPrintable_of_isNameChar (h c hc)
    have hvalid : Piece.isInvalid ⟨c, ofChar c⟩ = false := Piece.isInvalid_of_bytes rfl
    simp [escapePiece, hvalid, hquote, hbackslash, hprintable]
  rw [quote, pieces_ofChars, List.flatMap_map, List.flatMap_congr hplain]
  rfl

theorem backslash_notMem_ofChars (h : ∀ c ∈ cs, isNameChar c = true) :
    (0x5C : UInt8) ∉ ofChars cs := by
  intro hmem
  obtain ⟨c, hc, hmem⟩ := List.mem_flatMap.mp hmem
  exact backslash_notMem_ofChar (ne_of_isNameChar (h c hc)).2 hmem

end Text

section
variable {x : Text}

theorem IsName.exists_chars (h : IsName x) :
    ∃ cs, x = Text.ofChars cs ∧ ∀ c ∈ cs, isNameChar c = true := by
  obtain ⟨c, cs, rfl, hc, hcs⟩ := h
  exact ⟨c :: cs, rfl, List.forall_mem_cons.mpr ⟨by simp [isNameChar, hc], hcs⟩⟩

theorem IsName.quote_eq (h : IsName x) : x.quote = 0x22 :: (x ++ [0x22]) := by
  obtain ⟨cs, rfl, hcs⟩ := h.exists_chars
  exact Text.quote_ofChars hcs

theorem IsName.backslash_notMem (h : IsName x) : (0x5C : UInt8) ∉ x := by
  obtain ⟨cs, rfl, hcs⟩ := h.exists_chars
  exact Text.backslash_notMem_ofChars hcs

end

/-! ## Names of parts -/

section
variable {x : Text}

theorem Expr.Printable.isName {e : Expr Empty} (h : e.Printable) (hx : x ∈ e.names) : IsName x := by
  induction e with
  | «variable» name =>
    obtain rfl := List.mem_singleton.mp hx
    exact h.1
  | number n | boolean b => cases hx
  | add l r ihl ihr | multiply l r ihl ihr | lessThan l r ihl ihr =>
    rcases List.mem_append.mp hx with hx | hx
    · exact ihl h.1 hx
    · exact ihr h.2 hx
  | gap g => exact g.elim

theorem Stmt.Printable.isName {s : Stmt Empty} (h : s.Printable) (hx : x ∈ s.names) : IsName x := by
  induction s with
  | doNothing => cases hx
  | assign name e =>
    rcases List.mem_cons.mp hx with rfl | hx
    · exact h.1.1
    · exact h.2.isName hx
  | sequence a b iha ihb =>
    rcases List.mem_append.mp hx with hx | hx
    · exact iha h.1 hx
    · exact ihb h.2 hx
  | branch c a b iha ihb =>
    rcases List.mem_append.mp hx with hx | hx
    · exact h.1.isName hx
    · rcases List.mem_append.mp hx with hx | hx
      · exact iha h.2.1 hx
      · exact ihb h.2.2 hx
  | loop c a iha =>
    rcases List.mem_append.mp hx with hx | hx
    · exact h.1.isName hx
    · exact iha h.2 hx
  | gap g => exact g.elim

theorem Node.Printable.isName {n : Node Empty} (h : n.Printable) (hx : x ∈ n.names) :
    IsName x := by
  cases n with
  | expr e => exact Expr.Printable.isName h hx
  | stmt s => exact Stmt.Printable.isName h hx
  | gap g => exact g.elim

end

namespace Node

variable {n : Node Empty} {x : Text}

/-- A name of a program stands at its root or in one of its parts. -/
theorem mem_names_cases (h : x ∈ n.names) :
    .name ∈ n.construct.holes ∧ x = n.rootName ∨
      ∃ i, .program i ∈ n.construct.holes ∧ x ∈ (n.part i).names := by
  rcases n with (_ | _ | _ | _ | _ | _ | ⟨⟨⟩⟩) | (_ | _ | _ | _ | _ | ⟨⟨⟩⟩) | ⟨⟨⟩⟩ <;>
    simp_all [names, Expr.names, Stmt.names, construct, Construct.holes, rootName, part, parts]

theorem rootName_mem_names (n : Node Empty) : n.rootName = [] ∨ n.rootName ∈ n.names := by
  rcases n with (_ | _ | _ | _ | _ | _ | ⟨⟨⟩⟩) | (_ | _ | _ | _ | _ | ⟨⟨⟩⟩) | ⟨⟨⟩⟩ <;>
    simp [names, Expr.names, Stmt.names, rootName]

theorem mem_names_of_part {i : Nat} (hi : .program i ∈ n.construct.holes)
    (h : x ∈ (n.part i).names) : x ∈ n.names := by
  rcases n with (_ | _ | _ | _ | _ | _ | ⟨⟨⟩⟩) | (_ | _ | _ | _ | _ | ⟨⟨⟩⟩) | ⟨⟨⟩⟩ <;>
    simp [construct, Construct.holes] at hi <;>
    rcases hi with rfl | rfl | rfl <;>
    simp_all [names, Expr.names, Stmt.names, part, parts]

end Node

/-! ## Names and backslashes in renderings -/

namespace Construct

variable {k : Construct}

theorem backslash_notMem_script (t : Target) (hk : k ∈ constructs) :
    .byte 0x5C ∉ k.script t := by
  have hall : ∀ k ∈ constructs, .byte 0x5C ∉ k.script t := by cases t <;> decide +kernel
  exact hall k hk

theorem name_infix_script (t : Target) (hk : k ∈ constructs) (h : .name ∈ k.holes) :
    [.name] <:+: k.script t := by
  have hmem := (isClear_of_mem t hk).2.1 .name h
  rcases List.mem_append.mp hmem with hmem | hmem
  · obtain ⟨l, l', heq⟩ := List.append_of_mem hmem
    exact ⟨l, l', by simp [heq]⟩
  · simp at hmem

/-- A part stands in a script with all that its rendering has. -/
theorem whole_infix_script (t : Target) (hk : k ∈ constructs) {i : Nat}
    (h : .program i ∈ k.holes) : Segment.whole t i <:+: k.script t := by
  have hall : ∀ k ∈ constructs, ∀ i < 3, .program i ∈ k.holes →
      Segment.whole t i <:+: k.script t := by
    cases t <;> decide +kernel
  have hi : i < 3 := by
    cases k <;> simp [holes] at h <;> omega
  exact hall k hk i hi h

end Construct

theorem Segment.texts_infix {l l' : List Segment} (h : l <:+: l') (t : Target) (n : Node Empty) :
    texts t n l <:+: texts t n l' := by
  obtain ⟨l₁, l₂, rfl⟩ := h
  exact ⟨texts t n l₁, texts t n l₂, by rw [texts_append, texts_append]⟩

namespace Node

/-- Every name of a program stands in its rendering in quotes. -/
theorem quote_infix_render (t : Target) (n : Node Empty) {x : Text} (hx : x ∈ n.names) :
    x.quote <:+: n.render t.dialect := by
  rw [← n.texts_script]
  rcases mem_names_cases hx with ⟨hname, rfl⟩ | ⟨i, hi, hx⟩
  · have hinfix := Segment.texts_infix (Construct.name_infix_script t n.construct_mem hname) t n
    simpa [Segment.texts, Segment.text] using hinfix
  · have hlt := sizeOf_part_lt hi
    have hinfix := Segment.texts_infix (Construct.whole_infix_script t n.construct_mem hi) t n
    rw [Segment.texts_whole] at hinfix
    exact (quote_infix_render t (n.part i) hx).trans hinfix
termination_by sizeOf n

theorem backslash_notMem_render (t : Target) (n : Node Empty) (h : ∀ x ∈ n.names, IsName x) :
    (0x5C : UInt8) ∉ n.render t.dialect := by
  intro hmem
  rw [← n.texts_script] at hmem
  obtain ⟨p, hp, hmem⟩ := List.mem_flatMap.mp hmem
  cases p with
  | byte b =>
    obtain rfl := List.mem_singleton.mp hmem
    exact Construct.backslash_notMem_script t n.construct_mem hp
  | name =>
    rcases n.rootName_mem_names with hroot | hroot
    · rw [Segment.text, hroot] at hmem
      exact absurd hmem (by decide)
    · have hname := h _ hroot
      rw [Segment.text, hname.quote_eq] at hmem
      have := hname.backslash_notMem
      simp_all
  | integer =>
    exact absurd (Text.ofInt_subset _ _ hmem) (by decide)
  | program i =>
    have hi : .program i ∈ n.construct.holes := by
      refine (Construct.isClear_of_mem t n.construct_mem).2.2.1 i ?_
      exact List.mem_append_left _ hp
    have hlt := sizeOf_part_lt hi
    refine backslash_notMem_render t (n.part i) (fun x hx => h x (mem_names_of_part hi hx)) ?_
    rw [← (n.part i).lead_append_core]
    exact List.mem_append_right _ hmem
termination_by sizeOf n

end Node

/-- A program that was parsed has renderings without escapes: there is no backslash in them, and
each name of the program stands between double quotes as it is spelled. -/
theorem render_of_parse_verbatim (root : Root) (source : Text) (n : Node Empty)
    (h : parse root source = .ok n) (t : Target) :
    ∃ text, (n.mapGaps Empty.elim).renderFor t.name = .ok text ∧ 0x5C ∉ text ∧
      ∀ x ∈ n.names, x.quote = 0x22 :: (x ++ [0x22]) ∧ 0x22 :: (x ++ [0x22]) <:+: text := by
  have hprintable := (printable_of_parse h).1
  refine ⟨n.render t.dialect, n.renderFor_mapGaps t, ?_, fun x hx => ?_⟩
  · exact n.backslash_notMem_render t fun x hx => hprintable.isName hx
  · have hquote := (hprintable.isName hx).quote_eq
    exact ⟨hquote, hquote ▸ n.quote_infix_render t hx⟩

/-- A letter outside ASCII and a hyphen need no escapes. -/
theorem render_of_parse_verbatim_accented :
    parse .statement "é = x-1 + 2"
        = .ok (.stmt (.assign "é" (.add (.variable "x-1") (.number 2)))) ∧
      ∃ text, (Node.stmt (.assign "é" (.add (.variable "x-1") (.number 2)))).renderFor "python"
          = .ok text ∧
        0x5C ∉ text ∧ ("\"é\"" : Text) <:+: text ∧ ("\"x-1\"" : Text) <:+: text := by
  have hleft : IsVariable "é" :=
    ⟨⟨'é', [], rfl, by decide +kernel, by simp⟩, ofText?_eq_none_iff.mp (by decide)⟩
  have hright : IsVariable "x-1" :=
    ⟨⟨'x', ['-', '1'], rfl, by decide, List.all_eq_true.mp (by decide)⟩,
      ofText?_eq_none_iff.mp (by decide)⟩
  have htwo : (0 : Int64) ≤ 2 := by decide
  have hprintable : Stmt.Printable (.assign "é" (.add (.variable "x-1") (.number 2))) :=
    ⟨hleft, hright, htwo⟩
  have hprint : (.assign "é" (.add (.variable "x-1") (.number 2)) : Stmt Empty).print
      = "é = x-1 + 2" := by
    decide +kernel
  have hparse := hprint ▸ parse_print_stmt hprintable
  obtain ⟨text, htext, hbackslash, hnames⟩ :=
    render_of_parse_verbatim .statement _ _ hparse .python
  refine ⟨hparse, text, htext, hbackslash, ?_, ?_⟩
  · exact (hnames "é" (by decide)).2
  · exact (hnames "x-1" (by decide)).2

end Denotation
