import Denotation.Proofs.FormGrammar
import Denotation.Proofs.Numerals
import Denotation.Proofs.Spelling

/-!
# What separates two atoms

Between forms every kind of white space is dropped, and commas are. Only some of it ends an atom,
however: a space, a comma, a tab and the two characters of a line break. Behind an atom any other
white space becomes a part of it, and the atom that follows goes with it.
-/

namespace Denotation

/-- The character is dropped between forms. -/
def IsSeparator (c : Char) : Prop := Text.isBlank c = true ∨ c = ','

/-- Two atoms in round brackets, with a character between them. -/
def pairSource (a : Text) (c : Char) (b : Text) : Text := "(" ++ a ++ Text.ofChar c ++ b ++ ")"

variable {a b : Text} {c : Char}

theorem chars_pairSource :
    (pairSource a c b).chars = '(' :: (a.chars ++ c :: (b.chars ++ [')'])) := by
  have hopen := Text.chars_ofChar_append '(' (a ++ Text.ofChar c ++ (b ++ Text.ofChar ')'))
  have hclose : (b ++ Text.ofChar ')').chars = b.chars ++ [')'] := by
    rw [← List.append_nil (b ++ _), Text.chars_append_ofChar]
    rfl
  rw [Text.chars_append_ofChar, hclose] at hopen
  rw [← hopen, pairSource]
  simp [Text.ofString, Text.ofChars]

theorem separated_nil : Separated [] := by
  intro d hd
  cases hd

/-- Atoms in front of what they cannot go on into. -/
theorem IsAtom.worded {cs rest : List Char} (h : IsAtom cs) (hr : Separated rest)
    {ks : List LexemeKind} (hrest : Worded rest ks) :
    Worded (cs ++ rest) (.atom (atomForm cs) :: ks) := by
  obtain ⟨d, ds, rfl⟩ := List.exists_cons_of_ne_nil h.1
  obtain ⟨hd, hds⟩ := List.forall_mem_cons.mp h.2
  exact .atom hd (fun e he => isAtomChar_of_start (hds e he)) hr (atomOf_iff.mpr rfl) hrest

theorem Form.read_atom (h : IsAtom a.chars) : Form.read a = .ok (atomForm a.chars) := by
  have hwords := h.worded separated_nil .nil
  rw [List.append_nil] at hwords
  exact Form.read_eq_ok_iff.mpr ⟨_, hwords, .atom .nil⟩

theorem Form.read_separated (ha : IsAtom a.chars) (hb : IsAtom b.chars) (hc : IsSeparator c)
    (hends : isAtomChar c = false) :
    Form.read (pairSource a c b) = .ok (.list [atomForm a.chars, atomForm b.chars]) := by
  have hclose : Worded [')'] [.closing .round] := .closing .round .nil
  have hsecond := hb.worded (separated_cons (by decide) []) hclose
  have hfirst := ha.worded (separated_cons hends (b.chars ++ [')'])) (.blank hc hsecond)
  refine Form.read_eq_ok_iff.mpr ⟨_, ?_, .bracket .round (.atom (.atom .nil)) .nil⟩
  rw [chars_pairSource]
  exact .opening .round hfirst

theorem Form.read_joined (ha : IsAtom a.chars) (hb : IsAtom b.chars)
    (hjoins : isAtomChar c = true) :
    Form.read (pairSource a c b) = .ok (.list [atomForm (a.chars ++ c :: b.chars)]) := by
  obtain ⟨d, ds, hds⟩ := List.exists_cons_of_ne_nil ha.1
  have hstart : isAtomStart d = true := ha.2 d (by rw [hds]; exact List.mem_cons_self)
  have hmore : ∀ e ∈ ds ++ c :: b.chars, isAtomChar e = true := by
    intro e he
    rcases List.mem_append.mp he with he | he
    · exact isAtomChar_of_start (ha.2 e (by rw [hds]; exact List.mem_cons_of_mem d he))
    · rcases List.mem_cons.mp he with rfl | he
      · exact hjoins
      · exact isAtomChar_of_start (hb.2 e he)
  have hclose : Worded [')'] [.closing .round] := .closing .round .nil
  have hatom := Worded.atom hstart hmore (separated_cons (by decide) []) (atomOf_iff.mpr rfl) hclose
  refine Form.read_eq_ok_iff.mpr ⟨_, ?_, .bracket .round (.atom .nil) .nil⟩
  rw [chars_pairSource, hds]
  have hwords := Worded.opening .round hatom
  simpa [Bracket.openChar] using hwords

/-! ## White space inside atoms -/

theorem code_of_blank (h : Text.isBlank c = true) : c.toNat ≤ 0x20 ∨ 0x80 ≤ c.toNat := by
  obtain ⟨range, hmem, hfirst, hlast⟩ := Text.Ranges.exists_mem_of_contains h
  have hranges : Text.blankRanges.all (fun p => p.2 ≤ 0x20 || 0x80 ≤ p.1) = true := by decide
  have hrange := List.all_eq_true.mp hranges range hmem
  simp only [Bool.or_eq_true, decide_eq_true_eq] at hrange
  omega

theorem toInt64?_of_blank {cs : List Char} (hmem : c ∈ cs) (h : Text.isBlank c = true) :
    Text.toInt64? (Text.ofChars cs) = none := by
  obtain ⟨byte, rest, hbyte, -⟩ := Text.exists_start_ofChar c
  have hin : byte ∈ Text.ofChars cs := List.mem_flatMap.mpr ⟨c, hmem, by simp [hbyte]⟩
  have hcode : byte.toNat ≤ 0x20 ∨ 0x80 ≤ byte.toNat := by
    rcases code_of_blank h with hlow | hhigh
    · have hone : Text.ofChar c = [UInt8.ofNat c.toNat] := if_pos (by omega)
      obtain ⟨rfl, -⟩ := List.cons.inj (hbyte.symm.trans hone)
      rw [Text.toNat_ofNat_byte (by omega)]
      exact .inl hlow
    · exact .inr (Text.bytes_ofChar_of_le hhigh byte (by simp [hbyte]))
  refine Text.toInt64?_eq_none hin (by omega) ⟨?_, ?_⟩ <;> rintro rfl <;> revert hcode <;> decide

/-- An atom with white space in it is a symbol. -/
theorem atomForm_of_blank {cs : List Char} (hmem : c ∈ cs) (h : Text.isBlank c = true) :
    atomForm cs = .symbol (Text.ofChars cs) := by
  have hword : ∀ word : List Char, word.all (fun d => !Text.isBlank d) = true → cs ≠ word := by
    rintro word hword rfl
    have hc := List.all_eq_true.mp hword c hmem
    rw [h] at hc
    cases hc
  exact atomOf_iff.mp (.symbol (hword _ (by decide)) (hword _ (by decide)) (hword _ (by decide))
    (toInt64?_of_blank hmem h))

theorem isAtomChar_eq_false_iff (h : IsSeparator c) :
    isAtomChar c = false ↔ c ∈ [' ', ',', '\t', '\r', '\n'] := by
  have hother : ∀ d, Text.isBlank d = false → d ≠ ',' → c ≠ d := by
    rintro d hblank hcomma rfl
    rcases h with h | h
    · rw [hblank] at h
      cases h
    · exact hcomma h
  constructor
  · intro hc
    simp only [isAtomChar, Bool.not_eq_false', List.contains_iff_mem, String.reduceToList,
      List.mem_cons, hother '(' (by decide) (by decide), hother ')' (by decide) (by decide),
      hother '[' (by decide) (by decide), hother ']' (by decide) (by decide),
      hother '"' (by decide) (by decide), hother ';' (by decide) (by decide), false_or] at hc
    simpa only [List.mem_cons] using hc
  · intro hc
    simp only [List.mem_cons, List.not_mem_nil, or_false] at hc
    rcases hc with rfl | rfl | rfl | rfl | rfl <;> decide

/-- Two atoms that a separator stands between are read as the two of them if and only if it is a
space, a comma, a tab or a character of a line break. Any other white space joins them to one
symbol. -/
theorem Form.read_separated_iff (ha : IsAtom a.chars) (hb : IsAtom b.chars) (hc : IsSeparator c) :
    ∃ f g, Form.read a = .ok f ∧ Form.read b = .ok g ∧
      (Form.read (pairSource a c b) = .ok (.list [f, g]) ↔ c ∈ [' ', ',', '\t', '\r', '\n']) ∧
      (c ∉ [' ', ',', '\t', '\r', '\n'] → Form.read (pairSource a c b)
        = .ok (.list [.symbol (Text.ofChars (a.chars ++ c :: b.chars))])) := by
  have hjoined : c ∉ [' ', ',', '\t', '\r', '\n'] → Form.read (pairSource a c b)
      = .ok (.list [.symbol (Text.ofChars (a.chars ++ c :: b.chars))]) := by
    intro hnot
    have hjoins : isAtomChar c = true := by
      by_contra hends
      exact hnot ((isAtomChar_eq_false_iff hc).mp (Bool.eq_false_of_not_eq_true hends))
    have hblank : Text.isBlank c = true := by
      refine hc.resolve_right ?_
      rintro rfl
      exact absurd hjoins (by decide)
    have hmem : c ∈ a.chars ++ c :: b.chars := by simp
    rw [Form.read_joined ha hb hjoins, atomForm_of_blank hmem hblank]
  refine ⟨_, _, Form.read_atom ha, Form.read_atom hb, ⟨fun hread => ?_, fun hends => ?_⟩, hjoined⟩
  · by_contra hnot
    rw [hjoined hnot] at hread
    have hitems := Form.list.inj (Except.ok.inj hread)
    exact absurd (List.cons.inj hitems).2.symm (List.cons_ne_nil _ _)
  · exact Form.read_separated ha hb hc ((isAtomChar_eq_false_iff hc).mpr hends)

/-- A tab between an integer and a symbol, which ends in a byte that is no character. -/
theorem Form.read_separated_iff_tab :
    IsAtom (Text.ofString "-7").chars ∧ IsAtom (Text.chars [0x78, 0xFF]) ∧ IsSeparator '\t' ∧
      ∃ f g, Form.read "-7" = .ok f ∧ Form.read [0x78, 0xFF] = .ok g ∧
        (Form.read (pairSource "-7" '\t' [0x78, 0xFF]) = .ok (.list [f, g])
          ↔ '\t' ∈ [' ', ',', '\t', '\r', '\n']) ∧
        ('\t' ∉ [' ', ',', '\t', '\r', '\n'] → Form.read (pairSource "-7" '\t' [0x78, 0xFF])
          = .ok (.list [.symbol (Text.ofChars
            ((Text.ofString "-7").chars ++ '\t' :: Text.chars [0x78, 0xFF]))])) := by
  have ha : IsAtom (Text.ofString "-7").chars := isAtom_of_all _ (by decide) (by decide)
  have hb : IsAtom (Text.chars [0x78, 0xFF]) := isAtom_of_all _ (by decide) (by decide)
  have hc : IsSeparator '\t' := .inl (by decide)
  exact ⟨ha, hb, hc, Form.read_separated_iff ha hb hc⟩

/-- A form feed is dropped in front of an atom, and behind one it joins the atom to the next. -/
theorem Form.read_form_feed :
    IsSeparator '\x0c' ∧ Form.read "a" = .ok (.symbol "a") ∧ Form.read "b" = .ok (.symbol "b") ∧
      Form.read "(\x0ca b)" = .ok (.list [.symbol "a", .symbol "b"]) ∧
      Form.read (pairSource "a" '\x0c' "b") = .ok (.list [.symbol "a\x0cb"]) ∧
      Form.read (pairSource "a" '\x0c' "b") ≠ .ok (.list [.symbol "a", .symbol "b"]) := by
  have hread : Form.read (pairSource "a" '\x0c' "b") = .ok (.list [.symbol "a\x0cb"]) := by rfl
  refine ⟨.inl (by decide), rfl, rfl, rfl, hread, fun h => ?_⟩
  rw [hread] at h
  have hitems := Form.list.inj (Except.ok.inj h)
  exact absurd (List.cons.inj hitems).2.symm (List.cons_ne_nil _ _)

end Denotation
