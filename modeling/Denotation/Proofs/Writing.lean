import Denotation.Proofs.Decimals
import Denotation.Proofs.Quotation

/-!
# Written forms read back

`Form.write` writes a form with one space between the items of a bracket. Reading goes over a
written form from left to right and hands it to the innermost open bracket, which is what `Reads`
says of a list of characters; it follows that reading a written form gives the form.

A symbol reads back only if it is spelled like one: `IsSymbol` says which names are.
-/

namespace Denotation

mutual

/-- A form as source text. -/
def Form.write : Form → Text
  | .nil => "nil"
  | .bool b => boolText b
  | .int n => Text.ofInt64 n
  | .text t => t.quote
  | .symbol name => name
  | .list items => "(" ++ Text.join " " (Form.writeAll items) ++ ")"
  | .vector items => "[" ++ Text.join " " (Form.writeAll items) ++ "]"

/-- The forms of a list as source texts. -/
def Form.writeAll : List Form → List Text
  | [] => []
  | f :: rest => f.write :: Form.writeAll rest

end

/-- Whether an atom may start with the character. -/
def isAtomStart (c : Char) : Bool := isAtomChar c && !Text.isBlank c

/-- The characters of an atom. -/
def IsAtom (cs : List Char) : Prop := cs ≠ [] ∧ ∀ c ∈ cs, isAtomStart c = true

/-- The name reads as a symbol. -/
def IsSymbol (name : Text) : Prop :=
  ∃ cs, name = Text.ofChars cs ∧ IsAtom cs ∧ atomForm cs = .symbol name

mutual

/-- Every symbol of the form reads as one. -/
def Form.Writable : Form → Prop
  | .symbol name => IsSymbol name
  | .list items => Form.AllWritable items
  | .vector items => Form.AllWritable items
  | _ => True

/-- Every symbol of the forms reads as one. -/
def Form.AllWritable : List Form → Prop
  | [] => True
  | f :: rest => f.Writable ∧ Form.AllWritable rest

end

/-! ## Reading in front of a rest -/

/-- What is left to assemble once a form is finished. -/
def handOver (f : Form) (rest : List Lexeme) (stack : List OpenBracket) : Except ReadError Form :=
  match deliver f stack with
  | .inside stack => assemble rest stack
  | .whole f => wholeForm f rest

/-- No atom goes on into these characters. -/
def Separated (rest : List Char) : Prop := ∀ c ∈ rest.head?, isAtomChar c = false

/-- Reading the characters hands the form over, whatever follows them. -/
def Reads (cs : List Char) (f : Form) : Prop :=
  ∀ (offset : Nat) (rest : List Char) (stack : List OpenBracket), Separated rest →
    assemble (lexemesFrom 0 offset (cs ++ rest)) stack
      = handOver f (lexemesFrom 0 (offset + cs.length) rest) stack

/-- Reading the characters inside a bracket adds the forms to it. -/
def ReadsItems (cs : List Char) (fs : List Form) : Prop :=
  ∀ (offset : Nat) (rest : List Char) (b : OpenBracket) (outer : List OpenBracket), Separated rest →
    assemble (lexemesFrom 0 offset (cs ++ rest)) (b :: outer)
      = assemble (lexemesFrom 0 (offset + cs.length) rest)
          ({ b with items := fs.reverse ++ b.items } :: outer)

theorem lexemesFrom_length_append (cs rest : List Char) (offset : Nat) :
    lexemesFrom cs.length offset (cs ++ rest) = lexemesFrom 0 (offset + cs.length) rest := by
  induction cs generalizing offset with
  | nil => rfl
  | cons c cs ih =>
    rw [List.length_cons, List.cons_append, lexemesFrom, ih]
    congr 1
    omega

/-! ## Atoms -/

theorem isAtomChar_of_start {c : Char} (h : isAtomStart c = true) : isAtomChar c = true := by
  simp only [isAtomStart, Bool.and_eq_true] at h
  exact h.1

/-- A lexeme that is an atom. -/
theorem isAtom_of_all (cs : List Char) (hne : cs ≠ []) (h : cs.all isAtomStart = true) :
    IsAtom cs :=
  ⟨hne, List.all_eq_true.mp h⟩

/-- An atom goes on as far as it can. -/
theorem lexemesFrom_atom {c : Char} {cs rest : List Char} (hc : isAtomStart c = true)
    (hcs : ∀ d ∈ cs, isAtomChar d = true) (hr : Separated rest) (offset : Nat) :
    lexemesFrom 0 offset (c :: cs ++ rest)
      = ⟨.atom (atomForm (c :: cs)), offset⟩
          :: lexemesFrom 0 (offset + (c :: cs).length) rest := by
  simp only [isAtomStart, isAtomChar, Bool.and_eq_true, Bool.not_eq_true', List.contains_eq_mem,
    decide_eq_false_iff_not] at hc
  obtain ⟨hc, hb⟩ := hc
  simp only [String.reduceToList, List.mem_cons, not_or] at hc
  rw [List.cons_append, lexemesFrom]
  simp only [hb, hc, (takeWhile_of_run hcs hr).1, lexemesFrom_length_append, beq_iff_eq, Bool.false_or,
    if_false]
  rw [List.length_cons, Nat.add_assoc, Nat.add_comm 1]

/-- An atom reads as the form that it spells. -/
theorem Reads.atom {cs : List Char} (h : IsAtom cs) : Reads cs (atomForm cs) := by
  intro offset rest stack hr
  obtain ⟨c, cs, rfl⟩ := List.exists_cons_of_ne_nil h.1
  have hcs : ∀ d ∈ cs, isAtomChar d = true :=
    fun d hd => isAtomChar_of_start (h.2 d (List.mem_cons_of_mem c hd))
  rw [lexemesFrom_atom (h.2 c List.mem_cons_self) hcs hr, assemble]
  rfl

theorem isAtom_digits {t : Text} (hne : t ≠ [])
    (h : ∀ b ∈ t, (0x30 ≤ b.toNat ∧ b.toNat ≤ 0x39) ∨ b = 0x2D) : IsAtom (Text.asciiChars t) := by
  have hd : ∀ n, 0x30 ≤ n → n < 0x3A → isAtomStart (Char.ofNat n) = true := by decide
  refine ⟨by simpa [Text.asciiChars] using hne, fun c hc => ?_⟩
  obtain ⟨b, hb, rfl⟩ := List.mem_map.mp hc
  rcases h b hb with hb | rfl
  · exact hd b.toNat hb.1 (by omega)
  · decide

/-- An integer reads as itself. -/
theorem Reads.int (n : Int64) :
    ∃ cs, Text.ofInt64 n = Text.ofChars cs ∧ Reads cs (.int n) := by
  have hb : ∀ b ∈ Text.ofInt64 n, (0x30 ≤ b.toNat ∧ b.toNat ≤ 0x39) ∨ b = 0x2D :=
    fun b hb => Text.bytes_ofInt hb
  have hascii : ∀ b ∈ Text.ofInt64 n, b.toNat < 0x80 := by
    intro b hm
    rcases hb b hm with h | rfl
    · omega
    · decide
  have he := Text.ofChars_asciiChars hascii
  have hv := Text.toInt64?_ofInt64 n
  refine ⟨Text.asciiChars (Text.ofInt64 n), he.symm, ?_⟩
  have hf : atomForm (Text.asciiChars (Text.ofInt64 n)) = .int n := by
    -- the words that are atoms of their own are no integers
    have hword : ∀ w : Text, Text.toInt64? w = none → Text.ofInt64 n ≠ w := by
      rintro w hw rfl
      rw [hv] at hw
      cases hw
    unfold atomForm
    simp only [he, beq_iff_eq, hword _ (show Text.toInt64? (Text.ofString "true") = none by decide),
      hword _ (show Text.toInt64? (Text.ofString "false") = none by decide),
      hword _ (show Text.toInt64? (Text.ofString "nil") = none by decide), if_false, hv]
  exact hf ▸ .atom (isAtom_digits (Text.ofInt64_ne_nil n) hb)

theorem Reads.bool (b : Bool) : ∃ cs, boolText b = Text.ofChars cs ∧ Reads cs (.bool b) := by
  cases b with
  | true => exact ⟨_, rfl, .atom (isAtom_of_all "true".toList (by decide) (by decide))⟩
  | false => exact ⟨_, rfl, .atom (isAtom_of_all "false".toList (by decide) (by decide))⟩

theorem lexemesFrom_quoted {cs rest : List Char} {t : Text}
    (hlen : stringLength? (cs ++ '"' :: rest) = some cs.length) (hun : Text.unquote? cs = some t)
    (offset : Nat) :
    lexemesFrom 0 offset ('"' :: cs ++ '"' :: rest)
      = ⟨.atom (.text t), offset⟩ :: lexemesFrom 0 (offset + (cs.length + 1 + 1)) rest := by
  have hblank : Text.isBlank '"' = false := by decide
  have hskip := lexemesFrom_length_append (cs ++ ['"']) rest (offset + 1)
  simp only [List.append_assoc, List.cons_append, List.nil_append, List.length_append,
    List.length_cons, List.length_nil] at hskip
  rw [List.cons_append, lexemesFrom]
  simp only [hblank, hlen, List.take_left', hun, hskip, Bool.false_or,
    show ('"' == ',') = false from rfl, show ('"' == ';') = false from rfl,
    show ('"' == '(') = false from rfl, show ('"' == '[') = false from rfl,
    show ('"' == ')') = false from rfl, show ('"' == ']') = false from rfl, beq_self_eq_true,
    if_true, Bool.false_eq_true, if_false]
  rw [Nat.add_assoc offset 1, Nat.add_comm 1]

/-- A quoted text reads as the text. -/
theorem Reads.text (t : Text) : ∃ cs, t.quote = Text.ofChars cs ∧ Reads cs (.text t) := by
  obtain ⟨cs, he, hlen, hun⟩ := Text.quote_spec t
  refine ⟨_, he, fun offset rest stack hr => ?_⟩
  have hword := lexemesFrom_quoted (hlen rest) hun offset
  rw [List.cons_append] at hword
  rw [List.cons_append, List.append_assoc, List.singleton_append, hword, assemble, List.length_cons,
    List.length_append, List.length_singleton]
  rfl

/-! ## Brackets -/

theorem separated_cons {c : Char} (h : isAtomChar c = false) (rest : List Char) :
    Separated (c :: rest) := by
  intro d hd
  rw [← Option.some.inj hd]
  exact h

theorem ReadsItems.single {cs : List Char} {f : Form} (h : Reads cs f) : ReadsItems cs [f] := by
  intro offset rest b outer hr
  rw [h offset rest (b :: outer) hr]
  rfl

/-- One form and a space in front of others. -/
theorem ReadsItems.cons {cs ds : List Char} {f : Form} {fs : List Form} (h : Reads cs f)
    (hs : ReadsItems ds fs) : ReadsItems (cs ++ ' ' :: ds) (f :: fs) := by
  intro offset rest b outer hr
  have hspace : ∀ n,
      lexemesFrom 0 n (' ' :: (ds ++ rest)) = lexemesFrom 0 (n + 1) (ds ++ rest) := by
    intro n
    rw [lexemesFrom, if_pos (by decide)]
  rw [List.append_assoc, List.cons_append, h offset _ _ (separated_cons (by decide) _), handOver,
    deliver]
  dsimp only
  rw [hspace, hs _ rest _ _ hr]
  simp only [List.length_append, List.length_cons, List.reverse_cons, List.append_assoc,
    List.cons_append, List.nil_append]
  congr 2
  omega

/-- The opening bracket. -/
def Bracket.openChar : Bracket → Char
  | .round => '('
  | .square => '['

theorem lexemesFrom_opening (b : Bracket) (offset : Nat) (rest : List Char) :
    lexemesFrom 0 offset (b.openChar :: rest)
      = ⟨.opening b, offset⟩ :: lexemesFrom 0 (offset + 1) rest := by
  cases b <;> rfl

theorem lexemesFrom_closing (b : Bracket) (offset : Nat) (rest : List Char) :
    lexemesFrom 0 offset (b.close :: rest)
      = ⟨.closing b, offset⟩ :: lexemesFrom 0 (offset + 1) rest := by
  cases b <;> rfl

theorem separated_close (b : Bracket) (rest : List Char) : Separated (b.close :: rest) := by
  cases b <;> exact separated_cons (by decide) rest

/-- Items between brackets read as one form. -/
theorem Reads.bracket (b : Bracket) {cs : List Char} {fs : List Form} (h : ReadsItems cs fs) :
    Reads (b.openChar :: (cs ++ [b.close])) (b.form fs) := by
  intro offset rest stack hr
  rw [List.cons_append, List.append_assoc, List.singleton_append, lexemesFrom_opening, assemble]
  dsimp only
  rw [h _ _ _ _ (separated_close b rest), lexemesFrom_closing, assemble]
  simp only [List.append_nil, List.reverse_reverse, if_true]
  rw [List.length_cons, List.length_append, List.length_singleton,
    show offset + 1 + cs.length + 1 = offset + (cs.length + 1 + 1) by omega]
  rfl

/-! ## Whole forms -/

mutual

/-- A written form is made of characters that read as the form. -/
theorem Form.write_reads (f : Form) (h : f.Writable) :
    ∃ cs, f.write = Text.ofChars cs ∧ Reads cs f := by
  cases f with
  | nil => exact ⟨_, rfl, .atom (isAtom_of_all "nil".toList (by decide) (by decide))⟩
  | bool b => exact Reads.bool b
  | int n => exact Reads.int n
  | text t => exact Reads.text t
  | symbol name =>
    obtain ⟨cs, he, hatom, hf⟩ := h
    exact ⟨cs, he, hf ▸ .atom hatom⟩
  | list items =>
    obtain ⟨cs, he, hr⟩ := Form.writeAll_reads items h
    refine ⟨_, ?_, Reads.bracket .round hr⟩
    rw [Form.write, he, Text.ofChars_cons, Text.ofChars_append]
    rfl
  | vector items =>
    obtain ⟨cs, he, hr⟩ := Form.writeAll_reads items h
    refine ⟨_, ?_, Reads.bracket .square hr⟩
    rw [Form.write, he, Text.ofChars_cons, Text.ofChars_append]
    rfl

/-- Written forms with spaces between them read as the forms. -/
theorem Form.writeAll_reads (fs : List Form) (h : Form.AllWritable fs) :
    ∃ cs, Text.join " " (Form.writeAll fs) = Text.ofChars cs ∧ ReadsItems cs fs := by
  match fs, h with
  | [], _ => exact ⟨[], rfl, fun offset rest b outer hr => rfl⟩
  | [f], h =>
    obtain ⟨cs, he, hr⟩ := Form.write_reads f h.1
    exact ⟨cs, he, .single hr⟩
  | f :: g :: rest, h =>
    obtain ⟨cs, he, hr⟩ := Form.write_reads f h.1
    obtain ⟨ds, hds, hrs⟩ := Form.writeAll_reads (g :: rest) h.2
    refine ⟨cs ++ ' ' :: ds, ?_, .cons hr hrs⟩
    rw [Text.ofChars_append, Text.ofChars_cons, ← he, ← hds]
    exact List.append_assoc _ _ _

end

/-- Reading a written form gives the form. -/
theorem Form.read_write (f : Form) (h : f.Writable) : Form.read f.write = .ok f := by
  obtain ⟨cs, he, hr⟩ := f.write_reads h
  have hnil := hr 0 [] [] (by intro c hc; cases hc)
  rw [Form.read, he, Text.chars_ofChars, lexemes]
  simpa [handOver, deliver, lexemesFrom, wholeForm] using hnil

end Denotation
