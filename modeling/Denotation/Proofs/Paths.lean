import Mathlib.Tactic
import Denotation.Files.Path

/-!
# Clean paths

A path leads along names, from the root or from wherever one stands. `Path.spell` writes such a way
down, and `Path.trail` is the way that is left of a path once every `..` has been taken back with the
name before it. A path in clean form is its trail written down, so laws about clean paths are laws
about lists of names: what `clean`, `append`, `directory` and `lastName` do is said of trails here,
and nothing below looks at single bytes again.
-/

namespace Denotation

theorem Text.splitOn_eq (sep : UInt8) (t : Text) : Text.splitOn sep t = List.splitOn sep t := by
  induction t with
  | nil => rfl
  | cons a t ih =>
    rw [Text.splitOn, ih, List.splitOn_eq_splitOnP, List.splitOn_eq_splitOnP,
      List.splitOnP_cons_eq_if_modifyHead]
    have hne : List.splitOnP (· == sep) t ≠ [] := List.splitOnP_ne_nil _ _
    cases hparts : List.splitOnP (· == sep) t with
    | nil => exact absurd hparts hne
    | cons part parts => rfl

theorem Text.join_eq (sep : Text) (l : List Text) : Text.join sep l = sep.intercalate l := by
  induction l with
  | nil => rfl
  | cons t l ih =>
    cases l with
    | nil => simp [Text.join]
    | cons u l =>
      rw [Text.join, ih, List.intercalate_cons_cons]
      simp

theorem Text.not_mem_of_mem_splitOn {sep : UInt8} {t part : Text}
    (h : part ∈ Text.splitOn sep t) : sep ∉ part := by
  induction t generalizing part with
  | nil =>
    obtain rfl := List.mem_singleton.mp h
    exact List.not_mem_nil
  | cons a t ih =>
    rw [Text.splitOn] at h
    cases hparts : Text.splitOn sep t with
    | nil => rw [Text.splitOn_eq] at hparts; simp at hparts
    | cons first parts =>
      rw [hparts] at h ih
      by_cases ha : a = sep
      · have hmem : part = [] ∨ part ∈ first :: parts := by simpa [ha] using h
        rcases hmem with rfl | hmem
        · exact List.not_mem_nil
        · exact ih hmem
      · have hmem : part = a :: first ∨ part ∈ parts := by simpa [ha] using h
        rcases hmem with rfl | hmem
        · have hfirst := ih List.mem_cons_self
          simp [Ne.symm ha, hfirst]
        · exact ih (List.mem_cons_of_mem _ hmem)

namespace Path

/-! ## Names -/

/-- A name that leads somewhere. -/
structure IsName (name : Text) : Prop where
  ne_nil : name ≠ []
  ne_here : name ≠ here
  noSlash : slash ∉ name

theorem names_append_slash (p q : Text) : names (p ++ slash :: q) = names p ++ names q := by
  simp only [names, Text.splitOn_eq, List.splitOn_append_cons_self, List.filter_append]

theorem isName_of_mem_names {p name : Text} (h : name ∈ names p) : IsName name := by
  obtain ⟨hmem, hkept⟩ := List.mem_filter.mp h
  have hkept' : name ≠ [] ∧ name ≠ here := by simpa using hkept
  exact ⟨hkept'.1, hkept'.2, Text.not_mem_of_mem_splitOn hmem⟩

theorem filter_isName {l : List Text} (h : ∀ name ∈ l, IsName name) :
    l.filter (fun name => !name.isEmpty && name != here) = l := by
  refine List.filter_eq_self.mpr fun name hname => ?_
  have hn := h name hname
  simp [hn.ne_nil, hn.ne_here]

theorem names_join {l : List Text} (h : ∀ name ∈ l, IsName name) :
    names (Text.join [slash] l) = l := by
  cases l with
  | nil => rfl
  | cons name l =>
    rw [names, Text.splitOn_eq, Text.join_eq, List.splitOn_intercalate slash
      (fun n hn => (h n hn).noSlash) (List.cons_ne_nil _ _), filter_isName h]

theorem names_of_isName {name : Text} (h : IsName name) : names name = [name] :=
  names_join (l := [name]) (by simpa using h)

/-! ## Ways along names -/

/-- The path along the names, from the root or not. -/
def spell (rooted : Bool) (l : List Text) : Text :=
  if rooted then slash :: Text.join [slash] l
  else if (Text.join [slash] l).isEmpty then here else Text.join [slash] l

theorem join_ne_nil {name : Text} {l : List Text} (h : name ≠ []) :
    Text.join [slash] (name :: l) ≠ [] := by
  cases l with
  | nil => exact h
  | cons other l => simp [Text.join]

theorem spell_cons {name : Text} {l : List Text} (h : name ≠ []) :
    spell false (name :: l) = Text.join [slash] (name :: l) := by
  have hne := join_ne_nil (l := l) h
  simp [spell, hne]

theorem names_spell {l : List Text} (h : ∀ name ∈ l, IsName name) (rooted : Bool) :
    names (spell rooted l) = l := by
  cases rooted with
  | true =>
    have hroot : spell true l = [] ++ slash :: Text.join [slash] l := rfl
    rw [hroot, names_append_slash, names_join h]
    rfl
  | false =>
    cases l with
    | nil => rfl
    | cons name l => rw [spell_cons (h name List.mem_cons_self).ne_nil, names_join h]

theorem spell_inj {rooted : Bool} {l l' : List Text} (h : ∀ name ∈ l, IsName name)
    (h' : ∀ name ∈ l', IsName name) : spell rooted l = spell rooted l' ↔ l = l' := by
  refine ⟨fun heq => ?_, congrArg _⟩
  rw [← names_spell h rooted, heq, names_spell h' rooted]

theorem isAbsolute_append {p : Text} (h : p ≠ []) (q : Text) :
    isAbsolute (p ++ q) = isAbsolute p := by
  cases p with
  | nil => exact absurd rfl h
  | cons a p => rfl

theorem isAbsolute_of_isName {name : Text} (h : IsName name) : isAbsolute name = false := by
  cases name with
  | nil => rfl
  | cons a name =>
    have ha : a ≠ slash := fun heq => h.noSlash (heq ▸ List.mem_cons_self)
    simpa [isAbsolute] using ha

/-! ## Trails -/

/-- The way that a path leads, with every `..` taken back as far as can be. -/
def trail (p : Text) : List Text := fold (isAbsolute p) [] (names p)

theorem clean_eq_spell (p : Text) : clean p = spell (isAbsolute p) (trail p) := rfl

/-- The names before, last first, after one more name. -/
def turn (rooted : Bool) (before : List Text) (name : Text) : List Text :=
  if name = above then
    match before with
    | [] => if rooted then [] else [above]
    | last :: earlier => if last = above then above :: before else earlier
  else name :: before

theorem fold_eq_foldl (rooted : Bool) (before l : List Text) :
    fold rooted before l = (l.foldl (turn rooted) before).reverse := by
  induction l generalizing before with
  | nil => cases before <;> rfl
  | cons name l ih =>
    rw [List.foldl_cons, ← ih]
    cases before with
    | nil => by_cases hname : name = above <;> simp [fold, turn, hname]
    | cons last earlier =>
      by_cases hname : name = above <;> by_cases hlast : last = above <;>
        simp [fold, turn, hname, hlast]

theorem fold_append (rooted : Bool) (before l l' : List Text) :
    fold rooted before (l ++ l') = fold rooted (fold rooted before l).reverse l' := by
  simp [fold_eq_foldl]

theorem mem_turn {rooted : Bool} {before : List Text} {name n : Text}
    (h : n ∈ turn rooted before name) : n = name ∨ n ∈ before := by
  unfold turn at h
  by_cases hname : name = above
  · rw [if_pos hname] at h
    cases before with
    | nil =>
      cases rooted with
      | true => exact absurd h List.not_mem_nil
      | false => exact Or.inl ((List.mem_singleton.mp h).trans hname.symm)
    | cons last earlier =>
      dsimp only at h
      split at h
      · rcases List.mem_cons.mp h with rfl | h
        · exact Or.inl hname.symm
        · exact Or.inr h
      · exact Or.inr (List.mem_cons_of_mem _ h)
  · rw [if_neg hname] at h
    exact List.mem_cons.mp h

theorem isName_of_mem_fold {rooted : Bool} {before l : List Text}
    (hb : ∀ name ∈ before, IsName name) (hl : ∀ name ∈ l, IsName name) :
    ∀ name ∈ fold rooted before l, IsName name := by
  intro name hname
  rw [fold_eq_foldl, List.mem_reverse] at hname
  induction l generalizing before with
  | nil => exact hb name hname
  | cons n l ih =>
    obtain ⟨hn, hl⟩ := List.forall_mem_cons.mp hl
    have hturn : ∀ m ∈ turn rooted before n, IsName m := by
      intro m hm
      rcases mem_turn hm with rfl | hm
      · exact hn
      · exact hb m hm
    exact ih hturn hl hname

theorem isName_of_mem_trail {p name : Text} (h : name ∈ trail p) : IsName name :=
  isName_of_mem_fold (fun _ hn => absurd hn List.not_mem_nil) (fun _ hn => isName_of_mem_names hn)
    name h

/-- Nothing is left to be taken back: `..` stands at the front only, and not at the root. The names
are given last first. -/
def Settled (rooted : Bool) (before : List Text) : Prop :=
  ∃ rest k, before = rest ++ List.replicate k above ∧ above ∉ rest ∧ (rooted = true → k = 0)

theorem Settled.tail {rooted : Bool} {name : Text} {before : List Text}
    (h : Settled rooted (name :: before)) : Settled rooted before := by
  obtain ⟨rest, k, heq, hrest, hk⟩ := h
  cases rest with
  | nil =>
    cases k with
    | zero => simp at heq
    | succ k =>
      refine ⟨[], k, (List.cons.inj heq).2, List.not_mem_nil, fun hr => ?_⟩
      exact absurd (hk hr) (Nat.succ_ne_zero k)
  | cons n rest =>
    obtain ⟨-, rfl⟩ := List.cons.inj heq
    exact ⟨rest, k, rfl, fun hmem => hrest (List.mem_cons_of_mem _ hmem), hk⟩

theorem Settled.turn {rooted : Bool} {before : List Text} (h : Settled rooted before)
    (name : Text) : Settled rooted (turn rooted before name) := by
  unfold Path.turn
  by_cases hname : name = above
  · rw [if_pos hname]
    cases before with
    | nil =>
      cases rooted with
      | true => exact ⟨[], 0, rfl, List.not_mem_nil, fun _ => rfl⟩
      | false => exact ⟨[], 1, rfl, List.not_mem_nil, by simp⟩
    | cons last earlier =>
      dsimp only
      by_cases hlast : last = above
      · rw [if_pos hlast]
        obtain ⟨rest, k, heq, hrest, hk⟩ := h
        -- the last name is a `..`, so there is nothing else
        cases rest with
        | cons n rest =>
          obtain ⟨rfl, -⟩ := List.cons.inj heq
          exact absurd (hlast ▸ List.mem_cons_self) hrest
        | nil =>
          refine ⟨[], k + 1, by rw [heq]; rfl, List.not_mem_nil, fun hr => ?_⟩
          rw [hk hr] at heq
          simp at heq
      · rw [if_neg hlast]
        exact h.tail
  · rw [if_neg hname]
    obtain ⟨rest, k, rfl, hrest, hk⟩ := h
    exact ⟨name :: rest, k, rfl, by simp [Ne.symm hname, hrest], hk⟩

theorem settled_fold {rooted : Bool} {before : List Text} (h : Settled rooted before)
    (l : List Text) : Settled rooted (fold rooted before l).reverse := by
  rw [fold_eq_foldl, List.reverse_reverse]
  induction l generalizing before with
  | nil => exact h
  | cons name l ih => exact ih (h.turn name)

theorem settled_trail (p : Text) : Settled (isAbsolute p) (trail p).reverse :=
  settled_fold ⟨[], 0, rfl, List.not_mem_nil, fun _ => rfl⟩ _

theorem fold_of_settled {rooted : Bool} {before : List Text} (h : Settled rooted before) :
    fold rooted [] before.reverse = before.reverse := by
  obtain ⟨rest, k, rfl, hrest, hk⟩ := h
  rw [fold_eq_foldl, List.reverse_append, List.foldl_append, List.reverse_replicate]
  have hfront : (List.replicate k above).foldl (Path.turn rooted) [] = List.replicate k above := by
    cases rooted with
    | true =>
      rw [hk rfl]
      rfl
    | false =>
      clear hk
      have hturn : ∀ k, Path.turn false (List.replicate k above) above
          = List.replicate (k + 1) above := by
        intro k
        cases k <;> rfl
      induction k with
      | zero => rfl
      | succ k ih =>
        rw [List.replicate_succ', List.foldl_append, ih, List.foldl_cons, List.foldl_nil, hturn,
          List.replicate_succ']
  have hback : ∀ before : List Text,
      rest.reverse.foldl (Path.turn rooted) before = rest ++ before := by
    clear hk
    induction rest with
    | nil => exact fun _ => rfl
    | cons name rest ih =>
      intro before
      have hname : name ≠ above := fun heq => hrest (heq ▸ List.mem_cons_self)
      have hrest' : above ∉ rest := fun hmem => hrest (List.mem_cons_of_mem _ hmem)
      rw [List.reverse_cons, List.foldl_append, ih hrest']
      simp [Path.turn, hname]
  rw [hfront, hback]
  simp

/-! ## What lies where -/

theorem append_eq_spell {p : Text} (h : p ≠ []) (q : Text) :
    append p q = spell (isAbsolute p) (fold (isAbsolute p) (trail p).reverse (names q)) := by
  have happend : append p q = clean (p ++ slash :: q) := by
    simp [append, h, Text.concat]
  rw [happend, clean_eq_spell, trail, isAbsolute_append h, names_append_slash, fold_append]
  rfl

/-- The front of a path, up to and with the slash before its last name. -/
def front (rooted : Bool) (l : List Text) : Text :=
  (if rooted then [slash] else []) ++ l.flatMap (· ++ [slash])

theorem join_concat (l : List Text) (name : Text) :
    Text.join [slash] (l ++ [name]) = l.flatMap (· ++ [slash]) ++ name := by
  induction l with
  | nil => rfl
  | cons n l ih =>
    have hcons : Text.join [slash] (n :: (l ++ [name]))
        = n ++ [slash] ++ Text.join [slash] (l ++ [name]) := by
      cases l <;> rfl
    rw [List.cons_append, hcons, ih]
    simp

theorem spell_concat {name : Text} (h : name ≠ []) (rooted : Bool) (l : List Text) :
    spell rooted (l ++ [name]) = front rooted l ++ name := by
  have hne : Text.join [slash] (l ++ [name]) ≠ [] := by
    rw [join_concat]
    exact List.append_ne_nil_of_right_ne_nil _ h
  cases rooted with
  | true => simp [spell, front, join_concat]
  | false =>
    rw [spell, if_neg (by decide), if_neg (by simpa using hne), join_concat]
    rfl

theorem names_front {l : List Text} (h : ∀ name ∈ l, IsName name) (rooted : Bool) :
    names (front rooted l) = l := by
  have hback : names (l.flatMap (· ++ [slash])) = l := by
    induction l with
    | nil => rfl
    | cons name l ih =>
      obtain ⟨hname, hl⟩ := List.forall_mem_cons.mp h
      have hcons : (name :: l).flatMap (· ++ [slash])
          = name ++ slash :: l.flatMap (· ++ [slash]) := by
        simp
      rw [hcons, names_append_slash, ih hl, names_of_isName hname]
      rfl
  cases rooted with
  | true =>
    have hroot : front true l = [] ++ slash :: l.flatMap (· ++ [slash]) := rfl
    rw [hroot, names_append_slash, hback]
    rfl
  | false => exact hback

theorem isAbsolute_front {l : List Text} (h : ∀ name ∈ l, IsName name) (rooted : Bool) :
    isAbsolute (front rooted l) = rooted := by
  cases rooted with
  | true => rfl
  | false =>
    cases l with
    | nil => rfl
    | cons name l =>
      have hname := h name List.mem_cons_self
      have hcons : front false (name :: l) = name ++ ([slash] ++ l.flatMap (· ++ [slash])) := by
        simp [front]
      rw [hcons, isAbsolute_append hname.ne_nil, isAbsolute_of_isName hname]

theorem upToSlash_append {p q : Text} (hp : p = [] ∨ p.getLast? = some slash) (hq : slash ∉ q) :
    upToSlash (p ++ q) = p := by
  have hplain : ∀ b ∈ q.reverse, (b != slash) = true := by
    intro b hb
    exact bne_iff_ne.mpr fun heq => hq (heq ▸ List.mem_reverse.mp hb)
  rw [upToSlash, List.reverse_append, List.dropWhile_append_of_pos hplain]
  rcases hp with rfl | hp
  · rfl
  · obtain ⟨p, rfl⟩ := List.getLast?_eq_some_iff.mp hp
    simp

theorem front_end (rooted : Bool) (l : List Text) :
    front rooted l = [] ∨ (front rooted l).getLast? = some slash := by
  induction l using List.reverseRecOn with
  | nil => cases rooted <;> simp [front]
  | append_singleton l name => right; simp [front, ← List.append_assoc]

/-- Whatever is added to the last name of a clean path, the path lies where the other names lead. -/
theorem directory_spell_append {rooted : Bool} {l : List Text} (hl : ∀ name ∈ l, IsName name)
    (hs : Settled rooted l.reverse) {q : Text} (hq : slash ∉ q) :
    directory (spell rooted l ++ q) = spell rooted l.dropLast := by
  induction l using List.reverseRecOn with
  | nil =>
    cases rooted with
    | true =>
      have hup : upToSlash ([slash] ++ q) = [slash] := upToSlash_append (Or.inr rfl) hq
      exact congrArg clean hup
    | false =>
      have hhere : slash ∉ here ++ q := by
        have : slash ∉ here := by decide
        simp [this, hq]
      have hup : upToSlash ([] ++ (here ++ q)) = [] := upToSlash_append (Or.inl rfl) hhere
      exact congrArg clean hup
  | append_singleton l name =>
    have hname : IsName name := hl name (by simp)
    have hl' : ∀ n ∈ l, IsName n := fun n hn => hl n (by simp [hn])
    have hlast : slash ∉ name ++ q := by simp [hname.noSlash, hq]
    have hs' : Settled rooted l.reverse := by
      rw [List.reverse_concat] at hs
      exact hs.tail
    have hfold := fold_of_settled hs'
    rw [List.reverse_reverse] at hfold
    rw [spell_concat hname.ne_nil, List.append_assoc, List.dropLast_concat, directory,
      upToSlash_append (front_end rooted l) hlast, clean_eq_spell, trail, isAbsolute_front hl',
      names_front hl', hfold]

theorem lastName_spell_concat {name : Text} (h : IsName name) (rooted : Bool) (l : List Text) :
    lastName (spell rooted (l ++ [name])) = name := by
  have hplain : ∀ b ∈ name.reverse, (b != slash) = true := by
    intro b hb
    exact bne_iff_ne.mpr fun heq => h.noSlash (heq ▸ List.mem_reverse.mp hb)
  have htrim : trimSlashes (front rooted l ++ name) = front rooted l ++ name := by
    obtain ⟨b, bs, hrev⟩ := List.exists_cons_of_ne_nil (List.reverse_ne_nil_iff.mpr h.ne_nil)
    have hb : (b == slash) = false := by
      rw [hrev] at hplain
      simpa using hplain b List.mem_cons_self
    rw [trimSlashes, List.reverse_append, hrev, List.cons_append,
      List.dropWhile_cons_of_neg (by simp [hb]), ← List.cons_append, ← hrev, ← List.reverse_append,
      List.reverse_reverse]
  have hafter : afterSlash (front rooted l ++ name) = name := by
    rw [afterSlash, List.reverse_append, List.takeWhile_append_of_pos hplain]
    rcases front_end rooted l with hnil | hlast
    · simp [hnil]
    · obtain ⟨p, hp⟩ := List.getLast?_eq_some_iff.mp hlast
      simp [hp]
  rw [spell_concat h.ne_nil, lastName, htrim, hafter]
  simp [h.ne_nil]

/-- The last name of a path leads somewhere, unless the path has none. -/
theorem lastName_cases (p : Text) :
    IsName (lastName p) ∨ lastName p = here ∨ lastName p = [slash] := by
  unfold lastName
  by_cases hp : p = []
  · exact Or.inr (Or.inl (by simp [hp]))
  · rw [if_neg (by simpa using hp)]
    dsimp only
    by_cases hname : afterSlash (trimSlashes p) = []
    · exact Or.inr (Or.inr (by simp [hname]))
    · rw [if_neg (by simpa using hname)]
      by_cases hhere : afterSlash (trimSlashes p) = here
      · exact Or.inr (Or.inl hhere)
      · refine Or.inl ⟨hname, hhere, fun hmem => ?_⟩
        have hslash := List.all_eq_true.mp List.all_takeWhile _ (List.mem_reverse.mp hmem)
        simp at hslash

end Path

end Denotation
