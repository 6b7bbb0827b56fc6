import Denotation.Proofs.Failures
import Denotation.Proofs.Places

/-!
# The parser sees words

A parser compares the kinds and the values of tokens. It hands the tokens on to errors and does
nothing else with their places. So tokens with the same words are parsed to the same program, or a
token is refused and then the one in its place is refused for the same reason.

`Descent.Parallel` relates two computations that cannot be told apart but for the places of tokens.
Every parsing function is related to itself.
-/

namespace Denotation

open Descent

/-- The errors refuse the two tokens for the same reason. -/
inductive RefuseAlike (t u : Token) : ParseError → ParseError → Prop where
  | unexpected (w : Wanted) : RefuseAlike t u (.unexpected t w) (.unexpected u w)
  | badNumber : RefuseAlike t u (.badNumber t) (.badNumber u)

theorem RefuseAlike.token?_eq {t u : Token} {e e' : ParseError} (h : RefuseAlike t u e e') :
    e.token? = some t ∧ e'.token? = some u := by
  cases h <;> exact ⟨rfl, rfl⟩

/-! ## Computations -/

namespace Descent

variable {α β : Type}

/-- Given tokens with the same words, the computations ask alike, refuse alike and give values that
are related. -/
inductive Parallel (R : α → α → Prop) : Descent α → Descent α → Prop where
  | done {v v' : α} (h : R v v') : Parallel R (.done v) (.done v')
  | fail {t u : Token} {e e' : ParseError} (hword : t.word = u.word) (h : RefuseAlike t u e e') :
      Parallel R (.fail e) (.fail e')
  | exhausted : Parallel R .exhausted .exhausted
  | ask {keep : Bool} {k k' : Token → Descent α}
      (h : ∀ t u, t.word = u.word → Parallel R (k t) (k' u)) : Parallel R (.ask keep k) (.ask keep k')
  | consume {d d' : Descent α} (h : Parallel R d d') : Parallel R (.consume d) (.consume d')

/-- How answers end that are alike but for the places of tokens. -/
inductive StandAlike (R : α → α → Prop) : Standing α → Standing α → Prop where
  | done {v v' : α} {held held' : Option Token} {ts us : List Token} (h : R v v') :
      StandAlike R (.done v held (ts.map .ok)) (.done v' held' (us.map .ok))
  | stopped {t u : Token} {e e' : ParseError} {ts us : List Token} (h : RefuseAlike t u e e')
      (hunread : ts.map Token.word = us.map Token.word) :
      StandAlike R (.stopped e (ts.map .ok)) (.stopped e' (us.map .ok))
  | cutOff : StandAlike R (.stopped .cutOff []) (.stopped .cutOff [])
  | exhausted : StandAlike R .exhausted .exhausted

variable {R : α → α → Prop} {S : β → β → Prop} {d d' : Descent α} {f f' : α → Descent β}
  {held held' : Option Token} {ts us : List Token}

theorem Parallel.bind (h : Parallel R d d') (hf : ∀ v v', R v v' → Parallel S (f v) (f' v')) :
    Parallel S (d.bind f) (d'.bind f') := by
  induction h with
  | done h => exact hf _ _ h
  | fail hword h => exact .fail hword h
  | exhausted => exact .exhausted
  | ask _ ih => exact .ask ih
  | consume _ ih => exact .consume ih

theorem word_kept {t u : Token} (h : t.word = u.word) (keep : Bool) :
    (kept keep t).map Token.word = (kept keep u).map Token.word := by
  cases keep with
  | true => exact congrArg some h
  | false => rfl

/-- Answered by tokens with the same words, computations that are alike end alike. -/
theorem Parallel.read (h : Parallel R d d') (hheld : held.map Token.word = held'.map Token.word)
    (hts : ts.map Token.word = us.map Token.word) :
    StandAlike R (d.read held (ts.map .ok)) (d'.read held' (us.map .ok)) := by
  induction h generalizing held held' ts us with
  | done h => exact .done h
  | fail _ h => exact .stopped h hts
  | exhausted => exact .exhausted
  | consume _ ih => exact ih rfl hts
  | @ask keep k k' _ ih =>
    cases held with
    | some t =>
      obtain ⟨u, rfl, hu⟩ := Option.map_eq_some_iff.mp hheld.symm
      exact ih t u hu.symm (word_kept hu.symm keep) hts
    | none =>
      obtain rfl : held' = none := Option.map_eq_none_iff.mp hheld.symm
      cases ts with
      | nil =>
        obtain rfl : us = [] := List.map_eq_nil_iff.mp hts.symm
        exact .cutOff
      | cons t ts =>
        obtain ⟨u, us, rfl, hu, hus⟩ := List.map_eq_cons_iff.mp hts.symm
        exact ih t u hu.symm (word_kept hu.symm keep) hus.symm

/-! ## Parts of the parser -/

variable {t u : Token} {k o c : TokenKind} {combine : α → α → α}

theorem parallel_expect {judge : Token → Except ParseError α}
    (h : ∀ t u, t.word = u.word → Parallel R (.ofExcept (judge t)) (.ofExcept (judge u))) :
    Parallel R (expect judge) (expect judge) :=
  .ask h

theorem parallel_judgeKind (h : t.word = u.word) :
    Parallel (fun t u => t.word = u.word) (.ofExcept (judgeKind k t)) (.ofExcept (judgeKind k u)) := by
  have hkind : t.kind = u.kind := congrArg Prod.fst h
  unfold judgeKind
  rw [← hkind]
  by_cases hk : t.kind = k
  · rw [if_pos hk, if_pos hk]
    exact .done h
  · rw [if_neg hk, if_neg hk]
    exact .fail h (.unexpected _)

theorem parallel_judgeKeyword {k : Keyword} (h : t.word = u.word) :
    Parallel Eq (.ofExcept (judgeKeyword k t)) (.ofExcept (judgeKeyword k u)) := by
  obtain ⟨hkind, hvalue⟩ := Prod.mk.inj h
  unfold judgeKeyword
  rw [← hkind, ← hvalue]
  by_cases hk : t.kind = .name
  · rw [if_pos hk, if_pos hk]
    by_cases hv : t.value = k.text
    · rw [if_pos hv, if_pos hv]
      exact .done rfl
    · rw [if_neg hv, if_neg hv]
      exact .fail h (.unexpected _)
  · rw [if_neg hk, if_neg hk]
    exact .fail h (.unexpected _)

theorem parallel_judgeVariable (h : t.word = u.word) :
    Parallel Eq (.ofExcept (judgeVariable t)) (.ofExcept (judgeVariable u)) := by
  obtain ⟨hkind, hvalue⟩ := Prod.mk.inj h
  unfold judgeVariable
  rw [← hkind, ← hvalue]
  by_cases hk : t.kind = .name
  · rw [if_pos hk, if_pos hk]
    by_cases hreserved : (Keyword.ofText? t.value).isSome = true
    · rw [if_pos hreserved, if_pos hreserved]
      exact .fail h (.unexpected _)
    · rw [if_neg hreserved, if_neg hreserved]
      exact .done rfl
  · rw [if_neg hk, if_neg hk]
    exact .fail h (.unexpected _)

theorem parallel_atom (h : t.word = u.word) :
    Parallel Eq (.ofExcept (atom t)) (.ofExcept (atom u)) := by
  obtain ⟨hkind, hvalue⟩ := Prod.mk.inj h
  unfold atom
  rw [← hkind, ← hvalue]
  split
  · split
    · exact .done rfl
    · exact .fail h .badNumber
  · split
    · exact .done rfl
    · exact .done rfl
    · exact .fail h (.unexpected _)
    · exact .done rfl
  · exact .fail h (.unexpected _)

theorem parallel_chain (hd : Parallel Eq d d) (hd' : Parallel Eq d' d') :
    Parallel Eq (Descent.chain k combine d d') (Descent.chain k combine d d') := by
  refine hd.bind ?_
  rintro left _ rfl
  refine .ask fun t u h => ?_
  have hkind : t.kind = u.kind := congrArg Prod.fst h
  rw [← hkind]
  by_cases hk : t.kind = k
  · rw [if_pos hk]
    refine .consume (hd'.bind ?_)
    rintro right _ rfl
    exact .done rfl
  · rw [if_neg hk]
    exact .done rfl

theorem parallel_closed (hd : Parallel Eq d d) : Parallel Eq (Descent.closed c d) (Descent.closed c d) := by
  refine hd.bind ?_
  rintro v _ rfl
  exact (parallel_expect fun _ _ h => parallel_judgeKind h).bind fun _ _ _ => .done rfl

theorem parallel_enclosed (hd : Parallel Eq d d) :
    Parallel Eq (Descent.enclosed o c d) (Descent.enclosed o c d) :=
  (parallel_expect fun _ _ h => parallel_judgeKind h).bind fun _ _ _ => parallel_closed hd

end Descent

/-! ## The parser -/

theorem Level.parallel (n : Nat) (x : Level) : Parallel Eq (x.descent n) (x.descent n) := by
  induction n generalizing x with
  | zero => cases x <;> exact .exhausted
  | succ n ih =>
    have htier : ∀ tier : Tier,
        Parallel Eq (tier.level.descent (n + 1)) (tier.level.descent (n + 1)) := by
      intro tier
      rw [Tier.descent_level]
      exact parallel_chain (ih _) (ih _)
    cases x with
    | expression => exact htier .less
    | add => exact htier .plus
    | multiply => exact htier .star
    | term =>
      refine .ask fun t u h => ?_
      have hkind : t.kind = u.kind := congrArg Prod.fst h
      rw [← hkind]
      by_cases hk : t.kind = .parenOpen
      · rw [if_pos hk, if_pos hk]
        exact parallel_closed (ih .expression)
      · rw [if_neg hk, if_neg hk]
        exact parallel_atom h

section
variable {condition value : Descent (Expr Empty)} {block : Descent (Stmt Empty)}

theorem parallel_assign (hvalue : Parallel Eq value value) :
    Parallel Eq (assignDescent value) (assignDescent value) := by
  refine (parallel_expect fun _ _ h => parallel_judgeVariable h).bind ?_
  rintro name _ rfl
  refine (parallel_expect fun _ _ h => parallel_judgeKind h).bind fun _ _ _ => hvalue.bind ?_
  rintro e _ rfl
  exact .done rfl

theorem parallel_loop (hcondition : Parallel Eq condition condition) (hblock : Parallel Eq block block) :
    Parallel Eq (loopDescent condition block) (loopDescent condition block) := by
  refine (parallel_expect fun _ _ h => parallel_judgeKeyword h).bind fun _ _ _ => hcondition.bind ?_
  rintro c _ rfl
  refine hblock.bind ?_
  rintro body _ rfl
  exact .done rfl

theorem parallel_branch (hcondition : Parallel Eq condition condition) (hblock : Parallel Eq block block) :
    Parallel Eq (branchDescent condition block) (branchDescent condition block) := by
  refine (parallel_expect fun _ _ h => parallel_judgeKeyword h).bind fun _ _ _ => hcondition.bind ?_
  rintro c _ rfl
  refine hblock.bind ?_
  rintro yes _ rfl
  refine (parallel_expect fun _ _ h => parallel_judgeKeyword h).bind fun _ _ _ => hblock.bind ?_
  rintro no _ rfl
  exact .done rfl

theorem parallel_sequenced (hcondition : Parallel Eq condition condition) (hblock : Parallel Eq block block)
    (hvalue : Parallel Eq value value) :
    Parallel Eq (sequencedDescent condition block value) (sequencedDescent condition block value) := by
  refine .ask fun t u h => ?_
  obtain ⟨hkind, htext⟩ := Prod.mk.inj h
  rw [← hkind, ← htext]
  by_cases hk : t.kind ≠ .name
  · rw [if_pos hk, if_pos hk]
    exact .fail h (.unexpected _)
  · rw [if_neg hk, if_neg hk]
    split
    · exact parallel_loop hcondition hblock
    · exact parallel_branch hcondition hblock
    · exact .consume (.done rfl)
    · exact parallel_assign hvalue

end

theorem Grade.parallel (n : Nat) (x : Grade) : Parallel Eq (x.descent n) (x.descent n) := by
  induction n generalizing x with
  | zero => cases x <;> exact .exhausted
  | succ n ih =>
    cases x with
    | statement => exact parallel_chain (ih .sequenced) (ih .statement)
    | sequenced =>
      have hvalue := Level.parallel n .expression
      exact parallel_sequenced (parallel_enclosed hvalue) (parallel_enclosed (ih .statement)) hvalue

theorem parallel_program (n : Nat) (root : Root) :
    Parallel Eq (programDescent n root) (programDescent n root) := by
  refine parallel_closed ?_
  cases root with
  | statement =>
    refine (Grade.parallel n .statement).bind ?_
    rintro a _ rfl
    exact .done rfl
  | expression =>
    refine (Level.parallel n .expression).bind ?_
    rintro e _ rfl
    exact .done rfl

/-! ## Programs -/

/-- The same program, or failures that refuse two tokens alike with as many results left. -/
inductive ParsedAlike :
    Except ParseFailure (Node Empty) → Except ParseFailure (Node Empty) → Prop where
  | program (n : Node Empty) : ParsedAlike (.ok n) (.ok n)
  | refused {t u : Token} {e e' : ParseError} {rest rest' : List ScanResult}
      (h : RefuseAlike t u e e') (hrest : rest.length = rest'.length) :
      ParsedAlike (.error ⟨e, rest⟩) (.error ⟨e', rest'⟩)
  | cutOff : ParsedAlike (.error ⟨.cutOff, []⟩) (.error ⟨.cutOff, []⟩)

theorem parseResults_of_words (root : Root) {ts us : List Token}
    (h : ts.map Token.word = us.map Token.word) :
    ParsedAlike (parseResults root (ts.map .ok)) (parseResults root (us.map .ok)) := by
  -- one bound is high enough for both lists
  let n := 4 * (ts.map .ok : List ScanResult).length + 4
  have hbound : 4 * (us.map .ok : List ScanResult).length + 4 ≤ n := by
    have hlength := congrArg List.length h
    simp only [List.length_map] at hlength
    simp [n, hlength]
  have hparallel : StandAlike Eq ((programDescent n root).read none (ts.map .ok))
      ((programDescent n root).read none (us.map .ok)) := (parallel_program n root).read rfl h
  have hts := verdict_read_program root (Nat.le_refl n)
  have hus := verdict_read_program root hbound
  generalize (programDescent n root).read none (ts.map .ok) = x at hparallel hts
  generalize (programDescent n root).read none (us.map .ok) = x' at hparallel hus
  cases hparallel with
  | done hv =>
    rw [← Option.some.inj hts, ← Option.some.inj hus, hv]
    exact .program _
  | stopped hrefuse hunread =>
    rw [← Option.some.inj hts, ← Option.some.inj hus]
    have hlength := congrArg List.length hunread
    exact .refused hrefuse (by simpa using hlength)
  | cutOff =>
    rw [← Option.some.inj hts, ← Option.some.inj hus]
    exact .cutOff
  | exhausted => cases hts

/-! ## Sources -/

namespace Scanner

variable {s s' : Scanner} {root : Root} {ts us : List Token}

/-- The end of input has no value. -/
theorem value_of_ending {t : Token} (h : s.next.1 = .ok t) (hk : t.kind = .ending) :
    t.value = [] := by
  unfold next at h
  split at h
  · unfold atEnd at h
    split at h
    · cases h
      rfl
    · cases h
  · rename_i c cs p _
    have hlast := isLast_readAt s c cs p
    rw [h] at hlast
    exact absurd hk (beq_eq_false_iff_ne.mp hlast)

/-- A scanner that lexes to the end yields its tokens and an end of input, whose word is always the
same. -/
theorem Lexes.stream (h : s.Lexes ts) :
    ∃ e, e.word = (.ending, []) ∧ s.stream = (ts ++ [e]).map .ok := by
  obtain ⟨e, he, hresults⟩ := h.results (Nat.lt_succ_self s.rest.length)
  have hstream : s.stream = (ts ++ [e]).map .ok := by
    rw [Scanner.stream, hresults, List.map_append]
    rfl
  have hmem : .ok e ∈ s.first s.stream.length := by
    rw [← stream_eq_first, hstream]
    simp
  obtain ⟨i, -, hi⟩ := List.mem_map.mp hmem
  have hvalue : e.value = [] := value_of_ending hi he
  exact ⟨e, Prod.ext he hvalue, hstream⟩

/-- A parse of tokens that fails refuses one of them, and has not read what comes after it. -/
theorem exists_refused {e : ParseError} {rest : List ScanResult} (hs : s.ending = .complete)
    (hstream : s.stream = ts.map .ok) (h : parseResults root s.stream = .error ⟨e, rest⟩) :
    ∃ i t, ts[i]? = some t ∧ s.stream.drop (i + 1) = rest ∧ i + 1 + rest.length = ts.length ∧
      e.token? = some t := by
  obtain ⟨before, r, hsplit, hfails⟩ := exists_failsAt hs h
  rw [hstream] at hsplit
  obtain ⟨ts₁, ts₂, rfl, hbefore, hmore⟩ := List.map_eq_append_iff.mp hsplit
  obtain ⟨t, us, rfl, rfl, rfl⟩ := List.map_eq_cons_iff.mp hmore
  refine ⟨ts₁.length, t, by simp, ?_, ?_, hfails.token?_eq⟩
  · rw [hstream]
    have happend : ((ts₁ ++ t :: us).map .ok : List ScanResult)
        = (ts₁ ++ [t]).map .ok ++ us.map .ok := by
      simp
    rw [happend]
    exact List.drop_left' (by simp)
  · simp
    omega

/-- Under the root the sources are the same program, or their tokens at some index are refused for
the same reason. -/
def SameUnder (root : Root) (s s' : Scanner) : Prop :=
  (∃ n, parseResults root s.stream = .ok n ∧ parseResults root s'.stream = .ok n) ∨
    ∃ i t u e e', s.stream[i]? = some (.ok t) ∧ s'.stream[i]? = some (.ok u) ∧
      t.word = u.word ∧ RefuseAlike t u e e' ∧
      parseResults root s.stream = .error ⟨e, s.stream.drop (i + 1)⟩ ∧
      parseResults root s'.stream = .error ⟨e', s'.stream.drop (i + 1)⟩

/-- Sources that are lexed to the same words are parsed alike. -/
theorem Lexes.sameUnder (h : s.Lexes ts) (h' : s'.Lexes us) (hs : s.ending = .complete)
    (hs' : s'.ending = .complete) (hwords : ts.map Token.word = us.map Token.word) (root : Root) :
    SameUnder root s s' := by
  obtain ⟨last, hlast, hstream⟩ := h.stream
  obtain ⟨last', hlast', hstream'⟩ := h'.stream
  have hall : (ts ++ [last]).map Token.word = (us ++ [last']).map Token.word := by
    simp [hwords, hlast, hlast']
  have hlength := congrArg List.length hall
  rw [List.length_map, List.length_map] at hlength
  have hparallel := parseResults_of_words root hall
  rw [← hstream, ← hstream'] at hparallel
  generalize hx : parseResults root s.stream = x at hparallel
  generalize hx' : parseResults root s'.stream = x' at hparallel
  cases hparallel with
  | program n => exact Or.inl ⟨n, hx, hx'⟩
  | cutOff =>
    obtain ⟨i, t, -, -, -, htoken⟩ := exists_refused hs hstream hx
    cases htoken
  | @refused t u e e' rest rest' hrefuse hrest =>
    obtain ⟨i, t₁, ht, hdrop, hcount, htoken⟩ := exists_refused hs hstream hx
    obtain ⟨j, u₁, hu, hdrop', hcount', htoken'⟩ := exists_refused hs' hstream' hx'
    -- as many results are left, so as many were read
    obtain rfl : i = j := by omega
    obtain rfl := Option.some.inj (hrefuse.token?_eq.1.symm.trans htoken)
    obtain rfl := Option.some.inj (hrefuse.token?_eq.2.symm.trans htoken')
    have hword : t.word = u.word := by
      have hindex := congrArg (fun words => words[i]?) hall
      simp only [List.getElem?_map, ht, hu] at hindex
      exact Option.some.inj hindex
    refine Or.inr ⟨i, t, u, e, e', ?_, ?_, hword, hrefuse, hdrop ▸ hx, hdrop' ▸ hx'⟩
    · rw [hstream, List.getElem?_map, ht]
      rfl
    · rw [hstream', List.getElem?_map, hu]
      rfl

end Scanner

end Denotation
