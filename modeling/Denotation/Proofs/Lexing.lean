import Mathlib.Tactic
import Denotation.Simple.Scanner

/-!
# Lexing to the end

`Scanner.Lexes` relates a scanner to the tokens that it reads before the end of input, one step at a
time. It holds of no scanner that meets an error first. Every step but the last reads a character,
so `Scanner.stream`, which stops after a number of steps, stops only at the end.
-/

namespace Denotation

/-- The scanner reads the tokens and then the end of input. -/
inductive Scanner.Lexes : Scanner → List Token → Prop where
  | ending {s : Scanner} {t : Token} (h : s.next.1 = .ok t) (hk : t.kind = .ending) : Lexes s []
  | token {s : Scanner} {t : Token} {ts : List Token} (h : s.next.1 = .ok t) (hk : t.kind ≠ .ending)
      (hs : Lexes s.next.2 ts) : Lexes s (t :: ts)

theorem length_skim_le (inComment : Bool) (cs : List Char) (p : Position) :
    (skim inComment cs p).1.length ≤ cs.length := by
  fun_induction skim inComment cs p with
  | case1 | case6 => exact Nat.le_refl _
  | case2 _ _ _ _ _ ih | case3 _ _ _ _ ih => exact Nat.le_succ_of_le ih
  | case4 _ _ _ _ _ _ _ ih | case5 _ _ _ _ _ _ _ _ ih => exact Nat.le_succ_of_le ih

namespace Scanner

variable {s : Scanner} {ts : List Token} {n : Nat}

/-- A scanner lexes to one list of tokens at most. -/
theorem Lexes.unique {us : List Token} (h : s.Lexes ts) (h' : s.Lexes us) : ts = us := by
  induction h generalizing us with
  | ending h hk =>
    cases h' with
    | ending _ _ => rfl
    | token h' hk' _ =>
      obtain rfl := Except.ok.inj (h.symm.trans h')
      exact absurd hk hk'
  | token h hk _ ih =>
    cases h' with
    | ending h' hk' =>
      obtain rfl := Except.ok.inj (h.symm.trans h')
      exact absurd hk' hk
    | token h' _ hs' =>
      obtain rfl := Except.ok.inj (h.symm.trans h')
      rw [ih hs']

theorem isLast_atEnd (p : Position) : (s.atEnd p).isLast = true := by
  unfold atEnd
  cases s.ending <;> rfl

theorem length_readAt_le (c : Char) (cs : List Char) (p : Position) :
    (s.readAt c cs p).2.rest.length ≤ cs.length := by
  unfold readAt
  split
  · exact List.Sublist.length_le (List.dropWhile_sublist _)
  · split
    · exact List.Sublist.length_le (List.dropWhile_sublist _)
    · split
      · exact Nat.le_refl _
      · simp only
        split
        · exact List.Sublist.length_le (List.drop_sublist 1 cs)
        · exact Nat.le_refl _

/-- Every step but the last reads a character. -/
theorem length_next_lt (h : s.next.1.isLast = false) : s.next.2.rest.length < s.rest.length := by
  have hskim := length_skim_le false s.rest s.position
  unfold next at h ⊢
  split at h
  · rename_i p hp
    rw [isLast_atEnd] at h
    cases h
  · rename_i c cs p hp
    rw [hp] at hskim
    exact Nat.lt_of_le_of_lt (length_readAt_le c cs p) hskim

theorem source_next (s : Scanner) : s.next.2.file = s.file ∧ s.next.2.ending = s.ending := by
  unfold next
  split
  · exact ⟨rfl, rfl⟩
  · unfold readAt
    split
    · exact ⟨rfl, rfl⟩
    · split
      · exact ⟨rfl, rfl⟩
      · split <;> exact ⟨rfl, rfl⟩

theorem results_succ :
    s.results (n + 1) =
      if s.next.1.isLast then [s.next.1] else s.next.1 :: s.next.2.results n := rfl

/-- The tokens in front of an end of input are those that the scanner reads. -/
theorem lexes_of_results {e : Token} {more : List ScanResult} (he : e.kind = .ending)
    (h : s.results n = ts.map .ok ++ .ok e :: more) : s.Lexes ts := by
  induction n generalizing s ts with
  | zero => simp [results] at h
  | succ n ih =>
    rw [results_succ] at h
    by_cases hlast : s.next.1.isLast = true
    · rw [if_pos hlast] at h
      cases ts with
      | nil => exact .ending (List.cons.inj h).1 he
      | cons t ts => simp at h
    · rw [if_neg hlast] at h
      cases ts with
      | nil => exact .ending (List.cons.inj h).1 he
      | cons t ts =>
        obtain ⟨ht, h⟩ := List.cons.inj h
        refine .token ht (fun hk => hlast ?_) (ih h)
        rw [ht]
        exact beq_iff_eq.mpr hk

/-- A scanner that lexes to the end yields its tokens and the end of input. -/
theorem Lexes.results (h : s.Lexes ts) :
    ∀ {n}, s.rest.length < n → ∃ e, e.kind = .ending ∧ s.results n = ts.map .ok ++ [.ok e] := by
  induction h with
  | @ending s t h hk =>
    intro n hn
    obtain ⟨n, rfl⟩ := Nat.exists_eq_add_one_of_ne_zero (Nat.ne_zero_of_lt hn)
    have hlast : s.next.1.isLast = true := by
      rw [h]
      exact beq_iff_eq.mpr hk
    exact ⟨t, hk, by rw [results_succ, if_pos hlast, h]; rfl⟩
  | @token s t ts h hk hs ih =>
    intro n hn
    obtain ⟨n, rfl⟩ := Nat.exists_eq_add_one_of_ne_zero (Nat.ne_zero_of_lt hn)
    have hlast : s.next.1.isLast = false := by
      rw [h]
      exact beq_eq_false_iff_ne.mpr hk
    -- the token took a character, so the steps that remain are enough for the characters that do
    have hlt := length_next_lt hlast
    obtain ⟨e, he, hresults⟩ := ih (n := n) (by omega)
    refine ⟨e, he, ?_⟩
    rw [results_succ, hlast, hresults, h]
    rfl

end Scanner

end Denotation
