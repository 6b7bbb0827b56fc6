import Denotation.Proofs.Simulation

/-!
# Counters

A machine counts its rounds in a 64-bit word, so the count is exact only until it passes the largest
word. What this means for a cap: if the cap is below the largest word, then a machine that has not
passed it counts exactly, and passes it at the first round too many. The largest cap is never passed.
-/

namespace Denotation

/-- A cap that can be hit: it is positive, and there are counts above it. -/
def IsLimit (cap : Int) : Prop := 0 < cap ∧ cap < Int64.maxValue.toInt

/-- What a counter tells that started at zero, after so many rounds. -/
def shownRounds (k : Nat) : Int := (Int64.ofNat k).toInt

/-- Adding to a word is adding as long as the sum is a word. -/
theorem toInt_add_ofNat {n : Int64} {k : Nat} (h : n.toInt + k ≤ Int64.maxValue.toInt) :
    (n + .ofNat k).toInt = n.toInt + k := by
  have hlow := n.le_toInt
  rw [Int64.toInt_maxValue] at h
  have hsum : (n + .ofNat k).toInt = (n.toInt + k).bmod Int64.size := by
    simp only [Int64.toInt_add, Int64.toInt_ofNat', Int.add_bmod_bmod]
  rw [hsum]
  apply Int.bmod_eq_of_le
  · simp only [Int64.size]
    omega
  · simp only [Int64.size]
    omega

namespace Machine

/-- The machine after so many more rounds. -/
def after (m : Machine) (k : Nat) : Machine := { m with counter := m.counter + .ofNat k }

/-- The machine has room for that many more rounds below its cap, if that can be hit. -/
def Room (m : Machine) (k : Nat) : Prop := IsLimit m.cap → m.rounds + k ≤ m.cap

variable {m : Machine} {j k : Nat}

theorem after_zero (m : Machine) : m.after 0 = m :=
  congrArg (fun c => { m with counter := c }) (Int64.add_zero m.counter)

theorem after_after (m : Machine) (j k : Nat) : (m.after j).after k = m.after (j + k) := by
  simp only [after, Int64.ofNat_add, Int64.add_assoc]

/-- The count is exact as long as the counter does not wrap around. -/
theorem rounds_after (h : m.rounds + k ≤ Int64.maxValue.toInt) :
    (m.after k).rounds = m.rounds + k := toInt_add_ofNat h

theorem Room.left (h : m.Room (j + k)) : m.Room j := by
  intro hcap
  have := h hcap
  omega

theorem Room.rounds_after (h : m.Room k) (hcap : IsLimit m.cap) :
    (m.after k).rounds = m.rounds + k := by
  have hle := h hcap
  have hlt := hcap.2
  exact Machine.rounds_after (by omega)

theorem Room.right (h : m.Room (j + k)) : (m.after j).Room k := by
  intro hcap
  have hle := h hcap
  rw [h.left.rounds_after hcap]
  simp only [after]
  omega

theorem Room.add (hj : m.Room j) (hk : (m.after j).Room k) : m.Room (j + k) := by
  intro hcap
  have hle := hk hcap
  rw [hj.rounds_after hcap] at hle
  simp only [after] at hle
  omega

/-! ## Starting a round -/

/-- Whether a round that was counted may go ahead. -/
def clearance (m : Machine) : Except RunError Unit :=
  if 0 < m.cap ∧ m.cap < m.rounds then .error (.roundLimit m.cap)
  else if m.cancelled then .error .cancelled
  else .ok ()

/-- Whether a round may go ahead does not depend on the frames. -/
theorem clearance_congr {m' : Machine} (hcap : m.cap = m'.cap) (hrounds : m.rounds = m'.rounds)
    (hcancelled : m.cancelled = m'.cancelled) : m.clearance = m'.clearance := by
  rw [clearance, clearance, hcap, hrounds, hcancelled]

theorem clearance_of_limit (h : 0 < m.cap) (h' : m.cap < m.rounds) :
    m.clearance = .error (.roundLimit m.cap) := if_pos ⟨h, h'⟩

theorem clearance_of_within (h : ¬ (0 < m.cap ∧ m.cap < m.rounds)) :
    m.clearance = if m.cancelled then .error .cancelled else .ok () := if_neg h

theorem clearance_of_live (h : ¬ (0 < m.cap ∧ m.cap < m.rounds)) (hlive : m.cancelled = false) :
    m.clearance = .ok () := by
  rw [clearance_of_within h, hlive]
  rfl

/-- Only a cap that can be hit is below a count. -/
theorem isLimit_of_lt (h : 0 < m.cap) (h' : m.cap < m.rounds) : IsLimit m.cap :=
  ⟨h, Int.lt_of_lt_of_le h' m.counter.toInt_le⟩

/-- A round that there is room for is not one too many. -/
theorem Room.within (h : m.Room k) :
    ¬ (0 < (m.after k).cap ∧ (m.after k).cap < (m.after k).rounds) := by
  rintro ⟨hpos, hlt⟩
  have hcap : IsLimit m.cap := isLimit_of_lt (m := m.after k) hpos hlt
  have hle := h hcap
  rw [h.rounds_after hcap] at hlt
  simp only [after] at hlt
  omega

end Machine

variable {m m' : Machine} {arity : Nat} {args : List Value}

theorem startRound_of_miscount (h : args.length ≠ arity) :
    startRound arity args = Run.fail (.miscount (.recur arity args.length)) := by
  funext m
  exact if_pos h

theorem startRound_of_count (h : args.length = arity) (m : Machine) :
    startRound arity args m = Run.ofExcept (m.after 1).clearance (m.after 1) := by
  rw [startRound, if_neg (not_not_intro h)]
  by_cases hcap : 0 < (m.after 1).cap ∧ (m.after 1).cap < (m.after 1).rounds
  · rw [Machine.clearance_of_limit hcap.1 hcap.2]
    exact if_pos hcap
  · rw [Machine.clearance_of_within hcap]
    refine (if_neg hcap).trans ?_
    by_cases hlive : (m.after 1).cancelled = true
    · rw [if_pos hlive]
      exact if_pos hlive
    · rw [if_neg hlive]
      exact if_neg hlive

theorem shownRounds_of_le {k : Nat} (h : (k : Int) ≤ Int64.maxValue.toInt) : shownRounds k = k := by
  rw [shownRounds, ← Int64.ofInt_eq_ofNat]
  rw [Int64.toInt_maxValue] at h
  exact Int64.toInt_ofInt_of_le (by omega) (by omega)

/-- What a counter tells of rounds taken apart, it tells of them together. -/
theorem shownRounds_add {i i' k k' : Nat} (h : shownRounds i = shownRounds k)
    (h' : shownRounds i' = shownRounds k') : shownRounds (i + i') = shownRounds (k + k') := by
  have hword : Int64.ofNat i = Int64.ofNat k := Int64.toInt_inj.mp h
  have hword' : Int64.ofNat i' = Int64.ofNat k' := Int64.toInt_inj.mp h'
  rw [shownRounds, shownRounds, Int64.ofNat_add, Int64.ofNat_add, hword, hword']

/-- Below a cap that can be hit a counter tells how many rounds there were. -/
theorem shownRounds_inj {i k : Nat} {cap : Int} (hcap : IsLimit cap) (hi : i ≤ cap) (hk : k ≤ cap)
    (h : shownRounds i = shownRounds k) : i = k := by
  have hmax := hcap.2
  rw [shownRounds_of_le (by omega), shownRounds_of_le (by omega)] at h
  omega

end Denotation
