import Denotation.Proofs.Counters

/-!
# Caps on rounds

A machine counts the rounds it starts over everything it runs, and its cap is compared with that
count. `Run.Takes` says how many rounds a computation starts, of which the counter tells only the
last 64 bits. As long as no round is one too many for it, a cap changes nothing: `Takes.withCap`
carries a run over to another cap that allows all its rounds, and `Takes.blocked` stops it at the
first round that the other cap does not allow. `refuelled` says that more fuel changes no answer.
-/

namespace Denotation

namespace Machine

/-- The machine with another cap. -/
def withCap (m : Machine) (cap : Int) : Machine := { m with cap }

end Machine

/-! ## Computations that end -/

theorem Result.toOption_eq_ok {α : Type} {r : Result α} {a : α} {m : Machine} :
    r.toOption = some (.ok a, m) ↔ r = .ok a m := by
  cases r <;> simp [toOption]

namespace Run

variable {α β : Type} {x : Run α} {f : α → Run β} {m m' : Machine}

/-- The computation, started on the machine, ends with a value or a failure and leaves a machine. -/
def Ends (x : Run α) (m : Machine) (r : Except RunError α) (m' : Machine) : Prop :=
  (x m).toOption = some (r, m')

theorem ends_bind_ok {a : α} (h : x.Ends m (.ok a) m') {r : Except RunError β} {m'' : Machine}
    (hf : (f a).Ends m' r m'') : (x >>= f).Ends m r m'' := by
  have hx : x m = .ok a m' := Result.toOption_eq_ok.mp h
  simp only [Ends, Bind.bind, Run.bind, hx]
  exact hf

theorem ends_bind_error {e : RunError} (h : x.Ends m (.error e) m') :
    (x >>= f).Ends m (.error e) m' := by
  have hx : x m = .error e m' := Result.toOption_eq_error.mp h
  simp only [Ends, Bind.bind, Run.bind, hx]
  rfl

/-- One computation after another ends where the second does, unless the first one fails. -/
theorem ends_bind_cases {r : Except RunError β} {m'' : Machine} (h : (x >>= f).Ends m r m'') :
    (∃ a m', x.Ends m (.ok a) m' ∧ (f a).Ends m' r m'') ∨
    (∃ e, x.Ends m (.error e) m'' ∧ r = .error e) := by
  simp only [Ends, Bind.bind, Run.bind] at h
  cases hx : x m with
  | ok a m' =>
    rw [hx] at h
    exact Or.inl ⟨a, m', Result.toOption_eq_ok.mpr hx, h⟩
  | error e m' =>
    rw [hx] at h
    have hpair : Except.error e = r ∧ m' = m'' := by simpa [Result.toOption] using h
    obtain ⟨rfl, rfl⟩ := hpair
    exact Or.inr ⟨e, Result.toOption_eq_error.mpr hx, rfl⟩
  | exhausted =>
    rw [hx] at h
    cases h

theorem not_ends_exhausted {r : Except RunError α} : ¬ (exhausted : Run α).Ends m r m' := by
  intro h
  cases h

theorem toOption_ofExcept (r : Except RunError α) (m : Machine) :
    (ofExcept r m).toOption = some (r, m) := by
  cases r <;> rfl

theorem ends_onFrames_iff {g : Array Bindings → Except RunError α × Array Bindings}
    {r : Except RunError α} :
    (onFrames g).Ends m r m' ↔ r = (g m.frames).1 ∧ m' = { m with frames := (g m.frames).2 } := by
  unfold Ends onFrames
  rw [toOption_ofExcept, Option.some.injEq, Prod.mk.injEq]
  exact and_congr eq_comm eq_comm

end Run

/-- A wrong number of arguments is noticed before the round is counted. -/
theorem ends_startRound_iff {arity : Nat} {args : List Value} {m m' : Machine}
    {r : Except RunError Unit} :
    (startRound arity args).Ends m r m' ↔
      args.length ≠ arity ∧ r = .error (.miscount (.recur arity args.length)) ∧ m' = m ∨
      args.length = arity ∧ r = (m.after 1).clearance ∧ m' = m.after 1 := by
  by_cases hcount : args.length = arity
  · unfold Run.Ends
    rw [startRound_of_count hcount, Run.toOption_ofExcept]
    constructor
    · intro h
      cases h
      exact Or.inr ⟨hcount, rfl, rfl⟩
    · rintro (⟨hne, -⟩ | ⟨-, rfl, rfl⟩)
      · exact absurd hcount hne
      · rfl
  · unfold Run.Ends
    rw [startRound_of_miscount hcount]
    constructor
    · intro h
      cases h
      exact Or.inl ⟨hcount, rfl, rfl⟩
    · rintro (⟨-, rfl, rfl⟩ | ⟨heq, -⟩)
      · rfl
      · exact absurd heq hcount

/-! ## More fuel -/

/-- Where the first computation ends, the second ends the same way. -/
def Refuelled {α : Type} (x y : Run α) : Prop := ∀ m r m', x.Ends m r m' → y.Ends m r m'

theorem refuelled : Simulation Refuelled where
  exhausted y := fun m r m' h => absurd h Run.not_ends_exhausted
  onFrames g := fun m r m' h => h
  startRound arity args := fun m r m' h => h
  bind hx hf := by
    intro m r m'' h
    rcases Run.ends_bind_cases h with ⟨a, m', hax, haf⟩ | ⟨e, he, rfl⟩
    · exact Run.ends_bind_ok (hx m _ m' hax) (hf a m' r m'' haf)
    · exact Run.ends_bind_error (hx m _ m'' he)

/-! ## The rounds of a run -/

namespace Run

/-- The computation, started on the machine, starts so many rounds and ends. Only the start of a
round counts, and not if it was refused for its arguments. -/
inductive Takes : {α : Type} → Run α → Machine → Nat → Except RunError α → Machine → Prop where
  | onFrames {α : Type} (g : Array Bindings → Except RunError α × Array Bindings) (m : Machine) :
      Takes (onFrames g) m 0 (g m.frames).1 { m with frames := (g m.frames).2 }
  | refused {arity : Nat} {args : List Value} (m : Machine) (h : args.length ≠ arity) :
      Takes (startRound arity args) m 0 (.error (.miscount (.recur arity args.length))) m
  | counted {arity : Nat} {args : List Value} (m : Machine) (h : args.length = arity) :
      Takes (startRound arity args) m 1 (m.after 1).clearance (m.after 1)
  | bindOk {α β : Type} {x : Run α} {f : α → Run β} {m m' m'' : Machine} {j k : Nat} {a : α}
      {r : Except RunError β} (hx : Takes x m j (.ok a) m') (hf : Takes (f a) m' k r m'') :
      Takes (x >>= f) m (j + k) r m''
  | bindError {α β : Type} {x : Run α} {f : α → Run β} {m m' : Machine} {k : Nat} {e : RunError}
      (hx : Takes x m k (.error e) m') : Takes (x >>= f) m k (.error e) m'

theorem Takes.pure {α : Type} (a : α) (m : Machine) : Takes (pure a) m 0 (.ok a) m :=
  .onFrames (fun frames => (.ok a, frames)) m

theorem Takes.ends {α : Type} {x : Run α} {m m' : Machine} {k : Nat} {r : Except RunError α}
    (h : x.Takes m k r m') : x.Ends m r m' := by
  induction h with
  | onFrames g m => exact ends_onFrames_iff.mpr ⟨rfl, rfl⟩
  | refused m h => exact ends_startRound_iff.mpr (Or.inl ⟨h, rfl, rfl⟩)
  | counted m h => exact ends_startRound_iff.mpr (Or.inr ⟨h, rfl, rfl⟩)
  | bindOk hx hf ihx ihf => exact ends_bind_ok ihx ihf
  | bindError hx ihx => exact ends_bind_error ihx

end Run

/-- Where the first computation ends, it has started some number of rounds. -/
def Tallied {α : Type} (x _ : Run α) : Prop := ∀ m r m', x.Ends m r m' → ∃ k, x.Takes m k r m'

theorem tallied : Simulation Tallied where
  exhausted y := fun m r m' h => absurd h Run.not_ends_exhausted
  onFrames g := by
    intro m r m' h
    obtain ⟨rfl, rfl⟩ := Run.ends_onFrames_iff.mp h
    exact ⟨0, .onFrames g m⟩
  startRound arity args := by
    intro m r m' h
    rcases ends_startRound_iff.mp h with ⟨hcount, rfl, rfl⟩ | ⟨hcount, rfl, rfl⟩
    · exact ⟨0, .refused m' hcount⟩
    · exact ⟨1, .counted m hcount⟩
  bind hx hf := by
    intro m r m'' h
    rcases Run.ends_bind_cases h with ⟨a, m', hax, haf⟩ | ⟨e, he, rfl⟩
    · obtain ⟨j, hj⟩ := hx m _ m' hax
      obtain ⟨k, hk⟩ := hf a m' r m'' haf
      exact ⟨j + k, .bindOk hj hk⟩
    · obtain ⟨k, hk⟩ := hx m _ m'' he
      exact ⟨k, .bindError hk⟩

/-! ## A cap that may be hit -/

/-- The cap does not allow round number `i` after the count. -/
def Blocks (cap : Int) (count : Int64) (i : Nat) : Prop :=
  0 < cap ∧ cap < (count + .ofNat i).toInt

/-- Of the `k` rounds after the count, number `i` is the first that the cap does not allow. -/
structure BlocksFirst (cap : Int) (count : Int64) (k i : Nat) : Prop where
  pos : 0 < i
  le : i ≤ k
  blocks : Blocks cap count i
  before : ∀ j, 0 < j → j < i → ¬ Blocks cap count j

/-- The cap allows all of the `k` rounds after the count. -/
def AllowsAll (cap : Int) (count : Int64) (k : Nat) : Prop :=
  ∀ i, 0 < i → i ≤ k → ¬ Blocks cap count i

section
variable {cap : Int} {count : Int64} {i j k : Nat}

theorem blocks_add : Blocks cap (count + .ofNat j) i ↔ Blocks cap count (j + i) := by
  rw [Blocks, Blocks, Int64.ofNat_add, Int64.add_assoc]

theorem AllowsAll.left (h : AllowsAll cap count (j + k)) : AllowsAll cap count j :=
  fun i hi hle => h i hi (Nat.le_add_right_of_le hle)

theorem AllowsAll.add (h : AllowsAll cap count j) (h' : AllowsAll cap (count + .ofNat j) k) :
    AllowsAll cap count (j + k) := by
  intro i hi hle
  by_cases hij : i ≤ j
  · exact h i hi hij
  · have hlater := h' (i - j) (by omega) (by omega)
    rwa [blocks_add, Nat.add_sub_cancel' (by omega)] at hlater

theorem AllowsAll.right (h : AllowsAll cap count (j + k)) : AllowsAll cap (count + .ofNat j) k := by
  intro i hi hle
  rw [blocks_add]
  exact h (j + i) (by omega) (by omega)

theorem BlocksFirst.left (h : BlocksFirst cap count (j + k) i) (hi : i ≤ j) :
    BlocksFirst cap count j i := ⟨h.pos, hi, h.blocks, h.before⟩

theorem BlocksFirst.allowsAll (h : BlocksFirst cap count k i) (hi : j < i) :
    AllowsAll cap count j := fun n hn hle => h.before n hn (by omega)

theorem BlocksFirst.right (h : BlocksFirst cap count (j + k) i) (hi : j < i) :
    BlocksFirst cap (count + .ofNat j) k (i - j) where
  pos := by omega
  le := by
    have := h.le
    omega
  blocks := by
    rw [blocks_add, Nat.add_sub_cancel' (Nat.le_of_lt hi)]
    exact h.blocks
  before n hn hlt := by
    rw [blocks_add]
    exact h.before (j + n) (by omega) (by omega)

end

namespace Run

variable {α : Type} {x : Run α} {m m' : Machine} {k : Nat} {r : Except RunError α}

/-- A run keeps the cap, cannot be cancelled on the way and counts its rounds. -/
theorem Takes.onward (h : x.Takes m k r m') :
    m'.cap = m.cap ∧ m'.cancelled = m.cancelled ∧ m'.counter = m.counter + .ofNat k := by
  induction h with
  | onFrames g m => exact ⟨rfl, rfl, (Int64.add_zero _).symm⟩
  | refused m h => exact ⟨rfl, rfl, (Int64.add_zero _).symm⟩
  | counted m h => exact ⟨rfl, rfl, rfl⟩
  | bindOk hx hf ihx ihf =>
    obtain ⟨hcap, hlive, hcount⟩ := ihx
    obtain ⟨hcap', hlive', hcount'⟩ := ihf
    refine ⟨hcap'.trans hcap, hlive'.trans hlive, ?_⟩
    rw [hcount', hcount, Int64.ofNat_add, Int64.add_assoc]
  | bindError hx ihx => exact ihx

/-- A run that its cap does not stop was allowed all its rounds. -/
theorem Takes.allowsAll (h : x.Takes m k r m') (hr : ∀ limit, r ≠ .error (.roundLimit limit)) :
    AllowsAll m.cap m.counter k := by
  induction h with
  | onFrames g m => exact fun i hi hle => absurd hle (Nat.not_le.mpr hi)
  | refused m h => exact fun i hi hle => absurd hle (Nat.not_le.mpr hi)
  | counted m h =>
    intro i hi hle hblocks
    obtain rfl : i = 1 := Nat.le_antisymm hle hi
    exact hr m.cap (Machine.clearance_of_limit (m := m.after 1) hblocks.1 hblocks.2)
  | bindOk hx hf ihx ihf =>
    obtain ⟨hcap, -, hcount⟩ := hx.onward
    have hrest := ihf hr
    rw [hcap, hcount] at hrest
    exact (ihx (by simp)).add hrest
  | bindError hx ihx => exact ihx (by simpa using hr)

/-- A run that was allowed all its rounds goes the same way under any cap that allows them. -/
theorem Takes.withCap (h : x.Takes m k r m') (hall : AllowsAll m.cap m.counter k) {cap : Int}
    (hcap : AllowsAll cap m.counter k) : x.Takes (m.withCap cap) k r (m'.withCap cap) := by
  induction h with
  | onFrames g m => exact .onFrames g (m.withCap cap)
  | refused m h => exact .refused (m.withCap cap) h
  | counted m h =>
    have hround : ¬ Blocks m.cap m.counter 1 := hall 1 Nat.one_pos (Nat.le_refl 1)
    have hround' : ¬ Blocks cap m.counter 1 := hcap 1 Nat.one_pos (Nat.le_refl 1)
    have hsame : (m.after 1).clearance = ((m.withCap cap).after 1).clearance :=
      (Machine.clearance_of_within (m := m.after 1) hround).trans
        (Machine.clearance_of_within (m := (m.withCap cap).after 1) hround').symm
    rw [hsame]
    exact .counted (m.withCap cap) h
  | bindOk hx hf ihx ihf =>
    obtain ⟨hkept, -, hcount⟩ := hx.onward
    have hrest := hall.right
    have hrest' := hcap.right
    rw [← hcount] at hrest hrest'
    rw [← hkept] at hrest
    exact .bindOk (ihx hall.left hcap.left) (ihf hrest hrest')
  | bindError hx ihx => exact .bindError (ihx hall hcap)

/-- A run that was allowed all its rounds is stopped by another cap at the first round that this one
does not allow. -/
theorem Takes.blocked (h : x.Takes m k r m') (hall : AllowsAll m.cap m.counter k) {cap : Int}
    {i : Nat} (hi : BlocksFirst cap m.counter k i) :
    ∃ s, x.Takes (m.withCap cap) i (.error (.roundLimit cap)) s := by
  induction h generalizing i with
  | onFrames g m => exact absurd hi.le (Nat.not_le.mpr hi.pos)
  | refused m h => exact absurd hi.le (Nat.not_le.mpr hi.pos)
  | @counted arity args m h =>
    obtain rfl : i = 1 := Nat.le_antisymm hi.le hi.pos
    have hlimit : ((m.withCap cap).after 1).clearance = .error (.roundLimit cap) :=
      Machine.clearance_of_limit hi.blocks.1 hi.blocks.2
    have hround := Takes.counted (m.withCap cap) h
    rw [hlimit] at hround
    exact ⟨_, hround⟩
  | @bindOk α β x f m m' m'' j k a r hx hf ihx ihf =>
    by_cases hfirst : i ≤ j
    · obtain ⟨s, hs⟩ := ihx hall.left (hi.left hfirst)
      exact ⟨s, .bindError hs⟩
    · -- the first computation stays below the cap, so the second starts the round too many
      have hlt : j < i := Nat.lt_of_not_le hfirst
      obtain ⟨hkept, -, hcount⟩ := hx.onward
      have hrest := hall.right
      have hrest' := hi.right hlt
      rw [← hcount] at hrest hrest'
      rw [← hkept] at hrest
      obtain ⟨s, hs⟩ := ihf hrest hrest'
      refine ⟨s, ?_⟩
      rw [← Nat.add_sub_cancel' (Nat.le_of_lt hlt)]
      exact .bindOk (hx.withCap hall.left (hi.allowsAll hlt)) hs
  | bindError hx ihx =>
    obtain ⟨s, hs⟩ := ihx hall hi
    exact ⟨s, .bindError hs⟩

end Run

/-! ## Counts that do not wrap around -/

section
variable {cap : Int} {count : Int64} {k : Nat}

theorem allowsAll_of_nonpos (h : cap ≤ 0) : AllowsAll cap count k :=
  fun _ _ _ hblocks => absurd hblocks.1 (Int.not_lt.mpr h)

/-- A looser cap allows all that a cap does; a cap that is not positive is none. -/
theorem AllowsAll.loosen {cap' : Int} (h : AllowsAll cap count k) (hpos : 0 < cap)
    (hloose : cap' ≤ 0 ∨ cap ≤ cap') : AllowsAll cap' count k := by
  rintro i hi hle ⟨hpos', hlt⟩
  refine h i hi hle ⟨hpos, ?_⟩
  omega

theorem allowsAll_of_le {m : Machine} (h : k = 0 ∨ m.rounds + k ≤ cap)
    (hmax : cap ≤ Int64.maxValue.toInt) : AllowsAll cap m.counter k := by
  rintro i hi hle ⟨hpos, hlt⟩
  have hexact : (m.after i).rounds = m.rounds + i := Machine.rounds_after (by omega)
  have hcount : (m.counter + .ofNat i).toInt = m.rounds + i := hexact
  omega

/-- A cap below the largest word is passed before the counter wraps around. -/
theorem blocksFirst_of_lt {m : Machine} (hcap : IsLimit cap)
    (hm : m.rounds < Int64.maxValue.toInt) (h : ¬ (k = 0 ∨ m.rounds + k ≤ cap)) :
    ∃ i, BlocksFirst cap m.counter k i ∧ (m.after i).rounds = max m.rounds cap + 1 := by
  have hmax := hcap.2
  -- the first round too many is the next one, or the one after the rounds that are left
  have hexact (i : Nat) (hi : m.rounds + i ≤ max m.rounds cap + 1) :
      (m.after i).rounds = m.rounds + i := Machine.rounds_after (by omega)
  refine ⟨(max m.rounds cap + 1 - m.rounds).toNat, ⟨by omega, by omega, ?_, ?_⟩, ?_⟩
  · have hcount := hexact (max m.rounds cap + 1 - m.rounds).toNat (by omega)
    refine ⟨hcap.1, ?_⟩
    change cap < (m.after _).rounds
    omega
  · rintro j hj hlt ⟨-, hblocks⟩
    have hcount := hexact j (by omega)
    change cap < (m.after j).rounds at hblocks
    omega
  · rw [hexact _ (by omega)]
    omega

end

/-! ## Runs of programs -/

namespace Machine

variable {m : Machine} {program : Text} {args : List Value} {x y : Except RunError Value}
  {n n' : Int} {k : Nat} {cap : Int}

/-- A run of the program that is not cancelled ends with the outcome, and this is what the machine
then tells of the rounds over all it has run. -/
def Halts (m : Machine) (program : Text) (args : List Value) (x : Except RunError Value)
    (rounds : Int) : Prop :=
  ∃ fuel m', m.run fuel false program args = some (x, m') ∧ m'.rounds = rounds

/-- A run of the program that is not cancelled ends with the outcome after so many rounds. -/
inductive HaltsAfter (m : Machine) (program : Text) (args : List Value) :
    Except RunError Value → Nat → Prop where
  | unreadable {e : ReadError} (hread : Form.read program = .error e) :
      HaltsAfter m program args (.error (.unreadable e)) 0
  | takes {f : Form} {fuel k : Nat} {x : Except RunError Value} {m' : Machine}
      (hread : Form.read program = .ok f)
      (h : (runForm fuel f args).Takes { m with cancelled := false } k x m') :
      HaltsAfter m program args x k

/-- A program that can be read runs as its form does. -/
theorem run_of_read {f : Form} (hread : Form.read program = .ok f) {fuel : Nat} {m' : Machine} :
    m.run fuel false program args = some (x, m') ↔
      (runForm fuel f args).Ends { m with cancelled := false } x m' := by
  rw [run, hread]
  rfl

/-- A run that halts has taken some number of rounds, and the machine tells as many of them as its
counter can. -/
theorem halts_iff_haltsAfter :
    m.Halts program args x n ↔
      ∃ k, m.HaltsAfter program args x k ∧ n = (m.after k).rounds := by
  constructor
  · rintro ⟨fuel, m', hrun, rfl⟩
    cases hread : Form.read program with
    | error e =>
      rw [run, hread] at hrun
      cases hrun
      exact ⟨0, .unreadable hread, by rw [after_zero]⟩
    | ok f =>
      rw [run_of_read hread] at hrun
      obtain ⟨k, hk⟩ := tallied.form (Nat.le_refl fuel) f args _ x m' hrun
      exact ⟨k, .takes hread hk, congrArg Int64.toInt hk.onward.2.2⟩
  · rintro ⟨k, h, rfl⟩
    cases h with
    | unreadable hread =>
      refine ⟨0, m, ?_, by rw [after_zero]⟩
      rw [run, hread]
    | takes hread h =>
      exact ⟨_, _, (run_of_read hread).mpr h.ends, congrArg Int64.toInt h.onward.2.2⟩

/-- A run halts in one way only. -/
theorem Halts.unique (h : m.Halts program args x n) (h' : m.Halts program args y n') :
    x = y ∧ n = n' := by
  obtain ⟨fuel, m₁, h, rfl⟩ := h
  obtain ⟨fuel', m₂, h', rfl⟩ := h'
  cases hread : Form.read program with
  | error e =>
    rw [run, hread] at h h'
    cases h
    cases h'
    exact ⟨rfl, rfl⟩
  | ok f =>
    -- both runs end the same way with the larger amount of fuel
    rw [run_of_read hread] at h h'
    have hmax := refuelled.form (Nat.le_max_left fuel fuel') f args _ _ _ h
    have hmax' := refuelled.form (Nat.le_max_right fuel fuel') f args _ _ _ h'
    have heq : some (x, m₁) = some (y, m₂) := hmax.symm.trans hmax'
    cases heq
    exact ⟨rfl, rfl⟩

theorem Halts.iff_eq (h : m.Halts program args x n) :
    m.Halts program args y n' ↔ (y, n') = (x, n) := by
  rw [Prod.mk.injEq]
  refine ⟨fun h' => h'.unique h, ?_⟩
  rintro ⟨rfl, rfl⟩
  exact h

theorem HaltsAfter.allowsAll (h : m.HaltsAfter program args x k)
    (hlimit : ∀ limit, x ≠ .error (.roundLimit limit)) : AllowsAll m.cap m.counter k := by
  cases h with
  | unreadable hread => exact fun i hi hle => absurd hle (Nat.not_le.mpr hi)
  | takes hread h => exact h.allowsAll hlimit

theorem HaltsAfter.withCap (h : m.HaltsAfter program args x k) (hall : AllowsAll m.cap m.counter k)
    (hcap : AllowsAll cap m.counter k) : (m.withCap cap).HaltsAfter program args x k := by
  cases h with
  | unreadable hread => exact .unreadable hread
  | takes hread h => exact .takes hread (h.withCap hall hcap)

theorem HaltsAfter.blocked (h : m.HaltsAfter program args x k) (hall : AllowsAll m.cap m.counter k)
    {i : Nat} (hi : BlocksFirst cap m.counter k i) :
    (m.withCap cap).HaltsAfter program args (.error (.roundLimit cap)) i := by
  cases h with
  | unreadable hread => exact absurd hi.le (Nat.not_le.mpr hi.pos)
  | takes hread h =>
    obtain ⟨s, hs⟩ := h.blocked hall hi
    exact .takes hread hs

/-- A cap on rounds is transparent until it is hit. A run without a cap that halts has taken some
number of rounds. With a cap it halts the same way in case it starts no round or stays within the
cap. Otherwise it fails at the first round that the cap does not allow, if neither the count nor the
cap is the largest there is: after that one the counter wraps around and is below the cap again. A
run that ends in anything but the limit ends the same way without a cap and with every larger one. -/
theorem halts_withCap_iff (m : Machine) (program : Text) (args : List Value) (free : Int)
    (cap : Int64) (hfree : free ≤ 0) (hcap : 0 < cap.toInt) :
    (∀ x n, (m.withCap free).Halts program args x n ↔
      ∃ k, (m.withCap free).HaltsAfter program args x k ∧ n = (m.after k).rounds) ∧
    (∀ x k, (m.withCap free).HaltsAfter program args x k →
      (k = 0 ∨ m.rounds + k ≤ cap.toInt → ∀ y n,
        (m.withCap cap.toInt).Halts program args y n ↔ (y, n) = (x, m.rounds + k)) ∧
      (¬ (k = 0 ∨ m.rounds + k ≤ cap.toInt) → m.rounds < Int64.maxValue.toInt →
        cap.toInt < Int64.maxValue.toInt → ∀ y n,
        (m.withCap cap.toInt).Halts program args y n ↔
          (y, n) = (.error (.roundLimit cap.toInt), max m.rounds cap.toInt + 1))) ∧
    (∀ x n, (m.withCap cap.toInt).Halts program args x n →
      (∀ limit, x ≠ .error (.roundLimit limit)) → ∀ looser : Int, looser ≤ 0 ∨ cap.toInt ≤ looser →
        ∀ y n', (m.withCap looser).Halts program args y n' ↔ (y, n') = (x, n)) := by
  refine ⟨fun x n => halts_iff_haltsAfter, fun x k h => ⟨fun hk y n => ?_, fun hk hm hmax y n => ?_⟩,
    fun x n h hlimit looser hlooser y n' => ?_⟩
  · have hall : AllowsAll cap.toInt m.counter k := allowsAll_of_le hk cap.toInt_le
    have hcapped := h.withCap (allowsAll_of_nonpos hfree) hall
    refine Halts.iff_eq (halts_iff_haltsAfter.mpr ⟨k, hcapped, ?_⟩)
    have hle : m.rounds + k ≤ Int64.maxValue.toInt := by
      have hm : m.rounds ≤ Int64.maxValue.toInt := m.counter.toInt_le
      have hc := cap.toInt_le
      omega
    exact (rounds_after hle).symm
  · obtain ⟨i, hi, hrounds⟩ := blocksFirst_of_lt ⟨hcap, hmax⟩ hm hk
    have hstopped := h.blocked (allowsAll_of_nonpos hfree) hi
    exact Halts.iff_eq (halts_iff_haltsAfter.mpr ⟨i, hstopped, hrounds.symm⟩)
  · obtain ⟨k, hk, rfl⟩ := halts_iff_haltsAfter.mp h
    have hall := hk.allowsAll hlimit
    have hloosened := hk.withCap hall (hall.loosen hcap hlooser)
    exact Halts.iff_eq (halts_iff_haltsAfter.mpr ⟨k, hloosened, rfl⟩)

end Machine

/-! ## A program that counts its rounds -/

/-- A function that counts up from its argument to the largest integer, one round for each number. -/
def countingUp : Text := "(fn [n] (if (< n 9223372036854775807) (recur (+ n 1)) n))"

/-- The body of `countingUp`. -/
def countingBody : List Form :=
  [.list [.symbol "if", .list [.symbol "<", .symbol "n", .int Int64.maxValue],
    .list [.symbol "recur", .list [.symbol "+", .symbol "n", .int 1]], .symbol "n"]]

theorem read_countingUp :
    Form.read countingUp = .ok (.list (.symbol "fn" :: .vector [.symbol "n"] :: countingBody)) := rfl

/-- A builtin applied to the value of a name and an integer. -/
theorem evalValue_builtin_int {fuel : Nat} {op : Builtin} {name y : Text} {scope : Scope}
    {n : Int64} (hspecial : Form.special? (.symbol name) = none)
    (hop : evalValue (eval (fuel + 1)) (.symbol name) scope = pure (.builtin op))
    (hy : evalValue (eval (fuel + 1)) (.symbol y) scope = pure (.int n)) (k : Int64) :
    evalValue (eval (fuel + 2)) (.list [.symbol name, .symbol y, .int k]) scope
      = Run.ofExcept (op.apply [.int n, .int k]) := by
  have hk : evalValue (eval (fuel + 1)) (.int k) scope = pure (.int k) := rfl
  rw [evalValue, eval]
  simp only [evalStep, hspecial, hop, evalArgs, hy, hk, pure_bind, applyValue_builtin, bind_assoc]
  exact bind_pure _

theorem evalBody_countingBody (fuel : Nat) (n : Int64) :
    evalBody (eval (fuel + 4)) [.own [("n", .int n)]] countingBody
      = pure (if n < Int64.maxValue then .recur [.int (n + 1)] else .value (.int n)) := by
  have htest : evalValue (eval (fuel + 3)) (.list [.symbol "<", .symbol "n", .int Int64.maxValue])
      [.own [("n", .int n)]] = Run.ofExcept (Builtin.less.apply [.int n, .int Int64.maxValue]) :=
    evalValue_builtin_int rfl rfl rfl _
  have hnext : evalValue (eval (fuel + 2)) (.list [.symbol "+", .symbol "n", .int 1])
      [.own [("n", .int n)]] = Run.ofExcept (Builtin.add.apply [.int n, .int 1]) :=
    evalValue_builtin_int rfl rfl rfl _
  have hless : Builtin.less.apply [.int n, .int Int64.maxValue]
      = .ok (.bool (n < Int64.maxValue)) := by
    by_cases h : n < Int64.maxValue <;>
      simp [Builtin.apply, Builtin.applyLess, Builtin.increasing, h, Except.map]
  have hadd : Builtin.add.apply [.int n, .int 1] = .ok (.int (n + 1)) := by
    simp [Builtin.apply, Builtin.integers, Except.map]
  rw [hless] at htest
  rw [hadd] at hnext
  have hrecur : eval (fuel + 3) (.list [.symbol "recur", .list [.symbol "+", .symbol "n", .int 1]])
      [.own [("n", .int n)]] = pure (.recur [.int (n + 1)]) := by
    have hspecial : Form.special? (.symbol "recur") = some .recur := rfl
    rw [eval]
    simp only [evalStep, hspecial, evalArgs, hnext]
    rfl
  have hspecial : Form.special? (.symbol "if") = some .branch := rfl
  rw [countingBody, evalBody, eval]
  simp only [evalStep, hspecial, evalBranch, htest, hrecur]
  by_cases h : n < Int64.maxValue
  · simp only [h]
    rfl
  · simp only [h]
    rfl

/-- Without a cap it takes as many rounds as there are numbers above its argument. -/
theorem takes_countingBody {fuel rounds k : Nat} {n : Int64} {m : Machine} (hrounds : k < rounds)
    (hcap : m.cap ≤ 0) (hlive : m.cancelled = false) (hn : n.toInt + k = Int64.maxValue.toInt) :
    Run.Takes (callRounds (eval (fuel + 4)) none ["n"] countingBody [] rounds [.int n]) m k
      (.ok (.int Int64.maxValue)) (m.after k) := by
  induction k generalizing rounds n m with
  | zero =>
    obtain ⟨rounds, rfl⟩ : ∃ fewer, rounds = fewer + 1 := ⟨rounds - 1, by omega⟩
    obtain rfl : n = Int64.maxValue := Int64.toInt_inj.mp (by omega)
    rw [callRounds_succ, Machine.after_zero]
    exact (evalBody_countingBody fuel Int64.maxValue) ▸ .bindOk (.pure _ m) (.pure _ m)
  | succ k ih =>
    obtain ⟨rounds, rfl⟩ : ∃ fewer, rounds = fewer + 1 := ⟨rounds - 1, by omega⟩
    have hlt : n < Int64.maxValue := Int64.lt_iff_toInt_lt.mpr (by omega)
    have hround : callRounds (eval (fuel + 4)) none ["n"] countingBody [] (rounds + 1) [.int n]
        = startRound 1 [Value.int (n + 1)] >>= fun _ =>
          callRounds (eval (fuel + 4)) none ["n"] countingBody [] rounds [.int (n + 1)] := by
      rw [callRounds_succ]
      refine (congrArg (· >>= _) (evalBody_countingBody fuel n)).trans ?_
      rw [if_pos hlt]
      exact pure_bind _ _
    have hnext : (n + 1).toInt = n.toInt + 1 := toInt_add_ofNat (k := 1) (by omega)
    have hclear : (m.after 1).clearance = .ok () :=
      Machine.clearance_of_live (fun h => absurd h.1 (Int.not_lt.mpr hcap)) hlive
    have hfirst : (startRound 1 [Value.int (n + 1)]).Takes m 1 (.ok ()) (m.after 1) :=
      hclear ▸ .counted m rfl
    have hrest : Run.Takes
        (callRounds (eval (fuel + 4)) none ["n"] countingBody [] rounds [.int (n + 1)]) (m.after 1) k
        (.ok (.int Int64.maxValue)) ((m.after 1).after k) := ih (by omega) hcap hlive (by omega)
    rw [Machine.after_after] at hrest
    rw [hround, Nat.add_comm k 1]
    exact .bindOk hfirst hrest

namespace Machine

theorem haltsAfter_countingUp {m : Machine} (hcap : m.cap ≤ 0) {n : Int64} {k : Nat}
    (hn : n.toInt + k = Int64.maxValue.toInt) :
    m.HaltsAfter countingUp [.int n] (.ok (.int Int64.maxValue)) k := by
  have hrounds : k < k + 5 := by omega
  have htakes : (runForm (k + 5) (.list (.symbol "fn" :: .vector [.symbol "n"] :: countingBody))
      [.int n]).Takes { m with cancelled := false } k (.ok (.int Int64.maxValue))
        (after { m with cancelled := false } k) := takes_countingBody hrounds hcap rfl hn
  exact .takes read_countingUp htakes

/-- On a machine that has started a round, three more are one too many for a cap of three. -/
theorem halts_withCap_countingUp :
    (((ofCap 0).after 1).withCap 3).Halts countingUp [.int 9223372036854775804]
      (.error (.roundLimit 3)) 4 := by
  have huncapped : (((ofCap 0).after 1).withCap 0).HaltsAfter countingUp
      [.int 9223372036854775804] (.ok (.int Int64.maxValue)) 3 :=
    haltsAfter_countingUp (Int.le_refl 0) (by decide)
  obtain ⟨-, hcapped, -⟩ := halts_withCap_iff ((ofCap 0).after 1) countingUp
    [.int 9223372036854775804] 0 3 (Int.le_refl 0) (by decide)
  obtain ⟨-, hstopped⟩ := hcapped _ _ huncapped
  exact (hstopped (by decide) (by decide) (by decide) _ _).mpr rfl

/-- A round too many goes unnoticed if the counter wraps around with it: on a machine that has
counted as far as it can, and under the largest cap. -/
theorem not_stopped_of_wrapping :
    (((Machine.mk 0 Int64.maxValue false #[]).withCap 0).HaltsAfter countingUp
        [.int 9223372036854775806] (.ok (.int Int64.maxValue)) 1 ∧
      ∀ y n, ((Machine.mk 0 Int64.maxValue false #[]).withCap 5).Halts countingUp
        [.int 9223372036854775806] y n ↔
          (y, n) = (.ok (.int Int64.maxValue), Int64.minValue.toInt)) ∧
    (((ofCap 0).withCap 0).HaltsAfter countingUp [.int (-1)] (.ok (.int Int64.maxValue))
        9223372036854775808 ∧
      ∀ y n, ((ofCap 0).withCap Int64.maxValue.toInt).Halts countingUp [.int (-1)] y n ↔
        (y, n) = (.ok (.int Int64.maxValue), Int64.minValue.toInt)) := by
  constructor
  · have huncapped : ((Machine.mk 0 Int64.maxValue false #[]).withCap 0).HaltsAfter countingUp
        [.int 9223372036854775806] (.ok (.int Int64.maxValue)) 1 :=
      haltsAfter_countingUp (Int.le_refl 0) (by decide)
    have hallows : AllowsAll 5 Int64.maxValue 1 := by
      rintro i hi hle ⟨-, hlt⟩
      obtain rfl : i = 1 := Nat.le_antisymm hle hi
      exact absurd hlt (by decide)
    have hcapped := huncapped.withCap (allowsAll_of_nonpos (Int.le_refl 0)) hallows
    exact ⟨huncapped, fun y n => Halts.iff_eq (halts_iff_haltsAfter.mpr ⟨1, hcapped, by decide⟩)⟩
  · have huncapped : ((ofCap 0).withCap 0).HaltsAfter countingUp [.int (-1)]
        (.ok (.int Int64.maxValue)) 9223372036854775808 :=
      haltsAfter_countingUp (Int.le_refl 0) (by decide)
    have hallows : AllowsAll Int64.maxValue.toInt 0 9223372036854775808 :=
      fun i _ _ hblocks => absurd hblocks.2 (Int.not_lt.mpr (Int64.toInt_le _))
    have hcapped := huncapped.withCap (allowsAll_of_nonpos (Int.le_refl 0)) hallows
    exact ⟨huncapped, fun y n => Halts.iff_eq (halts_iff_haltsAfter.mpr ⟨_, hcapped, by decide⟩)⟩

end Machine

end Denotation
