import Denotation.Proofs.Caps
import Denotation.Proofs.Compilation
import Denotation.Proofs.Reprinting

/-!
# Statements one after the other

A run of a statement that comes to its end can be had again: with more fuel, inside other closures,
and on every machine that was cancelled or not in the same way and leaves room for its rounds. It
leads to the same environment and starts as many rounds. `Stmt.Carries` says where a statement leads
without a run, so runs that took place apart, each on a machine of its own, can be put together to
one, and a run of several steps can be taken apart. In particular it does not matter how steps are
grouped.
-/

namespace Denotation

theorem Run.bind_eq_ok {α β : Type} {x : Run α} {f : α → Run β} {m m'' : Machine} {b : β} :
    (x >>= f) m = .ok b m'' ↔ ∃ a m', x m = .ok a m' ∧ f a m' = .ok b m'' := by
  simp only [bind, Run.bind]
  cases x m with
  | ok a m' =>
    constructor
    · intro h
      exact ⟨a, m', rfl, h⟩
    · rintro ⟨_, _, h, hf⟩
      cases h
      exact hf
  | error e m' => simp
  | exhausted => simp

variable {n n' j j' k : Nat} {vs : List Value} {b b' b'' : Bindings} {v w : Value}
  {m m' : Machine} {cancelled : Bool}

/-- More fuel changes nothing about a run that ends. -/
theorem turns_mono {body : Form} (hn : n ≤ n') (hj : j ≤ j')
    (h : turns n j body vs v m = .ok w m') : turns n' j' body vs v m = .ok w m' := by
  have hrounds := refuelled.called (fun f scope => refuelled.evaluation hn f scope) hj none
    ["e"] [body] (scopeOf vs) [v]
  exact Result.toOption_eq_ok.mp (hrounds m _ m' (Result.toOption_eq_ok.mpr h))

theorem enter_mono {body : Form} (hn : n ≤ n') (h : enter n body vs v m = .ok w m') :
    enter n' body vs v m = .ok w m' :=
  turns_mono hn hn h

/-! ## Expressions -/

theorem Expr.value_of_enter {e : Expr Empty} (h : enter n e.body vs (.map b) m = .ok v m') :
    e.value b.store = .ok v ∧ m' = m := by
  have hsettles := e.settles n vs b m
  rw [h] at hsettles
  cases hsettles with
  | value hv => exact ⟨hv, rfl⟩

theorem Expr.enter_of_value {e : Expr Empty} (h : e.value b.store = .ok v) (hn : e.depth ≤ n) :
    enter n e.body vs (.map b) m = .ok v m := by
  have hsettles := e.settles n vs b m
  generalize enter n e.body vs (.map b) m = R at hsettles
  cases hsettles with
  | value hv =>
    rw [h] at hv
    cases hv
    rfl
  | failure hv =>
    rw [h] at hv
    cases hv
  | exhausted hshort => omega

/-! ## Statements -/

/-- The statement leads from one environment to the other in so many rounds. Where a run was
cancelled no round can be started. -/
inductive Stmt.Carries : Stmt Empty → Bool → Bindings → Nat → Bindings → Prop where
  | doNothing {cancelled : Bool} {b : Bindings} : Carries .doNothing cancelled b 0 b
  | assign {cancelled : Bool} {name : Text} {e : Expr Empty} {b : Bindings} {v : Value}
      (he : e.value b.store = .ok v) : Carries (.assign name e) cancelled b 0 (b.insert name v)
  | sequence {cancelled : Bool} {a d : Stmt Empty} {b b' b'' : Bindings} {j k : Nat}
      (ha : Carries a cancelled b j b') (hd : Carries d cancelled b' k b'') :
      Carries (.sequence a d) cancelled b (j + k) b''
  | branchTrue {cancelled : Bool} {c : Expr Empty} {a d : Stmt Empty} {b b' : Bindings} {v : Value}
      {k : Nat} (hc : c.value b.store = .ok v) (hv : v.isTruthy = true)
      (ha : Carries a cancelled b k b') : Carries (.branch c a d) cancelled b k b'
  | branchFalse {cancelled : Bool} {c : Expr Empty} {a d : Stmt Empty} {b b' : Bindings} {v : Value}
      {k : Nat} (hc : c.value b.store = .ok v) (hv : v.isTruthy = false)
      (hd : Carries d cancelled b k b') : Carries (.branch c a d) cancelled b k b'
  | loopStops {cancelled : Bool} {c : Expr Empty} {a : Stmt Empty} {b : Bindings} {v : Value}
      (hc : c.value b.store = .ok v) (hv : v.isTruthy = false) : Carries (.loop c a) cancelled b 0 b
  | loopGoesOn {c : Expr Empty} {a : Stmt Empty} {b b' b'' : Bindings} {v : Value} {j k : Nat}
      (hc : c.value b.store = .ok v) (hv : v.isTruthy = true) (ha : Carries a false b j b')
      (hl : Carries (.loop c a) false b' k b'') : Carries (.loop c a) false b (j + 1 + k) b''

/-- A machine that was not cancelled and has room for a round starts it. -/
theorem startRound_of_room (hm : m.cancelled = false) (hroom : m.Room 1) :
    startRound 1 [v] m = .ok () (m.after 1) := by
  have harity : [v].length = 1 := rfl
  have hclear : (m.after 1).clearance = .ok () := Machine.clearance_of_live hroom.within hm
  rw [startRound_of_count harity, hclear]
  rfl

/-- A machine that starts a round was not cancelled and has room for it. -/
theorem room_of_startRound (hroom : m.Room 0) (h : startRound 1 [v] m = .ok () m') :
    m.cancelled = false ∧ m' = m.after 1 ∧ m.Room 1 := by
  cases hlive : m.cancelled with
  | true =>
    have harity : [v].length = 1 := rfl
    have hcancelled : (m.after 1).cancelled = true := hlive
    rw [startRound_of_count harity, Machine.clearance, hcancelled] at h
    split at h <;> cases h
  | false =>
    rcases startRound_of_ready ⟨hlive, hroom⟩ v with ⟨hstart, hone⟩ | ⟨hstart, -⟩
    · rw [hstart] at h
      cases h
      exact ⟨rfl, rfl, hone⟩
    · rw [hstart] at h
      cases h

/-- A statement leads to where it leads wherever it is run, if there is room for its rounds. -/
theorem Stmt.Carries.enter {s : Stmt Empty} (h : s.Carries cancelled b k b') (vs : List Value)
    (m : Machine) (hm : m.cancelled = cancelled) (hroom : m.Room k) :
    ∃ fuel, enter fuel s.body vs (.map b) m = .ok (.map b') (m.after k) := by
  induction h generalizing vs m with
  | doNothing =>
    refine ⟨1, ?_⟩
    rw [Machine.after_zero]
    rfl
  | @assign cancelled name e b v he =>
    refine ⟨e.depth + 2, ?_⟩
    rw [Stmt.body, enter_assoc, evalValue_here, Machine.after_zero]
    refine Run.bind_eq_ok.mpr ⟨v, m, Expr.enter_of_value he (Nat.le_refl _), ?_⟩
    rw [apply_assoc]
    rfl
  | @sequence cancelled a d b b' b'' j k ha hd iha ihd =>
    obtain ⟨n, hn⟩ := iha (.map b :: vs) m hm hroom.left
    obtain ⟨n', hn'⟩ := ihd (.map b :: vs) (m.after j) hm hroom.right
    refine ⟨max n n' + 2, ?_⟩
    rw [Stmt.body, enter_sequence]
    refine Run.bind_eq_ok.mpr ⟨_, _, enter_mono (by omega) hn, ?_⟩
    rw [Machine.after_after] at hn'
    exact enter_mono (by omega) hn'
  | @branchTrue cancelled c a d b b' v k hc hv ha ih =>
    obtain ⟨n, hn⟩ := ih (.map b :: vs) m hm hroom
    refine ⟨max n c.depth + 2, ?_⟩
    rw [Stmt.body, enter_choice]
    refine Run.bind_eq_ok.mpr ⟨v, m, Expr.enter_of_value hc (by omega), ?_⟩
    rw [if_pos hv]
    exact enter_mono (by omega) hn
  | @branchFalse cancelled c a d b b' v k hc hv hd ih =>
    obtain ⟨n, hn⟩ := ih (.map b :: vs) m hm hroom
    refine ⟨max n c.depth + 2, ?_⟩
    rw [Stmt.body, enter_choice]
    refine Run.bind_eq_ok.mpr ⟨v, m, Expr.enter_of_value hc (by omega), ?_⟩
    rw [hv]
    exact enter_mono (by omega) hn
  | @loopStops cancelled c a b v hc hv =>
    refine ⟨c.depth + 2, ?_⟩
    rw [Stmt.body, Denotation.enter, turns_loop, Machine.after_zero]
    refine Run.bind_eq_ok.mpr ⟨v, m, Expr.enter_of_value hc (Nat.le_refl _), ?_⟩
    rw [hv]
    rfl
  | @loopGoesOn c a b b' b'' v j k hc hv ha hl iha ihl =>
    obtain ⟨n, hn⟩ := iha (.map b :: vs) m hm hroom.left.left
    obtain ⟨n', hn'⟩ := ihl vs (m.after (j + 1)) hm hroom.right
    refine ⟨max (max n n') c.depth + 3, ?_⟩
    rw [Stmt.body, Denotation.enter, turns_loop]
    refine Run.bind_eq_ok.mpr ⟨v, m, Expr.enter_of_value hc (by omega), ?_⟩
    rw [if_pos hv, evalValue_here]
    refine Run.bind_eq_ok.mpr ⟨_, _, enter_mono (by omega) hn, ?_⟩
    have hstart := startRound_of_room (v := .map b') (m := m.after j) hm hroom.left.right
    rw [Machine.after_after] at hstart
    refine Run.bind_eq_ok.mpr ⟨_, _, hstart, ?_⟩
    rw [Machine.after_after] at hn'
    exact turns_mono (by omega) (by omega) hn'

/-- What a run came to, the value and the machine, is what the statement leads to. -/
def Stmt.Carried (s : Stmt Empty) (b : Bindings) (m : Machine) (w : Value) (m' : Machine) : Prop :=
  ∃ k b', w = .map b' ∧ m' = m.after k ∧ m.Room k ∧ s.Carries m.cancelled b k b'

theorem Stmt.Carries.carried {s : Stmt Empty} (hroom : m.Room 0)
    (h : s.Carries m.cancelled b 0 b') : s.Carried b m (.map b') m :=
  ⟨0, b', rfl, m.after_zero.symm, hroom, h⟩

theorem carried_loop {c : Expr Empty} {a : Stmt Empty}
    (ha : ∀ n vs b m w m', m.Room 0 → enter n a.body vs (.map b) m = .ok w m' →
      a.Carried b m w m')
    (hroom : m.Room 0) (h : turns n j (Stmt.loop c a).body vs (.map b) m = .ok w m') :
    (Stmt.loop c a).Carried b m w m' := by
  induction j generalizing b m with
  | zero => cases h
  | succ j ih =>
    rcases n with _ | _ | n
    · cases h
    · cases h
    rw [Stmt.body, turns_loop] at h
    obtain ⟨v, m₀, hc, hchoice⟩ := Run.bind_eq_ok.mp h
    obtain ⟨hvalue, rfl⟩ := Expr.value_of_enter hc
    by_cases hv : v.isTruthy = true
    · rw [if_pos hv] at hchoice
      cases n with
      | zero => cases hchoice
      | succ n =>
        rw [evalValue_here] at hchoice
        obtain ⟨w₁, m₁, hbody, hround⟩ := Run.bind_eq_ok.mp hchoice
        obtain ⟨i, b₁, rfl, rfl, hi, hcarries⟩ := ha _ _ _ _ _ _ hroom hbody
        obtain ⟨_, m₂, hstart, hloop⟩ := Run.bind_eq_ok.mp hround
        -- a round was started, so the machine was not cancelled and had room for it
        obtain ⟨hlive, rfl, hone⟩ := room_of_startRound (Machine.Room.right hi) hstart
        have hnext : m₀.Room (i + 1) := hi.add hone
        rw [Machine.after_after] at hloop
        obtain ⟨k, b₂, rfl, rfl, hk, hrest⟩ := ih (Machine.Room.right hnext) hloop
        simp only [Machine.after] at hlive hrest
        rw [hlive] at hcarries hrest
        refine ⟨i + 1 + k, b₂, rfl, Machine.after_after _ _ _, hnext.add hk, ?_⟩
        rw [hlive]
        exact .loopGoesOn hvalue hv hcarries hrest
    · rw [if_neg hv] at hchoice
      cases hchoice
      have hstops : (Stmt.loop c a).Carries m'.cancelled b 0 b :=
        .loopStops hvalue (by simpa using hv)
      exact hstops.carried hroom

/-- What a run of a statement has led to, the statement leads to wherever it is run. -/
theorem Stmt.carried (s : Stmt Empty) (n : Nat) (vs : List Value) (b : Bindings) (m : Machine)
    (w : Value) (m' : Machine) (hroom : m.Room 0)
    (h : Denotation.enter n s.body vs (.map b) m = .ok w m') : s.Carried b m w m' := by
  induction s generalizing n vs b m w m' with
  | doNothing =>
    cases n with
    | zero => cases h
    | succ n =>
      cases h
      exact Carries.doNothing.carried hroom
  | assign name e =>
    rcases n with _ | _ | n
    · cases h
    · cases h
    rw [body, enter_assoc, evalValue_here] at h
    obtain ⟨v, _, he, hassoc⟩ := Run.bind_eq_ok.mp h
    obtain ⟨hvalue, rfl⟩ := Expr.value_of_enter he
    rw [apply_assoc] at hassoc
    cases hassoc
    exact (Carries.assign hvalue).carried hroom
  | sequence a d iha ihd =>
    rcases n with _ | _ | n
    · cases h
    · cases h
    rw [body, enter_sequence] at h
    obtain ⟨_, _, ha, hd⟩ := Run.bind_eq_ok.mp h
    obtain ⟨j, b₁, rfl, rfl, hj, hfirst⟩ := iha _ _ _ _ _ _ hroom ha
    obtain ⟨k, b₂, rfl, rfl, hk, hsecond⟩ := ihd _ _ _ _ _ _ (Machine.Room.right hj) hd
    exact ⟨j + k, b₂, rfl, Machine.after_after _ _ _, hj.add hk, .sequence hfirst hsecond⟩
  | branch c a d iha ihd =>
    rcases n with _ | _ | n
    · cases h
    · cases h
    rw [body, enter_choice] at h
    obtain ⟨v, _, hc, hchoice⟩ := Run.bind_eq_ok.mp h
    obtain ⟨hvalue, rfl⟩ := Expr.value_of_enter hc
    by_cases hv : v.isTruthy = true
    · rw [if_pos hv] at hchoice
      obtain ⟨k, b₁, rfl, rfl, hk, hcarries⟩ := iha _ _ _ _ _ _ hroom hchoice
      exact ⟨k, b₁, rfl, rfl, hk, .branchTrue hvalue hv hcarries⟩
    · rw [if_neg hv] at hchoice
      obtain ⟨k, b₁, rfl, rfl, hk, hcarries⟩ := ihd _ _ _ _ _ _ hroom hchoice
      exact ⟨k, b₁, rfl, rfl, hk, .branchFalse hvalue (by simpa using hv) hcarries⟩
  | loop c a ih => exact carried_loop ih hroom h
  | gap g => exact g.elim

/-- Steps that are put in front of others lead to where they lead on their own, and the others go on
from there. -/
theorem Stmt.Carries.join {a d : Stmt Empty} (ha : a.Carries cancelled b j b')
    (hd : d.Carries cancelled b' k b'') : (a.join d).Carries cancelled b (j + k) b'' := by
  induction a generalizing b j with
  | sequence x y ihx ihy =>
    cases ha with
    | sequence hx hy =>
      rw [Nat.add_assoc]
      exact .sequence hx (ihy hy)
  | gap g => exact g.elim
  | _ => exact .sequence ha hd

/-! ## Evaluation -/

section
variable {s : Stmt Empty} {cap : Int} {fuel : Nat}

/-- An evaluation that ends shows how many rounds the statement takes, as far as the counter can. -/
theorem Stmt.carries_of_evaluate {shown : Int}
    (h : evaluate fuel cap cancelled ((Node.stmt s).render .clojure) b = some ⟨.ok v, shown⟩) :
    ∃ k b', v = .map b' ∧ shown = shownRounds k ∧ (IsLimit cap → k ≤ cap) ∧
      s.Carries cancelled b k b' := by
  rw [evaluate_render_on] at h
  have hroom : (Machine.mk cap 0 cancelled #[]).Room 0 :=
    room_mk_iff.mpr fun hcap => Int.le_of_lt hcap.1
  cases hrun : enter fuel s.body [] (.map b) ⟨cap, 0, cancelled, #[]⟩ with
  | ok w m' =>
    obtain ⟨k, b', rfl, rfl, hk, hcarries⟩ := s.carried _ _ _ _ _ _ hroom hrun
    rw [Node.body, hrun, Result.evaluation, rounds_mk_after] at h
    cases h
    exact ⟨k, b', rfl, rfl, room_mk_iff.mp hk, hcarries⟩
  | error e m' =>
    rw [Node.body, hrun] at h
    cases h
  | exhausted =>
    rw [Node.body, hrun] at h
    cases h

theorem Stmt.Carries.evaluate (h : s.Carries cancelled b k b') (hk : IsLimit cap → k ≤ cap) :
    ∃ bound, ∀ fuel, bound ≤ fuel →
      evaluate fuel cap cancelled ((Node.stmt s).render .clojure) b
        = some ⟨.ok (.map b'), shownRounds k⟩ := by
  obtain ⟨bound, hbound⟩ := h.enter [] ⟨cap, 0, cancelled, #[]⟩ rfl (room_mk_iff.mpr hk)
  refine ⟨bound, fun fuel hfuel => ?_⟩
  rw [evaluate_render_on, Node.body, enter_mono hfuel hbound, Result.evaluation, rounds_mk_after]

end

end Denotation
