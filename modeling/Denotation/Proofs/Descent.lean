import Denotation.Simple.Parsing
import Denotation.Proofs.Lookahead

/-!
# Computations that ask for tokens

A recursive descent parser asks a lexer for one token after the other, and what it asks next depends
on the tokens it got. `Descent` is the tree of these questions. It can be answered by a lexer
(`Descent.run`) and by a list of results (`Descent.read`), and the two go together: the lexer has
scanned the results that the list no longer holds.

What a parser does cannot depend on results that it did not read (`read_frame`). About those that it
did read, there are two conditions on the tree. From `Safe` it follows that the tokens before a
failure could have been continued, and from `Uniform` that a number is refused whatever number it
is.
-/

namespace Denotation

variable {α β : Type}

/-- Looks at the next result, and takes it unless it is to be kept. -/
def Lexer.ask (l : Lexer) (keep : Bool) : Except OutOfRange ScanResult × Lexer :=
  if keep then l.peek 1 else (.ok l.next.1, l.next.2)

/-- A computation that asks a lexer for tokens. A result that is no token ends it. -/
inductive Descent (α : Type) where
  /-- Gives a value. -/
  | done (v : α)
  /-- Refuses the token that was looked at last. -/
  | fail (e : ParseError)
  /-- Gives up, since the bound on the depth of the tree is reached. -/
  | exhausted
  /-- Looks at the next token, and takes it unless it is to be kept. -/
  | ask (keep : Bool) (k : Token → Descent α)
  /-- Drops the token that was looked at and kept. -/
  | consume (d : Descent α)

namespace Descent

/-- Goes on with the value of a computation. -/
def bind : Descent α → (α → Descent β) → Descent β
  | done v, f => f v
  | fail e, _ => fail e
  | exhausted, _ => exhausted
  | ask keep k, f => ask keep fun t => (k t).bind f
  | consume d, f => consume (d.bind f)

instance : Monad Descent where
  pure := done
  bind := bind

/-- Takes the next token. -/
def next (k : Token → Descent α) : Descent α := ask false k

/-- Looks at the next token. -/
def peek (k : Token → Descent α) : Descent α := ask true k

/-- Takes the verdict on the token that was looked at last. -/
def ofExcept : Except ParseError α → Descent α
  | .ok v => done v
  | .error e => fail e

/-- Takes the next token, which is judged at once. -/
def expect (judge : Token → Except ParseError α) : Descent α := next fun t => ofExcept (judge t)

/-- Answers the questions by a lexer. -/
def run : Descent α → Lexer → Option (Except ParseError α × Lexer)
  | done v, l => some (.ok v, l)
  | fail e, l => some (.error e, l)
  | exhausted, _ => none
  | ask keep k, l =>
    match l.ask keep with
    | (.ok (.ok t), l) => (k t).run l
    | (.ok (.error e), l) => some (.error (.scan e), l)
    | (.error _, _) => none
  | consume d, l => d.run l.consume

/-- How answers by a list of results end. -/
inductive Standing (α : Type) where
  /-- With a value; a token may be held that was looked at and not taken. -/
  | done (v : α) (held : Option Token) (unread : List ScanResult)
  /-- With an error, which is about the last result that was read. -/
  | stopped (e : ParseError) (unread : List ScanResult)
  /-- At the bound on the depth. -/
  | exhausted

/-- What a parse that ends so comes to, if the bound was not reached. -/
def Standing.verdict : Standing α → Option (Except ParseFailure α)
  | .done v _ _ => some (.ok v)
  | .stopped e unread => some (.error ⟨e, unread⟩)
  | .exhausted => none

/-- The results that are still to be taken. -/
def ahead (held : Option Token) (unread : List ScanResult) : List ScanResult :=
  held.toList.map .ok ++ unread

/-- The token that is held after it was looked at. -/
def kept (keep : Bool) (t : Token) : Option Token := if keep then some t else none

/-- Answers the questions by a list of results, in front of which a token may be held. -/
def read : Descent α → Option Token → List ScanResult → Standing α
  | done v, held, unread => .done v held unread
  | fail e, _, unread => .stopped e unread
  | exhausted, _, _ => .exhausted
  | ask keep k, held, unread =>
    match ahead held unread with
    | [] => .stopped .cutOff []
    | .error e :: rest => .stopped (.scan e) rest
    | .ok t :: rest => (k t).read (kept keep t) rest
  | consume d, _, unread => d.read none unread

variable {d : Descent α} {f : α → Descent β} {keep : Bool} {k : Token → Descent α}
  {held : Option Token} {unread rest : List ScanResult} {t : Token} {e : ParseError} {v : α}

@[simp] theorem ahead_none : ahead none unread = unread := rfl

@[simp] theorem ahead_some : ahead (some t) unread = .ok t :: unread := rfl

theorem read_ask_ok (h : ahead held unread = .ok t :: rest) :
    (ask keep k).read held unread = (k t).read (kept keep t) rest := by
  rw [read, h]

theorem read_ask_error {err : ScanError} (h : ahead held unread = .error err :: rest) :
    (ask keep k).read held unread = .stopped (.scan err) rest := by
  rw [read, h]

theorem read_ask_nil (h : ahead held unread = []) :
    (ask keep k).read held unread = .stopped .cutOff [] := by
  rw [read, h]

/-- A token is held, or the results start with a token, with an error or not at all. -/
theorem ahead_cases (held : Option Token) (unread : List ScanResult) :
    (∃ t, held = some t) ∨ held = none ∧ ((∃ t rest, unread = .ok t :: rest) ∨
      (∃ err rest, unread = .error err :: rest) ∨ unread = []) := by
  cases held with
  | some t => exact Or.inl ⟨t, rfl⟩
  | none =>
    rcases unread with _ | ⟨err | t, rest⟩
    · exact Or.inr ⟨rfl, Or.inr (Or.inr rfl)⟩
    · exact Or.inr ⟨rfl, Or.inr (Or.inl ⟨err, rest, rfl⟩)⟩
    · exact Or.inr ⟨rfl, Or.inl ⟨t, rest, rfl⟩⟩

/-- Goes on after an outcome. -/
def Standing.andThen (o : Standing α) (g : α → Option Token → List ScanResult → Standing β) :
    Standing β :=
  match o with
  | .done v held unread => g v held unread
  | .stopped e unread => .stopped e unread
  | .exhausted => .exhausted

theorem read_bind (d : Descent α) (f : α → Descent β) (held : Option Token)
    (unread : List ScanResult) :
    (d.bind f).read held unread
      = (d.read held unread).andThen fun v held unread => (f v).read held unread := by
  induction d generalizing held unread with
  | done v => rfl
  | fail e => rfl
  | exhausted => rfl
  | ask keep k ih =>
    simp only [bind, read]
    split
    · rfl
    · rfl
    · exact ih _ _ _
  | consume d ih => exact ih _ _

/-! ## What is not read does not matter -/

/-- A computation that stops does so whatever follows the results that it read. -/
theorem read_frame (h : d.read held unread = .stopped e rest) (he : e ≠ .cutOff) :
    ∃ front, unread = front ++ rest ∧
      ∀ rest', d.read held (front ++ rest') = .stopped e rest' := by
  induction d generalizing held unread with
  | done v => cases h
  | exhausted => cases h
  | fail e' =>
    cases h
    exact ⟨[], rfl, fun rest' => rfl⟩
  | consume d ih => exact ih h
  | ask keep k ih =>
    rcases ahead_cases held unread with ⟨t, rfl⟩ | ⟨rfl, ⟨t, more, rfl⟩ | ⟨err, more, rfl⟩ | rfl⟩
    · exact ih t h
    · obtain ⟨front, rfl, hfront⟩ := ih t h
      exact ⟨.ok t :: front, rfl, hfront⟩
    · cases h
      exact ⟨[.error err], rfl, fun rest' => rfl⟩
    · cases h
      exact absurd rfl he

/-! ## Tokens before a failure -/

/-- The error refuses the token for a reason. The token is not the one that is wanted, or it is a
number that is none of the integers where another number could go on. -/
structure Blames (viable : List Token → Prop) (before : List Token) (t : Token) (e : ParseError) :
    Prop where
  possible : viable before
  reason : (∃ w, e = .unexpected t w) ∨
    e = .badNumber t ∧ t.kind = .number ∧ Text.toInt64? t.value = none ∧
      ∃ u : Token, u.kind = .number ∧ viable (before ++ [u])

/-- Whenever the computation asks for a token, the tokens taken so far are viable, and when it
refuses one, it has a reason. The value that it gives meets the postcondition. -/
def Safe (viable : List Token → Prop) (post : List Token → Option Token → α → Prop) :
    List Token → Option Token → Descent α → Prop
  | taken, held, done v => post taken held v
  | taken, held, fail e =>
    ∃ before t, taken ++ held.toList = before ++ [t] ∧ Blames viable before t e
  | _, _, exhausted => True
  | taken, held, ask keep k =>
    viable taken ∧ ∀ t, held.getD t = t →
      if keep then Safe viable post taken (some t) (k t)
      else Safe viable post (taken ++ [t]) none (k t)
  | taken, held, consume d => ∃ t, held = some t ∧ Safe viable post (taken ++ [t]) none d

variable {viable : List Token → Prop} {post : List Token → Option Token → α → Prop}
  {taken : List Token}

theorem Safe.bind {post' : List Token → Option Token → β → Prop}
    (h : Safe viable post taken held d)
    (hf : ∀ taken held v, post taken held v → Safe viable post' taken held (f v)) :
    Safe viable post' taken held (d.bind f) := by
  induction d generalizing taken held with
  | done v => exact hf taken held v h
  | fail e => exact h
  | exhausted => trivial
  | ask keep k ih =>
    refine ⟨h.1, fun t ht => ?_⟩
    have hk := h.2 t ht
    cases keep with
    | true => exact ih t hk
    | false => exact ih t hk
  | consume d ih =>
    obtain ⟨t, ht, hd⟩ := h
    exact ⟨t, ht, ih hd⟩

/-- Where a computation stops that has looked at some tokens already: at a result that is no token,
for want of results, or at a token that it blames. -/
inductive StopsAt (viable : List Token → Prop) (looked : List Token)
    (unread rest : List ScanResult) : ParseError → Prop where
  | error (ts : List Token) {err : ScanError} (hunread : unread = ts.map .ok ++ .error err :: rest)
      (hviable : viable (looked ++ ts)) : StopsAt viable looked unread rest (.scan err)
  | ending (ts : List Token) (hunread : unread = ts.map .ok) (hviable : viable (looked ++ ts)) :
      StopsAt viable looked unread rest .cutOff
  | token (ts : List Token) {before : List Token} {t : Token} {e : ParseError}
      (hunread : unread = ts.map .ok ++ rest) (hlooked : looked ++ ts = before ++ [t])
      (hblames : Blames viable before t e) : StopsAt viable looked unread rest e

theorem StopsAt.cons (h : StopsAt viable (taken ++ [t]) unread rest e) :
    StopsAt viable taken (.ok t :: unread) rest e := by
  cases h with
  | error ts hunread hviable =>
    exact .error (t :: ts) (by rw [hunread]; rfl) (by simpa using hviable)
  | ending ts hunread hviable =>
    exact .ending (t :: ts) (by rw [hunread]; rfl) (by simpa using hviable)
  | token ts hunread hlooked hblames =>
    exact .token (t :: ts) (by rw [hunread]; rfl) (by simpa using hlooked) hblames

/-- The tokens that were taken and the one that is held have been looked at. -/
theorem Safe.stops (h : Safe viable post taken held d)
    (hread : d.read held unread = .stopped e rest) :
    StopsAt viable (taken ++ held.toList) unread rest e := by
  induction d generalizing taken held unread with
  | done v => cases hread
  | exhausted => cases hread
  | fail e' =>
    cases hread
    obtain ⟨before, t, ht, hblames⟩ := h
    exact .token [] rfl (by rw [List.append_nil, ht]) hblames
  | consume d ih =>
    obtain ⟨t, rfl, hd⟩ := h
    have hstops := ih hd hread
    rwa [Option.toList_none, List.append_nil] at hstops
  | ask keep k ih =>
    obtain ⟨hviable, hk⟩ := h
    have hlook : ∀ t rest', held.getD t = t →
        (k t).read (kept keep t) rest' = .stopped e rest →
        StopsAt viable (taken ++ [t]) rest' rest e := by
      intro t rest' ht hread
      have hd := hk t ht
      cases keep with
      | true => exact ih t hd hread
      | false =>
        have hstops := ih t hd hread
        rwa [Option.toList_none, List.append_nil] at hstops
    rcases ahead_cases held unread with ⟨t, rfl⟩ | ⟨rfl, ⟨t, more, rfl⟩ | ⟨err, more, rfl⟩ | rfl⟩
    · exact hlook t unread rfl hread
    · rw [Option.toList_none, List.append_nil]
      exact (hlook t more rfl hread).cons
    · cases hread
      exact .error [] rfl (by simpa using hviable)
    · cases hread
      exact .ending [] rfl (by simpa using hviable)

/-! ## Numbers are refused alike -/

/-- The computation does not refuse the token that was looked at last before it looks at another. -/
def Onward : Descent α → Prop
  | fail _ | consume _ => False
  | _ => True

/-- The computation refuses a number for not being wanted only where it refuses all numbers so. -/
def Uniform : Descent α → Prop
  | done _ | fail _ | exhausted => True
  | ask keep k =>
    (∀ t, (k t).Uniform) ∧
      ((∃ w, ∀ t, t.kind = .number → k t = fail (.unexpected t w)) ∨
        (if keep then ∃ d, d.Onward ∧ ∀ t, t.kind = .number → k t = d
          else ∀ t, t.kind = .number → k t = fail (.badNumber t) ∨ (k t).Onward))
  | consume d => d.Uniform

theorem Onward.bind (hd : d.Onward) (hf : ∀ v, (f v).Onward) : (d.bind f).Onward := by
  cases d with
  | done v => exact hf v
  | fail e => exact hd.elim
  | exhausted => trivial
  | ask keep k => trivial
  | consume d => exact hd.elim

theorem Uniform.bind (hd : d.Uniform) (hf : ∀ v, (f v).Uniform) (hon : ∀ v, (f v).Onward) :
    (d.bind f).Uniform := by
  induction d with
  | done v => exact hf v
  | fail e => trivial
  | exhausted => trivial
  | consume d ih => exact ih hd
  | ask keep k ih =>
    obtain ⟨hk, hnumber⟩ := hd
    refine ⟨fun t => ih t (hk t), ?_⟩
    rcases hnumber with ⟨w, hw⟩ | hnumber
    · exact Or.inl ⟨w, fun t ht => congrArg (·.bind f) (hw t ht)⟩
    · refine Or.inr ?_
      cases keep with
      | true =>
        obtain ⟨d, hdon, hd⟩ := hnumber
        exact ⟨d.bind f, hdon.bind hon, fun t ht => congrArg (·.bind f) (hd t ht)⟩
      | false =>
        intro t ht
        rcases hnumber t ht with hbad | honward
        · exact Or.inl (congrArg (·.bind f) hbad)
        · exact Or.inr (honward.bind hon)

/-- A computation that goes on reads a result before it stops. -/
theorem Onward.length_lt (h : d.Onward) (hread : d.read none unread = .stopped e rest)
    (he : e ≠ .cutOff) : rest.length < unread.length := by
  cases d with
  | done v => cases hread
  | fail e => exact h.elim
  | exhausted => cases hread
  | consume d => exact h.elim
  | ask keep k =>
    rcases unread with _ | ⟨err | t, more⟩
    · cases hread
      exact absurd rfl he
    · cases hread
      exact Nat.lt_succ_self _
    · have hread' : (k t).read (kept keep t) more = .stopped e rest := hread
      obtain ⟨front, rfl, -⟩ := read_frame hread' he
      simp

variable {u : Token} {w : Wanted}

/-- A number that is held is refused like any other. -/
theorem Uniform.read_held (h : d.Uniform) (hon : d.Onward) (ht : t.kind = .number)
    (hu : u.kind = .number) (hread : d.read (some t) unread = .stopped (.unexpected t w) unread) :
    d.read (some u) unread = .stopped (.unexpected u w) unread := by
  induction d with
  | done v => cases hread
  | fail e => exact hon.elim
  | exhausted => cases hread
  | consume d ih => exact hon.elim
  | ask keep k ih =>
    obtain ⟨hk, hnumber⟩ := h
    have hread' : (k t).read (kept keep t) unread = .stopped (.unexpected t w) unread := hread
    show (k u).read (kept keep u) unread = _
    rcases hnumber with ⟨w', hw⟩ | hnumber
    · rw [hw t ht] at hread'
      cases hread'
      rw [hw u hu]
      rfl
    · cases keep with
      | true =>
        obtain ⟨d, hdon, hd⟩ := hnumber
        have ih := ih t (hk t)
        rw [hd t ht] at ih hread'
        rw [hd u hu]
        exact ih hdon hread'
      | false =>
        rcases hnumber t ht with hbad | honward
        · rw [hbad] at hread'
          cases hread'
        · exact absurd (honward.length_lt hread' (by simp)) (Nat.lt_irrefl _)

/-- A number that is refused for not being wanted is refused like any other in its place. -/
theorem Uniform.read_number (h : d.Uniform) (ht : t.kind = .number) (hu : u.kind = .number)
    {front : List ScanResult}
    (hread : d.read held (front ++ .ok t :: rest) = .stopped (.unexpected t w) rest) :
    d.read held (front ++ .ok u :: rest) = .stopped (.unexpected u w) rest := by
  induction d generalizing held front with
  | done v => cases hread
  | exhausted => cases hread
  | fail e =>
    have hrest : front ++ .ok t :: rest = rest := (Standing.stopped.inj hread).2
    have hlength := congrArg List.length hrest
    simp at hlength
    omega
  | consume d ih => exact ih h hread
  | ask keep k ih =>
    cases held with
    | some t' => exact ih t' (h.1 t') hread
    | none =>
      rcases front with _ | ⟨err | t', front⟩
      · -- the number is the token that is asked for, as if it had been held
        exact Uniform.read_held (d := ask keep k) h trivial ht hu hread
      · cases hread
      · exact ih t' (h.1 t') hread

end Descent

/-! ## Answers by a lexer -/

namespace Lexer

variable {l : Lexer} {s : Scanner} {held : Option Token} {reach : Nat} {t : Token}

/-- The lexer has scanned so many results of the scanner, and no others, and traced the tokens. -/
structure HasScanned (l : Lexer) (s : Scanner) (reach : Nat) : Prop where
  scanner : l.scanner = s.after reach
  scanned : l.scanned = (tokensOf (s.first reach)).flatMap Token.traceLine

/-- The lexer has scanned so many results, of which all but a token that is held were taken. -/
structure Faces (l : Lexer) (s : Scanner) (held : Option Token) (reach : Nat) : Prop
    extends l.HasScanned s reach where
  queue : l.queue = held.toList.map .ok

theorem faces_ofScanner (s : Scanner) : (ofScanner s).Faces s none 0 := ⟨⟨rfl, rfl⟩, rfl⟩

theorem Faces.consume (h : l.Faces s held reach) : l.consume.Faces s none reach := by
  refine ⟨⟨h.scanner, h.scanned⟩, ?_⟩
  rw [Lexer.consume, h.queue]
  cases held <;> rfl

/-- A token that is held is the answer. -/
theorem Faces.ask_held (h : l.Faces s (some t) reach) (keep : Bool) :
    ∃ l', l.ask keep = (.ok (.ok t), l') ∧ l'.Faces s (Descent.kept keep t) reach := by
  have hqueue : l.queue = [.ok t] := h.queue
  cases keep with
  | true =>
    refine ⟨l, ?_, h⟩
    simp [ask, peek, hqueue, fill]
  | false =>
    refine ⟨{ l with queue := [] }, ?_, ⟨h.scanner, h.scanned⟩, rfl⟩
    simp [ask, next, hqueue]

/-- If no token is held, the answer is the next result of the scanner. -/
theorem Faces.ask_none (h : l.Faces s none reach) (keep : Bool) :
    ∃ l', l.ask keep = (.ok (s.nth reach), l') ∧ l'.HasScanned s (reach + 1) ∧
      ∀ t, s.nth reach = .ok t → l'.Faces s (Descent.kept keep t) (reach + 1) := by
  have hqueue : l.queue = [] := h.queue
  have hat : l.At s ⟨reach, reach⟩ :=
    ⟨Nat.le_refl _, by rw [hqueue, Scanner.drop_first_self], h.scanner, h.scanned⟩
  have hscanned : l.scan.2.HasScanned s (reach + 1) := ⟨hat.scan_scanner, hat.scan_scanned⟩
  have hresult : l.scan.1 = s.nth reach := hat.scan_fst
  cases keep with
  | true =>
    have hkeeps : l.scan.2.queue = [] := l.queue_scan.trans hqueue
    have hheld : HasScanned { l.scan.2 with queue := [l.scan.1] } s (reach + 1) :=
      ⟨hscanned.scanner, hscanned.scanned⟩
    refine ⟨_, ?_, hheld, fun t ht => ⟨hheld, ?_⟩⟩
    · simp [ask, peek, hqueue, fill, hresult, hkeeps]
    · rw [hresult, ht]
      rfl
  | false =>
    refine ⟨l.scan.2, ?_, hscanned, fun t ht => ⟨hscanned, l.queue_scan.trans hqueue⟩⟩
    simp [ask, next, hqueue, hresult]

end Lexer

namespace Descent

variable {s : Scanner} {n reach : Nat} {l : Lexer} {held : Option Token}

/-- The answers by a lexer end as those by the first results of its scanner do. The lexer has then
scanned the results that were read. Nothing is said if the results did not suffice. -/
inductive Tracks (s : Scanner) (n : Nat) :
    Standing α → Option (Except ParseError α × Lexer) → Prop where
  | done {v : α} {held : Option Token} {reach : Nat} {l : Lexer} (hl : l.Faces s held reach)
      (hle : reach ≤ n) : Tracks s n (.done v held ((s.first n).drop reach)) (some (.ok v, l))
  | stopped {e : ParseError} {reach : Nat} {l : Lexer} (hl : l.HasScanned s reach)
      (hle : reach ≤ n) : Tracks s n (.stopped e ((s.first n).drop reach)) (some (.error e, l))
  | exhausted : Tracks s n .exhausted none
  | cutOff {unread : List ScanResult} {r : Option (Except ParseError α × Lexer)} :
      Tracks s n (.stopped .cutOff unread) r

theorem tracks_read (d : Descent α) (hl : l.Faces s held reach) (hle : reach ≤ n) :
    Tracks s n (d.read held ((s.first n).drop reach)) (d.run l) := by
  induction d generalizing l held reach with
  | done v => exact .done hl hle
  | fail e => exact .stopped hl.toHasScanned hle
  | exhausted => exact .exhausted
  | consume d ih => exact ih hl.consume hle
  | ask keep k ih =>
    cases held with
    | some t =>
      obtain ⟨l', hask, hl'⟩ := hl.ask_held keep
      rw [run, hask]
      exact ih t hl' hle
    | none =>
      rcases Nat.lt_or_eq_of_le hle with hlt | rfl
      · obtain ⟨l', hask, hscanned, hfaces⟩ := hl.ask_none keep
        rw [run, hask, read, ahead_none, Scanner.drop_first_cons hlt]
        cases hresult : s.nth reach with
        | ok t => exact ih t (hfaces t hresult) hlt
        | error err => exact .stopped hscanned hlt
      · rw [read, ahead_none, Scanner.drop_first_self]
        exact .cutOff

theorem Tracks.of_done {r : Option (Except ParseError α × Lexer)} {v : α}
    {rest : List ScanResult} (h : Tracks s n (.done v held rest) r) :
    ∃ l reach, r = some (.ok v, l) ∧ l.Faces s held reach ∧ reach ≤ n ∧
      rest = (s.first n).drop reach := by
  cases h with
  | done hl hle => exact ⟨_, _, rfl, hl, hle, rfl⟩

theorem Tracks.of_stopped {r : Option (Except ParseError α × Lexer)} {e : ParseError}
    {rest : List ScanResult} (h : Tracks s n (.stopped e rest) r) (he : e ≠ .cutOff) :
    ∃ l reach, r = some (.error e, l) ∧ l.HasScanned s reach ∧ reach ≤ n ∧
      rest = (s.first n).drop reach := by
  cases h with
  | stopped hl hle => exact ⟨_, _, rfl, hl, hle, rfl⟩
  | cutOff => exact absurd rfl he

end Descent

end Denotation
