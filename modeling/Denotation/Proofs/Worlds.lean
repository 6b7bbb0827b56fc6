import Denotation.Proofs.Matching

/-!
# Two machines side by side

Two runs that differ in how frames are kept go on side by side. A `World` holds the frames of both
machines and says which frames go together: a frame of the first machine is linked to one of the
second, or it is the one frame that the second machine does not keep, because the second run makes
copies of it instead. That frame is the gap of the world. Frames may still grow, and a world knows the
names that are yet to come to each of them.

`World.Rel` relates what the two runs compute. Closures are related if their bodies match and the
names that the bodies use are related where they were made, now and for as long as frames grow.
-/

namespace Denotation

/-! ## Frame numbers -/

mutual

/-- All frames that the value refers to have numbers below `n`. -/
def Value.Within (n : Nat) : Value → Prop
  | .list items => Value.AllWithin n items
  | .vector items => Value.AllWithin n items
  | .array items => Value.AllWithin n items
  | .map entries => Value.EntriesWithin n entries
  | .closure _ _ _ scope => Frame.AllWithin n scope
  | _ => True

def Value.AllWithin (n : Nat) : List Value → Prop
  | [] => True
  | v :: rest => v.Within n ∧ Value.AllWithin n rest

def Value.EntriesWithin (n : Nat) : List (Text × Value) → Prop
  | [] => True
  | (_, v) :: rest => v.Within n ∧ Value.EntriesWithin n rest

def Frame.Within (n : Nat) : Frame → Prop
  | .own bindings => Value.EntriesWithin n bindings
  | .shared number => number < n

/-- The same of all frames of a scope. -/
def Frame.AllWithin (n : Nat) : List Frame → Prop
  | [] => True
  | frame :: rest => frame.Within n ∧ Frame.AllWithin n rest

end

section
variable {n n' : Nat}

theorem Value.allWithin_iff {vs : List Value} : Value.AllWithin n vs ↔ ∀ v ∈ vs, v.Within n := by
  induction vs with
  | nil => simp [Value.AllWithin]
  | cons v vs ih => simp [Value.AllWithin, ih]

theorem Value.entriesWithin_iff {b : Bindings} :
    Value.EntriesWithin n b ↔ ∀ v ∈ b.map Prod.snd, v.Within n := by
  induction b with
  | nil => simp [Value.EntriesWithin]
  | cons p b ih =>
    rw [Value.EntriesWithin, List.map_cons, List.forall_mem_cons, ih]

theorem Frame.allWithin_iff {scope : Scope} :
    Frame.AllWithin n scope ↔ ∀ frame ∈ scope, frame.Within n := by
  induction scope with
  | nil => simp [Frame.AllWithin]
  | cons frame scope ih => simp [Frame.AllWithin, ih]

theorem Value.Within.mono (h : n ≤ n') (v : Value) : v.Within n → v.Within n' := by
  apply Value.Within.induct (fun v => v.Within n → v.Within n')
    (fun scope => Frame.AllWithin n scope → Frame.AllWithin n' scope)
    (fun frame => frame.Within n → frame.Within n')
    (fun b => Value.EntriesWithin n b → Value.EntriesWithin n' b)
    (fun vs => Value.AllWithin n vs → Value.AllWithin n' vs)
  case case1 => exact fun items ih hv => ih hv
  case case2 => exact fun items ih hv => ih hv
  case case3 => exact fun items ih hv => ih hv
  case case4 => exact fun entries ih hv => ih hv
  case case5 => exact fun name params body scope ih hv => ih hv
  case case6 =>
    intro v hlist hvector harray hmap hclosure _
    cases v with
    | list items => exact (hlist items rfl).elim
    | vector items => exact (hvector items rfl).elim
    | array items => exact (harray items rfl).elim
    | map entries => exact (hmap entries rfl).elim
    | closure name params body scope => exact (hclosure name params body scope rfl).elim
    | _ => exact trivial
  case case7 => exact fun bindings ih hb => ih hb
  case case8 => exact fun number hnumber => Nat.lt_of_lt_of_le hnumber h
  case case9 => exact fun _ => trivial
  case case10 => exact fun v rest ihv ihrest hvs => ⟨ihv hvs.1, ihrest hvs.2⟩
  case case11 => exact fun _ => trivial
  case case12 => exact fun name v rest ihv ihrest hb => ⟨ihv hb.1, ihrest hb.2⟩
  case case13 => exact fun _ => trivial
  case case14 => exact fun frame rest ihframe ihrest hs => ⟨ihframe hs.1, ihrest hs.2⟩

theorem Value.EntriesWithin.mono (h : n ≤ n') {b : Bindings} (hb : Value.EntriesWithin n b) :
    Value.EntriesWithin n' b := by
  rw [Value.entriesWithin_iff] at hb ⊢
  exact fun v hv => (hb v hv).mono h

theorem Frame.AllWithin.mono (h : n ≤ n') {scope : Scope} (hs : Frame.AllWithin n scope) :
    Frame.AllWithin n' scope := by
  rw [Frame.allWithin_iff] at hs ⊢
  intro frame hframe
  have hwithin := hs frame hframe
  cases frame with
  | own bindings => exact Value.EntriesWithin.mono h hwithin
  | shared number => exact Nat.lt_of_lt_of_le hwithin h

end

/-! ## Worlds -/

/-- The frames of two machines, and what they have to do with each other. -/
structure World where
  /-- The frames of the first machine. -/
  left : Array Bindings
  /-- The frames of the second machine. -/
  right : Array Bindings
  /-- The frames that are kept by both. -/
  links : List (Nat × Nat)
  /-- The frame that only the first machine keeps. -/
  gap : Option Nat
  /-- The names that are yet to come to a frame of the first machine. -/
  todo : Nat → List Text

/-- What can be related in a world. -/
inductive Item where
  | value (v v' : Value)
  | values (vs vs' : List Value)
  /-- Two names in two scopes, for good if `lasting` and else as long as no frame grows. -/
  | name (lasting : Bool) (y : Text) (scope : Scope) (y' : Text) (scope' : Scope)

/-- A value without values or scopes inside. -/
def Value.isFlat : Value → Bool
  | .list _ | .vector _ | .array _ | .map _ | .closure .. => false
  | _ => true

namespace World

/-- The second machine has a copy where the first one has this frame, so for good only the names that
are not to come are the same in both. -/
inductive Opens (w : World) (lasting : Bool) (y : Text) : Frame → Bindings → Prop where
  | own {b : Bindings} : Opens w lasting y (.own b) b
  | gap {k : Nat} {b : Bindings} (hk : w.gap = some k) (hb : w.left[k]? = some b)
      (hlast : lasting = true → y ∉ w.todo k) : Opens w lasting y (.shared k) b

/-- What the two runs have is the same, but for the frames that closures refer to. -/
inductive Rel (w : World) : Item → Prop where
  | flat {v : Value} (h : v.isFlat = true) : Rel w (.value v v)
  | list {vs vs' : List Value} (h : Rel w (.values vs vs')) : Rel w (.value (.list vs) (.list vs'))
  | vector {vs vs' : List Value} (h : Rel w (.values vs vs')) :
      Rel w (.value (.vector vs) (.vector vs'))
  | array {vs vs' : List Value} (h : Rel w (.values vs vs')) :
      Rel w (.value (.array vs) (.array vs'))
  | map {b b' : Bindings} (hkeys : b.map Prod.fst = b'.map Prod.fst)
      (h : Rel w (.values (b.map Prod.snd) (b'.map Prod.snd))) : Rel w (.value (.map b) (.map b'))
  | closure {R : NameRel} {name : Option Text} {params : List Text} {body body' : List Form}
      {scope scope' : Scope}
      (hbody : Form.Matches (R.under (sameNames (params.reverse ++ name.toList)))
        (R.under (sameNames (params.reverse ++ name.toList))) (.forms body body'))
      (hnames : ∀ y y', R y y' → Rel w (.name true y scope y' scope'))
      (hscope : Frame.AllWithin w.left.size scope) :
      Rel w (.value (.closure name params body scope) (.closure name params body' scope'))
  | nil : Rel w (.values [] [])
  | cons {v v' : Value} {vs vs' : List Value} (hv : Rel w (.value v v'))
      (hvs : Rel w (.values vs vs')) : Rel w (.values (v :: vs) (v' :: vs'))
  | builtin {lasting : Bool} {y : Text} : Rel w (.name lasting y [] y [])
  | found {lasting : Bool} {y y' : Text} {frame : Frame} {b b' : Bindings} {scope scope' : Scope}
      {v v' : Value} (hopens : w.Opens lasting y frame b) (h : b.find? y = some v)
      (h' : b'.find? y' = some v') (hv : Rel w (.value v v')) :
      Rel w (.name lasting y (frame :: scope) y' (.own b' :: scope'))
  | missed {lasting : Bool} {y y' : Text} {frame : Frame} {b b' : Bindings} {scope scope' : Scope}
      (hopens : w.Opens lasting y frame b) (h : b.find? y = none)
      (h' : b'.find? y' = none) (houter : Rel w (.name lasting y scope y' scope')) :
      Rel w (.name lasting y (frame :: scope) y' (.own b' :: scope'))
  | linkedFound {lasting : Bool} {y : Text} {i i' : Nat} {b : Bindings} {scope scope' : Scope}
      (hlink : (i, i') ∈ w.links) (hb : w.left[i]? = some b) (hy : y ∈ b.map Prod.fst) :
      Rel w (.name lasting y (.shared i :: scope) y (.shared i' :: scope'))
  | linkedMissed {lasting : Bool} {y y' : Text} {i i' : Nat} {b : Bindings} {scope scope' : Scope}
      (hlink : (i, i') ∈ w.links) (hb : w.left[i]? = some b) (hy : y ∉ b.map Prod.fst)
      (hy' : y' ∉ b.map Prod.fst)
      (hlast : lasting = true → y = y' ∨ y ∉ w.todo i ∧ y' ∉ w.todo i)
      (houter : Rel w (.name lasting y scope y' scope')) :
      Rel w (.name lasting y (.shared i :: scope) y' (.shared i' :: scope'))

/-! ## Worlds to come -/

/-- The second world may follow the first: frames were added, and frames have grown by names that were
to come to them. -/
structure Onward (w w' : World) : Prop where
  links : ∀ p ∈ w.links, p ∈ w'.links
  gap : ∀ k, w.gap = some k → w'.gap = some k
  size : w.left.size ≤ w'.left.size
  grows : ∀ (i : Nat) (b : Bindings), w.left[i]? = some b →
    ∃ new, w'.left[i]? = some (new ++ b) ∧ ∀ y ∈ new.map Prod.fst, y ∈ w.todo i
  todo : ∀ i, i < w.left.size → ∀ y ∈ w'.todo i, y ∈ w.todo i

/-- No frame of the first world has grown. -/
structure Steady (w w' : World) : Prop where
  links : ∀ p ∈ w.links, p ∈ w'.links
  gap : ∀ k, w.gap = some k → w'.gap = some k
  size : w.left.size ≤ w'.left.size
  left : ∀ (i : Nat) (b : Bindings), w.left[i]? = some b → w'.left[i]? = some b
  todo : ∀ i, i < w.left.size → w'.todo i = w.todo i

variable {w w' w'' : World} {item : Item}

theorem Steady.refl (w : World) : w.Steady w :=
  ⟨fun _ h => h, fun _ h => h, Nat.le_refl _, fun _ _ h => h, fun _ _ => rfl⟩

theorem Steady.trans (h : w.Steady w') (h' : w'.Steady w'') : w.Steady w'' where
  links p hp := h'.links p (h.links p hp)
  gap k hk := h'.gap k (h.gap k hk)
  size := Nat.le_trans h.size h'.size
  left i b hb := h'.left i b (h.left i b hb)
  todo i hi := (h'.todo i (Nat.lt_of_lt_of_le hi h.size)).trans (h.todo i hi)

theorem Steady.onward (h : w.Steady w') : w.Onward w' where
  links := h.links
  gap := h.gap
  size := h.size
  grows i b hb := ⟨[], h.left i b hb, fun _ hy => absurd hy List.not_mem_nil⟩
  todo i hi _ hy := h.todo i hi ▸ hy

theorem Onward.trans (h : w.Onward w') (h' : w'.Onward w'') : w.Onward w'' where
  links p hp := h'.links p (h.links p hp)
  gap k hk := h'.gap k (h.gap k hk)
  size := Nat.le_trans h.size h'.size
  grows i b hb := by
    obtain ⟨new, hnew, hall⟩ := h.grows i b hb
    obtain ⟨newer, hnewer, hall'⟩ := h'.grows i _ hnew
    have hi : i < w.left.size := (Array.getElem?_eq_some_iff.mp hb).1
    refine ⟨newer ++ new, by rw [hnewer, List.append_assoc], fun y hy => ?_⟩
    rw [List.map_append, List.mem_append] at hy
    rcases hy with hy | hy
    · exact h.todo i hi y (hall' y hy)
    · exact hall y hy
  todo i hi y hy := h.todo i hi y (h'.todo i (Nat.lt_of_lt_of_le hi h.size) y hy)

end World

theorem Bindings.find?_eq_none_iff {y : Text} {b : Bindings} :
    b.find? y = none ↔ y ∉ b.map Prod.fst := by
  induction b with
  | nil => simp [Bindings.find?]
  | cons p b ih =>
    rw [Bindings.find?, List.map_cons, List.mem_cons, not_or]
    by_cases hp : p.1 = y
    · simp [hp]
    · simp [hp, ih, Ne.symm hp]

theorem Bindings.find?_append {y : Text} {new b : Bindings} (h : y ∉ new.map Prod.fst) :
    Bindings.find? y (new ++ b) = b.find? y := by
  induction new with
  | nil => rfl
  | cons p new ih =>
    rw [List.map_cons, List.mem_cons, not_or] at h
    rw [List.cons_append, Bindings.find?, if_neg (by simpa using Ne.symm h.1), ih h.2]

/-- Names may be related for the moment only; all else is related for good. -/
def Item.Lasts : Item → Prop
  | .name lasting .. => lasting = true
  | _ => True

namespace World

variable {w w' : World} {item : Item}

theorem Opens.onward {lasting : Bool} {y : Text} {frame : Frame} {b : Bindings}
    (h : w.Opens lasting y frame b) (hw : w.Onward w') (hlasts : lasting = true ∨ w.Steady w') :
    ∃ b', w'.Opens lasting y frame b' ∧ b'.find? y = b.find? y := by
  cases h with
  | own => exact ⟨b, .own, rfl⟩
  | @gap k _ hk hb hlast =>
    have hi : k < w.left.size := (Array.getElem?_eq_some_iff.mp hb).1
    have htodo : lasting = true → y ∉ w'.todo k := fun hl hy => hlast hl (hw.todo k hi y hy)
    rcases hlasts with hl | hsteady
    · obtain ⟨new, hnew, hall⟩ := hw.grows k b hb
      refine ⟨new ++ b, .gap (hw.gap k hk) hnew htodo, ?_⟩
      exact Bindings.find?_append fun hy => hlast hl (hall y hy)
    · exact ⟨b, .gap (hw.gap k hk) (hsteady.left k b hb) htodo, rfl⟩

/-- Two names that a linked frame does not bind: if it comes to bind the one for good, it binds the
other. -/
theorem Rel.linkedMissed_onward {lasting : Bool} {y y' : Text} {i i' : Nat} {b : Bindings}
    {scope scope' : Scope} (hlink : (i, i') ∈ w.links) (hb : w.left[i]? = some b)
    (hy : y ∉ b.map Prod.fst) (hy' : y' ∉ b.map Prod.fst)
    (hlast : lasting = true → y = y' ∨ y ∉ w.todo i ∧ y' ∉ w.todo i) (hw : w.Onward w')
    (hlasts : lasting = true ∨ w.Steady w') (houter : w'.Rel (.name lasting y scope y' scope')) :
    w'.Rel (.name lasting y (.shared i :: scope) y' (.shared i' :: scope')) := by
  have hi : i < w.left.size := (Array.getElem?_eq_some_iff.mp hb).1
  have hlast' : lasting = true → y = y' ∨ y ∉ w'.todo i ∧ y' ∉ w'.todo i := by
    intro hl
    rcases hlast hl with heq | ⟨hno, hno'⟩
    · exact Or.inl heq
    · exact Or.inr ⟨fun hmem => hno (hw.todo i hi y hmem), fun hmem => hno' (hw.todo i hi y' hmem)⟩
  rcases hlasts with hl | hsteady
  · obtain ⟨new, hnew, hall⟩ := hw.grows i b hb
    by_cases hmem : y = y' ∧ y ∈ new.map Prod.fst
    · -- the frame has come to bind the name, on both sides
      obtain ⟨rfl, hmem⟩ := hmem
      refine .linkedFound (hw.links _ hlink) hnew ?_
      rw [List.map_append]
      exact List.mem_append_left _ hmem
    · have hfresh : y ∉ new.map Prod.fst ∧ y' ∉ new.map Prod.fst := by
        rcases hlast hl with rfl | ⟨hno, hno'⟩
        · exact ⟨fun h => hmem ⟨rfl, h⟩, fun h => hmem ⟨rfl, h⟩⟩
        · exact ⟨fun h => hno (hall y h), fun h => hno' (hall y' h)⟩
      refine .linkedMissed (hw.links _ hlink) hnew ?_ ?_ hlast' houter
      · rw [List.map_append, List.mem_append, not_or]
        exact ⟨hfresh.1, hy⟩
      · rw [List.map_append, List.mem_append, not_or]
        exact ⟨hfresh.2, hy'⟩
  · exact .linkedMissed (hw.links _ hlink) (hsteady.left i b hb) hy hy' hlast' houter

/-- What is related stays so while no frame grows, and what is related for good stays so anyway. -/
theorem Rel.onward (h : w.Rel item) (hw : w.Onward w') (hlasts : item.Lasts ∨ w.Steady w') :
    w'.Rel item := by
  induction h with
  | flat h => exact .flat h
  | list h ih => exact .list (ih (Or.inl trivial))
  | vector h ih => exact .vector (ih (Or.inl trivial))
  | array h ih => exact .array (ih (Or.inl trivial))
  | map hkeys h ih => exact .map hkeys (ih (Or.inl trivial))
  | closure hbody hnames hscope ih =>
    exact .closure hbody (fun y y' hy => ih y y' hy (Or.inl rfl)) (hscope.mono hw.size)
  | nil => exact .nil
  | cons hv hvs ihv ihvs => exact .cons (ihv (Or.inl trivial)) (ihvs (Or.inl trivial))
  | builtin => exact .builtin
  | found hopens h h' hv ih =>
    obtain ⟨b, hb, hfind⟩ := hopens.onward hw hlasts
    exact .found hb (hfind.trans h) h' (ih (Or.inl trivial))
  | missed hopens h h' houter ih =>
    obtain ⟨b, hb, hfind⟩ := hopens.onward hw hlasts
    exact .missed hb (hfind.trans h) h' (ih hlasts)
  | linkedFound hlink hb hy =>
    obtain ⟨new, hnew, -⟩ := hw.grows _ _ hb
    refine .linkedFound (hw.links _ hlink) hnew ?_
    rw [List.map_append]
    exact List.mem_append_right _ hy
  | linkedMissed hlink hb hy hy' hlast houter ih =>
    exact .linkedMissed_onward hlink hb hy hy' hlast hw hlasts (ih hlasts)

theorem Rel.steady (h : w.Rel item) (hw : w.Steady w') : w'.Rel item :=
  h.onward hw.onward (Or.inr hw)

end World

/-! ## What can be seen of values -/

mutual

/-- The value without the insides of its closures. -/
def Value.erase : Value → Value
  | .list items => .list (Value.eraseAll items)
  | .vector items => .vector (Value.eraseAll items)
  | .array items => .array (Value.eraseAll items)
  | .map entries => .map (Value.eraseEntries entries)
  | .closure name params _ _ => .closure name params [] []
  | v => v

def Value.eraseAll : List Value → List Value
  | [] => []
  | v :: rest => v.erase :: Value.eraseAll rest

def Value.eraseEntries : List (Text × Value) → List (Text × Value)
  | [] => []
  | (k, v) :: rest => (k, v.erase) :: Value.eraseEntries rest

end

theorem Value.kind_erase (v : Value) : v.erase.kind = v.kind := by
  cases v <;> rfl

theorem Value.isTruthy_erase (v : Value) : v.erase.isTruthy = v.isTruthy := by
  cases v <;> rfl

/-- Messages do not show the insides of closures. -/
theorem Value.displayAs_erase (style : Style) (v : Value) :
    v.erase.displayAs style = v.displayAs style := by
  apply Value.erase.induct (fun v => v.erase.displayAs style = v.displayAs style)
    (fun b => Value.displayEntries style (Value.eraseEntries b) = Value.displayEntries style b)
    (fun vs => Value.displayAll style (Value.eraseAll vs) = Value.displayAll style vs)
  case case1 =>
    intro items ih
    rw [Value.erase, Value.displayAs, Value.displayAs, ih]
  case case2 =>
    intro items ih
    rw [Value.erase, Value.displayAs, Value.displayAs, ih]
  case case3 =>
    intro items ih
    rw [Value.erase, Value.displayAs, Value.displayAs, ih]
  case case4 =>
    intro entries ih
    rw [Value.erase, Value.displayAs, Value.displayAs, ih]
  case case5 =>
    intro name params body scope
    rw [Value.erase, Value.displayAs, Value.displayAs]
  case case6 =>
    intro v hlist hvector harray hmap hclosure
    rw [Value.erase] <;> assumption
  case case7 => rfl
  case case8 =>
    intro v rest ihv ihrest
    rw [Value.eraseAll, Value.displayAll, Value.displayAll, ihv, ihrest]
  case case9 => rfl
  case case10 =>
    intro k v rest ihv ihrest
    rw [Value.eraseEntries, Value.displayEntries, Value.displayEntries, ihv, ihrest]

theorem Value.eraseEntries_eq (b : Bindings) :
    Value.eraseEntries b = (b.map Prod.fst).zip (Value.eraseAll (b.map Prod.snd)) := by
  induction b with
  | nil => rfl
  | cons p b ih =>
    rw [Value.eraseEntries, ih]
    rfl

/-- What is related looks the same, and the first machine keeps the frames that it refers to. -/
def Item.Seen (n : Nat) : Item → Prop
  | .value v v' => v.erase = v'.erase ∧ v.Within n
  | .values vs vs' => Value.eraseAll vs = Value.eraseAll vs' ∧ Value.AllWithin n vs
  | .name .. => True

namespace World

variable {w : World}

theorem Rel.seen {item : Item} (h : w.Rel item) : item.Seen w.left.size := by
  induction h with
  | @flat v h =>
    refine ⟨rfl, ?_⟩
    cases v with
    | list | vector | array | map | closure => cases h
    | _ => exact trivial
  | list h ih => exact ⟨congrArg Value.list ih.1, ih.2⟩
  | vector h ih => exact ⟨congrArg Value.vector ih.1, ih.2⟩
  | array h ih => exact ⟨congrArg Value.array ih.1, ih.2⟩
  | map hkeys h ih =>
    refine ⟨congrArg Value.map ?_, Value.entriesWithin_iff.mpr (Value.allWithin_iff.mp ih.2)⟩
    rw [Value.eraseEntries_eq, Value.eraseEntries_eq, hkeys, ih.1]
  | closure hbody hnames hscope => exact ⟨rfl, hscope⟩
  | nil => exact ⟨rfl, trivial⟩
  | cons hv hvs ihv ihvs => exact ⟨congrArg₂ List.cons ihv.1 ihvs.1, ihv.2, ihvs.2⟩
  | builtin | found | missed | linkedFound | linkedMissed => trivial

section
variable {v v' : Value} {vs vs' : List Value}

theorem Rel.erase (h : w.Rel (.value v v')) : v.erase = v'.erase := h.seen.1

theorem Rel.kind (h : w.Rel (.value v v')) : v.kind = v'.kind := by
  rw [← v.kind_erase, h.erase, v'.kind_erase]

theorem Rel.isTruthy (h : w.Rel (.value v v')) : v.isTruthy = v'.isTruthy := by
  rw [← v.isTruthy_erase, h.erase, v'.isTruthy_erase]

theorem Rel.display (h : w.Rel (.value v v')) : v.display = v'.display := by
  rw [Value.display, Value.display, ← v.displayAs_erase, h.erase, v'.displayAs_erase]

theorem Rel.length_eq (h : w.Rel (.values vs vs')) : vs.length = vs'.length := by
  induction vs generalizing vs' with
  | nil =>
    cases h
    rfl
  | cons v vs ih =>
    cases h with
    | cons hv hvs => rw [List.length_cons, List.length_cons, ih hvs]

end

/-! ## Names in scopes -/

/-- Bindings whose names go together as given and whose values are related. -/
inductive Framed (w : World) : List (Text × Text) → Bindings → Bindings → Prop where
  | nil : Framed w [] [] []
  | cons {n n' : Text} {v v' : Value} {binders : List (Text × Text)} {b b' : Bindings}
      (hv : w.Rel (.value v v')) (h : Framed w binders b b') :
      Framed w ((n, n') :: binders) ((n, v) :: b) ((n', v') :: b')

section
variable {w' : World} {R : NameRel} {binders : List (Text × Text)} {b b' : Bindings} {y y' : Text}
  {vs vs' : List Value}

theorem Framed.onward (h : w.Framed binders b b') (hw : w.Onward w') : w'.Framed binders b b' := by
  induction h with
  | nil => exact .nil
  | cons hv h ih => exact .cons (hv.onward hw (Or.inl trivial)) ih

theorem Framed.names (h : w.Framed binders b b') : b.map Prod.fst = binders.map Prod.fst := by
  induction h with
  | nil => rfl
  | cons hv h ih => rw [List.map_cons, List.map_cons, ih]

theorem Framed.names' (h : w.Framed binders b b') : b'.map Prod.fst = binders.map Prod.snd := by
  induction h with
  | nil => rfl
  | cons hv h ih => rw [List.map_cons, List.map_cons, ih]

theorem Framed.values (h : w.Framed binders b b') :
    w.Rel (.values (b.map Prod.snd) (b'.map Prod.snd)) := by
  induction h with
  | nil => exact .nil
  | cons hv h ih => exact .cons hv ih

theorem Framed.within (h : w.Framed binders b b') : Value.EntriesWithin w.left.size b :=
  Value.entriesWithin_iff.mpr (Value.allWithin_iff.mp h.values.seen.2)

/-- Bindings of the same names. -/
theorem framed_of_keys (hkeys : b.map Prod.fst = b'.map Prod.fst)
    (hvalues : w.Rel (.values (b.map Prod.snd) (b'.map Prod.snd))) :
    w.Framed (sameNames (b.map Prod.fst)) b b' := by
  induction b generalizing b' with
  | nil =>
    cases b' with
    | nil => exact .nil
    | cons p' b' => cases hkeys
  | cons p b ih =>
    cases b' with
    | nil => cases hkeys
    | cons p' b' =>
      obtain ⟨n, v⟩ := p
      obtain ⟨n', v'⟩ := p'
      obtain ⟨rfl, hrest⟩ := List.cons.inj hkeys
      cases hvalues with
      | cons hv hvs => exact .cons hv (ih hrest hvs)

/-- Names that belong together have related values, or neither is bound. -/
theorem Framed.find (h : w.Framed binders b b') (hy : R.under binders y y') :
    (∃ v v', b.find? y = some v ∧ b'.find? y' = some v' ∧ w.Rel (.value v v'))
      ∨ b.find? y = none ∧ b'.find? y' = none ∧ R y y' := by
  induction h with
  | nil => exact Or.inr ⟨rfl, rfl, hy⟩
  | @cons n n' v v' binders b b' hv h ih =>
    rcases hy with ⟨rfl, rfl⟩ | ⟨hn, hn', hy⟩
    · refine Or.inl ⟨v, v', ?_, ?_, hv⟩
      · rw [Bindings.find?, if_pos (beq_self_eq_true y)]
      · rw [Bindings.find?, if_pos (beq_self_eq_true y')]
    · rw [Bindings.find?, if_neg (by simpa using Ne.symm hn), Bindings.find?,
        if_neg (by simpa using Ne.symm hn')]
      exact ih hy

theorem Framed.bindAll {outer : List (Text × Text)} (hb : w.Framed outer b b')
    (hvs : w.Rel (.values vs vs')) (hlength : vs.length = binders.length) :
    w.Framed (binders.reverse ++ outer) (bindAll b (binders.map Prod.fst) vs)
      (bindAll b' (binders.map Prod.snd) vs') := by
  induction binders generalizing outer b b' vs vs' with
  | nil =>
    rw [List.length_nil, List.length_eq_zero_iff] at hlength
    subst hlength
    cases hvs
    exact hb
  | cons p binders ih =>
    obtain ⟨n, n'⟩ := p
    cases hvs with
    | nil => cases hlength
    | cons hv hvs =>
      rw [List.reverse_cons, List.append_assoc]
      exact ih (.cons hv hb) hvs (Nat.succ.inj hlength)

end

/-- Names that belong together are related in the two scopes, by the first relation for the moment and
by the second for good. -/
structure Sees (w : World) (P Q : NameRel) (scope scope' : Scope) : Prop where
  now : ∀ y y', P y y' → w.Rel (.name false y scope y' scope')
  later : ∀ y y', Q y y' → w.Rel (.name true y scope y' scope')
  within : Frame.AllWithin w.left.size scope

section
variable {w' : World} {P Q : NameRel} {scope scope' : Scope} {binders : List (Text × Text)}
  {b b' : Bindings} {y y' : Text}

theorem Sees.steady (h : w.Sees P Q scope scope') (hw : w.Steady w') :
    w'.Sees P Q scope scope' where
  now y y' hy := (h.now y y' hy).steady hw
  later y y' hy := (h.later y y' hy).steady hw
  within := h.within.mono hw.size

/-- Names in a frame that the second run has as its own. -/
theorem Rel.opened {R : NameRel} {lasting : Bool} {frame : Frame}
    (hopens : w.Opens lasting y frame b) (hb : w.Framed binders b b') (hy : R.under binders y y')
    (houter : R y y' → w.Rel (.name lasting y scope y' scope')) :
    w.Rel (.name lasting y (frame :: scope) y' (.own b' :: scope')) := by
  rcases hb.find hy with ⟨v, v', h, h', hv⟩ | ⟨h, h', hR⟩
  · exact .found hopens h h' hv
  · exact .missed hopens h h' (houter hR)

/-- Inside frames of their own, the binders of these are visible as well. -/
theorem Sees.own (h : w.Sees P Q scope scope') (hb : w.Framed binders b b') :
    w.Sees (P.under binders) (Q.under binders) (.own b :: scope) (.own b' :: scope') where
  now y y' hy := .opened .own hb hy (h.now y y')
  later y y' hy := .opened .own hb hy (h.later y y')
  within := ⟨hb.within, h.within⟩

/-- Inside the frame that only the first machine keeps, functions may use the names that are not to
come to it. -/
theorem Sees.gap {k : Nat} (h : w.Sees P Q scope scope') (hk : w.gap = some k)
    (hleft : w.left[k]? = some b) (hb : w.Framed binders b b') :
    w.Sees (P.under binders) (fun y y' => y ∉ w.todo k ∧ Q.under binders y y')
      (.shared k :: scope) (.own b' :: scope') where
  now y y' hy := .opened (.gap hk hleft Bool.noConfusion) hb hy (h.now y y')
  later y y' hy := .opened (.gap hk hleft fun _ => hy.1) hb hy.2 (h.later y y')
  within := ⟨(Array.getElem?_eq_some_iff.mp hleft).1, h.within⟩

/-- Inside a frame that both machines keep, functions may use different names for each other if
neither is to come to it. -/
theorem Sees.linked {i i' : Nat} {names : List Text} (h : w.Sees P Q scope scope')
    (hlink : (i, i') ∈ w.links) (hleft : w.left[i]? = some b)
    (hnames : ∀ y ∈ w.todo i, y ∈ names) :
    w.Sees (P.under (sameNames (b.map Prod.fst))) ((Q.clear names).under (sameNames (b.map Prod.fst)))
      (.shared i :: scope) (.shared i' :: scope') where
  now y y' hy := by
    rcases NameRel.under_sameNames_iff.mp hy with ⟨rfl, hmem⟩ | ⟨hno, hno', hP⟩
    · exact .linkedFound hlink hleft hmem
    · exact .linkedMissed hlink hleft hno hno' Bool.noConfusion (h.now y y' hP)
  later y y' hy := by
    rcases NameRel.under_sameNames_iff.mp hy with ⟨rfl, hmem⟩ | ⟨hno, hno', hQ, hclear⟩
    · exact .linkedFound hlink hleft hmem
    · refine .linkedMissed hlink hleft hno hno' (fun _ => ?_) (h.later y y' hQ)
      rcases hclear with heq | ⟨hout, hout'⟩
      · exact Or.inl heq
      · exact Or.inr ⟨fun hmem => hout (hnames y hmem), fun hmem => hout' (hnames y' hmem)⟩
  within := ⟨(Array.getElem?_eq_some_iff.mp hleft).1, h.within⟩

/-- Inside a frame that only the first machine keeps and that is complete, functions may use all
names. -/
theorem Sees.completeGap {k : Nat} (h : w.Sees P Q scope scope') (hk : w.gap = some k)
    (hleft : w.left[k]? = some b) (htodo : w.todo k = []) (hb : w.Framed binders b b') :
    w.Sees (P.under binders) (Q.under binders) (.shared k :: scope) (.own b' :: scope') := by
  have hgap := h.gap hk hleft hb
  rw [htodo] at hgap
  exact ⟨hgap.now, fun y y' hy => hgap.later y y' ⟨List.not_mem_nil, hy⟩, hgap.within⟩

theorem Sees.completeLink {i i' : Nat} (h : w.Sees P Q scope scope') (hlink : (i, i') ∈ w.links)
    (hleft : w.left[i]? = some b) (htodo : w.todo i = []) :
    w.Sees (P.under (sameNames (b.map Prod.fst))) (Q.under (sameNames (b.map Prod.fst)))
      (.shared i :: scope) (.shared i' :: scope') := by
  have hnames : ∀ y ∈ w.todo i, y ∈ ([] : List Text) := fun y hy => htodo ▸ hy
  have hlinked := h.linked hlink hleft hnames
  have hclear : ∀ y y', Q y y' → Q.clear [] y y' := fun y y' hy =>
    ⟨hy, Or.inr ⟨List.not_mem_nil, List.not_mem_nil⟩⟩
  exact ⟨hlinked.now, fun y y' hy => hlinked.later y y' (NameRel.under_mono hclear hy),
    hlinked.within⟩

end

/-- The frames of two loops that have all their names: both have them as their own, or only the second
one has, or both machines keep them. -/
inductive RelFrame (w : World) (binders : List (Text × Text)) : Frame → Frame → Prop where
  | own {b b' : Bindings} (h : w.Framed binders b b') : RelFrame w binders (.own b) (.own b')
  | gap {k : Nat} {b b' : Bindings} (hk : w.gap = some k) (hleft : w.left[k]? = some b)
      (htodo : w.todo k = []) (h : w.Framed binders b b') :
      RelFrame w binders (.shared k) (.own b')
  | linked {i i' : Nat} {b : Bindings} (hlink : (i, i') ∈ w.links) (hleft : w.left[i]? = some b)
      (htodo : w.todo i = []) (hnames : sameNames (b.map Prod.fst) = binders) :
      RelFrame w binders (.shared i) (.shared i')

/-- Inside such frames the names of the loops are visible as well. -/
theorem RelFrame.sees {P Q : NameRel} {scope scope' : Scope} {binders : List (Text × Text)}
    {frame frame' : Frame} (h : w.RelFrame binders frame frame') (hs : w.Sees P Q scope scope') :
    w.Sees (P.under binders) (Q.under binders) (frame :: scope) (frame' :: scope') := by
  cases h with
  | own h => exact hs.own h
  | gap hk hleft htodo h => exact hs.completeGap hk hleft htodo h
  | linked hlink hleft htodo hnames =>
    rw [← hnames]
    exact hs.completeLink hlink hleft htodo

end World

/-- The same item, for the moment. -/
def Item.now : Item → Item
  | .name _ y scope y' scope' => .name false y scope y' scope'
  | item => item

namespace World

variable {w : World}

theorem Opens.now {lasting : Bool} {y : Text} {frame : Frame} {b : Bindings}
    (h : w.Opens lasting y frame b) : w.Opens false y frame b := by
  cases h with
  | own => exact .own
  | gap hk hb hlast => exact .gap hk hb Bool.noConfusion

/-- What is related for good is related now. -/
theorem Rel.now {item : Item} (h : w.Rel item) : w.Rel item.now := by
  induction h with
  | flat h => exact .flat h
  | list h => exact .list h
  | vector h => exact .vector h
  | array h => exact .array h
  | map hkeys h => exact .map hkeys h
  | closure hbody hnames hscope => exact .closure hbody hnames hscope
  | nil => exact .nil
  | cons hv hvs => exact .cons hv hvs
  | builtin => exact .builtin
  | found hopens h h' hv => exact .found hopens.now h h' hv
  | missed hopens h h' houter ih => exact .missed hopens.now h h' ih
  | linkedFound hlink hb hy => exact .linkedFound hlink hb hy
  | linkedMissed hlink hb hy hy' hlast houter ih =>
    exact .linkedMissed hlink hb hy hy' Bool.noConfusion ih

end World

end Denotation
