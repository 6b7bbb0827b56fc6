import Denotation.Proofs.Worlds

/-!
# Sound worlds

In a sound world linked frames have the same names and related values. Worlds change in three ways,
and stay sound: both machines get a new frame, only the first one does, or a frame grows by the name
that was to come to it next.

A machine beside itself is in a sound world, as long as its frames refer to no frames but each other.
-/

namespace Denotation

namespace World

/-- Every frame of the first machine is linked to one frame of the second with the same names and
related values, or it is the gap. -/
structure Sound (w : World) : Prop where
  linked : ∀ i i', (i, i') ∈ w.links → ∃ b b', w.left[i]? = some b ∧ w.right[i']? = some b' ∧
    w.Framed (sameNames (b.map Prod.fst)) b b'
  single : ∀ i i' j j', (i, i') ∈ w.links → (j, j') ∈ w.links → (i = j ↔ i' = j')
  apart : ∀ k i', w.gap = some k → (k, i') ∉ w.links
  gap : ∀ k, w.gap = some k → ∃ b, w.left[k]? = some b ∧ Value.EntriesWithin w.left.size b
  all : ∀ i, i < w.left.size → w.gap = some i ∨ ∃ i', (i, i') ∈ w.links

/-- Both machines have a new frame. -/
def withLink (w : World) (names : List Text) : World :=
  { w with
    left := w.left.push []
    right := w.right.push []
    links := (w.left.size, w.right.size) :: w.links
    todo := fun i => if i = w.left.size then names else w.todo i }

/-- The first machine has a new frame. -/
def withGap (w : World) (names : List Text) : World :=
  { w with
    left := w.left.push []
    gap := some w.left.size
    todo := fun i => if i = w.left.size then names else w.todo i }

/-- A frame of the first machine has a new binding. -/
def grow (w : World) (i : Nat) (p : Text × Value) (names : List Text) (right : Array Bindings) :
    World :=
  { w with
    left := w.left.modify i fun b => p :: b
    right := right
    todo := fun j => if j = i then names else w.todo j }

section
variable {w w' : World} {names : List Text} {i i' k : Nat} {n : Text} {v v' : Value}
  {p : Text × Value} {right : Array Bindings}

theorem Sound.lt (h : w.Sound) (hlink : (i, i') ∈ w.links) : i < w.left.size ∧ i' < w.right.size := by
  obtain ⟨b, b', hb, hb', -⟩ := h.linked i i' hlink
  exact ⟨(Array.getElem?_eq_some_iff.mp hb).1, (Array.getElem?_eq_some_iff.mp hb').1⟩

theorem getElem?_push_of_some {frames : Array Bindings} {b c : Bindings} (h : frames[i]? = some b) :
    (frames.push c)[i]? = some b := by
  have hi : i < frames.size := (Array.getElem?_eq_some_iff.mp h).1
  rw [Array.getElem?_push, if_neg (Nat.ne_of_lt hi), h]

theorem steady_withLink : w.Steady (w.withLink names) where
  links p hp := List.mem_cons_of_mem _ hp
  gap k hk := hk
  size := by simp [withLink]
  left i b hb := getElem?_push_of_some hb
  todo i hi := if_neg (Nat.ne_of_lt hi)

theorem Sound.withLink (h : w.Sound) : (w.withLink names).Sound where
  linked i i' hlink := by
    rcases List.mem_cons.mp hlink with hnew | hold
    · cases hnew
      exact ⟨[], [], Array.getElem?_push_size, Array.getElem?_push_size, .nil⟩
    · obtain ⟨b, b', hb, hb', hframed⟩ := h.linked i i' hold
      exact ⟨b, b', getElem?_push_of_some hb, getElem?_push_of_some hb',
        hframed.onward steady_withLink.onward⟩
  single i i' j j' hi hj := by
    rcases List.mem_cons.mp hi with hi | hi <;> rcases List.mem_cons.mp hj with hj | hj
    · cases hi
      cases hj
      simp
    · cases hi
      have hlt := h.lt hj
      omega
    · cases hj
      have hlt := h.lt hi
      omega
    · exact h.single i i' j j' hi hj
  apart k i' hk hlink := by
    rcases List.mem_cons.mp hlink with hnew | hold
    · cases hnew
      obtain ⟨b, hb, -⟩ := h.gap _ hk
      exact absurd (Array.getElem?_eq_some_iff.mp hb).1 (Nat.lt_irrefl _)
    · exact h.apart k i' hk hold
  gap k hk := by
    obtain ⟨b, hb, hwithin⟩ := h.gap k hk
    exact ⟨b, getElem?_push_of_some hb, hwithin.mono steady_withLink.size⟩
  all i hi := by
    rw [World.withLink, Array.size_push] at hi
    by_cases hsize : i = w.left.size
    · exact Or.inr ⟨w.right.size, List.mem_cons.mpr (Or.inl (by rw [hsize]))⟩
    · rcases h.all i (by omega) with hgap | ⟨i', hlink⟩
      · exact Or.inl hgap
      · exact Or.inr ⟨i', List.mem_cons_of_mem _ hlink⟩

theorem steady_withGap (h : w.gap = none) : w.Steady (w.withGap names) where
  links p hp := hp
  gap k hk := by rw [h] at hk; cases hk
  size := by simp [withGap]
  left i b hb := getElem?_push_of_some hb
  todo i hi := if_neg (Nat.ne_of_lt hi)

theorem Sound.withGap (h : w.Sound) (hgap : w.gap = none) : (w.withGap names).Sound where
  linked i i' hlink := by
    obtain ⟨b, b', hb, hb', hframed⟩ := h.linked i i' hlink
    exact ⟨b, b', getElem?_push_of_some hb, hb', hframed.onward (steady_withGap hgap).onward⟩
  single := h.single
  apart k i' hk hlink := by
    cases hk
    exact Nat.lt_irrefl _ (h.lt hlink).1
  gap k hk := by
    cases hk
    exact ⟨[], Array.getElem?_push_size, trivial⟩
  all i hi := by
    rw [World.withGap, Array.size_push] at hi
    by_cases hsize : i = w.left.size
    · exact Or.inl (by rw [hsize]; rfl)
    · rcases h.all i (by omega) with hold | hlink
      · rw [hgap] at hold
        cases hold
      · exact Or.inr hlink

theorem getElem?_grow_of_ne {j : Nat} (h : j ≠ i) :
    (w.grow i p names right).left[j]? = w.left[j]? := by
  rw [grow, Array.getElem?_modify, if_neg (Ne.symm h)]

theorem getElem?_grow_self {b : Bindings} (h : w.left[i]? = some b) :
    (w.grow i p names right).left[i]? = some (p :: b) := by
  rw [grow, Array.getElem?_modify, if_pos rfl, h, Option.map_some]

theorem size_left_grow : (w.grow i p names right).left.size = w.left.size := Array.size_modify

theorem todo_grow (j : Nat) :
    (w.grow i p names right).todo j = if j = i then names else w.todo j := rfl

theorem onward_grow (h : w.todo i = n :: names) : w.Onward (w.grow i (n, v) names right) where
  links p hp := hp
  gap k hk := hk
  size := Nat.le_of_eq size_left_grow.symm
  grows j b hb := by
    by_cases hj : j = i
    · subst hj
      refine ⟨[(n, v)], getElem?_grow_self hb, fun y hy => ?_⟩
      rw [h]
      exact List.mem_cons.mpr (Or.inl (List.mem_singleton.mp hy))
    · exact ⟨[], (getElem?_grow_of_ne hj).trans hb, fun y hy => absurd hy List.not_mem_nil⟩
  todo j hj y hy := by
    by_cases hji : j = i
    · rw [todo_grow, if_pos hji] at hy
      rw [hji, h]
      exact List.mem_cons_of_mem _ hy
    · rwa [todo_grow, if_neg hji] at hy

/-- A frame that is not yet there may still grow. -/
theorem Steady.grow (h : w.Steady w') (hi : w.left.size ≤ i) :
    w.Steady (w'.grow i p names right) where
  links p hp := h.links p hp
  gap k hk := h.gap k hk
  size := Nat.le_trans h.size (Nat.le_of_eq size_left_grow.symm)
  left j b hb := by
    have hj : j < w.left.size := (Array.getElem?_eq_some_iff.mp hb).1
    rw [getElem?_grow_of_ne (by omega)]
    exact h.left j b hb
  todo j hj := by
    rw [todo_grow, if_neg (by omega)]
    exact h.todo j hj

/-- What a binding does to the frame that it was to come to. -/
theorem grow_spec {b : Bindings} (hw : w.Steady w') (hi : w.left.size ≤ i) (hb : w'.left[i]? = some b)
    (htodo : w'.todo i = n :: names) :
    w'.Onward (w'.grow i (n, v) names right) ∧ w.Steady (w'.grow i (n, v) names right) ∧
      (w'.grow i (n, v) names right).left[i]? = some ((n, v) :: b) ∧
      (w'.grow i (n, v) names right).todo i = names :=
  ⟨onward_grow htodo, hw.grow hi, getElem?_grow_self hb, if_pos rfl⟩

theorem Sound.growLinked (h : w.Sound) (hlink : (i, i') ∈ w.links) (htodo : w.todo i = n :: names)
    (hv : w.Rel (.value v v')) :
    (w.grow i (n, v) names (w.right.modify i' fun b => (n, v') :: b)).Sound where
  linked j j' hj := by
    obtain ⟨b, b', hb, hb', hframed⟩ := h.linked j j' hj
    have hright : (w.grow i (n, v) names (w.right.modify i' fun b => (n, v') :: b)).right[j']?
        = if i' = j' then some ((n, v') :: b') else some b' := by
      rw [World.grow, Array.getElem?_modify, hb', Option.map_some]
    have hsame := h.single i i' j j' hlink hj
    by_cases hij : i = j
    · subst hij
      rw [if_pos (hsame.mp rfl)] at hright
      exact ⟨_, _, getElem?_grow_self hb, hright,
        .cons (hv.onward (onward_grow htodo) (Or.inl trivial)) (hframed.onward (onward_grow htodo))⟩
    · rw [if_neg fun h => hij (hsame.mpr h)] at hright
      exact ⟨b, b', (getElem?_grow_of_ne (Ne.symm hij)).trans hb, hright,
        hframed.onward (onward_grow htodo)⟩
  single := h.single
  apart := h.apart
  gap k hk := by
    obtain ⟨b, hb, hwithin⟩ := h.gap k hk
    have hki : k ≠ i := by
      rintro rfl
      exact h.apart k i' hk hlink
    exact ⟨b, (getElem?_grow_of_ne hki).trans hb, by rwa [size_left_grow]⟩
  all j hj := h.all j (by rwa [size_left_grow] at hj)

theorem Sound.growGap (h : w.Sound) (hk : w.gap = some k) (htodo : w.todo k = n :: names)
    (hv : v.Within w.left.size) : (w.grow k (n, v) names w.right).Sound where
  linked j j' hj := by
    obtain ⟨b, b', hb, hb', hframed⟩ := h.linked j j' hj
    have hjk : j ≠ k := by
      rintro rfl
      exact h.apart j j' hk hj
    exact ⟨b, b', (getElem?_grow_of_ne hjk).trans hb, hb', hframed.onward (onward_grow htodo)⟩
  single := h.single
  apart := h.apart
  gap j hj := by
    cases hk.symm.trans hj
    obtain ⟨b, hb, hwithin⟩ := h.gap k hk
    refine ⟨(n, v) :: b, getElem?_grow_self hb, ?_⟩
    rw [size_left_grow]
    exact ⟨hv, hwithin⟩
  all j hj := h.all j (by rwa [size_left_grow] at hj)

end

/-! ## One machine beside itself -/

/-- Every frame is linked to itself, and nothing is to come. -/
def diagonal (frames : Array Bindings) : World where
  left := frames
  right := frames
  links := (List.range frames.size).map fun i => (i, i)
  gap := none
  todo := fun _ => []

section
variable {frames : Array Bindings} {i i' : Nat} {y : Text}

theorem mem_links_diagonal : (i, i') ∈ (diagonal frames).links ↔ i < frames.size ∧ i = i' := by
  simp only [diagonal, List.mem_map, List.mem_range, Prod.mk.injEq]
  constructor
  · rintro ⟨j, hj, rfl, rfl⟩
    exact ⟨hj, rfl⟩
  · rintro ⟨hi, rfl⟩
    exact ⟨i, hi, rfl, rfl⟩

theorem rel_self_shared {lasting : Bool} {scope : Scope} (hi : i < frames.size)
    (h : (diagonal frames).Rel (.name lasting y scope y scope)) :
    (diagonal frames).Rel (.name lasting y (.shared i :: scope) y (.shared i :: scope)) := by
  have hlink : (i, i) ∈ (diagonal frames).links := mem_links_diagonal.mpr ⟨hi, rfl⟩
  have hleft : (diagonal frames).left[i]? = some frames[i] := Array.getElem?_eq_getElem hi
  by_cases hy : y ∈ frames[i].map Prod.fst
  · exact .linkedFound hlink hleft hy
  · exact .linkedMissed hlink hleft hy hy (fun _ => Or.inl rfl) h

theorem rel_self_own {lasting : Bool} {scope : Scope} {b : Bindings}
    (hb : (diagonal frames).Rel (.values (b.map Prod.snd) (b.map Prod.snd)))
    (h : (diagonal frames).Rel (.name lasting y scope y scope)) :
    (diagonal frames).Rel (.name lasting y (.own b :: scope) y (.own b :: scope)) := by
  have hy : NameRel.under (fun _ _ => True) (sameNames (b.map Prod.fst)) y y :=
    NameRel.under_sameNames_self trivial
  exact .opened .own (framed_of_keys rfl hb) hy fun _ => h

/-- What refers only to frames of the machine is related to itself. -/
theorem rel_self (v : Value) : v.Within frames.size → (diagonal frames).Rel (.value v v) := by
  apply Value.Within.induct (fun v => v.Within frames.size → (diagonal frames).Rel (.value v v))
    (fun scope => Frame.AllWithin frames.size scope →
      ∀ y lasting, (diagonal frames).Rel (.name lasting y scope y scope))
    (fun frame => frame.Within frames.size → ∀ y lasting scope,
      (diagonal frames).Rel (.name lasting y scope y scope) →
        (diagonal frames).Rel (.name lasting y (frame :: scope) y (frame :: scope)))
    (fun b => Value.EntriesWithin frames.size b →
      (diagonal frames).Rel (.values (b.map Prod.snd) (b.map Prod.snd)))
    (fun vs => Value.AllWithin frames.size vs → (diagonal frames).Rel (.values vs vs))
  case case1 => exact fun items ih h => .list (ih h)
  case case2 => exact fun items ih h => .vector (ih h)
  case case3 => exact fun items ih h => .array (ih h)
  case case4 => exact fun entries ih h => .map rfl (ih h)
  case case5 =>
    intro name params body scope ih h
    have hsame : ∀ y, NameRel.under Eq (sameNames (params.reverse ++ name.toList)) y y := fun y =>
      NameRel.under_sameNames_self rfl
    refine .closure (Form.allMatch_self body hsame hsame) (fun y y' hy => ?_) h
    subst hy
    exact ih h y true
  case case6 =>
    intro v hlist hvector harray hmap hclosure h
    refine .flat ?_
    grind [Value.isFlat]
  case case7 => exact fun bindings ih h y lasting scope houter => rel_self_own (ih h) houter
  case case8 => exact fun number h y lasting scope houter => rel_self_shared h houter
  case case9 => exact fun h => .nil
  case case10 => exact fun v rest ihv ihrest h => .cons (ihv h.1) (ihrest h.2)
  case case11 => exact fun h => .nil
  case case12 => exact fun name v rest ihv ihrest h => .cons (ihv h.1) (ihrest h.2)
  case case13 => exact fun h y lasting => .builtin
  case case14 =>
    exact fun frame rest ihframe ihrest h y lasting => ihframe h.1 y lasting rest (ihrest h.2 y lasting)

theorem rel_self_values {b : Bindings} (h : Value.EntriesWithin frames.size b) :
    (diagonal frames).Rel (.values (b.map Prod.snd) (b.map Prod.snd)) := by
  induction b with
  | nil => exact .nil
  | cons p b ih => exact .cons (rel_self p.2 h.1) (ih h.2)

theorem sees_self {scope : Scope} (h : Frame.AllWithin frames.size scope) :
    (diagonal frames).Sees Eq Eq scope scope := by
  have hnames : ∀ lasting y, (diagonal frames).Rel (.name lasting y scope y scope) := by
    intro lasting y
    induction scope with
    | nil => exact .builtin
    | cons frame scope ih =>
      cases frame with
      | own b => exact rel_self_own (rel_self_values h.1) (ih h.2)
      | shared i => exact rel_self_shared h.1 (ih h.2)
  exact ⟨fun y y' hy => hy ▸ hnames false y, fun y y' hy => hy ▸ hnames true y, h⟩

end

end World

/-- The frames of the machine refer to no frames but those. -/
def Machine.Closed (m : Machine) : Prop :=
  ∀ (i : Nat) (b : Bindings), m.frames[i]? = some b → Value.EntriesWithin m.frames.size b

namespace World

/-- The machines have the frames of the world, and do not differ in anything else. -/
structure Holds (w : World) (m m' : Machine) : Prop where
  left : m.frames = w.left
  right : m'.frames = w.right
  cap : m.cap = m'.cap
  counter : m.counter = m'.counter
  cancelled : m.cancelled = m'.cancelled
  sound : w.Sound

theorem Holds.rounds {w : World} {m m' : Machine} (h : w.Holds m m') : m.rounds = m'.rounds :=
  congrArg Int64.toInt h.counter

theorem holds_self {m : Machine} (h : m.Closed) : (diagonal m.frames).Holds m m where
  left := rfl
  right := rfl
  cap := rfl
  counter := rfl
  cancelled := rfl
  sound :=
    { linked := by
        intro i i' hlink
        obtain ⟨hi, rfl⟩ := mem_links_diagonal.mp hlink
        have hleft : m.frames[i]? = some m.frames[i] := Array.getElem?_eq_getElem hi
        exact ⟨_, _, hleft, hleft, framed_of_keys rfl (rel_self_values (h i _ hleft))⟩
      single := by
        intro i i' j j' hi hj
        rw [(mem_links_diagonal.mp hi).2, (mem_links_diagonal.mp hj).2]
      apart := fun k i' hk => by cases hk
      gap := fun k hk => by cases hk
      all := fun i hi => Or.inr ⟨i, mem_links_diagonal.mpr ⟨hi, rfl⟩⟩ }

/-- The frames of the first machine are closed. -/
theorem Holds.closed {w : World} {m m' : Machine} (h : w.Holds m m') : m.Closed := by
  intro i b hb
  rw [h.left] at hb ⊢
  have hi : i < w.left.size := (Array.getElem?_eq_some_iff.mp hb).1
  rcases h.sound.all i hi with hgap | ⟨i', hlink⟩
  · obtain ⟨c, hc, hwithin⟩ := h.sound.gap i hgap
    cases hb.symm.trans hc
    exact hwithin
  · obtain ⟨c, c', hc, -, hframed⟩ := h.sound.linked i i' hlink
    cases hb.symm.trans hc
    exact hframed.within

end World

end Denotation
