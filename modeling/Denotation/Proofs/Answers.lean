import Denotation.Execution.Interpreter
import Denotation.Proofs.Environments
import Denotation.Proofs.Numerals

/-!
# Numbers in the answers of interpreters

The answer of an interpreter is JSON, and its numbers are kept by their spelling until they are made
integers. A number is reached through keys and places in arrays, and only those that are reached
through keys alone are made integers: what stands inside an array is left as it is, whether it is an
integer or not. Of members with one key the last counts, so a number in an earlier one is not looked
at either.
-/

namespace Denotation

/-! ## Places in a value -/

/-- A step into a value: to the member of a key, or to an item of an array. -/
inductive Access where
  | key (k : Text)
  | item (i : Nat)

/-- No step of the path leads into an array. -/
def ThroughKeys (path : List Access) : Prop := ∀ i, .item i ∉ path

/-- What the last pair of a key holds. -/
def lastOf? {α : Type} (k : Text) : List (Text × α) → Option α
  | [] => none
  | (k', a) :: rest => (lastOf? k rest).or (if k' == k then some a else none)

theorem mem_of_lastOf? {α : Type} {k : Text} {a : α} {l : List (Text × α)}
    (h : lastOf? k l = some a) : (k, a) ∈ l := by
  induction l with
  | nil => cases h
  | cons p l ih =>
    obtain ⟨k', a'⟩ := p
    rw [lastOf?, Option.or_eq_some_iff] at h
    rcases h with h | ⟨-, h⟩
    · exact List.mem_cons_of_mem _ (ih h)
    · obtain ⟨hk, ha⟩ := Option.ite_none_right_eq_some.mp h
      rw [eq_of_beq hk, Option.some.inj ha]
      exact List.mem_cons_self

/-- What stands at the end of a path; of members with one key the last counts. -/
def Json.at? : Json → List Access → Option Json
  | j, [] => some j
  | .object members, .key k :: path => (lastOf? k members).bind fun j => j.at? path
  | .array items, .item i :: path => items[i]?.bind fun j => j.at? path
  | _, _ :: _ => none

/-- What stands at the end of a path. -/
def Value.at? : Value → List Access → Option Value
  | v, [] => some v
  | .map entries, .key k :: path => (Bindings.find? k entries).bind fun v => v.at? path
  | .array items, .item i :: path => items[i]?.bind fun v => v.at? path
  | .list items, .item i :: path => items[i]?.bind fun v => v.at? path
  | .vector items, .item i :: path => items[i]?.bind fun v => v.at? path
  | _, _ :: _ => none

/-- The number stands somewhere in the value, also where a later member hides it. -/
inductive Json.Contains (t : Text) : Json → Prop where
  | number : Contains t (.number t)
  | item {items : List Json} {j : Json} (hj : j ∈ items) (h : Contains t j) :
      Contains t (.array items)
  | member {members : List (Text × Json)} {k : Text} {j : Json} (hj : (k, j) ∈ members)
      (h : Contains t j) : Contains t (.object members)

/-- The text is a signed 64-bit integer in decimal. -/
def Text.IsInt64 (t : Text) : Prop := ∃ n : Int64, t.IsInteger n.toInt

theorem Text.isInt64_iff {t : Text} : t.IsInt64 ↔ Text.toInt64? t ≠ none := by
  rw [Option.ne_none_iff_exists']
  exact exists_congr fun n => Text.toInt64?_eq_some_iff.symm

/-! ## Numbers by their spelling -/

namespace Bindings

theorem find?_foldl_insert (l : List (Text × Value)) (b : Bindings) (k : Text) :
    (l.foldl (fun b p => b.insert p.1 p.2) b).find? k = (lastOf? k l).or (b.find? k) := by
  induction l generalizing b with
  | nil => rfl
  | cons p l ih =>
    obtain ⟨k', v⟩ := p
    have hinsert : (b.insert k' v).find? k = (if k' == k then some v else none).or (b.find? k) := by
      have hstore := congrFun (store_insert k' v b) k
      by_cases hk : k' = k
      · subst hk
        simpa [store] using hstore
      · have hne : ¬ (k' == k) = true := by simpa using hk
        rw [Function.update_of_ne (Ne.symm hk)] at hstore
        rw [if_neg hne]
        exact hstore
    rw [List.foldl_cons, ih, hinsert, lastOf?, Option.or_assoc]

/-- Bindings put in order give a name its last value. -/
theorem find?_ofList (l : List (Text × Value)) (k : Text) : (ofList l).find? k = lastOf? k l := by
  have h := find?_foldl_insert l [] k
  rw [find?, Option.or_none] at h
  exact h

theorem ordered_ofList (l : List (Text × Value)) : (ofList l).Ordered := by
  have h : ∀ b : Bindings, b.Ordered → Ordered (l.foldl (fun b p => b.insert p.1 p.2) b) := by
    intro b hb
    induction l generalizing b with
    | nil => exact hb
    | cons p l ih => exact ih _ (hb.insert p.1 p.2)
  exact h [] List.Pairwise.nil

end Bindings

namespace Value

theorem allOfRawJson_eq_map (items : List Json) : allOfRawJson items = items.map ofRawJson := by
  induction items with
  | nil => rfl
  | cons j items ih => rw [allOfRawJson, ih, List.map_cons]

theorem lastOf?_membersOfRawJson (k : Text) (members : List (Text × Json)) :
    lastOf? k (membersOfRawJson members) = (lastOf? k members).map ofRawJson := by
  induction members with
  | nil => rfl
  | cons m members ih =>
    obtain ⟨k', j⟩ := m
    rw [membersOfRawJson, lastOf?, lastOf?, ih, Option.map_or]
    by_cases hk : (k' == k) = true
    · rw [if_pos hk, if_pos hk]
      rfl
    · rw [if_neg hk, if_neg hk]
      rfl

/-- A path leads to the same place in a JSON value and in the value with its numbers spelled. -/
theorem at?_ofRawJson (j : Json) (path : List Access) :
    (ofRawJson j).at? path = (j.at? path).map ofRawJson := by
  induction path generalizing j with
  | nil => rfl
  | cons step path ih =>
    cases j with
    | null | bool | number | string => cases step <;> rfl
    | array items =>
      cases step with
      | key k => rfl
      | item i =>
        rw [ofRawJson, at?, Json.at?, allOfRawJson_eq_map, List.getElem?_map]
        cases items[i]? with
        | none => rfl
        | some j => exact ih j
    | object members =>
      cases step with
      | item i => rfl
      | key k =>
        rw [ofRawJson, at?, Json.at?, Bindings.find?_ofList, lastOf?_membersOfRawJson]
        cases lastOf? k members with
        | none => rfl
        | some j => exact ih j

theorem ofRawJson_eq_numeral_iff {j : Json} {t : Text} :
    ofRawJson j = .numeral t ↔ j = .number t := by
  cases j <;> simp [ofRawJson]

theorem ofRawJson_ne_int (j : Json) (n : Int64) : ofRawJson j ≠ .int n := by
  cases j <;> simp [ofRawJson]

/-! ## Integers through keys -/

variable {v w : Value} {entries entries' : List (Text × Value)} {path : List Access}

/-- What a value can become: a number its integer, a map its values made integers, and all else
itself. -/
theorem normalize_cases (h : v.normalize = .ok w) :
    (∃ t n, v = .numeral t ∧ Text.toInt64? t = some n ∧ w = .int n) ∨
      (∃ entries entries', v = .map entries ∧ normalizeEntries entries = .ok entries' ∧
        w = .map entries') ∨
      (w = v ∧ (∀ t, v ≠ .numeral t) ∧ ∀ entries, v ≠ .map entries) := by
  cases v with
  | numeral t =>
    rw [normalize] at h
    cases ht : Text.toInt64? t with
    | none =>
      rw [ht] at h
      cases h
    | some n =>
      rw [ht] at h
      exact .inl ⟨t, n, rfl, ht, (Except.ok.inj h).symm⟩
  | map entries =>
    rw [normalize] at h
    cases hentries : normalizeEntries entries with
    | error e =>
      rw [hentries] at h
      cases h
    | ok entries' =>
      rw [hentries] at h
      exact .inr (.inl ⟨entries, entries', rfl, hentries, (Except.ok.inj h).symm⟩)
  | _ =>
    have hw := Except.ok.inj h
    exact .inr (.inr ⟨hw.symm, by simp, by simp⟩)

theorem normalizeEntries_cons {k : Text}
    (h : normalizeEntries ((k, v) :: entries) = .ok entries') :
    ∃ w rest, v.normalize = .ok w ∧ normalizeEntries entries = .ok rest ∧
      entries' = (k, w) :: rest := by
  rw [normalizeEntries] at h
  cases hv : v.normalize with
  | error e =>
    rw [hv] at h
    cases h
  | ok w =>
    cases hrest : normalizeEntries entries with
    | error e =>
      rw [hv, hrest] at h
      cases h
    | ok rest =>
      rw [hv, hrest] at h
      exact ⟨w, rest, rfl, rfl, (Except.ok.inj h).symm⟩

theorem find?_normalizeEntries (h : normalizeEntries entries = .ok entries') (k : Text) :
    Option.Rel (fun u x => u.normalize = .ok x) (Bindings.find? k entries)
      (Bindings.find? k entries') := by
  induction entries generalizing entries' with
  | nil =>
    cases h
    exact .none
  | cons p entries ih =>
    obtain ⟨k', v⟩ := p
    obtain ⟨w, rest, hv, hrest, rfl⟩ := normalizeEntries_cons h
    rw [Bindings.find?, Bindings.find?]
    split
    · exact .some hv
    · exact ih hrest

/-- A key leads from a map and from its normalized form nowhere, or to a value and its own
normalized form. -/
theorem at?_key_normalizeEntries (h : normalizeEntries entries = .ok entries') (k : Text)
    (path : List Access) :
    ((map entries).at? (.key k :: path) = none ∧ (map entries').at? (.key k :: path) = none) ∨
      ∃ u x : Value, u.normalize = .ok x ∧ (map entries).at? (.key k :: path) = u.at? path ∧
        (map entries').at? (.key k :: path) = x.at? path := by
  have hfind := find?_normalizeEntries h k
  rw [at?, at?]
  generalize Bindings.find? k entries = a at hfind
  generalize Bindings.find? k entries' = b at hfind
  cases hfind with
  | none => exact .inl ⟨rfl, rfl⟩
  | @some u x hu => exact .inr ⟨u, x, hu, rfl, rfl⟩

/-- What keys lead to is itself normalized. -/
theorem at?_normalize_of_throughKeys (h : v.normalize = .ok w) (hpath : ThroughKeys path) :
    Option.Rel (fun u x => u.normalize = .ok x) (v.at? path) (w.at? path) := by
  induction path generalizing v w with
  | nil =>
    rw [at?, at?]
    exact .some h
  | cons step path ih =>
    cases step with
    | item i => exact absurd List.mem_cons_self (hpath i)
    | key k =>
      have hrest : ThroughKeys path := fun i hi => hpath i (List.mem_cons_of_mem _ hi)
      obtain ⟨t, n, rfl, -, rfl⟩ | ⟨entries, entries', rfl, hentries, rfl⟩ | ⟨rfl, -, hmap⟩ :=
        normalize_cases h
      · exact .none
      · obtain ⟨hv, hw⟩ | ⟨u, x, hu, hv, hw⟩ := at?_key_normalizeEntries hentries k path
        · rw [hv, hw]
          exact .none
        · rw [hv, hw]
          exact ih hu hrest
      · cases w with
        | map entries => exact absurd rfl (hmap entries)
        | _ => exact .none

/-- What stands inside an array is left as it is. -/
theorem at?_normalize_of_item (h : v.normalize = .ok w) (hpath : ¬ ThroughKeys path) :
    w.at? path = v.at? path := by
  induction path generalizing v w with
  | nil => exact absurd (fun i => List.not_mem_nil) hpath
  | cons step path ih =>
    obtain ⟨t, n, rfl, -, rfl⟩ | ⟨entries, entries', rfl, hentries, rfl⟩ | ⟨rfl, -, -⟩ :=
      normalize_cases h
    · cases step <;> rfl
    · cases step with
      | item i => rfl
      | key k =>
        have hrest : ¬ ThroughKeys path := by
          intro hkeys
          refine hpath fun i hi => hkeys i ?_
          simpa using hi
        obtain ⟨hv, hw⟩ | ⟨u, x, hu, hv, hw⟩ := at?_key_normalizeEntries hentries k path
        · rw [hv, hw]
        · rw [hv, hw]
          exact ih hu hrest
    · rfl

/-- Bindings that cannot be normalized have a value that cannot be. -/
theorem exists_of_normalizeEntries_error {e : NotInteger}
    (h : normalizeEntries entries = .error e) : ∃ p ∈ entries, p.2.normalize = .error e := by
  induction entries with
  | nil => cases h
  | cons p entries ih =>
    obtain ⟨k, v⟩ := p
    rw [normalizeEntries] at h
    cases hv : v.normalize with
    | error e' =>
      rw [hv] at h
      cases h
      exact ⟨(k, v), List.mem_cons_self, hv⟩
    | ok w =>
      cases hrest : normalizeEntries entries with
      | error e' =>
        rw [hv, hrest] at h
        cases h
        obtain ⟨p, hp, herror⟩ := ih hrest
        exact ⟨p, List.mem_cons_of_mem _ hp, herror⟩
      | ok rest =>
        rw [hv, hrest] at h
        cases h

/-- A JSON value that stands for no value holds, through keys, a number that is no 64-bit
integer. -/
theorem exists_of_ofJson_error (j : Json) {e : NotInteger} (h : ofJson j = .error e) :
    ∃ path, ThroughKeys path ∧ j.at? path = some (.number e.spelling) ∧
      Text.toInt64? e.spelling = none := by
  cases j with
  | null | bool | string | array => cases h
  | number t =>
    rw [ofJson, ofRawJson, normalize] at h
    cases ht : Text.toInt64? t with
    | some n =>
      rw [ht] at h
      cases h
    | none =>
      rw [ht] at h
      cases h
      exact ⟨[], fun i => List.not_mem_nil, rfl, ht⟩
  | object members =>
    rw [ofJson, ofRawJson, normalize] at h
    cases hentries : normalizeEntries (Bindings.ofList (membersOfRawJson members)) with
    | ok entries =>
      rw [hentries] at h
      cases h
    | error e' =>
      rw [hentries] at h
      cases h
      obtain ⟨⟨k, u⟩, hu, herror⟩ := exists_of_normalizeEntries_error hentries
      -- The names are in order, so the binding that fails is the one its name finds.
      have hfind := (Bindings.ordered_ofList (membersOfRawJson members)).find?_of_mem hu
      rw [Bindings.find?_ofList, lastOf?_membersOfRawJson] at hfind
      obtain ⟨j, hj, rfl⟩ := Option.map_eq_some_iff.mp hfind
      have hsize : sizeOf j < sizeOf (Json.object members) := by
        have hmem := List.sizeOf_lt_of_mem (mem_of_lastOf? hj)
        simp only [Prod.mk.sizeOf_spec] at hmem
        simp only [Json.object.sizeOf_spec]
        omega
      obtain ⟨path, hkeys, hat, hnone⟩ := exists_of_ofJson_error j herror
      refine ⟨.key k :: path, fun i hi => hkeys i ?_, ?_, hnone⟩
      · simpa using hi
      · rw [Json.at?, hj]
        exact hat
termination_by sizeOf j

/-! ## What an answer stands for -/

variable {j : Json} {t : Text} {n : Int64}

/-- A JSON value stands for a value exactly if the numbers that keys lead to are 64-bit integers. -/
theorem ofJson_ok_iff :
    (∃ v, ofJson j = .ok v) ↔
      ∀ path t, ThroughKeys path → j.at? path = some (.number t) → t.IsInt64 := by
  constructor
  · rintro ⟨v, hv⟩ path t hpath ht
    have hrel := at?_normalize_of_throughKeys hv hpath
    rw [at?_ofRawJson, ht, Option.map_some, ofRawJson] at hrel
    generalize v.at? path = a at hrel
    cases hrel with
    | some hx =>
      rw [Text.isInt64_iff]
      intro hnone
      rw [normalize, hnone] at hx
      cases hx
  · intro hints
    cases hj : ofJson j with
    | ok v => exact ⟨v, rfl⟩
    | error e =>
      obtain ⟨path, hpath, ht, hnone⟩ := exists_of_ofJson_error j hj
      exact absurd hnone (Text.isInt64_iff.mp (hints path _ hpath ht))

/-- A number keeps its spelling exactly if it stands inside an array. -/
theorem at?_ofJson_eq_numeral_iff (h : ofJson j = .ok v) :
    v.at? path = some (.numeral t) ↔ ¬ ThroughKeys path ∧ j.at? path = some (.number t) := by
  by_cases hpath : ThroughKeys path
  · refine iff_of_false (fun hv => ?_) fun hj => hj.1 hpath
    have hrel := at?_normalize_of_throughKeys h hpath
    rw [hv] at hrel
    generalize (ofRawJson j).at? path = a at hrel
    cases hrel with
    | some hu =>
      obtain ⟨_, _, _, _, h⟩ | ⟨_, _, _, _, h⟩ | ⟨h, hne, -⟩ := normalize_cases hu
      · cases h
      · cases h
      · exact hne t h.symm
  · rw [at?_normalize_of_item h hpath, at?_ofRawJson, Option.map_eq_some_iff]
    simp only [ofRawJson_eq_numeral_iff, hpath, not_false_eq_true, true_and]
    exact exists_eq_right

/-- The integers of the value are the numbers that keys lead to. -/
theorem at?_ofJson_eq_int_iff (h : ofJson j = .ok v) :
    v.at? path = some (.int n) ↔
      ThroughKeys path ∧ ∃ t, j.at? path = some (.number t) ∧ t.IsInteger n.toInt := by
  by_cases hpath : ThroughKeys path
  · have hrel := at?_normalize_of_throughKeys h hpath
    rw [at?_ofRawJson] at hrel
    constructor
    · intro hv
      refine ⟨hpath, ?_⟩
      rw [hv] at hrel
      cases hj : j.at? path with
      | none =>
        rw [hj] at hrel
        cases hrel
      | some j' =>
        rw [hj, Option.map_some] at hrel
        cases hrel with
        | some hu =>
          obtain ⟨t, m, ht, hm, h⟩ | ⟨_, _, _, _, h⟩ | ⟨h, -, -⟩ := normalize_cases hu
          · cases h
            exact ⟨t, by rw [ofRawJson_eq_numeral_iff.mp ht], Text.toInt64?_eq_some_iff.mp hm⟩
          · cases h
          · exact absurd h.symm (ofRawJson_ne_int j' n)
    · rintro ⟨-, t, ht, hint⟩
      rw [ht, Option.map_some, ofRawJson] at hrel
      generalize v.at? path = a at hrel
      cases hrel with
      | some hx =>
        rw [normalize, Text.toInt64?_eq_some_iff.mpr hint] at hx
        rw [Except.ok.inj hx]
  · refine iff_of_false (fun hv => ?_) fun hj => hpath hj.1
    rw [at?_normalize_of_item h hpath, at?_ofRawJson] at hv
    obtain ⟨j', -, hint⟩ := Option.map_eq_some_iff.mp hv
    exact ofRawJson_ne_int j' n hint

end Value

namespace Subprocess

variable {data : Text} {j : Json} {r : Except InterpreterError Value}

/-- Every number of an answer is made an integer, and a number that is none is refused wherever it
stands. -/
structure MakesIntegers (j : Json) (r : Except InterpreterError Value) : Prop where
  no_numeral : ∀ v, r = .ok v → ∀ path t, v.at? path ≠ some (.numeral t)
  int_of_number : ∀ v, r = .ok v → ∀ path t, j.at? path = some (.number t) →
    ∃ n : Int64, t.IsInteger n.toInt ∧ v.at? path = some (.int n)
  refuses : ∀ t, j.Contains t → ¬ t.IsInt64 → ∃ e, r = .error (.notInteger e)

/-- The numbers that keys lead to are made integers, and one of them that is none is refused; a
number inside an array keeps its spelling. -/
structure MakesKeyedIntegers (j : Json) (r : Except InterpreterError Value) : Prop where
  ok_iff : (∃ v, r = .ok v) ↔
    ∀ path t, ThroughKeys path → j.at? path = some (.number t) → t.IsInt64
  names_number : ∀ e, r = .error e → ∃ path t, ThroughKeys path ∧
    j.at? path = some (.number t) ∧ ¬ t.IsInt64 ∧ e = .notInteger ⟨t⟩
  numeral_iff : ∀ v, r = .ok v → ∀ path t,
    v.at? path = some (.numeral t) ↔ ¬ ThroughKeys path ∧ j.at? path = some (.number t)
  int_iff : ∀ v, r = .ok v → ∀ path n,
    v.at? path = some (.int n) ↔
      ThroughKeys path ∧ ∃ t, j.at? path = some (.number t) ∧ t.IsInteger n.toInt

theorem decode_of_read (hread : Json.read data = .ok j) :
    decode data = (Value.ofJson j).mapError .notInteger := by
  rw [decode, hread]
  rfl

theorem makesKeyedIntegers_ofJson (j : Json) :
    MakesKeyedIntegers j ((Value.ofJson j).mapError .notInteger) := by
  cases hj : Value.ofJson j with
  | ok v =>
    refine ⟨?_, ?_, ?_, ?_⟩
    · have hints := Value.ofJson_ok_iff.mp ⟨v, hj⟩
      exact iff_of_true ⟨v, rfl⟩ hints
    · intro e he
      cases he
    · intro w hw path t
      cases hw
      exact Value.at?_ofJson_eq_numeral_iff hj
    · intro w hw path n
      cases hw
      exact Value.at?_ofJson_eq_int_iff hj
  | error e =>
    obtain ⟨path, hpath, ht, hnone⟩ := Value.exists_of_ofJson_error j hj
    have hint : ¬ e.spelling.IsInt64 := fun h => Text.isInt64_iff.mp h hnone
    refine ⟨?_, ?_, ?_, ?_⟩
    · refine iff_of_false ?_ fun hints => hint (hints path _ hpath ht)
      rintro ⟨v, hv⟩
      cases hv
    · intro e' he
      cases he
      exact ⟨path, e.spelling, hpath, ht, hint, rfl⟩
    · intro v hv
      cases hv
    · intro v hv
      cases hv

/-- All numbers are made integers if one is refused, or if all that there is to see or to hide is
integers outside of arrays. -/
theorem MakesKeyedIntegers.makesIntegers_iff (h : MakesKeyedIntegers j r) :
    MakesIntegers j r ↔
      (∃ path t, ThroughKeys path ∧ j.at? path = some (.number t) ∧ ¬ t.IsInt64) ∨
        ((∀ path t, j.at? path = some (.number t) → ThroughKeys path) ∧
          ∀ t, j.Contains t → t.IsInt64) := by
  cases r with
  | error e =>
    obtain ⟨path, t, hpath, ht, hint, rfl⟩ := h.names_number e rfl
    refine iff_of_true ⟨?_, ?_, fun _ _ _ => ⟨_, rfl⟩⟩ (.inl ⟨path, t, hpath, ht, hint⟩)
    · intro v hv
      cases hv
    · intro v hv
      cases hv
  | ok v =>
    have hints := h.ok_iff.mp ⟨v, rfl⟩
    constructor
    · intro hall
      refine .inr ⟨fun path t ht => ?_, fun t ht => ?_⟩
      · by_contra hpath
        exact hall.no_numeral v rfl path t ((h.numeral_iff v rfl path t).mpr ⟨hpath, ht⟩)
      · by_contra hint
        obtain ⟨e, he⟩ := hall.refuses t ht hint
        cases he
    · rintro (⟨path, t, hpath, ht, hint⟩ | ⟨hkeys, hcontains⟩)
      · exact absurd (hints path t hpath ht) hint
      · refine ⟨?_, ?_, fun t ht hint => absurd (hcontains t ht) hint⟩
        · intro w hw path t ht
          obtain ⟨hpath, hnumber⟩ := (h.numeral_iff w hw path t).mp ht
          exact hpath (hkeys path t hnumber)
        · intro w hw path t ht
          have hpath := hkeys path t ht
          obtain ⟨n, hn⟩ := hints path t hpath ht
          exact ⟨n, hn, (h.int_iff w hw path n).mpr ⟨hpath, t, ht, hn⟩⟩

/-- An answer is decoded with integers for the numbers that keys lead to and with the spelling of
those inside arrays. So all of its numbers are made integers or refused exactly if one that keys
lead to is refused, or if none stands inside an array and each, also in a member that a later one of
its key hides, is a 64-bit integer. -/
theorem decode_makesKeyedIntegers (hread : Json.read data = .ok j) :
    MakesKeyedIntegers j (decode data) ∧
      (MakesIntegers j (decode data) ↔
        (∃ path t, ThroughKeys path ∧ j.at? path = some (.number t) ∧ ¬ t.IsInt64) ∨
          ((∀ path t, j.at? path = some (.number t) → ThroughKeys path) ∧
            ∀ t, j.Contains t → t.IsInt64)) := by
  have hkeyed : MakesKeyedIntegers j (decode data) := by
    rw [decode_of_read hread]
    exact makesKeyedIntegers_ofJson j
  exact ⟨hkeyed, hkeyed.makesIntegers_iff⟩

/-- Of two members with one key the first is not looked at, the number inside the other is made an
integer, and the one in the array keeps its spelling. -/
theorem decode_makesKeyedIntegers_nested :
    Json.read "\x7b\"n\":1.5,\"n\":\x7b\"m\":-3\x7d,\"x\":[1.5]\x7d" =
        .ok (.object [("n", .number "1.5"), ("n", .object [("m", .number "-3")]),
          ("x", .array [.number "1.5"])]) ∧
      decode "\x7b\"n\":1.5,\"n\":\x7b\"m\":-3\x7d,\"x\":[1.5]\x7d" =
        .ok (.map [("n", .map [("m", .int (-3))]), ("x", .array [.numeral "1.5"])]) ∧
      MakesKeyedIntegers
        (.object [("n", .number "1.5"), ("n", .object [("m", .number "-3")]),
          ("x", .array [.number "1.5"])])
        (decode "\x7b\"n\":1.5,\"n\":\x7b\"m\":-3\x7d,\"x\":[1.5]\x7d") := by
  have hread : Json.read "\x7b\"n\":1.5,\"n\":\x7b\"m\":-3\x7d,\"x\":[1.5]\x7d" =
      .ok (.object [("n", .number "1.5"), ("n", .object [("m", .number "-3")]),
        ("x", .array [.number "1.5"])]) := rfl
  refine ⟨hread, ?_, (decode_makesKeyedIntegers hread).1⟩
  rw [decode_of_read hread]
  rfl

/-- A number in an array is not made an integer, and one that is none is not refused. -/
theorem decode_array_spelled :
    Json.read "[1]" = .ok (.array [.number "1"]) ∧ decode "[1]" = .ok (.array [.numeral "1"]) ∧
      ¬ MakesIntegers (.array [.number "1"]) (decode "[1]") ∧
      decode "[1.5]" = .ok (.array [.numeral "1.5"]) := by
  refine ⟨rfl, rfl, fun h => ?_, rfl⟩
  exact h.no_numeral (.array [.numeral "1"]) rfl [.item 0] "1" rfl

end Subprocess

end Denotation
