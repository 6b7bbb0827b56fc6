import Denotation.Execution.Interpreter
import Denotation.Proofs.Environments
import Denotation.Proofs.JsonReading

/-!
# Environments travel through interpreters

An environment leaves for an interpreter as JSON, and an interpreter that answers with what it was
given sends the environment back. `Sendable` says which environments travel unchanged: their values
are integers, truth values, absent values, well-formed texts and environments again, nested no
deeper than JSON is read.
-/

namespace Denotation

/-- A value that travels unchanged, with at most `depth` environments inside one another. -/
inductive Value.Sendable : Nat → Value → Prop where
  | nil (depth : Nat) : Sendable depth .nil
  | bool (depth : Nat) (b : Bool) : Sendable depth (.bool b)
  | int (depth : Nat) (n : Int64) : Sendable depth (.int n)
  | text (depth : Nat) {t : Text} (ht : t.isUtf8 = true) : Sendable depth (.text t)
  | map {depth : Nat} {entries : Bindings} (hord : entries.Ordered)
      (hk : ∀ p ∈ entries, p.1.isUtf8 = true) (hv : ∀ p ∈ entries, Sendable depth p.2) :
      Sendable (depth + 1) (.map entries)

namespace Bindings

variable {b l : Bindings}

/-- A name behind all others is bound at the end. -/
theorem insert_of_forall_lt {name : Text} (v : Value) (h : ∀ p ∈ b, p.1 < name) :
    b.insert name v = b ++ [(name, v)] := by
  induction b with
  | nil => rfl
  | cons p b ih =>
    obtain ⟨k, w⟩ := p
    have hlt : k < name := h (k, w) List.mem_cons_self
    have hne : ¬ (name == k) = true := by
      intro heq
      rw [beq_iff_eq.mp heq] at hlt
      exact List.lt_irrefl k hlt
    have hbefore : ¬ Text.before name k = true := by
      rw [Text.before_iff_lt]
      exact List.lt_asymm hlt
    rw [insert, if_neg hne, if_neg hbefore, ih fun p hp => h p (List.mem_cons_of_mem _ hp)]
    rfl

theorem foldl_insert_of_ordered (h : (b ++ l).Ordered) :
    l.foldl (fun b p => b.insert p.1 p.2) b = b ++ l := by
  induction l generalizing b with
  | nil => simp
  | cons p l ih =>
    have hlt : ∀ q ∈ b, q.1 < p.1 := fun q hq =>
      (List.pairwise_append.mp h).2.2 q hq p List.mem_cons_self
    have hord : ((b ++ [p]) ++ l).Ordered := by simpa using h
    rw [List.foldl_cons, insert_of_forall_lt p.2 hlt, ih hord]
    simp

/-- Bindings in order are put in order as they are. -/
theorem ofList_of_ordered (h : l.Ordered) : ofList l = l :=
  foldl_insert_of_ordered (b := []) h

/-- The order depends on the names alone. -/
theorem Ordered.of_names (h : b.Ordered) (hnames : l.map Prod.fst = b.map Prod.fst) :
    l.Ordered := by
  have hb : (b.map Prod.fst).Pairwise (· < ·) := List.pairwise_map.mpr h
  rw [← hnames] at hb
  exact List.pairwise_map.mp hb

end Bindings

namespace Value

variable {v : Value} {depth : Nat} {entries : Bindings}

/-- The value has a JSON form that reads back, and the form means the value. -/
def Travels (depth : Nat) (v : Value) : Prop :=
  ∃ j, v.toJson = .ok j ∧ j.Plain depth ∧ ofJson j = .ok v

/-- Bindings travel one by one. -/
theorem entries_travel (hk : ∀ p ∈ entries, p.1.isUtf8 = true)
    (hv : ∀ p ∈ entries, p.2.Travels depth) :
    ∃ ms, entriesToJson entries = .ok ms ∧ (∀ m ∈ ms, m.1.isUtf8 = true) ∧
      (∀ m ∈ ms, m.2.Plain depth) ∧ (membersOfRawJson ms).map Prod.fst = entries.map Prod.fst ∧
      normalizeEntries (membersOfRawJson ms) = .ok entries := by
  induction entries with
  | nil => exact ⟨[], rfl, by simp, by simp, rfl, rfl⟩
  | cons p entries ih =>
    obtain ⟨k, v⟩ := p
    obtain ⟨j, hj, hplain, hback⟩ := hv (k, v) List.mem_cons_self
    obtain ⟨ms, hms, hkeys, hvalues, hnames, hnorm⟩ :=
      ih (fun p hp => hk p (List.mem_cons_of_mem _ hp)) fun p hp => hv p (List.mem_cons_of_mem _ hp)
    refine ⟨(k, j) :: ms, ?_, ?_, ?_, ?_, ?_⟩
    · rw [entriesToJson, hj, hms]
      rfl
    · exact List.forall_mem_cons.mpr ⟨hk (k, v) List.mem_cons_self, hkeys⟩
    · exact List.forall_mem_cons.mpr ⟨hplain, hvalues⟩
    · rw [membersOfRawJson, List.map_cons, List.map_cons, hnames]
    · rw [ofJson] at hback
      rw [membersOfRawJson, normalizeEntries, hback, hnorm]
      rfl

theorem travels_map (hord : entries.Ordered) (hk : ∀ p ∈ entries, p.1.isUtf8 = true)
    (hv : ∀ p ∈ entries, p.2.Travels depth) : (Value.map entries).Travels (depth + 1) := by
  obtain ⟨ms, hms, hkeys, hvalues, hnames, hnorm⟩ := entries_travel hk hv
  refine ⟨.object ms, ?_, .object hkeys hvalues, ?_⟩
  · rw [toJson, hms]
    rfl
  · rw [ofJson, ofRawJson, Bindings.ofList_of_ordered (hord.of_names hnames), normalize, hnorm]
    rfl

theorem Sendable.travels (h : v.Sendable depth) : v.Travels depth := by
  induction h with
  | nil depth => exact ⟨.null, rfl, .null depth, rfl⟩
  | bool depth b => exact ⟨.bool b, rfl, .bool depth b, rfl⟩
  | int depth n =>
    refine ⟨.number (Text.ofInt64 n), rfl, .int depth n, ?_⟩
    rw [ofJson, ofRawJson, normalize, Text.toInt64?_ofInt64]
  | text depth ht => exact ⟨.string _, rfl, .string depth ht, rfl⟩
  | map hord hk _ ih => exact travels_map hord hk ih

end Value

/-- What is written for a sendable environment is decoded as that environment. -/
theorem decode_environmentText {entries : Bindings}
    (h : (Value.map entries).Sendable Json.maxDepth) :
    ∃ t, environmentText (some entries) = .ok t ∧ Subprocess.decode t = .ok (.map entries) := by
  obtain ⟨j, hj, hplain, hback⟩ := h.travels
  obtain ⟨ms, rfl⟩ : ∃ ms, j = .object ms := by
    rw [Value.toJson] at hj
    cases hms : Value.entriesToJson entries with
    | error e => rw [hms] at hj; cases hj
    | ok ms => rw [hms] at hj; cases hj; exact ⟨ms, rfl⟩
  have hread := Json.read_write_object hplain (Nat.le_refl _)
  refine ⟨(Json.object ms).write, ?_, ?_⟩
  · rw [environmentText, hj]
    rfl
  · rw [Subprocess.decode, hread]
    show (Value.ofJson (.object ms)).mapError _ = _
    rw [hback]
    rfl

/-- An environment that was never made is written as the empty one. -/
theorem environmentText_getD (env : Option Bindings) :
    environmentText env = environmentText (some (env.getD [])) := by
  cases env <;> rfl

namespace Subprocess

/-- An interpreter that succeeds and answers with what it was given sends every sendable environment
back; one that was never made comes back empty. -/
theorem runWith_copy {s : Subprocess} {name : Text} {p : Prelude}
    {known : Text → Option (Job → JobResult)} {copy : Job → JobResult}
    (hs : s.interpreter = .ok (name, p)) (hknown : known name = some copy)
    (hcopy : ∀ job, (copy job).status = 0 ∧ (copy job).output = job.input) (program : Text)
    (env : Option Bindings) (henv : (Value.map (env.getD [])).Sendable Json.maxDepth) :
    ∃ job, s.runWith known false program env = (.ok (.map (env.getD [])), [job]) ∧
      environmentText env = .ok job.input ∧ decode job.input = .ok (.map (env.getD [])) := by
  obtain ⟨t, ht, hdecode⟩ := decode_environmentText henv
  rw [← environmentText_getD] at ht
  let job : Job := ⟨name, p.flag, Text.concat [p.opening, program, p.closing], t⟩
  have hjob : s.job (fun name => (known name).isSome) program env = .ok job := by
    have hfound : (known name).isSome = true := by rw [hknown]; rfl
    have hlocate : s.locate (fun name => (known name).isSome) = .ok (name, p) := by
      rw [locate, hs]
      exact if_pos hfound
    rw [Subprocess.job, hlocate, ht]
    rfl
  refine ⟨job, ?_, ht, hdecode⟩
  obtain ⟨hstatus, houtput⟩ := hcopy job
  have hcommand : known job.command = some copy := hknown
  simp only [runWith, hjob, hcommand, conclude, hstatus, houtput, Bool.false_eq_true, if_false,
    if_true]
  rw [hdecode]

/-- Both ends of the integers, every class of escape and an inner environment. -/
def varied : Bindings :=
  [("", .map [("\x01\n\"\\", .bool false), ("<&>", .nil)]), ("high", .int Int64.maxValue),
    ("low", .int Int64.minValue), ("é", .text "\u2028/😀\x7f")]

theorem varied_sendable : (Value.map varied).Sendable Json.maxDepth := by
  have hinner : (Value.map [("\x01\n\"\\", .bool false), ("<&>", .nil)]).Sendable 9999 := by
    refine .map (by unfold Bindings.Ordered; decide) ?_ ?_
    · simp only [List.forall_mem_cons]
      exact ⟨by decide, by decide, by simp⟩
    · simp only [List.forall_mem_cons]
      exact ⟨.bool _ _, .nil _, by simp⟩
  refine .map (by unfold Bindings.Ordered varied; decide) ?_ ?_
  · simp only [varied, List.forall_mem_cons]
    exact ⟨by decide, by decide, by decide, by decide, by simp⟩
  · simp only [varied, List.forall_mem_cons]
    exact ⟨hinner, .int _ _, .int _ _, .text _ (by decide), by simp⟩

/-- Such an environment through an interpreter that is called by its usual name. -/
theorem runWith_copy_varied :
    ∃ job, runWith ⟨"python", []⟩
        (fun name => if name == Text.ofString "python3" then some fun job => ⟨0, job.input, []⟩
          else none) false "lambda e: e" (some varied)
      = (.ok (.map varied), [job]) ∧ environmentText (some varied) = .ok job.input ∧
        decode job.input = .ok (.map varied) :=
  runWith_copy rfl rfl (fun _ => ⟨rfl, rfl⟩) _ (some varied) varied_sendable

end Subprocess

end Denotation
