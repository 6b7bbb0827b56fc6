import Denotation.CommandLine.Rehearsal
import Denotation.Proofs.Paths
import Denotation.Target.Dialect

/-!
# Where output lands

The rendering of a source is written under the name of the source, with the extension of the target
in place of its own, into the directory for output. The name is what the source is called without its
extension, and that may be no name at all: `.simple` without its extension is empty, and its last name
is then `.`. Such a name leads to the directory for output itself or out of it, and the extension is
added to the name of a directory. `Path.LandsIn` says which names do lead into it.
-/

namespace Denotation

namespace Path

theorem trail_eq_nil_iff {p : Text} : trail p = [] ↔ clean p = here ∨ clean p = [slash] := by
  constructor
  · intro h
    rw [clean_eq_spell, h]
    cases isAbsolute p with
    | true => exact Or.inr rfl
    | false => exact Or.inl rfl
  · intro h
    have hnames : names (clean p) = trail p := names_spell (fun _ hn => isName_of_mem_trail hn) _
    rw [← hnames]
    rcases h with h | h <;> rw [h] <;> rfl

theorem getLast?_trail_iff {p : Text} :
    (trail p).getLast? = some above ↔ lastName (clean p) = above := by
  rcases List.eq_nil_or_concat (trail p) with hnil | ⟨l, name, hconcat⟩
  · have hne : lastName (clean p) ≠ above := by
      rcases trail_eq_nil_iff.mp hnil with h | h <;> rw [h] <;> decide
    simp [hnil, hne]
  · have hname : IsName name := isName_of_mem_trail (p := p) (by simp [hconcat])
    rw [clean_eq_spell, hconcat, List.concat_eq_append, lastName_spell_concat hname]
    simp

/-- The name leads from the directory to a place directly in it. Names that are none do so only where
nothing is left of the directory once it is clean, and `..` where the directory ends in one. -/
def LandsIn (dir name : Text) : Prop :=
  (name ≠ here ∧ name ≠ above ∧ name ≠ [slash]) ∨ clean dir = here ∨ clean dir = [slash] ∨
    name = above ∧ lastName (clean dir) = above

theorem dropLast_fold_iff {rooted : Bool} {l : List Text} {name : Text} :
    (fold rooted l.reverse [name]).dropLast = l ↔
      name ≠ above ∨ l = [] ∨ l.getLast? = some above := by
  rw [fold_eq_foldl, List.foldl_cons, List.foldl_nil]
  unfold turn
  by_cases hname : name = above
  · rw [if_pos hname]
    rcases List.eq_nil_or_concat l with rfl | ⟨earlier, last, rfl⟩
    · cases rooted <;> simp
    · rw [List.concat_eq_append, List.reverse_concat]
      by_cases hlast : last = above
      · simp [hlast]
      · have hlength : earlier.dropLast ≠ earlier ++ [last] := by
          intro heq
          have hlen := congrArg List.length heq
          rw [List.length_dropLast, List.length_append, List.length_singleton] at hlen
          omega
        simp [hname, hlast, hlength]
  · simp [hname]

theorem directory_output_iff {source dir suffix : Text} (hdir : dir ≠ []) (hs : slash ∉ suffix) :
    directory (output source dir suffix) = clean dir ↔ LandsIn dir (lastName (stem source)) := by
  have hnames : ∀ n ∈ fold (isAbsolute dir) (trail dir).reverse (names (lastName (stem source))),
      IsName n := by
    refine isName_of_mem_fold (fun n hn => ?_) fun n hn => isName_of_mem_names hn
    exact isName_of_mem_trail (List.mem_reverse.mp hn)
  have hsettled := settled_fold (settled_trail dir) (names (lastName (stem source)))
  have houtput : output source dir suffix
      = spell (isAbsolute dir)
          (fold (isAbsolute dir) (trail dir).reverse (names (lastName (stem source)))) ++ suffix := by
    rw [output, if_neg (by simpa using hdir), append_eq_spell hdir]
  rw [houtput, directory_spell_append hnames hsettled hs, clean_eq_spell dir,
    spell_inj (fun n hn => hnames n (List.mem_of_mem_dropLast hn))
      (fun n hn => isName_of_mem_trail hn)]
  unfold LandsIn
  rw [← or_assoc (a := clean dir = here), ← trail_eq_nil_iff, ← getLast?_trail_iff]
  rcases lastName_cases (stem source) with hname | hnone
  · have hslash : lastName (stem source) ≠ [slash] := by
      intro heq
      exact hname.noSlash (by rw [heq]; exact List.mem_cons_self)
    rw [names_of_isName hname, dropLast_fold_iff]
    by_cases habove : lastName (stem source) = above
    · simp [habove]
    · simp [habove, hname.ne_here, hslash]
  · -- the name leads nowhere, so the extension is added to the directory itself
    have hstays : fold (isAbsolute dir) (trail dir).reverse (names (lastName (stem source)))
        = trail dir := by
      have hnil : names (lastName (stem source)) = [] := by
        rcases hnone with h | h <;> rw [h] <;> rfl
      rw [hnil, fold_eq_foldl, List.foldl_nil, List.reverse_reverse]
    have hne : lastName (stem source) ≠ above := by
      rcases hnone with h | h <;> rw [h] <;> decide
    have hdrop : (trail dir).dropLast = trail dir ↔ trail dir = [] := by
      refine ⟨fun heq => ?_, fun heq => by rw [heq]; rfl⟩
      have hlength := congrArg List.length heq
      rw [List.length_dropLast] at hlength
      exact List.eq_nil_of_length_eq_zero (by omega)
    rw [hstays, hdrop]
    refine ⟨fun h => Or.inr (Or.inl h), ?_⟩
    rintro (⟨hhere, -, hslash⟩ | h | ⟨habove, -⟩)
    · rcases hnone with h | h
      · exact absurd h hhere
      · exact absurd h hslash
    · exact h
    · exact absurd habove hne

end Path

/-! ## Files that were written -/

namespace FileTree

variable {t t' : FileTree}

/-- Where names lead depends on the directories alone. -/
theorem follow_of_directories (h : t'.directories = t.directories) {place : List Text}
    {names place' : List Text} (hfollow : t.follow place names = .ok place') :
    t'.follow place names = .ok place' := by
  have hdir : ∀ p, t'.isDirectory p = t.isDirectory p := fun p => by
    rw [isDirectory, h, isDirectory]
  fun_induction follow t place names with
  | case1 place => exact hfollow
  | case2 place name rest hnot => cases hfollow
  | case3 place name rest hnot hhere ih =>
    rw [follow, hdir, if_neg hnot, if_pos hhere, ih hfollow]
  | case4 place name rest hnot hhere habove ih =>
    rw [follow, hdir, if_neg hnot, if_neg hhere, if_pos habove, ih hfollow]
  | case5 place name rest hnot hhere habove hlong => cases hfollow
  | case6 place name rest hnot hhere habove hlong ih =>
    rw [follow, hdir, if_neg hnot, if_neg hhere, if_neg habove, if_neg hlong, ih hfollow]

theorem locate_of_directories (h : t'.directories = t.directories) {working place : List Text}
    {path : Text} (hlocate : t.locate working path = .ok place) :
    t'.locate working path = .ok place := by
  unfold locate at hlocate ⊢
  split_ifs at hlocate ⊢ <;> exact follow_of_directories h hlocate

theorem entry?_putFile {place : List Text} (h : t.isDirectory place = false) (content : Text) :
    entry? (t.putFile place content) place = some (.file content) := by
  have hdir : ¬ (place.isEmpty || t.directories.contains place) = true := by
    rw [isDirectory] at h
    rw [h]
    exact Bool.false_ne_true
  have hgone : (t.files.filter fun f => f.1 != place).find? (fun f => f.1 == place) = none := by
    refine List.find?_eq_none.mpr fun f hf => ?_
    have hne := (List.mem_filter.mp hf).2
    simpa using hne
  unfold entry? putFile
  rw [if_neg hdir, List.find?_append, hgone]
  simp

/-- What was written to a path is read there. -/
theorem readFile_of_writeFile {working : List Text} {path content : Text}
    (h : t.writeFile working path content = .ok t') : t'.readFile working path = .ok content := by
  unfold writeFile at h
  cases hlocate : t.locate working path with
  | error fault => rw [hlocate] at h; cases h
  | ok place =>
    rw [hlocate] at h
    dsimp only at h
    split at h
    · cases h
    · rename_i hplain
      cases h
      have hplain' : endsInSlash path = false ∧ t.isDirectory place = false := by
        simpa using hplain
      have hdirs : (t.putFile place content).directories = t.directories := rfl
      have hlocate' := locate_of_directories hdirs hlocate
      have hentry := entry?_putFile hplain'.2 content
      have hfind : (t.putFile place content).find working path = .ok (.file content) := by
        simp only [find, hlocate', hentry, hplain'.1, bind, Except.bind]
        rfl
      rw [readFile, hfind]

end FileTree

namespace Rehearsal

theorem slash_notMem_extension (t : Target) : Path.slash ∉ t.dialect.extension := by
  cases t <;> decide

section
variable {α : Type} {step : Rehearsal → Except FileError FileTree} {r r' : Rehearsal}
  {k : Except FileError Unit → StateM Rehearsal α}

theorem run_change_error {e : FileError} (h : step r = .error e) :
    (change step >>= k).run r = (k (.error e)).run r := by
  have hstep : (change step).run r = (.error e, r) := by simp only [change, StateT.run, h]
  rw [StateT.run_bind, hstep]
  rfl

theorem run_change_ok {files : FileTree} (h : step r = .ok files) :
    (change step >>= k).run r = (k (.ok ())).run { r with files } := by
  have hstep : (change step).run r = (.ok (), { r with files }) := by
    simp only [change, StateT.run, h]
  rw [StateT.run_bind, hstep]
  rfl

/-- What follows the writing of a file and reports no error follows a file that was written. -/
theorem run_writeFile_ok {out path content : Text}
    {k : Except FileError Unit → StateM Rehearsal (Text × Option FileError)}
    (h : (host.writeFile out content >>= k).run r = ((path, none), r'))
    (hok : ∀ s, (k (.ok ())).run s = ((out, none), s))
    (herror : ∀ e s, ((k (.error e)).run s).1.2 ≠ none) :
    path = out ∧ r'.files.readFile r'.working path = .ok content := by
  cases hstep : r.files.writeFile r.working out content with
  | error e =>
    rw [host, run_change_error hstep] at h
    exact absurd (by rw [h]) (herror e r)
  | ok files =>
    rw [host, run_change_ok hstep, hok] at h
    cases h
    exact ⟨rfl, FileTree.readFile_of_writeFile hstep⟩

/-- Output that could be written is where the result says. -/
theorem writeOutput_ok {text source dir suffix path : Text}
    (h : (host.writeOutput text source dir suffix).run r = ((path, none), r')) :
    path = Path.output source dir suffix ∧
      r'.files.readFile r'.working path = .ok (text ++ Text.ofString "\n") := by
  unfold Host.writeOutput at h
  by_cases hdir : dir.isEmpty = true
  · rw [if_pos hdir, pure_bind] at h
    exact run_writeFile_ok h (fun _ => rfl) fun e s hnone => by cases hnone
  · rw [if_neg hdir] at h
    cases hstep : r.files.makeDirectories r.working dir with
    | error e =>
      rw [host, run_change_error hstep] at h
      cases h
    | ok files =>
      rw [host, run_change_ok hstep] at h
      exact run_writeFile_ok h (fun _ => rfl) fun e s hnone => by cases hnone

end

/-- The rendering of a source, if it can be written, is written directly into the directory for
output if and only if what the source is called without its extension is a name, or would lead into
the directory all the same. -/
theorem writeOutput_lands_iff (r r' : Rehearsal) (text source dir path : Text) (t : Target)
    (hdir : dir ≠ [])
    (h : (host.writeOutput text source dir t.dialect.extension).run r = ((path, none), r')) :
    r'.files.readFile r'.working path = .ok (text ++ Text.ofString "\n") ∧
      (Path.directory path = Path.clean dir ↔ Path.LandsIn dir (Path.lastName (Path.stem source))) := by
  obtain ⟨rfl, hread⟩ := writeOutput_ok h
  exact ⟨hread, Path.directory_output_iff hdir (slash_notMem_extension t)⟩

theorem writeOutput_lands_iff_nested :
    let ran := (host.writeOutput (Text.ofString "x") (Text.ofString "in/v.1.simple")
      (Text.ofString "out/./js/") Target.javascript.dialect.extension).run
        { files := .empty, working := [], interpreters := [] }
    ran.1 = (Text.ofString "out/js/v.1.js", none) ∧
      ran.2.files.readFile ran.2.working (Text.ofString "out/js/v.1.js")
        = .ok (Text.ofString "x" ++ Text.ofString "\n") ∧
      (Path.directory (Text.ofString "out/js/v.1.js") = Path.clean (Text.ofString "out/./js/") ↔
        Path.LandsIn (Text.ofString "out/./js/")
          (Path.lastName (Path.stem (Text.ofString "in/v.1.simple")))) := by
  intro ran
  have hran : ran.1 = (Text.ofString "out/js/v.1.js", none) := by rfl
  exact ⟨hran, writeOutput_lands_iff _ ran.2 _ _ _ _ .javascript (by decide)
    (Prod.ext hran rfl)⟩

/-- A source that is all extension is written beside the directory for output. -/
theorem writeOutput_escapes :
    ((host.writeOutput (Text.ofString "x") (Text.ofString ".simple") (Text.ofString "out")
      Target.javascript.dialect.extension).run
        { files := .empty, working := [], interpreters := [] }).1
        = (Text.ofString "out.js", none) ∧
      Path.directory (Text.ofString "out.js") ≠ Path.clean (Text.ofString "out") :=
  ⟨by rfl, by decide⟩

end Rehearsal

end Denotation
