import ScriptDesk.CommandLine.Arguments

/-!
# ScriptDesk.Proofs.Arguments

What a command line that is understood asks for: no path in it is empty, and `analyze`
has files (`CommandLine.proper_of_parse_eq_ok`). Conversely, everything that can be
asked of `analyze` can be written (`CommandLine.parse_analyzeWords`), so whatever is
asked for some files can be asked for each of them on its own.
-/

namespace ScriptDesk

theorem Except.exists_of_bind_eq_ok {ε α β : Type} {x : Except ε α} {f : α → Except ε β} {b : β}
    (h : x >>= f = .ok b) : ∃ a, x = .ok a ∧ f a = .ok b := by
  cases x with
  | error e => contradiction
  | ok a => exact ⟨a, rfl, h⟩

/-- The task has its operands, and no file of it lies at an empty path. -/
def Task.Proper : Task → Prop
  | .analyze files _ => files ≠ [] ∧ ∀ file ∈ files, file ≠ ""
  | .locate _ => True
  | .watch file _ => file ≠ ""

/-- No path is empty. -/
structure Invocation.Proper (invocation : Invocation) : Prop where
  config : ∀ path, invocation.config = some path → path ≠ ""
  task : invocation.task.Proper

namespace CommandLine

/-! ## What is understood -/

namespace Given

/-- No path is empty among what was given at a level. -/
structure Proper (level : Level) (g : Given) : Prop where
  config : ∀ path, g.config = some path → path ≠ ""
  operands : level ≠ .locate → ∀ word ∈ g.operands, word ≠ ""

theorem proper_new (level : Level) : Proper level {} := ⟨nofun, fun _ => nofun⟩

variable {level : Level} {g g' : Given}

theorem Proper.takeFlag (hg : g.Proper level) {option : OptionName}
    (h : g.takeFlag option = .ok g') : g'.Proper level := by
  unfold Given.takeFlag at h
  split at h <;> try contradiction
  · split at h
    · contradiction
    · cases h
      exact ⟨hg.config, hg.operands⟩
  · split at h
    · contradiction
    · cases h
      exact ⟨hg.config, hg.operands⟩

theorem Proper.takeValue (hg : g.Proper level) {option : OptionName} {value : String}
    (h : g.takeValue option value = .ok g') : g'.Proper level := by
  unfold Given.takeValue at h
  split at h
  · split at h
    · contradiction
    · split at h
      · contradiction
      · next hne =>
        cases h
        refine ⟨fun path hp => ?_, hg.operands⟩
        obtain rfl : value = path := Option.some.inj hp
        exact hne
  · split at h
    · contradiction
    · split at h
      · cases h
        exact ⟨hg.config, hg.operands⟩
      · contradiction
  · contradiction

theorem Proper.takeOperand (hg : g.Proper level) {word : String}
    (h : g.takeOperand level word = .ok g') : g'.Proper level := by
  have hadded (hne : ¬ word = "") : Proper level { g with operands := g.operands ++ [word] } := by
    refine ⟨hg.config, fun hl w hw => ?_⟩
    rcases List.mem_append.1 hw with hw | hw
    · exact hg.operands hl w hw
    · rw [List.mem_singleton.1 hw]
      exact hne
  unfold Given.takeOperand at h
  split at h
  · split at h
    · contradiction
    · cases h
      exact hadded ‹_›
  · next hempty =>
    split at h
    · contradiction
    · cases h
      exact hadded ‹_›
  · cases h
    exact ⟨hg.config, fun hl => absurd rfl hl⟩
  · contradiction

theorem Proper.takeOperands (hg : g.Proper level) {words : List String}
    (h : words.foldlM (·.takeOperand level) g = .ok g') : g'.Proper level := by
  induction words generalizing g with
  | nil =>
    cases h
    exact hg
  | cons word rest ih =>
    obtain ⟨g₁, hword, hrest⟩ := Except.exists_of_bind_eq_ok h
    exact ih (hg.takeOperand hword) hrest

theorem Proper.takeLong (hg : g.Proper level) {name : String} {value : Option String}
    {awaiting : Option OptionName} (h : g.takeLong level name value = .ok (g', awaiting)) :
    g'.Proper level := by
  unfold Given.takeLong at h
  split at h
  · contradiction
  · split at h
    · obtain ⟨g₁, hvalue, hend⟩ := Except.exists_of_bind_eq_ok h
      cases hend
      exact hg.takeValue hvalue
    · cases h
      exact hg
    · obtain ⟨g₁, hflag, hend⟩ := Except.exists_of_bind_eq_ok h
      cases hend
      exact hg.takeFlag hflag
    · contradiction

theorem Proper.takeLetters (hg : g.Proper level) {letters : List Char}
    {awaiting : Option OptionName} (h : g.takeLetters level letters = .ok (g', awaiting)) :
    g'.Proper level := by
  induction letters generalizing g with
  | nil =>
    cases h
    exact hg
  | cons c more ih =>
    unfold Given.takeLetters at h
    split at h
    · contradiction
    · split at h
      · split at h
        · cases h
          exact hg
        · obtain ⟨g₁, hvalue, hend⟩ := Except.exists_of_bind_eq_ok h
          cases hend
          exact hg.takeValue hvalue
        · obtain ⟨g₁, hvalue, hend⟩ := Except.exists_of_bind_eq_ok h
          cases hend
          exact hg.takeValue hvalue
      · obtain ⟨g₁, hflag, hrest⟩ := Except.exists_of_bind_eq_ok h
        exact ih (hg.takeFlag hflag) hrest

end Given

theorem proper_of_readLevel_eq_ok {level : Level} {awaiting : Option OptionName} {g g' : Given}
    {words rest : List String} (hg : g.Proper level)
    (h : readLevel level awaiting g words = .ok (g', rest)) : g'.Proper level := by
  induction words generalizing awaiting g with
  | nil =>
    cases awaiting with
    | none =>
      cases h
      exact hg
    | some option => contradiction
  | cons word more ih =>
    cases awaiting with
    | some option =>
      unfold readLevel at h
      split at h
      · obtain ⟨g₁, hvalue, hrest⟩ := Except.exists_of_bind_eq_ok h
        exact ih (hg.takeValue hvalue) hrest
      · contradiction
    | none =>
      unfold readLevel at h
      split at h
      · obtain ⟨g₁, hwords, hend⟩ := Except.exists_of_bind_eq_ok h
        cases hend
        exact hg.takeOperands hwords
      · obtain ⟨⟨g₁, awaiting⟩, hlong, hrest⟩ := Except.exists_of_bind_eq_ok h
        exact ih (hg.takeLong hlong) hrest
      · obtain ⟨⟨g₁, awaiting⟩, hletters, hrest⟩ := Except.exists_of_bind_eq_ok h
        exact ih (hg.takeLetters hletters) hrest
      · split at h
        · cases h
          exact hg
        · obtain ⟨g₁, hword, hrest⟩ := Except.exists_of_bind_eq_ok h
          exact ih (hg.takeOperand hword) hrest

theorem Given.Proper.task {level : Level} {g : Given} {task : Task} (hg : g.Proper level)
    (h : g.task level = .ok task) : task.Proper := by
  cases level with
  | top => contradiction
  | analyze =>
    rw [Given.task] at h
    split at h
    · contradiction
    · next hne =>
      cases h
      exact ⟨by simpa using hne, hg.operands nofun⟩
  | locate =>
    rw [Given.task] at h
    split at h
    · cases h
      trivial
    · contradiction
  | watch =>
    rw [Given.task] at h
    split at h
    · next file rest hoperands =>
      cases h
      exact hg.operands nofun file (hoperands ▸ List.mem_cons_self)
    · contradiction

/-- A command line that is understood names no empty path, and has its operands. -/
theorem proper_of_parse_eq_ok {words : List String} {invocation : Invocation}
    (h : parse words = .ok invocation) : invocation.Proper := by
  obtain ⟨⟨outer, rest⟩, houter, h⟩ := Except.exists_of_bind_eq_ok h
  have hproper := proper_of_readLevel_eq_ok (Given.proper_new .top) houter
  dsimp only at h
  split at h
  · contradiction
  · split at h
    · next level _ =>
      obtain ⟨⟨inner, _⟩, hinner, h⟩ := Except.exists_of_bind_eq_ok h
      obtain ⟨task, htask, h⟩ := Except.exists_of_bind_eq_ok h
      have hinner := proper_of_readLevel_eq_ok (Given.proper_new level) hinner
      cases h
      refine ⟨fun path hp => ?_, hinner.task htask⟩
      cases hin : inner.config with
      | some own =>
        rw [hin] at hp
        obtain rfl : own = path := Option.some.inj hp
        exact hinner.config own hin
      | none =>
        rw [hin] at hp
        exact hproper.config path hp
    · contradiction

/-! ## What can be asked of `analyze` -/

/-- The words that ask for the reports on some files. -/
def analyzeWords (config : Option String) (verbose minimal : Bool) (files : List String) :
    List String :=
  (config.map ("--config=" ++ ·)).toList ++ (if verbose then ["--verbose"] else []) ++
    "analyze" :: (if minimal then ["--minimal"] else []) ++ "--" :: files

section Words

variable {g : Given} {rest : List String}

theorem ofString_configWord (path : String) :
    Word.ofString ("--config=" ++ path) = .long "config" (some path) := by
  have hlist : ("--config=" ++ path).toList =
      '-' :: '-' :: 'c' :: 'o' :: 'n' :: 'f' :: 'i' :: 'g' :: '=' :: path.toList := by
    rw [String.toList_append]
    rfl
  have hlong : Word.ofString ("--config=" ++ path) =
      .long "config" (some (String.ofList path.toList)) := by
    rw [Word.ofString, hlist]
    rfl
  rw [hlong, String.ofList_toList]

/-- A long option that awaits no further value is taken as it stands. -/
theorem readLevel_long {level : Level} {g' : Given} {word name : String} {value : Option String}
    (hword : Word.ofString word = .long name value)
    (htake : g.takeLong level name value = .ok (g', none)) :
    readLevel level none g (word :: rest) = readLevel level none g' rest := by
  rw [readLevel, hword]
  dsimp only
  rw [htake]
  rfl

theorem readLevel_config {path : String} (hg : g.config = none) (hp : path ≠ "") :
    readLevel .top none g (("--config=" ++ path) :: rest) =
      readLevel .top none { g with config := some path } rest := by
  have hvalue : g.takeValue .config path = .ok { g with config := some path } := by
    simp [Given.takeValue, hg, hp]
  refine readLevel_long (ofString_configWord path) ?_
  change (g.takeValue .config path >>= fun g => Except.ok (g, none)) = _
  rw [hvalue]
  rfl

theorem readLevel_flag {level : Level} {g' : Given} {word name : String} {option : OptionName}
    (hword : Word.ofString word = .long name none)
    (hlong : g.takeLong level name none = g.takeFlag option >>= fun g => Except.ok (g, none))
    (hflag : g.takeFlag option = .ok g') :
    readLevel level none g (word :: rest) = readLevel level none g' rest := by
  refine readLevel_long hword ?_
  rw [hlong, hflag]
  rfl

theorem readLevel_verbose (hg : g.verbose = false) :
    readLevel .top none g ("--verbose" :: rest) =
      readLevel .top none { g with verbose := true } rest := by
  have hflag : g.takeFlag .verbose = .ok { g with verbose := true } := by
    simp [Given.takeFlag, hg]
  exact readLevel_flag (show _ = Word.long "verbose" none by decide) rfl hflag

theorem readLevel_minimal (hg : g.minimal = false) :
    readLevel .analyze none g ("--minimal" :: rest) =
      readLevel .analyze none { g with minimal := true } rest := by
  have hflag : g.takeFlag .minimal = .ok { g with minimal := true } := by
    simp [Given.takeFlag, hg]
  exact readLevel_flag (show _ = Word.long "minimal" none by decide) rfl hflag

theorem readLevel_command :
    readLevel .top none g ("analyze" :: rest) = .ok (g, "analyze" :: rest) := by
  have hword : Word.ofString "analyze" = .operand "analyze" := by decide
  rw [readLevel, hword]
  rfl

theorem foldlM_takeOperand {files : List String} (hpaths : ∀ file ∈ files, file ≠ "") :
    files.foldlM (·.takeOperand .analyze) g = .ok { g with operands := g.operands ++ files } := by
  induction files generalizing g with
  | nil => simp; rfl
  | cons file rest ih =>
    have hfile : g.takeOperand .analyze file = .ok { g with operands := g.operands ++ [file] } :=
      if_neg (hpaths file List.mem_cons_self)
    rw [List.foldlM_cons, hfile]
    refine (ih fun f hf => hpaths f (List.mem_cons_of_mem _ hf)).trans ?_
    simp

theorem readLevel_files {files : List String} (hpaths : ∀ file ∈ files, file ≠ "") :
    readLevel .analyze none g ("--" :: files) =
      .ok ({ g with operands := g.operands ++ files }, []) := by
  have hword : Word.ofString "--" = .escape := by decide
  rw [readLevel, hword]
  dsimp only
  rw [foldlM_takeOperand hpaths]
  rfl

end Words

/-- Everything that can be asked of `analyze` can be written. -/
theorem parse_analyzeWords {config : Option String} (verbose minimal : Bool) {files : List String}
    (hconfig : ∀ path, config = some path → path ≠ "") (hfiles : files ≠ [])
    (hpaths : ∀ file ∈ files, file ≠ "") :
    parse (analyzeWords config verbose minimal files) =
      .ok ⟨config, verbose, .analyze files minimal⟩ := by
  let behind := (if minimal then ["--minimal"] else []) ++ "--" :: files
  have hflag (g : Given) (hg : g.verbose = false) :
      readLevel .top none g ((if verbose then ["--verbose"] else []) ++ "analyze" :: behind) =
        .ok ({ g with verbose }, "analyze" :: behind) := by
    cases verbose with
    | false =>
      have hsame : { g with verbose := false } = g := by rw [← hg]
      rw [hsame]
      exact readLevel_command
    | true => exact (readLevel_verbose hg).trans readLevel_command
  have houter : readLevel .top none {} (analyzeWords config verbose minimal files) =
      .ok ({ config, verbose }, "analyze" :: behind) := by
    unfold analyzeWords
    rw [List.append_assoc, List.append_assoc]
    cases config with
    | none => exact hflag {} rfl
    | some path => exact (readLevel_config rfl (hconfig path rfl)).trans (hflag _ rfl)
  have hinner : readLevel .analyze none {} behind = .ok ({ minimal, operands := files }, []) := by
    cases minimal with
    | false => exact readLevel_files hpaths
    | true => exact (readLevel_minimal rfl).trans (readLevel_files hpaths)
  have htask : Given.task { minimal, operands := files } .analyze = .ok (.analyze files minimal) :=
    if_neg (by simpa using hfiles)
  unfold parse
  rw [houter]
  change (readLevel .analyze none {} behind >>= fun x => _) = _
  rw [hinner]
  change (Given.task _ .analyze >>= fun x => _) = _
  rw [htask]
  change Except.ok (⟨config, verbose || false, .analyze files minimal⟩ : Invocation) = _
  rw [Bool.or_false]

end CommandLine

end ScriptDesk
