import Mathlib.Data.List.Induction
import ScriptDesk.CommandLine.Program
import ScriptDesk.Proofs.Arguments
import ScriptDesk.Proofs.Scratch

/-!
# ScriptDesk.Proofs.Reports

`analyze` treats each file by itself (`Program.analyzesEach_run`). All files share an
editor, its queue and the one place for passes, and only the first is shown. But an idle
editor shows of every document what a single pass finds in its text
(`Editor.showsScratch_of_isIdle`), and waiting for it to be idle changes no document. So
the report on a file is a function of its path, its content and the mode
(`scratchReport`), whatever else was opened and in whatever order the passes ended.
-/

namespace ScriptDesk

/-- The report on what a single pass finds in a file of which nothing was known. -/
def scratchReport (enabled : Bool) (path text : String) : Report :=
  let a := (scratch text (some path) (if enabled then .full else .minimal)).toOption.getD {}
  { name := path
    status := .ofAnalysis a enabled true
    analysis := some a
    folds := a.folds (some path)
    outline := a.outline }

/-- A request leaves the file, the text and the mode of a document as they are. -/
theorem Lane.Requests.keeps {mode : Mode} {l l' : Lane} (h : Lane.Requests mode l l') :
    l'.session.path = l.session.path ∧ l'.session.text = l.session.text ∧
      l'.session.tracking.enabled = l.session.tracking.enabled := by
  cases h with
  | started task _ => rw [Lane.session_launch]; exact ⟨rfl, rfl, rfl⟩
  | queued => exact ⟨rfl, rfl, rfl⟩

namespace Editor

/-! ## Open scripts -/

/-- The document is this script, in the mode that the configuration asks for. -/
structure IsScript (config : Config) (script : String × String) (s : Session) : Prop where
  path : s.path = some script.1
  text : s.text = script.2
  enabled : s.tracking.enabled = config.analysis.enabled

/-- The open documents are these scripts, in order. -/
structure Holds (config : Config) (scripts : List (String × String)) (e : Editor) : Prop where
  configured : e.config = config
  opened : e.opened = scripts.length
  ids : e.ids = (List.range scripts.length).map fun i => ⟨i + 1⟩
  documents : ∀ s ∈ e.sessions, ∀ i, s.id = ⟨i + 1⟩ →
    ∃ script, scripts[i]? = some script ∧ IsScript config script s

theorem holds_new (config : Config) : Holds config [] (new config) where
  configured := rfl
  opened := rfl
  ids := rfl
  documents s hs := by cases hs

variable {config : Config} {scripts : List (String × String)} {e : Editor}

theorem Holds.openDocument (h : Holds config scripts e) (path text : String) :
    Holds config (scripts ++ [(path, text)]) (e.openDocument (some path) text).2 := by
  have hkept := start_keeps (e.withNext (some path) text) (e.next (some path) text)
    (e.next (some path) text).tracking.mode
  refine ⟨hkept.1.trans h.configured, ?_, ?_, ?_⟩
  · have hopened : (e.openDocument (some path) text).2.opened = e.opened + 1 := hkept.2.1
    rw [hopened, h.opened, List.length_append, List.length_singleton]
  · rw [ids_openDocument, h.ids, h.opened, List.length_append, List.length_singleton,
      List.range_succ, List.map_append]
    rfl
  · intro t ht i hi
    obtain ⟨s', hid, hreq, hsess⟩ := sessions_openDocument (e := e) (some path) text
    obtain ⟨hpath, htext, henabled⟩ := hreq.keeps
    rcases hsess t ht with rfl | hold
    · obtain rfl : i = scripts.length := by
        rw [hid, h.opened] at hi
        exact (Nat.succ.inj (DocumentId.mk.inj hi)).symm
      refine ⟨(path, text), List.getElem?_concat_length, hpath, htext, ?_⟩
      rw [← h.configured]
      exact henabled
    · obtain ⟨script, hscript, hs⟩ := h.documents t hold i hi
      have hlt : i < scripts.length := (List.getElem?_eq_some_iff.1 hscript).1
      exact ⟨script, (List.getElem?_append_left hlt).trans hscript, hs⟩

theorem Holds.wait (h : Holds config scripts e) (he : e.Sound) {c : Command} (hc : Waits c) :
    Holds config scripts (e.perform c).2 := by
  obtain ⟨hevolves, hids⟩ := evolves_wait he (List.forall_mem_singleton.2 hc)
  refine ⟨hevolves.config.trans h.configured, hevolves.opened.trans h.opened, hids.trans h.ids, ?_⟩
  intro t ht i hi
  obtain ⟨s, hs, hst, hsteps⟩ := hevolves.lanes t ht
  obtain ⟨hpath, htext, henabled⟩ := Lane.Advance.keeps_all hsteps
  obtain ⟨script, hscript, hs⟩ := h.documents s hs i (hst.trans hi)
  exact ⟨script, hscript, hpath.trans hs.path, htext.trans hs.text, henabled.trans hs.enabled⟩

/-- Commands that open scripts in order. In between, and after that, they only wait. -/
inductive Opens : List (String × String) → List Command → Prop where
  | nothing : Opens [] []
  | waits {scripts : List (String × String)} {commands : List Command} (h : Opens scripts commands)
      {c : Command} (hc : Waits c) : Opens scripts (commands ++ [c])
  | script {scripts : List (String × String)} {commands : List Command} (h : Opens scripts commands)
      (path text : String) :
      Opens (scripts ++ [(path, text)]) (commands ++ [.openDocument (some path) text])

theorem Opens.uses {commands : List Command} (h : Opens scripts commands) :
    ∀ c ∈ commands, c.Uses IsBuiltin := by
  induction h with
  | nothing => exact nofun
  | waits _ hc ih =>
    exact List.forall_mem_append.2 ⟨ih, List.forall_mem_singleton.2 (uses_of_waits hc)⟩
  | script _ path text ih =>
    exact List.forall_mem_append.2 ⟨ih, List.forall_mem_singleton.2 trivial⟩

theorem Opens.holds {commands : List Command} (h : Opens scripts commands) :
    Holds config scripts ((new config).run commands) := by
  induction h with
  | nothing => exact holds_new config
  | waits _ hc ih =>
    rw [run_append]
    exact ih.wait (sound_run config _) hc
  | script _ path text ih =>
    rw [run_append]
    exact ih.openDocument path text

theorem Opens.waits_all {commands waiting : List Command} (h : Opens scripts commands)
    (hw : ∀ c ∈ waiting, Waits c) : Opens scripts (commands ++ waiting) := by
  induction waiting generalizing commands with
  | nil => rwa [List.append_nil]
  | cons c rest ih =>
    have hfirst : Opens scripts (commands ++ [c]) := h.waits (hw c List.mem_cons_self)
    have hrest := ih hfirst fun c hm => hw c (List.mem_cons_of_mem _ hm)
    rwa [List.append_assoc] at hrest

/-! ## Reports -/

theorem ShowsScratch.report_eq {id : DocumentId} {path text : String} {enabled : Bool}
    {a : Analysis} (h : e.ShowsScratch id (some path) text enabled a) {s : Session}
    (hs : e.session? id = some s) (hpath : s.path = some path) :
    e.report id = scratchReport enabled path text := by
  unfold report scratchReport
  rw [h.found, h.analysis, h.status, h.folds, h.outline, hs, Option.bind_some, hpath]
  rfl

/-- However the passes went, once the editor is idle each script has the report that
it has on its own. -/
theorem Opens.reports {commands : List Command} (h : Opens scripts commands)
    (hidle : ((new config).run commands).isIdle = true) :
    ((new config).run commands).ids.map ((new config).run commands).report =
      scripts.map fun script => scratchReport config.analysis.enabled script.1 script.2 := by
  have hkeeps := faithful_run config h.uses
  have hholds : Holds config scripts ((new config).run commands) := h.holds
  generalize (new config).run commands = e at hidle hkeeps hholds ⊢
  rw [hholds.ids, List.map_map]
  refine List.ext_getElem (by simp) fun i hi _ => ?_
  have hlt : i < scripts.length := by simpa using hi
  have hopen : (⟨i + 1⟩ : DocumentId) ∈ e.ids := by
    rw [hholds.ids]
    exact List.mem_map_of_mem (List.mem_range.2 hlt)
  obtain ⟨s, hs, hid⟩ := List.mem_map.1 hopen
  obtain ⟨script, hscript, hpath, htext, henabled⟩ := hholds.documents s hs i hid
  obtain ⟨hm, hf⟩ := hkeeps.lanes s hs
  obtain ⟨-, a, hshows⟩ := showsScratch_of_isIdle hkeeps.sound hs hm hf hidle
  have hreport : e.report s.id = scratchReport config.analysis.enabled script.1 script.2 := by
    rw [hpath, htext, henabled] at hshows
    exact hshows.report_eq (hkeeps.sound.session?_of_mem hs) hpath
  rw [List.getElem?_eq_getElem hlt] at hscript
  simp [← hid, hreport, Option.some.inj hscript]

/-- Advancing until there is nothing to do is waiting. -/
theorem exists_waits_restWithin (fuel : Nat) (now : Time) (e : Editor) :
    ∃ waiting, (∀ c ∈ waiting, Waits c) ∧
      restWithin builtinAnalyzer fuel now e = e.run waiting := by
  induction fuel generalizing now e with
  | zero => exact ⟨[], nofun, rfl⟩
  | succ fuel ih =>
    rw [restWithin]
    split
    · exact ⟨[], nofun, rfl⟩
    · obtain ⟨waiting, hw, heq⟩ :=
        ih (e.advance builtinAnalyzer now).1 (e.advance builtinAnalyzer now).2
      refine ⟨.finishPass builtinAnalyzer :: .tick (e.nextTick now) :: waiting, ?_, heq⟩
      exact List.forall_mem_cons.2 ⟨rfl, List.forall_mem_cons.2 ⟨trivial, hw⟩⟩

end Editor

namespace Program

open Editor (Opens Waits)

variable {scripts : List (String × String)}

theorem openAll_concat (config : Config) (scripts : List (String × String)) (path text : String) :
    openAll config (scripts ++ [(path, text)]) =
      let (id, e) := (openAll config scripts).2.openDocument (some path) text
      ((openAll config scripts).1 ++ [id], e) := by
  unfold openAll
  rw [List.foldl_append]
  rfl

/-- Opening all scripts in a row. -/
theorem openAll_eq (config : Config) (scripts : List (String × String)) :
    ∃ commands, Opens scripts commands ∧
      openAll config scripts =
        (((Editor.new config).run commands).ids, (Editor.new config).run commands) := by
  induction scripts using List.reverseRecOn with
  | nil => exact ⟨[], .nothing, rfl⟩
  | append_singleton scripts script ih =>
    obtain ⟨path, text⟩ := script
    obtain ⟨commands, hopens, heq⟩ := ih
    refine ⟨_, hopens.script path text, ?_⟩
    rw [openAll_concat, heq, Editor.run_append]
    refine Prod.ext ?_ rfl
    exact (Editor.ids_openDocument (some path) text).symm

/-- The reports do not depend on each other. -/
theorem analyzeScripts_eq (config : Config) (scripts : List (String × String)) :
    analyzeScripts config scripts =
      scripts.map fun script => scratchReport config.analysis.enabled script.1 script.2 := by
  obtain ⟨commands, hopens, heq⟩ := openAll_eq config scripts
  let e := (Editor.new config).run commands
  have he : e.Sound := Editor.sound_run config commands
  obtain ⟨waiting, hw, hrest⟩ := Editor.exists_waits_restWithin e.workLeft 0 e
  have hrest : e.rest builtinAnalyzer 0 = (Editor.new config).run (commands ++ waiting) := by
    rw [Editor.run_append]
    exact hrest
  have hidle : ((Editor.new config).run (commands ++ waiting)).isIdle = true := by
    rw [← hrest]
    exact Editor.isIdle_restWithin he builtinAnalyzer (Nat.le_refl _) 0
  have hids : ((Editor.new config).run (commands ++ waiting)).ids = e.ids := by
    rw [Editor.run_append]
    exact (Editor.evolves_wait he hw).2
  have hreports := (hopens.waits_all hw).reports hidle
  rw [hids, ← hrest] at hreports
  unfold analyzeScripts
  rw [heq]
  exact hreports

/-! ## All files or none -/

variable {look : Look} {files : List String}

/-- There is a text at the path. -/
def Readable (look : Look) (path : String) : Prop := ∃ content, look path = .text content

/-- The file with what is read there. -/
def scriptAt (look : Look) (path : String) : String × String := (path, (look path).text?.getD "")

theorem readScript_of_readable {path : String} (h : Readable look path) :
    readScript look path = .ok (scriptAt look path).2 := by
  obtain ⟨content, h⟩ := h
  rw [readScript, scriptAt, h]
  rfl

theorem readScript_of_not_readable {path : String} (h : ¬ Readable look path) :
    readScript look path = .error (.reading path) := by
  unfold readScript
  split
  · next content hc => exact absurd ⟨content, hc⟩ h
  · rfl

/-- Reads the files in order. -/
def readScripts (look : Look) (files : List String) :
    Except ProgramError (List (String × String)) :=
  files.mapM fun path => do return (path, ← readScript look path)

theorem readScripts_of_readable (h : ∀ file ∈ files, Readable look file) :
    readScripts look files = .ok (files.map (scriptAt look)) := by
  induction files with
  | nil => rfl
  | cons path rest ih =>
    have hrest := ih fun file hf => h file (List.mem_cons_of_mem _ hf)
    unfold readScripts at hrest ⊢
    rw [List.mapM_cons, readScript_of_readable (h path List.mem_cons_self), hrest]
    rfl

/-- The first file that cannot be read is the one that is named. -/
theorem readScripts_of_not_readable {before after : List String} {path : String}
    (hbefore : ∀ file ∈ before, Readable look file) (hpath : ¬ Readable look path) :
    readScripts look (before ++ path :: after) = .error (.reading path) := by
  induction before with
  | nil =>
    unfold readScripts
    rw [List.nil_append, List.mapM_cons, readScript_of_not_readable hpath]
    rfl
  | cons first rest ih =>
    have hrest := ih fun file hf => hbefore file (List.mem_cons_of_mem _ hf)
    unfold readScripts at hrest ⊢
    rw [List.cons_append, List.mapM_cons, readScript_of_readable (hbefore first List.mem_cons_self),
      hrest]
    rfl

/-- What is printed for a file. -/
def outputFor (look : Look) (config : Config) (path : String) : String :=
  (scratchReport config.analysis.enabled path (scriptAt look path).2).render

theorem analyze_of_readable (config : Config) (h : ∀ file ∈ files, Readable look file) :
    analyze look config files = .ok (String.join (files.map (outputFor look config))) := by
  change (readScripts look files >>= fun scripts =>
    Except.ok (String.join ((analyzeScripts config scripts).map Report.render))) = _
  rw [readScripts_of_readable h]
  change Except.ok (String.join ((analyzeScripts config _).map Report.render)) = _
  rw [analyzeScripts_eq, List.map_map, List.map_map]
  rfl

theorem analyze_of_not_readable (config : Config) {before after : List String} {path : String}
    (hbefore : ∀ file ∈ before, Readable look file) (hpath : ¬ Readable look path) :
    analyze look config (before ++ path :: after) = .error (.reading path) := by
  change (readScripts look (before ++ path :: after) >>= fun scripts =>
    Except.ok (String.join ((analyzeScripts config scripts).map Report.render))) = _
  rw [readScripts_of_not_readable hbefore hpath]
  rfl

/-- The configuration in which `analyze` works. -/
def settingsFor (config : Config) (minimal : Bool) : Config :=
  if minimal then { config with analysis := { config.analysis with enabled := false } } else config

/-- How a task ends once the configuration is loaded. -/
def endingOf : Except ProgramError String → Ending
  | .ok output => .done output
  | .error error => .failed error

theorem run_of_parse {userPath : String} {words later : List String} {invocation : Invocation}
    {config : Config} (hparse : CommandLine.parse words = .ok invocation)
    (hconfig : loadConfig look userPath invocation.config = .ok config) :
    run look userPath words later = endingOf (perform look config later invocation.task) := by
  unfold run
  rw [hparse]
  dsimp only
  rw [hconfig]
  dsimp only
  cases perform look config later invocation.task <;> rfl

/-- The run for one file on its own, with the same options. -/
def alone (look : Look) (userPath : String) (asked : Option String) (verbose minimal : Bool)
    (file : String) : Ending :=
  run look userPath (CommandLine.analyzeWords asked verbose minimal [file]) []

/-- `analyze` on some files: each by itself, and all of them or none. -/
structure AnalyzesEach (look : Look) (userPath : String) (asked : Option String)
    (verbose minimal : Bool) (files : List String) (config : Config) (ending : Ending) : Prop where
  nonempty : files ≠ []
  /-- Each file can be asked for on its own. -/
  understood : ∀ file ∈ files, CommandLine.parse
    (CommandLine.analyzeWords asked verbose minimal [file]) =
      .ok ⟨asked, verbose, .analyze [file] minimal⟩
  /-- If all files can be read, what is printed for each on its own is printed in order. -/
  printed : (∀ file ∈ files, Readable look file) →
    ending.exitCode = 0 ∧
      ending.output = String.join (files.map fun file =>
        (alone look userPath asked verbose minimal file).output) ∧
      ∀ file ∈ files, (alone look userPath asked verbose minimal file).exitCode = 0
  /-- The first file that cannot be read is named, and nothing is printed. -/
  unread : ∀ before path after, files = before ++ path :: after →
    (∀ file ∈ before, Readable look file) → ¬ Readable look path →
      ending.exitCode = 1 ∧ ending.output = "" ∧ ending.message? = some ("reading " ++ path)
  /-- The passes may end at any time, also while files are still opened: once the editor is
  idle, the reports are the same. -/
  anyTiming : ∀ scripts commands, Opens scripts commands →
    let e := (Editor.new (settingsFor config minimal)).run commands
    e.isIdle = true → e.ids.map e.report = analyzeScripts (settingsFor config minimal) scripts

/-- `analyze` is all or nothing and treats files independently. -/
theorem analyzesEach_run (look : Look) (userPath : String) (later : List String)
    {words : List String} {asked : Option String} {verbose minimal : Bool} {files : List String}
    {config : Config}
    (hparse : CommandLine.parse words = .ok ⟨asked, verbose, .analyze files minimal⟩)
    (hconfig : loadConfig look userPath asked = .ok config) :
    AnalyzesEach look userPath asked verbose minimal files config
      (run look userPath words later) := by
  obtain ⟨hasked, hnonempty, hpaths⟩ := CommandLine.proper_of_parse_eq_ok hparse
  have hunderstood (file : String) (hf : file ∈ files) : CommandLine.parse
      (CommandLine.analyzeWords asked verbose minimal [file]) =
        .ok ⟨asked, verbose, .analyze [file] minimal⟩ :=
    CommandLine.parse_analyzeWords verbose minimal hasked (List.cons_ne_nil _ _)
      (List.forall_mem_singleton.2 (hpaths file hf))
  have hrun : run look userPath words later =
      endingOf (analyze look (settingsFor config minimal) files) := run_of_parse hparse hconfig
  have halone (file : String) (hf : file ∈ files) (hread : Readable look file) :
      alone look userPath asked verbose minimal file =
        .done (outputFor look (settingsFor config minimal) file) := by
    have hread : ∀ f ∈ [file], Readable look f := List.forall_mem_singleton.2 hread
    refine (run_of_parse (hunderstood file hf) hconfig).trans ?_
    change endingOf (analyze look (settingsFor config minimal) [file]) = _
    rw [analyze_of_readable _ hread]
    simp [endingOf, String.join]
  refine ⟨hnonempty, hunderstood, fun hread => ?_, ?_, ?_⟩
  · rw [hrun, analyze_of_readable _ hread]
    refine ⟨rfl, ?_, fun file hf => by rw [halone file hf (hread file hf)]; rfl⟩
    refine congrArg String.join (List.map_congr_left fun file hf => ?_)
    rw [halone file hf (hread file hf)]
    rfl
  · rintro before path after rfl hbefore hpath
    rw [hrun, analyze_of_not_readable _ hbefore hpath]
    exact ⟨rfl, rfl, rfl⟩
  · intro scripts commands hopens e hidle
    rw [analyzeScripts_eq]
    exact hopens.reports hidle

/-- One script and nothing else. -/
def oneScript : Look := fun path => if path = "a.ssl" then .text "procedure p; end" else .missing

/-- The script is named twice, and then a file that is missing is named too. -/
theorem analyzesEach_run_twice :
    let printed := (alone oneScript "user.toml" none false false "a.ssl").output
    let twice := run oneScript "user.toml" ["analyze", "a.ssl", "a.ssl"] []
    let cut := run oneScript "user.toml" ["analyze", "a.ssl", "b.ssl"] []
    twice.exitCode = 0 ∧ twice.output = String.join [printed, printed] ∧
      cut.exitCode = 1 ∧ cut.output = "" ∧ cut.message? = some "reading b.ssl" := by
  have hread : Readable oneScript "a.ssl" := ⟨_, rfl⟩
  have hmissing : ¬ Readable oneScript "b.ssl" := nofun
  have hconfig : loadConfig oneScript "user.toml" none = .ok {} := rfl
  have htwice : CommandLine.parse ["analyze", "a.ssl", "a.ssl"] =
      .ok ⟨none, false, .analyze ["a.ssl", "a.ssl"] false⟩ := by decide
  have hcut : CommandLine.parse ["analyze", "a.ssl", "b.ssl"] =
      .ok ⟨none, false, .analyze ["a.ssl", "b.ssl"] false⟩ := by decide
  obtain ⟨hcode, hout, -⟩ :=
    (analyzesEach_run oneScript "user.toml" [] htwice hconfig).printed (by simp [hread])
  exact ⟨hcode, hout, (analyzesEach_run oneScript "user.toml" [] hcut hconfig).unread
    ["a.ssl"] "b.ssl" [] rfl (by simp [hread]) hmissing⟩

end Program

end ScriptDesk
