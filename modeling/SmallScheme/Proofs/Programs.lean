import SmallScheme.Proofs.Continuation
import SmallScheme.Proofs.Depth
import SmallScheme.Proofs.Record

/-
Module: SmallScheme.Proofs.Programs
Purpose: Programs in parts and programs in files. A text is read as a whole and then evaluated form by form, so behind a
  text that can be read another one continues where the first has ended, and a text that cannot be read changes nothing.
  A file that is loaded at the root or run is evaluated as its text would be. The forms of a loaded file are nested one
  level deeper than those of a text, which makes a difference only at the limit of nesting, and other steps are recorded.
Main exports: evalProgram_append, evalText_append_newline, alike_loadForms, alike_load, alike_runFile, outcome_of_text
-/

namespace SmallScheme

/-!
### Texts one after the other
-/

/-- A program in two parts is evaluated part by part, and the second starts from the value of the first. -/
theorem evalProgram_append (last : Value) (forms others : List Value) :
    evalProgram last (forms ++ others) = (do
      let v ← evalProgram last forms
      evalProgram v others) := by
  induction forms generalizing last with
  | nil => simp [evalProgram]
  | cons form forms ih => simp [evalProgram, ih]

/-- The value that a program starts from is its value only if it has no form. -/
theorem evalProgram_from (last : Value) (forms : List Value) :
    evalProgram last forms = (do
      let v ← evalProgram (.list []) forms
      return if forms.isEmpty then last else v) := by
  cases forms with
  | nil => simp [evalProgram]
  | cons form forms => simp [evalProgram]

theorem evalText_of_ok {source : List Char} {forms : List Value} (success : readAll source = .ok forms) :
    evalText source = evalProgram (.list []) forms := by
  simp [evalText, success, Action.ofExcept]

/-- A text that cannot be read changes nothing. -/
theorem evalText_of_error {source : List Char} {fault : Fault} (failure : readAll source = .error fault)
    (i : Interpreter) : evalText source i = .error fault i := by
  rw [evalText, failure]
  rfl

/-- Behind a text that can be read and a line feed, a text is evaluated as it is after the first. -/
theorem evalText_append_newline {a b : List Char} {vs ws : List Value} (first : readAll a = .ok vs)
    (second : readAll b = .ok ws) :
    evalText (a ++ '\n' :: b) = (do
      let v ← evalText a
      let w ← evalText b
      return if ws.isEmpty then v else w) := by
  have whole : readAll (a ++ '\n' :: b) = .ok (vs ++ ws) := by
    rw [readAll_continued first b, second]
    rfl
  rw [evalText_of_ok whole, evalText_of_ok first, evalText_of_ok second, evalProgram_append]
  exact bind_congr fun v => evalProgram_from v ws

/-!
### Files
-/

/-- The expression that loads a file. -/
def loading (file : String) : Value :=
  .list [.sym Keyword.loading.name, .str file]

/-- Loading evaluates the forms of the file one level deeper, and gives the value of the last of them. -/
theorem eval_loading (depth : Nat) (s : ScopeId) (file : String) :
    eval (depth + 1) s (loading file) = (do
      let forms ← loadForms file
      evalSequence (eval depth) s (.list []) forms) :=
  rfl

/-- Loading a file gives what its text gives when it is read, and changes the record at most. -/
theorem alike_loadForms {i : Interpreter} {file : String} {text : List Char} (found : i.readFile file = .ok text) :
    Alike SameButRecord (fun _ => True) (Action.ofExcept (readAll text) i) (loadForms file i) := by
  obtain ⟨started, noted, unchanged⟩ := sameButRecord_note .loading ("loading " ++ file) i
  have stillFound : started.readFile file = .ok text := (unchanged.readFile file).trans found
  have fileRead : readFile file started = .ok text started := by
    simp only [readFile, run_get_bind, stillFound]
    rfl
  rw [loadForms, run_bind_of_ok noted, run_bind_of_ok fileRead]
  cases readAll text with
  | error fault => exact .error unchanged
  | ok forms =>
      obtain ⟨after, notedForms, same⟩ :=
        sameButRecord_note .loading ("read " ++ toString forms.length ++ " forms from " ++ file) started
      change Alike _ _ (.ok forms i) ((note .loading _ >>= fun _ => pure forms) started)
      rw [run_bind_of_ok notedForms]
      exact .ok trivial (unchanged.trans same)

/-- The forms of a program are evaluated one after the other, whether each is recorded first or not. -/
theorem alike_evalProgram (forms : List Value) (last : Value) {i j : Interpreter} (related : SameButRecord i j) :
    Alike SameButRecord (fun _ => True) (evalProgram last forms i) (evalSequence evaluate root last forms j) := by
  induction forms generalizing last i j with
  | nil => exact .ok trivial related
  | cons form forms ih =>
      obtain ⟨started, noted, unchanged⟩ := sameButRecord_note .evaluation ("eval " ++ form.text) i
      rw [evalProgram, run_bind_of_ok noted, evalSequence]
      have evaluated := recordBlindness.eval maxDepth (s := root) (e := form) trivial trivial
      exact (evaluated started j (unchanged.symm.trans related)).bind fun v _ _ _ => ih v

/-- Unless the limit of nesting is met, the forms of a loaded file might as well be nested no deeper than the loading. -/
theorem deepenedBy_load (depth : Nat) (s : ScopeId) (file : String) :
    DeepenedBy (eval (depth + 1) s (loading file)) (loadForms file >>= evalSequence (eval (depth + 1)) s (.list [])) := by
  rw [eval_loading]
  apply (DeepenedBy.refl (loadForms file)).bind
  exact .evalSequence (eval_deepenedBy (Nat.le_succ depth)) s (.list [])

/-- Unless the limit of nesting is met, loading a file at the root ends as the evaluation of its text. -/
theorem alike_load {i : Interpreter} {file : String} {text : List Char} (found : i.readFile file = .ok text)
    (within : ¬ Ending.AtLimit (evaluate root (loading file) i)) :
    Alike SameButRecord (fun _ => True) (evalText text i) (evaluate root (loading file) i) := by
  have deepened : DeepenedBy (evaluate root (loading file)) (loadForms file >>= evalSequence evaluate root (.list [])) :=
    deepenedBy_load 4999 root file
  rw [← deepened.eq_of_not_atLimit within]
  exact (alike_loadForms found).bind fun forms _ _ _ related => alike_evalProgram forms _ related

/-- Unless the limit of nesting is met, running a file ends as the definition of its arguments and then the evaluation of
    its text. -/
theorem alike_runFile {i : Interpreter} {file : String} {text : List Char} (found : i.readFile file = .ok text)
    (args : List String) (within : ¬ Ending.AtLimit (runFile file args i)) :
    Alike SameButRecord (fun _ => True)
      ((do let _ ← define root "args" (.list (args.map .str)); evalText text) i) (runFile file args i) := by
  obtain ⟨j, defined, sameFiles, sameSettings⟩ : ∃ j, define root "args" (.list (args.map .str)) i =
      .ok (.list (args.map .str)) j ∧ j.files = i.files ∧ j.settings = i.settings := ⟨_, rfl, rfl, rfl⟩
  have stillFound : j.readFile file = .ok text :=
    (Interpreter.readFile_congr sameFiles sameSettings file).trans found
  rw [runFile, run_bind_of_ok defined] at within ⊢
  rw [run_bind_of_ok defined]
  exact alike_load stillFound within

/-- A file whose text cannot be read is not loaded, in any scope, and nothing but the record changes. -/
theorem load_of_error {i : Interpreter} {file : String} {text : List Char} {fault : Fault}
    (found : i.readFile file = .ok text) (failure : readAll text = .error fault) (depth : Nat) (s : ScopeId) :
    ∃ after, eval (depth + 1) s (loading file) i = .error fault after ∧ SameButRecord i after := by
  have alike := alike_loadForms found
  rw [failure] at alike
  rw [eval_loading]
  generalize ended : loadForms file i = ending at alike
  cases alike with
  | error related => exact ⟨_, run_bind_of_error ended _, related⟩

/-- How a program is split does not matter, and a text that cannot be read changes nothing: behind a text that can be read
    and a line feed another is evaluated as it is after the first, and gives the value of the first if it has no form;
    unless the limit of nesting is met, loading a file at the root ends as the evaluation of its text, and running it as
    that after the definition of the arguments; and the fault of a text that cannot be read is the fault of its
    evaluation, which leaves all as it was, and of loading it anywhere, which leaves all but the record as it was. -/
theorem outcome_of_program_text (i : Interpreter) :
    (∀ a b vs ws, readAll a = .ok vs → readAll b = .ok ws →
      evalText (a ++ '\n' :: b) i = (do
        let v ← evalText a
        let w ← evalText b
        return if ws.isEmpty then v else w) i) ∧
    (∀ file text, i.readFile file = .ok text →
      (¬ Ending.AtLimit (evaluate root (loading file) i) →
        Alike SameButRecord (fun _ => True) (evalText text i) (evaluate root (loading file) i)) ∧
      ∀ args, ¬ Ending.AtLimit (runFile file args i) →
        Alike SameButRecord (fun _ => True)
          ((do let _ ← define root "args" (.list (args.map .str)); evalText text) i) (runFile file args i)) ∧
    ∀ text fault, readAll text = .error fault →
      evalText text i = .error fault i ∧
      ∀ file, i.readFile file = .ok text → ∀ depth s, ∃ after,
        eval (depth + 1) s (loading file) i = .error fault after ∧ SameButRecord i after := by
  refine ⟨fun a b vs ws first second => ?_, fun file text found => ⟨?_, ?_⟩, fun text fault failure => ⟨?_, ?_⟩⟩
  · rw [evalText_append_newline first second]
  · exact alike_load found
  · exact alike_runFile found
  · exact evalText_of_error failure i
  · exact fun file found => load_of_error found failure

/-- A definition and an expression. -/
def doublingSample : List Char :=
  "(define x 2)\n(+ x x)".toList

/-- The same, broken off. -/
def brokenSample : List Char :=
  "(define x 2)\n(+ x x".toList

/-- An interpreter with both texts in files. -/
def filesSample : Interpreter :=
  Interpreter.initial
    { files := [(["double"], (String.ofList doublingSample).toUTF8.toList),
        (["broken"], (String.ofList brokenSample).toUTF8.toList)] } {} []

theorem outcome_of_program_text_filesSample :
    readAll doublingSample = .ok [.list [.sym "define", .sym "x", .num 2], .list [.sym "+", .sym "x", .sym "x"]] ∧
    evalText (doublingSample ++ '\n' :: []) filesSample = (do
      let v ← evalText doublingSample
      let w ← evalText []
      return if ([] : List Value).isEmpty then v else w) filesSample ∧
    filesSample.readFile "double" = .ok doublingSample ∧
    ¬ Ending.AtLimit (evaluate root (loading "double") filesSample) ∧
    Alike SameButRecord (fun _ => True) (evalText doublingSample filesSample)
      (evaluate root (loading "double") filesSample) ∧
    ¬ Ending.AtLimit (runFile "double" ["4"] filesSample) ∧
    Alike SameButRecord (fun _ => True)
      ((do let _ ← define root "args" (.list (["4"].map .str)); evalText doublingSample) filesSample)
      (runFile "double" ["4"] filesSample) ∧
    readAll brokenSample = .error (.unreadable .unmatchedOpen ⟨2, 1⟩) ∧
    evalText brokenSample filesSample = .error (.unreadable .unmatchedOpen ⟨2, 1⟩) filesSample ∧
    filesSample.readFile "broken" = .ok brokenSample ∧
    ∃ after, eval (1 + 1) root (loading "broken") filesSample = .error (.unreadable .unmatchedOpen ⟨2, 1⟩) after ∧
      SameButRecord filesSample after := by
  have good : readAll doublingSample =
      .ok [.list [.sym "define", .sym "x", .num 2], .list [.sym "+", .sym "x", .sym "x"]] := by decide +kernel
  have empty : readAll [] = .ok [] := by decide +kernel
  have broken : readAll brokenSample = .error (.unreadable .unmatchedOpen ⟨2, 1⟩) := by decide +kernel
  have goodFile : filesSample.readFile "double" = .ok doublingSample := by decide +kernel
  have brokenFile : filesSample.readFile "broken" = .ok brokenSample := by decide +kernel
  have loads : ¬ Ending.AtLimit (evaluate root (loading "double") filesSample) := by decide +kernel
  have runs : ¬ Ending.AtLimit (runFile "double" ["4"] filesSample) := by decide +kernel
  obtain ⟨split, files, faults⟩ := outcome_of_program_text filesSample
  obtain ⟨loaded, run⟩ := files "double" doublingSample goodFile
  obtain ⟨unread, unloaded⟩ := faults brokenSample _ broken
  exact ⟨good, split doublingSample [] _ [] good empty, goodFile, loads, loaded loads, runs, run ["4"] runs, broken,
    unread, brokenFile, unloaded "broken" brokenFile 1 root⟩

end SmallScheme
