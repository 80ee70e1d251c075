import BuildSync.Proofs.Command.History
import BuildSync.Proofs.Command.Requests
import BuildSync.Proofs.Document.Preview

namespace BuildSync

open Arguments

theorem shownLines_of_ne_nil {text line : List Char} (h : line ≠ []) :
    ∃ more lines, shownLines text line = (line.reverse ++ more) :: lines := by
  fun_induction shownLines text line with
  | case1 => exact absurd rfl h
  | case2 line hne => exact ⟨[], [], by rw [List.append_nil]⟩
  | case3 rest line ih => exact ⟨[], _, by rw [List.append_nil]⟩
  | case4 rest line ih => exact ⟨[], _, by rw [List.append_nil]⟩
  | case5 line c rest hcr hlf ih =>
    obtain ⟨more, lines, hlines⟩ := ih (List.cons_ne_nil _ _)
    exact ⟨c :: more, lines, by rw [hlines, List.reverse_cons, List.append_assoc]; rfl⟩

theorem diffStyle_ne_boldGreen (line : String) : diffStyle line ≠ some .boldGreen := by
  rw [diffStyle]
  split_ifs <;> nofun

theorem paintedLine_ne_boldGreen (colored : Bool) (cs : List Char) (rest rest' : String) :
    paintedLine colored (String.ofList ('-' :: cs)) ++ rest ≠ Style.boldGreen.paint colored "OK" ++ rest' := by
  have hstyle := diffStyle_ne_boldGreen (String.ofList ('-' :: cs))
  rw [paintedLine]
  generalize diffStyle (String.ofList ('-' :: cs)) = style at hstyle
  intro heq
  have hchars := congrArg String.toList heq
  cases style with
  | none => cases colored <;> simp [Style.paint, Style.code] at hchars
  | some style =>
    cases colored with
    | false => simp [Style.paint] at hchars
    | true =>
      cases style with
      | boldGreen => exact hstyle rfl
      | _ => simp [Style.paint, Style.code] at hchars

def upToDate (colored : Bool) (path : String) : String :=
  Style.boldGreen.paint colored "OK" ++ " " ++ path ++ " is up to date\n"

theorem paintedDiff_ne_upToDate {diff : String} {rest : List Char} (h : diff.toList = '-' :: rest)
    (colored : Bool) (path : String) : paintedDiff colored diff ≠ upToDate colored path := by
  have hshown : shownLines ('-' :: rest) [] = shownLines rest ['-'] := by
    rw [shownLines] <;> nofun
  have hline : ['-'] ≠ [] := List.cons_ne_nil '-' []
  obtain ⟨more, lines, hlines⟩ := shownLines_of_ne_nil hline
  rw [paintedDiff, h, hshown, hlines, List.foldr_cons, upToDate, String.append_assoc, String.append_assoc,
    String.append_assoc]
  exact paintedLine_ne_boldGreen colored more _ _

namespace Command

variable {command : Command} {tree : FileTree} {report : Report} {doc : Document} {bytes : List UInt8}

theorem target_withOutput (output : Output) (command : Command) :
    (command.withOutput output).target = command.target := by
  cases command <;> rfl

theorem sync_withOutput (output : Output) (command : Command) (tree : FileTree) :
    (command.withOutput output).sync tree = command.sync tree := by
  cases command <;> rfl

theorem run_write (env : Environment) (h : command.sync tree = .ok (report, doc)) (houtput : command.output = .write)
    (hfind : tree.find command.target = .ok (.file bytes)) (hwritable : tree.Writable env.process command.target) :
    ∃ tree' out, command.run env tree = (tree', .ok out) ∧
      tree'.find command.target = .ok (.file (Utf8.encode doc.text)) := by
  obtain ⟨tree', hrun⟩ := run_of_writable env h houtput hwritable
  obtain ⟨report', doc', hsync, hwrite⟩ := run_eq_ok hrun houtput
  cases h.symm.trans hsync
  exact ⟨tree', _, hrun, FileTree.find_of_write hfind hwrite⟩

theorem run_dryRun (env : Environment) (h : command.sync tree = .ok (report, doc)) :
    (command.withOutput .dryRun).run env tree = (tree, .ok doc.text) := by
  rw [run_of_sync env ((sync_withOutput .dryRun command tree).trans h), output_withOutput]
  rfl

theorem run_diff (env : Environment) (h : command.sync tree = .ok (report, doc))
    (hfind : tree.find command.target = .ok (.file bytes)) :
    ∃ out, (command.withOutput .diff).run env tree = (tree, .ok out) ∧
      (out = upToDate env.colored command.target ↔ Utf8.encode doc.text = bytes) := by
  obtain ⟨path, flavor, d, hparse, -⟩ := syncs_of_sync h hfind
  obtain ⟨source, hdecode, -⟩ := Document.ofSource_of_parse hparse
  obtain ⟨diff, hpreview, hsame, hshown⟩ := Document.preview_of_find hfind hdecode doc
  rw [run_of_sync env ((sync_withOutput .diff command tree).trans h), output_withOutput, target_withOutput, finish]
  simp only [hpreview]
  refine ⟨_, rfl, ?_⟩
  rw [hsame]
  split_ifs with hdiff
  · exact iff_of_true rfl hdiff
  · obtain ⟨rest, hrest⟩ := hshown hdiff
    exact iff_of_false (paintedDiff_ne_upToDate hrest _ _) hdiff

end Command

namespace CommandLine

variable {line : CommandLine} {env : Environment} {dryProcess diffProcess : Process}
  {tree tree' dryTree diffTree : FileTree}
  {written dry diff : Ending}

theorem outputs (hwritable : ∀ command bytes, Request.ofArguments (line.words .write) env.manifest = .run command →
      tree.find command.target = .ok (.file bytes) → tree.Writable env.process command.target)
    (hwrite : runProgram env tree (line.words .write) = (tree', written))
    (hdry : runProgram { env with process := dryProcess } tree (line.words .dryRun) = (dryTree, dry))
    (hdiff : runProgram { env with process := diffProcess } tree (line.words .diff) = (diffTree, diff)) :
    dry.exit = written.exit ∧ diff.exit = written.exit ∧ dry.error = written.error ∧ diff.error = written.error ∧
    ∀ command, Request.ofArguments (line.words .write) env.manifest = .run command → written.exit = 0 →
      tree'.find command.target = .ok (.file (Utf8.encode dry.output)) ∧
      (diff.output = upToDate env.colored command.target ↔
        tree'.find command.target = tree.find command.target) := by
  -- The three runs differ in the output of the command alone, and so they synchronize alike.
  rw [runProgram, line.ofArguments_words_eq .dryRun _ (by simp)] at hdry
  rw [runProgram, line.ofArguments_words_eq .diff _ (by simp)] at hdiff
  rw [runProgram] at hwrite
  cases hrequest : Request.ofArguments (line.words .write) env.manifest with
  | help | version | misuse =>
    simp only [hrequest, Request.withOutput, Prod.mk.injEq] at hwrite hdry hdiff
    obtain ⟨-, rfl⟩ := hwrite
    obtain ⟨-, rfl⟩ := hdry
    obtain ⟨-, rfl⟩ := hdiff
    exact ⟨rfl, rfl, rfl, rfl, by simp⟩
  | run command =>
    simp only [hrequest, Request.withOutput] at hwrite hdry hdiff
    cases hsync : command.sync tree with
    | error e =>
      rw [Command.run_of_error _ hsync] at hwrite
      rw [Command.run_of_error _ ((Command.sync_withOutput _ _ _).trans hsync)] at hdry hdiff
      simp only [Prod.mk.injEq] at hwrite hdry hdiff
      obtain ⟨-, rfl⟩ := hwrite
      obtain ⟨-, rfl⟩ := hdry
      obtain ⟨-, rfl⟩ := hdiff
      refine ⟨rfl, rfl, rfl, rfl, fun _ _ hexit => absurd hexit e.exit_ne_zero⟩
    | ok synced =>
      obtain ⟨report, doc⟩ := synced
      obtain ⟨bytes, hfind⟩ := (Command.sync_again hsync).1
      obtain ⟨tree'', out, hrun, hfind'⟩ := Command.run_write env hsync
        (line.output_of_words env.manifest hrequest) hfind (hwritable command bytes hrequest hfind)
      obtain ⟨out', hrunDiff, hupToDate⟩ := Command.run_diff { env with process := diffProcess } hsync hfind
      rw [hrun] at hwrite
      rw [Command.run_dryRun _ hsync] at hdry
      rw [hrunDiff] at hdiff
      simp only [Prod.mk.injEq] at hwrite hdry hdiff
      obtain ⟨rfl, rfl⟩ := hwrite
      obtain ⟨-, rfl⟩ := hdry
      obtain ⟨-, rfl⟩ := hdiff
      refine ⟨rfl, rfl, rfl, rfl, fun other hother _ => ?_⟩
      cases hother
      rw [hfind', hfind]
      refine ⟨rfl, hupToDate.trans ?_⟩
      simp only [Except.ok.injEq, Entry.file.injEq]

end CommandLine

/-- Every command line that asks for a command, and for no output, leaves places for the flag of one. Its
three outputs agree: they succeed alike or fail alike, a dry run prints the bytes that are written
otherwise, and a diff has nothing to show just where they are written over themselves. -/
theorem outputs_agree :
    (∀ {arguments rest : List String} {name : String} {given : Given}, name = "rpms" ∨ name = "rpmtree" →
      Level.read Request.programRules Request.commands [] arguments = .command name rest given →
      "--dry-run" ∉ rest → "--diff" ∉ rest → ∃ line : CommandLine, line.words .write = arguments) ∧
    ∀ (line : CommandLine) (env : Environment) (dryProcess diffProcess : Process) (tree : FileTree),
      (∀ command bytes, Request.ofArguments (line.words .write) env.manifest = .run command →
        tree.find command.target = .ok (.file bytes) → tree.Writable env.process command.target) →
      ∀ {tree' dryTree diffTree : FileTree} {written dry diff : Ending},
        runProgram env tree (line.words .write) = (tree', written) →
        runProgram { env with process := dryProcess } tree (line.words .dryRun) = (dryTree, dry) →
        runProgram { env with process := diffProcess } tree (line.words .diff) = (diffTree, diff) →
        dry.exit = written.exit ∧ diff.exit = written.exit ∧ dry.error = written.error ∧ diff.error = written.error ∧
        ∀ command, Request.ofArguments (line.words .write) env.manifest = .run command → written.exit = 0 →
          tree'.find command.target = .ok (.file (Utf8.encode dry.output)) ∧
          (diff.output = upToDate env.colored command.target ↔
            tree'.find command.target = tree.find command.target) :=
  ⟨CommandLine.exists_words, fun _ _ _ _ _ hwritable => CommandLine.outputs hwritable⟩

deriving instance DecidableEq for Arguments.Level

def starterLine : CommandLine where
  front := []
  name := "rpmtree"
  before := ["-n", "b"]
  behind := ["-m", "m.json"]
  front_read := ⟨[], rfl⟩
  front_dashes := List.not_mem_nil
  name_mem := .inr rfl
  before_read := ⟨[("name", "b")], by decide +kernel⟩
  before_dashes := by decide
  no_dryRun := by decide
  no_diff := by decide

theorem outputs_agree_starter :
    (runProgram ⟨1, false, none⟩ (starter []) starterArguments).2.exit = 0 ∧
    (runProgram ⟨2, false, none⟩ (starter []) ["rpmtree", "-n", "b", "--dry-run", "-m", "m.json"]).2.exit = 0 ∧
    (runProgram ⟨3, false, none⟩ (starter []) ["rpmtree", "-n", "b", "--diff", "-m", "m.json"]).2.exit = 0 ∧
    (runProgram ⟨1, false, none⟩ (starter []) starterArguments).1.find "BUILD.bazel" = .ok (.file (Utf8.encode
      (runProgram ⟨2, false, none⟩ (starter []) ["rpmtree", "-n", "b", "--dry-run", "-m", "m.json"]).2.output)) ∧
    ∃ line : CommandLine, line.words .write = starterArguments := by
  have hwritable : ∀ command bytes, Request.ofArguments (starterLine.words .write) none = .run command →
      (starter []).find command.target = .ok (.file bytes) → (starter []).Writable 1 command.target := by
    intro command bytes hcommand hfind
    obtain rfl : starterCommand = command := Request.run.inj (ofArguments_starter.symm.trans hcommand)
    exact writable_starter
  have hexit := exit_starter writable_starter
  obtain ⟨hdry, hdiff, -, -, hfind⟩ :=
    outputs_agree.2 starterLine ⟨1, false, none⟩ 2 3 (starter []) hwritable Prod.mk.eta.symm Prod.mk.eta.symm Prod.mk.eta.symm
  have hread : Level.read Request.programRules Request.commands [] starterArguments =
      .command "rpmtree" ["-n", "b", "-m", "m.json"] [] := by decide +kernel
  exact ⟨hexit, hdry.trans hexit, hdiff.trans hexit, (hfind starterCommand ofArguments_starter hexit).1,
    outputs_agree.1 (.inr rfl) hread (by decide) (by decide)⟩

end BuildSync
