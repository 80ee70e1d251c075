import BuildSync.Proofs.Command.Options

namespace BuildSync

open Arguments

def Output.flag : Output → String
  | write => ""
  | dryRun => "dry-run"
  | diff => "diff"

def Output.flags : Output → List String
  | write => []
  | output => [flagWord output.flag]

def Command.withOutput (output : Output) : Command → Command
  | rpms workspace manifest _ => rpms workspace manifest output
  | rpmtree buildfile name manifest files _ => rpmtree buildfile name manifest files output

theorem Command.output_withOutput (output : Output) (command : Command) :
    (command.withOutput output).output = output := by
  cases command <;> rfl

namespace Request

def withOutput (output : Output) : Request → Request
  | run command => run (command.withOutput output)
  | request => request

def rulesOf (name : String) : List OptionRule := if name = "rpms" then rpmsRules else rpmtreeRules

def commandOf? (name : String) (environment : Option String) (given : Given) : Option Command :=
  if name = "rpms" then rpms? given environment else rpmtree? given environment

variable {output : Output} {name : String} {environment : Option String} {given given' : Given}
  {command : Command} {level level' : Level}

theorem isFlag_rulesOf (h : output ≠ .write) (name : String) : IsFlag (rulesOf name) output.flag := by
  rw [rulesOf]
  cases output with
  | write => exact absurd rfl h
  | dryRun => split <;> exact ⟨by decide, by decide, by decide⟩
  | diff => split <;> exact ⟨by decide, by decide, by decide⟩

theorem exists_mem_rulesOf (h : output ≠ .write) (name : String) :
    ∃ rule ∈ rulesOf name, rule.long = output.flag := by
  rw [rulesOf]
  cases output with
  | write => exact absurd rfl h
  | dryRun => split <;> decide
  | diff => split <;> decide

theorem output?_of_commandOf? (h : commandOf? name environment given = some command) :
    output? given = some command.output := by
  rw [commandOf?] at h
  split at h
  · simp only [rpms?, bind, Option.bind_eq_some_iff, pure, Option.some.injEq] at h
    obtain ⟨manifest, -, output, houtput, rfl⟩ := h
    exact houtput
  · simp only [rpmtree?, bind, Option.bind_eq_some_iff, pure, Option.some.injEq] at h
    obtain ⟨bundle, -, manifest, -, output, houtput, rfl⟩ := h
    exact houtput

theorem output?_eq_write :
    output? given = some .write ↔ given.has "dry-run" = false ∧ given.has "diff" = false := by
  rw [output?]
  cases given.has "dry-run" <;> cases given.has "diff" <;> simp

theorem output?_marked (houtput : output ≠ .write) (h : given.Marked output.flag given')
    (hbare : output? given = some .write) : output? given' = some output := by
  obtain ⟨hdry, hdiff⟩ := output?_eq_write.mp hbare
  cases output with
  | write => exact absurd rfl houtput
  | dryRun =>
    have hother : given'.has "diff" = false := by
      rw [Given.has, h.value? "diff" (by decide), ← Given.has, hdiff]
    have hmarked : given'.has "dry-run" = true := h.marked
    rw [output?, hmarked, hother]
  | diff =>
    have hother : given'.has "dry-run" = false := by
      rw [Given.has, h.value? "dry-run" (by decide), ← Given.has, hdry]
    have hmarked : given'.has "diff" = true := h.marked
    rw [output?, hmarked, hother]

theorem flag_ne (h : output ≠ .write) : output.flag ∉ ["workspace", "manifest", "buildfile", "name", "file"] := by
  cases output with
  | write => exact absurd rfl h
  | dryRun => decide
  | diff => decide

theorem commandOf?_marked (houtput : output ≠ .write) (h : given.Marked output.flag given')
    (hbare : output? given = some .write) (name : String) (environment : Option String) :
    commandOf? name environment given' = (commandOf? name environment given).map (·.withOutput output) := by
  have hne (long : String) (hlong : long ∈ ["workspace", "manifest", "buildfile", "name", "file"]) :
      long ≠ output.flag := fun heq => flag_ne houtput (heq ▸ hlong)
  have hmanifest : manifest? given' environment = manifest? given environment := by
    rw [manifest?, manifest?, h.value? "manifest" (hne _ (by decide))]
  rw [commandOf?, commandOf?]
  split
  · rw [rpms?, rpms?, output?_marked houtput h hbare, hbare, hmanifest,
      h.value? "workspace" (hne _ (by decide))]
    cases manifest? given environment <;> rfl
  · rw [rpmtree?, rpmtree?, output?_marked houtput h hbare, hbare, hmanifest,
      h.value? "buildfile" (hne _ (by decide)), h.value? "name" (hne _ (by decide)),
      h.values "file" (hne _ (by decide))]
    cases given.value? "name" with
    | none => rfl
    | some bundle => cases manifest? given environment <;> rfl

theorem ofLevel_marked (houtput : output ≠ .write) (h : Level.Marked output.flag level level')
    (hbare : ∀ given, level = .done given → output? given = some .write) (name : String)
    (environment : Option String) :
    ofLevel level' (commandOf? name environment) =
      (ofLevel level (commandOf? name environment)).withOutput output := by
  cases h with
  | @done given given' h =>
    rw [ofLevel, ofLevel, commandOf?_marked houtput h (hbare given rfl)]
    cases commandOf? name environment given <;> rfl
  | command | help | version | misuse => rfl

theorem ofLevel_eq_run {command? : Given → Option Command} (h : ofLevel level command? = .run command) :
    ∃ given, level = .done given ∧ command? given = some command := by
  cases level with
  | done given =>
    rw [ofLevel] at h
    split at h
    · rename_i command' hcommand
      cases h
      exact ⟨given, rfl, hcommand⟩
    · cases h
  | command | help | version | misuse => cases h

theorem ofArguments_of_command {arguments rest : List String} (hname : name = "rpms" ∨ name = "rpmtree")
    (h : Level.read programRules commands [] arguments = .command name rest given) :
    ofArguments arguments environment =
      ofLevel (.read (rulesOf name) [] [] rest) (commandOf? name environment) := by
  rw [ofArguments, h]
  rcases hname with rfl | rfl <;> rfl

end Request

/-- A command line for one of the two commands: the words in front of the command, and the options
of the command before and behind the place where a flag may ask for another output. -/
structure CommandLine where
  front : List String
  name : String
  before : List String
  behind : List String
  front_read : ∃ given, Level.read Request.programRules Request.commands [] front = .done given
  front_dashes : "--" ∉ front
  name_mem : name = "rpms" ∨ name = "rpmtree"
  before_read : ∃ given, Level.read (Request.rulesOf name) [] [] before = .done given
  before_dashes : "--" ∉ before
  no_dryRun : "--dry-run" ∉ before ++ behind
  no_diff : "--diff" ∉ before ++ behind

namespace CommandLine

def words (line : CommandLine) (output : Output) : List String :=
  line.front ++ line.name :: (line.before ++ output.flags ++ line.behind)

theorem exists_words {arguments rest : List String} {name : String} {given : Given}
    (hname : name = "rpms" ∨ name = "rpmtree")
    (h : Level.read Request.programRules Request.commands [] arguments = .command name rest given)
    (hdryRun : "--dry-run" ∉ rest) (hdiff : "--diff" ∉ rest) :
    ∃ line : CommandLine, line.words .write = arguments := by
  obtain ⟨front, rfl, hopen, hfront⟩ := Level.exists_front h
  refine ⟨⟨front, name, [], rest, ⟨given, hfront⟩, hopen, hname, ⟨[], rfl⟩, List.not_mem_nil, hdryRun, hdiff⟩, ?_⟩
  rw [words, Output.flags, List.append_nil, List.nil_append]

variable (line : CommandLine) (output : Output) (environment : Option String)

theorem bare (h : output ≠ .write) : flagWord output.flag ∉ line.before ++ line.behind := by
  cases output with
  | write => exact absurd rfl h
  | dryRun => exact line.no_dryRun
  | diff => exact line.no_diff

theorem ofArguments_words : Request.ofArguments (line.words output) environment =
    Request.ofLevel (.read (Request.rulesOf line.name) [] [] (line.before ++ output.flags ++ line.behind))
      (Request.commandOf? line.name environment) := by
  obtain ⟨given, hfront⟩ := line.front_read
  have hcommand : Level.read Request.programRules Request.commands [] (line.words output) =
      .command line.name (line.before ++ output.flags ++ line.behind) given := by
    rw [words, Level.read_append line.front_dashes hfront, Level.read_cons]
    rcases line.name_mem with hname | hname <;> rw [hname] <;> rfl
  exact Request.ofArguments_of_command line.name_mem hcommand

theorem output?_of_done {given : Given}
    (h : Level.read (Request.rulesOf line.name) [] [] (line.before ++ line.behind) = .done given) :
    Request.output? given = some .write := by
  have hnone (output : Output) (houtput : output ≠ .write) : given.has output.flag = false := by
    rw [Bool.eq_false_iff]
    intro hhas
    rcases (Level.has_of_done (Request.isFlag_rulesOf houtput line.name) h).mp hhas with hnil | hmem
    · cases hnil
    · exact line.bare output houtput hmem
  exact Request.output?_eq_write.mpr ⟨hnone .dryRun (by decide), hnone .diff (by decide)⟩

theorem output_of_words {command : Command}
    (h : Request.ofArguments (line.words .write) environment = .run command) : command.output = .write := by
  rw [ofArguments_words, Output.flags, List.append_nil] at h
  obtain ⟨given, hread, hcommand⟩ := Request.ofLevel_eq_run h
  have hbare := line.output?_of_done hread
  rw [Request.output?_of_commandOf? hcommand] at hbare
  exact Option.some.inj hbare

theorem ofArguments_words_eq (h : output ≠ .write) : Request.ofArguments (line.words output) environment =
    (Request.ofArguments (line.words .write) environment).withOutput output := by
  have hflags : output.flags = [flagWord output.flag] := by
    cases output with
    | write => exact absurd rfl h
    | dryRun | diff => rfl
  have hflag := Request.isFlag_rulesOf h line.name
  obtain ⟨given, hbefore⟩ := line.before_read
  have hread := Level.read_append line.before_dashes hbefore
  have hunset : given.has output.flag = false := by
    rw [Bool.eq_false_iff]
    intro hhas
    rcases (Level.has_of_done hflag hbefore).mp hhas with hnil | hmem
    · cases hnil
    · exact line.bare output h (List.mem_append_left _ hmem)
  have hset : Level.read (Request.rulesOf line.name) [] given (flagWord output.flag :: line.behind) =
      Level.read (Request.rulesOf line.name) [] (given ++ [(output.flag, "")]) line.behind :=
    Level.read_flag hflag (Request.exists_mem_rulesOf h line.name) hunset [] line.behind
  have hmarked := Level.marked_read hflag [] (fun hmem => line.bare output h (List.mem_append_right _ hmem))
    (Given.marked_append hunset)
  rw [ofArguments_words, ofArguments_words, hflags, List.append_assoc, List.singleton_append, hread, hset,
    Output.flags, List.append_nil, hread]
  refine Request.ofLevel_marked h hmarked (fun given' hdone => ?_) line.name environment
  exact line.output?_of_done (by rw [hread, hdone])

end CommandLine
end BuildSync
