import BuildSync.Command.Run
import BuildSync.Proofs.FileTree.Frame
import BuildSync.Proofs.Sync.Bundle
import BuildSync.Proofs.Sync.Rpms

namespace BuildSync

namespace Path

theorem extension?_scratchName {path name : String} {process : Nat} {above : List String}
    (h : names path = scratchName name process :: above) : extension? path = some "tmp" := by
  obtain ⟨c, cs, hback⟩ : ∃ c cs, (scratchName name process).toList.reverse =
      'p' :: 'm' :: 't' :: '.' :: c :: cs := by
    cases hdigits : (Nat.toDigits 10 process).reverse with
    | nil => exact ⟨'.', name.toList.reverse ++ ['.'], by rw [toList_scratchName]; simp [hdigits]⟩
    | cons c cs => exact ⟨c, cs ++ '.' :: (name.toList.reverse ++ ['.']), by rw [toList_scratchName]; simp [hdigits]⟩
  rw [extension?, fileName?_eq h (plain_scratchName name process), Option.bind_some]
  simp only [hback]
  rfl

end Path

namespace FileTree

def Apart (tree : FileTree) (path path' : String) : Prop :=
  ∀ place, tree.walk [] (Path.names path).reverse = .ok place →
    tree.walk [] (Path.names path').reverse ≠ .ok place

end FileTree

namespace Manifest

def Named (path : String) : Prop := (Format.ofExtension? (lowercase ((Path.extension? path).getD ""))).isSome

theorem load_eq_ok {tree : FileTree} {path : String} {m : Manifest} (h : load tree path = .ok m) :
    Named path ∧ ∃ bytes, tree.find path = .ok (.file bytes) ∧
      ∀ tree' : FileTree, tree'.find path = .ok (.file bytes) → load tree' path = .ok m := by
  rw [load] at h
  split at h
  · cases h
  rename_i format hformat
  refine ⟨Option.isSome_of_eq_some hformat, ?_⟩
  cases hread : tree.read path with
  | error e =>
    rw [FileTree.readText, hread] at h
    cases h
  | ok bytes =>
    refine ⟨bytes, FileTree.read_eq_ok.mp hread, fun tree' h' => ?_⟩
    simp only [FileTree.readText, hread] at h
    simpa only [load, hformat, FileTree.readText, FileTree.read_eq_ok.mpr h'] using h

theorem load_of_find {tree : FileTree} {path text : String} {format : Format} {m : Manifest}
    (hformat : Format.ofExtension? (lowercase ((Path.extension? path).getD "")) = some format)
    (hfind : tree.find path = .ok (.file (Utf8.encode text))) (hm : format.manifest? text = some m) :
    load tree path = .ok m := by
  simp only [load, hformat, FileTree.readText, FileTree.read_eq_ok.mpr hfind, Utf8.decode_encode, hm]

end Manifest

namespace Document

theorem load_eq_ok {tree : FileTree} {path : String} {flavor : Flavor} {d : Document}
    (h : load tree path flavor = .ok d) :
    ∃ bytes, tree.find path = .ok (.file bytes) ∧ parse path flavor bytes = .ok d := by
  rw [load] at h
  cases hread : tree.read path with
  | error e =>
    rw [hread] at h
    cases h
  | ok bytes =>
    rw [hread] at h
    exact ⟨bytes, FileTree.read_eq_ok.mp hread, mapError_eq_ok.mp h⟩

theorem load_of_find {tree : FileTree} {path : String} {flavor : Flavor} {d : Document} {bytes : List UInt8}
    (h : tree.find path = .ok (.file bytes)) (hparse : parse path flavor bytes = .ok d) :
    load tree path flavor = .ok d := by
  rw [load, FileTree.read_eq_ok.mpr h]
  simp only [hparse]
  rfl

end Document

namespace Command

def target : Command → String
  | rpms workspace _ _ => workspace
  | rpmtree buildfile _ _ _ _ => buildfile

def manifest : Command → String
  | rpms _ manifest _ => manifest
  | rpmtree _ _ manifest _ _ => manifest

def kind : Command → String
  | rpms .. => rpmKind
  | rpmtree .. => bundleKind

def sync (tree : FileTree) : Command → Except CommandError (Report × Document)
  | rpms workspace manifest _ => syncRpms tree workspace manifest
  | rpmtree buildfile name manifest files _ => syncBundle tree buildfile name manifest files

variable {command : Command} {tree : FileTree} {report : Report} {doc : Document}

theorem run_of_error (env : Environment) {e : CommandError} (h : command.sync tree = .error e) :
    command.run env tree = (tree, .error e) := by
  cases command with
  | rpms workspace manifest output =>
    have hsync : syncRpms tree workspace manifest = .error e := h
    unfold run
    simp only [hsync]
  | rpmtree buildfile name manifest files output =>
    have hsync : syncBundle tree buildfile name manifest files = .error e := h
    unfold run
    simp only [hsync]

theorem run_of_sync (env : Environment) (h : command.sync tree = .ok (report, doc)) :
    command.run env tree = finish env tree command.output doc report command.kind command.target := by
  cases command with
  | rpms workspace manifest output =>
    have hsync : syncRpms tree workspace manifest = .ok (report, doc) := h
    unfold run
    simp only [hsync]
    rfl
  | rpmtree buildfile name manifest files output =>
    have hsync : syncBundle tree buildfile name manifest files = .ok (report, doc) := h
    unfold run
    simp only [hsync]
    rfl

structure Follows (tree : FileTree) (command : Command) (doc : Document) (tree' : FileTree) : Prop where
  manifest : ∀ bytes, Manifest.Named command.manifest → tree.find command.manifest = .ok (.file bytes) →
    tree'.find command.manifest = .ok (.file bytes)
  target : tree'.find command.target = .ok (.file (Utf8.encode doc.text))

theorem syncRpms_eq_ok {workspace manifest : String} : syncRpms tree workspace manifest = .ok (report, doc) ↔
    ∃ m d, Manifest.load tree manifest = .ok m ∧ m.packages.isEmpty = false ∧
      Document.load tree workspace .workspace = .ok d ∧ d.addRpms m.packages = .ok (report, doc) := by
  simp only [syncRpms, bind, Except.bind]
  constructor
  · intro h
    split at h
    · cases h
    rename_i m hm
    by_cases hempty : m.packages.isEmpty = true
    · rw [if_pos hempty] at h
      cases h
    rw [if_neg hempty] at h
    cases hload : (Document.load tree workspace .workspace).mapError CommandError.load with
    | error e =>
      rw [hload] at h
      cases h
    | ok d =>
      rw [hload] at h
      exact ⟨m, d, mapError_eq_ok.mp hm, Bool.eq_false_iff.mpr hempty, mapError_eq_ok.mp hload,
        mapError_eq_ok.mp h⟩
  · rintro ⟨m, d, hm, hempty, hload, hadd⟩
    rw [hm, hload]
    simp only [Except.mapError, hempty, Bool.false_eq_true, if_false, hadd]

theorem syncBundle_eq_ok {buildfile name manifest : String} {files : List String} :
    syncBundle tree buildfile name manifest files = .ok (report, doc) ↔
      name.toList.all isBlank = false ∧ ∃ m d, Manifest.load tree manifest = .ok m ∧
        Document.load tree buildfile .build = .ok d ∧
        d.addBundle name m.packages (if files.isEmpty then m.files else files) = (report, doc) := by
  simp only [syncBundle, bind, Except.bind]
  by_cases hblank : name.toList.all isBlank = true
  · rw [if_pos hblank]
    simp [hblank, throw, throwThe, MonadExceptOf.throw]
  rw [if_neg hblank]
  constructor
  · intro h
    simp only [pure, Except.pure] at h
    split at h
    · cases h
    rename_i m hm
    split at h
    · cases h
    rename_i d hd
    exact ⟨Bool.eq_false_iff.mpr hblank, m, d, mapError_eq_ok.mp hm, mapError_eq_ok.mp hd, Except.ok.inj h⟩
  · rintro ⟨-, m, d, hm, hload, hadd⟩
    rw [hm, hload]
    simp only [Except.mapError, pure, Except.pure, hadd]

theorem sync_again (h : command.sync tree = .ok (report, doc)) :
    (∃ bytes, tree.find command.target = .ok (.file bytes)) ∧
      ∀ tree', Follows tree command doc tree' → ∃ report' doc',
        command.sync tree' = .ok (report', doc') ∧ doc'.text = doc.text ∧ report'.created = 0 := by
  cases command with
  | rpms workspace manifest output =>
    obtain ⟨m, d, hm, hne, hload, hadd⟩ := syncRpms_eq_ok.mp h
    obtain ⟨bytes, hfind, hparse⟩ := Document.load_eq_ok hload
    refine ⟨⟨bytes, hfind⟩, fun tree' hfollows => ?_⟩
    obtain ⟨hnamed, bytes', hmanifest, hsame⟩ := Manifest.load_eq_ok hm
    obtain ⟨d₂, report', d₃, hparse', hadd', htext, hcreated⟩ :=
      Document.addRpms_again (Document.fits_of_parse hparse) hadd workspace .workspace
    exact ⟨report', d₃, syncRpms_eq_ok.mpr ⟨m, d₂, hsame tree' (hfollows.manifest _ hnamed hmanifest), hne,
      Document.load_of_find hfollows.target hparse', hadd'⟩, htext, hcreated⟩
  | rpmtree buildfile name manifest files output =>
    obtain ⟨hname, m, d, hm, hload, hadd⟩ := syncBundle_eq_ok.mp h
    obtain ⟨bytes, hfind, hparse⟩ := Document.load_eq_ok hload
    refine ⟨⟨bytes, hfind⟩, fun tree' hfollows => ?_⟩
    obtain ⟨hnamed, bytes', hmanifest, hsame⟩ := Manifest.load_eq_ok hm
    obtain ⟨d₂, hparse', htext, hcreated⟩ := Document.addBundle_again (Document.fits_of_parse hparse) name
      m.packages (if files.isEmpty then m.files else files) buildfile .build
    rw [hadd] at hparse' htext
    exact ⟨_, _, syncBundle_eq_ok.mpr ⟨hname, m, d₂, hsame tree' (hfollows.manifest _ hnamed hmanifest),
      Document.load_of_find hfollows.target hparse', rfl⟩, htext, hcreated⟩

/-- A second run that writes a file: the system serves it as it served the first one, and no other
run's scratch file is in its way. -/
structure Repeats (command : Command) (env env' : Environment) (tree tree₁ : FileTree) : Prop where
  output : command.output = .write
  apart : tree.Apart command.target command.manifest
  serves : ∀ bytes, env.process.Serves bytes → env'.process.Serves bytes
  scratch : env'.process.number = env.process.number ∨
    ∀ entry, tree₁.find (Path.scratch command.target env'.process.number) ≠ .ok entry

theorem finish_eq_ok {env : Environment} {tree₁ : FileTree} {kind path out : String}
    (h : finish env tree .write doc report kind path = (tree₁, .ok out)) :
    tree.write env.process path (Utf8.encode doc.text) = (tree₁, .ok ()) := by
  rw [finish, Document.save] at h
  split at h
  · cases h
  · rename_i tree' u hwrite
    cases h
    exact hwrite

theorem run_of_write {env : Environment} {tree₁ : FileTree} {written : Except FileError Unit}
    (h : command.sync tree = .ok (report, doc)) (houtput : command.output = .write)
    (hwrite : tree.write env.process command.target (Utf8.encode doc.text) = (tree₁, written)) :
    command.run env tree = (tree₁,
      (written.map fun _ => summary env.colored report command.kind command.target).mapError .file) := by
  rw [run_of_sync env h, houtput, finish, Document.save, hwrite]
  cases written <;> rfl

theorem run_eq_ok {env : Environment} {tree₁ : FileTree} {out : String}
    (h : command.run env tree = (tree₁, .ok out)) (houtput : command.output = .write) :
    ∃ report doc, command.sync tree = .ok (report, doc) ∧
      tree.write env.process command.target (Utf8.encode doc.text) = (tree₁, .ok ()) := by
  cases hsync : command.sync tree with
  | error e =>
    rw [run_of_error env hsync] at h
    cases h
  | ok synced =>
    obtain ⟨report, doc⟩ := synced
    rw [run_of_sync env hsync, houtput] at h
    exact ⟨report, doc, rfl, finish_eq_ok h⟩

theorem run_of_writable (env : Environment) (h : command.sync tree = .ok (report, doc))
    (houtput : command.output = .write) (hwritable : tree.Writable env.process command.target) :
    ∃ tree₁, command.run env tree = (tree₁, .ok (summary env.colored report command.kind command.target)) := by
  obtain ⟨tree₁, hwrite⟩ := hwritable (Utf8.encode doc.text)
  exact ⟨tree₁, run_of_write h houtput hwrite⟩

theorem run_again {env env' : Environment} {tree₁ : FileTree} {out : String}
    (h : command.run env tree = (tree₁, .ok out)) (hrepeats : command.Repeats env env' tree tree₁) :
    ∃ tree₂ report, command.run env' tree₁ =
        (tree₂, .ok (summary env'.colored report command.kind command.target)) ∧
      report.created = 0 ∧ ∀ place, tree₂.lookup? place = tree₁.lookup? place := by
  obtain ⟨report, doc, hsync, hwrite⟩ := run_eq_ok h hrepeats.output
  obtain ⟨⟨bytes, hfind⟩, hagain⟩ := sync_again hsync
  obtain ⟨name, above, place, hreaches, -⟩ := FileTree.reaches_of_find hfind
  have hwritten := hreaches.written_of_write hwrite
  have hreaches₁ := hwritten.sameDirectories.reaches hreaches
  have htarget : tree₁.lookup? (name :: place) = some (.file (Utf8.encode doc.text)) := by
    rw [hwritten.entries, if_pos rfl]
  have hfollows : Follows tree command doc tree₁ := by
    refine ⟨fun bytes' hnamed hmanifest => ?_, hreaches₁.find_eq_ok.mpr htarget⟩
    obtain ⟨name', above', place', hreaches', hentry⟩ := FileTree.reaches_of_find hmanifest
    have hne : name' :: place' ≠ name :: place := fun heq =>
      hrepeats.apart _ hreaches.walk (heq ▸ hreaches'.walk)
    have hscratch : name' :: place' ≠ Path.scratchName name env.process.number :: place := fun heq => by
      rw [Manifest.Named, Path.extension?_scratchName ((List.cons.inj heq).1 ▸ hreaches'.names)] at hnamed
      revert hnamed
      decide +kernel
    apply (hwritten.sameDirectories.reaches hreaches').find_eq_ok.mpr
    rw [hwritten.entries, if_neg hne, if_neg hscratch, hentry]
  obtain ⟨report', doc', hsync', htext, hcreated⟩ := hagain tree₁ hfollows
  have hfree : tree₁.lookup? (Path.scratchName name env'.process.number :: place) = none := by
    rcases hrepeats.scratch with hprocess | hnone
    · have hne : Path.scratchName name env.process.number :: place ≠ name :: place := fun heq =>
        Path.scratchName_ne name env.process.number (List.cons.inj heq).1
      rw [hprocess, hwritten.entries, if_neg hne, if_pos rfl]
    · cases hentry : tree₁.lookup? (Path.scratchName name env'.process.number :: place) with
      | none => rfl
      | some entry => exact absurd ((hreaches₁.scratch env'.process.number).find_eq_ok.mpr hentry) (hnone entry)
  have hserves : env'.process.Serves (Utf8.encode doc'.text) := htext ▸ hrepeats.serves _ hwritten.serves
  obtain ⟨tree₂, hwrite₂, hwritten₂⟩ := hreaches₁.written hserves (by rw [htarget]; nofun) (by rw [hfree]; nofun)
  refine ⟨tree₂, report', ?_, hcreated, fun q => ?_⟩
  · exact run_of_write hsync' hrepeats.output hwrite₂
  · rw [hwritten₂.entries, htext]
    split_ifs with hq hq
    · rw [hq, htarget]
    · rw [hq, hfree]
    · rfl

end Command

theorem runProgram_of_write (env : Environment) {command : Command} {report : Report} {doc : Document}
    {arguments : List String} {tree tree₁ : FileTree} {written : Except FileError Unit}
    (hrequest : Request.ofArguments arguments env.manifest = .run command)
    (hsync : command.sync tree = .ok (report, doc)) (houtput : command.output = .write)
    (hwrite : tree.write env.process command.target (Utf8.encode doc.text) = (tree₁, written)) :
    (runProgram env tree arguments).1 = tree₁ ∧
      (runProgram env tree arguments).2.exit = if written.isOk then 0 else 1 := by
  simp only [runProgram, hrequest, Command.run_of_write hsync houtput hwrite]
  cases written <;> exact ⟨rfl, rfl⟩

theorem CommandError.exit_ne_zero (e : CommandError) : e.exit ≠ 0 := by
  cases e <;> simp [exit]

theorem runProgram_eq_ok {env : Environment} {tree tree₁ : FileTree} {arguments : List String} {ending : Ending}
    {command : Command} (h : runProgram env tree arguments = (tree₁, ending)) (hexit : ending.exit = 0)
    (hrequest : Request.ofArguments arguments env.manifest = .run command) :
    ∃ out, command.run env tree = (tree₁, .ok out) := by
  rw [runProgram, hrequest] at h
  cases hresult : command.run env tree with
  | mk tree' result =>
    simp only [hresult] at h
    cases result with
    | error e =>
      cases h
      exact absurd hexit e.exit_ne_zero
    | ok out =>
      cases h
      exact ⟨out, rfl⟩

theorem runProgram_again {env env' : Environment} {tree tree₁ : FileTree} {arguments : List String} {ending : Ending}
    (h : runProgram env tree arguments = (tree₁, ending)) (hexit : ending.exit = 0)
    (hmanifest : env'.manifest = env.manifest)
    (hrepeats : ∀ command, Request.ofArguments arguments env.manifest = .run command →
      command.Repeats env env' tree tree₁) :
    ∃ tree₂ ending', runProgram env' tree₁ arguments = (tree₂, ending') ∧ ending'.exit = 0 ∧
      (∀ place, tree₂.lookup? place = tree₁.lookup? place) ∧
      ∀ command, Request.ofArguments arguments env.manifest = .run command → ∃ report : Report,
        report.created = 0 ∧
        ending'.output = Command.summary env'.colored report command.kind command.target := by
  rw [runProgram, hmanifest]
  cases hrequest : Request.ofArguments arguments env.manifest with
  | help => exact ⟨tree₁, _, rfl, rfl, fun _ => rfl, nofun⟩
  | version => exact ⟨tree₁, _, rfl, rfl, fun _ => rfl, nofun⟩
  | misuse =>
    rw [runProgram, hrequest] at h
    cases h
    cases hexit
  | run command =>
    obtain ⟨out, hrun⟩ := runProgram_eq_ok h hexit hrequest
    obtain ⟨tree₂, report, hrun₂, hcreated, hsame⟩ := Command.run_again hrun (hrepeats command hrequest)
    refine ⟨tree₂, ⟨0, Command.summary env'.colored report command.kind command.target, none⟩, ?_, rfl, hsame,
      fun other hother => ?_⟩
    · simp only [hrun₂]
    · cases hother
      exact ⟨report, hcreated, rfl⟩

/-- Synchronizing is done in one run. A second one over the text, or over the files, that the first
one left goes through, makes no rule and changes nothing. -/
theorem sync_settles :
    (∀ (path : String) (flavor : Flavor) (bytes : List UInt8) (d : Document) (ps : List Package)
        (report : Report) (d₁ : Document),
      Document.parse path flavor bytes = .ok d → d.addRpms ps = .ok (report, d₁) →
      ∃ d₂ report' d₃, Document.parse path flavor (Utf8.encode d₁.text) = .ok d₂ ∧
        d₂.addRpms ps = .ok (report', d₃) ∧ d₃.text = d₁.text ∧ report'.created = 0) ∧
    (∀ (path : String) (flavor : Flavor) (bytes : List UInt8) (d : Document) (name : String)
        (ps : List Package) (files : List String) (report : Report) (d₁ : Document),
      Document.parse path flavor bytes = .ok d → d.addBundle name ps files = (report, d₁) →
      ∃ d₂ report' d₃, Document.parse path flavor (Utf8.encode d₁.text) = .ok d₂ ∧
        d₂.addBundle name ps files = (report', d₃) ∧ d₃.text = d₁.text ∧ report'.created = 0) ∧
    (∀ (env env' : Environment) (tree tree₁ : FileTree) (arguments : List String) (ending : Ending),
      runProgram env tree arguments = (tree₁, ending) → ending.exit = 0 → env'.manifest = env.manifest →
      (∀ command, Request.ofArguments arguments env.manifest = .run command →
        command.Repeats env env' tree tree₁) →
      ∃ tree₂ ending', runProgram env' tree₁ arguments = (tree₂, ending') ∧ ending'.exit = 0 ∧
        (∀ place, tree₂.lookup? place = tree₁.lookup? place) ∧
        ∀ command, Request.ofArguments arguments env.manifest = .run command → ∃ report : Report,
          report.created = 0 ∧
          ending'.output = Command.summary env'.colored report command.kind command.target) := by
  refine ⟨fun path flavor bytes d ps report d₁ hparse hadd => ?_,
    fun path flavor bytes d name ps files report d₁ hparse hadd => ?_,
    fun env env' tree tree₁ arguments ending h hexit hmanifest hrepeats => ?_⟩
  · exact Document.addRpms_again (Document.fits_of_parse hparse) hadd path flavor
  · obtain ⟨d₂, hparse₂, htext, hcreated⟩ :=
      Document.addBundle_again (Document.fits_of_parse hparse) name ps files path flavor
    rw [hadd] at hparse₂ htext
    exact ⟨d₂, _, _, hparse₂, rfl, htext, hcreated⟩
  · exact runProgram_again h hexit hmanifest hrepeats

def starterText : String :=
  "# Tools.\nrpmtree(\n    name = \"b\",  # Kept.\n    rpms = [\"@x//rpm\"],\n)\n"

def starterManifest : String :=
  "\x7b\"packages\": [\x7b\"name\": \"a\", \"checksum\": \"1\", \"href\": \"a.rpm\"\x7d], \"files\": [\"/bin/a\"]\x7d"

def starter (others : List (Place × Entry)) : FileTree :=
  ⟨(["BUILD.bazel"], .file (Utf8.encode starterText)) ::
    (["m.json"], .file (Utf8.encode starterManifest)) :: others⟩

def starterArguments : List String := ["rpmtree", "-n", "b", "-m", "m.json"]

def starterCommand : Command := .rpmtree "BUILD.bazel" "b" "m.json" [] .write

def starterDocument : Document :=
  ⟨"BUILD.bazel", .build, [.rule ⟨["# Tools."], ⟨.ident "rpmtree",
    ⟨[⟨[], .name "name", .string "b" (some "\"b\""), some "# Kept."⟩,
      .keyword "rpms" (.list ⟨[.element (.string "@x//rpm" (some "\"@x//rpm\""))], []⟩)], []⟩⟩, none⟩]⟩

theorem ofArguments_starter : Request.ofArguments starterArguments none = .run starterCommand := by decide +kernel

theorem reaches_starter (others : List (Place × Entry)) :
    (starter others).Reaches "BUILD.bazel" "BUILD.bazel" [] [] :=
  (starter others).reaches_root (by decide) (by decide)

theorem find_starter (others : List (Place × Entry)) :
    (starter others).find "BUILD.bazel" = .ok (.file (Utf8.encode starterText)) ∧
    (starter others).find "m.json" = .ok (.file (Utf8.encode starterManifest)) := by
  constructor
  · exact (reaches_starter others).find_eq_ok.mpr rfl
  · exact ((starter others).reaches_root (by decide) (by decide)).find_eq_ok.mpr rfl

theorem parse_starter : Document.parse "BUILD.bazel" .build (Utf8.encode starterText) = .ok starterDocument := by
  decide +kernel

theorem load_starter (others : List (Place × Entry)) : Manifest.load (starter others) "m.json" =
    .ok ⟨[⟨"a", none, none, "1", "a.rpm", []⟩], ["/bin/a"]⟩ := by
  have hformat : Format.ofExtension? (lowercase ((Path.extension? "m.json").getD "")) = some .json := by
    decide +kernel
  exact Manifest.load_of_find hformat (find_starter others).2 (by decide +kernel)

def starterSynced : Report × Document :=
  starterDocument.addBundle "b" [⟨"a", none, none, "1", "a.rpm", []⟩] ["/bin/a"]

theorem sync_starter (others : List (Place × Entry)) :
    starterCommand.sync (starter others) = .ok (starterSynced.1, starterSynced.2) := by
  have hblank : "b".toList.all isBlank = false := by decide
  have hload := Document.load_of_find (find_starter others).1 parse_starter
  exact Command.syncBundle_eq_ok.mpr ⟨hblank, _, _, load_starter others, hload, rfl⟩

theorem scratch_starter : (starter []).find (Path.scratch "BUILD.bazel" 1) = .error .notFound := by
  decide +kernel

theorem writable_starter : (starter []).Writable 1 "BUILD.bazel" :=
  FileTree.writable_free 1 (find_starter []).1 (by rw [scratch_starter]; nofun)

theorem exit_starter {others : List (Place × Entry)} (h : (starter others).Writable 1 "BUILD.bazel") :
    (runProgram ⟨1, false, none⟩ (starter others) starterArguments).2.exit = 0 := by
  obtain ⟨tree', hwrite⟩ := h (Utf8.encode starterSynced.2.text)
  obtain ⟨-, hexit⟩ :=
    runProgram_of_write ⟨1, false, none⟩ ofArguments_starter (sync_starter others) rfl hwrite
  exact hexit

theorem apart_starter : (starter []).Apart "BUILD.bazel" "m.json" := by
  intro place hplace hplace'
  have hjson : (starter []).Reaches "m.json" "m.json" [] [] :=
    (starter []).reaches_root (by decide) (by decide)
  have hsame := ((reaches_starter []).walk.symm.trans hplace).trans (hplace'.symm.trans hjson.walk)
  revert hsame
  decide

theorem sync_settles_starter :
    Request.ofArguments starterArguments none = .run starterCommand ∧
    ∃ tree₁ ending tree₂ ending' report,
      runProgram ⟨1, false, none⟩ (starter []) starterArguments = (tree₁, ending) ∧ ending.exit = 0 ∧
      runProgram ⟨1, false, none⟩ tree₁ starterArguments = (tree₂, ending') ∧ ending'.exit = 0 ∧
      (∀ place, tree₂.lookup? place = tree₁.lookup? place) ∧ report.created = 0 ∧
      ending'.output = Command.summary false report bundleKind "BUILD.bazel" := by
  have hexit := exit_starter writable_starter
  have hrepeats : ∀ command, Request.ofArguments starterArguments none = .run command →
      command.Repeats ⟨1, false, none⟩ ⟨1, false, none⟩ (starter [])
        (runProgram ⟨1, false, none⟩ (starter []) starterArguments).1 := by
    intro command hcommand
    obtain rfl : starterCommand = command := Request.run.inj (ofArguments_starter.symm.trans hcommand)
    exact ⟨rfl, apart_starter, fun _ h => h, .inl rfl⟩
  obtain ⟨tree₂, ending', h, hexit', hsame, hreport⟩ := sync_settles.2.2 ⟨1, false, none⟩ ⟨1, false, none⟩
    (starter []) _ _ _ Prod.mk.eta.symm hexit rfl hrepeats
  obtain ⟨report, hcreated, houtput⟩ := hreport _ ofArguments_starter
  exact ⟨ofArguments_starter, _, _, tree₂, ending', report, Prod.mk.eta.symm, hexit, h, hexit', hsame, hcreated, houtput⟩

end BuildSync
