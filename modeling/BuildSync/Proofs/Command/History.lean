import BuildSync.Proofs.Command.Again
import BuildSync.Proofs.Sync.History
import Mathlib.Logic.Relation

namespace BuildSync

namespace Command

variable {command : Command} {tree : FileTree} {report : Report} {doc d : Document} {path : String}
  {flavor : Flavor} {bytes bytes' : List UInt8}

/-- A run of the program that goes through and writes: what its target held before, and what it
holds then. -/
inductive Rewrites (command : Command) : List UInt8 → List UInt8 → Prop
  | run {env : Environment} {tree tree' : FileTree} {arguments : List String} {ending : Ending}
    {bytes bytes' : List UInt8} (request : Request.ofArguments arguments env.manifest = .run command)
    (output : command.output = .write) (run : runProgram env tree arguments = (tree', ending))
    (exit : ending.exit = 0) (before : tree.find command.target = .ok (.file bytes))
    (after : tree'.find command.target = .ok (.file bytes')) : Rewrites command bytes bytes'

theorem rewrites_of_sync (env : Environment) {arguments : List String}
    (hrequest : Request.ofArguments arguments env.manifest = .run command) (houtput : command.output = .write)
    (hsync : command.sync tree = .ok (report, doc)) (hfind : tree.find command.target = .ok (.file bytes))
    (hwritable : tree.Writable env.process command.target) : command.Rewrites bytes (Utf8.encode doc.text) := by
  obtain ⟨tree', hrun⟩ := run_of_writable env hsync houtput hwritable
  obtain ⟨report', doc', hsync', hwrite⟩ := run_eq_ok hrun houtput
  cases hsync.symm.trans hsync'
  have hprogram : runProgram env tree arguments =
      (tree', ⟨0, summary env.colored report command.kind command.target, none⟩) := by
    simp only [runProgram, hrequest, hrun]
  exact .run hrequest houtput hprogram rfl hfind (FileTree.find_of_write hfind hwrite)

theorem syncs_of_sync (h : command.sync tree = .ok (report, doc))
    (hfind : tree.find command.target = .ok (.file bytes)) :
    ∃ path flavor d, Document.parse path flavor bytes = .ok d ∧ d.Syncs command.kind doc := by
  cases command with
  | rpms workspace manifest output =>
    obtain ⟨m, d, -, -, hload, hadd⟩ := syncRpms_eq_ok.mp h
    obtain ⟨bytes', hfind', hparse⟩ := Document.load_eq_ok hload
    cases hfind.symm.trans hfind'
    exact ⟨_, _, d, hparse, .rpms hadd⟩
  | rpmtree buildfile name manifest files output =>
    obtain ⟨-, m, d, -, hload, hadd⟩ := syncBundle_eq_ok.mp h
    obtain ⟨bytes', hfind', hparse⟩ := Document.load_eq_ok hload
    cases hfind.symm.trans hfind'
    cases hadd
    exact ⟨_, _, d, hparse, .bundle name _ _⟩

theorem Rewrites.parse (h : command.Rewrites bytes bytes') (hparse : Document.parse path flavor bytes = .ok d) :
    ∃ d', Document.parse path flavor bytes' = .ok d' ∧ d.Keeps d' ∧ (command.kind = rpmKind → d'.Ascends) := by
  cases h with
  | run request output run exit before after =>
    obtain ⟨out, hrun⟩ := runProgram_eq_ok run exit request
    obtain ⟨report, doc, hsync, hwrite⟩ := run_eq_ok hrun output
    cases after.symm.trans (FileTree.find_of_write before hwrite)
    obtain ⟨path', flavor', d', hparse', hsyncs⟩ := syncs_of_sync hsync before
    cases (Document.parse_elsewhere hparse path' flavor').symm.trans hparse'
    have hfits := Document.fits_of_parse hparse'
    refine ⟨_, Document.parse_text (hsyncs.fits hfits) path flavor, ?_, fun hkind => ?_⟩
    · exact (hsyncs.keeps hfits).trans doc.keeps_reread
    · exact (hsyncs.ascends hfits hkind).reread

end Command

/-- What a file holds after some runs that have each written it anew, under whatever path. -/
def Evolves : List UInt8 → List UInt8 → Prop :=
  Relation.ReflTransGen fun bytes bytes' => ∃ command : Command, command.Rewrites bytes bytes'

variable {path : String} {flavor : Flavor} {bytes bytes' : List UInt8} {d : Document}

theorem Evolves.parse (h : Evolves bytes bytes') (hparse : Document.parse path flavor bytes = .ok d) :
    ∃ d', Document.parse path flavor bytes' = .ok d' ∧ d.Keeps d' := by
  induction h with
  | refl => exact ⟨d, hparse, .refl d⟩
  | tail _ hstep ih =>
    obtain ⟨d', hparse', hkeeps⟩ := ih
    obtain ⟨command, hrewrites⟩ := hstep
    obtain ⟨d'', hparse'', hkeeps', -⟩ := hrewrites.parse hparse'
    exact ⟨d'', hparse'', hkeeps.trans hkeeps'⟩

/-- At each point of the history of a file: names that rules have are still there after all later
runs, locations that the last rule of a name has never change, and a run for packages leaves their
rules sorted. -/
theorem rules_of_evolves (hparse : Document.parse path flavor bytes = .ok d) (h : Evolves bytes bytes') :
    ∃ d₁, Document.parse path flavor bytes' = .ok d₁ ∧
      (∀ later, Evolves bytes' later → ∃ d₂, Document.parse path flavor later = .ok d₂ ∧
        ∀ name ≠ "",
          ((∃ r ∈ d₁.rules rpmKind, r.name? = some name) → ∃ r ∈ d₂.rules rpmKind, r.name? = some name) ∧
          ∀ r, d₁.lastNamed? rpmKind name = some r → r.writtenUrls ≠ [] →
            ∃ r', d₂.lastNamed? rpmKind name = some r' ∧ r'.writtenUrls = r.writtenUrls) ∧
      ∀ (command : Command) (next : List UInt8), command.Rewrites bytes' next → command.kind = rpmKind →
        ∃ d₂, Document.parse path flavor next = .ok d₂ ∧
          (d₂.rules rpmKind).Pairwise (fun r s => Utf8.encode r.key < Utf8.encode s.key) ∧
          ((d₂.rules rpmKind).filterMap Rule.name?).Nodup := by
  obtain ⟨d₁, hparse₁, -⟩ := h.parse hparse
  refine ⟨d₁, hparse₁, fun later hlater => ?_, fun command next hrewrites hkind => ?_⟩
  · obtain ⟨d₂, hparse₂, hkeeps⟩ := hlater.parse hparse₁
    exact ⟨d₂, hparse₂, fun name hname => ⟨hkeeps.named hname, fun r hr => hkeeps.urls hname hr⟩⟩
  · obtain ⟨d₂, hparse₂, -, hascends⟩ := hrewrites.parse hparse₁
    exact ⟨d₂, hparse₂, hascends hkind, (hascends hkind).nodup⟩

def stockedText : String := "rpm(name = \"a\", urls = [\"u\"])\n"

def restockedText : String := "rpm(\n    name = \"a\",\n    urls = [\"u\"],\n    sha256 = \"1\",\n)\n"

def stockedManifest : String :=
  "\x7b\"packages\": [\x7b\"name\": \"a\", \"checksum\": \"1\", \"href\": \"a.rpm\"\x7d]\x7d"

def stocked : FileTree :=
  ⟨[(["WORKSPACE"], .file (Utf8.encode stockedText)), (["m.json"], .file (Utf8.encode stockedManifest))]⟩

def stockedCommand : Command := .rpms "WORKSPACE" "m.json" .write

def stockedItems : List Item :=
  [.keyword "name" (.string "a" (some "\"a\"")),
    .keyword "urls" (.list ⟨[.element (.string "u" (some "\"u\""))], []⟩)]

def stockedDocument (items : List Item) : Document :=
  ⟨"WORKSPACE", .workspace, [.rule ⟨[], ⟨.ident "rpm", ⟨items, []⟩⟩, none⟩]⟩

theorem parse_stocked : Document.parse "WORKSPACE" .workspace (Utf8.encode stockedText) =
    .ok (stockedDocument stockedItems) := by
  decide +kernel

theorem find_stocked : stocked.find "WORKSPACE" = .ok (.file (Utf8.encode stockedText)) ∧
    stocked.find (Path.scratch "WORKSPACE" 1) = .error .notFound := by
  decide +kernel

theorem load_stocked : Manifest.load stocked "m.json" = .ok ⟨[⟨"a", none, none, "1", "a.rpm", []⟩], []⟩ := by
  decide +kernel

theorem rewrites_stocked : stockedCommand.Rewrites (Utf8.encode stockedText) (Utf8.encode restockedText) := by
  have hrequest : Request.ofArguments ["rpms", "-m", "m.json"] none = .run stockedCommand := by decide +kernel
  have hsync : stockedCommand.sync stocked =
      .ok (⟨0, 1, 1⟩, stockedDocument (stockedItems.set 0 (.keyword "name" (.text "a")) ++
        [.keyword "sha256" (.text "1")])) := Command.syncRpms_eq_ok.mpr
    ⟨_, _, load_stocked, rfl, Document.load_of_find find_stocked.1 parse_stocked, rfl⟩
  have htext : (stockedDocument (stockedItems.set 0 (.keyword "name" (.text "a")) ++
      [.keyword "sha256" (.text "1")])).text = restockedText := by decide +kernel
  rw [← htext]
  exact Command.rewrites_of_sync ⟨1, false, none⟩ hrequest rfl hsync find_stocked.1
    (FileTree.writable_free 1 find_stocked.1 (by simp [stockedCommand, Command.target, find_stocked.2]))

theorem rules_of_evolves_stocked :
    Document.parse "WORKSPACE" .workspace (Utf8.encode stockedText) = .ok (stockedDocument stockedItems) ∧
      Evolves (Utf8.encode stockedText) (Utf8.encode restockedText) ∧
      ∃ d, Document.parse "WORKSPACE" .workspace (Utf8.encode restockedText) = .ok d ∧
        (∃ r ∈ d.rules rpmKind, r.name? = some "a") ∧
        (∃ r, d.lastNamed? rpmKind "a" = some r ∧ r.writtenUrls = ["u"]) ∧
        ((d.rules rpmKind).filterMap Rule.name?).Nodup := by
  have hevolves : Evolves (Utf8.encode stockedText) (Utf8.encode restockedText) := .single ⟨_, rewrites_stocked⟩
  obtain ⟨d₁, hparse₁, hlater, hnext⟩ := rules_of_evolves parse_stocked .refl
  cases parse_stocked.symm.trans hparse₁
  obtain ⟨d₂, hparse₂, hnames⟩ := hlater _ hevolves
  obtain ⟨hname, hurls⟩ := hnames "a" (by decide)
  obtain ⟨d₃, hparse₃, -, hnodup⟩ := hnext stockedCommand _ rewrites_stocked rfl
  cases hparse₂.symm.trans hparse₃
  have hlast : (stockedDocument stockedItems).lastNamed? rpmKind "a" =
      some ⟨[], ⟨.ident "rpm", ⟨stockedItems, []⟩⟩, none⟩ := rfl
  have hmem := (List.mem_filter.mp (List.mem_of_getLast? hlast)).1
  exact ⟨parse_stocked, hevolves, d₂, hparse₂, hname ⟨_, hmem, rfl⟩, hurls _ hlast (by decide), hnodup⟩

end BuildSync
