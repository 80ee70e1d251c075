import BuildSync.Proofs.Command.Again
import BuildSync.Proofs.Sync.Commute

namespace BuildSync

namespace Command

theorem finish_ne_shape (env : Environment) (tree : FileTree) (output : Output) (doc : Document)
    (report : Report) (kind path : String) (e : ShapeError) :
    (finish env tree output doc report kind path).2 ≠ .error (.shape e) := by
  intro h
  cases output with
  | write =>
    rw [finish] at h
    split at h <;> cases h
  | dryRun => cases h
  | diff =>
    rw [finish] at h
    split at h <;> cases h

theorem syncBundle_ne_shape (tree : FileTree) (buildfile name manifest : String) (files : List String)
    (e : ShapeError) : syncBundle tree buildfile name manifest files ≠ .error (.shape e) := by
  intro h
  simp only [syncBundle, bind, Except.bind, pure, Except.pure, throw, throwThe, MonadExceptOf.throw] at h
  split at h
  · cases h
  cases hm : Manifest.load tree manifest with
  | error _ =>
    rw [hm] at h
    cases h
  | ok m =>
    rw [hm] at h
    cases hd : Document.load tree buildfile .build with
    | error _ =>
      rw [hd] at h
      cases h
    | ok doc =>
      rw [hd] at h
      cases h

theorem rpmtree_ne_shape (env : Environment) (tree : FileTree) (buildfile name manifest : String)
    (files : List String) (output : Output) (e : ShapeError) :
    ((rpmtree buildfile name manifest files output).run env tree).2 ≠ .error (.shape e) := by
  cases hsync : (rpmtree buildfile name manifest files output).sync tree with
  | error e' =>
    rw [run_of_error env hsync]
    rintro ⟨⟩
    exact syncBundle_ne_shape tree buildfile name manifest files e hsync
  | ok synced =>
    rw [run_of_sync env hsync]
    exact finish_ne_shape _ _ _ _ _ _ _ e

end Command

namespace Document

/-- Calls for two names may change places, and of two calls for one name the last one counts. No
shape of an attribute stops them. -/
theorem bundles_independent (d : Document) :
    (∀ m n ps qs fs gs, m ≠ n →
      ((d.addBundle m ps fs).2.addBundle n qs gs).2 = ((d.addBundle n qs gs).2.addBundle m ps fs).2) ∧
    (∀ n ps qs fs gs, ((d.addBundle n ps fs).2.addBundle n qs gs).2 = (d.addBundle n qs gs).2) ∧
    ∀ env tree buildfile name manifest files output e,
      ((Command.rpmtree buildfile name manifest files output).run env tree).2 ≠ .error (.shape e) := by
  refine ⟨fun m n ps qs fs gs hne => addBundle_comm hne ps qs fs gs,
    fun n ps qs fs gs => addBundle_same n ps qs fs gs, ?_⟩
  intro env tree buildfile name manifest files output
  exact Command.rpmtree_ne_shape env tree buildfile name manifest files output

def assorted : Document :=
  ⟨"BUILD", .build,
    [.rule ⟨[], ⟨.ident "rpmtree", ⟨[.keyword "rpms" (.ident "RPMS")], []⟩⟩, none⟩,
      .rule ⟨["# kept"], ⟨.ident "rpmtree",
        ⟨[⟨["# which"], .name "rpms", .number "1", some "# odd"⟩, .keyword "name" (.text "b")], []⟩⟩, none⟩,
      .verbatim [] "x = 1",
      .rule ⟨[], ⟨.ident "rpmtree", ⟨[.keyword "name" (.text "a")], []⟩⟩, none⟩, .comment ["# end"]]⟩

def assortedBundled : Document :=
  ⟨"BUILD", .build,
    [.verbatim [] "x = 1",
      .rule ⟨[], ⟨.ident "rpmtree", ⟨[.keyword "rpms" (.ident "RPMS")], []⟩⟩, none⟩,
      .rule ⟨[], ⟨.ident "rpmtree", ⟨[.keyword "name" (.text "a"), .keyword "rpms" (.textList []),
        .keyword "files" (.textList (Rule.bundleFiles ["/g", "/f"]))], []⟩⟩, none⟩,
      .rule ⟨["# kept"], ⟨.ident "rpmtree",
        ⟨[⟨["# which"], .name "rpms", .textList ["@p//rpm"], some "# odd"⟩, .keyword "name" (.text "b"),
          .keyword "files" (.textList (Rule.bundleFiles []))], []⟩⟩, none⟩,
      .comment ["# end"]]⟩

theorem bundles_independent_assorted :
    "a" ≠ "b" ∧ ((assorted.addBundle "a" [] ["/g", "/f"]).2.addBundle "b" [⟨"p", none, none, "", "", []⟩] []).2 =
        assortedBundled ∧
      ((assorted.addBundle "b" [⟨"p", none, none, "", "", []⟩] []).2.addBundle "a" [] ["/g", "/f"]).2 =
        assortedBundled := by
  have hne : "a" ≠ "b" := by decide
  have hbundled : ((assorted.addBundle "a" [] ["/g", "/f"]).2.addBundle "b" [⟨"p", none, none, "", "", []⟩] []).2 =
      assortedBundled := rfl
  refine ⟨hne, hbundled, ?_⟩
  rw [← (bundles_independent assorted).1 "a" "b" [] [⟨"p", none, none, "", "", []⟩] ["/g", "/f"] [] hne, hbundled]

end Document
end BuildSync
