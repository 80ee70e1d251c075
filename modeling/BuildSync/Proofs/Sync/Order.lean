import BuildSync.Proofs.Sync.Append
import BuildSync.Proofs.Sync.Tally
import Mathlib.Data.List.Rotate

namespace List

theorem Perm.eq_of_length_le_one {α : Type} {xs ys : List α} (h : xs.Perm ys) (hlen : xs.length ≤ 1) :
    xs = ys := by
  match xs with
  | [] => exact h.nil_eq
  | [x] => exact singleton_perm.mp h
  | _ :: _ :: _ => simp at hlen

end List

namespace BuildSync

namespace Package

/-- The same packages, of which those with one identity come in the same order. -/
structure Reordered (ps qs : List Package) : Prop where
  perm : ps.Perm qs
  order : ∀ key, ps.filter (·.identity == key) = qs.filter (·.identity == key)

namespace Reordered

variable {ps qs : List Package} (h : Reordered ps qs)

include h

theorem mem_map {key : String} : key ∈ ps.map identity ↔ key ∈ qs.map identity :=
  (h.perm.map identity).mem_iff

theorem identities : RpmTally.identities ps = RpmTally.identities qs := by
  ext key
  rw [RpmTally.mem_identities, RpmTally.mem_identities, h.mem_map]

end Reordered
end Package

namespace RpmTally

variable {reg : Register} {ps qs : List Package} {t u : RpmTally}

theorem exists_addAll_reordered (h : Package.Reordered ps qs) :
    (∃ t, RpmTally.addAll ⟨reg, [], 0, 0⟩ ps = .ok t) ↔ ∃ u, RpmTally.addAll ⟨reg, [], 0, 0⟩ qs = .ok u := by
  rw [exists_addAll_iff, exists_addAll_iff]
  exact forall_congr' fun p => imp_congr_left h.perm.mem_iff

theorem addAll_reordered (h : Package.Reordered ps qs) (hreg : reg.Sorted)
    (ht : RpmTally.addAll ⟨reg, [], 0, 0⟩ ps = .ok t) (hu : RpmTally.addAll ⟨reg, [], 0, 0⟩ qs = .ok u) :
    u.register = t.register ∧ u.created = t.created ∧ u.updated = t.updated := by
  refine ⟨?_, ?_, ?_⟩
  · refine (sorted_addAll hu hreg).ext (sorted_addAll ht hreg) fun key => ?_
    rw [find?_addAll hu, find?_addAll ht, h.order]
    exact if_congr h.mem_map.symm rfl rfl
  · rw [(counts_addAll hu).created, (counts_addAll ht).created, h.identities]
  · rw [(counts_addAll hu).updated, (counts_addAll ht).updated, h.identities]

end RpmTally

namespace Document

variable {d d₁ d₂ : Document} {kind : String} {ps qs : List Package}

theorem length_filter_key (h : ((d.rules kind).map Rule.key).Nodup) (key : String) :
    ((d.rules kind).filter (·.key == key)).length ≤ 1 := by
  have hcount := List.nodup_iff_count_le_one.mp h key
  rw [List.count, List.countP_map, List.countP_eq_length_filter] at hcount
  exact hcount

theorem register_perm (hk : kind ≠ "") (h : (d₁.rules kind).Perm (d₂.rules kind))
    (hkeys : ((d₁.rules kind).map Rule.key).Nodup) : d₁.register kind = d₂.register kind := by
  refine (Register.sorted_ofRules _).ext (Register.sorted_ofRules _) fun key => ?_
  show (d₁.register kind).find? key = (d₂.register kind).find? key
  rw [find?_register hk, find?_register hk, lastRule?, lastRule?,
    (h.filter _).eq_of_length_le_one (length_filter_key hkeys key)]

/-- Neither where the rules stand nor in which order they and the packages come makes a difference. -/
theorem addRpms_reordered (hothers : d₁.others rpmKind = d₂.others rpmKind)
    (hrules : (d₁.rules rpmKind).Perm (d₂.rules rpmKind)) (hkeys : ((d₁.rules rpmKind).map Rule.key).Nodup)
    (hps : Package.Reordered ps qs) :
    ((∃ e, d₁.addRpms ps = .error e) ∧ ∃ e, d₂.addRpms qs = .error e) ∨
    ∃ report d₁' d₂', d₁.addRpms ps = .ok (report, d₁') ∧ d₂.addRpms qs = .ok (report, d₂') ∧
      d₁'.statements = d₂'.statements ∧ d₁'.text = d₂'.text := by
  have hregister := register_perm (by decide) hrules hkeys
  have hsome : (∃ t, RpmTally.addAll ⟨d₁.register rpmKind, [], 0, 0⟩ ps = .ok t) ↔
      ∃ u, RpmTally.addAll ⟨d₁.register rpmKind, [], 0, 0⟩ qs = .ok u := RpmTally.exists_addAll_reordered hps
  cases h₁ : RpmTally.addAll ⟨d₁.register rpmKind, [], 0, 0⟩ ps with
  | error e =>
    cases h₂ : RpmTally.addAll ⟨d₁.register rpmKind, [], 0, 0⟩ qs with
    | ok u =>
      obtain ⟨t, ht⟩ := hsome.mpr ⟨u, h₂⟩
      cases h₁.symm.trans ht
    | error e' => exact .inl ⟨⟨e, by rw [addRpms, h₁]⟩, e', by rw [addRpms, ← hregister, h₂]⟩
  | ok t =>
    obtain ⟨u, hu⟩ := hsome.mp ⟨t, h₁⟩
    obtain ⟨hreg, hcreated, hupdated⟩ := RpmTally.addAll_reordered hps (Register.sorted_ofRules _) h₁ hu
    have hstatements : (d₁.replaceRules rpmKind t.register).statements =
        (d₂.replaceRules rpmKind u.register).statements := by
      rw [statements_replaceRules, statements_replaceRules, hothers, hreg]
    refine .inr ⟨_, _, _, addRpms_eq_ok_iff.mpr ⟨t, h₁, rfl, rfl⟩,
      addRpms_eq_ok_iff.mpr ⟨u, hregister ▸ hu, ?_, rfl⟩, hstatements, congrArg Statement.printAll hstatements⟩
    rw [hreg, hcreated, hupdated]

def scattered : Document :=
  ⟨"WORKSPACE", .workspace,
    [namedRpm "b" ["# kept"], .verbatim [] "x = 1", namedRpm "a" [], .comment ["# end"]]⟩

def gathered : Document :=
  ⟨"WORKSPACE.bazel", .workspace,
    [.verbatim [] "x = 1", .comment ["# end"], namedRpm "a" [], namedRpm "b" ["# kept"]]⟩

def mixedPackages : List Package := crowdedPackages ++ [⟨"c", none, none, "3", "c.rpm", []⟩]

theorem addRpms_reordered_scattered :
    scattered.others rpmKind = gathered.others rpmKind ∧
    (scattered.rules rpmKind).Perm (gathered.rules rpmKind) ∧
    ((scattered.rules rpmKind).map Rule.key).Nodup ∧
    Package.Reordered mixedPackages (mixedPackages.rotate 2) ∧
    (∃ d', scattered.addRpms mixedPackages = .ok (⟨1, 1, 3⟩, d')) ∧
    (((∃ e, scattered.addRpms mixedPackages = .error e) ∧
        ∃ e, gathered.addRpms (mixedPackages.rotate 2) = .error e) ∨
      ∃ report d₁' d₂', scattered.addRpms mixedPackages = .ok (report, d₁') ∧
        gathered.addRpms (mixedPackages.rotate 2) = .ok (report, d₂') ∧
        d₁'.statements = d₂'.statements ∧ d₁'.text = d₂'.text) := by
  have hothers : scattered.others rpmKind = gathered.others rpmKind := rfl
  have hrules : (scattered.rules rpmKind).Perm (gathered.rules rpmKind) := List.Perm.swap _ _ _
  have hkeys : ((scattered.rules rpmKind).map Rule.key).Nodup := by
    have hmap : (scattered.rules rpmKind).map Rule.key = ["b", "a"] := rfl
    rw [hmap]
    decide
  have hps : Package.Reordered mixedPackages (mixedPackages.rotate 2) := by
    refine ⟨(List.rotate_perm _ _).symm, fun key => ?_⟩
    have hrotate : mixedPackages.rotate 2 = mixedPackages.drop 2 ++ crowdedPackages := rfl
    have hcut : mixedPackages = crowdedPackages ++ mixedPackages.drop 2 := rfl
    have hfirst : ∀ p ∈ crowdedPackages, p.identity = "a" := by decide
    have hlast : ∀ p ∈ mixedPackages.drop 2, p.identity = "c" := by decide
    rw [hrotate, List.filter_append]
    conv_lhs => rw [hcut, List.filter_append]
    by_cases hkey : key = "a"
    · have hnone : (mixedPackages.drop 2).filter (·.identity == key) = [] :=
        List.filter_eq_nil_iff.mpr fun p hp => by simp [hlast p hp, hkey]
      rw [hnone, List.append_nil, List.nil_append]
    · have hnone : crowdedPackages.filter (·.identity == key) = [] :=
        List.filter_eq_nil_iff.mpr fun p hp => by simpa [hfirst p hp] using Ne.symm hkey
      rw [hnone, List.append_nil, List.nil_append]
  exact ⟨hothers, hrules, hkeys, hps, ⟨_, rfl⟩, addRpms_reordered hothers hrules hkeys hps⟩

end Document
end BuildSync
