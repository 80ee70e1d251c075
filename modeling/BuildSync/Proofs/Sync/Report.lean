import BuildSync.Proofs.Sync.Append
import BuildSync.Proofs.Sync.History
import BuildSync.Proofs.Sync.Tally

namespace BuildSync

namespace Register

variable {reg : Register}

theorem nodup_keys (h : reg.Sorted) : (reg.map Prod.fst).Nodup :=
  List.pairwise_map.mpr (h.imp fun hlt => hlt.ne)

theorem length_eq_card (h : reg.Sorted) : reg.length = (reg.map Prod.fst).toFinset.card := by
  rw [List.toFinset_card_of_nodup (nodup_keys h), List.length_map]

end Register

namespace Document

open RpmTally

variable {d d' : Document} {ps : List Package} {report : Report} {t : RpmTally}

def keys (d : Document) (kind : String) : Finset String := ((d.rules kind).map Rule.key).toFinset

theorem mem_keys {kind key : String} (hk : kind ≠ "") :
    key ∈ d.keys kind ↔ ((d.register kind).find? key).isSome = true := by
  rw [keys, List.mem_toFinset, find?_register hk, isSome_lastRule?]

theorem notMem_keys {kind key : String} (hk : kind ≠ "") :
    key ∉ d.keys kind ↔ ((d.register kind).find? key).isSome = false := by
  rw [mem_keys hk, Bool.not_eq_true]

theorem toFinset_keys_addAll (h : addAll ⟨d.register rpmKind, [], 0, 0⟩ ps = .ok t) :
    (t.register.map Prod.fst).toFinset = (identities ps \ d.keys rpmKind) ∪ d.keys rpmKind := by
  ext key
  rw [List.mem_toFinset, Register.mem_keys, isSome_find?_addAll h, Finset.sdiff_union_self_eq_union,
    Finset.mem_union, mem_keys (by decide)]

/-- The report of a run counts each identity once, as one of a new rule or of an old one, and each
key of the rules that there are in the end. -/
theorem report_addRpms (h : d.addRpms ps = .ok (report, d')) :
    report.created = (identities ps \ d.keys rpmKind).card ∧
      report.updated = (identities ps ∩ d.keys rpmKind).card ∧
      report.total = (d'.rules rpmKind).length ∧
      report.total = report.created + (d.keys rpmKind).card := by
  obtain ⟨t, ht, rfl, rfl⟩ := addRpms_eq_ok_iff.mp h
  have hcounts := counts_addAll ht
  have hcreated : t.created = (identities ps \ d.keys rpmKind).card := by
    rw [hcounts.created, Finset.sdiff_eq_filter]
    exact congrArg Finset.card (Finset.filter_congr fun key _ => (notMem_keys (by decide)).symm)
  refine ⟨hcreated, ?_, ?_, ?_⟩
  · show t.updated = _
    rw [hcounts.updated, ← Finset.filter_mem_eq_inter]
    exact congrArg Finset.card (Finset.filter_congr fun key _ => (mem_keys (by decide)).symm)
  · rw [rules_replaceRules (by decide) (kind_rpms ht), Register.rules, List.length_map]
  · have hsorted := sorted_addAll ht (Register.sorted_ofRules _)
    calc
      t.register.length = ((identities ps \ d.keys rpmKind) ∪ d.keys rpmKind).card := by
        rw [Register.length_eq_card hsorted, toFinset_keys_addAll ht]
      _ = (identities ps \ d.keys rpmKind).card + (d.keys rpmKind).card :=
        Finset.card_union_of_disjoint Finset.sdiff_disjoint
      _ = t.created + (d.keys rpmKind).card := by rw [hcreated]

def recurringPackages : List Package :=
  [⟨"c", none, none, "1", "c.rpm", []⟩, ⟨"a", none, none, "2", "a.rpm", []⟩,
    ⟨"c", none, none, "3", "c.rpm", []⟩, ⟨"a", none, none, "4", "a.rpm", []⟩]

theorem report_addRpms_recurring : ∃ d', crowded.addRpms recurringPackages = .ok (⟨1, 1, 3⟩, d') ∧
    1 = (identities recurringPackages \ crowded.keys rpmKind).card ∧
      1 = (identities recurringPackages ∩ crowded.keys rpmKind).card ∧
      3 = (d'.rules rpmKind).length ∧ 3 = 1 + (crowded.keys rpmKind).card := by
  obtain ⟨d', h⟩ : ∃ d', crowded.addRpms recurringPackages = .ok (⟨1, 1, 3⟩, d') := ⟨_, rfl⟩
  exact ⟨d', h, report_addRpms h⟩

end Document
end BuildSync
