import BuildSync.Proofs.Sync.Replace
import BuildSync.Sync.Rpms
import Mathlib.Data.List.Induction

namespace BuildSync

namespace Rule

variable {r r' s : Rule} {p q : Package}

def identify (r : Rule) (p : Package) : Rule :=
  (r.setText "name" p.identity).setText "sha256" p.checksum

theorem attr?_identify {key : String} (hname : key ≠ "name") (hsum : key ≠ "sha256") (r : Rule)
    (p : Package) : (r.identify p).attr? key = r.attr? key := by
  rw [identify, setText_eq, setText_eq, attr?_setAttr_ne hsum, attr?_setAttr_ne hname]

theorem describe_eq_ok (h : r.describe p = .ok r') :
    ∃ urls, (r.identify p).getTexts "urls" = .ok urls ∧
      r' = if urls.isEmpty then (r.identify p).setTexts "urls" p.urls else r.identify p := by
  rw [describe] at h
  cases hurls : ((r.setText "name" p.identity).setText "sha256" p.checksum).getTexts "urls" with
  | error e =>
    rw [hurls] at h
    cases h
  | ok urls =>
    rw [hurls] at h
    exact ⟨urls, hurls, (Except.ok.inj h).symm⟩

theorem describe_of_getTexts {urls : List String} (h : (r.identify p).getTexts "urls" = .ok urls) :
    r.describe p =
      .ok (if urls.isEmpty then (r.identify p).setTexts "urls" p.urls else r.identify p) := by
  rw [describe]
  rw [identify] at h
  rw [h]
  rfl

structure Describes (r : Rule) (p : Package) : Prop where
  name : r.reread.attr? "name" = some (Expr.text p.identity).reread
  urls : ∃ urls, r.reread.getTexts "urls" = .ok urls ∧
    (urls = [] → p.urls = [] ∧ r.reread.attr? "urls" = some (.textList []))

theorem Describes.congr (h : r.Describes p) (heq : r.reread = s.reread) : s.Describes p := by
  obtain ⟨hname, hurls⟩ := h
  rw [heq] at hname hurls
  exact ⟨hname, hurls⟩

theorem name_describe (h : r.describe p = .ok r') : r'.attr? "name" = some (.text p.identity) := by
  have hname : (r.identify p).attr? "name" = some (.text p.identity) := by
    rw [identify, setText_eq, setText_eq, attr?_setAttr_ne (by decide), attr?_setAttr]
  obtain ⟨urls, -, rfl⟩ := describe_eq_ok h
  split_ifs
  · rw [setTexts_eq, attr?_setAttr_ne (by decide), hname]
  · exact hname

theorem checksum_describe (h : r.describe p = .ok r') : r'.attr? "sha256" = some (.text p.checksum) := by
  have hsum : (r.identify p).attr? "sha256" = some (.text p.checksum) := attr?_setAttr _ _ _
  obtain ⟨urls, -, rfl⟩ := describe_eq_ok h
  split_ifs
  · rw [setTexts_eq, attr?_setAttr_ne (by decide), hsum]
  · exact hsum

theorem urls_describe (h : r.describe p = .ok r') : ∃ urls, r'.getTexts "urls" = .ok urls ∧
    (urls = [] → p.urls = [] ∧ r'.attr? "urls" = some (.textList [])) := by
  obtain ⟨urls, hurls, rfl⟩ := describe_eq_ok h
  split_ifs with hempty
  · refine ⟨p.urls, getTexts_setTexts _ _ _, fun hp => ⟨hp, ?_⟩⟩
    rw [setTexts_eq, attr?_setAttr, hp]
  · exact ⟨urls, hurls, fun hnil => absurd (List.isEmpty_iff.mpr hnil) hempty⟩

theorem describes_describe (h : r.describe p = .ok r') : r'.Describes p := by
  obtain ⟨urls, hurls, hnil⟩ := urls_describe h
  refine ⟨?_, urls, (getTexts_reread _ _).trans hurls, fun hu => ⟨(hnil hu).1, ?_⟩⟩
  · rw [attr?_reread, name_describe h, Option.map_some]
  · rw [attr?_reread, (hnil hu).2, Option.map_some]
    rfl

theorem Describes.describe (hq : r.Describes q) (h : r.describe p = .ok r')
    (hid : q.identity = p.identity) : r'.Describes q := by
  have hname : r'.reread.attr? "name" = some (Expr.text q.identity).reread := by
    rw [attr?_reread, name_describe h, hid, Option.map_some]
  obtain ⟨us, hus, hnil⟩ := hq.urls
  have hsame : (r.identify p).attr? "urls" = r.attr? "urls" :=
    attr?_identify (by decide) (by decide) r p
  rw [getTexts_reread] at hus
  have hidentify : (r.identify p).getTexts "urls" = .ok us := getTexts_congr hsame hus
  rw [describe_of_getTexts hidentify] at h
  obtain rfl := Except.ok.inj h
  refine ⟨hname, ?_⟩
  split_ifs with hempty
  · have hnil := hnil (List.isEmpty_iff.mp hempty)
    refine ⟨p.urls, by rw [getTexts_reread, getTexts_setTexts], fun hp => ⟨hnil.1, ?_⟩⟩
    rw [attr?_reread, setTexts_eq, attr?_setAttr, hp]
    rfl
  · refine ⟨us, by rw [getTexts_reread, hidentify], fun hu => absurd (List.isEmpty_iff.mpr hu) hempty⟩

theorem Describes.describe_again (h : r.Describes p) : ∃ r', r.describe p = .ok r' ∧
    r'.reread = (r.setText "sha256" p.checksum).reread := by
  have hidentify : (r.identify p).reread = (r.setText "sha256" p.checksum).reread := by
    rw [identify, setText_eq, setText_eq, setText_eq, reread_setAttr, reread_setAttr, reread_setAttr,
      setAttr_eq_self h.name]
  obtain ⟨us, hus, hnil⟩ := h.urls
  rw [getTexts_reread] at hus
  have hsame : (r.identify p).attr? "urls" = r.attr? "urls" :=
    attr?_identify (by decide) (by decide) r p
  refine ⟨_, describe_of_getTexts (getTexts_congr hsame hus), ?_⟩
  split_ifs with hempty
  · obtain ⟨hp, hurls⟩ := hnil (List.isEmpty_iff.mp hempty)
    rw [setTexts_eq, reread_setAttr, hp]
    refine (setAttr_eq_self ?_).trans hidentify
    rw [attr?_reread, hsame, ← attr?_reread, hurls]
    rfl
  · exact hidentify

theorem kind_describe (h : r.describe p = .ok r') : r'.kind = r.kind := by
  obtain ⟨urls, -, rfl⟩ := describe_eq_ok h
  split_ifs <;> rfl

theorem key_describe (h : r.describe p = .ok r') : r'.key = p.identity := by
  rw [key, name?, name_describe h]
  rfl

theorem fits_describe (h : r.describe p = .ok r') (hr : (Statement.rule r).Fits false) :
    (Statement.rule r').Fits false := by
  have hidentify : (Statement.rule (r.identify p)).Fits false :=
    Statement.fits_setAttr (Statement.fits_setAttr hr (by decide) (Expr.fits_text _)) (by decide) (Expr.fits_text _)
  obtain ⟨urls, -, rfl⟩ := describe_eq_ok h
  split_ifs
  · exact Statement.fits_setAttr hidentify (by decide) (Expr.fits_textList _)
  · exact hidentify

def stamp (key : String) (r : Rule) (ps : List Package) : Rule :=
  ps.foldl (fun r p => if p.identity = key then r.setText "sha256" p.checksum else r) r

variable {key : String} {ps : List Package}

theorem stamp_cons : stamp key r (p :: ps) =
    stamp key (if p.identity = key then r.setText "sha256" p.checksum else r) ps := rfl

theorem stamp_concat : stamp key r (ps ++ [p]) =
    if p.identity = key then (stamp key r ps).setText "sha256" p.checksum else stamp key r ps := by
  rw [stamp, List.foldl_append]
  rfl

theorem setText_stamp (key : String) (r : Rule) (ps : List Package) (checksum : String) :
    (stamp key r ps).setText "sha256" checksum = r.setText "sha256" checksum := by
  induction ps generalizing r with
  | nil => rfl
  | cons p ps ih =>
    rw [stamp_cons, ih]
    split_ifs
    · exact setAttr_setAttr _ _ _ _
    · rfl

theorem stamp_congr (h : r.reread = s.reread) (key : String) (ps : List Package) :
    (stamp key r ps).reread = (stamp key s ps).reread := by
  induction ps generalizing r s with
  | nil => exact h
  | cons p ps ih =>
    rw [stamp_cons, stamp_cons]
    apply ih
    split_ifs
    · rw [setText_eq, setText_eq, reread_setAttr, reread_setAttr, h]
    · exact h

theorem stamp_describe (h : r.describe p = .ok r') :
    stamp p.identity r' (ps ++ [p]) = r' := by
  rw [stamp_concat, if_pos rfl, setText_stamp]
  exact setAttr_eq_self (checksum_describe h)

end Rule

namespace RpmTally

open Register

variable {t t' : RpmTally} {reg : Register} {p : Package} {ps qs : List Package}

theorem add_eq_ok (h : t.add p = .ok t') :
    ∃ r, ((t.register.find? p.identity).getD (.new rpmKind)).describe p = .ok r ∧
      t'.register = t.register.insert p.identity r := by
  rw [add] at h
  cases hr : ((t.register.find? p.identity).getD (.new rpmKind)).describe p with
  | error e =>
    rw [hr] at h
    cases h
  | ok r =>
    rw [hr] at h
    cases h
    exact ⟨r, rfl, rfl⟩

theorem addAll_append_eq_ok : t.addAll (ps ++ qs) = .ok t' ↔
    ∃ s, t.addAll ps = .ok s ∧ s.addAll qs = .ok t' := by
  induction ps generalizing t with
  | nil => simp [addAll]
  | cons p ps ih =>
    rw [List.cons_append, addAll, addAll]
    cases t.add p with
    | error e => simp
    | ok s => exact ih

theorem addAll_singleton (t : RpmTally) (p : Package) : t.addAll [p] = t.add p := by
  rw [addAll]
  cases t.add p <;> rfl

theorem addAll_concat (h : t.addAll (ps ++ [p]) = .ok t') :
    ∃ s, t.addAll ps = .ok s ∧ s.add p = .ok t' := by
  obtain ⟨s, hs, hp⟩ := addAll_append_eq_ok.mp h
  exact ⟨s, hs, addAll_singleton s p ▸ hp⟩

theorem files_add (h : t.add p = .ok t') (ht : Document.Files rpmKind t.register) :
    Document.Files rpmKind t'.register := by
  obtain ⟨r, hr, hreg⟩ := add_eq_ok h
  obtain ⟨hkind, hfits⟩ := ht.found (by decide) (by decide) (by decide) p.identity
  rw [hreg]
  exact ht.insert (Rule.key_describe hr) ((Rule.kind_describe hr).trans hkind) (Rule.fits_describe hr hfits)

theorem files_addAll (h : t.addAll ps = .ok t') (ht : Document.Files rpmKind t.register) :
    Document.Files rpmKind t'.register := by
  induction ps generalizing t with
  | nil =>
    cases h
    exact ht
  | cons p ps ih =>
    rw [addAll] at h
    split at h
    · cases h
    · rename_i s hs
      exact ih h (files_add hs ht)

def Covers (reg : Register) (ps : List Package) : Prop :=
  ∀ p ∈ ps, ∃ r, reg.find? p.identity = some r ∧ r.Describes p

theorem covers_add (h : t.add p = .ok t') (ht : Covers t.register ps) :
    Covers t'.register (ps ++ [p]) := by
  obtain ⟨r, hr, hreg⟩ := add_eq_ok h
  rw [hreg]
  refine List.forall_mem_append.mpr ⟨fun q hq => ?_, List.forall_mem_singleton.mpr ?_⟩
  · obtain ⟨s, hs, hdescribes⟩ := ht q hq
    rw [find?_insert]
    split_ifs with hid
    · rw [← hid, hs] at hr
      exact ⟨r, rfl, hdescribes.describe hr hid⟩
    · exact ⟨s, hs, hdescribes⟩
  · exact ⟨r, by rw [find?_insert, if_pos rfl], Rule.describes_describe hr⟩

def Stamped (reg : Register) (ps : List Package) : Prop :=
  ∀ key r, reg.find? key = some r → r.stamp key ps = r

theorem stamped_add (h : t.add p = .ok t') (ht : Stamped t.register ps) :
    Stamped t'.register (ps ++ [p]) := by
  obtain ⟨r, hr, hreg⟩ := add_eq_ok h
  intro key s hs
  rw [hreg, find?_insert] at hs
  split_ifs at hs with hkey
  · cases hs
    rw [hkey]
    exact Rule.stamp_describe hr
  · rw [Rule.stamp_concat, if_neg (Ne.symm hkey)]
    exact ht key s hs

theorem settled_addAll (h : t.addAll ps = .ok t') : Covers t'.register ps ∧ Stamped t'.register ps := by
  induction ps using List.reverseRecOn generalizing t' with
  | nil => exact ⟨nofun, fun _ _ _ => rfl⟩
  | append_singleton ps p ih =>
    obtain ⟨s, hs, hp⟩ := addAll_concat h
    obtain ⟨hcovers, hstamped⟩ := ih hs
    exact ⟨covers_add hp hcovers, stamped_add hp hstamped⟩

theorem Covers.mapRules_reread (h : Covers reg ps) (hreg : Document.Files rpmKind reg) :
    Covers (reg.mapRules Rule.reread) ps := by
  intro p hp
  obtain ⟨r, hr, hdescribes⟩ := h p hp
  exact ⟨r.reread, by rw [find?_mapRules, hr, Option.map_some], hdescribes.congr (hreg.reread_reread hr).symm⟩

theorem addAll_of_covers (hps : ∀ p ∈ ps, p ∈ qs) (ht : Covers t.register qs) (hs : Sorted t.register) :
    ∃ t', t.addAll ps = .ok t' ∧ t'.created = t.created ∧ Sorted t'.register ∧
      ∀ key, (t'.register.find? key).map Rule.reread =
        (t.register.find? key).map fun r => (r.stamp key ps).reread := by
  induction ps generalizing t with
  | nil => exact ⟨t, rfl, rfl, hs, fun _ => rfl⟩
  | cons p ps ih =>
    obtain ⟨hp, hps⟩ := List.forall_mem_cons.mp hps
    obtain ⟨r, hr, hdescribes⟩ := ht p hp
    obtain ⟨r', hr', hstamp⟩ := hdescribes.describe_again
    let s : RpmTally := ⟨t.register.insert p.identity r', p.identity :: t.seen, t.created,
      if !t.seen.contains p.identity then t.updated + 1 else t.updated⟩
    have hadd : t.add p = .ok s := by
      rw [add]
      simp only [hr, Option.getD_some, hr']
      rfl
    have hcovers : Covers s.register qs := by
      intro q hq
      obtain ⟨u, hu, hq⟩ := ht q hq
      show ∃ r, (t.register.insert p.identity r').find? q.identity = some r ∧ r.Describes q
      rw [find?_insert]
      split_ifs with hid
      · rw [hid, hr] at hu
        cases hu
        exact ⟨r', rfl, hq.describe hr' hid⟩
      · exact ⟨u, hu, hq⟩
    obtain ⟨t', ht', hcreated, hsorted, hfind⟩ := ih hps hcovers (sorted_insert hs _ _)
    refine ⟨t', by rw [addAll, hadd]; exact ht', hcreated, hsorted, fun key => ?_⟩
    rw [hfind]
    show ((t.register.insert p.identity r').find? key).map _ = _
    rw [find?_insert]
    split_ifs with hkey
    · rw [hkey, hr, Option.map_some, Option.map_some, Rule.stamp_cons, if_pos rfl, Rule.stamp_congr hstamp]
    · simp only [Rule.stamp_cons, if_neg (Ne.symm hkey)]

end RpmTally

namespace Document

variable {d d₁ : Document} {report : Report} {ps : List Package}

theorem addRpms_eq_ok_iff : d.addRpms ps = .ok (report, d₁) ↔
    ∃ t, RpmTally.addAll ⟨d.register rpmKind, [], 0, 0⟩ ps = .ok t ∧
      report = ⟨t.created, t.updated, t.register.length⟩ ∧ d₁ = d.replaceRules rpmKind t.register := by
  rw [addRpms]
  cases RpmTally.addAll ⟨d.register rpmKind, [], 0, 0⟩ ps with
  | error e => simp
  | ok t => simp [eq_comm]

theorem addRpms_eq_ok (h : d.addRpms ps = .ok (report, d₁)) :
    ∃ t, RpmTally.addAll ⟨d.register rpmKind, [], 0, 0⟩ ps = .ok t ∧ d₁ = d.replaceRules rpmKind t.register := by
  obtain ⟨t, ht, -, hd⟩ := addRpms_eq_ok_iff.mp h
  exact ⟨t, ht, hd⟩

theorem files_rpms (hd : ∀ s ∈ d.statements, s.Fits false) {t : RpmTally}
    (h : RpmTally.addAll ⟨d.register rpmKind, [], 0, 0⟩ ps = .ok t) : Files rpmKind t.register :=
  RpmTally.files_addAll h (files_register hd rpmKind)

theorem addRpms_again (hd : ∀ s ∈ d.statements, s.Fits false) (h : d.addRpms ps = .ok (report, d₁))
    (path : String) (flavor : Flavor) :
    ∃ d₂ report' d₃, parse path flavor (Utf8.encode d₁.text) = .ok d₂ ∧
      d₂.addRpms ps = .ok (report', d₃) ∧ d₃.text = d₁.text ∧ report'.created = 0 := by
  obtain ⟨t, ht, rfl⟩ := addRpms_eq_ok h
  have hfiles := files_rpms hd ht
  obtain ⟨hcovers, hstamped⟩ := RpmTally.settled_addAll ht
  obtain ⟨d₂, hparse, hd₂, hregister, htext⟩ := parse_replaceRules hd hfiles path flavor
  obtain ⟨t', ht', hcreated, hsorted, hfind⟩ :=
    RpmTally.addAll_of_covers (t := ⟨d₂.register rpmKind, [], 0, 0⟩) (fun _ h => h)
      (hregister ▸ hcovers.mapRules_reread hfiles) (files_register hd₂ rpmKind).sorted
  have hsame : t'.register.mapRules Rule.reread = t.register.mapRules Rule.reread := by
    refine (Register.sorted_mapRules _ hsorted).ext (Register.sorted_mapRules _ hfiles.sorted) fun key => ?_
    simp only at hfind
    rw [Register.find?_mapRules, hfind, hregister, Register.find?_mapRules]
    cases hr : t.register.find? key with
    | none => rfl
    | some r => simp only [Option.map_some, Rule.stamp_congr (hfiles.reread_reread hr), hstamped key r hr]
  have hfiles' := files_rpms hd₂ ht'
  refine ⟨d₂, ⟨t'.created, t'.updated, t'.register.length⟩, d₂.replaceRules rpmKind t'.register, hparse, ?_,
    htext t'.register hsame hfiles'.fits, hcreated⟩
  rw [addRpms, ht']

end Document
end BuildSync
