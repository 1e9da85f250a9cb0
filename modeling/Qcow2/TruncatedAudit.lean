import Qcow2.Truncation
import Qcow2.Observation

/-! The audit of a file cut short beside the audit of the whole. -/

namespace Qcow2

open StdIo

namespace Qcow2Anomaly

/-- The finding `b` is what a file cut short may still show of the finding `a`. -/
inductive Faded : Qcow2Anomaly → Qcow2Anomaly → Prop
  | same (a : Qcow2Anomaly) : Faded a a
  | backingFile {name name' format format' : Option String}
      (hname : ∀ s, name' = some s → name = some s)
      (hformat : ∀ s, format' = some s → format = some s) :
      Faded (.backingFile name' format') (.backingFile name format)
  | orphanClusters {count count' allocated allocated' : Nat} (hcount : count' ≤ count)
      (hallocated : allocated' ≤ allocated) :
      Faded (.orphanClusters count' allocated') (.orphanClusters count allocated)

/-- The findings that come from the header alone. -/
def ofHeader : Qcow2Anomaly → Bool
  | .snapshot _ _ => false
  | .orphanClusters _ _ => false
  | _ => true

end Qcow2Anomaly

section Header

variable {short data : List UInt8}

theorem beUint_of_isPrefix (h : short <+: data) {n off : Nat} (hoff : off + n ≤ short.length) :
    beUint n short off = beUint n data off := by
  have hle := h.length_le
  rw [beUint_of_le hoff, beUint_of_le (by omega), beAt_of_isPrefix h hoff]

theorem le_length_of_getRange {start stop : Nat} {bs : List UInt8}
    (hr : getRange data start stop = some bs) : start ≤ stop ∧ stop ≤ data.length := by
  unfold getRange at hr
  split_ifs at hr with hin
  exact hin

theorem getRange_of_isPrefix (h : short <+: data) {start stop : Nat} {bs : List UInt8}
    (hr : getRange short start stop = some bs) : getRange data start stop = some bs := by
  have hle := h.length_le
  have hin := le_length_of_getRange hr
  unfold getRange at hr ⊢
  rw [if_pos (by omega)] at hr ⊢
  rwa [← slice_of_isPrefix h (by omega)]

theorem backingFileName_of_isPrefix [Target] (h : short <+: data) (hlen : 20 ≤ short.length)
    {s : String} (hs : backingFileName short = some s) : backingFileName data = some s := by
  have h8 : beU64 short 8 = beU64 data 8 := beUint_of_isPrefix h (by omega)
  have h16 : beU32 short 16 = beU32 data 16 := beUint_of_isPrefix h (by omega)
  unfold backingFileName at hs ⊢
  simp only [h8, h16, Option.bind_eq_bind] at hs ⊢
  by_cases hnone : beU64 data 8 = 0 ∨ beU32 data 16 = 0
  · simp [hnone] at hs
  · rw [if_neg hnone] at hs ⊢
    simp only [Option.bind_eq_some_iff] at hs ⊢
    obtain ⟨start, hstart, stop, hstop, bs, hbs, hs⟩ := hs
    exact ⟨start, hstart, stop, hstop, bs, getRange_of_isPrefix h hbs, hs⟩

/-- The walk over the extensions of a cut header finds what the walk over the whole finds, or
nothing. -/
theorem scanExtensions_of_isPrefix [Target] (h : short <+: data) {fuel pos : Nat} {s : String}
    (hs : scanExtensions short fuel pos = some s) : scanExtensions data fuel pos = some s := by
  have hle := h.length_le
  induction fuel generalizing pos with
  | zero => exact hs
  | succ fuel ih =>
    unfold scanExtensions at hs ⊢
    simp only [Option.bind_eq_bind] at hs ⊢
    by_cases hend : beU32 short pos = extEnd
    · simp [hend] at hs
    · rw [if_neg hend] at hs
      simp only [Option.bind_eq_some_iff] at hs
      obtain ⟨dataStart, hstart, dataEnd, hstop, hs⟩ := hs
      have hin : pos + 8 ≤ short.length := by
        have hstart' := checkedAdd_eq_some hstart
        have hstop' := checkedAdd_eq_some hstop
        split_ifs at hs
        · simp only [Option.bind_eq_some_iff] at hs
          obtain ⟨sliceEnd, -, bs, hbs, -⟩ := hs
          have hrange := le_length_of_getRange hbs
          omega
        · simp only [Option.bind_eq_some_iff] at hs
          obtain ⟨padded, -, next, -, hs⟩ := hs
          split_ifs at hs
          · simp at hs
          · omega
      have htype : beU32 short pos = beU32 data pos := beUint_of_isPrefix h (by omega)
      have hsize : beU32 short (pos + 4) = beU32 data (pos + 4) := beUint_of_isPrefix h (by omega)
      rw [htype] at hend hs
      rw [hsize] at hstop hs
      rw [if_neg hend]
      simp only [Option.bind_eq_some_iff]
      refine ⟨dataStart, hstart, dataEnd, hstop, ?_⟩
      split_ifs at hs ⊢
      · simp only [Option.bind_eq_some_iff] at hs ⊢
        obtain ⟨sliceEnd, hslice, bs, hbs, hs⟩ := hs
        exact ⟨sliceEnd, hslice, bs, getRange_of_isPrefix h hbs, hs⟩
      · simp only [Option.bind_eq_some_iff] at hs ⊢
        obtain ⟨padded, hpadded, next, hnext, hs⟩ := hs
        refine ⟨padded, hpadded, next, hnext, ?_⟩
        split_ifs at hs
        · simp at hs
        · rw [if_neg (by omega)]
          exact ih hs

/-- The header facts of a cut file, with 104 bytes left at least: the same but for a name or a
format that was cut off. -/
theorem Qcow2Info.parse_of_isPrefix [Target] (h : short <+: data) (hlen : 104 ≤ short.length)
    {i : Qcow2Info} (he : parse data = .ok i) : ∃ name format,
      parse short = .ok { i with backingFile := name, backingFormat := format } ∧
      (∀ s, name = some s → i.backingFile = some s) ∧
      ∀ s, format = some s → i.backingFormat = some s := by
  have hle := h.length_le
  have hf : ∀ {n off : Nat}, off + n ≤ 104 → beUint n short off = beUint n data off :=
    fun ho => beUint_of_isPrefix h (by omega)
  have hformat : ∀ s, backingFormatName short (beU32 data 4) = some s →
      backingFormatName data (beU32 data 4) = some s := by
    intro s hs
    unfold backingFormatName at hs ⊢
    simp only [beU32, hf (show 100 + 4 ≤ 104 by omega)] at hs
    exact scanExtensions_of_isPrefix h hs
  have hname : ∀ s, backingFileName short = some s → backingFileName data = some s :=
    fun s hs => backingFileName_of_isPrefix h (by omega) hs
  have h80 : 80 ≤ short.length ↔ 80 ≤ data.length := by omega
  unfold parse at he ⊢
  simp only [beU32, beU64] at he hformat ⊢
  rw [minHeaderSize] at he ⊢
  rw [if_neg (by omega)] at he ⊢
  simp only [hf (show 0 + 4 ≤ 104 by omega), hf (show 4 + 4 ≤ 104 by omega),
    hf (show 8 + 8 ≤ 104 by omega), hf (show 20 + 4 ≤ 104 by omega),
    hf (show 24 + 8 ≤ 104 by omega), hf (show 32 + 4 ≤ 104 by omega),
    hf (show 36 + 4 ≤ 104 by omega), hf (show 60 + 4 ≤ 104 by omega),
    hf (show 72 + 8 ≤ 104 by omega), h80]
  split_ifs at he ⊢ with hmagic hone hversion hfeatures
  · cases he
    refine ⟨backingFileName short, none, rfl, hname, ?_⟩
    intro s hs
    cases hs
  · cases he
    exact ⟨_, _, rfl, hname, hformat⟩
  · cases he
    exact ⟨_, _, rfl, hname, hformat⟩

end Header

section Probes

variable {c c' : Content}

theorem window_isPrefix {short bytes : List UInt8} (h : short <+: bytes) (w : Nat) :
    slice short 0 w <+: slice bytes 0 w := h.take w

theorem snapshots_of_isPrefix (hcut : c'.1 <+: c.1) (hlen : 72 ≤ c'.1.length) :
    (∀ l, snapshots (File.opened c) = .ok l →
      ∃ l', snapshots (File.opened c') = .ok l' ∧ l' <+: l) ∧
    ∀ l', snapshots (File.opened c') = .ok l' → ∃ l, snapshots (File.opened c) = .ok l := by
  have hle := hcut.length_le
  rw [snapshots_eq, snapshots_eq, snapshotsIn, snapshotsIn, minHeaderSize,
    if_neg (show ¬ c.1.length < 72 by omega), if_neg (show ¬ c'.1.length < 72 by omega)]
  rw [beAt_of_isPrefix hcut (by omega : 0 + 4 ≤ _), beAt_of_isPrefix hcut (by omega : 60 + 4 ≤ _),
    beAt_of_isPrefix hcut (by omega : 64 + 8 ≤ _)]
  split_ifs
  · simp
  · simp
  · simp
  · refine ⟨?_, fun l' _ => ⟨_, rfl⟩⟩
    intro l hl
    obtain rfl := Except.ok.inj hl
    exact ⟨_, rfl, (recordsFrom_of_isPrefix hcut _ _).1⟩

theorem refcountReport_ok_of_isPrefix (hcut : c'.1 <+: c.1) (hlen : 104 ≤ c'.1.length)
    {r' : Qcow2RefcountReport} (h' : refcountReport (File.opened c') = .ok r') :
    ∃ r, refcountReport (File.opened c) = .ok r := by
  have hle := hcut.length_le
  obtain ⟨hdr, hp'⟩ := refcountReport_header h'
  have hp : RefcountHeader.parse (slice c.1 0 104) = .ok hdr := by
    rw [← slice_of_isPrefix hcut (by omega), hp']
  refine refcountReport_ok hp ?_
  by_contra hfail
  obtain ⟨hwidth, hin⟩ := not_or.mp hfail
  obtain ⟨hoff, hentries, hout⟩ := not_not.mp hin
  obtain ⟨e, he⟩ := (refcountReport_error_iff hp').mpr ⟨by omega, hoff, hentries, by omega⟩
  rw [h'] at he
  cases he

theorem refcountReport_error_of_isPrefix (hcut : c'.1 <+: c.1) (hlen : 104 ≤ c'.1.length)
    {r : Qcow2RefcountReport} (h : refcountReport (File.opened c) = .ok r) {e : Qcow2Error}
    (h' : refcountReport (File.opened c') = .error e) : ∃ e', e = .io e' := by
  obtain ⟨hdr, hp⟩ := refcountReport_header h
  rw [← slice_of_isPrefix hcut (by omega)] at hp
  exact refcountReport_error_io hp h'

theorem inspect_ok_of_isPrefix (hcut : c'.1 <+: c.1) {info' : Qcow2Info}
    (h' : inspect (File.opened c') = .ok info') : ∃ info, inspect (File.opened c) = .ok info := by
  have hle := hcut.length_le
  rw [inspect_opened] at h'
  obtain ⟨hlen, hmagic, hone, hthree⟩ := Qcow2Info.parse_isOk_iff.mp ⟨info', h'⟩
  rw [beAt_of_isPrefix hcut (by omega)] at hmagic hone hthree
  rw [inspect_opened]
  exact Qcow2Info.parse_isOk_iff.mpr ⟨by omega, hmagic, hone, hthree⟩

end Probes

theorem sublistForall₂_append {α β : Type} {R : α → β → Prop} {as as' : List α} {bs bs' : List β}
    (h : List.SublistForall₂ R as bs) (h' : List.SublistForall₂ R as' bs') :
    List.SublistForall₂ R (as ++ as') (bs ++ bs') := by
  rw [List.sublistForall₂_iff] at h h' ⊢
  obtain ⟨l, hl, hsub⟩ := h
  obtain ⟨l', hl', hsub'⟩ := h'
  exact ⟨l ++ l', List.rel_append hl hl', hsub.append hsub'⟩

theorem exists_of_forall₂ {α β : Type} {R : α → β → Prop} {as : List α} {bs : List β} {b : β}
    (h : List.Forall₂ R as bs) (hb : b ∈ bs) : ∃ a ∈ as, R a b := by
  induction h with
  | nil => cases hb
  | cons hr _ ih =>
    rcases List.mem_cons.mp hb with rfl | hb
    · exact ⟨_, List.mem_cons_self, hr⟩
    · obtain ⟨a, ha, hr⟩ := ih hb
      exact ⟨a, List.mem_cons_of_mem _ ha, hr⟩

namespace Qcow2Anomaly

instance : Std.Refl Faded := ⟨.same⟩

theorem pushIf_faded {a b : Qcow2Anomaly} (h : Faded b a) (c : Bool) :
    List.Forall₂ Faded (pushIf c b) (pushIf c a) := by
  cases c with
  | false => exact .nil
  | true => exact .cons h .nil

theorem audit_faded {info : Qcow2Info} {name format : Option String}
    (hname : ∀ s, name = some s → info.backingFile = some s)
    (hformat : ∀ s, format = some s → info.backingFormat = some s) :
    List.Forall₂ Faded (audit { info with backingFile := name, backingFormat := format })
      (audit info) := by
  have hsame := fun (a : Qcow2Anomaly) (c : Bool) => pushIf_faded (.same a) c
  have hbacking := pushIf_faded (.backingFile hname hformat) info.hasBackingFile
  exact List.rel_append (List.rel_append (List.rel_append (List.rel_append (List.rel_append
    (List.rel_append (hsame _ _) hbacking) (hsame _ _)) (hsame _ _)) (hsame _ _)) (hsame _ _))
    (hsame _ _)

theorem auditSnapshots_faded {l l' : List Qcow2Snapshot} (h : l' <+: l) :
    List.SublistForall₂ Faded (auditSnapshots l') (auditSnapshots l) :=
  (h.map _).sublist.sublistForall₂

theorem auditOrphans_faded {r r' : Qcow2RefcountReport} (hcount : r'.orphanClusters ≤ r.orphanClusters)
    (hallocated : r'.allocatedClusters ≤ r.allocatedClusters) :
    List.SublistForall₂ Faded (auditOrphans r').toList (auditOrphans r).toList := by
  unfold auditOrphans
  split_ifs
  · exact .nil
  · exact .nil
  · omega
  · exact .cons (.orphanClusters hcount hallocated) .nil

theorem mem_audit_of_ofHeader {info : Qcow2Info} {l : List Qcow2Snapshot} {r : Qcow2RefcountReport}
    {a : Qcow2Anomaly} (ha : a ∈ audit info ++ auditSnapshots l ++ (auditOrphans r).toList)
    (hheader : a.ofHeader = true) : a ∈ audit info := by
  rw [List.mem_append, List.mem_append] at ha
  rcases ha with (ha | ha) | ha
  · exact ha
  · obtain ⟨s, -, rfl⟩ := List.mem_map.mp ha
    cases hheader
  · obtain ⟨-, rfl⟩ := mem_auditOrphans.mp ha
    cases hheader

end Qcow2Anomaly

/-- An audit of a file cut short accuses it of nothing that the whole is not accused of, and misses
no finding of the header. It can fail where the whole is audited, for want of a table; it never
succeeds where the whole is refused. -/
theorem truncated_audit_accuses_nothing {c c' : Content} (hcut : c'.1 <+: c.1)
    (hlen : 104 ≤ c'.1.length) (hcap : ∀ r, refcountReport (File.opened c) = .ok r →
      r.allocatedClusters ≤ maxClustersScanned) :
    (∀ out, auditPath (File.opened c) = .ok out →
      (∃ e, auditPath (File.opened c') = .error (.io e)) ∨
        ∃ out', auditPath (File.opened c') = .ok out' ∧
          List.SublistForall₂ Qcow2Anomaly.Faded out' out ∧
          ∀ a ∈ out, a.ofHeader = true → ∃ b ∈ out', Qcow2Anomaly.Faded b a) ∧
    ∀ out', auditPath (File.opened c') = .ok out' → ∃ out, auditPath (File.opened c) = .ok out := by
  have hwindow := window_isPrefix hcut 8192
  have hwindow_len := length_slice c'.1 0 8192
  have hle := hcut.length_le
  obtain ⟨hcut_snapshots, hwhole_snapshots⟩ := snapshots_of_isPrefix hcut (by omega)
  constructor
  · intro out hout
    obtain ⟨info, l, r, hinfo, hl, hr, rfl⟩ := auditPath_ok hout
    obtain ⟨l', hl', hlist⟩ := hcut_snapshots l hl
    rw [inspect_opened] at hinfo
    obtain ⟨name, format, hinfo', hname, hformat⟩ :=
      Qcow2Info.parse_of_isPrefix hwindow (by omega) hinfo
    rw [← inspect_opened] at hinfo'
    cases hr' : refcountReport (File.opened c') with
    | error e =>
      obtain ⟨e', rfl⟩ := refcountReport_error_of_isPrefix hcut hlen hr hr'
      left
      refine ⟨e', ?_⟩
      rw [auditPath, hinfo', hl', hr']
      rfl
    | ok r' =>
      obtain ⟨allocated, orphans, rfl, hallocated, horphans⟩ :=
        refcountReport_of_isPrefix hcut hlen hr (hcap r hr) hr'
      have hheader := Qcow2Anomaly.audit_faded hname hformat
      right
      refine ⟨_, by rw [auditPath, hinfo', hl', hr']; rfl, ?_, ?_⟩
      · exact sublistForall₂_append
          (sublistForall₂_append (List.sublistForall₂_iff.mpr ⟨_, hheader, List.Sublist.refl _⟩)
            (Qcow2Anomaly.auditSnapshots_faded hlist))
          (Qcow2Anomaly.auditOrphans_faded horphans hallocated)
      · intro a ha hkept
        obtain ⟨b, hb, hfaded⟩ :=
          exists_of_forall₂ hheader (Qcow2Anomaly.mem_audit_of_ofHeader ha hkept)
        exact ⟨b, List.mem_append_left _ (List.mem_append_left _ hb), hfaded⟩
  · intro out' hout'
    obtain ⟨info', l', r', hinfo', hl', hr', -⟩ := auditPath_ok hout'
    obtain ⟨l, hl⟩ := hwhole_snapshots l' hl'
    obtain ⟨r, hr⟩ := refcountReport_ok_of_isPrefix hcut hlen hr'
    obtain ⟨info, hinfo⟩ := inspect_ok_of_isPrefix hcut hinfo'
    exact ⟨_, by rw [auditPath, hinfo, hl, hr]; rfl⟩

theorem truncated_audit_accuses_nothing_sample : ∃ out,
    auditPath (File.opened orphanImage) = .ok out ∧
      ((∃ e, auditPath (File.opened cutOrphanImage) = .error (.io e)) ∨
        ∃ out', auditPath (File.opened cutOrphanImage) = .ok out' ∧
          List.SublistForall₂ Qcow2Anomaly.Faded out' out ∧
          ∀ a ∈ out, a.ofHeader = true → ∃ b ∈ out', Qcow2Anomaly.Faded b a) := by
  obtain ⟨out, hout⟩ := exists_ok (x := auditPath (File.opened orphanImage)) (by decide +kernel)
  obtain ⟨r, hr, hone⟩ := exists_ok_map (x := refcountReport (File.opened orphanImage))
    (f := Qcow2RefcountReport.allocatedClusters) (b := 1) (by decide +kernel)
  refine ⟨out, hout, (truncated_audit_accuses_nothing (List.take_prefix _ _) (by decide +kernel)
    ?_).1 out hout⟩
  intro r' hr'
  obtain rfl := Except.ok.inj (hr.symm.trans hr')
  rw [hone]
  decide

end Qcow2
