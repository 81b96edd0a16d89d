import ExprSampler.Proofs.Config.OrderedDefaults

/-!
# The order of the entries of a section

The entries of a section are gone through one after the other, the first that is refused ends it,
and the entries about colour are looked at apart. None of this depends on the order in which they
stand. Whether a section is accepted is a property of the set of its entries
(`exists_ofEntries_iff`), as each is checked on its own; and what an accepted section makes is read
off by looking up keys (`ofEntries_get?`), of which none stands twice. Both are kept by every
permutation.

The lists of defaults do depend on the order. What is made of them does not: they have the same
entries, and before they are logged they are sorted (`ofEntries_forgets_order`).
-/

namespace ExprSampler

variable {entries other : List (String × JsonValue)}

namespace Settings

theorem eq_of_get? {s s' : Settings} (hget : ∀ k, s.get? k = s'.get? k)
    (hverbose : s.verbose = s'.verbose) : s = s' := by
  have hcolor : s.color = s'.color :=
    (Option.map_inj_right fun _ _ ↦ JsonValue.bool.inj).mp (hget .color)
  have hcount : s.count = s'.count :=
    (Option.map_inj_right fun _ _ ↦ JsonValue.int.inj).mp (hget .count)
  have hout : s.out = s'.out :=
    (Option.map_inj_right fun _ _ h ↦ OutputFormat.name_inj.mp (JsonValue.str.inj h)).mp (hget .out)
  have hprecision : s.precision = s'.precision :=
    (Option.map_inj_right fun _ _ ↦ JsonValue.int.inj).mp (hget .precision)
  have hstart : s.start = s'.start :=
    (Option.map_inj_right fun _ _ ↦ JsonValue.float.inj).mp (hget .start)
  have hstop : s.stop = s'.stop :=
    (Option.map_inj_right fun _ _ ↦ JsonValue.float.inj).mp (hget .stop)
  cases s
  cases s'
  simp_all only

theorem colorOf_perm (hkeys : HasDistinctKeys entries) (hperm : entries.Perm other) :
    colorOf entries = colorOf other := by
  simp only [colorOf, flag?, valueAt?_perm hkeys hperm]

theorem readFrom_perm (hkeys : HasDistinctKeys entries) (hperm : entries.Perm other) (k : Setting) :
    k.readFrom entries = k.readFrom other := by
  cases k with
  | color => rw [Setting.readFrom, Setting.readFrom, colorOf_perm hkeys hperm]
  | count | out | precision | start | stop =>
    simp only [Setting.readFrom, valueAt?_perm hkeys hperm]

theorem exists_foldlM_apply_iff {s : Settings} :
    (∃ s', entries.foldlM apply s = .ok s') ↔ ∀ e ∈ entries, refusal? e = .none := by
  rw [← List.findSome?_eq_none_iff]
  cases hrun : entries.foldlM apply s with
  | ok s' =>
    refine iff_of_true ⟨s', rfl⟩ (Option.eq_none_iff_forall_ne_some.mpr fun e he ↦ ?_)
    rw [foldlM_apply_eq_error_iff.mpr he] at hrun
    cases hrun
  | error e =>
    rw [foldlM_apply_eq_error_iff.mp hrun]
    exact iff_of_false (fun ⟨_, h⟩ ↦ nomatch h) nofun

/-- A section is accepted if its entries about colour make sense and no other entry is refused. -/
theorem exists_ofEntries_iff :
    (∃ s, ofEntries entries = .ok s) ↔
      colorOf entries ≠ .none ∧ ∀ e ∈ entries, isColorKey e.1 = false → refusal? e = .none := by
  have hrest : (∀ e ∈ entries, isColorKey e.1 = false → refusal? e = .none) ↔
      ∀ e ∈ entries.filter fun e ↦ !isColorKey e.1, refusal? e = .none := by
    simp only [List.mem_filter, Bool.not_eq_true', and_imp]
  rw [hrest]
  constructor
  · rintro ⟨s, hs⟩
    obtain ⟨color, hcolor, hrun⟩ := ofEntries_eq_ok_iff.mp hs
    exact ⟨hcolor ▸ nofun, exists_foldlM_apply_iff.mp ⟨s, hrun⟩⟩
  · rintro ⟨hcolor, hentries⟩
    obtain ⟨color, hcolor⟩ := Option.ne_none_iff_exists'.mp hcolor
    obtain ⟨s, hrun⟩ := exists_foldlM_apply_iff.mpr hentries
    exact ⟨s, ofEntries_eq_ok_iff.mpr ⟨color, hcolor, hrun⟩⟩

theorem ofEntries_perm (hkeys : HasDistinctKeys entries) (hperm : entries.Perm other) {s : Settings}
    (h : ofEntries entries = .ok s) : ofEntries other = .ok s := by
  have haccepted : ∃ s', ofEntries other = .ok s' := by
    obtain ⟨hcolor, hentries⟩ := exists_ofEntries_iff.mp ⟨s, h⟩
    refine exists_ofEntries_iff.mpr ⟨colorOf_perm hkeys hperm ▸ hcolor, fun e he ↦ ?_⟩
    exact hentries e (hperm.mem_iff.mpr he)
  obtain ⟨s', h'⟩ := haccepted
  have hother := hkeys.perm hperm
  -- Both are read off their sections by key, where the order does not show.
  have hsame : s' = s := by
    refine eq_of_get? (fun k ↦ ?_) ?_
    · rw [ofEntries_get? hother h', ofEntries_get? hkeys h, readFrom_perm hkeys hperm]
    · rw [ofEntries_verbose hother h', ofEntries_verbose hkeys h, valueAt?_perm hkeys hperm]
  exact hsame ▸ h'

end Settings

namespace OrderedDefaults

/-- **The order of the entries of a section does not matter.** It makes defaults in one order if it
does in the other, and these are the same settings. As lists they differ in their order alone, and
so does what a command is given of them; the line that is logged for a command is the same, and the
one that the settings make. -/
theorem ofEntries_forgets_order (hkeys : HasDistinctKeys entries) (hperm : entries.Perm other) :
    (∀ s, Settings.ofEntries entries = .ok s ↔ Settings.ofEntries other = .ok s) ∧
      ((∃ d, ofEntries entries = .ok d) ↔ ∃ d, ofEntries other = .ok d) ∧
      ∀ d d', ofEntries entries = .ok d → ofEntries other = .ok d' →
        d.entries.Perm d'.entries ∧ ∃ s, Settings.ofEntries entries = .ok s ∧ ∀ command,
          (d.forCommand command).entries.Perm (d'.forCommand command).entries ∧
          ∀ logger, d.log logger command = logDefaults logger s command ∧
            d'.log logger command = logDefaults logger s command := by
  have hsettings (s : Settings) :
      Settings.ofEntries entries = .ok s ↔ Settings.ofEntries other = .ok s :=
    ⟨Settings.ofEntries_perm hkeys hperm, Settings.ofEntries_perm (hkeys.perm hperm) hperm.symm⟩
  refine ⟨hsettings, ?_, fun d d' hd hd' ↦ ?_⟩
  · rw [(matches_ofEntries entries).exists_ok_iff, (matches_ofEntries other).exists_ok_iff]
    exact exists_congr hsettings
  · obtain ⟨s, hs, hlists⟩ := (matches_ofEntries entries).exists_lists hd
    obtain ⟨s', hs', hlists'⟩ := (matches_ofEntries other).exists_lists hd'
    obtain rfl : s = s' := Except.ok.inj (((hsettings s).mp hs).symm.trans hs')
    refine ⟨hlists.perm.trans hlists'.perm.symm, s, hs, fun command ↦ ⟨?_, fun logger ↦ ⟨?_, ?_⟩⟩⟩
    · exact (hlists.forCommand_perm command).trans (hlists'.forCommand_perm command).symm
    · exact hlists.log_eq logger command
    · exact hlists'.log_eq logger command

/-- The lists do remember the order, which sorting takes away. -/
theorem ofEntries_forgets_order_of_three_entries :
    ∃ d d', ofEntries [("--count", .int 3), ("--precision", .int 2), ("--color", .bool true)] =
        .ok d ∧
      ofEntries [("--precision", .int 2), ("--color", .bool true), ("--count", .int 3)] = .ok d' ∧
      d.entries.map (·.1) = ["color_flag", "count", "precision"] ∧
      d'.entries.map (·.1) = ["color_flag", "precision", "count"] ∧
      ∀ logger, d.log logger "sample" = d'.log logger "sample" := by
  have hperm : [("--count", JsonValue.int 3), ("--precision", .int 2), ("--color", .bool true)].Perm
      [("--precision", .int 2), ("--color", .bool true), ("--count", .int 3)] :=
    (List.Perm.swap _ _ _).trans ((List.Perm.swap _ _ _).cons _)
  have hkeys : HasDistinctKeys
      [("--count", JsonValue.int 3), ("--precision", .int 2), ("--color", .bool true)] :=
    List.nodup_iff_pairwise_ne.mpr (by decide)
  refine ⟨_, _, rfl, rfl, rfl, rfl, fun logger ↦ ?_⟩
  obtain ⟨-, s, -, hs⟩ := (ofEntries_forgets_order hkeys hperm).2.2 _ _ rfl rfl
  obtain ⟨hlog, hlog'⟩ := (hs "sample").2 logger
  exact hlog.trans hlog'.symm

end OrderedDefaults

end ExprSampler
