import ExprSampler.Config.Load
import ExprSampler.Proofs.Config.Entries
import ExprSampler.Proofs.Json.Refusals

/-!
# How loading a configuration fails

Loading is meant to end in one of two ways: with a configuration, or with the report that it is
malformed. `load_confined_iff` says exactly when it does. Nothing goes wrong with a file that is not
there, with a folder or with the syntax of a file, whatever is in it and wherever it stands. What
gets past the report is:

* a name that holds the null character, which no file can have;
* a file that is not UTF-8;
* an integer of more than `maxIntDigits` digits, met before anything else is wrong with the syntax;
* lists and objects nested more deeply than the reader can follow, met likewise;
* an integer without a finite double, given for a bound in a section that is otherwise in order up
  to there.

The last four are the constructors of `Escape`. The order matters: an entry that is malformed hides
a bound that is too large behind it, but not one before it.
-/

namespace ExprSampler

namespace Directory

theorem walk_ne_badName (d : Directory) (folder path : List String) :
    d.walk folder path ≠ .badName := by
  induction path generalizing folder with
  | nil => nofun
  | cons name rest ih =>
    rw [walk]
    split
    · exact ih folder
    split
    · exact ih _
    split
    · nofun
    dsimp only
    split
    · split <;> nofun
    split
    · exact ih _
    · nofun

theorem isBadPath_iff {path : String} : isBadPath path = true ↔ '\x00' ∈ path.toList :=
  List.contains_iff_mem

/-- Only the name itself can be bad; what it leads to cannot. -/
theorem openNormalized_eq_badName_iff {d : Directory} {path : String} :
    d.openNormalized path = .badName ↔ '\x00' ∈ path.toList := by
  rw [← isBadPath_iff, openNormalized]
  split
  · next hbad => exact iff_of_true rfl hbad
  · next hbad => exact iff_of_false (d.walk_ne_badName _ _) hbad

end Directory

/-! ## The settings of a section -/

namespace Settings

/-- Anything but a malformed entry is the fault of the first entry that is refused, once the entries
about colour make sense. -/
theorem ofEntries_eq_error_iff {entries : List (String × JsonValue)} {e : ConfigError}
    (he : e ≠ .malformed) :
    ofEntries entries = .error e ↔ colorOf entries ≠ .none ∧
      (entries.filter fun entry ↦ !isColorKey entry.1).findSome? refusal? = some e := by
  rw [ofEntries, bind_eq_error_iff]
  cases hcolor : colorOf entries with
  | none =>
    refine iff_of_false ?_ fun h ↦ h.1 rfl
    rintro (h | ⟨color, h, -⟩)
    · exact he (required_eq_error h)
    · cases h
  | some color =>
    rw [← foldlM_apply_eq_error_iff (s := { none with color := color })]
    constructor
    · rintro (h | ⟨color', h, hfold⟩)
      · cases h
      · cases h
        exact ⟨nofun, hfold⟩
    · rintro ⟨-, hfold⟩
      exact .inr ⟨color, rfl, hfold⟩

end Settings

namespace Config

/-- What a file can hold so that loading it fails without the report that it is malformed, where so
much nesting is left for the reader. -/
inductive Escape (nesting : Nat) (bytes : ByteArray) : ConfigError → Prop
  | notUtf8 (h : String.fromUTF8? bytes = none) : Escape nesting bytes .notUtf8
  | tooManyDigits {text : String} (htext : String.fromUTF8? bytes = some text)
      (h : JsonValue.decode nesting text = .error .tooManyDigits) :
      Escape nesting bytes .tooManyDigits
  | tooDeep {text : String} (htext : String.fromUTF8? bytes = some text)
      (h : JsonValue.decode nesting text = .error .tooDeep) : Escape nesting bytes .tooDeep
  | tooLarge {text : String} {config entries before after : List (String × JsonValue)}
      {entry : String × JsonValue} (htext : String.fromUTF8? bytes = some text)
      (hdecode : JsonValue.decode nesting text = .ok (.object config))
      (hsection : Settings.sectionOf config = some entries)
      (hcolor : Settings.colorOf entries ≠ none)
      (hentries : entries.filter (fun e ↦ !Settings.isColorKey e.1) = before ++ entry :: after)
      (hbefore : ∀ e ∈ before, Settings.refusal? e = none)
      (hlarge : Settings.OverlargeBound entry) : Escape nesting bytes .tooLarge

variable {nesting : Nat} {bytes : ByteArray} {e : ConfigError}

theorem Escape.ne_malformed (h : Escape nesting bytes e) : e ≠ .malformed := by
  cases h <;> nofun

theorem Escape.hasLongRun (h : Escape nesting bytes .tooManyDigits) :
    ∃ text, String.fromUTF8? bytes = some text ∧ JsonText.HasLongRun text.toList := by
  cases h with
  | tooManyDigits htext h =>
    obtain h | ⟨-, hrun⟩ | ⟨h, -⟩ := JsonText.cause_of_read h
    · cases h
    · exact ⟨_, htext, hrun⟩
    · cases h

theorem Escape.lt_openings (h : Escape nesting bytes .tooDeep) :
    ∃ text, String.fromUTF8? bytes = some text ∧ nesting < JsonText.openings text.toList := by
  cases h with
  | tooDeep htext h =>
    obtain h | ⟨h, -⟩ | ⟨-, hdeep⟩ := JsonText.cause_of_read h
    · cases h
    · cases h
    · exact ⟨_, htext, hdeep⟩

theorem entriesOf_eq_ok_iff {config : List (String × JsonValue)} :
    entriesOf nesting (.bytes bytes) = .ok config ↔ ∃ text, String.fromUTF8? bytes = some text ∧
      JsonValue.decode nesting text = .ok (.object config) := by
  simp only [entriesOf]
  cases String.fromUTF8? bytes with
  | none => exact iff_of_false nofun nofun
  | some text =>
    simp only [Option.some.injEq, exists_eq_left']
    split
    · next entries hdecode =>
      rw [hdecode, Except.ok.injEq, Except.ok.injEq, JsonValue.object.injEq]
    · next value hnot hdecode =>
      refine iff_of_false nofun fun h ↦ ?_
      rw [hdecode, Except.ok.injEq] at h
      exact hnot config h
    · next hdecode => exact iff_of_false nofun fun h ↦ nomatch hdecode.symm.trans h

theorem entriesOf_eq_error_iff (he : e ≠ .malformed) :
    entriesOf nesting (.bytes bytes) = .error e ↔
      e = .notUtf8 ∧ String.fromUTF8? bytes = none ∨
        ∃ text refusal, String.fromUTF8? bytes = some text ∧
          JsonValue.decode nesting text = .error refusal ∧ ofReader refusal = e := by
  simp only [entriesOf]
  cases String.fromUTF8? bytes with
  | none =>
    rw [Except.error.injEq]
    refine ⟨fun h ↦ .inl ⟨h.symm, rfl⟩, ?_⟩
    rintro (⟨h, -⟩ | ⟨text, refusal, htext, -⟩)
    · exact h.symm
    · cases htext
  | some text =>
    simp only [reduceCtorEq, and_false, false_or, Option.some.injEq, exists_and_left,
      exists_eq_left']
    cases JsonValue.decode nesting text with
    | ok value =>
      refine iff_of_false (fun h ↦ ?_) nofun
      split at h
      · cases h
      · exact he (Except.error.inj h).symm
      · next hvalue => cases hvalue
    | error refusal => simp only [Except.error.injEq, exists_eq_left']

theorem load_eq_error_iff {found : Found} (he : e ≠ .malformed) :
    load nesting found = .error e ↔ entriesOf nesting found = .error e ∨
      ∃ config entries, entriesOf nesting found = .ok config ∧
        Settings.sectionOf config = some entries ∧ Settings.ofEntries entries = .error e := by
  rw [load, bind_eq_error_iff]
  refine or_congr Iff.rfl (exists_congr fun config ↦ ?_)
  cases Settings.sectionOf config with
  | none =>
    refine iff_of_false ?_ fun ⟨_, _, h, _⟩ ↦ nomatch h
    rintro ⟨-, h⟩
    exact he (Except.error.inj h).symm
  | some entries =>
    simp only [Option.some.injEq, exists_and_left, exists_eq_left']
    refine and_congr Iff.rfl ?_
    rw [Settings.required, bind_eq_error_iff]
    constructor
    · rintro (h | ⟨entries', h, hload⟩)
      · cases h
      · cases h
        rcases bind_eq_error_iff.mp hload with h | ⟨settings, -, h⟩
        · exact h
        · cases h
    · exact fun h ↦ .inr ⟨entries, rfl, bind_eq_error_iff.mpr (.inl h)⟩

/-- What gets past the report, and how. -/
theorem load_bytes_eq_error_iff (he : e ≠ .malformed) :
    load nesting (.bytes bytes) = .error e ↔ Escape nesting bytes e := by
  rw [load_eq_error_iff he, entriesOf_eq_error_iff he]
  constructor
  · rintro ((⟨rfl, h⟩ | ⟨text, refusal, htext, h, rfl⟩) |
      ⟨config, entries, hconfig, hsection, h⟩)
    · exact .notUtf8 h
    · cases refusal with
      | malformed => exact absurd rfl he
      | tooManyDigits => exact .tooManyDigits htext h
      | tooDeep => exact .tooDeep htext h
    · obtain ⟨text, htext, hdecode⟩ := entriesOf_eq_ok_iff.mp hconfig
      obtain ⟨hcolor, hfirst⟩ := (Settings.ofEntries_eq_error_iff he).mp h
      obtain ⟨before, entry, after, hentries, hentry, hbefore⟩ :=
        List.findSome?_eq_some_iff.mp hfirst
      have hrefused := (Settings.apply_eq_error_iff (s := .none)).mpr hentry
      obtain hmalformed | ⟨rfl, hlarge⟩ := Settings.apply_eq_error hrefused
      · exact absurd hmalformed he
      · exact .tooLarge htext hdecode hsection hcolor hentries hbefore hlarge
  · intro h
    cases h with
    | notUtf8 h => exact .inl (.inl ⟨rfl, h⟩)
    | tooManyDigits htext h => exact .inl (.inr ⟨_, _, htext, h, rfl⟩)
    | tooDeep htext h => exact .inl (.inr ⟨_, _, htext, h, rfl⟩)
    | tooLarge htext hdecode hsection hcolor hentries hbefore hlarge =>
      refine .inr ⟨_, _, entriesOf_eq_ok_iff.mpr ⟨_, htext, hdecode⟩, hsection, ?_⟩
      refine (Settings.ofEntries_eq_error_iff he).mpr
        ⟨hcolor, List.findSome?_eq_some_iff.mpr ⟨_, _, _, hentries, ?_, hbefore⟩⟩
      exact Settings.refusal?_eq_tooLarge_iff.mpr hlarge

/-- Whatever is found is loaded or reported, unless its name was bad or its contents get past the
report. -/
theorem load_reported_iff {found : Found} :
    ((∃ c, load nesting found = .ok c) ∨ load nesting found = .error .malformed) ↔
      found ≠ .badName ∧ ∀ bytes, found = .bytes bytes → ∀ e, ¬Escape nesting bytes e := by
  cases found with
  | missing => exact iff_of_true (.inl ⟨_, rfl⟩) ⟨nofun, nofun⟩
  | unreadable => exact iff_of_true (.inr rfl) ⟨nofun, nofun⟩
  | badName =>
    refine iff_of_false ?_ fun h ↦ h.1 rfl
    rintro (⟨c, h⟩ | h) <;> cases h
  | bytes bytes =>
    constructor
    · refine fun hload ↦ ⟨nofun, fun bytes' hbytes e hescape ↦ ?_⟩
      obtain rfl : bytes = bytes' := Found.bytes.inj hbytes
      have he := hescape.ne_malformed
      rw [(load_bytes_eq_error_iff he).mpr hescape] at hload
      rcases hload with ⟨c, h⟩ | h
      · cases h
      · exact he (Except.error.inj h)
    · rintro ⟨-, hescape⟩
      cases hload : load nesting (.bytes bytes) with
      | ok c => exact .inl ⟨c, rfl⟩
      | error e =>
        by_cases he : e = .malformed
        · exact .inr (congrArg _ he)
        · exact absurd ((load_bytes_eq_error_iff he).mp hload) (hescape bytes rfl e)

/-- **A configuration is loaded or reported as malformed**, whatever is looked for, wherever files
are opened and whatever is found there, unless the name of the file is bad or the file holds one of
the four things that get past the report. Among files, a bad name is one that holds the null
character; and what the reader of a file gives up on without a report is in its text. -/
theorem load_confined_iff (openFile : String → Found) (nesting : Nat) (argv : List String) :
    (((∃ c, load nesting (openFile (fileName argv)) = .ok c) ∨
        load nesting (openFile (fileName argv)) = .error .malformed) ↔
      openFile (fileName argv) ≠ .badName ∧
        ∀ bytes, openFile (fileName argv) = .bytes bytes → ∀ e, ¬Escape nesting bytes e) ∧
      (∀ d : Directory, d.openNormalized (fileName argv) = .badName ↔
        '\x00' ∈ (fileName argv).toList) ∧
      ∀ bytes : ByteArray,
        (Escape nesting bytes .tooManyDigits → ∃ text, String.fromUTF8? bytes = some text ∧
          JsonText.HasLongRun text.toList) ∧
        (Escape nesting bytes .tooDeep → ∃ text, String.fromUTF8? bytes = some text ∧
          nesting < JsonText.openings text.toList) :=
  ⟨load_reported_iff, fun _ ↦ Directory.openNormalized_eq_badName_iff,
    fun _ ↦ ⟨Escape.hasLongRun, Escape.lt_openings⟩⟩

/-- One byte that is not UTF-8 is enough. -/
theorem not_forall_load_confined :
    ¬∀ (openFile : String → Found) (nesting : Nat) (argv : List String),
      (∃ c, load nesting (openFile (fileName argv)) = .ok c) ∨
        load nesting (openFile (fileName argv)) = .error .malformed := by
  intro h
  have hload : load usualNesting (.bytes ⟨#[0xff]⟩) = .error .notUtf8 := rfl
  specialize h (fun _ ↦ .bytes ⟨#[0xff]⟩) usualNesting ["explot"]
  rw [hload] at h
  rcases h with ⟨c, h⟩ | h <;> cases h

end Config

end ExprSampler
