import ExprSampler.Log.Logger

/-!
# Configured loggers

A logger is configured in place, by what it finds there: handlers are dropped, a first one is added,
or the one that is there is kept and given another level. What it has been configured for before
could show in two ways. A second handler would print every line twice, and a handler with the level
of an earlier configuration would swallow lines that the logger lets through, or be there where none
is wanted.

Neither happens, because every configuration brings the logger into one of the states `configured`,
one for each verbosity, and takes each of these states to the next as if it started afresh
(`configure_configured`). So after any number of configurations only the last one counts.

A record may be of any level, not only of one that the program logs at; `record` says what is
printed of it.
-/

namespace ExprSampler

namespace LogLevel

theorem ofVerbosity_of_nonpos {verbosity : Int} (h : verbosity ≤ 0) :
    ofVerbosity verbosity = warning := by
  rw [ofVerbosity, if_pos h]

theorem ofVerbosity_ne_warning {verbosity : Int} (h : 0 < verbosity) :
    ofVerbosity verbosity ≠ warning := by
  rw [ofVerbosity, if_neg (Int.not_le.mpr h)]
  split
  · nofun
  · nofun

/-- A logger that is asked for any verbosity lets information through. -/
theorem value_ofVerbosity_le {verbosity : Int} (h : 0 < verbosity) :
    (ofVerbosity verbosity).value ≤ info.value := by
  rw [ofVerbosity, if_neg (Int.not_le.mpr h)]
  split
  · exact Nat.le_refl _
  · decide

end LogLevel

namespace Logger

/-! ## One configuration -/

/-- The logger for a verbosity: with one handler of its own level, or without any. -/
def configured (verbosity : Int) : Logger where
  level := .ofVerbosity verbosity
  handlers := if verbosity ≤ 0 then [] else [.ofVerbosity verbosity]
  propagates := false

theorem handlers_configured_of_nonpos {verbosity : Int} (h : verbosity ≤ 0) :
    (configured verbosity).handlers = [] :=
  if_pos h

theorem handlers_configured_of_pos {verbosity : Int} (h : 0 < verbosity) :
    (configured verbosity).handlers = [.ofVerbosity verbosity] :=
  if_neg (Int.not_le.mpr h)

theorem configure_of_nonpos {verbosity : Int} (h : verbosity ≤ 0) (l : Logger) :
    l.configure verbosity = configured verbosity := by
  simp only [configure, configured, LogLevel.ofVerbosity_of_nonpos h, if_pos h]

/-- A logger that is asked for verbosity keeps the handlers behind the first, if there are any. -/
theorem configure_of_pos {verbosity : Int} (h : 0 < verbosity) (l : Logger) :
    l.configure verbosity = { configured verbosity with
      handlers := .ofVerbosity verbosity :: l.handlers.tail } := by
  have hlevel := LogLevel.ofVerbosity_ne_warning h
  obtain ⟨level, handlers, propagates⟩ := l
  rw [configure, configured]
  cases hv : LogLevel.ofVerbosity verbosity with
  | warning => exact absurd hv hlevel
  | debug | info => cases handlers <;> rfl

/-- A logger with one handler at most is set up from scratch. -/
theorem configure_eq {l : Logger} (h : l.handlers.length ≤ 1) (verbosity : Int) :
    l.configure verbosity = configured verbosity := by
  rcases Int.lt_or_le 0 verbosity with hpos | hnonpos
  · have htail : l.handlers.tail = [] := by
      rw [← List.length_eq_zero_iff, List.length_tail]
      omega
    rw [configure_of_pos hpos, htail, configured, if_neg (Int.not_le.mpr hpos)]
  · exact configure_of_nonpos hnonpos l

theorem length_handlers_configured (verbosity : Int) :
    (configured verbosity).handlers.length ≤ 1 := by
  rw [configured]
  split
  · exact Nat.zero_le 1
  · exact Nat.le_refl 1

/-- **A configuration takes no notice of the one before it.** -/
theorem configure_configured (verbosity verbosity' : Int) :
    (configured verbosity).configure verbosity' = configured verbosity' :=
  configure_eq (length_handlers_configured verbosity) verbosity'

theorem configure_quiet (verbosity : Int) : quiet.configure verbosity = configured verbosity :=
  configure_configured 0 verbosity

/-! ## Many configurations -/

/-- The logger after configurations for one verbosity after the other. -/
def configureAll (l : Logger) (verbosities : List Int) : Logger :=
  verbosities.foldl (fun l verbosity ↦ l.configure verbosity) l

theorem configureAll_concat (l : Logger) (verbosities : List Int) (verbosity : Int) :
    l.configureAll (verbosities ++ [verbosity])
      = (l.configureAll verbosities).configure verbosity := by
  rw [configureAll, configureAll, List.foldl_append, List.foldl_cons, List.foldl_nil]

theorem exists_configureAll_eq (verbosity : Int) (verbosities : List Int) :
    ∃ last, (configured verbosity).configureAll verbosities = configured last := by
  induction verbosities generalizing verbosity with
  | nil => exact ⟨verbosity, rfl⟩
  | cons next verbosities ih =>
    obtain ⟨last, hlast⟩ := ih next
    refine ⟨last, ?_⟩
    rw [configureAll, List.foldl_cons, configure_configured]
    exact hlast

/-! ## Records -/

/-- What logging a record prints whose level may be any number. -/
def record (value : Int) (text : String) (l : Logger) : List String :=
  if l.level.value ≤ value then
    (l.handlers.filter fun h ↦ decide (h.value ≤ value)).map fun _ ↦ text
  else []

/-- The levels that the program logs at are numbers among others. -/
theorem emit_eq_record (level : LogLevel) (text : String) (l : Logger) :
    l.emit level text = l.record level.value text := by
  simp only [emit, record, isEnabled, decide_eq_true_eq, Int.ofNat_le]

/-- A logger for a verbosity has one handler, which lets through what the logger does, or none. -/
theorem record_configured (value : Int) (text : String) (verbosity : Int) :
    (configured verbosity).record value text =
      if 0 < verbosity ∧ (LogLevel.ofVerbosity verbosity).value ≤ value then [text] else [] := by
  have hlevel : (configured verbosity).level = .ofVerbosity verbosity := rfl
  rw [record, hlevel]
  by_cases hvalue : ((LogLevel.ofVerbosity verbosity).value : Int) ≤ value
  · rw [if_pos hvalue]
    rcases Int.lt_or_le 0 verbosity with hpos | hnonpos
    · have hpasses : ∀ h ∈ [LogLevel.ofVerbosity verbosity],
          decide ((h.value : Int) ≤ value) = true :=
        List.forall_mem_singleton.mpr (decide_eq_true hvalue)
      rw [if_pos ⟨hpos, hvalue⟩, handlers_configured_of_pos hpos,
        List.filter_eq_self.mpr hpasses]
      rfl
    · rw [if_neg fun h ↦ Int.not_lt.mpr hnonpos h.1, handlers_configured_of_nonpos hnonpos]
      rfl
  · rw [if_neg hvalue, if_neg fun h ↦ hvalue h.2]

theorem emit_info_configured {verbosity : Int} (h : 0 < verbosity) (text : String) :
    (configured verbosity).emit .info text = [text] := by
  have hvalue := Int.ofNat_le.mpr (LogLevel.value_ofVerbosity_le h)
  rw [emit_eq_record, record_configured, if_pos ⟨h, hvalue⟩]

/-- **A logger forgets what it was configured for before.** However often it was configured, it has
the level of the last verbosity; it has no handler if that asks for nothing, else one of its own
level; and lines go to no handlers but its own. So a record is printed once if the last verbosity
asks for anything and the record is of the level of the logger or above it, and else not at all. -/
theorem configureAll_forgets (l : Logger) (history : List Int) (verbosity : Int) :
    let after := (l.configure 0).configureAll (history ++ [verbosity])
    after.level = (if verbosity ≤ 0 then .warning else if verbosity = 1 then .info else .debug) ∧
      after.handlers = (if verbosity ≤ 0 then [] else [after.level]) ∧
      after.propagates = false ∧
      (∀ (value : Int) (text : String), after.record value text =
        if 0 < verbosity ∧ after.level.value ≤ value then [text] else []) ∧
      ∀ (level : LogLevel) (text : String), after.emit level text =
        if 0 < verbosity ∧ after.level.value ≤ level.value then [text] else [] := by
  obtain ⟨last, hlast⟩ := exists_configureAll_eq 0 history
  have hafter : (l.configure 0).configureAll (history ++ [verbosity]) = configured verbosity := by
    rw [configureAll_concat, configure_of_nonpos (Int.le_refl 0), hlast, configure_configured]
  intro after
  rw [show after = configured verbosity from hafter]
  refine ⟨rfl, rfl, rfl, fun value text ↦ record_configured value text verbosity,
    fun level text ↦ ?_⟩
  rw [emit_eq_record, record_configured]
  simp only [Int.ofNat_le]
  rfl

end Logger

end ExprSampler
