import ExprSampler.Command.Program

/-!
# Two readings of `--config`

The file of a configuration is looked for before the command line is read: a scan goes through all
words and takes what the first `--config` names. The command line is then read in earnest, and there
the option is one of those that stand before the command, and the last of several counts. What it
gives there is not used any more.

As long as only flags can stand in front of it, the scan finds the first `--config` of the global
options without reading them (`nameAmong_of_read`): no other global option takes a value, so no word
in front of the first `--config` can be the value of something else. But the scan neither goes on to
the last one nor stops at the command. The two readings part if the option is given twice for two
files, and if it is not given but a word behind the command looks like it (`fileName_eq_last_iff`).
-/

namespace ExprSampler

namespace Command

open Words

/-! ## Words that are global options -/

/-- What a word that is a global option, or several, gives. -/
inductive GlobalOption : String → Reading → Prop
  /-- Flags for verbosity. -/
  | flags {word : String} {given : List (OptionKey × String)}
      (hgiven : ∀ g ∈ given, g.1 = OptionKey.verbose) (hseparate : word ≠ "--config")
      (hinline : ¬"--config=".toList <+: word.toList) : GlobalOption word (given, none)
  /-- The file in the word itself. -/
  | inline {word value : String} (h : word.toList = "--config=".toList ++ value.toList) :
      GlobalOption word ([(.config, value)], none)
  /-- The file in the next word. -/
  | separate : GlobalOption "--config" ([], some .config)

theorem key?_globalNames {name : List Char} {key : OptionKey}
    (h : key? globalNames name = some key) :
    key = .verbose ∧ (name = "-v".toList ∨ name = "--verbose".toList)
      ∨ key = .config ∧ name = "--config".toList := by
  obtain ⟨n, hfind, rfl⟩ := Option.map_eq_some_iff.mp h
  have hname : n.text.toList = name := eq_of_beq (List.find?_some hfind :)
  have hmem := List.mem_of_find?_eq_some hfind
  simp only [globalNames, List.mem_cons, List.not_mem_nil, or_false] at hmem
  rcases hmem with rfl | rfl | rfl
  · exact .inl ⟨rfl, .inl hname.symm⟩
  · exact .inl ⟨rfl, .inr hname.symm⟩
  · exact .inr ⟨rfl, hname.symm⟩

/-- A short global option is a flag, and so are all that share a word with it. -/
theorem verbose_of_readShort {cs : List Char} {given : List (OptionKey × String)}
    {pending : Option OptionKey} (h : readShort globalNames cs = .ok (given, pending)) :
    (∀ g ∈ given, g.1 = OptionKey.verbose) ∧ pending = none := by
  induction cs generalizing given with
  | nil =>
    cases h
    exact ⟨List.forall_mem_nil _, rfl⟩
  | cons c cs ih =>
    rw [readShort] at h
    cases hkey : key? globalNames ['-', c] with
    | none =>
      rw [hkey] at h
      cases h
    | some key =>
      obtain ⟨rfl, -⟩ | ⟨-, hname⟩ := key?_globalNames hkey
      · rw [hkey] at h
        cases hrest : readShort globalNames cs with
        | error e =>
          rw [hrest] at h
          cases h
        | ok reading =>
          obtain ⟨more, pending'⟩ := reading
          rw [hrest] at h
          cases h
          obtain ⟨hmore, hpending⟩ := ih hrest
          exact ⟨List.forall_mem_cons.mpr ⟨rfl, hmore⟩, hpending⟩
      · exact absurd hname (by simp)

/-- The text behind the first equals sign is found, or there is no such sign. -/
theorem splitEquals_cases (cs : List Char) :
    (∃ name value, splitEquals cs = (name, some value) ∧ cs = name ++ '=' :: value)
      ∨ splitEquals cs = (cs, none) := by
  rw [splitEquals]
  cases hrest : cs.dropWhile (· != '=') with
  | nil => exact .inr rfl
  | cons c value =>
    refine .inl ⟨_, value, rfl, ?_⟩
    have hc : c = '=' := by
      have hhead := List.head?_dropWhile_not (· != '=') cs
      rw [hrest] at hhead
      simpa using hhead
    rw [← congrArg (· :: value) hc, ← hrest, List.takeWhile_append_dropWhile]

theorem globalOption_of_readLong {word : String} {reading : Reading}
    (h : readLong globalNames word.toList = .ok reading) : GlobalOption word reading := by
  rw [readLong] at h
  obtain ⟨name, value, hsplit, hword⟩ | hsplit := splitEquals_cases word.toList
  · rw [hsplit] at h
    dsimp only at h
    cases hkey : key? globalNames name with
    | none =>
      rw [hkey] at h
      cases h
    | some key =>
      rw [hkey] at h
      obtain ⟨rfl, -⟩ | ⟨rfl, rfl⟩ := key?_globalNames hkey
      · cases h
      · cases h
        refine .inline ?_
        have hvalue : (String.ofList value).toList = value := String.toList_ofList
        have hequals : "--config=".toList = "--config".toList ++ ['='] := rfl
        rw [hword, hvalue, hequals, List.append_assoc, List.singleton_append]
  · rw [hsplit] at h
    dsimp only at h
    cases hkey : key? globalNames word.toList with
    | none =>
      rw [hkey] at h
      cases h
    | some key =>
      rw [hkey] at h
      obtain ⟨rfl, hname⟩ | ⟨rfl, hname⟩ := key?_globalNames hkey
      · cases h
        refine .flags (List.forall_mem_singleton.mpr rfl) ?_ ?_
        · rintro rfl
          rcases hname with hname | hname <;> exact absurd hname (by decide)
        · rcases hname with hname | hname <;> rw [hname] <;> decide
      · cases h
        obtain rfl : word = "--config" := String.toList_inj.mp hname
        exact .separate

theorem globalOption_of_readOption {word : String} {reading : Reading}
    (h : readOption globalNames word = .ok reading) : GlobalOption word reading := by
  unfold readOption at h
  split at h
  · exact globalOption_of_readLong h
  · next c cs hshort hword =>
    obtain ⟨given, pending⟩ := reading
    obtain ⟨hgiven, rfl⟩ := verbose_of_readShort h
    -- A word with two dashes in front is read as a long option.
    have hdash : ∀ rest : List Char, word.toList ≠ '-' :: '-' :: rest := by
      intro rest hrest
      obtain ⟨hc, hcs⟩ := List.cons.inj (hword.symm.trans hrest)
      exact hshort rest hc hcs
    refine .flags hgiven ?_ ?_
    · rintro rfl
      exact hdash _ rfl
    · rintro ⟨rest, hrest⟩
      exact hdash _ hrest.symm
  · cases h

/-! ## The scan -/

section

variable {word : String} {rest : List String}

theorem nameAmong_of_other (hseparate : word ≠ "--config")
    (hinline : ¬"--config=".toList <+: word.toList) :
    Config.nameAmong (word :: rest) = Config.nameAmong rest := by
  rw [Config.nameAmong.eq_def]
  dsimp only
  rw [if_neg hseparate, if_neg (mt String.startsWith_string_iff.mp hinline)]

theorem nameAmong_inline {value : String} (h : word.toList = "--config=".toList ++ value.toList) :
    Config.nameAmong (word :: rest) = value := by
  have hprefix : word.startsWith "--config=" = true :=
    String.startsWith_string_iff.mpr ⟨value.toList, h.symm⟩
  have hseparate : word ≠ "--config" := by
    rintro rfl
    cases h
  have hvalue : (word.drop "--config=".length).toString.toList = value.toList := by
    change (word.drop "--config=".length).copy.toList = value.toList
    rw [String.toList_copy_drop, h]
    rfl
  rw [Config.nameAmong.eq_def]
  dsimp only
  rw [if_neg hseparate, if_pos hprefix, String.toList_inj.mp hvalue]

end

/-! ## The scan and the reading -/

/-- The files that options name, in order. -/
def Words.files (w : Words) : List String :=
  (w.given.filter fun g ↦ g.1 == .config).map (·.2)

theorem last?_config (w : Words) : w.last? .config = w.files.getLast? := by
  rw [last?, files, List.getLast?_map]

theorem files_addGiven_of_verbose {given : List (OptionKey × String)} (w : Words)
    (h : ∀ g ∈ given, g.1 = OptionKey.verbose) : (addGiven given w).files = w.files := by
  have hnone : given.filter (fun g ↦ g.1 == OptionKey.config) = [] :=
    List.filter_eq_nil_iff.mpr fun g hg ↦ by rw [h g hg]; decide
  rw [files, addGiven, List.filter_append, hnone, List.nil_append, files]

theorem exists_of_map_eq_ok {ε α β : Type} {x : Except ε α} {f : α → β} {b : β}
    (h : x.map f = .ok b) : ∃ a, x = .ok a ∧ f a = b := by
  cases x with
  | ok a => exact ⟨a, rfl, Except.ok.inj h⟩
  | error e => cases h

/-- **The scan finds the first file that the global options name.** Where they name none it goes on
through the words behind them. -/
theorem nameAmong_of_read {words : List String} {w : Words}
    (h : Words.read globalNames false words = .ok w) :
    Config.nameAmong words = w.files.head?.getD (Config.nameAmong w.operands) := by
  fun_induction Words.read globalNames false words generalizing w with
  | case1 =>
    cases h
    rfl
  | case2 rest =>
    cases h
    exact nameAmong_of_other (by decide) (by decide)
  | case3 => cases h
  | case4 word rest _ _ given hoption ih =>
    obtain ⟨w, hread, rfl⟩ := exists_of_map_eq_ok h
    cases globalOption_of_readOption hoption with
    | flags hgiven hseparate hinline =>
      rw [nameAmong_of_other hseparate hinline, files_addGiven_of_verbose w hgiven]
      exact ih hread
    | inline hword => exact nameAmong_inline hword
  | case5 => cases h
  | case6 word _ _ given key hoption value rest ih =>
    obtain ⟨w, hread, rfl⟩ := exists_of_map_eq_ok h
    cases globalOption_of_readOption hoption with
    | separate => rfl
  | case7 _ _ _ _ hfalse => cases hfalse
  | case8 =>
    cases h
    rfl

theorem read_of_readGlobal {words : List String} {w : Words} (h : readGlobal words = .ok w) :
    Words.read globalNames false words = .ok w := by
  rw [readGlobal] at h
  cases hread : Words.read globalNames false words with
  | error e =>
    rw [hread] at h
    cases h
  | ok w' =>
    rw [hread] at h
    exact congrArg Except.ok (Except.ok.inj h)

/-- **The scan agrees with the command line exactly if** the first `--config` of the global options
names the same file as the last one, and, if there is none, no other file is named by anything
behind the global options that looks like it. -/
theorem fileName_eq_last_iff (argv : List String) {w : Words}
    (h : readGlobal argv.tail = .ok w) :
    Config.fileName argv = w.files.head?.getD (Config.nameAmong w.operands) ∧
      (Config.fileName argv = (w.last? .config).getD Config.defaultName ↔
        w.files.head? = w.files.getLast? ∧
          (w.files = [] → Config.nameAmong w.operands = Config.defaultName)) := by
  have hscan : Config.fileName argv = w.files.head?.getD (Config.nameAmong w.operands) :=
    nameAmong_of_read (read_of_readGlobal h)
  refine ⟨hscan, ?_⟩
  rw [hscan, last?_config]
  cases hfiles : w.files with
  | nil =>
    constructor
    · intro hname
      exact ⟨rfl, fun _ ↦ hname⟩
    · intro hname
      exact hname.2 rfl
  | cons file files =>
    rw [List.head?_cons, List.getLast?_eq_some_getLast (List.cons_ne_nil file files)]
    constructor
    · intro hname
      exact ⟨congrArg some hname, nofun⟩
    · intro hname
      exact Option.some.inj hname.1

/-- One file, in front of the command and behind a flag. -/
theorem fileName_eq_last_iff_of_flag :
    ∃ w, readGlobal ["-v", "--config=a.json", "eval", "x", "1"] = .ok w ∧
      w.last? .config = some "a.json" ∧
      Config.fileName ["explot", "-v", "--config=a.json", "eval", "x", "1"] = "a.json" := by
  have hread : readGlobal ["-v", "--config=a.json", "eval", "x", "1"]
      = .ok ⟨[(.verbose, ""), (.config, "a.json")], ["eval", "x", "1"]⟩ := rfl
  obtain ⟨-, hname⟩ :=
    fileName_eq_last_iff ["explot", "-v", "--config=a.json", "eval", "x", "1"] hread
  exact ⟨_, hread, rfl, hname.mpr ⟨rfl, nofun⟩⟩

/-- Of two files for the same option the scan takes the first and the command line the last. -/
theorem not_forall_fileName_eq_last :
    ¬∀ (argv : List String) (w : Words), readGlobal argv.tail = .ok w →
      Config.fileName argv = (w.last? .config).getD Config.defaultName := by
  intro h
  have hname := h ["explot", "--config", "a.json", "--config", "b.json", "eval", "x", "1"]
    ⟨[(.config, "a.json"), (.config, "b.json")], ["eval", "x", "1"]⟩ rfl
  have hscan : Config.fileName
      ["explot", "--config", "a.json", "--config", "b.json", "eval", "x", "1"] = "a.json" := rfl
  rw [hscan] at hname
  exact absurd hname (by decide)

end Command

end ExprSampler
