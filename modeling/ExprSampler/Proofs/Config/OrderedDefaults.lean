import ExprSampler.Command.Work
import ExprSampler.Proofs.Config.Defaults

/-!
# Defaults in the order in which they are made

`Settings` has a field for every option, so it cannot tell in which order its defaults were made.
Here they are kept as a list of keys and values instead, which grows as the entries of a section are
gone through: `OrderedDefaults.ofEntries` checks what `Settings.ofEntries` checks, and puts what it
gets under a key where that puts it into a field. Of such a list a command takes the entries with
its keys, and the log line is made of the entries after they have been sorted.

The two agree: `Lists d s` says that `d` has under each key what `s` has there, one entry of a
section keeps it (`matches_apply`), and so a whole section does (`matches_ofEntries`). Lists with
the same entries differ in their order alone, and sorting takes that away: whatever the order in
which the defaults were made, the log line is the one that the settings give (`Lists.log_eq`).
-/

namespace ExprSampler

namespace Setting

/-- The setting that commands know under a key. -/
def ofKey? (key : String) : Option Setting :=
  all.find? fun k ↦ k.key == key

theorem ofKey?_key (k : Setting) : ofKey? k.key = some k := by
  cases k <;> rfl

theorem key_of_ofKey? {key : String} {k : Setting} (h : ofKey? key = some k) : k.key = key :=
  eq_of_beq (List.find?_some h :)

theorem key_inj {k k' : Setting} : k.key = k'.key ↔ k = k' := by
  refine ⟨fun h ↦ ?_, fun h ↦ congrArg key h⟩
  rw [← Option.some.injEq, ← ofKey?_key, ← ofKey?_key, h]

theorem key_ne_verbose (k : Setting) : k.key ≠ "verbose" := by
  cases k <;> decide

theorem mem_all (k : Setting) : k ∈ all := by
  cases k <;> decide

end Setting

/-! ## The lists -/

/-- Defaults under their keys, in the order in which they were made. -/
structure OrderedDefaults where
  entries : List (String × JsonValue)
  keys : HasDistinctKeys entries

namespace OrderedDefaults

/-- No defaults. -/
def empty : OrderedDefaults :=
  ⟨[], .nil⟩

/-- The defaults with one more; one that is there already keeps its place. -/
def put (key : String) (value : JsonValue) (d : OrderedDefaults) : OrderedDefaults :=
  ⟨putEntry key value d.entries, d.keys.putEntry key value⟩

/-- The default under a key. -/
def lookup (d : OrderedDefaults) (key : String) : Option JsonValue :=
  valueAt? key d.entries

/-- The defaults that the entries about colour make. -/
def ofColor : Option Bool → OrderedDefaults
  | none => empty
  | some b => empty.put "color_flag" (.bool b)

/-- The defaults with what one more entry of a configuration makes. -/
def apply (d : OrderedDefaults) (entry : String × JsonValue) :
    Except ConfigError OrderedDefaults :=
  let (key, value) := entry
  if key = "--start" then do
    let v ← Settings.required (← Settings.validFloat value)
    return d.put "start" (.float v)
  else if key = "--stop" then do
    let v ← Settings.required (← Settings.validFloat value)
    return d.put "stop" (.float v)
  else if key = "--count" then do
    let n ← Settings.required (Settings.validNumber 1 value)
    return d.put "count" (.int n)
  else if key = "--precision" then do
    let n ← Settings.required (Settings.validNumber 0 value)
    return d.put "precision" (.int n)
  else if key = "--verbose" then do
    let n ← Settings.required (Settings.validInt 0 value)
    return d.put "verbose" (.int n)
  else if key = "--out" then do
    let f ← Settings.required (Settings.validFormat value)
    return d.put "out" (.str f.name)
  else .error .malformed

/-- The defaults that the entries of a configuration make: those about colour first, then one entry
after the other. -/
def ofEntries (entries : List (String × JsonValue)) : Except ConfigError OrderedDefaults := do
  let color ← Settings.required (Settings.colorOf entries)
  (entries.filter fun e ↦ !Settings.isColorKey e.1).foldlM apply (ofColor color)

/-- Whether a key is that of an option of a command. -/
def concerns (command key : String) : Bool :=
  (Setting.ofKey? key).any fun k ↦ k.appliesTo command

/-- The defaults that concern a command. -/
def forCommand (command : String) (d : OrderedDefaults) : OrderedDefaults :=
  ⟨d.entries.filter fun e ↦ concerns command e.1, d.keys.filter _⟩

/-- A default that concerns a command, under the name of its option. -/
def named? (command : String) (e : String × JsonValue) : Option (String × JsonValue) :=
  ((Setting.ofKey? e.1).filter fun k ↦ k.appliesTo command).map fun k ↦ (k.optionName, e.2)

/-- Logs the defaults that concern a command in the order of their keys, if there are any. -/
def log (logger : Logger) (d : OrderedDefaults) (command : String) : List String :=
  match (sortEntries d.entries).filterMap (named? command) with
  | [] => []
  | entries =>
    logger.emit .info ("Config defaults applied (" ++ command ++ "): " ++ shownList entries)

theorem lookup_put (key : String) (value : JsonValue) (d : OrderedDefaults) (other : String) :
    (d.put key value).lookup other = if other = key then some value else d.lookup other := by
  split
  · next h => exact h ▸ valueAt?_putEntry_self key value d.entries
  · next h => exact valueAt?_putEntry_of_ne (Ne.symm h) value d.entries

end OrderedDefaults

/-! ## What lists and settings have in common -/

namespace Settings

/-- The default under a key. -/
def lookup (s : Settings) (key : String) : Option JsonValue :=
  if key = "verbose" then s.verbose.map .int else (Setting.ofKey? key).bind s.get?

theorem lookup_verbose (s : Settings) : s.lookup "verbose" = s.verbose.map .int :=
  rfl

theorem lookup_key (s : Settings) (k : Setting) : s.lookup k.key = s.get? k := by
  rw [lookup, if_neg k.key_ne_verbose, Setting.ofKey?_key]
  rfl

/-- A key is that of the verbosity or of a setting, or nothing stands under it. -/
theorem key_cases {P : String → Prop} (hverbose : P "verbose") (hsetting : ∀ k : Setting, P k.key)
    (hother : ∀ key, (∀ s : Settings, s.lookup key = .none) → P key) (key : String) : P key := by
  by_cases h : key = "verbose"
  · exact h ▸ hverbose
  · cases hk : Setting.ofKey? key with
    | some k => exact Setting.key_of_ofKey? hk ▸ hsetting k
    | none =>
      refine hother key fun s ↦ ?_
      rw [lookup, if_neg h, hk]
      rfl

/-- The keys of defaults, in their order, in which that of the verbosity comes to stand last. -/
def keys : List String :=
  Setting.all.map Setting.key ++ ["verbose"]

/-- All defaults under their keys, in the order of these. -/
def listed (s : Settings) : List (String × JsonValue) :=
  keys.filterMap fun key ↦ (s.lookup key).map (key, ·)

theorem lookup_eq_none {s : Settings} {key : String} (h : key ∉ keys) : s.lookup key = .none := by
  revert h
  refine key_cases (P := fun key ↦ key ∉ keys → s.lookup key = .none) ?verbose ?setting ?other key
  case verbose => exact fun h ↦ absurd (List.mem_append_right _ List.mem_cons_self) h
  case setting =>
    exact fun k h ↦ absurd (List.mem_append_left _ (List.mem_map_of_mem k.mem_all)) h
  case other => exact fun key h _ ↦ h s

theorem map_listed_sublist (s : Settings) : (s.listed.map (·.1)).Sublist keys := by
  have hmap : s.listed.map (·.1) = keys.filter fun key ↦ (s.lookup key).isSome := by
    rw [listed, List.map_filterMap, ← List.filterMap_eq_filter]
    congr 1
    funext key
    cases h : s.lookup key <;> simp [Option.guard, h]
  exact hmap ▸ List.filter_sublist

theorem hasDistinctKeys_listed (s : Settings) : HasDistinctKeys s.listed :=
  List.Nodup.sublist s.map_listed_sublist (by decide)

theorem pairwise_listed (s : Settings) : s.listed.Pairwise fun a b ↦ a.1 ≤ b.1 :=
  List.pairwise_map.mp (List.Pairwise.sublist s.map_listed_sublist (by decide))

theorem valueAt?_listed (s : Settings) (key : String) : valueAt? key s.listed = s.lookup key := by
  ext value
  rw [valueAt?_eq_some_iff s.hasDistinctKeys_listed, listed, List.mem_filterMap]
  constructor
  · rintro ⟨key', -, hvalue⟩
    obtain ⟨value', hlookup, heq⟩ := Option.map_eq_some_iff.mp hvalue
    obtain ⟨rfl, rfl⟩ := Prod.mk.inj heq
    exact hlookup
  · intro hlookup
    have hmem : key ∈ keys := by
      by_contra h
      rw [lookup_eq_none h] at hlookup
      cases hlookup
    exact ⟨key, hmem, by rw [hlookup, Option.map_some]⟩

/-- What is made of the listed defaults one by one is made of the settings, if nothing is made of
the verbosity. -/
theorem filterMap_listed {β : Type} (s : Settings) {f : String × JsonValue → Option β}
    (hverbose : ∀ value, f ("verbose", value) = .none) :
    s.listed.filterMap f = Setting.all.filterMap fun k ↦ (s.get? k).bind fun v ↦ f (k.key, v) := by
  have hlast : ["verbose"].filterMap (fun key ↦ ((s.lookup key).map (key, ·)).bind f) = [] := by
    refine List.filterMap_eq_nil_iff.mpr fun key hkey ↦ ?_
    obtain rfl := List.mem_singleton.mp hkey
    cases s.lookup "verbose" with
    | none => rfl
    | some value => exact hverbose value
  rw [listed, keys, List.filterMap_filterMap, List.filterMap_append, List.filterMap_map, hlast,
    List.append_nil]
  congr 1
  funext k
  rw [Function.comp_apply, lookup_key, Option.bind_map]
  rfl

theorem map_forCommand {β : Type} (s : Settings) (command : String) (f : Setting × JsonValue → β) :
    (s.forCommand command).map f = Setting.all.filterMap fun k ↦
      (s.get? k).bind fun v ↦ if k.appliesTo command then some (f (k, v)) else .none := by
  rw [forCommand, List.map_filterMap, List.filterMap_filter]
  congr 1
  funext k
  cases k.appliesTo command <;> cases s.get? k <;> rfl

end Settings

namespace OrderedDefaults

/-- The list has under each key what the settings have there. -/
def Lists (d : OrderedDefaults) (s : Settings) : Prop :=
  ∀ key, d.lookup key = s.lookup key

namespace Lists

variable {d : OrderedDefaults} {s s' : Settings}

/-- Settings tell what is in a list, but not its order. -/
theorem perm (h : Lists d s) : d.entries.Perm s.listed :=
  perm_of_valueAt? d.keys s.hasDistinctKeys_listed fun key ↦
    (h key).trans (s.valueAt?_listed key).symm

theorem sortEntries_eq (h : Lists d s) : sortEntries d.entries = s.listed := by
  have hperm := (sortEntries_perm d.entries).trans h.perm
  exact eq_of_perm_of_pairwise (s.hasDistinctKeys_listed.perm hperm.symm) hperm
    (pairwise_sortEntries d.entries) s.pairwise_listed

theorem forCommand_perm (h : Lists d s) (command : String) :
    (d.forCommand command).entries.Perm
      ((s.forCommand command).map fun e ↦ (e.1.key, e.2)) := by
  have hlisted : (s.listed.filter fun e ↦ concerns command e.1)
      = (s.forCommand command).map fun e ↦ (e.1.key, e.2) := by
    rw [← List.filterMap_eq_filter, s.filterMap_listed fun _ ↦ rfl, s.map_forCommand]
    simp only [Option.guard, concerns, Setting.ofKey?_key, Option.any_some]
  exact hlisted ▸ h.perm.filter _

/-- **The order of defaults is not logged**: after they have been sorted, the line that is made of
them is the one that the settings make. -/
theorem log_eq (h : Lists d s) (logger : Logger) (command : String) :
    d.log logger command = logDefaults logger s command := by
  have hentries : (sortEntries d.entries).filterMap (named? command)
      = (s.forCommand command).map fun e ↦ (e.1.optionName, e.2) := by
    rw [h.sortEntries_eq, s.filterMap_listed fun _ ↦ rfl, s.map_forCommand]
    congr 1
    funext k
    simp only [named?, Setting.ofKey?_key, Option.filter_some]
    cases k.appliesTo command <;> rfl
  rw [log, hentries, logDefaults]
  cases s.forCommand command <;> rfl

/-! ## Entry by entry -/

theorem put_key (h : Lists d s) {k : Setting} {value : JsonValue}
    (hget : ∀ k', s'.get? k' = if k' = k then some value else s.get? k')
    (hverbose : s'.verbose = s.verbose) : Lists (d.put k.key value) s' := by
  intro other
  rw [lookup_put, h other]
  revert other
  refine Settings.key_cases ?_ (fun k' ↦ ?_) fun other hnone ↦ ?_
  · rw [if_neg k.key_ne_verbose.symm, Settings.lookup_verbose, Settings.lookup_verbose, hverbose]
  · rw [Settings.lookup_key, Settings.lookup_key, hget]
    simp only [Setting.key_inj]
  · have hkey : other ≠ k.key := by
      rintro rfl
      have hlookup := hnone s'
      rw [Settings.lookup_key, hget, if_pos rfl] at hlookup
      cases hlookup
    rw [hnone s, hnone s', if_neg hkey]

theorem put_verbose (h : Lists d s) (n : Int) :
    Lists (d.put "verbose" (.int n)) { s with verbose := some n } := by
  intro key
  rw [lookup_put, h key]
  split
  · next hkey => exact hkey ▸ rfl
  · next hkey =>
    rw [Settings.lookup, Settings.lookup, if_neg hkey, if_neg hkey]
    rfl

end Lists

/-- Settings and a list that come out alike: both are refused in the same way, or the list has what
the settings have. -/
inductive Matches : Except ConfigError Settings → Except ConfigError OrderedDefaults → Prop
  | error (e : ConfigError) : Matches (.error e) (.error e)
  | ok {s : Settings} {d : OrderedDefaults} (h : Lists d s) : Matches (.ok s) (.ok d)

namespace Matches

variable {x : Except ConfigError Settings} {y : Except ConfigError OrderedDefaults}

theorem exists_ok_iff (h : Matches x y) : (∃ d, y = .ok d) ↔ ∃ s, x = .ok s := by
  cases h with
  | error e => exact iff_of_false (fun ⟨_, h⟩ ↦ nomatch h) (fun ⟨_, h⟩ ↦ nomatch h)
  | ok h => exact iff_of_true ⟨_, rfl⟩ ⟨_, rfl⟩

theorem exists_lists {d : OrderedDefaults} (h : Matches x y) (hd : y = .ok d) :
    ∃ s, x = .ok s ∧ Lists d s := by
  cases h with
  | error e => cases hd
  | ok h =>
    cases hd
    exact ⟨_, rfl, h⟩

/-- Both are given what one check lets through. -/
theorem of_check {α : Type} (check : Except ConfigError α) {set : α → Settings}
    {put : α → OrderedDefaults} (h : ∀ a, Lists (put a) (set a)) :
    Matches (do let a ← check; return set a) (do let a ← check; return put a) := by
  cases check with
  | ok a => exact .ok (h a)
  | error e => exact .error e

theorem bind {f : Settings → Except ConfigError Settings}
    {g : OrderedDefaults → Except ConfigError OrderedDefaults} (h : Matches x y)
    (hrest : ∀ s d, Lists d s → Matches (f s) (g d)) : Matches (x >>= f) (y >>= g) := by
  cases h with
  | error e => exact .error e
  | ok h => exact hrest _ _ h

end Matches

variable {d : OrderedDefaults} {s : Settings}

theorem matches_apply (h : Lists d s) (entry : String × JsonValue) :
    Matches (s.apply entry) (d.apply entry) := by
  obtain ⟨key, value⟩ := entry
  -- Both make the same checks under the same keys, so one split serves both.
  simp only [Settings.apply, apply, ← bind_assoc]
  split_ifs
  · exact .of_check _ fun v ↦ h.put_key (k := .start) (fun k ↦ by cases k <;> rfl) rfl
  · exact .of_check _ fun v ↦ h.put_key (k := .stop) (fun k ↦ by cases k <;> rfl) rfl
  · exact .of_check _ fun n ↦ h.put_key (k := .count) (fun k ↦ by cases k <;> rfl) rfl
  · exact .of_check _ fun n ↦ h.put_key (k := .precision) (fun k ↦ by cases k <;> rfl) rfl
  · exact .of_check _ fun n ↦ h.put_verbose n
  · exact .of_check _ fun f ↦ h.put_key (k := .out) (fun k ↦ by cases k <;> rfl) rfl
  · exact .error _

theorem matches_foldlM (h : Lists d s) (entries : List (String × JsonValue)) :
    Matches (entries.foldlM Settings.apply s) (entries.foldlM apply d) := by
  induction entries generalizing s d with
  | nil => exact .ok h
  | cons entry entries ih =>
    rw [List.foldlM_cons, List.foldlM_cons]
    exact (matches_apply h entry).bind fun s' d' h' ↦ ih h'

theorem lists_ofColor (color : Option Bool) :
    Lists (ofColor color) { Settings.none with color := color } := by
  have hempty : Lists empty Settings.none := by
    refine Settings.key_cases rfl (fun k ↦ ?_) fun key hnone ↦ (hnone Settings.none).symm
    cases k <;> rfl
  cases color with
  | none => exact hempty
  | some b => exact hempty.put_key (k := .color) (fun k ↦ by cases k <;> rfl) rfl

/-- **The order of defaults is all that settings forget**: a section is refused for both alike, or
the list that it makes has the defaults that the settings have. -/
theorem matches_ofEntries (entries : List (String × JsonValue)) :
    Matches (Settings.ofEntries entries) (ofEntries entries) := by
  rw [Settings.ofEntries, ofEntries]
  cases Settings.colorOf entries with
  | none => exact .error .malformed
  | some color => exact matches_foldlM (lists_ofColor color) _

end OrderedDefaults

end ExprSampler
