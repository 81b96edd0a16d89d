import ExprSampler.Proofs.Json.DistinctKeys
import ExprSampler.Proofs.Json.Numerals
import ExprSampler.Proofs.Json.Strings

/-!
# Writing and reading documents

A value is *lossless* if its doubles are finite, its integers are not too long to be read and its
objects have no key twice. What the writer makes of a lossless value is ASCII, and both readers, the
strict one too, give the value back.

The reader bounds its nesting by twice the length of the text. Every call takes a character or leads
to one that does, so what is written needs no more; the three rules that call each other are handled
together, by induction on that bound.
-/

namespace ExprSampler

/-- Values that are read as they were written. -/
inductive JsonValue.Lossless : JsonValue → Prop
  | null : Lossless .null
  | bool (b : Bool) : Lossless (.bool b)
  | int {n : Int} (h : digitCount n.natAbs ≤ maxIntDigits) : Lossless (.int n)
  | float {v : Float} (h : v.isFinite = true) : Lossless (.float v)
  | str (s : String) : Lossless (.str s)
  | list {items : List JsonValue} (h : ∀ item ∈ items, Lossless item) : Lossless (.list items)
  | object {entries : List (String × JsonValue)} (hkeys : HasDistinctKeys entries)
      (hvalues : ∀ e ∈ entries, Lossless e.2) : Lossless (.object entries)

/-! ## Entries -/

theorem putEntry_of_ne {α : Type} {key : String} {entries : List (String × α)}
    (h : ∀ e ∈ entries, e.1 ≠ key) (value : α) :
    putEntry key value entries = entries ++ [(key, value)] := by
  induction entries with
  | nil => rfl
  | cons e entries ih =>
    obtain ⟨hkey, hentries⟩ := List.forall_mem_cons.mp h
    rw [putEntry, if_neg hkey, ih hentries]
    rfl

theorem HasDistinctKeys.ne_of_append {α : Type} {before after : List (String × α)} {key : String}
    {value : α} (h : HasDistinctKeys (before ++ (key, value) :: after)) :
    ∀ e ∈ before, e.1 ≠ key := by
  intro e he
  rw [HasDistinctKeys, List.map_append, List.nodup_append] at h
  exact h.2.2 e.1 (List.mem_map_of_mem he) key List.mem_cons_self

namespace JsonText

variable {rest : List Char}

/-! ## First characters -/

/-- Characters that values start with: among them are neither blanks nor closing brackets. -/
def opensValue (c : Char) : Bool :=
  c.isDigit || ['"', '[', '{', '-', 'n', 't', 'f'].contains c

theorem opensValue_of_number {c : Char} (h : c.isDigit = true ∨ c = '-') :
    opensValue c = true ∧ c ≠ '"' ∧ c ≠ '[' ∧ c ≠ '{' := by
  rcases h with hdigit | rfl
  · refine ⟨by rw [opensValue, hdigit, Bool.true_or], ?_, ?_, ?_⟩ <;>
    · rintro rfl
      cases hdigit
  · decide

theorem skipSpace_cons {c : Char} (h : opensValue c = true) (cs : List Char) :
    skipSpace (c :: cs) = c :: cs := by
  refine List.dropWhile_cons_of_neg fun hspace ↦ ?_
  simp only [Bool.or_eq_true, beq_iff_eq] at hspace
  rcases hspace with ((rfl | rfl) | rfl) | rfl <;> cases h

theorem skipSpace_space (cs : List Char) : skipSpace (' ' :: cs) = skipSpace cs :=
  List.dropWhile_cons_of_pos rfl

theorem exists_first_chars {j : JsonValue} (h : j.Lossless) :
    ∃ c more, chars j = c :: more ∧ opensValue c = true := by
  cases h with
  | null => exact ⟨'n', _, rfl, rfl⟩
  | bool b => cases b <;> exact ⟨_, _, rfl, rfl⟩
  | int h =>
    obtain ⟨c, more, hcs, hc⟩ := exists_first_intChars _
    exact ⟨c, more, hcs, (opensValue_of_number hc).1⟩
  | float h =>
    obtain ⟨c, more, hcs, hc⟩ := exists_first_floatChars h
    exact ⟨c, more, hcs, (opensValue_of_number hc).1⟩
  | str s => exact ⟨'"', _, rfl, rfl⟩
  | @list items h => cases items <;> exact ⟨'[', _, rfl, rfl⟩
  | @object entries hkeys hvalues =>
    cases entries with
    | nil => exact ⟨'{', _, rfl, rfl⟩
    | cons e entries => exact ⟨'{', _, rfl, rfl⟩

theorem skipSpace_chars {j : JsonValue} (h : j.Lossless) (cs : List Char) :
    skipSpace (chars j ++ cs) = chars j ++ cs := by
  obtain ⟨c, more, hcs, hc⟩ := exists_first_chars h
  rw [hcs]
  exact skipSpace_cons hc _

/-! ## Values -/

theorem readValue_of_number {words : Bool} {n nesting : Nat} {cs : List Char}
    (h : ∃ c more, cs = c :: more ∧ (c.isDigit = true ∨ c = '-')) :
    readValue words (n + 1) nesting (cs ++ rest) = readAtom words (cs ++ rest) := by
  obtain ⟨c, more, rfl, hc⟩ := h
  obtain ⟨-, hquote, hbracket, hbrace⟩ := opensValue_of_number hc
  rw [List.cons_append, readValue]
  · exact fun _ h ↦ hquote (List.cons.inj h).1
  · exact fun _ h ↦ hbracket (List.cons.inj h).1
  · exact fun _ h ↦ hbrace (List.cons.inj h).1

/-- An entry as it is written, and the entries after it. -/
def entryChars (key : String) (value : JsonValue) (entries : List (String × JsonValue)) :
    List Char :=
  stringChars key ++ ':' :: ' ' :: chars value ++ entriesChars entries

/-- What is written is read, at a bound and with nesting left that are not too small: a value before
anything that does not go on as a number would, the items of a list, and the entries of an object
after those read before. -/
structure ReadsBack (words : Bool) (n : Nat) : Prop where
  value : ∀ {nesting : Nat} {j : JsonValue} {rest : List Char}, j.Lossless → EndsNumber rest →
    2 * (chars j).length ≤ n → (chars j).length ≤ nesting →
      readValue words n nesting (chars j ++ rest) = .ok (j, rest)
  items : ∀ {nesting : Nat} {item : JsonValue} {items : List JsonValue} {rest : List Char},
    item.Lossless → (∀ item ∈ items, item.Lossless) →
      2 * (chars item ++ itemsChars items).length < n →
        (chars item ++ itemsChars items).length ≤ nesting →
          readItems words n nesting (chars item ++ itemsChars items ++ ']' :: rest)
            = .ok (item :: items, rest)
  entries : ∀ {nesting : Nat} {before entries : List (String × JsonValue)} {key : String}
    {value : JsonValue} {rest : List Char}, HasDistinctKeys (before ++ (key, value) :: entries) →
      value.Lossless → (∀ e ∈ entries, e.2.Lossless) →
        2 * (entryChars key value entries).length < n →
          (entryChars key value entries).length ≤ nesting →
            readEntries words n nesting before (entryChars key value entries ++ '}' :: rest)
              = .ok (before ++ (key, value) :: entries, rest)

theorem length_chars_pos {j : JsonValue} (h : j.Lossless) : 0 < (chars j).length := by
  obtain ⟨c, more, hcs, -⟩ := exists_first_chars h
  rw [hcs]
  exact Nat.succ_pos _

theorem endsNumber_itemsChars (items : List JsonValue) :
    EndsNumber (itemsChars items ++ ']' :: rest) := by
  cases items with
  | nil => exact endsNumber_cons rfl (by decide) (by decide) (by decide) rest
  | cons item items => exact endsNumber_cons rfl (by decide) (by decide) (by decide) _

theorem endsNumber_entriesChars (entries : List (String × JsonValue)) :
    EndsNumber (entriesChars entries ++ '}' :: rest) := by
  cases entries with
  | nil => exact endsNumber_cons rfl (by decide) (by decide) (by decide) rest
  | cons e entries => exact endsNumber_cons rfl (by decide) (by decide) (by decide) _

/-- Behind an opening bracket and the first character of a value, the items of a list are read. -/
theorem readValue_of_items {words : Bool} {n nesting : Nat} {c : Char} (hc : opensValue c = true)
    {cs : List Char} {items : List JsonValue}
    (h : readItems words n nesting (c :: cs) = .ok (items, rest)) :
    readValue words (n + 1) (nesting + 1) ('[' :: c :: cs) = .ok (.list items, rest) := by
  have hclose : c ≠ ']' := by
    rintro rfl
    cases hc
  rw [readValue, deeper, skipSpace_cons hc]
  dsimp only [bind, Except.bind]
  split
  · next heq => exact absurd (List.cons.inj heq).1 hclose
  · rw [h]

/-- Behind an opening brace and a quote, the entries of an object are read. -/
theorem readValue_of_entries {words : Bool} {n nesting : Nat} {cs : List Char}
    {entries : List (String × JsonValue)}
    (h : readEntries words n nesting [] ('"' :: cs) = .ok (entries, rest)) :
    readValue words (n + 1) (nesting + 1) ('{' :: '"' :: cs) = .ok (.object entries, rest) := by
  rw [readValue, deeper, skipSpace_cons rfl]
  change (readEntries words n nesting [] ('"' :: cs) >>= _) = _
  rw [h]
  rfl

theorem readsBack_value {words : Bool} {n nesting : Nat} (h : ReadsBack words n) {j : JsonValue}
    (hj : j.Lossless) (hrest : EndsNumber rest) (hn : 2 * (chars j).length ≤ n + 1)
    (hnesting : (chars j).length ≤ nesting) :
    readValue words (n + 1) nesting (chars j ++ rest) = .ok (j, rest) := by
  -- Every value has a first character, so some nesting is left.
  obtain ⟨nesting, rfl⟩ := Nat.exists_eq_succ_of_ne_zero
    (Nat.ne_of_gt (Nat.lt_of_lt_of_le (length_chars_pos hj) hnesting))
  cases hj with
  | null => rfl
  | bool b => cases b <;> rfl
  | int hlength =>
    exact (readValue_of_number (exists_first_intChars _)).trans
      (readAtom_intChars words hlength hrest)
  | float hfinite =>
    exact (readValue_of_number (exists_first_floatChars hfinite)).trans
      (readAtom_floatChars words hfinite hrest)
  | str s =>
    have hread := readString_chars s rest
    rw [chars, stringChars, List.append_assoc, List.cons_append, readValue]
    change (readString (s.toList.flatMap escapeChar ++ '"' :: rest) >>= _) = _
    rw [hread]
    rfl
  | @list items hitems =>
    cases items with
    | nil => rfl
    | cons item items =>
      obtain ⟨hitem, hitems⟩ := List.forall_mem_cons.mp hitems
      have htext : chars (.list (item :: items)) ++ rest
          = '[' :: (chars item ++ itemsChars items ++ ']' :: rest) := by
        rw [chars, List.append_assoc]
        rfl
      -- The brackets are two characters of the list that its items do without.
      simp only [chars, List.length_append, List.length_cons, List.length_nil] at hn hnesting
      have hread : readItems words n nesting (chars item ++ itemsChars items ++ ']' :: rest)
          = .ok (item :: items, rest) :=
        h.items hitem hitems (by rw [List.length_append]; omega) (by rw [List.length_append]; omega)
      obtain ⟨c, more, hcs, hc⟩ := exists_first_chars hitem
      rw [hcs] at htext hread
      rw [htext]
      exact readValue_of_items hc hread
  | @object entries hkeys hvalues =>
    cases entries with
    | nil => rfl
    | cons e entries =>
      obtain ⟨key, value⟩ := e
      obtain ⟨hvalue, hvalues⟩ := List.forall_mem_cons.mp hvalues
      have htext : chars (.object ((key, value) :: entries)) ++ rest
          = '{' :: (entryChars key value entries ++ '}' :: rest) := by
        rw [chars, List.append_assoc]
        rfl
      have hlength : (chars (.object ((key, value) :: entries))).length
          = (entryChars key value entries).length + 2 := by
        simp only [chars, entryChars, List.length_append, List.length_cons, List.length_nil]
        omega
      have hread : readEntries words n nesting [] (entryChars key value entries ++ '}' :: rest)
          = .ok ((key, value) :: entries, rest) :=
        h.entries hkeys hvalue hvalues (by omega) (by omega)
      rw [htext]
      exact readValue_of_entries hread

/-- Behind an item, a closing bracket ends the list and a comma goes on with it. -/
theorem readsBack_items {words : Bool} {n nesting : Nat} (h : ReadsBack words n) {item : JsonValue}
    {items : List JsonValue} (hitem : item.Lossless) (hitems : ∀ item ∈ items, item.Lossless)
    (hn : 2 * (chars item ++ itemsChars items).length < n + 1)
    (hnesting : (chars item ++ itemsChars items).length ≤ nesting) :
    readItems words (n + 1) nesting (chars item ++ itemsChars items ++ ']' :: rest)
      = .ok (item :: items, rest) := by
  rw [List.length_append] at hn hnesting
  have hread : readValue words n nesting (chars item ++ (itemsChars items ++ ']' :: rest))
      = .ok (item, itemsChars items ++ ']' :: rest) :=
    h.value hitem (endsNumber_itemsChars items) (by omega) (by omega)
  rw [List.append_assoc, readItems, hread]
  cases items with
  | nil => rfl
  | cons next items =>
    obtain ⟨hnext, hitems⟩ := List.forall_mem_cons.mp hitems
    simp only [itemsChars, List.length_append, List.length_cons] at hn hnesting
    have hmore : readItems words n nesting (chars next ++ itemsChars items ++ ']' :: rest)
        = .ok (next :: items, rest) :=
      h.items hnext hitems (by rw [List.length_append]; omega) (by rw [List.length_append]; omega)
    have hskip : skipSpace (' ' :: (chars next ++ itemsChars items ++ ']' :: rest))
        = chars next ++ itemsChars items ++ ']' :: rest := by
      rw [skipSpace_space, List.append_assoc, skipSpace_chars hnext]
    change (readItems words n nesting
      (skipSpace (' ' :: (chars next ++ itemsChars items ++ ']' :: rest))) >>= _) = _
    rw [hskip, hmore]
    rfl

/-- Behind an entry, a closing brace ends the object and a comma goes on with it. -/
theorem readsBack_entries {words : Bool} {n nesting : Nat} (h : ReadsBack words n)
    {before entries : List (String × JsonValue)} {key : String} {value : JsonValue}
    (hkeys : HasDistinctKeys (before ++ (key, value) :: entries)) (hvalue : value.Lossless)
    (hvalues : ∀ e ∈ entries, e.2.Lossless)
    (hn : 2 * (entryChars key value entries).length < n + 1)
    (hnesting : (entryChars key value entries).length ≤ nesting) :
    readEntries words (n + 1) nesting before (entryChars key value entries ++ '}' :: rest)
      = .ok (before ++ (key, value) :: entries, rest) := by
  have hlength : (entryChars key value entries).length
      = (stringChars key).length + (chars value).length + (entriesChars entries).length + 2 := by
    simp only [entryChars, List.length_append, List.length_cons]
    omega
  have hread : readValue words n nesting (chars value ++ (entriesChars entries ++ '}' :: rest))
      = .ok (value, entriesChars entries ++ '}' :: rest) :=
    h.value hvalue (endsNumber_entriesChars entries) (by omega) (by omega)
  have htext : entryChars key value entries ++ '}' :: rest = '"' :: (key.toList.flatMap escapeChar
      ++ '"' :: ':' :: ' ' :: (chars value ++ (entriesChars entries ++ '}' :: rest))) := by
    simp only [entryChars, stringChars, List.append_assoc, List.cons_append, List.nil_append]
  have hskip : skipSpace (' ' :: (chars value ++ (entriesChars entries ++ '}' :: rest)))
      = chars value ++ (entriesChars entries ++ '}' :: rest) := by
    rw [skipSpace_space, skipSpace_chars hvalue]
  have hput : putEntry key value before = before ++ [(key, value)] :=
    putEntry_of_ne hkeys.ne_of_append value
  rw [htext, readEntries, readString_chars]
  change (readValue words n nesting
    (skipSpace (' ' :: (chars value ++ (entriesChars entries ++ '}' :: rest)))) >>= _) = _
  rw [hskip, hread]
  dsimp only [bind, Except.bind]
  rw [hput]
  cases entries with
  | nil => rfl
  | cons e entries =>
    obtain ⟨next, nextValue⟩ := e
    obtain ⟨hnext, hvalues⟩ := List.forall_mem_cons.mp hvalues
    -- The entry just read joins those before, and the keys are the same in the same order.
    rw [List.append_cons] at hkeys
    have hmoreLength : (entriesChars ((next, nextValue) :: entries)).length
        = (entryChars next nextValue entries).length + 2 := by
      simp only [entryChars, entriesChars, List.length_append, List.length_cons]
      omega
    have hmore : readEntries words n nesting (before ++ [(key, value)])
          (entryChars next nextValue entries ++ '}' :: rest)
        = .ok (before ++ [(key, value)] ++ (next, nextValue) :: entries, rest) :=
      h.entries hkeys hnext hvalues (by omega) (by omega)
    rw [← List.append_cons] at hmore
    exact hmore

theorem readsBack (words : Bool) (n : Nat) : ReadsBack words n := by
  induction n with
  | zero =>
    -- A value has a first character, for which the bound leaves no room.
    refine ⟨fun hj _ hn _ ↦ ?_, fun _ _ hn _ ↦ absurd hn (Nat.not_lt_zero _),
      fun _ _ _ hn _ ↦ absurd hn (Nat.not_lt_zero _)⟩
    have := length_chars_pos hj
    omega
  | succ n ih =>
    exact ⟨readsBack_value ih, readsBack_items ih, readsBack_entries ih⟩

/-- The text of a lossless value is read as the value, by either reader, where there is enough nesting
left. -/
theorem read_chars (words : Bool) {nesting : Nat} {j : JsonValue} (h : j.Lossless)
    (hnesting : (chars j).length ≤ nesting) : read words nesting (chars j) = .ok j := by
  have hskip := skipSpace_chars h []
  have hread := (readsBack words (2 * (chars j).length + 1)).value h endsNumber_nil
    (Nat.le_succ _) hnesting
  rw [List.append_nil] at hskip hread
  rw [read, hskip, hread]
  rfl

/-! ## ASCII -/

theorem isAscii_of_numberText {cs : List Char} (h : NumberText cs) : IsAscii cs := fun c hc ↦ by
  have hrange := toNat_of_isNumberChar (h c hc)
  omega

theorem isAscii_floatChars {v : Float} (h : v.isFinite = true) : IsAscii (floatChars v) := by
  have hlay : NumberText (NumberStyle.exactForm.lay (Binary64.shortest (Binary64.number v))) :=
    numberText_lay (.cons rfl (.zeros 1)) _
  rw [floatChars_eq h, signed]
  split
  · exact (isAscii_of_numberText hlay).cons (by decide)
  · exact isAscii_of_numberText hlay

theorem isAscii_intChars (n : Int) : IsAscii (toString n).toList := by
  have hdigits : NumberText (digitsOf n.natAbs) := .of_isDigits (Grammar.isDigits_digitsOf _).2
  rw [toList_toString_int, signed]
  split
  · exact (isAscii_of_numberText hdigits).cons (by decide)
  · exact isAscii_of_numberText hdigits

theorem isAscii_itemsChars {items : List JsonValue} (h : ∀ item ∈ items, IsAscii (chars item)) :
    IsAscii (itemsChars items) := by
  induction items with
  | nil => exact .nil
  | cons item items ih =>
    obtain ⟨hitem, hitems⟩ := List.forall_mem_cons.mp h
    exact ((hitem.cons (by decide)).cons (by decide)).append (ih hitems)

theorem isAscii_entryChars (key : String) {value : JsonValue}
    {entries : List (String × JsonValue)} (h : IsAscii (chars value))
    (h' : IsAscii (entriesChars entries)) : IsAscii (entryChars key value entries) :=
  ((isAscii_stringChars key).append ((h.cons (by decide)).cons (by decide))).append h'

theorem isAscii_entriesChars {entries : List (String × JsonValue)}
    (h : ∀ e ∈ entries, IsAscii (chars e.2)) : IsAscii (entriesChars entries) := by
  induction entries with
  | nil => exact .nil
  | cons e entries ih =>
    obtain ⟨key, value⟩ := e
    obtain ⟨hvalue, hentries⟩ := List.forall_mem_cons.mp h
    exact ((isAscii_entryChars key hvalue (ih hentries)).cons (by decide)).cons (by decide)

theorem isAscii_chars {j : JsonValue} (h : j.Lossless) : IsAscii (chars j) := by
  induction h with
  | null => exact .of_all rfl
  | bool b => cases b <;> exact .of_all rfl
  | int => exact isAscii_intChars _
  | float h => exact isAscii_floatChars h
  | str s => exact isAscii_stringChars s
  | @list items h ih =>
    cases items with
    | nil => exact .cons (by decide) (.singleton (by decide))
    | cons item items =>
      obtain ⟨hitem, hitems⟩ := List.forall_mem_cons.mp ih
      have hinner := hitem.append (isAscii_itemsChars hitems)
      exact (hinner.cons (by decide)).append (.singleton (by decide))
  | @object entries hkeys hvalues ih =>
    cases entries with
    | nil => exact .cons (by decide) (.singleton (by decide))
    | cons e entries =>
      obtain ⟨key, value⟩ := e
      obtain ⟨hvalue, hentries⟩ := List.forall_mem_cons.mp ih
      have hinner := isAscii_entryChars key hvalue (isAscii_entriesChars hentries)
      exact (hinner.cons (by decide)).append (.singleton (by decide))

end JsonText

namespace JsonValue

variable {j : JsonValue}

theorem isAscii_print (h : j.Lossless) : ∀ c ∈ j.print.toList, c.toNat < 128 := by
  rw [print, String.toList_ofList]
  exact JsonText.isAscii_chars h

/-- **A lossless value is read as it was written**, also by the reader that takes numerals only. -/
theorem decodeStrict_print (h : j.Lossless) : decodeStrict j.print = .ok j := by
  rw [decodeStrict, print, String.toList_ofList, String.length_ofList]
  exact JsonText.read_chars false h (Nat.le_refl _)

theorem decode_print (h : j.Lossless) {nesting : Nat} (hnesting : j.print.length ≤ nesting) :
    decode nesting j.print = .ok j := by
  rw [print, String.length_ofList] at hnesting
  rw [decode, print, String.toList_ofList]
  exact JsonText.read_chars true h hnesting

end JsonValue

end ExprSampler
