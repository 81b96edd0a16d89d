import ExprSampler.Json.Decoder

/-!
# What the reader of documents gives up on

The reader refuses a text in one of three ways, and two of them are not the fault of its syntax: an
integer is written with more digits than the reader takes, or lists and objects are nested more
deeply than it can follow. Neither happens without a cause in the text, in whatever place of it:
more than `maxIntDigits` digits in a row, or more openings than the reader is allowed to nest.

Each part of the reader is given a text and leaves the end of it to the next part. `Within` says
both at once, of what is left and of the cause, so that it can be carried from part to part: what is
found in the end of a text is found in the text. An opening in front makes up for the nesting that
is used up behind it. The three rules that call each other are handled together, by induction on the
bound of their calls.
-/

namespace ExprSampler.JsonText

/-- The text holds more digits in a row than an integer may have. -/
def HasLongRun (cs : List Char) : Prop :=
  ∃ run, run <:+: cs ∧ maxIntDigits < run.length ∧ ∀ c ∈ run, c.isDigit = true

theorem HasLongRun.mono {cs text : List Char} (h : HasLongRun cs) (hcs : cs <:+ text) :
    HasLongRun text := by
  obtain ⟨run, hrun, hlong⟩ := h
  exact ⟨run, hrun.trans hcs.isInfix, hlong⟩

/-- Whether a character opens a list or an object. -/
def isOpening (c : Char) : Bool :=
  c == '[' || c == '{'

/-- How many characters of a text open a list or an object. -/
def openings (cs : List Char) : Nat :=
  cs.countP isOpening

theorem openings_le_of_suffix {cs text : List Char} (h : cs <:+ text) :
    openings cs ≤ openings text :=
  h.sublist.countP_le

theorem openings_cons_of_isOpening {c : Char} (h : isOpening c = true) (cs : List Char) :
    openings (c :: cs) = openings cs + 1 :=
  List.countP_cons_of_pos h

/-- What a part of the reader may answer on a text, where so much nesting is left: something and an
end of the text, or a refusal, and one that is not about syntax only with its cause in the text. -/
inductive Within {α : Type} (nesting : Nat) (cs : List Char) :
    Except JsonError (α × List Char) → Prop
  | ok {a : α} {rest : List Char} (h : rest <:+ cs) : Within nesting cs (.ok (a, rest))
  | malformed : Within nesting cs (.error .malformed)
  | tooManyDigits (h : HasLongRun cs) : Within nesting cs (.error .tooManyDigits)
  | tooDeep (h : nesting < openings cs) : Within nesting cs (.error .tooDeep)

namespace Within

variable {α β : Type} {nesting : Nat} {cs text : List Char}

/-- What holds of the answer on an end of a text holds on the text. -/
theorem mono {r : Except JsonError (α × List Char)} (h : Within nesting cs r) (hcs : cs <:+ text) :
    Within nesting text r := by
  cases h with
  | ok h => exact ok (h.trans hcs)
  | malformed => exact malformed
  | tooManyDigits h => exact tooManyDigits (h.mono hcs)
  | tooDeep h => exact tooDeep (Nat.lt_of_lt_of_le h (openings_le_of_suffix hcs))

/-- One part after another: the second reads what the first leaves. -/
theorem bind {x : Except JsonError (α × List Char)}
    {f : α × List Char → Except JsonError (β × List Char)} (hx : Within nesting cs x)
    (hf : ∀ a rest, Within nesting rest (f (a, rest))) : Within nesting cs (x >>= f) := by
  cases hx with
  | ok h => exact (hf _ _).mono h
  | malformed => exact malformed
  | tooManyDigits h => exact tooManyDigits h
  | tooDeep h => exact tooDeep h

/-- What is read behind an opening has less nesting left. -/
theorem deeper {c : Char} (hc : isOpening c = true) {f : Nat → Except JsonError (α × List Char)}
    (hf : ∀ nesting, Within nesting cs (f nesting)) :
    Within nesting (c :: cs) (JsonText.deeper nesting >>= f) := by
  cases nesting with
  | zero => exact tooDeep (openings_cons_of_isOpening hc cs ▸ Nat.succ_pos _)
  | succ nesting =>
    have hinner : Within nesting cs (f nesting) := hf nesting
    change Within (nesting + 1) (c :: cs) (f nesting)
    generalize f nesting = r at hinner ⊢
    cases hinner with
    | ok h => exact ok (h.trans (List.suffix_cons c cs))
    | malformed => exact malformed
    | tooManyDigits h => exact tooManyDigits (h.mono (List.suffix_cons c cs))
    | tooDeep h => exact tooDeep (openings_cons_of_isOpening hc cs ▸ Nat.succ_lt_succ h)

end Within

variable {nesting : Nat}

/-! ## Blanks and words -/

theorem skipSpace_suffix (cs : List Char) : skipSpace cs <:+ cs :=
  List.dropWhile_suffix _

theorem after?_suffix {start : String} {cs rest : List Char} (h : after? start cs = some rest) :
    rest <:+ cs := by
  unfold after? at h
  split at h
  · cases h
    exact List.drop_suffix _ _
  · cases h

/-! ## Strings -/

/-- One more code point in front leaves what is behind the string as it is. -/
theorem suffix_of_cons_code {read : Option (List Nat × List Char)} {code : Nat} {cs : List Char}
    {p : List Nat × List Char} (ih : ∀ q, read = some q → q.2 <:+ cs)
    (h : (do let (codes, rest) ← read; some (code :: codes, rest)) = some p) : p.2 <:+ cs := by
  obtain ⟨q, hread, hp⟩ := Option.bind_eq_some_iff.mp h
  cases hp
  exact ih q hread

theorem stringCodes_suffix (cs : List Char) (p : List Nat × List Char)
    (h : stringCodes cs = some p) : p.2 <:+ cs := by
  fun_induction stringCodes cs generalizing p with
  | case1 => cases h
  | case2 cs =>
    cases h
    exact List.suffix_cons _ _
  | case3 a b c d cs ih =>
    obtain ⟨unit, -, h⟩ := Option.bind_eq_some_iff.mp h
    exact (suffix_of_cons_code ih h).trans
      (List.drop_suffix 6 ('\\' :: 'u' :: a :: b :: c :: d :: cs))
  | case4 c cs _ ih =>
    obtain ⟨ch, -, h⟩ := Option.bind_eq_some_iff.mp h
    exact (suffix_of_cons_code ih h).trans (List.drop_suffix 2 ('\\' :: c :: cs))
  | case5 => cases h
  | case6 c cs _ _ _ _ ih => exact (suffix_of_cons_code ih h).trans (List.suffix_cons c cs)

theorem within_readString (cs : List Char) : Within nesting cs (readString cs) := by
  unfold readString
  split
  · exact .malformed
  · next h => exact .ok (stringCodes_suffix cs _ h)

/-! ## Numbers -/

theorem wholePart_suffix (cs : List Char) : (wholePart cs).2 <:+ cs := by
  unfold wholePart
  split
  · exact List.suffix_cons _ _
  · exact List.dropWhile_suffix _

theorem fractionPart_suffix (cs : List Char) : (fractionPart cs).2 <:+ cs := by
  unfold fractionPart
  split
  · split
    · exact List.suffix_rfl
    · exact (List.dropWhile_suffix _).trans (List.suffix_cons _ _)
  · exact List.suffix_rfl

theorem splitSign_suffix (cs : List Char) : (splitSign cs).2 <:+ cs := by
  unfold splitSign
  split
  · exact List.suffix_cons _ _
  · exact List.suffix_cons _ _
  · exact List.suffix_rfl

theorem exponentPart_suffix (cs : List Char) : (exponentPart cs).2 <:+ cs := by
  unfold exponentPart
  split
  · next c cs =>
    dsimp only
    split
    · exact ((List.dropWhile_suffix _).trans (splitSign_suffix cs)).trans (List.suffix_cons _ _)
    · exact List.suffix_rfl
  · exact List.suffix_rfl

theorem wholePart_spec (cs : List Char) :
    (wholePart cs).1 <+: cs ∧ ∀ c ∈ (wholePart cs).1, c.isDigit = true := by
  unfold wholePart
  split
  · exact ⟨⟨_, rfl⟩, by simp⟩
  · exact ⟨List.takeWhile_prefix _, fun c hc ↦ List.all_eq_true.mp (List.all_takeWhile) c hc⟩

theorem within_readNumber (negative : Bool) (cs : List Char) :
    Within nesting cs (readNumber negative cs) := by
  have hrest : (exponentPart (fractionPart (wholePart cs).2).2).2 <:+ cs :=
    ((exponentPart_suffix _).trans (fractionPart_suffix _)).trans (wholePart_suffix _)
  unfold readNumber
  dsimp only
  split
  · exact .malformed
  split
  · split
    · next hlong =>
      obtain ⟨hstart, hdigits⟩ := wholePart_spec cs
      exact .tooManyDigits ⟨_, hstart.isInfix, hlong, hdigits⟩
    · exact .ok hrest
  · exact .ok hrest

/-! ## Values -/

theorem suffix_of_word {words : Bool} {word : String} {cs rest : List Char}
    (h : (if words then after? word cs else none) = some rest) : rest <:+ cs := by
  cases words with
  | false => cases h
  | true => exact after?_suffix h

theorem within_readAtom (words : Bool) (cs : List Char) :
    Within nesting cs (readAtom words cs) := by
  unfold readAtom
  split
  · next h => exact .ok (after?_suffix h)
  split
  · next h => exact .ok (after?_suffix h)
  split
  · next h => exact .ok (after?_suffix h)
  split
  · next h => exact .ok (suffix_of_word h)
  split
  · next h => exact .ok (suffix_of_word h)
  split
  · next h => exact .ok (suffix_of_word h)
  split
  · exact (within_readNumber true _).mono (List.suffix_cons _ _)
  · exact within_readNumber false cs

/-- What holds of the answer behind a character and blanks holds from that character on. -/
theorem Within.skip {α : Type} {c : Char} {cs : List Char}
    {r : Except JsonError (α × List Char)} (h : Within nesting (skipSpace cs) r) :
    Within nesting (c :: cs) r :=
  h.mono ((skipSpace_suffix cs).trans (List.suffix_cons c cs))

/-- What the reader answers, at every bound of its calls: on a value, on the items of a list and on
the entries of an object. -/
structure WithinRules (words : Bool) (n : Nat) : Prop where
  value : ∀ (nesting : Nat) (cs : List Char), Within nesting cs (readValue words n nesting cs)
  items : ∀ (nesting : Nat) (cs : List Char), Within nesting cs (readItems words n nesting cs)
  entries : ∀ (nesting : Nat) (entries : List (String × JsonValue)) (cs : List Char),
    Within nesting cs (readEntries words n nesting entries cs)

variable {words : Bool} {n : Nat}

theorem within_readValue (ih : WithinRules words n) (nesting : Nat) (cs : List Char) :
    Within nesting cs (readValue words (n + 1) nesting cs) := by
  unfold readValue
  split
  · next cs =>
    refine Within.mono (.bind (within_readString cs) fun s rest ↦ ?_) (List.suffix_cons _ _)
    exact .ok List.suffix_rfl
  · next cs =>
    refine .deeper rfl fun nesting ↦ Within.mono ?_ (skipSpace_suffix cs)
    dsimp only
    generalize skipSpace cs = more
    split
    · exact .ok (List.suffix_cons _ _)
    · exact (ih.items nesting more).bind fun items rest ↦ .ok List.suffix_rfl
  · next cs =>
    refine .deeper rfl fun nesting ↦ Within.mono ?_ (skipSpace_suffix cs)
    dsimp only
    generalize skipSpace cs = more
    split
    · exact .ok (List.suffix_cons _ _)
    · exact (ih.entries nesting [] more).bind fun entries rest ↦ .ok List.suffix_rfl
  · exact within_readAtom words cs

theorem within_readItems (ih : WithinRules words n) (nesting : Nat) (cs : List Char) :
    Within nesting cs (readItems words (n + 1) nesting cs) := by
  unfold readItems
  refine (ih.value nesting cs).bind fun item rest ↦ ?_
  refine Within.mono ?_ (skipSpace_suffix rest)
  dsimp only
  generalize skipSpace rest = more
  split
  · exact .ok (List.suffix_cons _ _)
  · exact .skip ((ih.items nesting _).bind fun items rest ↦ .ok List.suffix_rfl)
  · exact .malformed

theorem within_readEntries (ih : WithinRules words n) (nesting : Nat)
    (entries : List (String × JsonValue)) (cs : List Char) :
    Within nesting cs (readEntries words (n + 1) nesting entries cs) := by
  unfold readEntries
  split
  · next cs =>
    refine Within.mono (.bind (within_readString cs) fun key rest ↦ ?_) (List.suffix_cons _ _)
    refine Within.mono ?_ (skipSpace_suffix rest)
    dsimp only
    generalize skipSpace rest = more
    split
    · refine .skip ((ih.value nesting _).bind fun value rest ↦ ?_)
      refine Within.mono ?_ (skipSpace_suffix rest)
      dsimp only
      generalize skipSpace rest = more
      split
      · exact .ok (List.suffix_cons _ _)
      · exact .skip (ih.entries nesting _ _)
      · exact .malformed
    · exact .malformed
  · exact .malformed

theorem withinRules (words : Bool) (n : Nat) : WithinRules words n := by
  induction n with
  | zero =>
    -- At the bound every rule gives up.
    refine ⟨fun nesting cs ↦ ?_, fun nesting cs ↦ ?_, fun nesting entries cs ↦ ?_⟩
    · rw [readValue]
      exact .malformed
    · rw [readItems]
      exact .malformed
    · rw [readEntries]
      exact .malformed
  | succ n ih => exact ⟨within_readValue ih, within_readItems ih, within_readEntries ih⟩

/-- **A refusal that is not about syntax has its cause in the text**: too many digits in a row, or
more openings than the reader can nest. -/
theorem cause_of_read {cs : List Char} {e : JsonError}
    (h : read words nesting cs = .error e) :
    e = .malformed ∨ e = .tooManyDigits ∧ HasLongRun cs ∨
      e = .tooDeep ∧ nesting < openings cs := by
  have hread := ((withinRules words (2 * cs.length + 1)).value nesting (skipSpace cs)).mono
    (skipSpace_suffix cs)
  unfold read at h
  generalize readValue words (2 * cs.length + 1) nesting (skipSpace cs) = answer at hread h
  cases hread with
  | ok =>
    -- All that is left to go wrong is that something follows the value.
    simp only [Except.bind, bind] at h
    split at h
    · cases h
    · cases h
      exact .inl rfl
  | malformed =>
    cases h
    exact .inl rfl
  | tooManyDigits hrun =>
    cases h
    exact .inr (.inl ⟨rfl, hrun⟩)
  | tooDeep hdeep =>
    cases h
    exact .inr (.inr ⟨rfl, hdeep⟩)

theorem not_tooDeep_of_decodeStrict (text : String) :
    JsonValue.decodeStrict text ≠ .error .tooDeep := by
  intro h
  obtain h | ⟨h, -⟩ | ⟨-, hdeep⟩ := cause_of_read h
  · cases h
  · cases h
  · exact absurd hdeep (Nat.not_lt.mpr List.countP_le_length)

end ExprSampler.JsonText
