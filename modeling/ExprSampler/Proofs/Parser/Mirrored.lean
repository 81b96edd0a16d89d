import ExprSampler.Proofs.Grammar.Naming
import ExprSampler.Proofs.Parser.Steady
import Mathlib.Algebra.Group.End

/-!
# Parsers before renamed letters

Which letter the variable goes by should be of no account. To say so, one parser is run twice: on a
text where one name may be bound, and on the text with its letters permuted where the permuted name
is bound. The two runs are *mirrored* if they go the same way: they give the same value, or they
fail at the same place for want of the same thing, and names that differ go on differing only by
the permutation.

What is compared is two runs of one parser, so this passes from the steps of a parser to the whole
without a word about the values in between. A step that hands on a letter would break the chain.
There is one, the rule for the variable, and it is dealt with as a whole.
-/

namespace ExprSampler

/-! ## Renaming letters -/

/-- A permutation of the letters. -/
abbrev Renaming : Type :=
  Equiv.Perm {c : Char // c.isAlpha = true}

namespace Renaming

variable (r : Renaming)

/-- Letters are permuted, other characters stay. -/
def char : Char → Char :=
  Equiv.Perm.ofSubtype r

/-- A text with its letters permuted. -/
def text (s : String) : String :=
  String.ofList (s.toList.map r.char)

theorem char_inj {c c' : Char} : r.char c = r.char c' ↔ c = c' :=
  (Equiv.Perm.ofSubtype r).apply_eq_iff_eq

theorem char_of_not_isAlpha {c : Char} (h : c.isAlpha = false) : r.char c = c :=
  Equiv.Perm.ofSubtype_apply_of_not_mem r (by rw [h]; exact Bool.false_ne_true)

theorem isAlpha_char (c : Char) : (r.char c).isAlpha = c.isAlpha := by
  by_cases h : c.isAlpha = true
  · have hchar : r.char c = r ⟨c, h⟩ := Equiv.Perm.ofSubtype_apply_of_mem r h
    rw [hchar, (r ⟨c, h⟩).2, h]
  · rw [r.char_of_not_isAlpha (Bool.eq_false_iff.mpr h)]

theorem toList_text (s : String) : (r.text s).toList = s.toList.map r.char :=
  String.toList_ofList

theorem text_singleton (c : Char) : r.text (String.singleton c) = String.singleton (r.char c) := by
  rw [← String.toList_inj, toList_text, String.toList_singleton, String.toList_singleton,
    List.map_singleton]

theorem map_char_of_noLetters {cs : List Char} (h : Grammar.NoLetters cs) : cs.map r.char = cs :=
  (List.map_congr_left fun c hc ↦ r.char_of_not_isAlpha (h c hc)).trans (List.map_id cs)

theorem char_eq_iff {c sign : Char} (h : sign.isAlpha = false) : r.char c = sign ↔ c = sign := by
  conv_lhs => rw [← r.char_of_not_isAlpha h, r.char_inj]

end Renaming

/-! ## Mirrored runs -/

namespace Parser

variable {α β : Type} {r : Renaming}

/-- No name on either side, or one letter and what it is renamed to. -/
inductive SameName (r : Renaming) : Option String → Option String → Prop
  | none : SameName r none none
  | letter {c : Char} (h : c.isAlpha = true) :
      SameName r (some (String.singleton c)) (some (String.singleton (r.char c)))

/-- The same is required on both sides, up to the name of the variable. -/
inductive SameRequirement (r : Renaming) : Requirement → Requirement → Prop
  | fixed (expected : String) {rule : String} (h : rule ≠ "variable") :
      SameRequirement r (.token expected rule) (.token expected rule)
  | letter {c : Char} (h : c.isAlpha = true) :
      SameRequirement r (.token (CharClass.literal (String.singleton c)).description "variable")
        (.token (CharClass.literal (String.singleton (r.char c))).description "variable")

/-- Two answers are the same up to the renaming of letters. -/
inductive Mirrored (r : Renaming) :
    Reply α × Option String → Reply α × Option String → Prop
  | done (a : α) (i : Nat) (rest : List Char) {bound bound' : Option String}
      (h : SameName r bound bound') :
      Mirrored r (.done a ⟨i, rest⟩ none, bound) (.done a ⟨i, rest.map r.char⟩ none, bound')
  | failed (i : Nat) {q q' : Requirement} (hq : SameRequirement r q q')
      {bound bound' : Option String} (h : SameName r bound bound') :
      Mirrored r (.failed ⟨i, [q]⟩, bound) (.failed ⟨i, [q']⟩, bound')
  | tooDeep {bound bound' : Option String} (h : SameName r bound bound') :
      Mirrored r (.tooDeep, bound) (.tooDeep, bound')

/-- Before renamed letters the second parser goes the way that the first goes before the letters as
they are. -/
def Mirrors (r : Renaming) (p p' : Parser α) : Prop :=
  ∀ ⦃bound bound' : Option String⦄, SameName r bound bound' → ∀ (i : Nat) (cs : List Char),
    Mirrored r (p bound ⟨i, cs⟩) (p' bound' ⟨i, cs.map r.char⟩)

/-- Renaming keeps every character in the class or out of it. -/
def KeepsClass (r : Renaming) (k : CharClass) : Prop :=
  ∀ c : Char, k.contains (r.char c) = k.contains c

theorem keepsClass_letter : KeepsClass r .letter := fun c ↦ by
  rw [CharClass.contains_letter, CharClass.contains_letter, r.isAlpha_char]

/-- A class without letters. -/
def LetterFree (k : CharClass) : Prop :=
  ∀ c : Char, k.contains c = true → c.isAlpha = false

theorem LetterFree.keepsClass {k : CharClass} (h : LetterFree k) : KeepsClass r k := fun c ↦ by
  by_cases halpha : c.isAlpha = true
  · have hno : ∀ c' : Char, c'.isAlpha = true → k.contains c' = false := fun c' hc' ↦
      Bool.eq_false_iff.mpr fun hk ↦ by
        rw [h c' hk] at hc'
        cases hc'
    rw [hno c halpha, hno _ ((r.isAlpha_char c).trans halpha)]
  · rw [r.char_of_not_isAlpha (Bool.eq_false_iff.mpr halpha)]

theorem KeepsClass.matchesNext {k : CharClass} (h : KeepsClass r k) (cs : List Char) :
    k.matchesNext (cs.map r.char).head? = k.matchesNext cs.head? := by
  cases cs with
  | nil => rfl
  | cons c cs => exact h c

namespace Mirrors

theorem pure (a : α) : Mirrors r (pure a) (pure a) := fun _ _ hname i cs ↦
  .done a i cs hname

theorem tooDeep : Mirrors r (tooDeep : Parser α) tooDeep := fun _ _ hname _ _ ↦
  .tooDeep hname

/-- Two steps are mirrored if each of them is. -/
theorem bind {p p' : Parser α} {f f' : α → Parser β} (hp : Mirrors r p p')
    (hf : ∀ a, Mirrors r (f a) (f' a)) : Mirrors r (p >>= f) (p' >>= f') := by
  intro bound bound' hname i cs
  cases hrun : p bound ⟨i, cs⟩ with
  | mk reply bound₁ =>
    cases hrun' : p' bound' ⟨i, cs.map r.char⟩ with
    | mk reply' bound₁' =>
      have hmirrored := hp hname i cs
      rw [hrun, hrun'] at hmirrored
      cases hmirrored with
      | done a j rest hname₁ =>
        rw [bind_of_done hrun, bind_of_done hrun']
        exact hf a hname₁ j rest
      | failed j hq hname₁ =>
        rw [bind_of_failed hrun, bind_of_failed hrun']
        exact .failed j hq hname₁
      | tooDeep hname₁ =>
        rw [bind_of_tooDeep hrun, bind_of_tooDeep hrun']
        exact .tooDeep hname₁

theorem ite {b : Bool} {p p' q q' : Parser α} (hp : Mirrors r p p') (hq : Mirrors r q q') :
    Mirrors r (if b then p else q) (if b then p' else q') := by
  cases b
  · exact hq
  · exact hp

theorem nextIs {classes : List CharClass} (h : ∀ k ∈ classes, KeepsClass r k) :
    Mirrors r (nextIs classes) (nextIs classes) := by
  intro bound bound' hname i cs
  have hsame : (classes.any fun k ↦ k.matchesNext (cs.map r.char).head?)
      = classes.any fun k ↦ k.matchesNext cs.head? := by
    rw [Bool.eq_iff_iff, List.any_eq_true, List.any_eq_true]
    exact exists_congr fun k ↦ and_congr_right fun hk ↦ by rw [(h k hk).matchesNext cs]
  rw [nextIs_run, nextIs_run, hsame]
  exact .done _ i cs hname

section

variable {k : CharClass} (h : LetterFree k)

include h

theorem skip? : Mirrors r (skip? k) (skip? k) := by
  intro bound bound' hname i cs
  obtain ⟨c, rest, rfl, hk⟩ | hk := matches_cases k cs
  · have hk' : k.contains (r.char c) = true := (h.keepsClass c).trans hk
    rw [skip?_of_matches hk, List.map_cons, skip?_of_matches hk']
    exact .done true (i + 1) rest hname
  · have hk' := (h.keepsClass.matchesNext (r := r) cs).trans hk
    rw [skip?_of_not_matches hk, skip?_of_not_matches hk']
    exact .done false i cs hname

theorem takeAll : Mirrors r (takeAll k) (takeAll k) := by
  intro bound bound' hname i cs
  obtain ⟨w, rest, rfl, hw, hrest⟩ := exists_run k cs
  have hfixed : w.map r.char = w := r.map_char_of_noLetters fun c hc ↦ h c (hw c hc)
  have hrest' := (h.keepsClass.matchesNext (r := r) rest).trans hrest
  rw [takeAll_append hw hrest, List.map_append, hfixed, takeAll_append hw hrest']
  exact .done w _ rest hname

theorem require {rule : String} (hrule : rule ≠ "variable") :
    Mirrors r (require k rule) (require k rule) := by
  intro bound bound' hname i cs
  obtain ⟨c, rest, rfl, hk⟩ | hk := matches_cases k cs
  · have hfixed : r.char c = c := r.char_of_not_isAlpha (h c hk)
    rw [require_of_matches hk, List.map_cons, hfixed, require_of_matches hk]
    exact .done c (i + 1) rest hname
  · have hk' := (h.keepsClass.matchesNext (r := r) cs).trans hk
    rw [require_of_not_matches hk, require_of_not_matches hk']
    exact .failed i (.fixed _ hrule) hname

theorem requireSkip {rule : String} (hrule : rule ≠ "variable") :
    Mirrors r (requireSkip k rule) (requireSkip k rule) :=
  (require h hrule).bind fun _ ↦ pure ()

end

theorem requireEnd {rule : String} (hrule : rule ≠ "variable") :
    Mirrors r (requireEnd rule) (requireEnd rule) := by
  intro bound bound' hname i cs
  cases cs with
  | nil => exact .done () i [] hname
  | cons c cs => exact .failed i (.fixed endOfInput hrule) hname

/-- The renamed text has as many characters, so it allows as many rounds. -/
theorem rounds {step step' : Parser (Option α)} (h : Mirrors r step step')
    (budget : List Char) : Mirrors r (rounds step budget) (rounds step' (budget.map r.char)) := by
  induction budget with
  | nil => exact pure []
  | cons _ budget ih =>
    refine h.bind fun a ↦ ?_
    cases a with
    | none => exact pure []
    | some a => exact ih.bind fun more ↦ pure (a :: more)

theorem many {step step' : Parser (Option α)} (h : Mirrors r step step') :
    Mirrors r (many step) (many step') := fun _ _ hname i cs ↦
  h.rounds cs hname i cs

end Mirrors

end Parser

end ExprSampler
