import ExprSampler.Proofs.Decimal.ExactForm

/-!
# The characters of written doubles

Whatever the style and the number of digits, a double is written with digits, the point, the two
signs, the mark of an exponent and the letters of three words. None of these is a separator, a
quote, a bracket or a blank, so written doubles can stand side by side in any format and nothing of
them is ever quoted or escaped.
-/

namespace ExprSampler

open Grammar Derivation Decimal NumberStyle

/-- The characters that doubles are written with. -/
def isNumberChar (c : Char) : Bool :=
  c.isDigit || ['.', '+', '-', 'e', 'n', 'a', 'i', 'f'].contains c

theorem isNumberChar_of_isDigit {c : Char} (h : c.isDigit = true) : isNumberChar c = true := by
  rw [isNumberChar, h, Bool.true_or]

/-- Every character is one that doubles are written with. -/
def NumberText (cs : List Char) : Prop :=
  ∀ c ∈ cs, isNumberChar c = true

namespace NumberText

variable {cs cs' : List Char}

theorem of_all (h : cs.all isNumberChar = true) : NumberText cs :=
  List.all_eq_true.mp h

theorem nil : NumberText [] :=
  List.forall_mem_nil _

theorem append (h : NumberText cs) (h' : NumberText cs') : NumberText (cs ++ cs') :=
  List.forall_mem_append.mpr ⟨h, h'⟩

theorem cons {c : Char} (hc : isNumberChar c = true) (h : NumberText cs) : NumberText (c :: cs) :=
  List.forall_mem_cons.mpr ⟨hc, h⟩

theorem of_isDigits (h : ∀ c ∈ cs, c.isDigit = true) : NumberText cs := fun c hc ↦
  isNumberChar_of_isDigit (h c hc)

theorem zeros (k : Nat) : NumberText (List.replicate k '0') :=
  of_isDigits fun _ ↦ isDigit_of_mem_zeros

end NumberText

theorem numberText_layExponent (e : Int) : NumberText (layExponent e) := by
  obtain ⟨ds, hds, -, hexponent⟩ := exists_layExponent e
  rw [hexponent]
  refine .cons rfl (.cons ?_ (.of_isDigits hds.2))
  split <;> rfl

theorem numberText_layPositional {style : NumberStyle} (hend : NumberText style.wholeEnd)
    {ds : List Char} (h : NumberText ds) (e : Int) : NumberText (style.layPositional ds e) := by
  rw [layPositional]
  split
  · exact (NumberText.cons rfl (.cons rfl (.zeros _))).append h
  dsimp only
  split
  · exact (h.append (.zeros _)).append hend
  · exact NumberText.append (fun c hc ↦ h c (List.mem_of_mem_take hc))
      (.cons rfl fun c hc ↦ h c (List.mem_of_mem_drop hc))

theorem numberText_layScientific {ds : List Char} (h : NumberText ds) (e : Int) :
    NumberText (layScientific ds e) := by
  match ds, h with
  | [], _ => exact .nil
  | [d], h => exact h.append (numberText_layExponent e)
  | d :: d' :: more, h =>
    obtain ⟨hd, hmore⟩ := List.forall_mem_cons.mp h
    exact (NumberText.cons hd (.cons rfl hmore)).append (numberText_layExponent e)

theorem numberText_lay {style : NumberStyle} (hend : NumberText style.wholeEnd) (d : Decimal) :
    NumberText (style.lay d) := by
  rw [lay]
  split
  · exact .cons rfl hend
  · next hzero =>
    have hdigits : NumberText d.significant := .of_isDigits (isDigits_significant hzero).2
    split
    · exact numberText_layPositional hend hdigits _
    · exact numberText_layScientific hdigits _

/-- A double is written in characters of numbers. -/
theorem numberText_write {style : NumberStyle} (hend : NumberText style.wholeEnd)
    (digits : Nat → Decimal) (v : Float) : NumberText (Binary64.write style digits v) := by
  have hlay := numberText_lay hend (digits (Binary64.number v))
  rw [Binary64.write]
  split
  · exact .of_all rfl
  split
  · split
    · exact .of_all rfl
    · exact .of_all rfl
  · rw [Binary64.writeFinite]
    split
    · exact .cons rfl hlay
    · exact hlay

theorem numberText_exactText (v : Float) : NumberText (Binary64.exactText v).toList := by
  rw [Binary64.exactText, String.toList_ofList]
  exact numberText_write (.cons rfl (.zeros 1)) _ v

theorem numberText_roundedText (count : Nat) (v : Float) :
    NumberText (Binary64.roundedText count v).toList := by
  rw [Binary64.roundedText, String.toList_ofList]
  exact numberText_write .nil _ v

end ExprSampler
