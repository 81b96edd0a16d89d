import ExprSampler.Proofs.Grammar.Expectations
import ExprSampler.Proofs.Text.Lines

/-!
# How errors are displayed

An error is displayed as its message, an empty line, the text and a pointer under the place it is
about. The pointer is only as good as the lines above it: it points at a column, so the text has to
be one line, and the place has to be counted in the text that is shown. Neither is a matter of
course for a text that was typed over several lines, or has separators in it that nobody sees.

Both hold because it is the text without blanks that is read, counted and shown, and a line cannot
break but at a blank. The message is on one line for another reason: all it takes from the text
stands between quotes.
-/

namespace ExprSampler

open Text (OneLine)

/-! ## Reports about a place -/

/-- A report about a place of a text, in words that fill one line. -/
structure ParseError.IsAbout (e : ParseError) (source : String) (p : Nat) : Prop where
  text_eq : e.text = source
  position_eq : e.position = p
  position_le : p ≤ source.toList.length
  found_eq : e.found = source.toList[p]?.map String.singleton
  oneLine_expected : OneLine e.expected
  oneLine_rule : OneLine e.rule

namespace ParseError

theorem oneLine_describeFound (found : Option String) : OneLine (describeFound found) := by
  match found with
  | none => exact .of_all rfl
  | some found => exact Text.oneLine_quote found

theorem oneLine_toString (n : Nat) : OneLine (toString (n : Int)) := by
  intro c hc
  have hc : c ∈ (String.ofList (Nat.toDigits 10 n)).toList := hc
  rw [String.toList_ofList] at hc
  have hdigit := Grammar.toNat_of_isDigit (Nat.isDigit_of_mem_toDigits (by decide) (by decide) hc)
  exact Text.not_isLineBreak_of_range (by omega) (by omega)

namespace IsAbout

variable {e : ParseError} {source : String} {p : Nat}

theorem oneLine_message (h : e.IsAbout source p) : OneLine e.message := by
  have hfound := oneLine_describeFound e.found
  have hposition : OneLine (toString e.position) := h.position_eq ▸ oneLine_toString p
  have hwords : OneLine "Expected " ∧ OneLine " but found " ∧ OneLine " in " ∧
      OneLine " at position " := ⟨.of_all rfl, .of_all rfl, .of_all rfl, .of_all rfl⟩
  obtain ⟨hstart, hbut, hin, hat⟩ := hwords
  exact ((((((hstart.append h.oneLine_expected).append hbut).append hfound).append hin).append
    h.oneLine_rule).append hat).append hposition

theorem oneLine_pointer (p : Nat) : OneLine (String.ofList (List.replicate p ' ') ++ "^") := by
  have hpointer : OneLine "^" := .of_all rfl
  refine OneLine.append (fun c hc ↦ ?_) hpointer
  rw [String.toList_ofList] at hc
  rw [List.eq_of_mem_replicate hc]
  rfl

/-- A report about a text on one line is displayed on four. -/
theorem lines_display (h : e.IsAbout source p) (hsource : OneLine source) :
    Text.lines e.display
      = ["Invalid expression: " ++ e.message, "", source,
          String.ofList (List.replicate p ' ') ++ "^"] := by
  have hheading : OneLine ("Invalid expression: " ++ e.message) :=
    .append (.of_all rfl) h.oneLine_message
  have hdisplay : e.display.toList = ("Invalid expression: " ++ e.message).toList ++ '\n' ::
      ([] ++ '\n' :: (source.toList ++ '\n' ::
        (String.ofList (List.replicate p ' ') ++ "^").toList)) := by
    have hbreak : "\n".toList = ['\n'] := rfl
    have hbreaks : "\n\n".toList = ['\n', '\n'] := rfl
    unfold display
    simp only [h.text_eq, h.position_eq, Int.toNat_natCast, String.toList_append, hbreak, hbreaks,
      List.append_assoc, List.cons_append, List.nil_append]
  rw [Text.lines, hdisplay, Text.linesOf_append_newline hheading,
    Text.linesOf_append_newline (List.forall_mem_nil _), Text.linesOf_append_newline hsource,
    Text.linesOf_of_last _ (oneLine_pointer p)]
  · simp only [List.map_cons, List.map_nil, String.ofList_toList, String.ofList_nil]
  · rw [String.toList_append]
    exact List.append_ne_nil_of_right_ne_nil _ (by decide)

theorem found_eq_none_iff (h : e.IsAbout source p) : e.found = none ↔ p = source.length := by
  rw [h.found_eq, Option.map_eq_none_iff, List.getElem?_eq_none_iff, String.length_toList]
  have hle := h.position_le
  rw [String.length_toList] at hle
  omega

end IsAbout

theorem isAbout_ofTooDeep (source : String) : (ofTooDeep source).IsAbout source 0 where
  text_eq := rfl
  position_eq := rfl
  position_le := Nat.zero_le _
  found_eq := foundAt_natCast source 0
  oneLine_expected := (.of_all rfl : OneLine "shallower nesting")
  oneLine_rule := (.of_all rfl : OneLine "expression")

end ParseError

/-! ## Reports about rejected texts -/

namespace Grammar

open ExprSampler.Parser

theorem Promised.oneLine {w : List Char} {expected rule : String} (h : Promised w expected rule) :
    OneLine expected ∧ OneLine rule := by
  cases h with
  | endOfInput => exact ⟨.of_all rfl, .of_all rfl⟩
  | digit => exact ⟨.of_all rfl, .of_all rfl⟩
  | parenthesis => exact ⟨Text.oneLine_quote _, .of_all rfl⟩
  | letter => exact ⟨Text.oneLine_quote _, .of_all rfl⟩

theorem Rejected.isAbout {source : String} {blame : Blame} {name : Option String}
    (h : Rejected none source.toList blame name) :
    (ParseError.ofBlame source blame).IsAbout source blame.position := by
  obtain ⟨p, expected, rule, rfl, hle⟩ := h.exists_token
  obtain ⟨p', expected', rule', hblame, hpromised⟩ := h.promised
  cases hblame
  obtain ⟨hexpected, hrule⟩ := hpromised.oneLine
  rw [ofBlame_token]
  exact ⟨rfl, rfl, hle, rfl, hexpected, hrule⟩

/-- Under any limit, a text that is not read is rejected for what it is or nests too deeply. -/
theorem error_of_parseWithin {limit : Nat} {text : String} {e : ParseError}
    (h : Expression.parseWithin limit text = .error e) :
    (∃ blame name, Rejected none (Text.stripBlanks text).toList blame name ∧
        e = .ofBlame (Text.stripBlanks text) blame)
      ∨ e = .ofTooDeep (Text.stripBlanks text) := by
  generalize hsource : Text.stripBlanks text = source
  rw [Expression.parseWithin, hsource, ExprSampler.parseWithin] at h
  rcases hrun : whole limit none (.seek source.toList 0) with ⟨⟨root, next, missed⟩ | blame | _, name⟩
  · rw [hrun] at h
    cases h
  · rw [hrun] at h
    obtain rfl := Except.error.inj h
    -- The failure is that of any larger limit, one that is large enough for the text included.
    have hlarger := whole_of_failed hrun (Nat.le_refl (Symbol.sum.need source.toList))
    obtain ⟨d, -, -, -, hread⟩ | ⟨blame', name', hrejected, hread⟩ :=
      whole_cases none (Nat.le_refl (Symbol.sum.need source.toList))
    · cases hlarger.symm.trans hread
    · cases hlarger.symm.trans hread
      exact .inl ⟨blame, name, hrejected, rfl⟩
  · rw [hrun] at h
    exact .inr (Except.error.inj h).symm

/-- **An error points at what was found.** Whatever a rejected text holds, and under whatever limit
it was read, its error is displayed on four lines: the message, an empty line, the text without
blanks, and a pointer. In the column of the pointer stands the character that the error names, or
the text has just come to its end. -/
theorem lines_display_of_error {limit : Nat} {text : String} {e : ParseError}
    (h : Expression.parseWithin limit text = .error e) :
    ∃ p : Nat, e.position = p ∧
      Text.lines e.display = ["Invalid expression: " ++ e.message, "", Text.stripBlanks text,
        String.ofList (List.replicate p ' ') ++ "^"] ∧
      e.found = (Text.stripBlanks text).toList[p]?.map String.singleton ∧
      (e.found = none ↔ p = (Text.stripBlanks text).length) := by
  obtain ⟨p, habout⟩ : ∃ p, e.IsAbout (Text.stripBlanks text) p := by
    obtain ⟨blame, name, hrejected, rfl⟩ | rfl := error_of_parseWithin h
    · exact ⟨_, hrejected.isAbout⟩
    · exact ⟨0, ParseError.isAbout_ofTooDeep _⟩
  exact ⟨p, habout.position_eq, habout.lines_display (Text.oneLine_stripBlanks text),
    habout.found_eq, habout.found_eq_none_iff⟩

/-- A sum over several lines, with a line separator in it and a parenthesis too many. -/
theorem lines_display_of_error_of_separators :
    ∃ e : ParseError, Expression.parse "2 +\u2028\n) x\r\n" = .error e ∧ e.found = some ")" ∧
      Text.lines e.display = ["Invalid expression: " ++ e.message, "", "2+)x", "  ^"] := by
  have h : Expression.parse "2 +\u2028\n) x\r\n"
      = .error (.ofBlame "2+)x" ⟨2, [.token CharClass.openParen.description "primary"]⟩) :=
    parse_of_parseTree_error (show parseTree none _ = (_, none) from rfl)
  obtain ⟨p, hp, hlines, hfound, -⟩ := lines_display_of_error h
  rw [ofBlame_token] at h hp hlines hfound
  obtain rfl : 2 = p := Int.ofNat.inj hp
  exact ⟨_, h, hfound, hlines⟩

end Grammar

end ExprSampler
