import ExprSampler.Output.Document
import ExprSampler.Proofs.Json.RoundTrip

/-!
# Documents lose nothing

A document of samples is ASCII and is read by a reader that takes numerals for numbers and nothing
else: the doubles that have no numeral are strings in it. What is read is all that went in, the
source and the variable of the expression and, in order, each point with its value.
-/

namespace ExprSampler

namespace Document

/-- What stands for a double in a document: the same double if it is finite, else the string that
names it. -/
inductive Denotes : Float → JsonValue → Prop
  | finite {v : Float} (h : v.isFinite = true) : Denotes v (.float v)
  | nan {v : Float} (h : v.isNaN = true) : Denotes v (.str "nan")
  | infinity : Denotes Binary64.positiveInfinity (.str "inf")
  | minusInfinity : Denotes (-Binary64.positiveInfinity) (.str "-inf")

theorem denotes_number (v : Float) : Denotes v (number v) := by
  cases hfinite : v.isFinite with
  | true =>
    rw [number, if_pos hfinite]
    exact .finite hfinite
  | false =>
    rcases Binary64.eq_of_not_isFinite hfinite with rfl | rfl | rfl
    · exact .nan rfl
    · exact .infinity
    · exact .minusInfinity

/-! ## Documents are lossless -/

theorem lossless_number (v : Float) : (number v).Lossless := by
  rw [number]
  split
  · next h => exact .float h
  · exact .str _

theorem lossless_row (r : Float × Float) : (row r).Lossless :=
  .object (show ["x", "y"].Nodup by decide) (List.forall_mem_cons.mpr ⟨lossless_number r.1,
    List.forall_mem_singleton.mpr (lossless_number r.2)⟩)

theorem lossless_inputName : ∀ input : Option String, (inputName input).Lossless
  | none => .null
  | some name => .str name

theorem lossless_value (e : Expression) (s : Samples) : (value e s).Lossless := by
  have hrows : ∀ item ∈ s.rows.map row, item.Lossless := by
    intro item hitem
    obtain ⟨r, -, rfl⟩ := List.mem_map.mp hitem
    exact lossless_row r
  have hkeys : ["expression", "variable", "samples"].Nodup := by decide
  exact .object hkeys (List.forall_mem_cons.mpr ⟨.str e.source,
    List.forall_mem_cons.mpr ⟨lossless_inputName e.input,
      List.forall_mem_singleton.mpr (.list hrows)⟩⟩)

/-! ## Reading documents -/

/-- **A document is read as what it was made of.** If there are as many values as points, there is a
document; it is ASCII, and reading it strictly gives the source, the variable, and an object for
each sample in which the point and the value stand. If there are not, it is refused to make one. -/
theorem decodeStrict_ofSamples (e : Expression) (s : Samples) :
    (s.xs.length = s.ys.length → ∃ (text : String) (samples : List JsonValue),
      ofSamples e s = .ok text ∧ (∀ c ∈ text.toList, c.toNat < 128) ∧
      JsonValue.decodeStrict text = .ok (.object [("expression", .str e.source),
        ("variable", e.input.elim .null .str), ("samples", .list samples)]) ∧
      samples.length = s.xs.length ∧
      ∀ (i : Nat) (x y : Float), s.xs[i]? = some x → s.ys[i]? = some y →
        ∃ point value : JsonValue, samples[i]? = some (.object [("x", point), ("y", value)]) ∧
          Denotes x point ∧ Denotes y value) ∧
    (s.xs.length ≠ s.ys.length → ofSamples e s = .error .unequalLengths) := by
  refine ⟨fun heven ↦ ?_, fun huneven ↦ ?_⟩
  · have hlossless := lossless_value e s
    have hinput : e.input.elim .null .str = inputName e.input := by
      cases e.input <;> rfl
    refine ⟨(value e s).print, s.rows.map row, ?_, JsonValue.isAscii_print hlossless, ?_, ?_, ?_⟩
    · rw [ofSamples, Samples.isEven, beq_iff_eq.mpr heven, if_pos rfl]
    · rw [JsonValue.decodeStrict_print hlossless, hinput]
      rfl
    · rw [List.length_map, Samples.rows, List.length_zip, ← heven, Nat.min_self]
    · intro i x y hx hy
      refine ⟨number x, number y, ?_, denotes_number x, denotes_number y⟩
      have hrow : s.rows[i]? = some (x, y) := List.getElem?_zip_eq_some.mpr ⟨hx, hy⟩
      rw [List.getElem?_map, hrow]
      rfl
  · have heven : s.isEven = false := beq_eq_false_iff_ne.mpr huneven
    rw [ofSamples, heven]
    rfl

/-- A source with a quote and a character outside of ASCII, a negative zero and an infinity. -/
theorem decodeStrict_ofSamples_of_special :
    ∃ (text : String) (samples : List JsonValue),
      ofSamples ⟨.var, none, "\"𝄞"⟩ ⟨[-0.0], [Binary64.positiveInfinity]⟩ = .ok text ∧
      JsonValue.decodeStrict text = .ok (.object [("expression", .str "\"𝄞"),
        ("variable", .null), ("samples", .list samples)]) ∧
      ∃ point value : JsonValue, samples[0]? = some (.object [("x", point), ("y", value)]) ∧
        Denotes (-0.0) point ∧ Denotes Binary64.positiveInfinity value := by
  obtain ⟨text, samples, htext, -, hread, -, hrows⟩ := (decodeStrict_ofSamples
    ⟨.var, none, "\"𝄞"⟩ ⟨[-0.0], [Binary64.positiveInfinity]⟩).1 rfl
  exact ⟨text, samples, htext, hread, hrows 0 _ _ rfl rfl⟩

end Document

end ExprSampler
