import TreeQuery.Error

/-!
# Pattern engines

Patterns are compiled and looked for by an engine. Nothing is asked of an engine but that the same
pattern always gives the same answer.
-/

set_option autoImplicit false

namespace TreeQuery

structure PatternOptions where
  multiLine : Bool := false
  dotMatchesNewLine : Bool := false
  deriving DecidableEq

class PatternEngine where
  Regex : Type
  /-- Compile a pattern. An engine that refuses one may say why. -/
  build : PatternOptions → String → Except (Option String) Regex
  isMatch : Regex → String → Bool

/-- A pattern that the engine accepts. Lines are anchored, and the dot stands for every character. -/
structure Pattern [PatternEngine] where
  source : String
  regex : PatternEngine.Regex
  built : PatternEngine.build ⟨true, true⟩ source = .ok regex

namespace Pattern

variable [PatternEngine]

def ofText (source : String) : Except SelectorError Pattern :=
  match h : PatternEngine.build ⟨true, true⟩ source with
  | .ok regex => .ok { source, regex, built := h }
  | .error reason? => .error (.invalidPattern source reason?)

theorem ofText_of_ok {source : String} {regex : PatternEngine.Regex}
    (h : PatternEngine.build ⟨true, true⟩ source = .ok regex) :
    ofText source = .ok { source, regex, built := h } := by
  unfold ofText
  split
  · next r hr =>
    obtain rfl := Except.ok.inj (hr.symm.trans h)
    rfl
  · next reason? hr => cases hr.symm.trans h

theorem ofText_of_error {source : String} {reason? : Option String}
    (h : PatternEngine.build ⟨true, true⟩ source = .error reason?) :
    ofText source = .error (.invalidPattern source reason?) := by
  unfold ofText
  split
  · next r hr => cases hr.symm.trans h
  · next reason? hr =>
    obtain rfl := Except.error.inj (hr.symm.trans h)
    rfl

def occurs (p : Pattern) (text : String) : Bool :=
  PatternEngine.isMatch p.regex text

/-- A pattern is determined by the text that writes it. -/
theorem eq_of_source_eq {p q : Pattern} (h : p.source = q.source) : p = q := by
  obtain ⟨s, r, hr⟩ := p
  obtain ⟨t, u, hu⟩ := q
  obtain rfl : s = t := h
  obtain rfl : r = u := Except.ok.inj (hr.symm.trans hu)
  rfl

end Pattern

end TreeQuery
