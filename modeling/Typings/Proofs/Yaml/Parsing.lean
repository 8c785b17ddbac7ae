import Mathlib
import Typings.Proofs.Yaml.Scanning
import Typings.Yaml.Node

/-! # What parsing can fail with

Making a tree of the tokens of a document fails as malformed, or as reading its text did.
-/

set_option mvcgen.warning false

namespace Typings.Yaml

open Std.Do

/-- What a fault of parsing tokens may be, given the fault behind them. -/
def Fault.OfParsing (last : Option Fault) : Fault → Prop
  | .malformed => True
  | .crashed c => last = some (.crashed c)

namespace Node

def State.EndsIn (last : Option Fault) (s : State) : Prop := s.fault = last

abbrev Parses {α : Type} (last : Option Fault) (m : Parsing α) : Prop :=
  Keeps (State.EndsIn last) (Fault.OfParsing last) m

variable {last : Option Fault}

@[spec] theorem fail_spec {α : Type} {Q : PostCond α (.arg State (.except Fault .pure))} :
    ⦃fun _ => Q.2.1 .malformed⦄ (fail : Parsing α) ⦃Q⦄ :=
  throw_spec .malformed

theorem State.EndsIn.ofParsing {s : State} {f : Fault} (h : s.EndsIn last) (hf : s.fault = some f) :
    Fault.OfParsing last f := by
  cases f with
  | malformed => trivial
  | crashed c => exact h.symm.trans hf

@[spec] theorem parses_peek : Parses last peek := by
  mvcgen [peek, -Spec.throw_MonadExcept] with exact State.EndsIn.ofParsing ‹_› ‹_›

@[spec] theorem parses_next : Parses last next := by mvcgen [next]

@[spec] theorem parses_expect (t : Token) : Parses last (expect t) := by mvcgen [expect]

@[spec] theorem parses_properties : Parses last properties := by mvcgen [properties]

@[spec] theorem parses_tagAddress (tag : Option (Option String × String)) : Parses last (tagAddress tag) := by
  mvcgen [tagAddress]

@[spec] theorem parses_register (anchor : Option String) : Parses last (register anchor) := by
  mvcgen [register]

@[spec] theorem parses_bare (p : Properties) (address : Option String) : Parses last (bare p address) := by
  mvcgen [bare]

/-- The parsers of nodes call each other with less fuel, so they are looked at together. -/
theorem parses_node_and_collections (fuel : Nat) :
    (∀ context, Parses last (node fuel context)) ∧ (∀ ends context, Parses last (nodeUnless ends fuel context)) ∧
      Parses last (blockItems fuel) ∧ Parses last (looseItems fuel) ∧ Parses last (blockPairs fuel) ∧
      Parses last (blockValue fuel) ∧ (∀ first, Parses last (flowItems fuel first)) ∧
      (∀ first, Parses last (flowPairs fuel first)) ∧ (∀ ends, Parses last (flowValue ends fuel)) := by
  induction fuel with
  | zero =>
    refine ⟨fun _ => ?_, fun _ _ => ?_, ?_, ?_, ?_, ?_, fun _ => ?_, fun _ => ?_, fun _ => ?_⟩
    · mvcgen [node]
    · mvcgen [nodeUnless]
    · mvcgen [blockItems]
    · mvcgen [looseItems]
    · mvcgen [blockPairs]
    · mvcgen [blockValue]
    · mvcgen [flowItems]
    · mvcgen [flowPairs]
    · mvcgen [flowValue]
  | succ fuel ih =>
    obtain ⟨hnode, hunless, hblock, hloose, hpairs, hvalue, hflow, hflowPairs, hflowValue⟩ := ih
    refine ⟨fun _ => ?_, fun _ _ => ?_, ?_, ?_, ?_, ?_, fun _ => ?_, fun _ => ?_, fun _ => ?_⟩
    · mvcgen [node, hloose, hflow, hflowPairs, hblock, hpairs]
    · mvcgen [nodeUnless, hnode]
    · mvcgen [blockItems, hunless, hblock]
    · mvcgen [looseItems, hunless, hloose]
    · mvcgen [blockPairs, hunless, hvalue, hpairs]
    · mvcgen [blockValue, hunless]
    · mvcgen [flowItems, hunless, hflowValue, hnode, hflow]
    · mvcgen [flowPairs, hunless, hflowValue, hnode, hflowPairs]
    · mvcgen [flowValue, hunless]

@[spec] theorem parses_node (fuel : Nat) (context : Context) : Parses last (node fuel context) :=
  (parses_node_and_collections fuel).1 context

@[spec] theorem parses_directives (fuel : Nat) (versioned : Bool) (handles : List (String × String)) :
    Parses last (directives fuel versioned handles) := by
  induction fuel generalizing versioned handles with
  | zero => mvcgen [directives]
  | succ fuel ih => mvcgen [directives, ih]

@[spec] theorem parses_content (fuel : Nat) : Parses last (content fuel) := by mvcgen [content]

@[spec] theorem parses_document : Parses last document := by mvcgen [document]

theorem asksForNoCharacter_of_ofText [LoneSurrogates] {text : List Char} {c : Crash}
    (h : ofText text = .error (.crashed c)) : AsksForNoCharacter text := by
  obtain hrun | ⟨found, -, hfound⟩ := bind_eq_error_iff.mp h
  · exact asksForNoCharacter_of_scan (parses_document.fault rfl hrun)
  · cases hfound

end Node

end Typings.Yaml
