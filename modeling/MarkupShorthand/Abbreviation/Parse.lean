import MarkupShorthand.Abbreviation.Builder

/-!
# Reading an abbreviation

All tokens are read before the first one is acted on, so that an unknown character is reported
before anything else that is wrong. `parse` gives the tree; `parseLogged` gives the events as well.
-/

namespace MarkupShorthand

/-- The outcome of reading an abbreviation, and what was reported on the way. -/
structure Reading where
  events : Array Event
  result : Except ParseError Arena

/-- The event of an accepted abbreviation; a refused one has none. -/
def Event.ofResult : Except ParseError Arena → List Event
  | .ok arena => [.parsed arena.count]
  | .error _ => []

namespace Builder

/-- Reads the remaining tokens and the end, and puts their events behind those so far. -/
def run (b : Builder) (events : Array Event) : List Lexeme → Reading
  | [] =>
    let events := events.appendList b.flushEvents
    let result := b.finish
    ⟨events.appendList (Event.ofResult result), result⟩
  | lexeme :: rest =>
    let events := events.appendList (b.announce lexeme)
    match b.step lexeme with
    | .error e => ⟨events, .error e⟩
    | .ok b => b.run events rest

end Builder

/-- Reads an abbreviation and reports what it does. -/
def parseLogged (abbreviation : String) : Reading :=
  let started := #[.parsing abbreviation]
  match tokenize abbreviation with
  | .error e => ⟨started, .error e⟩
  | .ok lexemes => ({} : Builder).run started lexemes

/-- The tree that an abbreviation stands for. -/
def parse (abbreviation : String) : Except ParseError Arena :=
  (parseLogged abbreviation).result

end MarkupShorthand
