import Attestation.Log.Event
import Attestation.Text.Blank
import Attestation.Text.Search
import Attestation.Text.Split
import Attestation.Text.Unicode.Word

/-!
# Filtering log events

A filter is a set of directives. A directive sets the finest level that is shown for the
targets it names, and the most specific directive for an event decides.

## Main definitions

* `Log.Directive`: a directive.
* `Log.Directive.parse`: reading one.
* `Log.Filter`: directives, the most specific first.
* `Log.Filter.shows`: whether an event is shown.

## Design notes

The directives are kept in the order in which they are asked, so that an event is decided by
the first that is for its target.
-/

namespace Attestation.Log

/-- How much is shown: all events from a level upwards, or none. -/
abbrev Threshold := Option Level

/-- A directive for events. -/
structure Directive where
  /-- What the targets of its events start with; all targets when there is none. -/
  target : Option String
  /-- The values that its events name. -/
  fields : List String
  /-- The finest level that is shown. -/
  threshold : Threshold
  deriving DecidableEq, Repr, Inhabited

/-- A level by its number. -/
def Threshold.ofNumber? : Nat → Option Threshold
  | 0 => some none
  | 1 => some (some .error)
  | 2 => some (some .warn)
  | 3 => some (some .info)
  | 4 => some (some .debug)
  | 5 => some (some .trace)
  | _ => none

/-- A level by its name or number. Letters may be small or capital, and an empty name means
errors. -/
def Threshold.ofText? (cs : List Char) : Option Threshold :=
  match String.ofList (cs.map Char.toLower) with
  | "" => some (some .error)
  | "off" => some none
  | "error" => some (some .error)
  | "warn" => some (some .warn)
  | "info" => some (some .info)
  | "debug" => some (some .debug)
  | "trace" => some (some .trace)
  | _ =>
      let digits := if cs.head? = some '+' then cs.tail else cs
      if !digits.isEmpty && digits.all Char.isDigit then
        Threshold.ofNumber? (digits.foldl (fun n d => 10 * n + (d.toNat - '0'.toNat)) 0)
      else none

namespace Directive

/-- What a directive was read as. A directive for a part of a program's run shows no events by
itself. -/
inductive Reading where
  | events (directive : Directive)
  | run
  deriving Repr

/-- A directive for a level or a target alone. -/
def ofWord (cs : List Char) : Directive :=
  match Threshold.ofText? cs with
  | some threshold => ⟨none, [], threshold⟩
  | none => ⟨some (String.ofList cs), [], some .trace⟩

/-- The level behind what a directive names: none at all, or behind an equals sign. -/
def readThreshold : List Char → Option Threshold
  | ['='] => some (some .trace)
  | '=' :: cs => Threshold.ofText? cs
  | cs => if cs.all Text.isBlank then some (some .trace) else none

/-- The field in braces behind the name of a part of the run, and what follows the bracket. -/
def readField (cs : List Char) : Option (List Char × List Char) :=
  match cs.dropWhile (· ≠ '\x7d') with
  | '\x7d' :: ']' :: rest => some (cs.takeWhile (· ≠ '\x7d'), rest)
  | _ => none

/-- A directive whose target is followed by a bracket: a part of the run, or events by a field
that they have. -/
def readBracket (target : Option String) (cs : List Char) : Option Reading :=
  let name := cs.takeWhile fun c => c ≠ ']' && c ≠ '\x7b'
  match cs.dropWhile fun c => c ≠ ']' && c ≠ '\x7b' with
  | ']' :: rest => (readThreshold rest).map fun _ => .run
  | '\x7b' :: rest => do
      let (field, rest) ← readField rest
      let threshold ← readThreshold rest
      if field.isEmpty then none
      else if !name.isEmpty || field.contains '=' then some .run
      else some (.events ⟨target, [String.ofList field], threshold⟩)
  | _ => none

/-- Whether a directive may start with the character. -/
def startsDirective (c : Char) : Bool := c = '-' || c = ':' || Text.isWord c

/-- Whether a character ends the level or target at the front of a directive. -/
def endsWord (c : Char) : Bool := c = '=' || c = '['

/-- Reads a directive that does not start with a blank: a level, a target, or a target with a
level, where a target may be followed by a part of the run in brackets. -/
def readPlain (cs : List Char) : Option Reading :=
  let word := cs.takeWhile (!endsWord ·)
  match cs.dropWhile (!endsWord ·) with
  | [] => some (.events (ofWord word))
  | '[' :: rest => readBracket (if word.isEmpty then none else some (String.ofList word)) rest
  | rest => (readThreshold rest).map fun t => .events ⟨some (String.ofList word), [], t⟩

/-- Reads a directive. Blanks count as part of what it names, so a directive that starts with
one names a target, which can have no level of its own. -/
def parse (s : String) : Option Reading :=
  let cs := s.toList
  match Text.trim cs with
  | [] => none
  | c :: trimmed =>
      if !(startsDirective c || c = '[') then none
      else if cs.head? = some c then readPlain cs
      else if (c :: trimmed).any endsWord then none
      else some (.events (ofWord cs))

/-- The length of the target; a directive for all targets is less specific than any other. -/
def reach (d : Directive) : Nat :=
  match d.target with
  | some target => target.utf8ByteSize + 1
  | none => 0

/-- A directive goes before a less specific one. -/
def before (a b : Directive) : Bool :=
  if a.reach ≠ b.reach then b.reach < a.reach
  else if a.fields.length ≠ b.fields.length then b.fields.length < a.fields.length
  else if a.target ≠ b.target then b.target.getD "" < a.target.getD ""
  else b.fields < a.fields

/-- Whether the directive is about the event. -/
def covers (d : Directive) (e : Event) : Bool :=
  d.target.all (fun target => (Text.dropStart? target e.target).isSome)
    && d.fields.all fun name => name = "message" || e.fields.any (·.1 = name)

end Directive

/-- The directives of a filter, the most specific first. -/
structure Filter where
  directives : List Directive
  deriving DecidableEq, Repr, Inhabited

namespace Filter

/-- Puts a directive into its place, or in the place of the one for the same events. -/
def insertInto (d : Directive) : List Directive → List Directive
  | [] => [d]
  | other :: more =>
      if other.target = d.target && other.fields = d.fields then d :: more
      else if d.before other then d :: other :: more
      else other :: insertInto d more

/-- The filter with a further directive. -/
def insert (f : Filter) (d : Directive) : Filter := ⟨insertInto d f.directives⟩

/-- The filter that shows all events from a level upwards. -/
def ofLevel (level : Level) : Filter := ⟨[⟨none, [], some level⟩]⟩

/-- The filter with what was read as a directive. -/
def insertReading (f : Filter) : Directive.Reading → Filter
  | .events d => f.insert d
  | .run => f

/-- Reads directives that are separated by commas. Without any, errors are shown; with one that
cannot be read there is no filter. -/
def parse (s : String) : Option Filter := do
  let pieces := (List.splitOn ',' s.toList).filter (!·.isEmpty)
  let readings ← pieces.mapM fun piece => Directive.parse (String.ofList piece)
  if readings.isEmpty then return ofLevel .error
  else return readings.foldl insertReading ⟨[]⟩

/-- Whether the event is shown: the first directive about it decides. -/
def shows (f : Filter) (e : Event) : Bool :=
  match f.directives.find? (·.covers e) with
  | some d => d.threshold.any fun level => level.rank ≤ e.level.rank
  | none => false

end Filter

end Attestation.Log
