import Timeshare.Journal

/-!
# The console

The console keeps the latest lines of text. A line is delivered in pieces; of
each piece it keeps the longest prefix that still fits into the capacity of the
line, counted in bytes, with line breaks turned into blanks. A piece that
overflows loses its rest, and the pieces after it are tried all the same. When
the history is full, a new line displaces the oldest one.

A `Log` is a console together with a verbosity: it turns the events that are
grave enough into lines and drops all others.
-/

namespace Timeshare

/-- The latest lines of text, oldest first. -/
structure Console where
  lines : List String := []

namespace Console

/-- The number of bytes that fit into a line. -/
def lineCapacity : Nat := 128

/-- The number of lines that are kept. -/
def historyLines : Nat := 64

/-- The longest prefix that fits into `capacity` bytes. -/
def fit : Nat → List Char → List Char
  | _, [] => []
  | capacity, c :: rest =>
    if c.utf8Size ≤ capacity then c :: fit (capacity - c.utf8Size) rest else []

/-- A character as it stands in a line: a line break is written as a blank. -/
def inLine (c : Char) : Char := if c = '\n' then ' ' else c

/-- The line with as much of `piece` after it as fits. -/
def extend (line piece : String) : String :=
  line ++ String.ofList (fit (lineCapacity - line.utf8ByteSize) (piece.toList.map inLine))

/-- The line made of the given pieces. -/
def line (pieces : List String) : String := pieces.foldl extend ""

/-- Adds the line made of `pieces`, in the place of the oldest one when the
history is full. -/
def write (console : Console) (pieces : List String) : Console :=
  ⟨console.lines.drop (console.lines.length + 1 - historyLines) ++ [line pieces]⟩

/-- The number of lines that are kept. -/
def size (console : Console) : Nat := console.lines.length

end Console

/-- A console behind a verbosity: events up to the given severity are written,
and none if there is no verbosity. -/
structure Log where
  verbosity : Option Severity := none
  console : Console := {}

namespace Log

/-- Whether events of the given severity are written. -/
def enabled (log : Log) (severity : Severity) : Bool :=
  match log.verbosity with
  | none => false
  | some limit => severity.rank ≤ limit.rank

/-- The root of the paths by which sources are named; a line leaves it out. -/
def root : String := "radiate_core::"

/-- A path relative to the root, if it lies below it. -/
def relative (path : String) : String :=
  if root.toList.isPrefixOf path.toList then String.ofList (path.toList.drop root.length) else path

/-- Writes a text with its severity and the path of its source, if it is grave
enough. -/
def write (log : Log) (severity : Severity) (path : String) (pieces : List String) : Log :=
  if log.enabled severity then
    { log with console :=
        log.console.write (["[", severity.label, " ", relative path, "] "] ++ pieces) }
  else log

/-- Writes an event, if it is grave enough. -/
def record (log : Log) (event : Event) : Log :=
  log.write event.severity event.source.path [event.text]

/-- Writes the events in their order. -/
def recordAll (log : Log) (events : Array Event) : Log := events.foldl record log

end Log

end Timeshare
