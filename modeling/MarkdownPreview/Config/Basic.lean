import MarkdownPreview.Options
import MarkdownPreview.Text.Numeral

/-! The configuration of a host: how much it logs, and the options of its previews. -/

namespace MarkdownPreview

/-- A level is a name that nobody has looked at yet; an unknown one is an error only when the log is
set up. -/
structure Config where
  logLevel : Option (List Char) := none
  extract : Options := {}
  deriving Repr, DecidableEq, Inhabited

/-- How much is logged, from the least to the most. -/
inductive LogLevel where
  | error
  | warn
  | info
  | debug
  | trace
  deriving Repr, DecidableEq

namespace LogLevel

def all : List LogLevel := [error, warn, info, debug, trace]

def name : LogLevel → String
  | error => "ERROR"
  | warn => "WARN"
  | info => "INFO"
  | debug => "DEBUG"
  | trace => "TRACE"

def upperAscii (c : Char) : Char := if 'a' ≤ c ∧ c ≤ 'z' then Char.ofNat (c.toNat - 32) else c

/-- The level with a name in any case, or with a number from 1 up. -/
def parse? (text : List Char) : Option LogLevel :=
  match Text.word? text with
  | some n => if n = 0 then none else all[n - 1]?
  | none => all.find? (·.name.toList == text.map upperAscii)

end LogLevel

namespace Config

/-- The level that the log is set to, if the configuration says one; an error gives the name back
that is none. -/
def level? (c : Config) : Except (List Char) (Option LogLevel) :=
  match c.logLevel with
  | none => .ok none
  | some name =>
    match LogLevel.parse? name with
    | some level => .ok (some level)
    | none => .error name

end Config

end MarkdownPreview
