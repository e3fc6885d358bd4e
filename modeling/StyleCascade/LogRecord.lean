/-!
# Log records

What the library reports while it works, besides its results.
-/

namespace StyleCascade

/-- How much a record matters. -/
inductive LogLevel where
  | debug
  | info
  | warning
  | error
  deriving Repr, DecidableEq

/-- The part of the library that a record comes from. -/
inductive LogChannel where
  /-- The compilation of selectors and themes. -/
  | compilation
  /-- The resolution of queries. -/
  | resolution
  /-- The change of themes. -/
  | activation
  deriving Repr, DecidableEq

/-- One record. -/
structure LogRecord where
  level : LogLevel
  channel : LogChannel
  message : String
  deriving Repr, DecidableEq

/-- The name of a level. -/
def LogLevel.name : LogLevel → String
  | debug => "DEBUG"
  | info => "INFO"
  | warning => "WARNING"
  | error => "ERROR"

/-- The rank of a level, from the least to the most. -/
def LogLevel.rank : LogLevel → Nat
  | debug => 0
  | info => 1
  | warning => 2
  | error => 3

/-- The name of a channel. -/
def LogChannel.name : LogChannel → String
  | compilation => "theme_cascade.compiler.compiler"
  | resolution => "theme_cascade.resolver.resolver"
  | activation => "theme_cascade.runtime"

/-- A record on one line. -/
def LogRecord.text (record : LogRecord) : String :=
  record.level.name ++ " " ++ record.channel.name ++ ": " ++ record.message

end StyleCascade
