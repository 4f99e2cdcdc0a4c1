import Mathlib.Algebra.Group.Int.Defs
import Mathlib.Algebra.Group.Nat.Defs
import Mathlib.Data.List.Basic
import Mathlib.Data.List.Perm.Basic
import Brickred.Lib.Transition

/-!
# Loggers and their sinks (`log_core.h`, `log_core.cc`)

The core has a slot for each logger id; a logger owns the sinks that are added to it and
deletes them. A text is formatted at most once in a call, and not before the first sink
that is to get it: the arguments can be read only once.

`vsnprintf` and the formatters are parameters. What they leave is the whole buffer and
the number they return; the sink gets the buffer with a `size_t`.
-/

namespace Brickred

open Transition

/-- The address of a `LogSink`. -/
abbrev Sink := Nat

namespace LogCore

/-- What is logged, with the arguments of the format. -/
structure Message (A : Type) where
  level : Int
  filename : String
  line : Int
  function : String
  format : String
  args : A

/-- `LogFormatter`: from the size of the buffer, what is then in it and what is returned. -/
abbrev LogFormatter (A : Type) := Nat → Message A → List UInt8 × Nat

/-- The `vsnprintf` of the C library. -/
abbrev Vsnprintf (A : Type) := Nat → String → A → List UInt8 × Int

/-- What a call does besides changing the core, in order. -/
inductive Output where
  /-- The arguments of a format are read. -/
  | format
  /-- `LogSink::log` -/
  | log (sink : Sink) (buffer : List UInt8) (size : Nat)
  | delete (sink : Sink)
  | returned (result : Bool)
  deriving DecidableEq, Repr

/-- `Logger`. The two vectors are as long as each other. -/
structure Logger (A : Type) where
  formatter : Option (LogFormatter A)
  levelFilter : Int
  maxLogSize : Int
  sinks : List Sink
  sinkLevelFilters : List Int
  maxLogSize_pos : 0 < maxLogSize
  length_eq : sinks.length = sinkLevelFilters.length

namespace Logger

variable {A : Type}

/-- `Logger::Logger` -/
def new (formatter : Option (LogFormatter A)) (levelFilter maxLogSize : Int) : Logger A where
  formatter
  levelFilter
  maxLogSize := if maxLogSize ≤ 0 then 1 else maxLogSize
  sinks := []
  sinkLevelFilters := []
  maxLogSize_pos := by split <;> omega
  length_eq := rfl

/-- `Logger::~Logger` -/
def destruct (l : Logger A) : List Output := l.sinks.map .delete

/-- `Logger::addSink`. Both vectors have room before the first of them grows. -/
def addSink (l : Logger A) (sink : Sink) (levelFilter : Int) : Logger A :=
  { l with
    sinks := l.sinks ++ [sink]
    sinkLevelFilters := l.sinkLevelFilters ++ [levelFilter]
    length_eq := by rw [List.length_append, List.length_append, l.length_eq]; rfl }

/-- `Logger::setLevelFilter` -/
def setLevelFilter (l : Logger A) (levelFilter : Int) : Logger A := { l with levelFilter }

/-- The sinks with their level filters. -/
def taps (l : Logger A) : List (Sink × Int) := l.sinks.zip l.sinkLevelFilters

/-- The end of the formatting: a text that is too long is cut, with room for its end. -/
def cut (maxLogSize count : Int) : Int := min count (maxLogSize - 1)

/-- The formatting of `Logger::plainLog`, and of `Logger::log` without a formatter. -/
def plainText (vsnprintf : Vsnprintf A) (maxLogSize : Int) (format : String) (args : A) :
    List UInt8 × Int :=
  let (buffer, count) := vsnprintf maxLogSize.toNat format args
  (buffer, cut maxLogSize (if count < 0 then 0 else count))

/-- The formatting of `Logger::log`. What a formatter returns is stored in an `int32_t`. -/
def text (vsnprintf : Vsnprintf A) (formatter : Option (LogFormatter A)) (maxLogSize : Int)
    (message : Message A) : List UInt8 × Int :=
  match formatter with
  | none => plainText vsnprintf maxLogSize message.format message.args
  | some formatter =>
    let (buffer, count) := formatter maxLogSize.toNat message
    (buffer, cut maxLogSize (Int.bmod count (2 ^ 32)))

/-- The loop over the sinks in `Logger::log` and in `Logger::plainLog`; `ready` is the
text, once there is one. -/
def logLoop (level : Int) (text : List UInt8 × Int) :
    List (Sink × Int) → Option (List UInt8 × Int) → List Output
  | [], _ => []
  | (sink, levelFilter) :: rest, ready =>
    if level < levelFilter then
      logLoop level text rest ready
    else
      -- lazy format
      match ready with
      | none =>
        .format :: .log sink text.1 (text.2 % 2 ^ 64).toNat :: logLoop level text rest (some text)
      | some (buffer, count) =>
        .log sink buffer (count % 2 ^ 64).toNat :: logLoop level text rest (some (buffer, count))

/-- `Logger::log` -/
def log (vsnprintf : Vsnprintf A) (l : Logger A) (message : Message A) : List Output :=
  if message.level < l.levelFilter then []
  else logLoop message.level (text vsnprintf l.formatter l.maxLogSize message) l.taps none

/-- `Logger::plainLog` -/
def plainLog (vsnprintf : Vsnprintf A) (l : Logger A) (level : Int) (format : String) (args : A) :
    List Output :=
  if level < l.levelFilter then []
  else logLoop level (plainText vsnprintf l.maxLogSize format args) l.taps none

end Logger

end LogCore

open LogCore

/-- `LogCore::Impl` -/
structure LogCore (A : Type) where
  loggers : List (Option (Logger A))
  maxLogSize : Int

namespace LogCore

variable {A : Type}

/-- `LogCore::Impl::setMaxLoggerCount` -/
def setMaxLoggerCount (s : LogCore A) (count : Int) : LogCore A × List Output :=
  if count < 0 then (s, [])
  else
    let n := count.toNat
    let deleted := if count < s.loggers.length then s.loggers.drop n else []
    ({ s with loggers := s.loggers.take n ++ List.replicate (n - s.loggers.length) none },
      deleted.flatMap fun logger => logger.elim [] Logger.destruct)

/-- `LogCore::Impl::setMaxLogSize` -/
def setMaxLogSize (s : LogCore A) (size : Int) : LogCore A :=
  if size ≤ 0 then s else { s with maxLogSize := size }

/-- `LogCore::LogCore`, with the default arguments of the two functions it calls. -/
def init (A : Type) : LogCore A :=
  ((⟨[], 0⟩ : LogCore A).setMaxLoggerCount 1).1.setMaxLogSize 4096

/-- The slot of a logger, if the id is in range. -/
def slot (s : LogCore A) (loggerId : Int) : Option (Option (Logger A)) :=
  if loggerId < 0 ∨ loggerId ≥ s.loggers.length then none else s.loggers[loggerId.toNat]?

/-- The logger that an id names: both checks that most functions begin with. -/
def loggerAt (s : LogCore A) (loggerId : Int) : Option (Logger A) := (s.slot loggerId).join

/-- Write a slot. -/
def setSlot (s : LogCore A) (loggerId : Int) (logger : Option (Logger A)) : LogCore A :=
  { s with loggers := s.loggers.set loggerId.toNat logger }

/-- `LogCore::Impl::registerLogger` -/
def registerLogger (s : LogCore A) (loggerId : Int) (formatter : Option (LogFormatter A))
    (levelFilter : Int) : LogCore A × Bool :=
  match s.slot loggerId with
  | none => (s, false)
  | some (some _) => (s, false)
  | some none => (s.setSlot loggerId (some (.new formatter levelFilter s.maxLogSize)), true)

/-- `LogCore::Impl::removeLogger` -/
def removeLogger (s : LogCore A) (loggerId : Int) : LogCore A × List Output :=
  match s.loggerAt loggerId with
  | none => (s, [])
  | some logger => (s.setSlot loggerId none, logger.destruct)

/-- `LogCore::Impl::addSink` -/
def addSink (s : LogCore A) (loggerId : Int) (sink : Sink) (levelFilter : Int) : LogCore A × Bool :=
  match s.loggerAt loggerId with
  | none => (s, false)
  | some logger => (s.setSlot loggerId (some (logger.addSink sink levelFilter)), true)

/-- `LogCore::Impl::setLevelFilter` -/
def setLevelFilter (s : LogCore A) (loggerId : Int) (levelFilter : Int) : LogCore A :=
  match s.loggerAt loggerId with
  | none => s
  | some logger => s.setSlot loggerId (some (logger.setLevelFilter levelFilter))

/-- `LogCore::Impl::log` -/
def log (vsnprintf : Vsnprintf A) (s : LogCore A) (loggerId : Int) (message : Message A) :
    List Output :=
  match s.loggerAt loggerId with
  | none => []
  | some logger => logger.log vsnprintf message

/-- `LogCore::Impl::plainLog` -/
def plainLog (vsnprintf : Vsnprintf A) (s : LogCore A) (loggerId level : Int) (format : String)
    (args : A) : List Output :=
  match s.loggerAt loggerId with
  | none => []
  | some logger => logger.plainLog vsnprintf level format args

/-- `LogCore::Impl::~Impl` -/
def destruct (s : LogCore A) : List Output :=
  s.loggers.flatMap fun logger => logger.elim [] Logger.destruct

/-- A call. -/
inductive Op (A : Type) where
  | setMaxLoggerCount (count : Int)
  | setMaxLogSize (size : Int)
  | registerLogger (loggerId : Int) (formatter : Option (LogFormatter A)) (levelFilter : Int)
  | removeLogger (loggerId : Int)
  | addSink (loggerId : Int) (sink : Sink) (levelFilter : Int)
  | setLevelFilter (loggerId levelFilter : Int)
  | log (loggerId : Int) (message : Message A)
  | plainLog (loggerId level : Int) (format : String) (args : A)

def step (vsnprintf : Vsnprintf A) (s : LogCore A) : Op A → LogCore A × List Output
  | .setMaxLoggerCount count => s.setMaxLoggerCount count
  | .setMaxLogSize size => (s.setMaxLogSize size, [])
  | .registerLogger loggerId formatter levelFilter =>
    let (s, result) := s.registerLogger loggerId formatter levelFilter
    (s, [.returned result])
  | .removeLogger loggerId => s.removeLogger loggerId
  | .addSink loggerId sink levelFilter =>
    let (s, result) := s.addSink loggerId sink levelFilter
    (s, [.returned result])
  | .setLevelFilter loggerId levelFilter => (s.setLevelFilter loggerId levelFilter, [])
  | .log loggerId message => (s, s.log vsnprintf loggerId message)
  | .plainLog loggerId level format args => (s, s.plainLog vsnprintf loggerId level format args)

/-- A call with what it does. -/
def Steps (vsnprintf : Vsnprintf A) (s : LogCore A) (move : Op A × List Output) (s' : LogCore A) :
    Prop :=
  s.step vsnprintf move.1 = (s', move.2)

theorem steps_step (vsnprintf : Vsnprintf A) (s : LogCore A) (op : Op A) :
    Steps vsnprintf s (op, (s.step vsnprintf op).2) (s.step vsnprintf op).1 := rfl

end LogCore

end Brickred
