import Lockstep.Text.Hex
import Lockstep.Text.Utf8
import Lockstep.Value.Basic
import Lockstep.Config.Issue

/-!
# Faults

A `Fault` is a cause for which an operation fails.  `Fault.family` sorts faults by what a caller
may do about them, and `Fault.message` is the sentence shown; faults of a reader of some text
format carry none.
-/

namespace Lockstep

/-- The four order relations that two values can be asked for. -/
inductive Relation
  | lt
  | le
  | gt
  | ge
  deriving DecidableEq, Repr

/-- The sign of a relation. -/
def Relation.sign : Relation → String
  | .lt => "<"
  | .le => "<="
  | .gt => ">"
  | .ge => ">="

/-- Why an operation fails. -/
inductive Fault
  -- Comparing and cutting keys
  | notOrdered (relation : Relation) (left right : Kind)
  | noLength (kind : Kind)
  | notSliceable (kind : Kind)
  | sliceAsKey
  | negativeCut
  -- Writing key fields
  | missingPrecision
  | tooWide
  | doesNotFit (shown : Text) (width : Int)
  | badWidth (width : Int) (kind : Kind)
  | notDecimal (kind : Kind)
  | tooManyDigits (count : Option Nat)
  | notNumeral (base : Nat) (quoted : Text)
  | nanToInteger
  | infinityToInteger
  | notNumeric (kind : Kind)
  -- Records
  | missingField (name : Text)
  | fieldOfList
  | fieldOfText
  | fieldOfBytes
  | unsorted (source : Text) (index : Nat) (key previous : Text)
  -- Streams and runs
  /-- Raised by a stream, a keyer or a callback of the caller. -/
  | external (text : Text)
  | idle
  | negativeTimeout
  | alreadyRun
  | negativeIndex
  -- Files
  | sourceMissing (name path : Text)
  | configMissing (path : Text)
  | directory
  | notUtf8 (fault : Utf8.Fault)
  | jsonSyntax
  | delimitedSyntax
  | delimiterLength
  /-- A text is written with half of a pair of surrogates. -/
  | loneSurrogate
  | yamlSyntax
  -- Configurations
  | invalid (model : String) (issues : List Config.Issue)
  | invalidJob (issues : List Config.Issue)
  | notMapping (kind : Kind)
  | memberNotText
  | unknownSource (name : Text)
  | unknownRupture (name : Text)
  | environmentReaderMissing
  | codePointRange
  | codePointOverflow
  | notTruthWord (word : Text)
  | emptyNumeral
  | notTimestamp
  | timestampOfMapping
  -- Reports
  | unknownFormat (name : Text)
  | notFloat (quoted : Text)
  -- Time
  | calendar (fault : CalendarFault)
  | instantRange
  | offsetRange (minutes : Int)
  /-- A run was given up after its budget of steps. -/
  | unfinished
  deriving DecidableEq, Repr

namespace Fault

/-- The families of faults. -/
inductive Family
  | value
  | type
  | lookup
  | state
  | range
  | fileMissing
  | unsorted
  | external
  | idle
  | directory
  | encoding
  | json
  | delimited
  | yaml
  | invalid
  | unfinished
  deriving DecidableEq, Repr

/-- The family of a fault. -/
def family : Fault → Family
  | .notOrdered .. | .noLength _ | .notSliceable _ | .sliceAsKey => .type
  | .negativeCut | .missingPrecision | .tooWide | .doesNotFit .. | .badWidth .. => .value
  | .notDecimal _ => .value
  | .tooManyDigits _ | .notNumeral .. | .nanToInteger => .value
  | .infinityToInteger => .range
  | .notNumeric _ | .fieldOfList | .fieldOfText | .fieldOfBytes => .type
  | .missingField _ => .lookup
  | .unsorted .. => .unsorted
  | .external _ => .external
  | .idle => .idle
  | .negativeTimeout | .negativeIndex => .value
  | .alreadyRun => .state
  | .sourceMissing .. | .configMissing _ => .fileMissing
  | .directory => .directory
  | .notUtf8 _ => .encoding
  | .jsonSyntax => .json
  | .delimitedSyntax => .delimited
  | .delimiterLength => .type
  | .yamlSyntax => .yaml
  | .invalid .. => .invalid
  | .invalidJob _ => .value
  | .notMapping _ | .memberNotText | .notTimestamp | .timestampOfMapping => .type
  | .unknownSource _ | .unknownRupture _ | .notTruthWord _ | .emptyNumeral => .lookup
  | .environmentReaderMissing => .state
  | .codePointRange | .unknownFormat _ | .notFloat _ => .value
  | .calendar _ | .offsetRange _ => .value
  | .instantRange | .codePointOverflow => .range
  | .loneSurrogate | .unfinished => .unfinished

/-- The sentence about a part of a date or time. -/
def calendarMessage : CalendarFault → String
  | .year value => "year " ++ String.ofList (intText value) ++ " is out of range"
  | .month => "month must be in 1..12"
  | .day => "day is out of range for month"
  | .hour => "hour must be in 0..23"
  | .minute => "minute must be in 0..59"
  | .second => "second must be in 0..59"
  | .microsecond => "microsecond must be in 0..999999"

/-- The reason for which bytes are not UTF-8. -/
def encodingReason : Utf8.Reason → String
  | .start => "invalid start byte"
  | .continuation => "invalid continuation byte"
  | .truncated => "unexpected end of data"

/-- The sentence about bytes that are not UTF-8. -/
def encodingMessage (f : Utf8.Fault) : String :=
  let position (n : Nat) : String := String.ofList (natText n)
  let place :=
    if f.stop == f.first + 1 then
      "byte 0x" ++ String.ofList (Text.hex 2 f.byte.toNat) ++ " in position " ++ position f.first
    else "bytes in position " ++ position f.first ++ "-" ++ position (f.stop - 1)
  "'utf-8' codec can't decode " ++ place ++ ": " ++ encodingReason f.reason

/-- A span of time in days and seconds below a day. -/
def spanText (minutes : Int) : String :=
  let days := minutes.fdiv 1440
  let seconds := minutes.fmod 1440 * 60
  let parts :=
    (if days == 0 then [] else ["days=" ++ String.ofList (intText days)]) ++
      (if seconds == 0 then [] else ["seconds=" ++ String.ofList (intText seconds)])
  "datetime.timedelta(" ++ String.intercalate ", " parts ++ ")"

/-- The first line about an invalid job. -/
def invalidJobLine (issues : List Config.Issue) : String :=
  "Invalid configuration: " ++ String.ofList (natText issues.length) ++ " validation error" ++
    (if issues.length == 1 then "" else "s") ++ " for JobConfig"

/-- The sentence about a fault, if it has one. -/
def message : Fault → Option String
  | .notOrdered r a b =>
    some ("'" ++ r.sign ++ "' not supported between instances of '" ++ a.name ++ "' and '" ++
      b.name ++ "'")
  | .noLength k => some ("object of type '" ++ k.name ++ "' has no len()")
  | .notSliceable k => some ("'" ++ k.name ++ "' object is not subscriptable")
  | .sliceAsKey => some "unhashable type: 'slice'"
  | .negativeCut => some "width must not be negative"
  | .missingPrecision => some "Format specifier missing precision"
  | .tooWide => some "Too many decimal digits in format string"
  | .doesNotFit shown w =>
    some (String.ofList shown ++ " does not fit in " ++ String.ofList (intText w) ++ " digits")
  | .badWidth w k =>
    some ("Invalid format specifier '0" ++ String.ofList (intText w) ++ "d' for object of type '" ++
      k.name ++ "'")
  | .notDecimal k => some ("Unknown format code 'd' for object of type '" ++ k.name ++ "'")
  | .tooManyDigits n =>
    let limit := "Exceeds the limit (4300 digits) for integer string conversion"
    let advice := "; use sys.set_int_max_str_digits() to increase the limit"
    match n with
    | some n => some (limit ++ ": value has " ++ String.ofList (natText n) ++ " digits" ++ advice)
    | none => some (limit ++ advice)
  | .notNumeral base q =>
    some ("invalid literal for int() with base " ++ String.ofList (natText base) ++ ": " ++
      String.ofList q)
  | .nanToInteger => some "cannot convert float NaN to integer"
  | .infinityToInteger => some "cannot convert float infinity to integer"
  | .notNumeric k =>
    some ("int() argument must be a string, a bytes-like object or a real number, not '" ++
      k.name ++ "'")
  | .missingField name => some ("Record has no key field '" ++ String.ofList name ++ "'")
  | .fieldOfList => some "list indices must be integers or slices, not str"
  | .fieldOfText => some "string indices must be integers, not 'str'"
  | .fieldOfBytes => some "byte indices must be integers or slices, not str"
  | .unsorted source index key previous =>
    some ("Source '" ++ String.ofList source ++ "' is not sorted: record " ++
      String.ofList (natText index) ++ " key " ++ String.ofList key ++ " < " ++
      String.ofList previous)
  | .external text => some (String.ofList text)
  | .idle => some ""
  | .negativeTimeout => some "'timeout' must be a non-negative number"
  | .alreadyRun => some "Synchronization already run; build a new one."
  | .negativeIndex => some "negative shift count"
  | .sourceMissing name path =>
    some ("Source '" ++ String.ofList name ++ "' not found: " ++ String.ofList path)
  | .configMissing path => some ("Configuration file not found: " ++ String.ofList path)
  | .directory | .jsonSyntax | .delimitedSyntax | .yamlSyntax => none
  | .notUtf8 f => some (encodingMessage f)
  | .delimiterLength => some "\"delimiter\" must be a 1-character string"
  | .invalid model issues =>
    some (String.ofList (natText issues.length) ++ " validation error" ++
      (if issues.length == 1 then "" else "s") ++ " for " ++ model)
  | .invalidJob issues => some (invalidJobLine issues)
  | .notMapping k =>
    some ("breaksync.config.JobConfig() argument after ** must be a mapping, not " ++ k.name)
  | .memberNotText => some "keywords must be strings"
  | .unknownSource name =>
    some ("Source definition '" ++ String.ofList name ++ "' not found in configuration")
  | .unknownRupture name => some (String.ofList name)
  | .environmentReaderMissing =>
    some ("python-dotenv is not installed. Install the project with " ++
      "`pip install -e '.[dev]'` before running jobs.")
  | .notTruthWord word => some (String.ofList word)
  | .codePointRange => some "chr() arg not in range(0x110000)"
  | .codePointOverflow => some "Python int too large to convert to C int"
  | .emptyNumeral => some "string index out of range"
  | .notTimestamp => some "'NoneType' object has no attribute 'groupdict'"
  | .timestampOfMapping => some "expected string or bytes-like object, got 'list'"
  | .loneSurrogate => some "A surrogate outside of a pair is no character"
  | .unknownFormat name => some ("Unsupported output format: " ++ String.ofList name)
  | .notFloat q => some ("could not convert string to float: " ++ String.ofList q)
  | .calendar f => some (calendarMessage f)
  | .instantRange => some "date value out of range"
  | .offsetRange minutes =>
    some ("offset must be a timedelta strictly between -timedelta(hours=24) and " ++
      "timedelta(hours=24), not " ++ spanText minutes ++ ".")
  | .unfinished => some "The run did not end within its budget of steps"

end Fault

end Lockstep
