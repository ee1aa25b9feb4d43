import Lockstep.Text.Blank
import Lockstep.Numeral.Layout

/-!
# Issues of a configuration

An `Issue` says what is wrong at which place of a configuration: its location is the path of
member names and list positions from the top.  Each `Problem` has a short code and a sentence.
-/

namespace Lockstep.Config

/-- One step of a path into a configuration. -/
inductive Place
  | member (name : String)
  | item (index : Nat)
  deriving DecidableEq, Repr

/-- What can be wrong with an entry. -/
inductive Problem
  | missing
  | notText
  | notUtf8
  | notList
  /-- Neither a dictionary nor a value of the named model. -/
  | notModel (model : String)
  /-- None of the two words. -/
  | notChoice (first second : String)
  | notPath
  | below (least : Nat)
  | notFinite
  | fractional
  | notNumeral
  | longNumeral
  | notInteger
  | notTruthWord
  | notTruthValue
  /-- A rule over more than one entry is broken; the text says which. -/
  | rule (text : Text)
  deriving DecidableEq, Repr

/-- A problem and where it is. -/
structure Issue where
  place : List Place
  problem : Problem
  deriving DecidableEq, Repr

/-- The code of a problem. -/
def Problem.code : Problem → String
  | .missing => "missing"
  | .notText => "string_type"
  | .notUtf8 => "string_unicode"
  | .notList => "list_type"
  | .notModel _ => "model_type"
  | .notChoice .. => "literal_error"
  | .notPath => "path_type"
  | .below _ => "greater_than_equal"
  | .notFinite => "finite_number"
  | .fractional => "int_from_float"
  | .notNumeral => "int_parsing"
  | .longNumeral => "int_parsing_size"
  | .notInteger => "int_type"
  | .notTruthWord => "bool_parsing"
  | .notTruthValue => "bool_type"
  | .rule _ => "value_error"

/-- The sentence that states a problem. -/
def Problem.message : Problem → String
  | .missing => "Field required"
  | .notText => "Input should be a valid string"
  | .notUtf8 => "Input should be a valid string, unable to parse raw data as a unicode string"
  | .notList => "Input should be a valid list"
  | .notModel model => "Input should be a valid dictionary or instance of " ++ model
  | .notChoice first second => "Input should be '" ++ first ++ "' or '" ++ second ++ "'"
  | .notPath => "Input is not a valid path for <class 'pathlib.Path'>"
  | .below least =>
    "Input should be greater than or equal to " ++ String.ofList (natText least)
  | .notFinite => "Input should be a finite number"
  | .fractional => "Input should be a valid integer, got a number with a fractional part"
  | .notNumeral => "Input should be a valid integer, unable to parse string as an integer"
  | .longNumeral => "Unable to parse input string as an integer, exceeded maximum size"
  | .notInteger => "Input should be a valid integer"
  | .notTruthWord => "Input should be a valid boolean, unable to interpret input"
  | .notTruthValue => "Input should be a valid boolean"
  | .rule text => "Value error, " ++ String.ofList text

/-- An issue of an entry, seen from the one around it. -/
def Issue.within (p : Place) (i : Issue) : Issue := { i with place := p :: i.place }

end Lockstep.Config
