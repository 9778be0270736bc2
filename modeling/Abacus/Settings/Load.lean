import Abacus.Settings.Basic
import Abacus.Settings.Document
import Abacus.Text.Path

/-!
Settings from mappings, documents and named files.

Unknown keys are refused before any value is looked at; then the values are checked one after the
other. Keys left out keep their defaults.
-/
namespace Abacus

inductive SettingsError where
  | unknownKeys (keys : List String)
  | notPositive (key : String) (got : Datum)
  | negative (key : String) (got : Datum)
  | notMapping (path : String)
  | notFound (path : String)
  | malformed (path : String)

namespace SettingsError

def message : SettingsError → String
  | unknownKeys keys => "Unknown configuration keys: " ++ ", ".intercalate keys
  | notPositive key got => key ++ " must be a positive integer, got " ++ got.render
  | negative key got => key ++ " must be a non-negative integer, got " ++ got.render
  | notMapping path => "Configuration must be a mapping: " ++ path
  | notFound path => "Configuration file not found: " ++ path
  | malformed path => "Configuration is malformed: " ++ path

end SettingsError

namespace Settings

def loopKey : String := "loop_limit"

def callKey : String := "call_limit"

def placesKey : String := "display_places"

def isKnown : Datum → Bool
  | .text s => [loopKey, callKey, placesKey].contains s
  | _ => false

/-- The value of a key. -/
def value? (key : String) (entries : List (Datum × Datum)) : Option Datum :=
  (entries.find? fun (k, _) => match k with | .text s => s == key | _ => false).map (·.2)

/-- An integer that is at least `least`, or the default if the key is left out. -/
def natAt (key : String) (least default : Nat) (refuse : Datum → SettingsError)
    (entries : List (Datum × Datum)) : Except SettingsError Nat :=
  match value? key entries with
  | none => .ok default
  | some (.integer n) => if n < least then .error (refuse (.integer n)) else .ok n.toNat
  | some d => .error (refuse d)

def unknownKeys (entries : List (Datum × Datum)) : List String :=
  (entries.filterMap fun (k, _) => if isKnown k then none else some k.keyText).mergeSort (· ≤ ·)

def ofMapping (entries : List (Datum × Datum)) : Except SettingsError Settings := do
  let unknown := unknownKeys entries
  if !unknown.isEmpty then .error (.unknownKeys unknown)
  let defaults : Settings := {}
  let loopLimit ← natAt loopKey 1 defaults.loopLimit (.notPositive loopKey) entries
  let callLimit ← natAt callKey 1 defaults.callLimit (.notPositive callKey) entries
  let displayPlaces ← natAt placesKey 0 defaults.displayPlaces (.negative placesKey) entries
  return { loopLimit, callLimit, displayPlaces }

/-- Settings from the text of a document; an empty document holds none. -/
def ofDocument (path text : String) : Except SettingsError Settings :=
  match Document.parse? text with
  | none => .error (.malformed path)
  | some .null => ofMapping []
  | some (.mapping entries) => ofMapping entries
  | some _ => .error (.notMapping path)

/-- Settings from a file; `none` is a file that does not exist. -/
def ofFile (path : String) : Option String → Except SettingsError Settings
  | none => .error (.notFound path)
  | some text => ofDocument path text

/-- The environment variable that names the settings file. -/
def variableName : String := "FNCALC_CONFIG"

/-- Settings from the file that an environment variable names; the defaults if it names none. -/
def ofVariable (path : Option String) (file : String → Option String) :
    Except SettingsError Settings :=
  match path with
  | none => .ok {}
  | some path => if path.isEmpty then .ok {} else ofFile (Text.plainPath path) (file path)

end Settings

end Abacus
