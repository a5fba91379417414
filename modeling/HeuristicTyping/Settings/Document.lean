import HeuristicTyping.Settings.Basic
import HeuristicTyping.Source.Path
import HeuristicTyping.Toml.Reader

/-!
# Settings from a document

Settings stand in the table `inference` of a TOML document. Each has its usual value unless the
table gives another, and what else the document holds does not matter. The table may also be
written as an array that gives the values in order.
-/

set_option autoImplicit false

namespace HeuristicTyping

/-- Why settings cannot be used. -/
inductive SettingsError where
  /-- The file cannot be read. -/
  | unreadable (path : Path) (cause : String)
  /-- The document is not well formed, or a setting has a value of the wrong kind. -/
  | malformed
  /-- No chain of dependencies may be followed at all. -/
  | noDepth
  /-- The catch-all type has no name. -/
  | noCatchAllType
deriving DecidableEq, Repr

/-- The text of an error. -/
def SettingsError.message : SettingsError → String
  | .unreadable path cause => "failed to read " ++ path.text ++ ": " ++ cause
  | .malformed => "failed to parse config"
  | .noDepth => "invalid `max_depth`: must be at least 1"
  | .noCatchAllType => "invalid `catch_all_type`: must name a type"

namespace Toml

/-- The value as a count. -/
def count? : Toml → Option Nat
  | .integer (.ofNat value) => some value
  | _ => none

/-- The value as a text. -/
def text? : Toml → Option String
  | .text value => some value
  | _ => none

/-- The value as a list of texts. -/
def texts? : Toml → Option (List String)
  | .array items => items.mapM text?
  | _ => none

/-- A value that may be missing. It is refused only if it is there and of the wrong kind. -/
def optional {α : Type} (read : Toml → Option α) (usual : α) : Option Toml → Option α
  | some value => read value
  | none => some usual

end Toml

namespace Settings

/-- The settings that given values make, in the order of the fields. -/
def ofValues? (duckMaxCandidates maxDepth constructorMethods initializerMethods catchAllType :
    Option Toml) : Option Settings := do
  let usual : Settings := {}
  return {
    duckMaxCandidates := ← Toml.optional Toml.count? usual.duckMaxCandidates duckMaxCandidates
    maxDepth := ← Toml.optional Toml.count? usual.maxDepth maxDepth
    constructorMethods :=
      ← Toml.optional Toml.texts? usual.constructorMethods constructorMethods
    initializerMethods :=
      ← Toml.optional Toml.texts? usual.initializerMethods initializerMethods
    catchAllType := ← Toml.optional Toml.text? usual.catchAllType catchAllType }

/-- The settings of a table. -/
def ofEntries? (entries : Toml.Entries) : Option Settings :=
  ofValues? (entries.lookup "duck_max_candidates") (entries.lookup "max_depth")
    (entries.lookup "constructor_methods") (entries.lookup "initializer_methods")
    (entries.lookup "catch_all_type")

/-- The settings of an array of values. -/
def ofItems? (items : List Toml) : Option Settings :=
  ofValues? items[0]? items[1]? items[2]? items[3]? items[4]?

/-- The settings that the value of the table `inference` gives. A date or time counts as a table
in which no setting is given. -/
def ofToml? : Option Toml → Option Settings
  | none => some {}
  | some (.table _ entries) => ofEntries? entries
  | some (.tables items) => ofItems? (items.map (.table .header))
  | some (.array items) => ofItems? items
  | some (.moment _) => some {}
  | some _ => none

/-- The settings, if they can be used. The depth is looked at first. -/
def validated (settings : Settings) : Except SettingsError Settings :=
  if settings.maxDepth = 0 then .error .noDepth
  else if settings.catchAllType = "" then .error .noCatchAllType
  else .ok settings

/-- The settings of a document. -/
def parse (document : String) : Except SettingsError Settings :=
  match (Toml.parse? document).bind fun entries => ofToml? (entries.lookup "inference") with
  | some settings => settings.validated
  | none => .error .malformed

/-- The settings of a file, given what reading the file gave: its text, or why there is none. -/
def ofFile (path : Path) (contents : Except String String) : Except SettingsError Settings :=
  match contents with
  | .ok document => parse document
  | .error cause => .error (.unreadable path cause)

end Settings

end HeuristicTyping
