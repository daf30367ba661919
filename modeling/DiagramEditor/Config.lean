import DiagramEditor.Json.Number
import DiagramEditor.Json.Reader
import DiagramEditor.Json.Record
import DiagramEditor.Text.Quoted

/-!
# Settings of the editor

The settings are read from JSON text. Every setting has a default, and settings that are not known
are ignored. A text that is no JSON, a setting with a value of the wrong type and a setting that is
given twice are errors, and so is a prefix of render ids that could not stand in an id.
-/

namespace DiagramEditor

/-- Why settings are refused. -/
inductive ConfigError where
  /-- The text is no JSON, or not of the right form. -/
  | parse
  | invalidRenderIdPrefix (stem : Text)
deriving DecidableEq, Repr

/-- The text shown to the user. -/
def ConfigError.message : ConfigError → Text
  | parse => "invalid editor config".toList
  | invalidRenderIdPrefix stem =>
    "render id prefix must be a non-empty token without whitespace: ".toList ++ Text.cite stem

/-- The theme that goes with each render request. -/
structure ThemeConfig where
  name : Text
  /-- What the renderer makes of the theme; the editor does not look into it. -/
  settings : Json

/-- The settings. -/
structure EditorConfig where
  /-- How long the text has to stay unchanged before it is rendered, in milliseconds. -/
  debounceMs : Nat
  /-- How long to wait behind a rendering before looking at it, in milliseconds. -/
  extractionDelayMs : Nat
  /-- The name of the theme in use. -/
  theme : Text
  /-- The themes by name. -/
  themes : List (Text × Json)
  /-- What the ids of render requests begin with. -/
  renderIdPrefix : Text

namespace ThemeConfig

/-- The name of the default theme. -/
def defaultName : Text :=
  "default".toList

/-- The default theme. -/
def default : ThemeConfig :=
  ⟨defaultName, .object []⟩

/-- The theme as JSON. -/
def toJson (t : ThemeConfig) : Json :=
  .ofMembers [("name", .string t.name), ("variables", t.settings)]

/-- The theme that the JSON value is. -/
def ofJson? (j : Json) : Option ThemeConfig := do
  let r ← j.record? ["name", "variables"]
  return ⟨← r.text? "name", ← r.required? "variables" some⟩

end ThemeConfig

namespace EditorConfig

/-- The themes that are always there. -/
def builtinThemes : List (Text × Json) :=
  ["default", "dark", "forest", "neutral"].map fun name =>
    (name.toList, .ofMembers [("theme", .string name.toList)])

/-- The settings if nothing is set. -/
def default : EditorConfig where
  debounceMs := 300
  extractionDelayMs := 50
  theme := ThemeConfig.defaultName
  themes := builtinThemes
  renderIdPrefix := "diagram".toList

/-- The names of the settings in their order. -/
def fieldNames : List String :=
  ["debounce_ms", "extraction_delay_ms", "theme", "themes", "render_id_prefix"]

/-- The settings as JSON. -/
def toJson (c : EditorConfig) : Json :=
  .ofMembers [("debounce_ms", .ofNat c.debounceMs),
    ("extraction_delay_ms", .ofNat c.extractionDelayMs), ("theme", .string c.theme),
    ("themes", .object c.themes), ("render_id_prefix", .string c.renderIdPrefix)]

/-- The themes that the JSON value is. -/
def themes? : Json → Option (List (Text × Json))
  | .object members => some members
  | _ => none

/-- The settings that the JSON value is. -/
def ofJson? (j : Json) : Option EditorConfig := do
  let r ← j.record? fieldNames
  return {
    debounceMs := ← r.default? "debounce_ms" Json.index? default.debounceMs
    extractionDelayMs :=
      ← r.default? "extraction_delay_ms" Json.index? default.extractionDelayMs
    theme := ← r.default? "theme" Json.text? default.theme
    themes := ← r.default? "themes" themes? default.themes
    renderIdPrefix := ← r.default? "render_id_prefix" Json.text? default.renderIdPrefix }

/-- No setting is given twice. -/
def namesOnce : Json → Bool
  | .object members =>
    fieldNames.all fun name => members.countP (fun m => m.1 = name.toList) ≤ 1
  | _ => true

/-- How deep a theme may nest. -/
def maxThemeDepth : Nat :=
  125

/-- The theme nests not too deep and can be kept. -/
def themeFits (theme : Text × Json) : Bool :=
  theme.2.depth ≤ maxThemeDepth && theme.2.canKeep

/-- The first reason why the settings cannot be used, or nothing. -/
def validate (c : EditorConfig) : Except ConfigError Unit :=
  if c.renderIdPrefix.isEmpty || c.renderIdPrefix.any Unicode.isSpace then
    .error (.invalidRenderIdPrefix c.renderIdPrefix)
  else .ok ()

/-- The settings that the JSON value is, all of which can be used. -/
def read (j : Json) : Except ConfigError EditorConfig :=
  match ofJson? j.kept with
  | none => .error .parse
  | some c => c.validate.map fun _ => c

/-- The settings that the text is. -/
def ofText (text : Text) : Except ConfigError EditorConfig :=
  match Json.ofText? text with
  | none => .error .parse
  | some j =>
    -- Only here are repetitions an error; a value from elsewhere has none.
    if namesOnce j && (((ofJson? j).elim true fun c => c.themes.all themeFits)) then read j
    else .error .parse

/-- The theme in use. A name that is not among the themes stands for a theme without settings. -/
def themeConfig (c : EditorConfig) : ThemeConfig :=
  ⟨c.theme, (c.themes.lookup c.theme).getD (.object [])⟩

/-- The settings with another theme in use. -/
def withTheme (theme : Text) (c : EditorConfig) : EditorConfig :=
  { c with theme }

end EditorConfig

end DiagramEditor
