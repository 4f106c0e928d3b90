import ShaderGraph.Ron.Document
import ShaderGraph.Ron.Reader
import ShaderGraph.Settings.Basic

/-!
# Settings as text

Every field of the settings has a standard value, so a text need only name what it changes; a
filter must name all its fields. `Settings.ofText` also refuses settings of a newer version and
frames whose length is not a number of seconds.
-/

namespace ShaderGraph

open Ron

/-! ## Writing -/

def OutputFormat.name : OutputFormat → String
  | .glsl => "Glsl"
  | .json => "Json"

def Axis.name : Axis → String
  | .x => "X"
  | .y => "Y"
  | .z => "Z"
  | .all => "All"

def Rgb.document (c : Rgb) : Document :=
  .tuple [.ofBinary c.red, .ofBinary c.green, .ofBinary c.blue]

def FilterSettings.document : FilterSettings → Document
  | .squeeze frequency => .record "Squeeze" [("frequency", .ofBinary frequency)]
  | .scale axis frequency =>
    .record "Scale" [("axis", .plain axis.name), ("frequency", .ofBinary frequency)]
  | .move axis frequency amplitude =>
    .record "Move" [("axis", .plain axis.name), ("frequency", .ofBinary frequency),
      ("amplitude", .ofBinary amplitude)]

def AnimationSettings.document (a : AnimationSettings) : Document :=
  .record "AnimationSettings" [("filters", .list (a.filters.map FilterSettings.document)),
    ("shared_clock", .ofOption (a.sharedClock.map Document.ofString))]

def ColorSettings.document (c : ColorSettings) : Document :=
  .record "ColorSettings" [("base_color", c.baseColor.document),
    ("highlight", c.highlight.document), ("mix_amount", .ofBinary c.mixAmount),
    ("fresnel_power", .ofBinary c.fresnelPower)]

def Settings.document (s : Settings) : Document :=
  .record "SandboxConfig" [("version", .ofNat s.version.toNat),
    ("frames", .ofNat s.frames.toNat), ("frame_delta", .ofBinary s.frameDelta),
    ("format", .plain s.format.name), ("animation", s.animation.document),
    ("color", s.color.document)]

def Settings.toText (s : Settings) : String := s.document.render ""

/-! ## Reading -/

def readFormat : Parse OutputFormat :=
  oneOf ([OutputFormat.glsl, .json].map fun f => (f.name, f))

def readAxis : Parse Axis := oneOf ([Axis.x, .y, .z, .all].map fun a => (a.name, a))

def readRgb : Parse Rgb := do
  match ← tuple single 3 with
  | [r, g, b] => return ⟨r, g, b⟩
  | _ => failure

/-- The fields of a filter so far. -/
structure FilterFields where
  axis : Axis
  frequency : Single
  amplitude : Single

def readFilter (e : Extensions) (budget : Nat) : Parse FilterSettings := do
  let read (known : List String) : Parse FilterFields := do
    skipBlanks
    let (f, seen) ← fields e budget known
      (fun field f => match field with
        | "axis" => return { f with axis := ← readAxis }
        | "frequency" => return { f with frequency := ← single }
        | _ => return { f with amplitude := ← single })
      ⟨.all, .zero, .zero⟩
    if known.all seen.contains then return f else failure
  match ← name true with
  | "Squeeze" => return .squeeze (← read ["frequency"]).frequency
  | "Scale" => do
    let f ← read ["axis", "frequency"]
    return .scale f.axis f.frequency
  | "Move" => do
    let f ← read ["axis", "frequency", "amplitude"]
    return .move f.axis f.frequency f.amplitude
  | _ => failure

def readAnimation (e : Extensions) (budget : Nat) : Parse AnimationSettings :=
  record e (budget - 2) "AnimationSettings" ["filters", "shared_clock"]
    (fun field a => match field with
      | "filters" => return { a with filters := ← list (readFilter e (budget - 7)) }
      | _ => return { a with sharedClock := ← option e string })
    .standard

def readColor (e : Extensions) (budget : Nat) : Parse ColorSettings :=
  record e (budget - 2) "ColorSettings"
    ["base_color", "highlight", "mix_amount", "fresnel_power"]
    (fun field c => match field with
      | "base_color" => return { c with baseColor := ← readRgb }
      | "highlight" => return { c with highlight := ← readRgb }
      | "mix_amount" => return { c with mixAmount := ← single }
      | _ => return { c with fresnelPower := ← single })
    .standard

def readSettings (e : Extensions) : Parse Settings :=
  let budget := depthLimit - 2
  record e budget "SandboxConfig"
    ["version", "frames", "frame_delta", "format", "animation", "color"]
    (fun field s => match field with
      | "version" => return { s with version := ← word32 }
      | "frames" => return { s with frames := ← word32 }
      | "frame_delta" => return { s with frameDelta := ← double }
      | "format" => return { s with format := ← readFormat }
      | "animation" => return { s with animation := ← readAnimation e budget }
      | _ => return { s with color := ← readColor e budget })
    .standard

inductive SettingsError where
  /-- The text is no settings. -/
  | malformed
  | unsupportedVersion (found : UInt32)
  | invalidFrameDelta (delta : Double)
deriving DecidableEq

namespace SettingsError

def message : SettingsError → String
  | .malformed => "Invalid settings"
  | .unsupportedVersion found =>
    s!"Settings version {found.toNat} is newer than supported version " ++
      toString Settings.currentVersion.toNat
  | .invalidFrameDelta delta => "Invalid frame delta: " ++ Layout.spoken.write delta

end SettingsError

def Settings.ofText (text : String) : Except SettingsError Settings :=
  match Ron.document readSettings text with
  | none => .error .malformed
  | some s =>
    if currentVersion < s.version then .error (.unsupportedVersion s.version)
    else if !s.frameDelta.isFinite || s.frameDelta.belowZero then
      .error (.invalidFrameDelta s.frameDelta)
    else .ok s

end ShaderGraph
