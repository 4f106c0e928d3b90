import ShaderGraph.Library.Filters

/-!
# Settings

What the demo material and its report are made from. `Settings.same` compares settings as numbers
compare, so settings that hold a NaN are not the same as themselves.
-/

namespace ShaderGraph

inductive OutputFormat where
  | glsl
  | json
deriving DecidableEq, Repr

/-- The format of a name, in whatever case its letters are. -/
def OutputFormat.ofName? (name : String) : Option OutputFormat :=
  let lower := name.map Char.toLower
  if lower = "glsl" then some .glsl
  else if lower = "json" then some .json
  else none

inductive FilterSettings where
  | squeeze (frequency : Single)
  | scale (axis : Axis) (frequency : Single)
  | move (axis : Axis) (frequency amplitude : Single)
deriving DecidableEq

structure AnimationSettings where
  /-- The filters in the order in which they are applied. -/
  filters : List FilterSettings
  /-- One clock of this name for all filters; none gives each its own. -/
  sharedClock : Option String
deriving DecidableEq

structure ColorSettings where
  baseColor : Rgb
  highlight : Rgb
  /-- The blend between base and highlight. -/
  mixAmount : Single
  /-- The exponent of the rim. -/
  fresnelPower : Single
deriving DecidableEq

structure Settings where
  version : UInt32
  /-- Frames to simulate. -/
  frames : UInt32
  /-- Seconds of a frame. -/
  frameDelta : Double
  format : OutputFormat
  animation : AnimationSettings
  color : ColorSettings
deriving DecidableEq

/-- The number of tenths, hundredths or thousandths. -/
def tenths (n : Nat) : Single := .ofQuotient false n 10
def thousandths (n : Nat) : Single := .ofQuotient false n 1000

namespace AnimationSettings

def standard : AnimationSettings where
  filters := [.squeeze (tenths 8), .scale .x (tenths 2), .scale .y (tenths 2),
    .scale .z (tenths 1), .move .x (tenths 8) (tenths 8), .move .y (tenths 6) (tenths 5),
    .move .z (tenths 3) (tenths 8)]
  sharedClock := none

end AnimationSettings

namespace ColorSettings

def standard : ColorSettings where
  baseColor := ⟨.ofNat 1, thousandths 412, thousandths 706⟩
  highlight := .splat (.ofNat 2)
  mixAmount := tenths 5
  fresnelPower := .ofNat 2

end ColorSettings

namespace Settings

/-- The newest version of settings that is understood. -/
def currentVersion : UInt32 := 1

def standard : Settings where
  version := currentVersion
  frames := 3
  frameDelta := .ofQuotient false 1 60
  format := .glsl
  animation := .standard
  color := .standard

end Settings

def FilterSettings.same : FilterSettings → FilterSettings → Bool
  | .squeeze f, .squeeze f' => f.same f'
  | .scale a f, .scale a' f' => a = a' && f.same f'
  | .move a f m, .move a' f' m' => a = a' && f.same f' && m.same m'
  | _, _ => false

def Rgb.same (c c' : Rgb) : Bool :=
  c.red.same c'.red && c.green.same c'.green && c.blue.same c'.blue

def AnimationSettings.same (a b : AnimationSettings) : Bool :=
  a.filters.length = b.filters.length &&
    (a.filters.zip b.filters).all (fun (x, y) => x.same y) && a.sharedClock = b.sharedClock

def ColorSettings.same (a b : ColorSettings) : Bool :=
  a.baseColor.same b.baseColor && a.highlight.same b.highlight &&
    a.mixAmount.same b.mixAmount && a.fresnelPower.same b.fresnelPower

def Settings.same (a b : Settings) : Bool :=
  a.version = b.version && a.frames = b.frames && a.frameDelta.same b.frameDelta &&
    a.format = b.format && a.animation.same b.animation && a.color.same b.color

end ShaderGraph
