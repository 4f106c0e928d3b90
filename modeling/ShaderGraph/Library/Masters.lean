import ShaderGraph.Library.Math

/-!
# Masters

The nodes at which compilation starts, one for each kind of material, and the registry of all
built-in types.
-/

namespace ShaderGraph.Library

/-- A colour without transparency, made of the value of a slot. -/
def solidValue : String := "vec4(" ++ Slot.placeholder ++ ", 1.0)"

/-- A standard material of which single outputs are replaced. -/
def customMaterialTemplate : Template :=
  Node.named "CustomShaderMaterial Master"
    |>.slot "position" (.ofKind .vector3) (.plain .vertex "csm_Position")
    |>.slot "normal" (.ofKind .vector3) (.plain .vertex "csm_Normal")
    |>.slot "diffuse_color" (.ofKind .color) ⟨"csm_DiffuseColor", .fragment, solidValue⟩
    |>.slot "emissive_color" (.ofKind .color) (.plain .fragment "csm_Emissive")
    |>.slot "roughness" (.ofKind .float) (.plain .fragment "csm_Roughness")
    |>.slot "metalness" (.ofKind .float) (.plain .fragment "csm_Metalness")

def customMaterialType : NodeType :=
  .ofTemplate "custom_shader_material_master" (pure customMaterialTemplate)

/-- A material that writes position and colour of the pipeline itself. -/
def plainMaterialTemplate : Template :=
  Node.named "ShaderMaterial Master"
    |>.slot "position" (.ofKind .vector3)
      ⟨"gl_Position", .vertex, "projectionMatrix * modelViewMatrix * " ++ solidValue⟩
    |>.slot "color" (.ofKind .color) ⟨"gl_FragColor", .fragment, solidValue⟩

def plainMaterialType : NodeType :=
  .ofTemplate "shader_material_master" (pure plainMaterialTemplate)

def masterTypes : List NodeType := [customMaterialType, plainMaterialType]

/-- All built-in types. -/
def registry : Registry := .ofList (inputTypes ++ mathTypes ++ masterTypes)

end ShaderGraph.Library
