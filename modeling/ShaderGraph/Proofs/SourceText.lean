import ShaderGraph.Proofs.Emission

/-!
# The text of a source

The source of a stage lists its uniforms and its varyings, one declaration to a line, in front of
everything else (`declares_render`). Each declaration and each assignment of the main function has
a line of its own (`exists_declare_line`, `exists_assign_line`).
-/

namespace ShaderGraph

namespace StageSource

/-- Lines with their ends, and an empty line behind them if there are any. -/
def listing (lines : List String) : String :=
  String.join (lines.map (· ++ "\n")) ++ if lines = [] then "" else "\n"

/-- A text starts with the declarations of uniforms and of varyings, and goes on with headers and
the main function. -/
def Declares (text : String) (uniforms : List String) (varyings : List Varying)
    (headers : List String) : Prop :=
  ∃ main, text = listing (uniforms.map fun name => "uniform float " ++ name ++ ";") ++
    listing (varyings.map fun v => "varying " ++ v.type ++ " " ++ v.name ++ ";") ++
    String.join (headers.map (· ++ "\n\n")) ++ "void main() \x7b\n" ++ main

theorem renderSection_eq_listing (lines : List String) : renderSection lines = listing lines := by
  rcases lines with _ | ⟨line, lines⟩
  · rfl
  · have hlines : "\n".intercalate (line :: lines) ++ "\n" =
        String.join ((line :: lines).map (· ++ "\n")) := by
      induction lines generalizing line with
      | nil => simp
      | cons next lines ih =>
        rw [String.intercalate_cons_cons, List.map_cons, String.join_cons, ← ih,
          String.append_assoc]
    rw [listing, ← hlines]
    change "\n".intercalate (line :: lines) ++ ("\n" ++ "\n") = _
    rw [if_neg (List.cons_ne_nil _ _), String.append_assoc]

theorem declares_render (source : StageSource) :
    Declares source.render source.uniforms source.varyings source.headers := by
  have huniform : uniformLine = fun name => "uniform float " ++ name ++ ";" := rfl
  have hvarying : varyingLine = fun v => "varying " ++ v.type ++ " " ++ v.name ++ ";" := rfl
  refine ⟨written source.statements ++ "\x7d\n", ?_⟩
  rw [render_eq, opening, renderSection_eq_listing, renderSection_eq_listing, huniform, hvarying]
  simp only [String.append_assoc]

section Lines

variable {source : StageSource}

/-- A statement that is written on one line has this line in the source. -/
theorem exists_line {st : Statement} {line : String} (h : st ∈ source.statements)
    (hline : st.lines = [line]) :
    ∃ front behind, source.render = front ++ ("    " ++ line ++ "\n") ++ behind := by
  obtain ⟨earlier, later, hsplit⟩ := List.append_of_mem h
  refine ⟨source.opening ++ written earlier, written later ++ "\x7d\n", ?_⟩
  have hst : written [st] = "    " ++ line ++ "\n" := by
    simp [written, hline, indent]
  rw [render_eq, hsplit, written_append, ← List.singleton_append, written_append, hst]
  simp only [String.append_assoc]

theorem exists_declare_line {type name init : String}
    (h : .declare type name init ∈ source.statements) : ∃ front behind, source.render =
      front ++ ("    " ++ type ++ " " ++ name ++ " = " ++ init ++ ";\n") ++ behind := by
  obtain ⟨front, behind, hsource⟩ := exists_line h rfl
  refine ⟨front, behind, ?_⟩
  rw [hsource]
  simp only [String.append_assoc]
  rfl

theorem exists_assign_line {target expr : String}
    (h : .assign target expr ∈ source.statements) : ∃ front behind, source.render =
      front ++ ("    " ++ target ++ " = " ++ expr ++ ";\n") ++ behind := by
  obtain ⟨front, behind, hsource⟩ := exists_line h rfl
  refine ⟨front, behind, ?_⟩
  rw [hsource]
  simp only [String.append_assoc]
  rfl

end Lines

/-- Assignments have a line each. -/
theorem written_assigns (writes : List (String × String)) :
    written (writes.map fun write => .assign write.1 write.2) =
      String.join (writes.map fun write => "    " ++ write.1 ++ " = " ++ write.2 ++ ";\n") := by
  rw [written]
  induction writes with
  | nil => rfl
  | cons write writes ih =>
    rw [List.map_cons, List.flatMap_cons, List.map_append, String.join_append, ih]
    simp [Statement.lines, indent, String.append_assoc]

end StageSource

/-- The main function of a stage declares a variable, on a line of the source. -/
structure Shader.Declares (shader : Shader) (stage : Stage) (type name init : String) : Prop where
  mem : .declare type name init ∈ (shader.stage stage).statements
  line : ∃ front behind, shader.source stage =
    front ++ ("    " ++ type ++ " " ++ name ++ " = " ++ init ++ ";\n") ++ behind

/-- The main function of a stage assigns an expression, on a line of the source. -/
structure Shader.Assigns (shader : Shader) (stage : Stage) (target expr : String) : Prop where
  mem : .assign target expr ∈ (shader.stage stage).statements
  line : ∃ front behind, shader.source stage =
    front ++ ("    " ++ target ++ " = " ++ expr ++ ";\n") ++ behind

theorem Shader.declares_source (shader : Shader) (stage : Stage) :
    StageSource.Declares (shader.source stage) (shader.stage stage).uniforms
      (shader.stage stage).varyings (shader.stage stage).headers := by
  rw [shader.source_eq]
  exact StageSource.declares_render _

theorem Shader.declares_of_mem {shader : Shader} {stage : Stage} {type name init : String}
    (h : .declare type name init ∈ (shader.stage stage).statements) :
    shader.Declares stage type name init :=
  ⟨h, shader.source_eq stage ▸ StageSource.exists_declare_line h⟩

theorem Shader.assigns_of_mem {shader : Shader} {stage : Stage} {target expr : String}
    (h : .assign target expr ∈ (shader.stage stage).statements) :
    shader.Assigns stage target expr :=
  ⟨h, shader.source_eq stage ▸ StageSource.exists_assign_line h⟩

end ShaderGraph
