import ShaderGraph.Proofs.Naming
import ShaderGraph.Proofs.Scanning

/-!
# Stems of names

A name falls into runs of letters and digits with other characters between them
(`Glsl.exists_alphanumRuns`), and its stem is made of these runs, the first character of each turned
into a capital (`Glsl.AlphanumRuns.capitalized_eq`). A stem is one such run itself, so that it is
its own stem (`Glsl.stemChars_stemChars`).
-/

namespace ShaderGraph.Glsl

/-! ## Runs of letters and digits -/

/-- The runs of letters and digits of a text, each of them as long as possible: behind a run there
is another character or nothing. -/
inductive AlphanumRuns : List Char → List (List Char) → Prop
  | nil : AlphanumRuns [] []
  | gap {c : Char} {cs : List Char} {runs : List (List Char)} : c.isAlphanum = false →
      AlphanumRuns cs runs → AlphanumRuns (c :: cs) runs
  | run {c : Char} {cs rest : List Char} {runs : List (List Char)} :
      (∀ c' ∈ c :: cs, c'.isAlphanum = true) → (∀ c' ∈ rest.head?, c'.isAlphanum = false) →
      AlphanumRuns rest runs → AlphanumRuns (c :: cs ++ rest) ((c :: cs) :: runs)

/-- A letter or digit in front starts a run of its own, or lengthens the one behind it. -/
theorem exists_alphanumRuns : ∀ cs : List Char, ∃ runs, AlphanumRuns cs runs
  | [] => ⟨[], .nil⟩
  | c :: cs => by
    obtain ⟨runs, hruns⟩ := exists_alphanumRuns cs
    by_cases hc : c.isAlphanum = true
    · have hsingle : ∀ c' ∈ [c], c'.isAlphanum = true := by simpa using hc
      cases hruns with
      | nil => exact ⟨[[c]], .run hsingle (by simp) .nil⟩
      | gap hgap hrest => exact ⟨[c] :: runs, .run hsingle (by simpa using hgap) (.gap hgap hrest)⟩
      | @run c' cs rest runs hrun hhead hrest =>
        exact ⟨(c :: c' :: cs) :: runs, .run (List.forall_mem_cons.2 ⟨hc, hrun⟩) hhead hrest⟩
    · exact ⟨runs, .gap (Bool.not_eq_true _ ▸ hc) hruns⟩

theorem capitalized_append {cs : List Char} (h : ∀ c ∈ cs, c.isAlphanum = true)
    (rest : List Char) : capitalized false (cs ++ rest) = cs ++ capitalized false rest := by
  induction cs with
  | nil => rfl
  | cons c cs ih =>
    obtain ⟨hc, hcs⟩ := List.forall_mem_cons.1 h
    simp [capitalized, hc, ih hcs]

theorem capitalized_false_eq_true {cs : List Char} (h : ∀ c ∈ cs.head?, c.isAlphanum = false) :
    capitalized false cs = capitalized true cs := by
  rcases cs with _ | ⟨c, cs⟩
  · rfl
  · simp [capitalized, h c rfl]

namespace AlphanumRuns

variable {cs : List Char} {runs : List (List Char)}

theorem capitalized_eq (h : AlphanumRuns cs runs) :
    capitalized true cs = (runs.map (List.modifyHead Char.toUpper)).flatten := by
  induction h with
  | nil => rfl
  | gap hc _ ih => simpa [capitalized, hc] using ih
  | run hrun hhead _ ih =>
    obtain ⟨hc, hcs⟩ := List.forall_mem_cons.1 hrun
    simp [capitalized, hc, capitalized_append hcs, capitalized_false_eq_true hhead, ih]

/-- The runs hold all letters and digits in their order. -/
theorem flatten_eq (h : AlphanumRuns cs runs) : runs.flatten = cs.filter Char.isAlphanum := by
  induction h with
  | nil => rfl
  | gap hc _ ih => rw [List.filter_cons_of_neg (by simp [hc]), ih]
  | run hrun _ _ ih => rw [List.filter_append, List.filter_eq_self.2 hrun, List.flatten_cons, ih]

end AlphanumRuns

/-! ## Stems -/

/-- Something is put in front of what does not start with a letter, and of nothing else. -/
theorem stemChars_eq (name : List Char) :
    stemChars name = (if (name.filter Char.isAlphanum).head?.any Char.isAlpha then []
      else "Node".toList) ++ capitalized true name := by
  have halpha : (name.filter Char.isAlphanum).head?.any Char.isAlpha =
      (capitalized true name).head?.any Char.isAlpha := by
    rw [head?_capitalized, Option.any_map]
    simp only [Char.isAlpha_toUpper_eq_isAlpha]
  rw [halpha, stemChars]
  rcases hcap : capitalized true name with _ | ⟨c, rest⟩
  · rfl
  · have hc : c.isAlphanum = true :=
      isAlphanum_of_mem_capitalized true name c (hcap ▸ List.mem_cons_self)
    rw [Char.isAlphanum] at hc
    by_cases hletter : c.isAlpha = true
    · simp [hletter, isDigit_eq_false_of_isAlpha hletter]
    · have hdigit : c.isDigit = true := by simpa [hletter] using hc
      simp [hletter, hdigit]

theorem capitalized_of_capital {c : Char} {cs : List Char} (hc : c.isUpper = true)
    (hcs : ∀ c' ∈ cs, c'.isAlphanum = true) : capitalized true (c :: cs) = c :: cs := by
  have hsame := capitalized_append hcs []
  have hrest : capitalized false cs = cs := by simpa [capitalized] using hsame
  have halphanum := isAlphanum_of_isUpper_or_isDigit (.inl hc)
  have hupper := Char.toUpper_eq_of_not_isLower (Char.not_isLower_of_isUpper hc)
  simp [capitalized, halphanum, hupper, hrest]

/-- A stem is its own stem. -/
theorem stemChars_stemChars (name : List Char) : stemChars (stemChars name) = stemChars name := by
  obtain ⟨c, rest, hstem, hc⟩ := stemChars_eq_cons name
  have hrest : ∀ c' ∈ rest, c'.isAlphanum = true := fun c' hc' =>
    isAlphanum_of_mem_stemChars (hstem ▸ List.mem_cons_of_mem c hc')
  have halpha : c.isAlpha = true := by simp [Char.isAlpha, hc]
  have halphanum := isAlphanum_of_isUpper_or_isDigit (.inl hc)
  rw [hstem, stemChars_eq, capitalized_of_capital hc hrest]
  simp [halphanum, halpha]

/-- A stem is a word of letters and digits that starts with a capital, and its own stem. It is made
of the letters and digits of the name in their order, of which the first of each run has become a
capital if it is a letter; and if the first of all is no letter, `Node` stands in front. -/
theorem stem_exact (name : String) :
    (∃ c rest, (stem name).toList = c :: rest ∧ c.isUpper = true) ∧
      (stem name).toList.all Char.isAlphanum = true ∧ stem (stem name) = stem name ∧
      ∃ runs, AlphanumRuns name.toList runs ∧
        runs.flatten = name.toList.filter Char.isAlphanum ∧
        (stem name).toList =
          (if (name.toList.filter Char.isAlphanum).head?.any Char.isAlpha then []
            else "Node".toList) ++ (runs.map (List.modifyHead Char.toUpper)).flatten := by
  obtain ⟨runs, hruns⟩ := exists_alphanumRuns name.toList
  have hstem : (stem name).toList = stemChars name.toList := String.toList_ofList
  rw [hstem]
  refine ⟨stemChars_eq_cons _, ?_, ?_, runs, hruns, hruns.flatten_eq, ?_⟩
  · exact List.all_eq_true.2 fun c hc => isAlphanum_of_mem_stemChars hc
  · rw [stem, hstem, stemChars_stemChars, stem]
  · rw [stemChars_eq, hruns.capitalized_eq]

example : stem "3d noise, in_X" = "Node3dNoiseInX" := by decide

end ShaderGraph.Glsl
