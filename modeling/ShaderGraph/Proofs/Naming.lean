import Mathlib
import ShaderGraph.Proofs.Discovery
import ShaderGraph.Shader.Emission

/-!
# Generated names

An identifier is a stem of letters and digits, an underscore and the digits of a number, so the
number and whatever follows can be told from it (`ident_append_inj`). No two names that are
generated for the nodes of a diagram clash, whatever the names of ports, outputs and uniforms are
(`Diagram.WellFormed.label_inj`).
-/

namespace ShaderGraph

/-! ## Stems -/

namespace Glsl

theorem isUpper_or_isDigit_toUpper {c : Char} (h : c.isAlphanum = true) :
    c.toUpper.isUpper = true ∨ c.toUpper.isDigit = true := by
  rcases Bool.or_eq_true _ _ ▸ h with ha | hd
  · left
    rw [Char.isUpper_toUpper_eq_isAlpha, ha]
  · right
    have hlower : ¬ c.isLower = true := by
      simp only [Char.isDigit, Char.isLower] at hd ⊢
      grind
    rw [Char.toUpper_eq_of_not_isLower hlower, hd]

theorem isAlphanum_of_isUpper_or_isDigit {c : Char} (h : c.isUpper = true ∨ c.isDigit = true) :
    c.isAlphanum = true := by
  unfold Char.isAlphanum Char.isAlpha
  rcases h with h | h <;> simp [h]

theorem isAlphanum_of_mem_capitalized : ∀ (start : Bool) (cs : List Char),
    ∀ c ∈ capitalized start cs, c.isAlphanum = true
  | _, [], _, hm => by
    unfold capitalized at hm
    cases hm
  | start, c :: cs, c', hm => by
    unfold capitalized at hm
    split_ifs at hm with hc hs
    · rcases List.mem_cons.1 hm with rfl | hm
      · exact isAlphanum_of_isUpper_or_isDigit (isUpper_or_isDigit_toUpper hc)
      · exact isAlphanum_of_mem_capitalized false cs c' hm
    · rcases List.mem_cons.1 hm with rfl | hm
      · exact hc
      · exact isAlphanum_of_mem_capitalized false cs c' hm
    · exact isAlphanum_of_mem_capitalized true cs c' hm

theorem head?_capitalized (cs : List Char) :
    (capitalized true cs).head? = (cs.filter Char.isAlphanum).head?.map Char.toUpper := by
  induction cs with
  | nil => rfl
  | cons c cs ih => by_cases hc : c.isAlphanum = true <;> simp [capitalized, hc, ih]

theorem head_capitalized {cs rest : List Char} {c : Char} (h : capitalized true cs = c :: rest) :
    c.isUpper = true ∨ c.isDigit = true := by
  have hhead := head?_capitalized cs
  rw [h, List.head?_cons, eq_comm, Option.map_eq_some_iff] at hhead
  obtain ⟨c', hc', rfl⟩ := hhead
  exact isUpper_or_isDigit_toUpper (List.mem_filter.1 (List.mem_of_mem_head? hc')).2

theorem isAlphanum_of_mem_stemChars {name : List Char} {c : Char} (h : c ∈ stemChars name) :
    c.isAlphanum = true := by
  have hnode : ∀ c ∈ "Node".toList, c.isAlphanum = true := List.all_eq_true.1 (by decide)
  have hcap := isAlphanum_of_mem_capitalized true name
  unfold stemChars at h
  split at h
  · exact hnode c h
  · rename_i c' rest hc
    rw [hc] at hcap
    split_ifs at h
    · rcases List.mem_append.1 h with h | h
      · exact hnode c h
      · exact hcap c h
    · exact hcap c h

/-- A stem starts with a capital letter. -/
theorem stemChars_eq_cons (name : List Char) :
    ∃ c rest, stemChars name = c :: rest ∧ c.isUpper = true := by
  unfold stemChars
  split
  · exact ⟨'N', _, rfl, rfl⟩
  · rename_i c rest h
    split_ifs with hd
    · exact ⟨'N', _, rfl, rfl⟩
    · exact ⟨c, rest, rfl, (head_capitalized h).resolve_right hd⟩

theorem underscore_notMem_stemChars (name : List Char) : '_' ∉ stemChars name := by
  intro h
  have := isAlphanum_of_mem_stemChars h
  revert this
  decide

end Glsl

/-! ## Identifiers -/

theorem append_cons_inj {α : Type} {c : α} : ∀ {a b x y : List α}, c ∉ a → c ∉ b →
    a ++ c :: x = b ++ c :: y → a = b ∧ x = y
  | [], [], _, _, _, _, h => ⟨rfl, by simpa using h⟩
  | [], _ :: _, _, _, _, hb, h => by
    simp only [List.nil_append, List.cons_append, List.cons.injEq] at h
    exact absurd (by simp [h.1]) hb
  | _ :: _, [], _, _, ha, _, h => by
    simp only [List.nil_append, List.cons_append, List.cons.injEq] at h
    exact absurd (by simp [h.1]) ha
  | _ :: a, _ :: b, _, _, ha, hb, h => by
    simp only [List.cons_append, List.cons.injEq] at h
    simp only [List.mem_cons, not_or] at ha hb
    obtain ⟨rfl, hx⟩ := append_cons_inj ha.2 hb.2 h.2
    exact ⟨by rw [h.1], hx⟩

theorem toList_ident (name : String) (n : Nat) :
    (ident name n).toList = Glsl.stemChars name.toList ++ '_' :: Nat.toDigits 10 n := by
  simp [ident, Glsl.stem, toString]

/-- The number of an identifier and the text after it can be told from both together. -/
theorem ident_append_inj {a b : String} {m n : Nat} {x y : List Char}
    (h : (ident a m).toList ++ '_' :: x = (ident b n).toList ++ '_' :: y) : m = n ∧ x = y := by
  simp only [toList_ident, List.append_assoc, List.cons_append] at h
  obtain ⟨-, h⟩ := append_cons_inj (Glsl.underscore_notMem_stemChars _)
    (Glsl.underscore_notMem_stemChars _) h
  obtain ⟨hdigits, hrest⟩ := append_cons_inj Nat.underscore_not_in_toDigits
    Nat.underscore_not_in_toDigits h
  refine ⟨?_, hrest⟩
  calc
    m = Nat.ofDigitChars 10 (Nat.toDigits 10 m) 0 := Nat.ofDigitChars_ten_toDigits.symm
    _ = Nat.ofDigitChars 10 (Nat.toDigits 10 n) 0 := by rw [hdigits]
    _ = n := Nat.ofDigitChars_ten_toDigits

/-! ## Labels -/

/-- What a name is generated for. -/
inductive Label where
  | input (port : String)
  | output (name : String)
  | varying (output : String)
  | uniform (name : String)
deriving DecidableEq

namespace Entry

/-- The name that is generated for a label. -/
def label (e : Entry) : Label → String
  | .input port => e.inputName port
  | .output name => e.outputName name
  | .varying output => e.varyingName output
  | .uniform name => s!"u_{e.ident}_{name}"

variable (e : Entry)

theorem toList_label_input (port : String) : (e.label (.input port)).toList =
    e.ident.toList ++ '_' :: 'i' :: 'n' :: '_' :: port.toList := by
  simp [label, inputName, toString]

theorem toList_label_output (name : String) : (e.label (.output name)).toList =
    e.ident.toList ++ '_' :: 'o' :: 'u' :: 't' :: '_' :: name.toList := by
  simp [label, outputName, toString]

theorem toList_label_varying (output : String) : (e.label (.varying output)).toList =
    'v' :: '_' :: (e.ident.toList ++ '_' :: output.toList) := by
  simp [label, varyingName, toString]

theorem toList_label_uniform (name : String) : (e.label (.uniform name)).toList =
    'u' :: '_' :: (e.ident.toList ++ '_' :: name.toList) := by
  simp [label, toString]

theorem underscore_mem_label (l : Label) : '_' ∈ (e.label l).toList := by
  cases l <;> simp [toList_label_input, toList_label_output, toList_label_varying,
    toList_label_uniform]

end Entry

namespace Diagram

/-- The names that are generated for different numbers or different labels differ. -/
theorem WellFormed.label_inj {d : Diagram} (hd : d.WellFormed) {i j : Nat}
    (hi : i < d.entries.length) (hj : j < d.entries.length) {l l' : Label}
    (h : (d.entry i).label l = (d.entry j).label l') : i = j ∧ l = l' := by
  have hcap : ∀ (c : Char) (name : String) (n : Nat) (x y : List Char), c.isUpper = false →
      c :: x ≠ (ident name n).toList ++ y := by
    intro c name n x y hc he
    obtain ⟨c', rest, hstem, hc'⟩ := Glsl.stemChars_eq_cons name.toList
    rw [toList_ident, hstem] at he
    simp only [List.cons_append, List.cons.injEq] at he
    rw [he.1, hc'] at hc
    cases hc
  have h := congrArg String.toList h
  cases l <;> cases l' <;>
    simp only [Entry.toList_label_input, Entry.toList_label_output, Entry.toList_label_varying,
      Entry.toList_label_uniform, hd.ident_eq i hi, hd.ident_eq j hj, List.cons.injEq,
      true_and, Char.reduceEq, false_and] at h
  case input.varying | input.uniform | output.varying | output.uniform =>
    exact absurd h.symm (hcap _ _ _ _ _ rfl)
  case varying.input | varying.output | uniform.input | uniform.output =>
    exact absurd h (hcap _ _ _ _ _ rfl)
  all_goals
    obtain ⟨hij, htail⟩ := ident_append_inj h
    simp only [List.cons.injEq, Char.reduceEq, true_and, false_and, String.toList_inj] at htail
  all_goals exact ⟨hij, congrArg _ htail⟩

end Diagram

/-- What a node has names for. -/
inductive Node.Names {ρ : Type} (n : Node ρ) : Label → Prop
  | input {port : String} : port ∈ n.inputs.keys → n.Names (.input port)
  | output {name : String} : name ∈ n.design.outputs.keys → n.Names (.output name)
  | varying {output : String} : output ∈ n.design.outputs.keys → n.Names (.varying output)
  | uniform {clock : Clock} : n.design.clock = some clock → n.Names (.uniform clock.uniform)

/-- A name is generated for a node of a diagram. -/
def Diagram.Generated (d : Diagram) (name : String) : Prop :=
  ∃ i < d.entries.length, ∃ l, (d.entry i).node.Names l ∧ name = (d.entry i).label l

theorem Diagram.Generated.underscore_mem {d : Diagram} {name : String} (h : d.Generated name) :
    '_' ∈ name.toList := by
  obtain ⟨i, -, l, -, rfl⟩ := h
  exact (d.entry i).underscore_mem_label l

end ShaderGraph
