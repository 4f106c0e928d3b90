import Mathlib.Data.List.Basic
import Mathlib.Logic.Function.Basic
import ShaderGraph.Proofs.Declarations
import ShaderGraph.Proofs.Literals
import ShaderGraph.Proofs.Scanning

/-!
# Execution of statements

An evaluator gives expressions values in environments, which give names values. Declarations and
assignments then change an environment one after the other. When no name is written twice, a
variable keeps the value that it is declared with (`run_of_write`), so what is evaluated behind a
declaration can be evaluated at the end as well (`run_eq_of_targets`).
-/

namespace ShaderGraph

/-- A way to evaluate the text of an expression. -/
structure Evaluator (V : Type) where
  eval : (String → V) → String → V
  /-- A vector with a number of components that are all the same. -/
  splat : Nat → V → V

variable {V : Type}

/-- What a single number is when it is widened as `Glsl.widen` writes it. -/
def Evaluator.converted (E : Evaluator V) (source target : Kind) (x : V) : V :=
  if source = .float ∧ target ≠ .float then E.splat target.components x else x

namespace Diagram

variable (d : Diagram)

/-- Texts that can be widened: generated names and the numbers that inputs hold. -/
inductive Atom : String → Prop
  | name {name : String} : d.Generated name → Atom name
  | number {i : Nat} {name : String} {port : Port Nat} {v : Value} :
    i < d.entries.length → (name, port) ∈ (d.entry i).node.inputs.entries →
    port.source = some (.literal v) → v.kind = .float → Atom v.toGlsl

/-- Texts that are put in the places of words: generated names, widened or not. -/
inductive Readable : String → Prop
  | name {name : String} : d.Generated name → Readable name
  | widened {name : String} {kind : Kind} : d.Generated name → kind ≠ .float →
    Readable (kind.type ++ "(" ++ name ++ ")")

end Diagram

theorem Diagram.Generated.readable {d : Diagram} {name : String} (h : d.Generated name)
    (source target : Kind) : d.Readable (Glsl.widen name source target) := by
  unfold Glsl.widen
  split_ifs with hw
  · exact .widened h hw.2
  · exact .name h

/-- What an evaluator has to respect of the language for the code of a diagram. -/
structure Evaluator.Lawful (E : Evaluator V) (d : Diagram) : Prop where
  /-- Only the words of a text matter for its value. -/
  congr {ρ σ : String → V} {code : String} (h : ∀ word ∈ Glsl.words code, ρ word = σ word) :
    E.eval ρ code = E.eval σ code
  /-- A variable has the value of its name. -/
  name {name : String} (h : d.Generated name) (ρ : String → V) : E.eval ρ name = ρ name
  widen {expr : String} (h : d.Atom expr) {kind : Kind} (hkind : kind ≠ .float)
    (ρ : String → V) :
    E.eval ρ (kind.type ++ "(" ++ expr ++ ")") = E.splat kind.components (E.eval ρ expr)
  /-- Replaced words have the values of what they are replaced by. -/
  replace {rename : String → Except CompileError (Option String)} {code text : String}
    (h : ∀ word answer, rename word = .ok (some answer) →
      Reference.ofWord word ≠ .ambient ∧ d.Readable answer)
    (htext : Glsl.replaceWords rename code = .ok text) (ρ : String → V) :
    E.eval ρ text = E.eval (fun word => match rename word with
      | .ok (some answer) => E.eval ρ answer
      | _ => ρ word) code

namespace Evaluator.Lawful

variable {E : Evaluator V} {d : Diagram} (hE : E.Lawful d)
include hE

theorem eval_widen {name : String} (h : d.Generated name) (source target : Kind)
    (ρ : String → V) :
    E.eval ρ (Glsl.widen name source target) = E.converted source target (ρ name) := by
  unfold Glsl.widen converted
  split_ifs with hw
  · rw [hE.widen (.name h) hw.2, hE.name h]
  · exact hE.name h ρ

/-- An expression that mentions no generated name has one value in all environments that differ
in generated names only. -/
theorem eval_plain {code : String} (h : ∀ word ∈ Glsl.words code, ¬ d.Generated word)
    {ρ σ : String → V} (hρ : ∀ name, ¬ d.Generated name → ρ name = σ name) :
    E.eval ρ code = E.eval σ code :=
  hE.congr fun word hword => hρ word (h word hword)

theorem eval_literal {i : Nat} (hi : i < d.entries.length) {name : String} {port : Port Nat}
    (hm : (name, port) ∈ (d.entry i).node.inputs.entries) {v : Value}
    (hs : port.source = some (.literal v)) {ρ σ : String → V}
    (hρ : ∀ name, ¬ d.Generated name → ρ name = σ name) :
    E.eval ρ (Glsl.widen v.toGlsl v.kind port.kind) =
      E.converted v.kind port.kind (E.eval σ v.toGlsl) := by
  have hplain : E.eval ρ v.toGlsl = E.eval σ v.toGlsl := by
    refine hE.eval_plain (fun word hword hgen => ?_) hρ
    exact v.underscore_notMem_toGlsl (Glsl.mem_of_mem_words hword hgen.underscore_mem)
  unfold Glsl.widen converted
  split_ifs with hw
  · rw [hE.widen (.number hi hm hs hw.1) hw.2, hplain]
  · exact hplain

theorem eval_zero (kind : Kind) {ρ σ : String → V}
    (hρ : ∀ name, ¬ d.Generated name → ρ name = σ name) :
    E.eval ρ kind.zero = E.eval σ kind.zero := by
  refine hE.eval_plain (fun word hword hgen => ?_) hρ
  exact kind.underscore_notMem_zero (Glsl.mem_of_mem_words hword hgen.underscore_mem)

end Evaluator.Lawful

namespace Evaluator

variable (E : Evaluator V)

/-- The environment after a statement. The code of blocks is not run. -/
def exec (ρ : String → V) : Statement → String → V
  | .declare _ name expr | .assign name expr => Function.update ρ name (E.eval ρ expr)
  | .comment _ | .block _ => ρ

/-- The environment after all statements in order. -/
def run (ρ : String → V) (l : List Statement) : String → V := l.foldl E.exec ρ

end Evaluator

namespace Evaluator

variable {E : Evaluator V} {ρ : String → V}

theorem exec_of_ne {st : Statement} {name : String} (h : st.target? ≠ some name) :
    E.exec ρ st name = ρ name := by
  cases st with
  | comment text => rfl
  | block code => rfl
  | declare type target expr =>
    exact Function.update_of_ne (fun he => h (by rw [he]; rfl)) _ _
  | assign target expr => exact Function.update_of_ne (fun he => h (by rw [he]; rfl)) _ _

theorem run_append (l l' : List Statement) : E.run ρ (l ++ l') = E.run (E.run ρ l) l' :=
  List.foldl_append

theorem run_of_notMem : ∀ {l : List Statement} {ρ : String → V} {name : String},
    name ∉ targets l → E.run ρ l name = ρ name
  | [], _, _, _ => rfl
  | st :: l, ρ, name, h => by
    have hst : st.target? ≠ some name := by
      intro he
      exact h (List.mem_filterMap.2 ⟨st, by simp, he⟩)
    have hl : name ∉ targets l := by
      intro hm
      obtain ⟨st', hst', he⟩ := List.mem_filterMap.1 hm
      exact h (List.mem_filterMap.2 ⟨st', by simp [hst'], he⟩)
    calc
      E.run ρ (st :: l) name = E.run (E.exec ρ st) l name := rfl
      _ = E.exec ρ st name := run_of_notMem hl
      _ = ρ name := exec_of_ne hst

/-- A name that is written in front has its value there already. -/
theorem run_eq_of_targets {l l₁ l₂ : List Statement} (hl : l = l₁ ++ l₂) (hnd : (targets l).Nodup)
    {name : String} (h : name ∈ targets l₁ ∨ name ∉ targets l) :
    E.run ρ l₁ name = E.run ρ l name := by
  have hrest : name ∉ targets l₂ := by
    rw [hl, targets_append] at hnd h
    rcases h with h | h
    · exact fun h' => (List.nodup_append.1 hnd).2.2 name h name h' rfl
    · exact fun h' => h (List.mem_append_right _ h')
  rw [hl, run_append, run_of_notMem hrest]

/-- A name that is written once has the value of its expression at the end. -/
theorem run_of_write {l l₁ l₂ : List Statement} {st : Statement} {name expr : String}
    (hl : l = l₁ ++ st :: l₂) (hst : ∀ ρ, E.exec ρ st = Function.update ρ name (E.eval ρ expr))
    (htarget : st.target? = some name) (hnd : (targets l).Nodup) :
    E.run ρ l name = E.eval (E.run ρ l₁) expr := by
  have hrest : name ∉ targets l₂ := by
    have : targets (st :: l₂) = name :: targets l₂ := by
      simp only [targets, List.filterMap_cons, htarget]
    rw [hl, targets_append, this] at hnd
    exact (List.nodup_cons.1 (List.nodup_append.1 hnd).2.1).1
  calc
    E.run ρ l name = E.run (E.exec (E.run ρ l₁) st) l₂ name := by
      rw [hl, run_append]
      rfl
    _ = E.exec (E.run ρ l₁) st name := run_of_notMem hrest
    _ = E.eval (E.run ρ l₁) expr := by rw [hst, Function.update_self]

/-- A variable that is declared has the value of its initializer at the end. -/
theorem run_of_mem_declare {l : List Statement} (hnd : (targets l).Nodup)
    {type name expr : String} (h : .declare type name expr ∈ l) (ρ : String → V) :
    ∃ l₁ l₂, l = l₁ ++ l₂ ∧ E.run ρ l name = E.eval (E.run ρ l₁) expr := by
  obtain ⟨l₁, l₂, hl⟩ := List.append_of_mem h
  exact ⟨l₁, _, hl, run_of_write hl (fun _ => rfl) rfl hnd⟩

end Evaluator

end ShaderGraph
