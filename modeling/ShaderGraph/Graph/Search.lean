/-!
# Depth-first search

`Search.visit` follows a successor function from a start. It lists what it finds in the order of
discovery and again in the order of completion, where a thing comes after everything that it leads
to, and it stops at the first cycle with the path around it.
-/

namespace ShaderGraph

structure Search (α : Type) where
  found : List α
  finished : List α

namespace Search

variable {α : Type}

def start : Search α := ⟨[], []⟩

/-- A way around a cycle, first and last the same, and what was found up to it. -/
structure Cycle (α : Type) where
  path : List α
  found : List α

variable [DecidableEq α] (next : α → List α)

/-- Visits `a`, to which `path` leads, the last step first. The depth bounds the length of paths:
a start with `n` things that lead on needs a depth of `n + 1`. -/
def visit : Nat → List α → α → Search α → Except (Cycle α) (Search α)
  | 0, _, _, s => .ok s
  | depth + 1, path, a, s =>
    if a ∈ path then .error ⟨a :: (path.takeWhile (· ≠ a)).reverse ++ [a], s.found⟩
    else if a ∈ s.found then .ok s
    else do
      let s ← (next a).foldlM (fun s b => visit depth (a :: path) b s) ⟨s.found ++ [a], s.finished⟩
      return ⟨s.found, s.finished ++ [a]⟩

def run (depth : Nat) (root : α) : Except (Cycle α) (Search α) := visit next depth [] root start

end Search

end ShaderGraph
