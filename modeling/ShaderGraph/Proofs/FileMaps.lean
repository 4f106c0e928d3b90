import Mathlib.Data.List.Basic
import Mathlib.Data.String.Basic
import Mathlib.Logic.Function.Basic
import ShaderGraph.CommandLine.Files

/-!
# Files as a map

A `FileMap` is a file system that keeps bytes at places, to which paths lead. What is written to a
new path (`FileMap.New`) is found there, and everything else stays. The files in and below a
directory are such a map (`Files.fileMap`), since a walk along a path takes no notice of a file that
is added (`Files.toOption_resolve_put`): a path is new if it leads to a name that the last directory
on the way does not have (`Files.new_path`).
-/

namespace ShaderGraph

/-- The text that a file holds. -/
def FileError.textOf (bytes : ByteArray) : Except FileError String :=
  match String.fromUTF8? bytes with
  | some text => .ok text
  | none => .error .notText

theorem FileError.textOf_toUTF8 (text : String) : textOf text.toUTF8 = .ok text := by
  have h : String.fromUTF8? text.toUTF8 = some text := by
    rw [String.fromUTF8?, String.toUTF8_eq_toByteArray, dif_pos text.isValidUTF8]
    rfl
  rw [textOf, h]

/-- A file system that keeps bytes at places. -/
structure FileMap (σ π : Type) where
  system : FileSystem (StateM σ)
  /-- The place that a path leads to, if it leads to one where a file can be. -/
  place : σ → String → Option π
  bytes : σ → π → Option ByteArray
  /-- Reading changes nothing, and fails if no file is there. -/
  read_eq : ∀ f path, ∃ e, (system.read path).run f =
    (((place f path).bind (bytes f)).elim (.error e) FileError.textOf, f)

namespace FileMap

variable {σ π : Type} [DecidableEq π]

/-- There is no file at the end of the path, but any text can be written there. -/
structure New (m : FileMap σ π) (f : σ) (path : String) (p : π) : Prop where
  leads : m.place f path = some p
  absent : m.bytes f p = none
  takes : ∀ text, ∃ f', (m.system.write path text).run f = (.ok (), f') ∧
    m.place f' = m.place f ∧ m.bytes f' = Function.update (m.bytes f) p (some text.toUTF8)

end FileMap

namespace Files

variable {f : Files} {names : List String} {bytes : ByteArray}

/-! ## An added file -/

/-- The files with one at a place below. -/
def put (f : Files) (names : List String) (bytes : ByteArray) : Files :=
  ⟨(names, .contents bytes) :: f.entries.filter (·.1 ≠ names)⟩

/-- Nothing is at a place, and all above it are directories. -/
structure Vacant (f : Files) (names : List String) : Prop where
  absent : f.get? (.below names) = none
  above : ∀ xs, xs <+: names → xs ≠ names → f.get? (.below xs) = some .directory

theorem Vacant.not_mem_entries (h : f.Vacant names) : ∀ entry ∈ f.entries, entry.1 ≠ names := by
  intro entry hentry heq
  have hfind : (f.entries.find? (·.1 = names)).isSome = true :=
    List.find?_isSome.2 ⟨entry, hentry, decide_eq_true heq⟩
  obtain ⟨found, hfound⟩ := Option.isSome_iff_exists.1 hfind
  have habsent := h.absent
  rw [get?, hfound] at habsent
  cases habsent

theorem Vacant.entries_put (h : f.Vacant names) :
    (f.put names bytes).entries = (names, .contents bytes) :: f.entries := by
  have hkept : f.entries.filter (·.1 ≠ names) = f.entries :=
    List.filter_eq_self.2 fun entry hentry => decide_eq_true (h.not_mem_entries entry hentry)
  rw [put, hkept]

theorem Vacant.get?_put (h : f.Vacant names) (p : Place) : (f.put names bytes).get? p =
    if p = .below names then some (.contents bytes) else f.get? p := by
  cases p with
  | above => rfl
  | elsewhere => rfl
  | below xs =>
    by_cases hxs : xs = names
    · rw [if_pos (congrArg _ hxs), get?, h.entries_put,
        List.find?_cons_of_pos (by simpa using hxs.symm)]
    · have hne : Place.below xs ≠ .below names := fun heq => hxs (Place.below.inj heq)
      rw [if_neg hne, get?, get?, h.entries_put,
        List.find?_cons_of_neg (by simpa using Ne.symm hxs)]
      cases hfind : f.entries.find? (·.1 = xs) with
      | some entry => rfl
      | none =>
        by_cases hprefix : xs <+: names
        · -- What is above the new file was there without it.
          have habove := h.above xs hprefix hxs
          rw [get?, hfind] at habove
          simp only [habove, List.any_cons, List.isPrefixOf_iff_prefix.2 hprefix, Bool.true_or,
            Bool.or_true, if_true]
        · have hno : xs.isPrefixOf names = false :=
            Bool.eq_false_iff.2 fun hp => hprefix (List.isPrefixOf_iff_prefix.1 hp)
          simp only [List.any_cons, hno, Bool.false_or]

/-- No path goes on from the place of the new file, neither with it nor without. -/
theorem Vacant.toOption_step_put (h : f.Vacant names) (p : Place) (part : String) :
    ((f.put names bytes).step p part).toOption = (f.step p part).toOption := by
  by_cases hp : p = .below names
  · subst hp
    rw [step, step, h.get?_put, if_pos rfl, h.absent]
    rfl
  · simp only [step, h.get?_put, if_neg hp]

theorem Vacant.toOption_walk_put (h : f.Vacant names) (parts : List String) (p : Place) :
    (parts.foldlM (f.put names bytes).step p).toOption = (parts.foldlM f.step p).toOption := by
  induction parts generalizing p with
  | nil => rfl
  | cons part rest ih =>
    have hstep : ((f.put names bytes).step p part).toOption = _ := h.toOption_step_put p part
    rw [List.foldlM_cons, List.foldlM_cons]
    rcases hnew : (f.put names bytes).step p part with e | q <;>
      rcases hold : f.step p part with e' | q' <;> rw [hnew, hold] at hstep
    · rfl
    · cases hstep
    · cases hstep
    · obtain rfl : q = q' := Option.some.inj hstep
      exact ih q

theorem Vacant.toOption_resolve_put (h : f.Vacant names) (path : String) (entered : Bool) :
    ((f.put names bytes).resolve path entered).toOption = (f.resolve path entered).toOption := by
  rw [resolve, resolve]
  by_cases hempty : path.isEmpty = true
  · rw [if_pos hempty, if_pos hempty]
  · rw [if_neg hempty, if_neg hempty]
    by_cases hlong : pathLimit < path.utf8ByteSize
    · rw [if_pos hlong, if_pos hlong]
    · rw [if_neg hlong, if_neg hlong]
      exact h.toOption_walk_put _ _

/-! ## Where a walk ends -/

/-- All that is above a place on a walk is a directory. -/
def Walked (f : Files) : Place → Prop
  | .below names => ∀ xs, xs <+: names → xs ≠ names → f.get? (.below xs) = some .directory
  | _ => True

theorem Walked.dropLast (h : f.Walked (.below names)) (hnames : names.isEmpty = false) :
    f.Walked (.below names.dropLast) := by
  intro xs hxs _
  have hpos : 0 < names.length := List.length_pos_iff.2 fun hnil => by simp [hnil] at hnames
  have hlength := hxs.length_le
  rw [List.length_dropLast] at hlength
  refine h xs (hxs.trans names.dropLast_prefix) fun heq => ?_
  rw [heq] at hlength
  omega

theorem Walked.concat (h : f.Walked (.below names))
    (hget : f.get? (.below names) = some .directory) (part : String) :
    f.Walked (.below (names ++ [part])) := by
  intro xs hxs hne
  rcases List.prefix_concat_iff.1 hxs with heq | hprefix
  · exact absurd heq hne
  · by_cases hnames : xs = names
    · rw [hnames, hget]
    · exact h xs hprefix hnames

theorem Walked.step {p q : Place} {part : String} (h : f.Walked p) (hstep : f.step p part = .ok q) :
    f.Walked q := by
  unfold Files.step at hstep
  rcases hget : f.get? p with _ | (_ | content) <;> simp only [hget] at hstep
  · cases hstep
  · split_ifs at hstep with hstay hup hlong
    · cases hstep
      exact h
    · cases p with
      | above => cases hstep; trivial
      | elsewhere => cases hstep; trivial
      | below names =>
        cases hstep
        split
        · trivial
        · exact h.dropLast (Bool.eq_false_iff.2 ‹_›)
    · cases p with
      | above => cases hstep; trivial
      | elsewhere => cases hstep; trivial
      | below names =>
        cases hstep
        exact h.concat hget part
  · cases hstep

theorem Walked.walk {parts : List String} {p q : Place} (h : f.Walked p)
    (hwalk : parts.foldlM f.step p = .ok q) : f.Walked q := by
  induction parts generalizing p with
  | nil =>
    cases hwalk
    exact h
  | cons part rest ih =>
    rw [List.foldlM_cons] at hwalk
    rcases hstep : f.step p part with e | r <;> rw [hstep] at hwalk
    · cases hwalk
    · exact ih (h.step hstep) hwalk

theorem vacant_of_resolve {path : String} {entered : Bool}
    (hresolve : f.resolve path entered = .ok (.below names))
    (habsent : f.get? (.below names) = none) : f.Vacant names := by
  have hstart : f.Walked (if path.startsWith "/" then .above else .below []) := by
    split
    · trivial
    · exact fun xs hxs hne => absurd (List.prefix_nil.1 hxs) hne
  rw [resolve] at hresolve
  split at hresolve
  · cases hresolve
  · split at hresolve
    · cases hresolve
    · exact ⟨habsent, hstart.walk hresolve⟩

/-! ## The map of the files -/

/-- The place of a file; what ends with a slash is no file. -/
def filePlace (f : Files) (path : String) : Option Place :=
  if path.endsWith "/" then none else (f.resolve path false).toOption

def bytesAt (f : Files) (p : Place) : Option ByteArray :=
  match f.get? p with
  | some (.contents bytes) => some bytes
  | _ => none

theorem read_of_resolve {path : String} {p : Place} (hresolve : f.resolve path false = .ok p) :
    f.read path = match f.get? p with
      | none => .error .notFound
      | some .directory => .error .isDirectory
      | some (.contents bytes) =>
        if path.endsWith "/" then .error .notDirectory else FileError.textOf bytes := by
  rw [read, hresolve]
  rfl

theorem read_eq (f : Files) (path : String) : ∃ e, f.read path =
    ((f.filePlace path).bind f.bytesAt).elim (.error e) FileError.textOf := by
  rw [filePlace]
  by_cases hslash : path.endsWith "/" = true
  · -- Such a path is refused whatever it leads to.
    rw [if_pos hslash]
    rcases hresolve : f.resolve path false with e | p
    · exact ⟨e, by rw [read, hresolve]; rfl⟩
    · simp only [read_of_resolve hresolve, if_pos hslash]
      rcases f.get? p with _ | (_ | content)
      · exact ⟨_, rfl⟩
      · exact ⟨_, rfl⟩
      · exact ⟨_, rfl⟩
  · rw [if_neg hslash]
    rcases hresolve : f.resolve path false with e | p
    · exact ⟨e, by rw [read, hresolve]; rfl⟩
    · simp only [read_of_resolve hresolve, if_neg hslash, Except.toOption, Option.bind_some,
        bytesAt]
      rcases f.get? p with _ | (_ | content)
      · exact ⟨_, rfl⟩
      · exact ⟨_, rfl⟩
      · exact ⟨.notFound, rfl⟩

def fileMap : FileMap Files Place where
  system := system
  place := filePlace
  bytes := bytesAt
  read_eq f path := by
    obtain ⟨e, he⟩ := f.read_eq path
    exact ⟨e, congrArg (·, f) he⟩

theorem write_eq {path : String} (hresolve : f.resolve path false = .ok (.below names))
    (habsent : f.get? (.below names) = none) (hslash : path.endsWith "/" = false) (text : String) :
    f.write path text = .ok (f.put names text.toUTF8) := by
  simp only [write, hslash, hresolve, bind, Except.bind, habsent]
  rfl

theorem system_write {g : Files} {path text : String} (h : f.write path text = .ok g) :
    (system.write path text).run f = (.ok (), g) := by
  simp only [system, StateT.run_bind, StateT.run_get, pure_bind, h]
  rfl

/-- A path is new if it leads to a name that is not there. -/
theorem new_path {path : String} (hresolve : f.resolve path false = .ok (.below names))
    (habsent : f.get? (.below names) = none) (hslash : path.endsWith "/" = false) :
    fileMap.New f path (.below names) := by
  have hvacant := vacant_of_resolve hresolve habsent
  refine ⟨?_, ?_, fun text => ⟨f.put names text.toUTF8, ?_, ?_, ?_⟩⟩
  · change f.filePlace path = _
    rw [filePlace, hslash, if_neg Bool.false_ne_true, hresolve]
    rfl
  · change f.bytesAt _ = _
    rw [bytesAt, habsent]
  · exact system_write (write_eq hresolve habsent hslash text)
  · funext q
    change (f.put names text.toUTF8).filePlace q = f.filePlace q
    rw [filePlace, filePlace, hvacant.toOption_resolve_put]
  · funext p
    change (f.put names text.toUTF8).bytesAt p = _
    rw [bytesAt, hvacant.get?_put, Function.update_apply]
    by_cases hp : p = .below names
    · rw [if_pos hp, if_pos hp]
    · rw [if_neg hp, if_neg hp]
      rfl

theorem parts_name {name : String} (hslash : '/' ∉ name.toList) : parts name = [name] := by
  have hsplit := List.splitOnP_eq_singleton (p := (· = '/')) fun c hc =>
    decide_eq_false fun heq => hslash (heq ▸ hc)
  rw [parts, String.splitToList_of_valid, hsplit]
  simp

/-- A name without slashes leads to the place of this name. -/
theorem resolve_name {name : String} (hslash : '/' ∉ name.toList) (hempty : name ≠ "")
    (hdot : name ≠ ".") (hdots : name ≠ "..") (hsize : name.utf8ByteSize ≤ nameLimit)
    (hroot : f.get? (.below []) = some .directory) :
    f.resolve name false = .ok (.below [name]) := by
  have hstart : name.startsWith "/" = false := by
    refine Bool.eq_false_iff.2 fun hstarts => ?_
    obtain ⟨rest, hrest⟩ : ['/'] <+: name.toList := by simpa using hstarts
    exact hslash (by rw [← hrest]; exact List.mem_cons_self)
  have hpath : ¬ pathLimit < name.utf8ByteSize := by
    have : nameLimit ≤ pathLimit := by decide
    omega
  rw [resolve, if_neg (by simpa using hempty), if_neg hpath, parts_name hslash]
  have hwalked : f.step (.below []) name = .ok (.below [name]) := by
    rw [step, hroot]
    simp only [hempty, hdot, hdots, or_self, if_false, not_lt.2 hsize, List.nil_append]
  simp [hstart, hempty, hwalked]

end Files

end ShaderGraph
