import ShaderGraph.Proofs.Documents
import ShaderGraph.Proofs.FiniteSettings
import ShaderGraph.Settings.Text

/-!
# Settings read back

Each part of the settings spells itself, and so do the settings (`Settings.spells`). What passes
the checks of a load is therefore loaded from its own text (`Settings.ofText_of_checks`), and it is
the same as before unless it holds what is not a number (`Settings.survives_text`).
-/

namespace ShaderGraph

open Ron

theorem OutputFormat.spells (f : OutputFormat) : Spells readFormat (.plain f.name) f := by
  cases f
  · exact spells_oneOf (.of_letters rfl) rfl
  · exact spells_oneOf (.of_letters rfl) rfl

theorem Axis.spells (a : Axis) : Spells readAxis (.plain a.name) a := by
  cases a
  · exact spells_oneOf (.of_letters rfl) rfl
  · exact spells_oneOf (.of_letters rfl) rfl
  · exact spells_oneOf (.of_letters rfl) rfl
  · exact spells_oneOf (.of_letters rfl) rfl

theorem Rgb.spells (c : Rgb) : Spells readRgb c.document c := by
  have h := spells_tuple [c.red, c.green, c.blue] fun x _ => spells_single x
  refine ⟨h.opens, fun indent hindent rest hrest => ?_⟩
  exact (h.reads indent hindent rest hrest).bind (Parse.reads_pure _ _)

/-! ## Filters -/

/-- The field of a filter that is read. -/
def readFilterField (field : String) (f : FilterFields) : Parse FilterFields :=
  match field with
  | "axis" => return { f with axis := ← readAxis }
  | "frequency" => return { f with frequency := ← single }
  | _ => return { f with amplitude := ← single }

/-- The fields of a filter, all of which must be there. -/
def readFilterFields (e : Extensions) (budget : Nat) (known : List String) :
    Parse FilterFields := do
  skipBlanks
  let (f, seen) ← fields e budget known readFilterField ⟨.all, .zero, .zero⟩
  if known.all seen.contains then return f else failure

/-- What follows the name of a filter. -/
def readFilterOf (e : Extensions) (budget : Nat) : String → Parse FilterSettings
  | "Squeeze" => return .squeeze (← readFilterFields e budget ["frequency"]).frequency
  | "Scale" => do
    let f ← readFilterFields e budget ["axis", "frequency"]
    return .scale f.axis f.frequency
  | "Move" => do
    let f ← readFilterFields e budget ["axis", "frequency", "amplitude"]
    return .move f.axis f.frequency f.amplitude
  | _ => failure

theorem readFilter_eq (e : Extensions) (budget : Nat) :
    readFilter e budget = name true >>= readFilterOf e budget := rfl

section Filters

variable {e : Extensions} {budget : Nat} {known : List String} {entries : List (String × Document)}
  {f : FilterFields}

theorem reads_filterFields (h : Fills known readFilterField [] ⟨.all, .zero, .zero⟩ entries f)
    (hall : known.all (entries.map Prod.fst).reverse.contains = true) {indent : String}
    (hindent : Blanks indent.toList) (rest : List Char) : (readFilterFields e budget known).Reads
      ((Document.bracketed "(" ")" indent
        (Document.renderFields (indent ++ "    ") entries)).toList ++ rest) f rest := by
  refine (stops_bracketed _ _ _).solid.reads_skipBlanks.bind ?_
  refine (h.reads_fields hindent rest).bind ?_
  simp only
  rw [if_pos hall]
  exact Parse.reads_pure _ _

/-- A filter is read from its name and the fields of its kind. -/
theorem spells_filter (known : List String) (make : FilterFields → FilterSettings) {kind : String}
    (hkind : IsIdent kind.toList)
    (hread : readFilterOf e budget kind = do return make (← readFilterFields e budget known))
    (h : Fills known readFilterField [] ⟨.all, .zero, .zero⟩ entries f)
    (hall : known.all (entries.map Prod.fst).reverse.contains = true) :
    Spells (readFilter e budget) (.record kind entries) (make f) := by
  refine ⟨fun indent => ?_, fun indent hindent rest _ => ?_⟩
  · rw [Document.render, String.toList_append]
    exact hkind.opens.append _
  · rw [Document.render, String.toList_append, List.append_assoc, readFilter_eq]
    refine (reads_name hkind true (stops_bracketed _ _ _)).bind ?_
    rw [hread]
    exact (reads_filterFields h hall hindent rest).map make

end Filters

theorem FilterSettings.spells (e : Extensions) (budget : Nat) (f : FilterSettings) :
    Spells (readFilter e budget) f.document f := by
  cases f with
  | squeeze frequency =>
    refine spells_filter ["frequency"] (fun f => .squeeze f.frequency) (.of_letters rfl) rfl
      (f := ⟨.all, frequency, .zero⟩) ?_ rfl
    exact .cons (.of_letters rfl) (by decide) (by decide) ((spells_single frequency).map _) .nil
  | scale axis frequency =>
    refine spells_filter ["axis", "frequency"] (fun f => .scale f.axis f.frequency)
      (.of_letters rfl) rfl (f := ⟨axis, frequency, .zero⟩) ?_ rfl
    refine .cons (.of_letters rfl) (by decide) (by decide) (axis.spells.map _) ?_
    exact .cons (.of_letters rfl) (by decide) (by decide) ((spells_single frequency).map _) .nil
  | move axis frequency amplitude =>
    refine spells_filter ["axis", "frequency", "amplitude"]
      (fun f => .move f.axis f.frequency f.amplitude) (.of_letters rfl) rfl
      (f := ⟨axis, frequency, amplitude⟩) ?_ rfl
    refine .cons (.of_letters rfl) (by decide) (by decide) (axis.spells.map _) ?_
    refine .cons (.of_letters rfl) (by decide) (by decide) ((spells_single frequency).map _) ?_
    exact .cons (.of_letters rfl) (by decide) (by decide) ((spells_single amplitude).map _) .nil

theorem AnimationSettings.spells (e : Extensions) (budget : Nat) (a : AnimationSettings) :
    Spells (readAnimation e budget) a.document a := by
  refine Fills.spells_record ?_ (.of_letters rfl)
  refine .cons (.of_letters rfl) (by decide) (by decide)
    ((spells_list a.filters fun f _ => f.spells e _).map _) ?_
  refine .cons (.of_letters rfl) (by decide) (by decide)
    ((spells_option e a.sharedClock spells_string).map _) ?_
  exact .nil

theorem ColorSettings.spells (e : Extensions) (budget : Nat) (c : ColorSettings) :
    Spells (readColor e budget) c.document c := by
  refine Fills.spells_record ?_ (.of_letters rfl)
  refine .cons (.of_letters rfl) (by decide) (by decide) (c.baseColor.spells.map _) ?_
  refine .cons (.of_letters rfl) (by decide) (by decide) (c.highlight.spells.map _) ?_
  refine .cons (.of_letters rfl) (by decide) (by decide) ((spells_single c.mixAmount).map _) ?_
  refine .cons (.of_letters rfl) (by decide) (by decide) ((spells_single c.fresnelPower).map _) ?_
  exact .nil

theorem Settings.spells (e : Extensions) (s : Settings) : Spells (readSettings e) s.document s := by
  refine Fills.spells_record ?_ (.of_letters rfl)
  refine .cons (.of_letters rfl) (by decide) (by decide) ((spells_word32 s.version).map _) ?_
  refine .cons (.of_letters rfl) (by decide) (by decide) ((spells_word32 s.frames).map _) ?_
  refine .cons (.of_letters rfl) (by decide) (by decide) ((spells_double s.frameDelta).map _) ?_
  refine .cons (.of_letters rfl) (by decide) (by decide) (s.format.spells.map _) ?_
  refine .cons (.of_letters rfl) (by decide) (by decide) ((s.animation.spells e _).map _) ?_
  refine .cons (.of_letters rfl) (by decide) (by decide) ((s.color.spells e _).map _) ?_
  exact .nil

/-! ## The checks of a load -/

/-- Settings that pass the checks of a load are loaded from their own text, even if they hold what
is not a number. -/
theorem Settings.ofText_of_checks {s : Settings} (hversion : s.version ≤ currentVersion)
    (hfinite : s.frameDelta.isFinite = true) (hsign : s.frameDelta.belowZero = false) :
    ofText s.toText = .ok s := by
  rw [ofText, toText, document_render (s.spells .none)]
  simp only [UInt32.not_lt.2 hversion, hfinite, hsign, if_false, Bool.not_true, Bool.or_self,
    Bool.false_eq_true]

/-! ## What is the same as itself -/

/-- Whatever is a number is the same as itself. -/
theorem Binary.same_self {f : Format} {x : Binary f} (h : ∀ sign, x ≠ .nan sign) :
    x.same x = true := by
  rcases x with ⟨s, p⟩ | s | s
  · simp [same]
  · simp [same]
  · exact absurd rfl (h s)

theorem FilterSettings.same_self {f : FilterSettings}
    (h : ∀ x ∈ f.numbers, ∀ sign, x ≠ .nan sign) : f.same f = true := by
  have hsame : ∀ x ∈ f.numbers, x.same x = true := fun x hx => Binary.same_self (h x hx)
  cases f <;> simp_all [same, numbers]

theorem Rgb.same_self {c : Rgb} (h : ∀ x ∈ c.numbers, ∀ sign, x ≠ .nan sign) :
    c.same c = true := by
  have hsame : ∀ x ∈ c.numbers, x.same x = true := fun x hx => Binary.same_self (h x hx)
  simp_all [same, numbers]

theorem Settings.same_self {s : Settings} (hdelta : ∀ sign, s.frameDelta ≠ .nan sign)
    (h : ∀ x ∈ s.numbers, ∀ sign, x ≠ .nan sign) : s.same s = true := by
  simp only [numbers, List.forall_mem_append, List.forall_mem_flatMap, List.forall_mem_cons] at h
  obtain ⟨⟨⟨hfilters, hbase⟩, hhighlight⟩, hmix, hpower, -⟩ := h
  have hanimation : s.animation.same s.animation = true := by
    have hzip : s.animation.filters.zip s.animation.filters =
        s.animation.filters.map fun f => (f, f) := by
      have h := List.zip_map' (f := id) (g := id) (l := s.animation.filters)
      rwa [List.map_id] at h
    rw [AnimationSettings.same, hzip, List.all_map, Bool.and_eq_true, Bool.and_eq_true]
    refine ⟨⟨decide_eq_true rfl, List.all_eq_true.2 fun f hf => ?_⟩, decide_eq_true rfl⟩
    exact FilterSettings.same_self (hfilters f hf)
  have hcolor : s.color.same s.color = true := by
    simp [ColorSettings.same, Rgb.same_self hbase, Rgb.same_self hhighlight, Binary.same_self hmix,
      Binary.same_self hpower]
  simp [same, Binary.same_self hdelta, hanimation, hcolor]

/-- Settings survive being written and loaded again: those whose version is known, whose frames last
a finite time that is not negative, and which hold nothing that is not a number. -/
theorem Settings.survives_text (s : Settings) (hversion : s.version ≤ 1)
    (hfinite : s.frameDelta.isFinite = true) (hsign : s.frameDelta.belowZero = false)
    (hnumbers : ∀ x ∈ s.numbers, ∀ sign, x ≠ .nan sign) :
    ofText s.toText = .ok s ∧ s.same s = true := by
  have hdelta : ∀ sign, s.frameDelta ≠ .nan sign := by
    intro sign h
    rw [h] at hfinite
    cases hfinite
  exact ⟨ofText_of_checks hversion hfinite hsign, same_self hdelta hnumbers⟩

/-- Settings with a clock of quotes, blanks and marks, with infinities and with both zeros. -/
def extremes : Settings where
  version := 0
  frames := 4294967295
  frameDelta := .finite true ⟨0, by decide⟩
  format := .json
  animation := ⟨[.move .all (.infinite true) (.finite true ⟨0, by decide⟩),
    .squeeze (.infinite false), .scale .y (.finite false ⟨1, by decide⟩)],
    some "a\"\\'\n\x00 \u0301é"⟩
  color := ⟨.splat (.finite false ⟨0, by decide⟩), .splat (.infinite false), .infinite true,
    .finite true ⟨2139095039, by decide⟩⟩

theorem survives_text_extremes :
    Settings.ofText extremes.toText = .ok extremes ∧ extremes.same extremes = true :=
  extremes.survives_text (by decide) (by decide) (by decide) (by decide)

end ShaderGraph
