import ShaderGraph.CommandLine.Args

/-!
# Lists of arguments

Arguments are options one after another (`Args.Options`) up to the first place where none can be
read (`Args.Stuck`), and this decides what a list of them gives (`Args.parse_eq_ok_iff`,
`Args.parse_eq_error_iff`). Options that come later lie over the earlier ones. So a list can be read
in two parts, as long as the first one does not end between an option and its value
(`Args.parse_composes`).
-/

namespace ShaderGraph

namespace Args

/-! ## Options that come later -/

/-- The arguments `a` with everything over them that is given in `b`. -/
def overlay (a b : Args) : Args where
  config := b.config.or a.config
  format := b.format.or a.format
  frames := b.frames.or a.frames
  writeConfig := b.writeConfig.or a.writeConfig
  listNodes := b.listNodes || a.listNodes
  help := b.help || a.help

theorem empty_overlay (a : Args) : empty.overlay a = a := by
  simp [overlay, empty]

theorem overlay_assoc (a b c : Args) : (a.overlay b).overlay c = a.overlay (b.overlay c) := by
  simp [overlay, Option.or_assoc, Bool.or_assoc]

/-! ## Options as they are written -/

/-- The arguments that make up an option, and what it gives. -/
inductive Written : List String → Args → Prop
  | config (path : String) : Written ["--config", path] { empty with config := some path }
  | format {value : String} {f : OutputFormat} : OutputFormat.ofName? value = some f →
      Written ["--format", value] { empty with format := some f }
  | frames {value : String} {n : UInt32} : frames? value = some n →
      Written ["--frames", value] { empty with frames := some n }
  | writeConfig (path : String) :
      Written ["--write-config", path] { empty with writeConfig := some path }
  | listNodes : Written ["--list-nodes"] { empty with listNodes := true }
  | help {flag : String} : flag = "-h" ∨ flag = "--help" →
      Written [flag] { empty with help := true }

/-- Options one after another. -/
inductive Options : List String → Args → Prop
  | nil : Options [] empty
  | cons {option rest : List String} {x y : Args} : Written option x → Options rest y →
      Options (option ++ rest) (x.overlay y)

/-- Arguments of which no option can be read, and what is wrong with them. -/
inductive Stuck : List String → ArgsError → Prop
  | unknown {arg : String} (rest : List String) : takesValue arg = false →
      arg ∉ ["--list-nodes", "-h", "--help"] → Stuck (arg :: rest) (.unknown arg)
  | missingValue {flag : String} : takesValue flag = true → Stuck [flag] (.missingValue flag)
  | format {value : String} (rest : List String) : OutputFormat.ofName? value = none →
      Stuck ("--format" :: value :: rest) (.invalidFormat value)
  | frames {value : String} (rest : List String) : frames? value = none →
      Stuck ("--frames" :: value :: rest) (.invalidFrames value)

variable {args option : List String} {x : Args} {e : ArgsError} {flag : String}

theorem takesValue_iff : takesValue flag = true ↔
    flag = "--config" ∨ flag = "--format" ∨ flag = "--frames" ∨ flag = "--write-config" := by
  simp [takesValue]

/-- The first argument decides which option is to be read, and the second one whether it can be. -/
theorem written_or_stuck (args : List String) :
    args = [] ∨ (∃ option x rest, Written option x ∧ args = option ++ rest) ∨
      ∃ e, Stuck args e := by
  rcases args with _ | ⟨flag, rest⟩
  · exact .inl rfl
  refine .inr ?_
  by_cases hvalue : takesValue flag = true
  · rcases rest with _ | ⟨value, rest⟩
    · exact .inr ⟨_, .missingValue hvalue⟩
    -- a path is any text, a format and a number are read
    obtain rfl | rfl | rfl | rfl := takesValue_iff.1 hvalue
    · exact .inl ⟨_, _, rest, .config value, rfl⟩
    · rcases hformat : OutputFormat.ofName? value with _ | f
      · exact .inr ⟨_, .format rest hformat⟩
      · exact .inl ⟨_, _, rest, .format hformat, rfl⟩
    · rcases hframes : frames? value with _ | n
      · exact .inr ⟨_, .frames rest hframes⟩
      · exact .inl ⟨_, _, rest, .frames hframes, rfl⟩
    · exact .inl ⟨_, _, rest, .writeConfig value, rfl⟩
  · by_cases hswitch : flag ∈ ["--list-nodes", "-h", "--help"]
    · simp only [List.mem_cons, List.not_mem_nil, or_false] at hswitch
      obtain rfl | hhelp := hswitch
      · exact .inl ⟨_, _, rest, .listNodes, rfl⟩
      · exact .inl ⟨_, _, rest, .help hhelp, rfl⟩
    · exact .inr ⟨_, .unknown rest (Bool.not_eq_true _ ▸ hvalue) hswitch⟩

theorem Written.length_pos (h : Written option x) : 0 < option.length := by
  cases h <;> simp

/-- Arguments are options up to where they end, or where no option can be read. -/
theorem exists_options (args : List String) : ∃ before x rest, Options before x ∧
    args = before ++ rest ∧ (rest = [] ∨ ∃ e, Stuck rest e) := by
  obtain rfl | ⟨option, x, rest, hwritten, rfl⟩ | hstuck := written_or_stuck args
  · exact ⟨[], empty, [], .nil, rfl, .inl rfl⟩
  · obtain ⟨before, y, after, hoptions, rfl, hend⟩ := exists_options rest
    exact ⟨option ++ before, x.overlay y, after, .cons hwritten hoptions,
      (List.append_assoc _ _ _).symm, hend⟩
  · exact ⟨[], empty, args, .nil, rfl, .inr hstuck⟩
termination_by args.length
decreasing_by
  have := hwritten.length_pos
  simp_all only [List.length_append]
  omega

/-! ## What is read -/

/-- One option is read: it lies over what was there. -/
theorem Written.extend (h : Written option x) (a : Args) (rest : List String) :
    a.extend (option ++ rest) = (a.overlay x).extend rest := by
  cases h with
  | config path => rfl
  | format hformat => simp [Args.extend, takesValue, withValue, hformat, overlay, empty]
  | frames hframes => simp [Args.extend, takesValue, withValue, hframes, overlay, empty]
  | writeConfig path => rfl
  -- a last argument is read by an equation of its own
  | listNodes => cases rest <;> rfl
  | help hflag => obtain rfl | rfl := hflag <;> cases rest <;> rfl

/-- All options are read. -/
theorem Options.extend (h : Options args x) (a : Args) (rest : List String) :
    a.extend (args ++ rest) = (a.overlay x).extend rest := by
  induction h generalizing a with
  | nil => rfl
  | cons hwritten _ ih => rw [List.append_assoc, hwritten.extend, ih, overlay_assoc]

theorem Stuck.extend (h : Stuck args e) (a : Args) : a.extend args = .error e := by
  cases h with
  | unknown rest hvalue hswitch =>
    simp only [List.mem_cons, List.not_mem_nil, or_false, not_or] at hswitch
    cases rest <;> simp [Args.extend, hvalue, withSwitch?, hswitch]
  | missingValue hvalue => simp [Args.extend, hvalue]
  | format rest hformat => simp [Args.extend, takesValue, withValue, hformat]
  | frames rest hframes => simp [Args.extend, takesValue, withValue, hframes]

/-- Arguments are read iff they are options. -/
theorem parse_eq_ok_iff : parse args = .ok x ↔ Options args x := by
  constructor
  · intro h
    obtain ⟨before, y, rest, hoptions, rfl, rfl | ⟨e, hstuck⟩⟩ := exists_options args
    · rw [parse, hoptions.extend, empty_overlay] at h
      cases h
      rwa [List.append_nil]
    · rw [parse, hoptions.extend, hstuck.extend] at h
      cases h
  · intro h
    have hread := h.extend empty []
    rwa [List.append_nil, empty_overlay] at hread

/-- They fail with what is wrong behind the first options. -/
theorem parse_eq_error_iff : parse args = .error e ↔
    ∃ before x rest, Options before x ∧ args = before ++ rest ∧ Stuck rest e := by
  constructor
  · intro h
    obtain ⟨before, y, rest, hoptions, rfl, rfl | ⟨e', hstuck⟩⟩ := exists_options args
    · rw [parse, hoptions.extend] at h
      cases h
    · rw [parse, hoptions.extend, hstuck.extend] at h
      cases h
      exact ⟨before, y, rest, hoptions, rfl, hstuck⟩
  · rintro ⟨before, y, rest, hoptions, rfl, hstuck⟩
    rw [parse, hoptions.extend, hstuck.extend]

/-- What was read before only lies under what is read. -/
theorem extend_eq_map (a : Args) (args : List String) :
    a.extend args = (parse args).map a.overlay := by
  obtain ⟨before, y, rest, hoptions, rfl, rfl | ⟨e, hstuck⟩⟩ := exists_options args
  · rw [parse, hoptions.extend, hoptions.extend, empty_overlay]
    rfl
  · rw [parse, hoptions.extend, hoptions.extend, hstuck.extend, hstuck.extend]
    rfl

/-! ## Lists in two parts -/

theorem parse_append (h : parse args = .ok x) (more : List String) :
    parse (args ++ more) = x.extend more := by
  rw [parse, (parse_eq_ok_iff.1 h).extend, empty_overlay]

/-- More arguments can only help where a value is missing. -/
theorem Stuck.append (h : Stuck args e) (he : ∀ flag, e ≠ .missingValue flag)
    (more : List String) : Stuck (args ++ more) e := by
  cases h with
  | unknown rest hvalue hswitch => exact .unknown (rest ++ more) hvalue hswitch
  | missingValue => exact absurd rfl (he _)
  | format rest hformat => exact .format (rest ++ more) hformat
  | frames rest hframes => exact .frames (rest ++ more) hframes

/-- Two lists of arguments one after the other. If the first one is read, so is the second one, as
if it stood alone: it fails as it does alone, or what it gives lies over the first. If the first one
fails, both fail like that, unless a value is missing; and this says that it ends with an option
that takes a value, where everything before it is options. -/
theorem parse_composes (args more : List String) :
    (∀ x, parse args = .ok x → parse (args ++ more) = (parse more).map x.overlay) ∧
      (∀ e, parse args = .error e → (∀ flag, e ≠ .missingValue flag) →
        parse (args ++ more) = .error e) ∧
      ∀ flag, parse args = .error (.missingValue flag) ↔
        takesValue flag = true ∧ ∃ before x, Options before x ∧ args = before ++ [flag] := by
  refine ⟨fun x h => ?_, fun e h he => ?_, fun flag => ⟨fun h => ?_, ?_⟩⟩
  · rw [parse_append h, extend_eq_map]
  · obtain ⟨before, x, rest, hoptions, rfl, hstuck⟩ := parse_eq_error_iff.1 h
    exact parse_eq_error_iff.2 ⟨before, x, rest ++ more, hoptions, List.append_assoc _ _ _,
      hstuck.append he more⟩
  · obtain ⟨before, x, rest, hoptions, rfl, hstuck⟩ := parse_eq_error_iff.1 h
    cases hstuck with
    | missingValue hflag => exact ⟨hflag, before, x, hoptions, rfl⟩
  · rintro ⟨hflag, before, x, hoptions, rfl⟩
    exact parse_eq_error_iff.2 ⟨before, x, [flag], hoptions, rfl, .missingValue hflag⟩

/-- A value that looks like an option, options that are given again, and a value that is missing. -/
theorem parse_composes_repeated :
    parse (["--frames", "3", "--help"] ++ ["--config", "--help", "--frames", "+7"]) =
        .ok ⟨some "--help", none, some 7, none, false, true⟩ ∧
      parse (["--help", "--frames", "-2"] ++ ["--verbose"]) = .error (.invalidFrames "-2") ∧
      parse ["--config", "--frames", "--frames"] = .error (.missingValue "--frames") := by
  have hread : parse ["--frames", "3", "--help"] =
      .ok ⟨none, none, some 3, none, false, true⟩ := rfl
  have hmore : parse ["--config", "--help", "--frames", "+7"] =
      .ok ⟨some "--help", none, some 7, none, false, false⟩ := rfl
  have hfails : parse ["--help", "--frames", "-2"] = .error (.invalidFrames "-2") := rfl
  refine ⟨?_, ?_, ?_⟩
  · rw [(parse_composes _ _).1 _ hread, hmore]
    rfl
  · exact (parse_composes _ _).2.1 _ hfails nofun
  · exact ((parse_composes _ []).2.2 _).2
      ⟨by decide, ["--config", "--frames"], _, .cons (.config "--frames") .nil, rfl⟩

end Args

end ShaderGraph
