import ShaderGraph.CommandLine.Run
import ShaderGraph.Proofs.ArgumentLists
import ShaderGraph.Proofs.FileMaps
import ShaderGraph.Proofs.RoundTrip

/-!
# Saved settings

Loaded settings still pass the checks of a load when arguments override them
(`Program.valid_override`), so they are the same when they have been saved and are loaded again, and
give the same run (`Program.saved_settings_reproduce`). No file but theirs has changed.
-/

namespace ShaderGraph

/-! ## Added arguments -/

theorem Args.parse_writeConfig {args : List String} {a : Args} (h : parse args = .ok a)
    (path : String) :
    parse (args ++ ["--write-config", path]) = .ok { a with writeConfig := some path } := by
  rw [parse_append h]
  rfl

theorem Args.parse_config (path : String) :
    parse ["--config", path] = .ok ⟨some path, none, none, none, false, false⟩ := rfl

/-! ## Settings that pass the checks -/

/-- What a load asks of settings. -/
structure Settings.Valid (s : Settings) : Prop where
  version : s.version ≤ currentVersion
  finite : s.frameDelta.isFinite = true
  not_negative : s.frameDelta.belowZero = false

theorem Settings.valid_standard : standard.Valid :=
  ⟨by decide +kernel, by decide +kernel, by decide +kernel⟩

theorem Settings.valid_of_ofText {text : String} {s : Settings} (h : ofText text = .ok s) :
    s.Valid := by
  rw [ofText] at h
  split at h
  · cases h
  · split_ifs at h with hversion hdelta
    cases h
    rw [Bool.or_eq_true, not_or, Bool.not_eq_true, Bool.not_eq_true, Bool.not_eq_false'] at hdelta
    exact ⟨UInt32.not_lt.1 hversion, hdelta.1, hdelta.2⟩

namespace Program

theorem valid_override {s : Settings} (h : s.Valid) (a : Args) : (override a s).Valid :=
  ⟨h.version, h.finite, h.not_negative⟩

/-- The settings that the bytes of a file hold. -/
def settingsOf (bytes : ByteArray) : Except ProgramError Settings :=
  match FileError.textOf bytes with
  | .error e => .error (.file e)
  | .ok text => (Settings.ofText text).mapError .settings

theorem settingsOf_toText {s : Settings} (h : s.Valid) : settingsOf s.toText.toUTF8 = .ok s := by
  rw [settingsOf, FileError.textOf_toUTF8]
  simp only [Settings.ofText_of_checks h.version h.finite h.not_negative]
  rfl

theorem valid_of_settingsOf {bytes : ByteArray} {s : Settings} (h : settingsOf bytes = .ok s) :
    s.Valid := by
  rw [settingsOf] at h
  split at h
  · cases h
  · rename_i text _
    rcases htext : Settings.ofText text with e | t <;> rw [htext] at h
    · cases h
    · cases h
      exact Settings.valid_of_ofText htext

/-! ## Runs on a map of files -/

section

variable {σ π : Type} {m : FileMap σ π} {f f' : σ} {a : Args} {args : List String}
  {settings : Settings}

theorem load_held {path : String} {b : ByteArray}
    (hheld : (m.place f path).bind (m.bytes f) = some b) :
    (load m.system (some path)).run f = (settingsOf b, f) := by
  obtain ⟨e, hread⟩ := m.read_eq f path
  rw [hheld] at hread
  rw [load, StateT.run_bind, hread, settingsOf]
  cases hb : FileError.textOf b <;> simp [hb] <;> rfl

/-- What is loaded was standard, or a file holds it. -/
theorem held_of_load {config : Option String}
    (hload : ((load m.system config).run f).1 = .ok settings) :
    (config = none ∧ settings = .standard) ∨ ∃ path b, config = some path ∧
      (m.place f path).bind (m.bytes f) = some b ∧ settingsOf b = .ok settings := by
  cases config with
  | none =>
    cases hload
    exact .inl ⟨rfl, rfl⟩
  | some path =>
    rcases hheld : (m.place f path).bind (m.bytes f) with _ | b
    · obtain ⟨e, hread⟩ := m.read_eq f path
      rw [hheld] at hread
      rw [load, StateT.run_bind, hread] at hload
      cases hload
    · rw [load_held hheld] at hload
      exact .inr ⟨path, b, rfl, hheld, hload⟩

theorem valid_of_load {config : Option String}
    (hload : ((load m.system config).run f).1 = .ok settings) : settings.Valid := by
  obtain ⟨-, rfl⟩ | ⟨path, b, -, -, hb⟩ := held_of_load hload
  · exact Settings.valid_standard
  · exact valid_of_settingsOf hb

/-- Settings that were loaded are loaded again as long as their file stays. -/
theorem load_kept {config : Option String}
    (hload : ((load m.system config).run f).1 = .ok settings) (hplace : m.place f' = m.place f)
    (hbytes : ∀ p b, m.bytes f p = some b → m.bytes f' p = some b) :
    (load m.system config).run f' = (.ok settings, f') := by
  obtain ⟨rfl, rfl⟩ | ⟨path, b, rfl, hheld, hb⟩ := held_of_load hload
  · rfl
  · obtain ⟨p, hp, hpb⟩ := Option.bind_eq_some_iff.1 hheld
    have hheld' : (m.place f' path).bind (m.bytes f') = some b := by
      rw [hplace, hp]
      exact hbytes p b hpb
    rw [load_held hheld', hb]

/-- A run that only reports depends on the loaded settings and changes nothing. -/
theorem run_report (hargs : Args.parse args = .ok a) (hhelp : a.help = false)
    (hlist : a.listNodes = false) (hwrite : a.writeConfig = none)
    (hload : (load m.system a.config).run f = (.ok settings, f)) :
    (run m.system args).run f = (report (override a settings), f) := by
  rw [run, hargs]
  simp only [hhelp, hlist, hwrite, Bool.false_eq_true, if_false]
  rw [StateT.run_bind, hload]
  rfl

/-- A run that writes settings writes what it would report about. -/
theorem run_write {path : String} (hargs : Args.parse args = .ok a) (hhelp : a.help = false)
    (hlist : a.listNodes = false) (hpath : a.writeConfig = some path)
    (hload : (load m.system a.config).run f = (.ok settings, f))
    (htakes : (m.system.write path (override a settings).toText).run f = (.ok (), f')) :
    (run m.system args).run f = (.ok "", f') := by
  rw [run, hargs]
  simp only [hhelp, hlist, hpath, Bool.false_eq_true, if_false]
  rw [StateT.run_bind, hload]
  change StateT.run (m.system.write path (override a settings).toText >>= _) f = _
  rw [StateT.run_bind, htakes]
  rfl

/-- Saved settings reproduce the run: if arguments ask for a report and their settings can be
loaded, then with a new path to write to they print nothing and change only the file there; and from
then on this file as the only argument gives what they gave, as they themselves still do. -/
theorem saved_settings_reproduce [DecidableEq π] {path : String} {p : π}
    (hargs : Args.parse args = .ok a) (hhelp : a.help = false) (hlist : a.listNodes = false)
    (hwrite : a.writeConfig = none) (hload : ((load m.system a.config).run f).1 = .ok settings)
    (hnew : m.New f path p) :
    ∃ f', (run m.system (args ++ ["--write-config", path])).run f = (.ok "", f') ∧
      m.place f' = m.place f ∧
      m.bytes f' = Function.update (m.bytes f) p (some (override a settings).toText.toUTF8) ∧
      (run m.system ["--config", path]).run f' = (((run m.system args).run f).1, f') ∧
      (run m.system args).run f' = (((run m.system args).run f).1, f') := by
  obtain ⟨f', htakes, hplace, hbytes⟩ := hnew.takes (override a settings).toText
  have hloaded : (load m.system a.config).run f = (.ok settings, f) :=
    load_kept hload rfl fun _ _ hb => hb
  have hkept : ∀ q b, m.bytes f q = some b → m.bytes f' q = some b := by
    intro q b hb
    have hq : q ≠ p := fun heq => by
      rw [heq, hnew.absent] at hb
      cases hb
    rw [hbytes, Function.update_of_ne hq, hb]
  have hvalid : (override a settings).Valid := valid_override (valid_of_load hload) a
  have hheld : (m.place f' path).bind (m.bytes f') =
      some (override a settings).toText.toUTF8 := by
    rw [hplace, hnew.leads, hbytes]
    exact Function.update_self _ _ _
  have hsaved : (load m.system (some path)).run f' = (.ok (override a settings), f') := by
    rw [load_held hheld, settingsOf_toText hvalid]
  have hrun := run_report hargs hhelp hlist hwrite hloaded
  refine ⟨f', ?_, hplace, hbytes, ?_, ?_⟩
  · exact run_write (Args.parse_writeConfig hargs path) hhelp hlist rfl hloaded htakes
  · rw [hrun]
    have hreload := run_report (Args.parse_config path) rfl rfl rfl hsaved
    exact hreload
  · rw [hrun]
    exact run_report hargs hhelp hlist hwrite (load_kept hload hplace hkept)

end

/-- A directory with a single file, of settings that are not finite. -/
def infinitePower : Files :=
  ⟨[(["demo.ron"], .contents "(color: (fresnel_power: inf))".toUTF8)]⟩

/-- What fails for its settings fails alike for the saved ones. -/
theorem saved_settings_reproduce_infinitePower :
    ∃ f', (run Files.system ["--config", "demo.ron", "--format", "json", "--frames", "2",
        "--write-config", "saved.ron"]).run infinitePower = (.ok "", f') ∧
      (∀ p ≠ .below ["saved.ron"], f'.bytesAt p = infinitePower.bytesAt p) ∧
      (run Files.system ["--config", "saved.ron"]).run f' =
        (((run Files.system ["--config", "demo.ron", "--format", "json", "--frames", "2"]).run
          infinitePower).1, f') ∧
      ((run Files.system ["--config", "saved.ron"]).run f').1.toOption = none := by
  have hdemo : infinitePower.resolve "demo.ron" false = .ok (.below ["demo.ron"]) :=
    Files.resolve_name (by decide +kernel) (by decide) (by decide) (by decide) (by decide) rfl
  have hnew : infinitePower.resolve "saved.ron" false = .ok (.below ["saved.ron"]) :=
    Files.resolve_name (by decide +kernel) (by decide) (by decide) (by decide) (by decide) rfl
  have hparse : Args.parse ["--config", "demo.ron", "--format", "json", "--frames", "2"] =
      .ok ⟨some "demo.ron", some .json, some 2, none, false, false⟩ := by decide +kernel
  have hheld : (Files.fileMap.place infinitePower "demo.ron").bind
      (Files.fileMap.bytes infinitePower) = some "(color: (fresnel_power: inf))".toUTF8 := by
    change (infinitePower.filePlace "demo.ron").bind infinitePower.bytesAt = _
    rw [Files.filePlace, if_neg (by decide +kernel), hdemo]
    rfl
  have hload : ((load Files.fileMap.system (some "demo.ron")).run infinitePower).1 =
      .ok { Settings.standard with
        color := { ColorSettings.standard with fresnelPower := .infinite false } } := by
    rw [load_held hheld, settingsOf, FileError.textOf_toUTF8]
    decide +kernel
  obtain ⟨f', hwrite, -, hbytes, hreload, -⟩ := saved_settings_reproduce hparse rfl rfl rfl hload
    (Files.new_path hnew rfl (by decide +kernel))
  have hreport := run_report hparse rfl rfl rfl (load_kept hload rfl fun _ _ hb => hb)
  refine ⟨f', hwrite, fun p hp => ?_, hreload, ?_⟩
  · exact (congrFun hbytes p).trans (Function.update_of_ne hp _ _)
  · change ((run Files.fileMap.system ["--config", "saved.ron"]).run f').1.toOption = none
    rw [hreload, hreport]
    dsimp only
    decide +kernel

end Program

end ShaderGraph
