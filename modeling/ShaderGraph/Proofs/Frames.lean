import ShaderGraph.Proofs.MaterialShape

/-!
# The frames of a report

A simulated frame lets the same time pass for the report and for every clock of the shader, so the
two never drift apart (`Report.simulate_shows`). With the shape of the demo shader this says what
stands in every frame of a report, and that it depends neither on whether the filters share a clock
nor on how many frames come after it (`Report.frames_exact`).
-/

namespace ShaderGraph

namespace Report

open Material

/-! ## Simulations -/

section Simulate

variable {delta : Double}

theorem length_simulate : ∀ (count number : Nat) (elapsed : Double) (u : Uniforms),
    (simulate delta count number elapsed u).length = count
  | 0, _, _, _ => rfl
  | count + 1, number, elapsed, u => by
    rw [simulate, List.length_cons, length_simulate]

/-- Frames that come later change nothing in those before. -/
theorem take_simulate : ∀ (m count number : Nat) (elapsed : Double) (u : Uniforms), m ≤ count →
    (simulate delta count number elapsed u).take m = simulate delta m number elapsed u
  | 0, _, _, _, _, _ => List.take_zero
  | m + 1, count + 1, number, elapsed, u, h => by
    rw [simulate, simulate, List.take_succ_cons,
      take_simulate m count _ _ _ (Nat.le_of_succ_le_succ h)]

/-- What a frame says of clocks. -/
structure Depicts (d : Diagram) (clocks : List (Nat × Clock)) (count : Nat) (time : Double)
    (f : Frame) : Prop where
  number : f.number = count
  elapsed : f.elapsed = time
  values : f.values.entries = clocks.map fun x => (d.clockName x, Uniforms.valueAt time x.2.scale)

/-- The times of the report and of the clocks start together and take the same steps. -/
theorem simulate_depicts {d : Diagram} {clocks : List (Nat × Clock)} {keys : List TimeKey}
    (hkeys : ∀ x ∈ clocks, x.2.key x.1 ∈ keys) : ∀ (count number : Nat) {elapsed : Double}
    {value : Clock → Value} {u : Uniforms}, u.Shows d clocks keys elapsed value → ∀ {k f},
      (simulate delta count number elapsed u)[k]? = some f →
        Depicts d clocks (number + k + 1) ((· + delta)^[k + 1] elapsed) f
  | 0, _, _, _, _, _, _, _, hf => nomatch hf
  | count + 1, number, elapsed, _, u, h, 0, f, hf => by
    cases hf
    exact ⟨rfl, rfl, (h.update hkeys delta).values⟩
  | count + 1, number, elapsed, _, u, h, k + 1, f, hf => by
    have hlater := simulate_depicts hkeys count (number + 1) (h.update hkeys delta) hf
    rw [Nat.add_right_comm number 1 k] at hlater
    exact hlater

end Simulate

/-! ## Reports of settings -/

variable {settings : Settings} {report : Report}

theorem exists_shader (h : run settings = .ok report) : ∃ shader,
    Report.shader settings = .ok shader ∧ report = ⟨shader.source .vertex, shader.source .fragment,
      simulate settings.frameDelta settings.frames.toNat 0 .zero shader.uniforms⟩ := by
  obtain ⟨shader, hshader, hreport⟩ := (bind_eq_ok_iff _ _ _).1 h
  cases hreport
  exact ⟨shader, hshader, rfl⟩

/-- A report has the shape of the material's shader. -/
theorem exists_shape {shader : Shader} (h : Report.shader settings = .ok shader) : ∃ d : Diagram,
    d.WellFormed ∧ shader.uniforms = (Plan.ofDiagram d).uniforms ∧
      Shape settings.animation d shader := by
  rw [Report.shader] at h
  rcases hbuild : (build settings).run.run default with ⟨e | master, w⟩
  · rw [hbuild] at h
    cases h
  · rw [hbuild] at h
    have hshader : w.store.compile master = .ok shader :=
      (mapError_eq_ok_iff RunError.compile _ _).1 h
    obtain ⟨-, walk, hd, hc⟩ := (Store.compile_eq_ok_iff _ _ _).1 hshader
    obtain ⟨-, -, -, -, huniforms⟩ := (Plan.compile_eq_ok_iff _ _).1 hc
    obtain ⟨origin, head, tail, diffuse, ps, hlaid⟩ := build_laid hbuild
    exact ⟨walk.diagram, (Walk.discover_ok hd).wellFormed, huniforms, hlaid.shape hd hc⟩

/-- What stands in a frame of some settings: the clocks of all filters show its time. -/
structure Exact (settings : Settings) (k : Nat) (f : Frame) : Prop where
  number : f.number = k + 1
  elapsed : f.elapsed = (· + settings.frameDelta)^[k + 1] .zero
  values : f.values.entries = (List.range settings.animation.filters.length).map fun i =>
    (s!"u_Time_{settings.animation.filters.length + 4 + i}_time",
      .float (f.elapsed * ((.ofNat 1 : Single).convert : Double)).convert)

theorem Exact.unique {k : Nat} {f f' : Frame} (h : Exact settings k f) (h' : Exact settings k f') :
    f = f' := by
  have hnumber := h.number.trans h'.number.symm
  have helapsed := h.elapsed.trans h'.elapsed.symm
  have hvalues : f.values = f'.values := Table.ext_entries (by rw [h.values, h'.values, helapsed])
  obtain ⟨number, elapsed, values⟩ := f
  obtain ⟨number', elapsed', values'⟩ := f'
  cases hnumber
  cases helapsed
  cases hvalues
  rfl

theorem exact_of_shader {shader : Shader} (h : Report.shader settings = .ok shader) {k : Nat}
    {f : Frame} (hf : (simulate settings.frameDelta settings.frames.toNat 0 .zero
      shader.uniforms)[k]? = some f) : Exact settings k f := by
  obtain ⟨d, hd, huniforms, hshape⟩ := exists_shape h
  obtain ⟨keys, -, hmem, hshows⟩ := Plan.shows_uniforms hd
  rw [huniforms] at hf
  have hdepicts := simulate_depicts (fun x hx => (hmem _).2 ⟨x, hx, rfl⟩) _ _ hshows hf
  have hscale : (timeClock settings.animation.sharedClock).scale = .ofNat 1 := by
    rcases settings.animation.sharedClock with _ | _ <;> rfl
  refine ⟨hdepicts.number.trans (by rw [Nat.zero_add]), hdepicts.elapsed, ?_⟩
  rw [hdepicts.values, hshape.clocks, List.map_map]
  refine List.map_congr_left fun i hi => ?_
  rw [Function.comp_apply, Diagram.clockName,
    hshape.uniformName_clock hd hshape.clocks (List.mem_range.1 hi), Uniforms.valueAt, hscale,
    hdepicts.elapsed]

theorem exists_run_iff (settings : Settings) :
    (∃ report, run settings = .ok report) ↔ settings.Finite := by
  by_cases hfinite : settings.Finite
  · obtain ⟨master, w, hreturns, shader, hshader⟩ := (build_returnsIf settings default).1 hfinite
    exact iff_of_true (run_of_returns hreturns hshader) hfinite
  · obtain ⟨e, hfails, -⟩ := (build_returnsIf settings default).2 hfinite
    rw [run_of_fails hfails]
    exact iff_of_false nofun hfinite

/-- A report has as many frames as its settings say. Each shows, for every filter, the time that has
passed since the start, whether or not the filters share a clock, and it is the same frame in a
report of more frames. -/
theorem frames_exact (h : run settings = .ok report) :
    report.frames.length = settings.frames.toNat ∧
      (∀ k f, report.frames[k]? = some f → Exact settings k f) ∧
      (∀ shared, ∃ report', run { settings with
          animation := { settings.animation with sharedClock := shared } } = .ok report' ∧
        report'.frames = report.frames) ∧
      ∀ frames ≤ settings.frames, run { settings with frames } =
        .ok { report with frames := report.frames.take frames.toNat } := by
  obtain ⟨shader, hshader, rfl⟩ := exists_shader h
  refine ⟨length_simulate _ _ _ _, fun k f hf => exact_of_shader hshader hf, fun shared => ?_,
    fun frames hframes => ?_⟩
  · have hfinite : settings.Finite := (exists_run_iff settings).1 ⟨_, h⟩
    obtain ⟨report', hrun⟩ := (exists_run_iff { settings with
      animation := { settings.animation with sharedClock := shared } }).2 hfinite
    obtain ⟨shader', hshader', rfl⟩ := exists_shader hrun
    refine ⟨_, hrun, List.ext_getElem ?_ fun k hk hk' => ?_⟩
    · rw [length_simulate, length_simulate]
    · have hframe' := exact_of_shader hshader' (List.getElem?_eq_getElem hk)
      have hframe := exact_of_shader hshader (List.getElem?_eq_getElem hk')
      have hsame : Exact settings k _ := ⟨hframe'.number, hframe'.elapsed, hframe'.values⟩
      exact hsame.unique hframe
  · have hshader' : Report.shader { settings with frames } = .ok shader := hshader
    rw [run, hshader', take_simulate _ _ _ _ _ (UInt32.le_iff_toNat_le.1 hframes)]
    rfl

/-- Four frames of half a second. -/
def halves : Settings := { Settings.standard with frames := 4, frameDelta := .ofQuotient false 1 2 }

theorem frames_exact_halves : ∃ report, run halves = .ok report ∧ report.frames.length = 4 ∧
    (∀ k f, report.frames[k]? = some f → Exact halves k f) ∧
    (∃ f, report.frames[3]? = some f ∧ f.number = 4 ∧ f.elapsed = .ofNat 2 ∧
      f.values.size = 7 ∧ ∀ v ∈ f.values.values, v = .float (.ofNat 2)) ∧
    run { halves with frames := 2 } = .ok { report with frames := report.frames.take 2 } := by
  have hfinite : halves.Finite := by
    unfold Settings.Finite
    decide +kernel
  obtain ⟨report, hrun⟩ := (exists_run_iff halves).2 hfinite
  obtain ⟨hlength, hframes, -, hfewer⟩ := frames_exact hrun
  obtain ⟨f, hf⟩ : ∃ f, report.frames[3]? = some f :=
    ⟨_, List.getElem?_eq_getElem (by rw [hlength]; decide)⟩
  have hexact := hframes 3 f hf
  have helapsed : f.elapsed = .ofNat 2 := hexact.elapsed.trans (by decide +kernel)
  have hvalue : ((.ofNat 2 : Double) * ((.ofNat 1 : Single).convert : Double)).convert =
      (.ofNat 2 : Single) := by decide +kernel
  refine ⟨report, hrun, hlength, hframes, ⟨f, hf, hexact.number, helapsed, ?_, fun v hv => ?_⟩,
    hfewer 2 (by decide)⟩
  · rw [Table.size, hexact.values, List.length_map, List.length_range]
    rfl
  · rw [Table.values, hexact.values, helapsed, hvalue, List.map_map] at hv
    obtain ⟨i, -, rfl⟩ := List.mem_map.1 hv
    rfl

end Report

end ShaderGraph
