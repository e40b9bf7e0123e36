import PixelCalc.Proofs.Evaluation.OneLine
import PixelCalc.Proofs.Session.Lines

/-!
# A session answers line by line

A session evaluates the lines of its input that are not blank one after the other and gives one
result for each. As no result breaks a line, its output has as many lines, and what follows a line
end in the input is a session of its own, in the environment that the lines before it leave.

- `sources`: the lines that are evaluated.
- `ofText_eq`: the results and the environment of a session.
- `ofText_append`: a session over two texts.
- `session_stays_aligned`: the lines of the output are the results, in order.
-/

namespace PixelCalc
namespace Session

open Text (OneLine)

variable {env : Environment} {input : String} {line : List Char}

/-! ### What is evaluated -/

/-- The source in a line, if the line is not blank. -/
def source? (line : List Char) : Option String :=
  match Text.trim line with
  | [] => none
  | source => some (String.ofList source)

/-- The sources in a text. -/
def sources (input : String) : List String :=
  (pieces '\n' input.toList).filterMap source?

theorem trim_subset (cs : List Char) : Text.trim cs ⊆ cs := by
  intro c hc
  have hc := (List.dropWhile_sublist _).subset (List.mem_reverse.mp hc)
  exact (List.dropWhile_sublist _).subset (List.mem_reverse.mp hc)

/-- The source on a line is part of the line. -/
theorem oneLine_source {source : String} (hline : OneLine line)
    (h : source? line = some source) : OneLine source.toList := by
  unfold source? at h
  split at h
  · cases h
  · cases h
    rw [String.toList_ofList]
    exact hline.of_subset (trim_subset line)

/-- Each source that a session evaluates stands on one line. -/
theorem oneLine_sources (input : String) : ∀ source ∈ sources input, OneLine source.toList := by
  intro source hsource
  obtain ⟨line, hline, hsource⟩ := List.mem_filterMap.mp hsource
  exact oneLine_source (not_mem_of_mem_pieces hline) hsource

/-- A line end ends the last line in front of it, and the line behind the last line end of a text
is blank. -/
theorem sources_append (a b : String) :
    sources (a ++ "\n" ++ b) = sources (a ++ "\n") ++ sources b := by
  have hend : sources (a ++ "\n") = sources a := by
    rw [sources, String.toList_append]
    show (pieces '\n' (a.toList ++ '\n' :: [])).filterMap source? = _
    rw [pieces_append_cons, List.filterMap_append]
    exact List.append_nil _
  rw [hend, sources, String.toList_append, String.toList_append, List.append_assoc]
  show (pieces '\n' (a.toList ++ '\n' :: b.toList)).filterMap source? = _
  rw [pieces_append_cons, List.filterMap_append]
  rfl

/-! ### Runs -/

/-- A line is evaluated if it is not blank, and the rest of the session goes on from the environment
that it leaves. -/
theorem run_cons (pretty : Bool) (env : Environment) (line : List Char)
    (rest : List (Option (List Char))) :
    run pretty env (some line :: rest) =
      match source? line with
      | none => run pretty env rest
      | some source =>
        let v := evaluate env source
        let more := run pretty v.2 rest
        { more with results := display pretty v.1 :: more.results } := by
  rw [run, source?]
  cases Text.trim line <;> rfl

/-- A session evaluates the sources in its lines one after the other. -/
theorem run_eq (pretty : Bool) (env : Environment) (lines : List (List Char)) :
    run pretty env (lines.map some) =
      let each := evaluateEach env (lines.filterMap source?)
      ⟨each.2, each.1.map (display pretty), none⟩ := by
  induction lines generalizing env with
  | nil => rfl
  | cons line rest ih =>
    rw [List.map_cons, run_cons, List.filterMap_cons]
    cases source? line with
    | none => exact ih env
    | some source =>
      show Outcome.mk _ _ _ = _
      rw [ih]
      rfl

/-- A session over a text evaluates its sources one after another and never stops at a line. -/
theorem ofText_eq (pretty : Bool) (env : Environment) (input : String) :
    ofText pretty env input =
      let each := evaluateEach env (sources input)
      ⟨each.2, each.1.map (display pretty), none⟩ :=
  run_eq pretty env _

/-- A session reads the bytes of a text as the text. -/
theorem ofBytes_toUTF8 (pretty : Bool) (env : Environment) (input : String) :
    ofBytes pretty env input.toUTF8 = ofText pretty env input := by
  rw [ofBytes, decoded_lines, ofText]

/-- A session over two texts, one after the other on lines of their own, is the session over the
first and from its environment the session over the second. -/
theorem ofText_append (pretty : Bool) (env : Environment) (a b : String) :
    let first := ofText pretty env (a ++ "\n")
    let second := ofText pretty first.environment b
    ofText pretty env (a ++ "\n" ++ b) =
      ⟨second.environment, first.results ++ second.results, none⟩ := by
  simp only [ofText_eq, sources_append, evaluateEach_append, List.map_append]

/-! ### Outputs -/

/-- Results that are joined are written one after the other. -/
theorem output_append {first second whole : Outcome}
    (h : whole.results = first.results ++ second.results) :
    whole.output = first.output ++ second.output := by
  rw [Outcome.output, h, List.map_append, String.join_append]
  rfl

/-- The lines of the output are the results, if none of them breaks the line. -/
theorem pieces_output {o : Outcome} (h : ∀ result ∈ o.results, OneLine result.toList) :
    pieces '\n' o.output.toList = o.results.map String.toList ++ [[]] := by
  obtain ⟨_, results, _⟩ := o
  show pieces '\n' (String.join (results.map fun result => result ++ "\n")).toList = _
  induction results with
  | nil => rfl
  | cons result results ih =>
    obtain ⟨hresult, hresults⟩ := List.forall_mem_cons.mp h
    rw [List.map_cons, String.join_cons, String.toList_append, String.toList_append,
      List.append_assoc]
    exact (pieces_line hresult _).trans (congrArg _ (ih hresults))

/-! ### Alignment -/

/-- Results are the texts of the values, in the order of the sources. -/
theorem ofText_results (env : Environment) (input : String) :
    (ofText false env input).results = (evaluateEach env (sources input)).1.map Value.text := by
  rw [ofText_eq]
  rfl

/-- No result contains a line feed, so the results can be told apart in the output. -/
theorem oneLine_results (henv : env.OneLine) (input : String) :
    ∀ result ∈ (ofText false env input).results, OneLine result.toList := by
  intro result hresult
  rw [ofText_results] at hresult
  obtain ⟨v, hv, rfl⟩ := List.mem_map.mp hresult
  exact Value.oneLine_text_iff.mpr ((henv.evaluateEach (oneLine_sources input)).1 v hv)

/-- The sources in front of one leave an environment of one line, and that source is one line. -/
theorem oneLine_of_sources_eq (henv : env.OneLine) {before after : List String} {source : String}
    (h : sources input = before ++ source :: after) :
    (evaluateEach env before).2.OneLine ∧ OneLine source.toList := by
  have hlines := oneLine_sources input
  rw [h, List.forall_mem_append, List.forall_mem_cons] at hlines
  obtain ⟨hbefore, hsource, -⟩ := hlines
  exact ⟨(henv.evaluateEach hbefore).2, hsource⟩

/-- **A session stays aligned with its input.** In an environment without functions of its own of
which no fault and no target breaks a line, a session reads its input to the end and gives one
result for each line that is not blank: the value of the line in the environment that the lines
before it leave. No text of a value that comes up breaks a line, so the lines of the output are the
results. Hence what follows a line end is answered as by a session of its own. -/
theorem session_stays_aligned (env : Environment) (henv : env.OneLine) (input : String) :
    let session := ofText false env input
    ofBytes false env input.toUTF8 = session ∧ session.failure? = none ∧
    session.results.length = (sources input).length ∧
    pieces '\n' session.output.toList = session.results.map String.toList ++ [[]] ∧
    session.environment = (evaluateEach env (sources input)).2 ∧
    (∀ name v, session.environment.find? name = some v → OneLine v.text.toList) ∧
    (∀ before source after, sources input = before ++ source :: after →
      let between := (evaluateEach env before).2
      session.results[before.length]? = some (evaluate between source).1.text ∧
      OneLine (evaluate between source).1.text.toList ∧
      ∀ e, parse source = .ok e → ∀ visit ∈ e.trace between, OneLine visit.value.text.toList) ∧
    ∀ a b, input = a ++ "\n" ++ b →
      let first := ofText false env (a ++ "\n")
      let second := ofText false first.environment b
      session.output = first.output ++ second.output ∧
        session.environment = second.environment := by
  intro session
  have hsession : session = _ := ofText_eq false env input
  have hresults : session.results = _ := ofText_results env input
  have henvironment := congrArg Outcome.environment hsession
  refine ⟨ofBytes_toUTF8 false env input, congrArg Outcome.failure? hsession, ?_,
    pieces_output (oneLine_results henv input), henvironment, fun name v hv => ?_,
    fun before source after hsplit => ?_, ?_⟩
  · rw [hresults, List.length_map, length_evaluateEach]
  · rw [henvironment] at hv
    have hafter := (henv.evaluateEach (oneLine_sources input)).2
    exact Value.oneLine_text_iff.mpr (hafter.values name v hv)
  · -- the line is evaluated where the lines before it have left the environment
    obtain ⟨hbetween, hsource⟩ := oneLine_of_sources_eq henv hsplit
    have hvalue := (hbetween.evaluate hsource).1
    refine ⟨?_, Value.oneLine_text_iff.mpr hvalue, fun e he visit hvisit => ?_⟩
    · rw [hresults, hsplit, List.getElem?_map, evaluateEach_getElem?]
      rfl
    · exact Value.oneLine_text_iff.mpr (hbetween.visits hsource he visit hvisit)
  · rintro a b rfl first second
    have happend : session = ⟨second.environment, first.results ++ second.results, none⟩ :=
      ofText_append false env a b
    have hboth : session.results = first.results ++ second.results := by rw [happend]
    exact ⟨output_append hboth, by rw [happend]⟩

/-- An assignment, a blank line, a fault that quotes a name, and a last line without an end, in an
environment in which an assignment has a target. -/
theorem session_stays_aligned_lines :
    let env := Environment.empty.bind "t" (.reference "x")
    let session := ofText false env "x = 2\r\n\n y \nx"
    env.OneLine ∧ session.results.length = 3 ∧
      pieces '\n' session.output.toList = session.results.map String.toList ++ [[]] := by
  intro env session
  have hempty : Environment.empty.OneLine := ⟨fun _ _ => nofun, fun _ => rfl⟩
  have henv : env.OneLine := hempty.bind "t" (by simp [Value.OneLine])
  obtain ⟨-, -, hlength, hlines, -⟩ := session_stays_aligned env henv "x = 2\r\n\n y \nx"
  exact ⟨henv, hlength, hlines⟩

end Session
end PixelCalc
