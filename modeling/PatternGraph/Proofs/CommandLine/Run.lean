import PatternGraph.CommandLine.Run
import PatternGraph.Proofs.CommandLine.Arguments
import PatternGraph.Proofs.CommandLine.Files
import PatternGraph.Proofs.Derivation.Growth
import PatternGraph.Proofs.Snapshot

/-!
# Queries of a derived graph

A derived graph can be saved first and then be queried, or it can be derived again for every query. Both
print the same and end with the same status. What a query prints is determined by the answer to its
request, and the answer by the graph (`QueryRequest.answer`); the graph that is loaded from the file of
the derived one restores it.
-/

namespace PatternGraph

variable {files files' : Files} {graph rules passes out : String} {g g' : Graph} {rs : List Rule}
  {n : Nat}

namespace Command

/-! ### What a command loads -/

theorem loadGraph_eq_ok : loadGraph files graph = .ok g ↔
    ∃ text, files.read graph = .ok text ∧ ∃ s, Snapshot.parse text = .ok s ∧ s.toGraph = .ok g := by
  simp only [loadGraph, Except.bind_eq_ok, Except.mapError_eq_ok]

theorem loadRules_eq_ok : loadRules files rules = .ok rs ↔
    ∃ text, files.read rules = .ok text ∧ ∃ file, RuleFile.parse text = .ok file ∧
      file.toRules = .ok rs := by
  simp only [loadRules, Except.bind_eq_ok, Except.mapError_eq_ok]

theorem wellFormed_of_loadGraph (h : loadGraph files graph = .ok g) : g.WellFormed := by
  obtain ⟨_, -, _, -, htoGraph⟩ := loadGraph_eq_ok.1 h
  exact Graph.WellFormed.ofLists htoGraph

/-- The graph that rules derive. -/
def derived (g : Graph) (rs : List Rule) (n : Nat) : Graph := ((Derivation.standard rs).derive n g).2.2

end Command

/-! ### What a query answers -/

/-- The answer to a request in a graph, wherever it comes from. -/
def QueryRequest.answer (r : QueryRequest) (g : Graph) : Except CommandError Answer := do
  let plan ← (Plan.parse r.pattern).mapError fun e => .query (.pattern e)
  let start := if r.start.isEmpty then none else some r.start
  let answer ← (plan.run r.mode start g).1.mapError fun e => .query (.graph e)
  return match r.limit with
    | none => answer
    | some limit => answer.take limit

/-- A graph that restores another answers alike. -/
theorem QueryRequest.answer_of_restores (h : g'.Restores g) (r : QueryRequest) :
    r.answer g' = r.answer g := by
  unfold answer
  cases Plan.parse r.pattern with
  | error e => rfl
  | ok plan =>
    obtain ⟨answer, hrun, hrun'⟩ := h.run plan r.mode (if r.start.isEmpty then none else some r.start)
    simp only [Except.mapError, bind, Except.bind, hrun, hrun']

namespace Command

theorem runQuery_of_graph {r : QueryRequest} (hrules : r.rules = none)
    (hload : loadGraph files r.graph = .ok g) : runQuery files r = r.answer g := by
  unfold runQuery
  rw [hload, hrules]
  rfl

theorem runQuery_of_rules {r : QueryRequest} (hrules : r.rules = some rules)
    (hload : loadGraph files r.graph = .ok g) (hloadRules : loadRules files rules = .ok rs) :
    runQuery files r = r.answer (derived g rs r.passes) := by
  unfold runQuery
  rw [hload, hrules]
  simp only [hloadRules, bind, Except.bind]
  rfl

theorem runDerive_spec {result : Nat × DerivationReport × Graph}
    (h : runDerive files graph rules n = .ok result) :
    ∃ g rs, loadGraph files graph = .ok g ∧ loadRules files rules = .ok rs ∧
      result.2.2 = derived g rs n := by
  simp only [runDerive, Except.bind_eq_ok] at h
  obtain ⟨g, hgraph, rs, hrules, reported, hderive, hresult⟩ := h
  refine ⟨g, rs, hgraph, hrules, ?_⟩
  rw [← Except.ok.inj hresult, ← Except.ok.inj hderive]
  rfl

/-- A derivation that succeeds has loaded its files, and has written the snapshot of the derived
graph. -/
theorem run_derive_spec (h : (run files (.derive graph rules n (some out))).status = 0) :
    ∃ g rs, loadGraph files graph = .ok g ∧ loadRules files rules = .ok rs ∧
      files.write out (Snapshot.ofGraph (derived g rs n)).text =
        .ok (run files (.derive graph rules n (some out))).files := by
  simp only [run] at h ⊢
  cases hrun : runDerive files graph rules n with
  | error e =>
    rw [hrun] at h
    exact absurd h nofun
  | ok result =>
    obtain ⟨g, rs, hgraph, hrules, hderived⟩ := runDerive_spec hrun
    refine ⟨g, rs, hgraph, hrules, ?_⟩
    simp only [hrun, hderived] at h ⊢
    cases hwrite : files.write out (Snapshot.ofGraph (derived g rs n)).text with
    | error e =>
      rw [hwrite] at h
      exact absurd h nofun
    | ok files' => rfl

/-- The graph that was saved is loaded as one that restores it. -/
theorem exists_loadGraph_of_write (hg : g.WellFormed)
    (hwrite : files.write out (Snapshot.ofGraph g).text = .ok files') :
    ∃ g', loadGraph files' out = .ok g' ∧ g'.Restores g := by
  obtain ⟨g', hbuilt, -, hrestores⟩ := hg.restores
  exact ⟨g', loadGraph_eq_ok.2 ⟨_, Files.read_of_write hwrite, _, Snapshot.parse_text _, hbuilt⟩,
    hrestores⟩

/-- Elsewhere a graph is loaded as before. -/
theorem loadGraph_of_write {text : String} (hwrite : files.write out text = .ok files')
    (hplace : Path.place graph ≠ Path.place out) (hload : loadGraph files graph = .ok g) :
    loadGraph files' graph = .ok g := by
  obtain ⟨text, hread, h⟩ := loadGraph_eq_ok.1 hload
  exact loadGraph_eq_ok.2 ⟨text, Files.read_of_write_elsewhere hwrite hplace hread, h⟩

/-- Elsewhere rules are loaded as before. -/
theorem loadRules_of_write {text : String} (hwrite : files.write out text = .ok files')
    (hplace : Path.place rules ≠ Path.place out) (hload : loadRules files rules = .ok rs) :
    loadRules files' rules = .ok rs := by
  obtain ⟨text, hread, h⟩ := loadRules_eq_ok.1 hload
  exact loadRules_eq_ok.2 ⟨text, Files.read_of_write_elsewhere hwrite hplace hread, h⟩

/-- What a query prints and its status are determined by its answer. -/
theorem run_query_congr {r r' : QueryRequest} (hjson : r.json = r'.json)
    (hanswer : runQuery files r = runQuery files' r') :
    (run files (.query r)).stdout = (run files' (.query r')).stdout ∧
      (run files (.query r)).status = (run files' (.query r')).status := by
  simp only [run, hanswer, hjson]
  cases runQuery files' r' with
  | error e => exact ⟨rfl, rfl⟩
  | ok answer => cases r'.json <;> exact ⟨rfl, rfl⟩

theorem ofArguments_derive (args : List String) : ofArguments ("derive" :: args) = ofDerive args := by
  have hplain : ArgumentSort.of "derive" = .plain := by decide
  simp [ofArguments, ofArgumentsAfter, hplain]

theorem ofArguments_query (args : List String) : ofArguments ("query" :: args) = ofQuery args := by
  have hplain : ArgumentSort.of "query" = .plain := by decide
  simp [ofArguments, ofArgumentsAfter, hplain]

/-- A derivation that ends with the status zero is one of two files, and has saved a graph. -/
theorem runProgram_derive_spec (h : (runProgram files
      ["derive", "--graph", graph, "--rules", rules, "--passes", passes, "--out", out]).status = 0) :
    TakesSources graph rules passes ∧ OptionKind.path.Takes out ∧ ∃ n, readCount passes = some n ∧
      ∃ g rs, loadGraph files graph = .ok g ∧ loadRules files rules = .ok rs ∧
        files.write out (Snapshot.ofGraph (derived g rs n)).text = .ok (runProgram files
          ["derive", "--graph", graph, "--rules", rules, "--passes", passes, "--out", out]).files := by
  simp only [runProgram, ofArguments_derive] at h ⊢
  rcases ofDerive_cases graph rules passes out with husage | ⟨hsources, hout, n, hn, hcommand⟩
  · rw [husage] at h
    exact absurd h nofun
  · rw [hcommand] at h ⊢
    exact ⟨hsources, hout, n, hn, run_derive_spec h⟩

end Command

/-- A graph that was derived and saved is asked like one that is derived for the query: when the
derivation has succeeded, both queries print the same on the standard output and end with the same
status, for every pattern and with all options but those that say which graph is asked. It does not
matter whether the other query comes before the derivation or after it. -/
theorem query_saved_eq_query_derived (files : Files) (graph rules passes out : String)
    (args : List String) (hgraph : Path.place graph ≠ Path.place out)
    (hrules : Path.place rules ≠ Path.place out)
    (hargs : ∀ name ∈ Command.sourceOptions, name ∉ optionNames args) :
    let derivation := runProgram files
      ["derive", "--graph", graph, "--rules", rules, "--passes", passes, "--out", out]
    derivation.status = 0 → ∀ table ∈ [files, derivation.files],
      let saved := runProgram derivation.files (["query", "--graph", out] ++ args)
      let derived := runProgram table
        (["query", "--graph", graph, "--rules", rules, "--passes", passes] ++ args)
      saved.stdout = derived.stdout ∧ saved.status = derived.status := by
  intro derivation hstatus table htable
  obtain ⟨hsources, hout, n, hn, g, rs, hg, hrs, hwrite⟩ := Command.runProgram_derive_spec hstatus
  simp only [runProgram, List.cons_append, List.nil_append, Command.ofArguments_query]
  rcases Command.ofQuery_cases hsources hout hn hargs with
    ⟨refusal, hquery, hquery'⟩ | ⟨r, hrgraph, hrrules, hquery, hquery'⟩
  · rw [hquery, hquery']
    cases refusal <;> exact ⟨rfl, rfl⟩
  · rw [hquery, hquery']
    have hload : Command.loadGraph table graph = .ok g ∧ Command.loadRules table rules = .ok rs := by
      simp only [List.mem_cons, List.not_mem_nil, or_false] at htable
      rcases htable with rfl | rfl
      · exact ⟨hg, hrs⟩
      · exact ⟨Command.loadGraph_of_write hwrite hgraph hg,
          Command.loadRules_of_write hwrite hrules hrs⟩
    obtain ⟨g', hg', hrestores⟩ := Command.exists_loadGraph_of_write
      (Derivation.grown (Command.wellFormed_of_loadGraph hg) rs n).wellFormed hwrite
    have hload' : Command.loadGraph derivation.files r.graph = .ok g' := by rw [hrgraph]; exact hg'
    refine Command.run_query_congr rfl ?_
    rw [Command.runQuery_of_graph hrrules hload', Command.runQuery_of_rules rfl hload.1 hload.2,
      QueryRequest.answer_of_restores hrestores]
    rfl

/-- A graph with two edges, and a rule for a third. -/
def twoEdgesFiles : Files := .ofList
  [("graph.json", "[[[\"a\", \"A\"], [\"b\", \"B\"], [\"c\", \"C\"]],
      [[\"\", \"a\", \"b\", [\"e\"]], [\"\", \"b\", \"c\", [\"e\"]]]]"),
   ("rules.json", "[[[\"()[e]>()[e]>()\", \"(1)[e](3)\"]]]")]

/-- A query that finds the two edges at a vertex of which one is derived. -/
theorem query_saved_eq_query_derived_twoEdges :
    let derivation := runProgram twoEdgesFiles
      ["derive", "--graph", "graph.json", "--rules", "rules.json", "--passes", "5", "--out", "out.json"]
    derivation.status = 0 ∧ ∀ table ∈ [twoEdgesFiles, derivation.files],
      let saved := runProgram derivation.files ["query", "--graph", "out.json", "?('A')=>(*)", "--json"]
      let derived := runProgram table
        ["query", "--graph", "graph.json", "--rules", "rules.json", "--passes", "5", "?('A')=>(*)",
          "--json"]
      saved.stdout = derived.stdout ∧ saved.status = derived.status := by
  have hstatus : (runProgram twoEdgesFiles ["derive", "--graph", "graph.json", "--rules", "rules.json",
      "--passes", "5", "--out", "out.json"]).status = 0 := by decide +kernel
  exact ⟨hstatus, query_saved_eq_query_derived twoEdgesFiles "graph.json" "rules.json" "5" "out.json"
    ["?('A')=>(*)", "--json"] (by decide) (by decide) (by decide) hstatus⟩

end PatternGraph
