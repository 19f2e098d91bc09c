import PatternGraph.CommandLine.Arguments
import PatternGraph.Proofs.Except

/-!
# Options in front

Arguments are looked at from left to right, and what has been given before matters only where an option
is named again. So a scan is one addition after the other, whatever was given before (`Scan`), and
options at the front that are not named again can be set aside: the rest is scanned on its own, and they
are put back in front of what it gives (`Scan.behind`).

This makes two queries comparable that differ in the options of their graphs only (`ofQuery_cases`).
-/

namespace PatternGraph

variable {accepted : Accepted} {kind : OptionKind} {front : List (String × String)} {g g' : Given}
  {name opt value : String} {args : List String}

/-- The options that some arguments name. Behind `--` nothing is an option, and what has one dash can be
no other option than `--verbose`. -/
def optionNames : List String → List String
  | [] => []
  | arg :: args =>
    match ArgumentSort.of arg with
    | .separator => []
    | .long name _ => name :: optionNames args
    | .short _ => "verbose" :: optionNames args
    | .plain => optionNames args

/-- What one step adds to what is given. -/
inductive Addition where
  | pattern (text : String)
  | shorts (letters : List Char)
  | flag (name : String)
  | option (name : String) (kind : OptionKind) (value : String)

namespace Addition

/-- The options that are added. -/
def names : Addition → List String
  | pattern _ => []
  | shorts _ => ["verbose"]
  | flag name | option name _ _ => [name]

/-- Adds to what is given. -/
def apply (accepted : Accepted) (g : Given) : Addition → Except Refusal Given
  | pattern text => g.addPattern accepted text
  | shorts letters => g.addShort accepted.topic letters
  | flag name => g.addFlag name
  | option name kind value => g.addOption name kind value

end Addition

/-- An option whose value is the next argument. -/
theorem scanArguments_option (hopt : ArgumentSort.of opt = .long name none)
    (hname : accepted.options.lookup name = some kind) (hkind : kind ≠ .flag) (g : Given)
    (value : String) (args : List String) :
    scanArguments accepted g (opt :: value :: args) =
      if ArgumentSort.of value = .plain then
        g.addOption name kind value >>= (scanArguments accepted · args)
      else .error .usage := by
  cases kind with
  | flag => exact absurd rfl hkind
  | path | count | texts => simp only [scanArguments, hopt, hname]

/-- An option whose value is missing. -/
theorem scanArguments_option_nil (hopt : ArgumentSort.of opt = .long name none)
    (hname : accepted.options.lookup name = some kind) (hkind : kind ≠ .flag) (g : Given) :
    scanArguments accepted g [opt] = .error .usage := by
  cases kind with
  | flag => exact absurd rfl hkind
  | path | count | texts => simp only [scanArguments, hopt, hname]

/-- An option whose value stands behind an equals sign. -/
theorem scanArguments_option_equals (hopt : ArgumentSort.of opt = .long name (some value))
    (hname : accepted.options.lookup name = some kind) (hkind : kind ≠ .flag) (g : Given)
    (args : List String) :
    scanArguments accepted g (opt :: args) =
      g.addOption name kind value >>= (scanArguments accepted · args) := by
  cases kind with
  | flag => exact absurd rfl hkind
  | path | count | texts => simp only [scanArguments, hopt, hname]

/-- A scan that adds some of the named options, or refuses. -/
inductive Scan (accepted : Accepted) (names : List String) : (Given → Except Refusal Given) → Prop where
  | done : Scan accepted names .ok
  | refused (refusal : Refusal) : Scan accepted names fun _ => .error refusal
  | add (addition : Addition) {rest : Given → Except Refusal Given}
      (hnames : addition.names ⊆ names) (hrest : Scan accepted names rest) :
      Scan accepted names fun g => addition.apply accepted g >>= rest

namespace Scan

variable {names names' : List String} {scan : Given → Except Refusal Given}

theorem mono (h : Scan accepted names scan) (hsub : names ⊆ names') : Scan accepted names' scan := by
  induction h with
  | done => exact .done
  | refused refusal => exact .refused refusal
  | add addition hnames _ ih => exact .add addition (fun _ hname => hsub (hnames hname)) ih

/-- An addition that names an option is followed by a scan. -/
theorem named (addition : Addition) (hnames : addition.names = [name]) (h : Scan accepted names scan) :
    Scan accepted (name :: names) fun g => addition.apply accepted g >>= scan :=
  .add addition (by simp [hnames]) (h.mono (List.subset_cons_self _ _))

theorem patterns (args : List String) :
    Scan accepted names fun g => args.foldlM (Given.addPattern accepted) g := by
  induction args with
  | nil => exact .done
  | cons arg args ih =>
    simp only [List.foldlM_cons]
    exact .add (.pattern arg) (List.nil_subset _) ih

/-- Arguments are scanned so, with the options that they name. -/
theorem arguments (accepted : Accepted) :
    ∀ args, Scan accepted (optionNames args) (scanArguments accepted · args)
  | [] => .done
  | arg :: args => by
    have ih := arguments accepted args
    cases harg : ArgumentSort.of arg with
    | separator =>
      simp only [scanArguments, harg]
      exact .patterns args
    | plain =>
      simp only [scanArguments, optionNames, harg]
      exact .add (.pattern arg) (List.nil_subset _) ih
    | short letters =>
      simp only [scanArguments, optionNames, harg]
      exact .named (.shorts letters) rfl ih
    | long name value =>
      simp only [optionNames, harg]
      cases hname : accepted.options.lookup name with
      | none =>
        cases value <;> simp only [scanArguments, harg, hname] <;> exact .refused _
      | some kind =>
        by_cases hkind : kind = .flag
        · subst hkind
          cases value with
          | some value =>
            simp only [scanArguments, harg, hname]
            exact .refused _
          | none =>
            simp only [scanArguments, harg, hname]
            exact .named (.flag name) rfl ih
        · cases value with
          | some value =>
            simp only [scanArguments_option_equals harg hname hkind]
            exact .named (.option name kind value) rfl ih
          | none =>
            cases args with
            | nil =>
              simp only [scanArguments_option_nil harg hname hkind]
              exact .refused _
            | cons value args =>
              simp only [scanArguments_option harg hname hkind]
              by_cases hvalue : ArgumentSort.of value = .plain
              · simp only [optionNames, hvalue]
                exact .named (.option name kind value) rfl (arguments accepted args)
              · simp only [if_neg hvalue]
                exact .refused _

end Scan

/-! ### Options that are set aside -/

/-- The same arguments behind some options. -/
def Given.behind (front : List (String × String)) (g : Given) : Given :=
  { g with options := front ++ g.options }

/-- A step that commutes with what is in front is followed by a scan that does. -/
theorem bind_behind {step step' : Except Refusal Given} {k : Given → Except Refusal Given}
    (hstep : step' = step.map (Given.behind front))
    (hk : ∀ g, k (g.behind front) = (k g).map (Given.behind front)) :
    step' >>= k = (step >>= k).map (Given.behind front) := by
  rw [hstep]
  cases step with
  | error e => rfl
  | ok g => exact hk g

namespace Given

theorem pattern_behind : (g.behind front).pattern = g.pattern := rfl

theorem get?_behind (name : String) :
    (g.behind front).get? name = (front.lookup name).or (g.get? name) := List.lookup_append

theorem has_behind (h : front.lookup name = none) : (g.behind front).has name = g.has name := by
  simp [has, behind, List.lookup_append, h]

theorem getAll_behind (h : front.lookup name = none) :
    (g.behind front).getAll name = g.getAll name := by
  have hnone : front.filter (·.1 == name) = [] :=
    List.filter_eq_nil_iff.2 fun entry hentry => by
      simpa [BEq.comm] using List.lookup_eq_none_iff.1 h entry hentry
  simp [getAll, behind, List.filter_append, hnone]

theorem addFlag_behind (h : front.lookup name = none) :
    (g.behind front).addFlag name = (g.addFlag name).map (behind front) := by
  unfold addFlag
  rw [has_behind h]
  split
  · rfl
  · simp [behind, Except.map]

theorem addOption_behind (h : front.lookup name = none) :
    (g.behind front).addOption name kind value = (g.addOption name kind value).map (behind front) := by
  unfold addOption
  rw [has_behind h]
  split
  · rfl
  · simp [behind, Except.map]

theorem addPattern_behind (g : Given) (text : String) :
    addPattern accepted (g.behind front) text = (addPattern accepted g text).map (behind front) := by
  unfold addPattern
  rw [pattern_behind]
  split <;> rfl

theorem addShort_behind {topic : HelpTopic} (h : front.lookup "verbose" = none) (g : Given)
    (letters : List Char) :
    addShort topic (g.behind front) letters = (addShort topic g letters).map (behind front) := by
  induction letters generalizing g with
  | nil => rfl
  | cons c cs ih =>
    unfold addShort
    split
    · exact bind_behind (addFlag_behind h) ih
    split
    · rfl
    split
    · rfl
    · rfl

end Given

theorem Addition.apply_behind {addition : Addition}
    (h : ∀ name ∈ addition.names, front.lookup name = none) (g : Given) :
    addition.apply accepted (g.behind front) =
      (addition.apply accepted g).map (Given.behind front) := by
  cases addition with
  | pattern text => exact g.addPattern_behind text
  | shorts letters => exact g.addShort_behind (h _ (List.mem_singleton_self _)) letters
  | flag name => exact Given.addFlag_behind (h _ (List.mem_singleton_self _))
  | option name kind value => exact Given.addOption_behind (h _ (List.mem_singleton_self _))

/-- Options that a scan does not name can be set aside. -/
theorem Scan.behind {names : List String} {scan : Given → Except Refusal Given}
    (h : Scan accepted names scan) (hfront : ∀ name ∈ names, front.lookup name = none) (g : Given) :
    scan (g.behind front) = (scan g).map (Given.behind front) := by
  induction h generalizing g with
  | done | refused => rfl
  | add addition hnames _ ih =>
    exact bind_behind (Addition.apply_behind (fun name hname => hfront name (hnames hname)) g) ih

/-! ### Options that are not named -/

namespace Given

theorem get?_of_addFlag {flag : String} (h : g.addFlag flag = .ok g') (hname : name ≠ flag) :
    g'.get? name = g.get? name := by
  simp only [addFlag, Except.ite_error_eq_ok, Except.ok.injEq] at h
  obtain ⟨-, rfl⟩ := h
  simp [get?, List.lookup_append, List.lookup_cons, beq_false_of_ne hname]

theorem get?_of_addOption {option : String} (h : g.addOption option kind value = .ok g')
    (hname : name ≠ option) : g'.get? name = g.get? name := by
  simp only [addOption, Except.ite_error_eq_ok, Except.ok.injEq] at h
  obtain ⟨-, rfl⟩ := h
  simp [get?, List.lookup_append, List.lookup_cons, beq_false_of_ne hname]

theorem get?_of_addPattern {text : String} (h : g.addPattern accepted text = .ok g') :
    g'.get? name = g.get? name := by
  simp only [addPattern, Except.ite_eq_ok, Except.ok.injEq] at h
  obtain ⟨-, rfl⟩ := h
  rfl

theorem get?_of_addShort {topic : HelpTopic} {letters : List Char}
    (h : addShort topic g letters = .ok g') (hname : name ≠ "verbose") :
    g'.get? name = g.get? name := by
  induction letters generalizing g with
  | nil => rw [← Except.ok.inj h]
  | cons c cs ih =>
    unfold addShort at h
    split at h
    · obtain ⟨mid, hflag, hrest⟩ := Except.bind_eq_ok.1 h
      rw [ih hrest, get?_of_addFlag hflag hname]
    · -- the other letters end the scan
      split at h
      · exact absurd h nofun
      split at h <;> exact absurd h nofun

end Given

theorem Addition.get?_of_apply {addition : Addition} (h : addition.apply accepted g = .ok g')
    (hname : name ∉ addition.names) : g'.get? name = g.get? name := by
  cases addition with
  | pattern text => exact Given.get?_of_addPattern h
  | shorts letters => exact Given.get?_of_addShort h (by simpa [Addition.names] using hname)
  | flag flag => exact Given.get?_of_addFlag h (by simpa [Addition.names] using hname)
  | option option kind value =>
    exact Given.get?_of_addOption h (by simpa [Addition.names] using hname)

/-- An option that a scan does not name is given only if it was given before. -/
theorem Scan.get?_of_eq_ok {names : List String} {scan : Given → Except Refusal Given}
    (h : Scan accepted names scan) (hname : name ∉ names) (hscan : scan g = .ok g') :
    g'.get? name = g.get? name := by
  induction h generalizing g with
  | done => rw [← Except.ok.inj hscan]
  | refused => exact absurd hscan nofun
  | add addition hnames _ ih =>
    obtain ⟨mid, hadd, hrest⟩ := Except.bind_eq_ok.1 hscan
    rw [ih hrest, Addition.get?_of_apply hadd fun hmem => hname (hnames hmem)]

/-! ### Options with values -/

/-- A text may follow the name of an option. -/
def OptionKind.Takes (kind : OptionKind) (value : String) : Prop :=
  ArgumentSort.of value = .plain ∧ kind.accepts value = true

instance (kind : OptionKind) (value : String) : Decidable (kind.Takes value) :=
  inferInstanceAs (Decidable (_ ∧ _))

/-- An option with its value is given, or the value is refused. -/
theorem scanArguments_value (hopt : ArgumentSort.of opt = .long name none)
    (hname : accepted.options.lookup name = some kind) (hkind : kind ≠ .flag)
    (hnew : g.get? name = none) (value : String) (args : List String) :
    scanArguments accepted g (opt :: value :: args) =
      if kind.Takes value then
        scanArguments accepted { g with options := g.options ++ [(name, value)] } args
      else .error .usage := by
  have hhas : g.has name = false := by rw [Given.has, show g.options.lookup name = none from hnew]; rfl
  rw [scanArguments_option hopt hname hkind, Given.addOption, hhas]
  by_cases hplain : ArgumentSort.of value = .plain
  · cases haccepts : kind.accepts value with
    | true =>
      have htakes : kind.Takes value := ⟨hplain, haccepts⟩
      simp [hplain, htakes]
      rfl
    | false =>
      have htakes : ¬kind.Takes value := fun h => absurd h.2 (by simp [haccepts])
      simp [hplain, htakes]
      rfl
  · rw [if_neg hplain, if_neg fun h => hplain h.1]

namespace Command

/-- The options that say which graph a query is asked of. -/
def sourceOptions : List String := ["graph", "rules", "passes"]

theorem scanArguments_graph (hgraph : accepted.options.lookup "graph" = some .path) (graph : String)
    (args : List String) :
    scanArguments accepted {} ("--graph" :: graph :: args) =
      if OptionKind.path.Takes graph then
        scanArguments accepted { options := [("graph", graph)] } args
      else .error .usage :=
  scanArguments_value (by decide) hgraph (by decide) rfl graph args

/-- The files and the number of passes that a graph is derived from can be given. -/
def TakesSources (graph rules passes : String) : Prop :=
  OptionKind.path.Takes graph ∧ OptionKind.path.Takes rules ∧ OptionKind.count.Takes passes

instance (graph rules passes : String) : Decidable (TakesSources graph rules passes) :=
  inferInstanceAs (Decidable (_ ∧ _ ∧ _))

theorem scanArguments_sources (hgraph : accepted.options.lookup "graph" = some .path)
    (hrules : accepted.options.lookup "rules" = some .path)
    (hpasses : accepted.options.lookup "passes" = some .count) (graph rules passes : String)
    (args : List String) :
    scanArguments accepted {}
        ("--graph" :: graph :: "--rules" :: rules :: "--passes" :: passes :: args) =
      if TakesSources graph rules passes then
        scanArguments accepted
          { options := [("graph", graph), ("rules", rules), ("passes", passes)] } args
      else .error .usage := by
  have hoptRules : ArgumentSort.of "--rules" = .long "rules" none := by decide
  have hoptPasses : ArgumentSort.of "--passes" = .long "passes" none := by decide
  rw [scanArguments_graph hgraph, scanArguments_value hoptRules hrules (by decide) rfl,
    scanArguments_value hoptPasses hpasses (by decide) rfl]
  unfold TakesSources
  by_cases h₁ : OptionKind.path.Takes graph
  · by_cases h₂ : OptionKind.path.Takes rules
    · simp only [h₁, h₂, if_true, true_and]
      rfl
    · simp only [h₁, h₂, if_true, if_false, true_and, false_and]
  · simp only [h₁, if_false, false_and]

/-- A derivation is asked for, or one of the values is refused. -/
theorem ofDerive_cases (graph rules passes out : String) :
    ofDerive ["--graph", graph, "--rules", rules, "--passes", passes, "--out", out] = .error .usage ∨
      TakesSources graph rules passes ∧ OptionKind.path.Takes out ∧
        ∃ n, readCount passes = some n ∧
          ofDerive ["--graph", graph, "--rules", rules, "--passes", passes, "--out", out] =
            .ok (.derive graph rules n (some out)) := by
  have hoptOut : ArgumentSort.of "--out" = .long "out" none := by decide
  have hnew : Given.get? { options := [("graph", graph), ("rules", rules), ("passes", passes)] } "out" =
    none := rfl
  unfold ofDerive
  rw [scanArguments_sources rfl rfl rfl, scanArguments_value hoptOut rfl (by decide) hnew]
  by_cases hsources : TakesSources graph rules passes
  · by_cases hout : OptionKind.path.Takes out
    · obtain ⟨n, hn⟩ := Option.isSome_iff_exists.1 hsources.2.2.2
      refine .inr ⟨hsources, hout, n, hn, ?_⟩
      have hcount : (some passes >>= readCount).getD defaultPasses = n := by
        rw [Option.bind_eq_bind, Option.bind_some, hn, Option.getD_some]
      rw [if_pos hsources, if_pos hout, ← hcount]
      rfl
    · rw [if_pos hsources, if_neg hout]
      exact .inl rfl
  · rw [if_neg hsources]
    exact .inl rfl

end Command

/-! ### Queries -/

/-- The query of some options, asked of a graph. There has to be a pattern. -/
def Given.query (g : Given) (graph : String) (rules : Option String) (passes : Nat) :
    Except Refusal Command :=
  match g.pattern with
  | some pattern =>
    .ok (.query
      { graph, rules, passes, pattern
        mode := if g.has "scope-list" then .scopeList else .paths
        limit := g.count? "limit"
        start := g.getAll "start"
        json := g.has "json" })
  | none => .error .usage

namespace Command

theorem lookup_of_sourceOptions (hfront : front.map Prod.fst ⊆ sourceOptions) (name : String)
    (hname : name ∉ sourceOptions) : front.lookup name = none := by
  refine List.lookup_eq_none_iff.2 fun entry hentry => bne_iff_ne.2 ?_
  rintro rfl
  exact hname (hfront (List.mem_map_of_mem hentry))

/-- Options of its graph do not change what is asked of it. -/
theorem query_behind (hfront : front.map Prod.fst ⊆ sourceOptions) (graph : String)
    (rules : Option String) (passes : Nat) :
    (g.behind front).query graph rules passes = g.query graph rules passes := by
  have hscope := lookup_of_sourceOptions hfront "scope-list" (by decide)
  have hlimit := lookup_of_sourceOptions hfront "limit" (by decide)
  have hstart := lookup_of_sourceOptions hfront "start" (by decide)
  have hjson := lookup_of_sourceOptions hfront "json" (by decide)
  simp [Given.query, Given.count?, Given.pattern_behind, Given.get?_behind, Given.has_behind,
    Given.getAll_behind, hscope, hlimit, hstart, hjson]

/-- A query whose options in front are those of its graph. -/
theorem ofQuery_of_front {line : List String} (graph : String) (rules passes : Option String)
    (hline : scanArguments queryArguments {} line =
      scanArguments queryArguments { options := front } args)
    (hargs : ∀ name ∈ sourceOptions, name ∉ optionNames args)
    (hfront : front.map Prod.fst ⊆ sourceOptions) (hgraph : front.lookup "graph" = some graph)
    (hrules : front.lookup "rules" = rules) (hpasses : front.lookup "passes" = passes)
    (hneeds : (passes.isSome && !rules.isSome) = false) :
    ofQuery line = scanArguments queryArguments {} args >>= fun asked =>
      asked.query graph rules ((passes >>= readCount).getD defaultPasses) := by
  have hscan := Scan.arguments queryArguments args
  have hbehind : scanArguments queryArguments { options := front } args =
      (scanArguments queryArguments {} args).map (Given.behind front) := by
    have hapart (name : String) (hname : name ∈ optionNames args) : front.lookup name = none :=
      lookup_of_sourceOptions hfront name fun hsource => hargs name hsource hname
    simpa [Given.behind] using hscan.behind hapart {}
  unfold ofQuery
  rw [hline, hbehind]
  cases hasked : scanArguments queryArguments {} args with
  | error refusal => rfl
  | ok asked =>
    have hget (name : String) (hname : name ∈ sourceOptions) :
        (asked.behind front).get? name = front.lookup name := by
      have hfree : asked.get? name = none := hscan.get?_of_eq_ok (hargs name hname) hasked
      rw [Given.get?_behind, hfree, Option.or_none]
    have hgraph := (hget "graph" (by decide)).trans hgraph
    have hrules := (hget "rules" (by decide)).trans hrules
    have hpasses := (hget "passes" (by decide)).trans hpasses
    have hno : ((asked.behind front).has "passes" && !(asked.behind front).has "rules") = false := by
      rw [Given.has, Given.has, ← Given.get?, ← Given.get?, hpasses, hrules, hneeds]
    simp only [bind, Except.bind, Except.map]
    rw [← query_behind hfront]
    simp only [hno, hgraph, hrules, hpasses, Bool.false_eq_true, if_false, Given.count?, Given.query]
    cases (asked.behind front).pattern <;> rfl

/-- Two queries with the same arguments behind the options of their graphs: both are refused alike, or
they ask the same of their graphs. -/
theorem ofQuery_cases {graph rules passes out : String} {n : Nat}
    (hsources : TakesSources graph rules passes) (hout : OptionKind.path.Takes out)
    (hn : readCount passes = some n) (hargs : ∀ name ∈ sourceOptions, name ∉ optionNames args) :
    (∃ refusal, ofQuery ("--graph" :: out :: args) = .error refusal ∧
      ofQuery ("--graph" :: graph :: "--rules" :: rules :: "--passes" :: passes :: args) =
        .error refusal) ∨
    ∃ request : QueryRequest, request.graph = out ∧ request.rules = none ∧
      ofQuery ("--graph" :: out :: args) = .ok (.query request) ∧
      ofQuery ("--graph" :: graph :: "--rules" :: rules :: "--passes" :: passes :: args) =
        .ok (.query { request with graph := graph, rules := some rules, passes := n }) := by
  have hgraph : queryArguments.options.lookup "graph" = some .path := rfl
  have hline := scanArguments_graph hgraph out args
  rw [if_pos hout] at hline
  have hline' := scanArguments_sources hgraph rfl rfl graph rules passes args
  rw [if_pos hsources] at hline'
  rw [ofQuery_of_front out none none hline hargs (by simp [sourceOptions]) rfl rfl rfl rfl,
    ofQuery_of_front graph (some rules) (some passes) hline' hargs (by simp [sourceOptions])
      rfl rfl rfl rfl]
  have hcount : (some passes >>= readCount).getD defaultPasses = n := by
    rw [Option.bind_eq_bind, Option.bind_some, hn, Option.getD_some]
  cases scanArguments queryArguments {} args with
  | error refusal => exact .inl ⟨refusal, rfl, rfl⟩
  | ok asked =>
    rw [hcount]
    simp only [bind, Except.bind, Given.query]
    cases asked.pattern with
    | none => exact .inl ⟨_, rfl, rfl⟩
    | some pattern => exact .inr ⟨_, rfl, rfl, rfl, rfl⟩

end Command

end PatternGraph
