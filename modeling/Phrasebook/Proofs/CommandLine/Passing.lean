import Phrasebook.CommandLine
import Phrasebook.Proofs.Accessor.Lookup
import Phrasebook.Proofs.Session.Sources
import Phrasebook.Proofs.Validation.Findings

/-!
# What a check promises

If the program that checks datasets ends with code 0 and the loaders go on to deliver what they
delivered to it, then a session on the same manifest can be changed to each language, and shows the
dataset's own values except at and below the paths where a warning said that a key is missing
(`usable_of_passes`). The program and the session load and compare on their own; what they have in
common is the dataset in what a loader delivers.
-/

namespace Phrasebook

/-- The host's calls of each loader of the configuration all come to the same. -/
def Host.IsSteady {World : Type} (host : Host (StateM World))
    (config : Configuration DatasetSource) (outcome : DatasetSource → Except Failure Json) : Prop :=
  ∀ code info loader, (code, info) ∈ config.languages → info.source = .loader loader →
    ∀ world, ((loader.load host).run world).1 = outcome loader

namespace CommandLine

/-- What a snapshot shows at a leaf of the schema, where `lines` were printed about the dataset: the
dataset's own value, or what is shown without a dataset, and then a warning said that a key is
missing at this place or above. -/
inductive ShowsLeaf (mode : FallbackMode) (dataset : Json) (lines : List String)
    (snapshot : Snapshot) (place : List String) (leaf : Json) : Prop where
  | own {found : Json} : dataset.follow? place = some found → leaf.fits found = true →
      snapshot.strings.follow? place
        = Strings.expected mode (KeyPath.below "" place) (some leaf) (some found) →
      snapshot.lists.follow? place = Lists.expected mode (some leaf) (some found) →
      ShowsLeaf mode dataset lines snapshot place leaf
  | fallback {above : List String} : dataset.follow? place = none →
      snapshot.strings.follow? place
        = Strings.expected mode (KeyPath.below "" place) (some leaf) none →
      snapshot.lists.follow? place = Lists.expected mode (some leaf) none →
      above <+: place → "  warning: Missing key: " ++ KeyPath.below "" above ∈ lines →
      ShowsLeaf mode dataset lines snapshot place leaf

/-- Sessions of this configuration can use the dataset of `code`, about which `lines` were
printed. -/
structure Usable {L : Type} (config : Configuration L) (outcome : L → Except Failure Json)
    (code : String) (dataset : Json) (lines : List String) : Prop where
  /-- Nothing in the dataset is of a wrong shape. -/
  fits : ∀ place value found, config.default.schema.value.follow? place = some value →
    dataset.follow? place = some found → value.fits found = true
  /-- An unlocked session can be changed to the language at any time. -/
  applies : ∀ (around : Surroundings) (s : Session L) (schedule : List Event),
    (around.start config none).1 = .ok s → s.Repeats outcome schedule →
    (s.after schedule).Applies config outcome code dataset
  /-- What it shows after that. -/
  shows : ∀ snapshot : Snapshot, snapshot.Displays config code dataset →
    ∀ place leaf, config.default.schema.value.follow? place = some leaf → leaf.isLeaf = true →
      ShowsLeaf config.mode dataset lines snapshot place leaf

/-! ## One language -/

variable {schema dataset leaf : Json} {code : String} {place : List String}

theorem mem_reportLines {report : Report} {finding : Finding} (h : finding ∈ report.warnings) :
    "  warning: " ++ finding.message ∈ reportLines code report := by
  have hnot : report.isClean = false := by
    have hsome : report.hasWarnings = true := by
      unfold Report.hasWarnings
      rw [List.isEmpty_eq_false_iff.2 (List.ne_nil_of_mem h)]
      rfl
    unfold Report.isClean
    rw [hsome, Bool.not_true, Bool.and_false]
  unfold reportLines
  rw [hnot]
  exact List.mem_append_right _ (List.mem_map_of_mem h)

theorem showsLeaf_of_not_hasErrors {mode : FallbackMode} {snapshot : Snapshot}
    (h : (Report.of schema dataset).hasErrors = false)
    (hstrings : Strings.build schema (some dataset) "" mode = .ok snapshot.strings)
    (hlists : Lists.build schema (some dataset) "" mode = .ok snapshot.lists)
    (hleaf : schema.follow? place = some leaf) :
    ShowsLeaf mode dataset (reportLines code (.of schema dataset)) snapshot place leaf := by
  have hstring : snapshot.strings.follow? place = Strings.expected mode (KeyPath.below "" place)
      (some leaf) (dataset.follow? place) := by
    rw [Strings.follow?_eq hstrings, hleaf]
    rfl
  have hlist : snapshot.lists.follow? place
      = Lists.expected mode (some leaf) (dataset.follow? place) := by
    rw [Lists.follow?_eq hlists, hleaf]
    rfl
  cases hfound : dataset.follow? place with
  | some found =>
    rw [hfound] at hstring hlist
    exact .own hfound (Report.fits_of_not_hasErrors h hleaf hfound) hstring hlist
  | none =>
    rw [hfound] at hstring hlist
    obtain ⟨above, habove, hwarning⟩ := Report.exists_missingKey h hleaf hfound
    exact .fallback hfound hstring hlist habove (mem_reportLines hwarning)

/-- A language whose check does not fail can be used. -/
theorem usable_of_not_failed {L : Type} {config : Configuration L}
    {outcome : L → Except Failure Json} {loader : L} {direction : Direction}
    (hne : code ≠ config.default.code)
    (hinfo : config.languages.lookup code = some ⟨.loader loader, direction⟩)
    (h : (LanguageCheck.of config.default.schema code (outcome loader)).failed = false) :
    ∃ value, outcome loader = .ok value ∧
      Usable config outcome code (unwrapModule value)
        (LanguageCheck.of config.default.schema code (outcome loader)).lines := by
  cases hvalue : outcome loader with
  | error failure =>
    rw [hvalue] at h
    cases h
  | ok value =>
    rw [hvalue] at h
    have herrors : (Report.of config.default.schema.value (unwrapModule value)).hasErrors = false :=
      h
    exact ⟨value, rfl, {
      fits := fun _ _ _ => Report.fits_of_not_hasErrors herrors
      applies := fun _ _ _ hstart hrepeats =>
        (Surroundings.opens_of_start hstart).1.applies_after hne hinfo hvalue hrepeats
      shows := fun _ hdisplays _ _ hleaf _ =>
        showsLeaf_of_not_hasErrors herrors hdisplays.strings hdisplays.lists hleaf }⟩

/-! ## The program -/

section Program

variable {World : Type} {host : Host (StateM World)} {config : Configuration DatasetSource}
  {outcome : DatasetSource → Except Failure Json} {env : Environment} {arguments : List String}
  {path : String} {world after : World} {loader : DatasetSource} {direction : Direction}

theorem run_mapM {α β : Type} {action : α → StateM World β} {f : α → β} {xs : List α}
    (h : ∀ x ∈ xs, ∀ world, ((action x).run world).1 = f x) (world : World) :
    ((xs.mapM action).run world).1 = xs.map f := by
  induction xs generalizing world with
  | nil => rfl
  | cons x rest ih =>
    obtain ⟨hfirst, hrest⟩ := List.forall_mem_cons.1 h
    rw [List.mapM_cons, List.map_cons, ← hfirst world, ← ih hrest ((action x).run world).2]
    rfl

theorem run_orElse {ε α : Type} (obstacle : ε → Obstacle) (answer : StateM World (Except ε α))
    (world : World) : (orElse obstacle answer).run.run world =
      ((answer.run world).1.mapError obstacle, (answer.run world).2) :=
  rfl

theorem of_run_configure {manifest : Manifest}
    (h : (orElse .failure (manifest.configure host)).run.run world = (.ok config, after)) :
    ∃ schema, config = manifest.configuration schema := by
  rw [run_orElse] at h
  have hok := congrArg Prod.fst h
  unfold Manifest.configure at hok
  simp only [StateT.run_bind] at hok
  rcases hread : (host.readJson "default strings" manifest.defaultPath).run world with
    ⟨failure | value, read⟩
  · rw [hread] at hok
    cases hok
  · rw [hread] at hok
    cases hschema : Schema.ofJson value with
    | error fault =>
      simp only [bind, hschema] at hok
      cases hok
    | ok schema =>
      simp only [bind, hschema] at hok
      cases hok
      exact ⟨schema, rfl⟩

theorem exists_manifest (h : (configurationOf host path).run.run world = (.ok config, after)) :
    ∃ (manifest : Manifest) (schema : Schema), config = manifest.configuration schema := by
  unfold configurationOf at h
  simp only [ExceptT.run_bind, StateT.run_bind, run_orElse] at h
  rcases hread : (Manifest.ofFile host path).run world with ⟨failure | manifest, read⟩
  · rw [hread] at h
    cases h
  · rw [hread] at h
    obtain ⟨schema, hschema⟩ := of_run_configure h
    exact ⟨manifest, schema, hschema⟩

theorem exists_loader (h : (configurationOf host path).run.run world = (.ok config, after))
    (hcode : code ∈ config.languages.map (·.1)) :
    ∃ loader direction, config.languages.lookup code = some ⟨.loader loader, direction⟩ := by
  obtain ⟨manifest, schema, rfl⟩ := exists_manifest h
  obtain ⟨⟨name, info⟩, hmem, rfl⟩ := List.mem_map.1 hcode
  obtain ⟨found, hfound⟩ := Option.isSome_iff_exists.1
    (List.lookup_isSome_iff.2 ⟨_, hmem, beq_self_eq_true name⟩)
  obtain ⟨entry, -, hentry⟩ := List.mem_map.1 (Json.mem_of_lookup hfound)
  cases hentry
  exact ⟨_, _, hfound⟩

theorem not_failed_of_exitOf {checks : List LanguageCheck} (h : (exitOf checks).code = 0) :
    ∀ check ∈ checks, check.failed = false := by
  have hnone : checks.any (·.failed) = false := by
    unfold exitOf at h
    cases hany : checks.any (·.failed) with
    | false => rfl
    | true =>
      rw [hany] at h
      cases h
  simpa using hnone

/-- What ends with code 0 has read the configuration of a manifest, and no check has failed. -/
theorem exists_configuration (h : ((checkDatasets host env arguments).run world).1.code = 0) :
    ∃ path config after, (arguments.head? <|> env.lookup "STRINGS_MANIFEST") = some path ∧
      (configurationOf host path).run.run world = (.ok config, after) ∧
      let checks := ((checkLanguages (DatasetSource.load host) config).run after).1
      ((checkDatasets host env arguments).run world).1 = exitOf checks ∧
        ∀ check ∈ checks, check.failed = false := by
  have hrun : ((checkDatasets host env arguments).run world).1
      = .ofResult ((check? host env arguments).run.run world).1 := rfl
  rw [hrun] at h ⊢
  unfold check? at h ⊢
  cases hpath : arguments.head? <|> env.lookup "STRINGS_MANIFEST" with
  | none =>
    rw [hpath] at h
    cases h
  | some path =>
    rw [hpath] at h
    simp only [ExceptT.run_bind, StateT.run_bind] at h ⊢
    rcases hconfig : (configurationOf host path).run.run world with ⟨obstacle | config, after⟩
    · rw [hconfig] at h
      cases h
    · rw [hconfig] at h
      refine ⟨path, config, after, rfl, hconfig, ?_, ?_⟩
      · rfl
      · exact not_failed_of_exitOf h

/-- The check of a language where each loader comes to its outcome. -/
def checkOf (config : Configuration DatasetSource)
    (outcome : DatasetSource → Except Failure Json)
    (entry : String × LanguageInfo DatasetSource) : LanguageCheck :=
  .of config.default.schema entry.1 (askSource (m := Id) outcome entry.2.source)

/-- Where the loaders come to the same each time, the checks do not depend on the world. -/
theorem run_checkLanguages (hsteady : host.IsSteady config outcome) (world : World) :
    ((checkLanguages (DatasetSource.load host) config).run world).1 =
      config.languages.map (checkOf config outcome) := by
  refine run_mapM (fun (code, info) hmem world => ?_) world
  obtain ⟨source, direction⟩ := info
  cases source with
  | inline dataset => rfl
  | loader loader =>
    have hload := hsteady code _ loader hmem rfl world
    exact congrArg (LanguageCheck.of config.default.schema code) hload

/-- **What passes the check can be used.** If the program ends with code 0 and the loaders come to
the same each time they are called, then sessions can use every language but the default one: a
change to it is accepted, returns and is applied, and what is shown after it falls back only where
the program printed that a key is missing. -/
theorem usable_of_passes (h : ((checkDatasets host env arguments).run world).1.code = 0) :
    ∃ path config after, (arguments.head? <|> env.lookup "STRINGS_MANIFEST") = some path ∧
      (configurationOf host path).run.run world = (.ok config, after) ∧
      ∀ outcome, host.IsSteady config outcome →
        ∀ code ∈ config.languages.map (·.1), code ≠ config.default.code →
          ∃ loader direction value,
            config.languages.lookup code = some ⟨.loader loader, direction⟩ ∧
            outcome loader = .ok value ∧
            (LanguageCheck.of config.default.schema code (.ok value)).lines <:+:
              ((checkDatasets host env arguments).run world).1.lines ∧
            Usable config outcome code (unwrapModule value)
              (LanguageCheck.of config.default.schema code (.ok value)).lines := by
  obtain ⟨path, config, after, hpath, hconfig, hexit, hpassed⟩ := exists_configuration h
  refine ⟨path, config, after, hpath, hconfig, fun outcome hsteady code hcode hne => ?_⟩
  obtain ⟨loader, direction, hinfo⟩ := exists_loader hconfig hcode
  rw [run_checkLanguages hsteady] at hexit hpassed
  have hmem : LanguageCheck.of config.default.schema code (outcome loader) ∈
      config.languages.map (checkOf config outcome) :=
    List.mem_map_of_mem (Json.mem_of_lookup hinfo)
  obtain ⟨value, hvalue, husable⟩ := usable_of_not_failed hne hinfo (hpassed _ hmem)
  rw [hvalue] at hmem husable
  refine ⟨loader, direction, value, hinfo, hvalue, ?_, husable⟩
  rw [hexit]
  exact List.infix_of_mem_flatten (List.mem_map_of_mem hmem)

end Program

/-- A system with a manifest and two datasets, the second of which misses a key. -/
def greetings : Host (StateM Unit) where
  readText path := return match path with
    | "m.json" => .ok "\x7b\"default\":\x7b\"code\":\"en\",\"path\":\"en.json\"\x7d,
        \"languages\":\x7b\"fr\":\x7b\"path\":\"fr.json\"\x7d\x7d\x7d"
    | "en.json" => .ok "\x7b\"hello\":\"Hello\",\"bye\":\"Bye\"\x7d"
    | "fr.json" => .ok "\x7b\"hello\":\"Bonjour\"\x7d"
    | _ => .error (.missing "no such file")
  createFolders _ := return .ok ()
  writeText _ _ := return .ok ()
  request _ := return .error "no network"
  wait _ := return ()

/-- The check of the French dataset passes, and sessions can use it. -/
theorem usable_of_passes_greetings :
    ((checkDatasets greetings [] ["m.json"]).run ()).1.code = 0 ∧
      ((checkDatasets greetings [] ["m.json"]).run ()).1.lines
        = ["fr: 0 error(s), 1 warning(s)", "  warning: Missing key: bye"] ∧
      ∃ config after outcome value,
        (configurationOf greetings "m.json").run.run () = (.ok config, after) ∧
        greetings.IsSteady config outcome ∧
        Usable config outcome "fr" (unwrapModule value)
          (LanguageCheck.of config.default.schema "fr" (.ok value)).lines := by
  have hrun : ((checkDatasets greetings [] ["m.json"]).run ()).1
      = ⟨["fr: 0 error(s), 1 warning(s)", "  warning: Missing key: bye"], 0, []⟩ := by
    decide +kernel
  have hpassed : ((checkDatasets greetings [] ["m.json"]).run ()).1.code = 0 := by rw [hrun]
  obtain ⟨path, config, after, hpath, hconfig, husable⟩ := usable_of_passes hpassed
  obtain rfl : "m.json" = path := Option.some.inj hpath
  have hcodes : ((configurationOf greetings "m.json").run.run ()).1.toOption.map
      (fun config => (config.languages.map (·.1), config.default.code)) = some (["fr"], "en") := by
    decide +kernel
  rw [hconfig] at hcodes
  obtain ⟨hlanguages, hdefault⟩ := Prod.mk.inj (Option.some.inj hcodes)
  have hsteady : greetings.IsSteady config fun loader => ((loader.load greetings).run ()).1 :=
    fun _ _ _ _ _ _ => rfl
  obtain ⟨loader, direction, value, -, -, -, hfrench⟩ :=
    husable _ hsteady "fr" (by rw [hlanguages]; decide) (by rw [hdefault]; decide)
  exact ⟨hpassed, by rw [hrun], config, after, _, value, hconfig, hsteady, hfrench⟩

end CommandLine

end Phrasebook
