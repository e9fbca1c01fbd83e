import Phrasebook.CommandLine
import Phrasebook.Proofs.Session.Sources
import Phrasebook.Proofs.Validation.Shapes

/-!
# Datasets that are used key for key

A dataset that mirrors the schema is shown as it is, and the program that checks datasets finds
nothing wrong with its shape, whether it was given inline or delivered by a loader. The exception
are schemas with an object under the name `default`: what a loader delivers for such a schema is
taken for a module, by the session and by the program alike.
-/

namespace Phrasebook.CommandLine

variable {L : Type}

/-- The dataset of the language `code` is used key for key, if this is what its source gives. -/
structure UsesKeyForKey (config : Configuration L) (code : String) (info : LanguageInfo L)
    (dataset : Json) : Prop where
  /-- A session that has settled in this language shows the dataset's own strings and lists. -/
  shown : ∀ (around : Surroundings) (locked : Option String) (s : Session L)
    (schedule : List Event), (around.start config locked).1 = .ok s →
    info.source.Gives code dataset (s.history schedule) →
    (s.after schedule).snapshot.isSettled = true →
    (s.after schedule).snapshot.language = code →
    (s.after schedule).snapshot.Displays config code dataset
  /-- The program that checks datasets reports no more than texts that drift. -/
  checked : let report := Report.of config.default.schema.value (unwrapModule dataset)
    LanguageCheck.of config.default.schema code (.ok dataset) = ⟨reportLines code report, false⟩ ∧
      ∀ finding ∈ report.findings, finding.isDrift = true

/-- The dataset of the language `code` is taken for a module, if this is what its source gives. -/
structure TakenForModule (config : Configuration L) (code : String) (info : LanguageInfo L)
    (dataset : Json) : Prop where
  unwrapped : ∃ values, dataset.get? "default" = some (.obj values) ∧
    unwrapModule dataset = .obj values
  /-- A session that has settled in this language shows what is in the module, if it was loaded. -/
  shown : ∀ (around : Surroundings) (locked : Option String) (s : Session L)
    (schedule : List Event), (around.start config locked).1 = .ok s →
    (∃ loader, info.source = .loader loader) → info.source.Gives code dataset (s.history schedule) →
    (s.after schedule).snapshot.isSettled = true →
    (s.after schedule).snapshot.language = code →
    (s.after schedule).snapshot.Displays config code (unwrapModule dataset)
  /-- The program that checks datasets reports more than texts that drift. -/
  checked : let report := Report.of config.default.schema.value (unwrapModule dataset)
    (LanguageCheck.of config.default.schema code (.ok dataset)).lines = reportLines code report ∧
      ∃ finding ∈ report.findings, finding.isDrift = false

/-- **A dataset of the schema's shape is used key for key** if and only if the schema has no object
under the name `default`; else it is taken for a module. -/
theorem usesKeyForKey_iff {config : Configuration L} {code : String} {info : LanguageInfo L}
    {dataset : Json} (hne : code ≠ config.default.code)
    (hinfo : config.languages.lookup code = some info)
    (hmirrored : config.default.schema.value.mirroredBy dataset = true) :
    (UsesKeyForKey config code info dataset ↔
        ∀ fields, config.default.schema.value.get? "default" ≠ some (.obj fields)) ∧
      ∀ fields, config.default.schema.value.get? "default" = some (.obj fields) →
        TakenForModule config code info dataset := by
  refine ⟨⟨fun h fields hdefault => ?_, fun hdefault => ?_⟩, fun fields hdefault => ?_⟩
  · obtain ⟨finding, hmem, hnot⟩ := exists_not_isDrift hmirrored hdefault ""
    rw [h.checked.2 finding hmem] at hnot
    cases hnot
  · have hself : unwrapModule dataset = dataset :=
      unwrapModule_eq_self (Json.get?_ne_obj_of_mirroredBy hmirrored hdefault)
    have htaken : info.source.dataset dataset = dataset := by
      obtain ⟨source, direction⟩ := info
      cases source with
      | inline given => rfl
      | loader loader => exact hself
    constructor
    case shown =>
      intro around locked s schedule hstart hgives hsettled hlanguage
      have hopens := (Surroundings.opens_of_start hstart).1
      have hdisplays := hopens.displays_of_gives hne hinfo hgives hsettled hlanguage
      rwa [htaken] at hdisplays
    case checked =>
      have hdrift : ∀ finding ∈ (Report.of config.default.schema.value dataset).findings,
          finding.isDrift = true :=
        isDrift_of_mirroredBy _ _ "" hmirrored
      simp only [LanguageCheck.of, hself, Report.hasErrors_of_isDrift hdrift, true_and]
      exact hdrift
  · obtain ⟨values, hget, hvalues, -⟩ := exists_unwrapModule hmirrored hdefault
    constructor
    case unwrapped => exact ⟨values, hget, hvalues⟩
    case shown =>
      rintro around locked s schedule hstart ⟨loader, hloader⟩ hgives hsettled hlanguage
      have hopens := (Surroundings.opens_of_start hstart).1
      have hdisplays := hopens.displays_of_gives hne hinfo hgives hsettled hlanguage
      rwa [hloader] at hdisplays
    case checked => exact ⟨rfl, exists_not_isDrift hmirrored hdefault ""⟩

/-- English with a table under the name `default`, and French from a loader. -/
def tabled : Configuration Unit where
  default :=
    { code := "en"
      schema := ⟨.obj [("default", .obj [("a", .str "A")]), ("b", .str "B")], rfl⟩
      direction := .ltr }
  languages := [("fr", { source := .loader (), direction := .ltr })]

def tabledFrench : Json := .obj [("default", .obj [("a", .str "Ä")]), ("b", .str "Bé")]

def tabledRun : List Event :=
  [.request "fr", .resume 1 .proceed, .resume 1 (.loaded (.ok tabledFrench)), .resume 1 .proceed]

/-- French is asked for, stored, delivered and faded in; French with a table is not. -/
theorem usesKeyForKey_iff_bilingual :
    UsesKeyForKey Configuration.bilingual "fr" ⟨.loader (), .ltr⟩
        (.obj [("hello", .str "Bonjour")]) ∧
      (∃ s, ((Surroundings.remembering none).start Configuration.bilingual none).1 = .ok s ∧
        (s.after [.request "fr", .resume 1 .proceed, .resume 1 (.stored true),
          .resume 1 (.loaded (.ok (.obj [("hello", .str "Bonjour")]))),
          .resume 1 .proceed]).snapshot.isSettled = true ∧
        (s.after [.request "fr", .resume 1 .proceed, .resume 1 (.stored true),
          .resume 1 (.loaded (.ok (.obj [("hello", .str "Bonjour")]))),
          .resume 1 .proceed]).snapshot.language = "fr") ∧
      TakenForModule tabled "fr" ⟨.loader (), .ltr⟩ tabledFrench := by
  have hstart : ((Surroundings.remembering none).start Configuration.bilingual none).1
      = .ok _ := rfl
  refine ⟨(usesKeyForKey_iff (by decide) rfl (by decide +kernel)).1.2 fun fields hdefault => ?_,
    ⟨_, hstart, by decide +kernel, by decide +kernel⟩,
    (usesKeyForKey_iff (by decide) rfl (by decide +kernel)).2 _ rfl⟩
  cases hdefault

theorem not_usesKeyForKey_tabled :
    tabled.default.schema.value.mirroredBy tabledFrench = true ∧
      ¬ UsesKeyForKey tabled "fr" ⟨.loader (), .ltr⟩ tabledFrench ∧
      (LanguageCheck.of tabled.default.schema "fr" (.ok tabledFrench)).lines =
        ["fr: 0 error(s), 3 warning(s)", "  warning: Missing key: default",
          "  warning: Missing key: b", "  warning: Extra key: a"] := by
  refine ⟨by decide +kernel, fun h => ?_, by decide +kernel⟩
  have hstart : ((Surroundings.remembering none).start tabled none).1 = .ok _ := rfl
  have hdisplays := h.shown _ none _ tabledRun hstart
    (Session.gives_of_forall_event (by simp [tabledRun])) (by decide +kernel) (by decide +kernel)
  have hb := congrArg (fun built => built.toOption.bind (·.get? "b")) hdisplays.strings
  revert hb
  decide +kernel

end Phrasebook.CommandLine
