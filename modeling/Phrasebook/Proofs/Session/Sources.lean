import Phrasebook.Proofs.Session.Delivery
import Phrasebook.Proofs.Session.Outcomes

/-!
# What a source puts on show

A source gives a value if it holds it inline, or if no call of its loader comes to anything else.
Then the session shows in this language what the accessors make of that value, or of what it is a
module of, whoever has asked for what before (`displays_of_gives`).
-/

namespace Phrasebook

variable {L : Type}

namespace Source

/-- The source of the language `code` has given this value, and nothing else. -/
def Gives (source : Source L) (code : String) (value : Json) (history : List (Transition L)) :
    Prop :=
  match source with
  | inline dataset => dataset = value
  | loader _ => ∀ transition ∈ history, ∀ result, transition.AnswersLoad code result →
      result = .ok value

/-- The dataset in what a source gives. -/
def dataset : Source L → Json → Json
  | inline _, value => value
  | loader _, value => unwrapModule value

end Source

/-- The snapshot has settled in the language `code` and shows this dataset. -/
structure Snapshot.Displays (config : Configuration L) (code : String) (dataset : Json)
    (snapshot : Snapshot) : Prop where
  settled : snapshot.isSettled = true
  language : snapshot.language = code
  own : snapshot.fallback = false
  strings : Strings.build config.default.schema.value (some dataset) "" config.mode
    = .ok snapshot.strings
  lists : Lists.build config.default.schema.value (some dataset) "" config.mode
    = .ok snapshot.lists

namespace Session

variable {s : Session L} {code initial : String} {config : Configuration L}
  {locked : Option String} {info : LanguageInfo L} {value : Json} {schedule : List Event}
  {transition : Transition L} {result : Except Failure Json}

theorem gives_of_forall_event {loader : L}
    (h : ∀ g result, Event.resume g (.loaded result) ∈ schedule → result = .ok value) :
    (Source.loader loader).Gives code value (s.history schedule) := by
  rintro transition hmem result ⟨g, -, hevent⟩
  refine h g result ?_
  rw [← map_event_history s schedule, ← hevent]
  exact List.mem_map_of_mem hmem

theorem Opens.loader_of_answersLoad (h : Opens config locked initial s)
    (hmem : transition ∈ s.history schedule) (hanswers : transition.AnswersLoad code result) :
    ∃ language, (Registry.ofConfiguration config).find? code = some language ∧
      language.loader ≠ none := by
  obtain ⟨start, -, event, -, rfl⟩ := exists_of_mem_history hmem
  obtain ⟨g, hs, -⟩ := hanswers
  have ho := h.orderly.after start
  obtain ⟨language, hl⟩ := ho.registered g _ hs
  have hl : (s.after start).registry.find? code = some language := hl
  obtain ⟨old, hold, -, hloader, -⟩ := (h.truthful_after start).registry.back code language hl
  exact ⟨old, hold, hloader ▸ ho.loader_of_holding hs rfl hl⟩

/-- A session that has settled in the language `code`, whose source has given nothing but `value`,
shows that. -/
theorem Opens.displays_of_gives (h : Opens config locked initial s)
    (hne : code ≠ config.default.code)
    (hinfo : config.languages.lookup code = some info)
    (hgives : info.source.Gives code value (s.history schedule))
    (hsettled : (s.after schedule).snapshot.isSettled = true)
    (hlanguage : (s.after schedule).snapshot.language = code) :
    (s.after schedule).snapshot.Displays config code (info.source.dataset value) := by
  have hfind : (Registry.ofConfiguration config).find? code = some (.ofInfo code info) := by
    rw [Registry.find?_ofConfiguration hne, hinfo, Option.map_some]
  have hdelivered := h.delivered_after schedule
  have htruthful := h.truthful_after schedule
  have hown : (s.after schedule).snapshot.fallback = false := by
    by_contra hback
    obtain ⟨transition, hmem, failure, hanswers⟩ :=
      hdelivered.fallback (by simpa using hback)
    rw [hlanguage] at hanswers
    obtain ⟨language, hl, hloader⟩ := h.loader_of_answersLoad hmem hanswers
    obtain rfl := Option.some.inj (hfind.symm.trans hl)
    obtain ⟨source, direction⟩ := info
    cases source with
    | inline dataset => exact hloader rfl
    | loader loader => cases hgives transition hmem _ hanswers
  obtain ⟨language, content, hl, hdata, -, hstrings, hlists⟩ := htruthful.coherent.own hown
  rw [hlanguage] at hl
  obtain ⟨old, hold, -, hloader, hkept⟩ := htruthful.registry.back code language hl
  obtain rfl := Option.some.inj (hfind.symm.trans hold)
  obtain rfl : content = info.source.dataset value := by
    obtain ⟨source, direction⟩ := info
    cases source with
    | inline dataset =>
      obtain rfl : dataset = value := hgives
      exact Option.some.inj (hdata.symm.trans (hkept dataset rfl))
    | loader loader =>
      have hsome : language.loader ≠ none := by rw [hloader]; nofun
      obtain ⟨transition, hmem, delivered, hanswers, rfl⟩ :=
        hdelivered.dataset code language content hl hsome hdata
      cases hgives transition hmem _ hanswers
      rfl
  exact ⟨hsettled, hlanguage, hown, hstrings, hlists⟩

end Session

/-! ## Loaders that come to the same each time

Where the calls of each loader all come to the same, a language whose loader delivers can always be
changed to: the request is accepted unless it was the last one, the call returns, and unless a newer
request is accepted meanwhile it returns as applied, with what was delivered on show
(`applies_after`). The store may fail, and so may other loaders.
-/

/-- If a call of a loader ends in the transition, it comes to what this loader always comes to. -/
def Transition.Repeats (outcome : L → Except Failure Json) (transition : Transition L) : Prop :=
  ∀ g loader result, transition.before.errand? g = some (.load loader) →
    transition.event = .resume g (.loaded result) → result = outcome loader

/-- What the loader of a language comes to. -/
def Configuration.outcome (config : Configuration L) (outcome : L → Except Failure Json)
    (code : String) : Except Failure Json :=
  match ((Registry.ofConfiguration config).find? code).bind (·.loader) with
  | some loader => outcome loader
  | none => .error Language.noLoader

namespace Session

/-- In the schedule the calls of each loader that end come to the same. -/
def Repeats (outcome : L → Except Failure Json) (s : Session L) (schedule : List Event) : Prop :=
  ∀ transition ∈ s.history schedule, transition.Repeats outcome

variable {s : Session L} {g : Nat} {code initial : String} {config : Configuration L}
  {locked : Option String} {outcome : L → Except Failure Json} {loader : L}
  {direction : Direction} {value : Json} {earlier later schedule : List Event}

theorem repeats_append :
    s.Repeats outcome (earlier ++ later) ↔
      s.Repeats outcome earlier ∧ (s.after earlier).Repeats outcome later := by
  unfold Repeats
  rw [history_append]
  exact List.forall_mem_append

theorem Truthful.of_errand?_eq_load (h : s.Truthful config)
    (herrand : s.errand? g = some (.load loader)) : ∃ code language, s.At g code .loading ∧
      (Registry.ofConfiguration config).find? code = some language ∧
      language.loader = some loader := by
  obtain ⟨code, stage, hs, hruns⟩ := exists_runs herrand
  cases hruns
  unfold errand? at herrand
  rw [hs] at herrand
  obtain ⟨found, hfound, hsame⟩ := Option.map_eq_some_iff.1 herrand
  cases hsame
  obtain ⟨language, hl, hloader⟩ := Option.bind_eq_some_iff.1 hfound
  obtain ⟨old, hold, -, hkept, -⟩ := h.registry.back code language hl
  exact ⟨code, old, hs, hold, hkept.symm.trans hloader⟩

theorem Opens.gives_of_repeats (h : Opens config locked initial s)
    (hne : code ≠ config.default.code)
    (hinfo : config.languages.lookup code = some ⟨.loader loader, direction⟩)
    (hvalue : outcome loader = .ok value) (hrepeats : s.Repeats outcome schedule) :
    (Source.loader loader).Gives code value (s.history schedule) := by
  rintro transition hmem result ⟨g, hat, hevent⟩
  obtain ⟨start, rest, event, -, rfl⟩ := exists_of_mem_history hmem
  obtain ⟨called, herrand⟩ := (h.orderly.after start).exists_errand hat
  obtain ⟨other, language, hother, hl, hcalled⟩ :=
    (h.truthful_after start).of_errand?_eq_load herrand
  cases Option.some.inj (hat.symm.trans hother)
  rw [Registry.find?_ofConfiguration hne, hinfo, Option.map_some] at hl
  obtain rfl := Option.some.inj hl
  cases hcalled
  exact (hrepeats _ hmem g loader result herrand hevent).trans hvalue

/-! ### Calls that return -/

theorem exists_returning (hwaits : s.result? g = none)
    (hend : ∃ result, (s.after schedule).result? g = some result) :
    ∃ start event rest result, schedule = start ++ [event] ++ rest ∧
      (s.after start).result? g = none ∧ (s.after (start ++ [event])).result? g = some result := by
  induction schedule generalizing s with
  | nil =>
    obtain ⟨result, hresult⟩ := hend
    cases hwaits.symm.trans hresult
  | cons first more ih =>
    cases hnext : (s.next first).result? g with
    | some result => exact ⟨[], first, more, result, rfl, hwaits, hnext⟩
    | none =>
      obtain ⟨start, event, rest, result, rfl, hbefore, hafter⟩ := ih hnext hend
      exact ⟨first :: start, event, rest, result, rfl, hbefore, hafter⟩

/-- From any state the switches can be served by loaders that come to the same each time, until all
of them have ended. -/
theorem Regular.exists_quiescent (h : s.Regular config locked initial)
    (outcome : L → Except Failure Json) :
    ∃ schedule, (s.after schedule).Quiescent ∧ requests schedule = [] ∧
      s.Repeats outcome schedule := by
  obtain ⟨schedule, hquiet, hsteps⟩ :=
    h.orderly.exists_quiescent (steadyReply (config.outcome outcome))
      (fun _ _ _ _ ho hat hrun => steadyReply_takes ho hat hrun)
  have hnone : requests schedule = [] := requests_eq_nil fun transition hmem => by
    obtain ⟨g, hevent⟩ := hsteps transition hmem
    exact ⟨g, _, hevent⟩
  refine ⟨schedule, hquiet, hnone, fun transition hmem g loader result herrand hresume => ?_⟩
  obtain ⟨served, hevent⟩ := hsteps transition hmem
  obtain ⟨rfl, hanswer⟩ := Event.resume.inj (hresume.symm.trans hevent)
  obtain ⟨start, rest, event, -, rfl⟩ := exists_of_mem_history hmem
  obtain ⟨code, language, hat, hl, hloader⟩ :=
    (h.after start).truthful.of_errand?_eq_load herrand
  have hreply : steadyReply (config.outcome outcome) (s.after start) g
      = .loaded (config.outcome outcome code) := by
    unfold steadyReply
    rw [hat, herrand]
    rfl
  rw [Answer.loaded.inj (hanswer.trans hreply)]
  unfold Configuration.outcome
  rw [hl, Option.bind_some, hloader]

/-- The language `code`, whose dataset this is, can be changed to in `s`, if the calls of each
loader come to the same. -/
structure Applies (config : Configuration L) (outcome : L → Except Failure Json) (code : String)
    (dataset : Json) (s : Session L) : Prop where
  accepted : s.snapshot.requested ≠ code → ∃ g, (s.request code).2 = .accepted g
  /-- A call that no newer one overtakes returns as applied. -/
  applied : ∀ g between event result, s.Call code g between event result →
    s.Repeats outcome (.request code :: (between ++ [event])) →
    (∀ newer ∈ (s.next (.request code)).history between, newer.accepted? = none) →
    result = .ok .applied ∧ (s.returning code between event).after.snapshot.Displays config code
      dataset
  /-- A call that has not returned yet does if the switches go on for long enough. -/
  returns : ∀ g between, (s.request code).2 = .accepted g →
    s.Repeats outcome (.request code :: between) →
    (s.after (.request code :: between)).result? g = none → ∃ rest event result,
      requests (rest ++ [event]) = [] ∧
      s.Repeats outcome (.request code :: (between ++ rest ++ [event])) ∧
      s.Call code g (between ++ rest) event result

theorem Opens.applies_after (h : Opens config none initial s) (hne : code ≠ config.default.code)
    (hinfo : config.languages.lookup code = some ⟨.loader loader, direction⟩)
    (hvalue : outcome loader = .ok value) (hearlier : s.Repeats outcome earlier) :
    (s.after earlier).Applies config outcome code (unwrapModule value) := by
  have hmid := h.regular.after earlier
  have hfind : (Registry.ofConfiguration config).find? code
      = some (.ofInfo code ⟨.loader loader, direction⟩) := by
    rw [Registry.find?_ofConfiguration hne, hinfo, Option.map_some]
  constructor
  case accepted =>
    intro hrequested
    have hcontains : (s.after earlier).registry.contains code = true := by
      rw [hmid.truthful.registry.contains]
      exact Registry.contains_iff.2 ⟨_, hfind⟩
    have hcurrent : (s.after earlier).isCurrent code = false := by
      unfold isCurrent
      rw [decide_eq_false hrequested, Bool.false_and]
    rcases (s.after earlier).request_cases code with
      ⟨-, -, -, hreq⟩ | ⟨hlocked | hnot | hcur, -, -⟩
    · exact ⟨_, congrArg Prod.snd hreq⟩
    · rw [hmid.locked] at hlocked
      cases hlocked
    · cases hcontains.symm.trans hnot
    · cases hcurrent.symm.trans hcur
  case applied =>
    intro g between event result hcall hrepeats hlast
    obtain ⟨outcome', rfl, htells⟩ := hcall.tells hmid
    have hrun : (((s.after earlier).next (.request code)).after (between ++ [event]))
        = s.after (earlier ++ .request code :: (between ++ [event])) :=
      (after_append s earlier (.request code :: (between ++ [event]))).symm
    have hgives := h.gives_of_repeats hne hinfo hvalue (repeats_append.2 ⟨hearlier, hrepeats⟩)
    cases htells with
    | applied hsettled hlanguage _ _ =>
      refine ⟨rfl, ?_⟩
      unfold returning at hsettled hlanguage ⊢
      simp only [hrun] at hsettled hlanguage ⊢
      exact h.displays_of_gives hne hinfo hgives hsettled hlanguage
    | fellBack hsettled hlanguage hback _ _ =>
      unfold returning at hsettled hlanguage hback
      simp only [hrun] at hsettled hlanguage hback
      cases (h.displays_of_gives hne hinfo hgives hsettled hlanguage).own.symm.trans hback
    | superseded hmem haccepts _ =>
      cases (hlast _ hmem).symm.trans (Transition.accepted?_of_accepts haccepts)
  case returns =>
    intro g between haccepted hrepeats hwaits
    have hasked := hmid.after (.request code :: between)
    obtain ⟨schedule, hquiet, hnone, hserved⟩ := hasked.exists_quiescent outcome
    obtain ⟨hat, -⟩ := hmid.orderly.numbered.of_accepted haccepted
    have hend : ∃ result,
        ((s.after earlier).after (.request code :: (between ++ schedule))).result? g
          = some result :=
      (hmid.next (.request code)).orderly.exists_result? hat (by
        rw [after_append]
        exact hquiet)
    obtain ⟨start, event, rest, result, rfl, hbefore, hafter⟩ :=
      exists_returning hwaits (by rwa [← after_append])
    rw [requests_append, List.append_eq_nil_iff] at hnone
    refine ⟨start, event, result, hnone.1, ?_, haccepted, ?_, ?_⟩
    · have hsplit : .request code :: (between ++ start ++ [event])
          = .request code :: between ++ (start ++ [event]) := by simp
      rw [hsplit, repeats_append]
      exact ⟨hrepeats, (repeats_append.1 hserved).1⟩
    · rw [after_append]
      exact hbefore
    · rw [List.append_assoc, after_append]
      exact hafter

end Session

end Phrasebook
