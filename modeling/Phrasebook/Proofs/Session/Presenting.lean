import Phrasebook.Proofs.Session.Outcomes

/-!
# What the presentation is told

The presentation is told the language and the direction of each snapshot that resolves a language,
and nothing else. A switch resolves its language once, while it is the newest: before, it is open,
and afterwards it is not. So the generations of the switches that are told of ascend, and whoever
is overtaken while open is never told of.
-/

namespace Phrasebook

variable {L : Type}

/-- What a transition shows to the presentation, if it resolves a language. -/
def Transition.shown? (transition : Transition L) : Option (String × Direction) :=
  transition.resolver?.map fun _ =>
    (transition.after.snapshot.language, transition.after.snapshot.direction)

/-- The switches that resolve a language in a history, the first one first. -/
def resolvers (history : List (Transition L)) : List Nat :=
  history.filterMap Transition.resolver?

theorem resolvers_append (earlier later : List (Transition L)) :
    resolvers (earlier ++ later) = resolvers earlier ++ resolvers later :=
  List.filterMap_append

namespace Session

variable {s t : Session L} {g x : Nat} {code initial : String} {answer : Answer}
  {stage : Stage} {event : Event} {config : Configuration L} {locked : Option String}
  {first : List (String × Direction)} {history : List (Transition L)}

theorem landing_not_isOpen (fallback fresh : Bool) : ¬ (landing fallback fresh).IsOpen := by
  cases fresh <;> exact id

/-! ## One event -/

theorem shown?_eq_none (h : Transition.resolver? ⟨s, event, t⟩ = none) :
    Transition.shown? ⟨s, event, t⟩ = none := by
  unfold Transition.shown?
  rw [h]
  rfl

/-- The presentation is told of the snapshot that resolves a language, and of nothing else. -/
theorem Step.applied (hstep : s.Step event t) (hp : s.Phased initial) :
    t.applied = s.applied ++ (Transition.shown? ⟨s, event, t⟩).toList := by
  have hsame : t.snapshot.pending = s.snapshot.pending → t.applied = s.applied →
      t.applied = s.applied ++ (Transition.shown? ⟨s, event, t⟩).toList :=
    fun hpending happlied => by
      rw [shown?_eq_none (resolver?_of_pending hpending), happlied]
      simp
  cases hstep with
  | refused _ _ => exact hsame rfl rfl
  | accepted _ _ _ _ => exact (List.append_nil s.applied).symm
  | stuck _ => exact hsame rfl rfl
  | unseen hk => exact hsame (by rw [hk.snapshot]) hk.applied
  | @shown found g answer code last direction content fallback fresh snapshot hk hat hopen hcur _ _
      hview =>
    obtain ⟨hlanguage, hdirection, -, hnone, -⟩ := view_fields hview
    unfold Transition.shown?
    rw [resolver?_of_resolved (hk.pending hp hat hopen hcur) hnone]
    show found.applied ++ [(code, direction)] =
      s.applied ++ [(snapshot.language, snapshot.direction)]
    rw [hk.applied, hlanguage, hdirection]
  | overtaken hk _ _ _ => exact hsame (congrArg Snapshot.pending hk.snapshot) hk.applied
  | settled _ _ => exact hsame rfl rfl
  | faded _ _ => exact hsame rfl rfl

/-- What the presentation was told last is what the snapshot shows, unless something is pending. -/
theorem Step.shows_last (hstep : s.Step event t)
    (h : s.snapshot.pending = none →
      s.applied.getLast? = some (s.snapshot.language, s.snapshot.direction))
    (hnone : t.snapshot.pending = none) :
    t.applied.getLast? = some (t.snapshot.language, t.snapshot.direction) := by
  cases hstep with
  | refused _ _ => exact h hnone
  | accepted _ _ _ _ => cases hnone
  | stuck _ => exact h hnone
  | unseen hk =>
    rw [hk.snapshot] at hnone ⊢
    rw [hk.applied]
    exact h hnone
  | @shown found g answer code last direction content fallback fresh snapshot _ _ _ _ _ _ hview =>
    obtain ⟨hlanguage, hdirection, -⟩ := view_fields hview
    show (found.applied ++ [(code, direction)]).getLast? = _
    rw [List.getLast?_concat, ← hlanguage, ← hdirection]
    rfl
  | @overtaken found g answer code last hk _ _ _ =>
    show found.applied.getLast? = some (found.snapshot.language, found.snapshot.direction)
    have hnone : found.snapshot.pending = none := hnone
    rw [hk.snapshot] at hnone ⊢
    rw [hk.applied]
    exact h hnone
  | settled _ _ => exact h hnone
  | faded _ _ => exact h hnone

theorem Keeps.exists_open (hk : s.Keeps t) {sw : Switch} (hs : t.switch? g = some sw)
    (hopen : sw.stage.IsOpen) : ∃ old, s.switch? g = some old ∧ old.stage.IsOpen := by
  obtain ⟨old, hold, -, hsame | ⟨hold', -⟩⟩ := hk.stages g sw hs
  · exact ⟨old, hold, hsame ▸ hopen⟩
  · exact ⟨old, hold, hold'⟩

/-- A switch that is open was so before, unless its request has just been accepted. -/
theorem Step.exists_open (hstep : s.Step event t) (ho : s.Orderly) {sw : Switch}
    (hs : t.switch? g = some sw) (hopen : sw.stage.IsOpen) :
    g = s.generation + 1 ∨ ∃ old, s.switch? g = some old ∧ old.stage.IsOpen := by
  have hmoved : ∀ {m : Session L} {x stage}, s.Keeps m → ¬ stage.IsOpen →
      (m.setStage x stage).switch? g = some sw →
      ∃ old, s.switch? g = some old ∧ old.stage.IsOpen := fun hk hclosed hm => by
    obtain ⟨old, hold, -, hsame | ⟨-, hnew⟩⟩ := of_switch?_setStage hm
    · exact hk.exists_open hold (hsame ▸ hopen)
    · exact absurd (hnew ▸ hopen) hclosed
  cases hstep with
  | refused _ _ => exact .inr ⟨sw, hs, hopen⟩
  | accepted _ _ _ _ =>
    rw [ho.numbered.switch?_accept] at hs
    split at hs
    · next e => exact .inl e
    · exact .inr ⟨sw, hs, hopen⟩
  | stuck _ => exact .inr ⟨sw, hs, hopen⟩
  | unseen hk => exact .inr (hk.exists_open hs hopen)
  | shown hk _ _ _ _ _ _ => exact .inr (hmoved hk (landing_not_isOpen _ _) hs)
  | overtaken hk _ _ _ => exact .inr (hmoved hk id hs)
  | settled _ _ => exact .inr (hmoved (.calm s) id hs)
  | faded _ _ => exact .inr (hmoved (.calm s) id hs)

theorem eq_of_resolver? (h : Transition.resolver? ⟨s, .resume g answer, t⟩ = some x) : x = g := by
  unfold Transition.resolver? at h
  split at h
  · next hevent _ _ => cases hevent; exact (Option.some.inj h).symm
  · cases h

/-- Whoever resolves a language is the newest switch, open before and not open any more. -/
structure Resolves (s t : Session L) (g : Nat) : Prop where
  newest : g = s.generation
  before : ∃ sw, s.switch? g = some sw ∧ sw.stage.IsOpen
  after : ∀ sw, t.switch? g = some sw → ¬ sw.stage.IsOpen

theorem Step.resolves (hstep : s.Step event t)
    (h : Transition.resolver? ⟨s, event, t⟩ = some g) : s.Resolves t g := by
  have hsame : t.snapshot.pending = s.snapshot.pending → s.Resolves t g := fun hpending => by
    rw [resolver?_of_pending hpending] at h
    cases h
  cases hstep with
  | refused _ _ => exact hsame rfl
  | accepted _ _ _ _ => cases h
  | stuck _ => exact hsame rfl
  | unseen hk => exact hsame (by rw [hk.snapshot])
  | @shown found x answer code last direction content fallback fresh snapshot hk hat hopen hcur _ _
      hview =>
    obtain rfl := eq_of_resolver? h
    refine ⟨(hk.generation ▸ hcur).symm, hk.exists_open hat hopen, fun sw hs => ?_⟩
    have hlanded : (found.present g code direction snapshot (landing fallback fresh)).At g code
        (landing fallback fresh) := switch?_setStage_self hat _
    obtain rfl := Option.some.inj (hlanded.symm.trans hs)
    exact landing_not_isOpen fallback fresh
  | overtaken hk _ _ _ => exact hsame (congrArg Snapshot.pending hk.snapshot)
  | settled _ _ => exact hsame rfl
  | faded _ _ => exact hsame rfl

/-! ## Histories -/

/-- The presentation of `s` was first told `first`, and then what its history shows. -/
structure Presented (first : List (String × Direction)) (history : List (Transition L))
    (s : Session L) : Prop where
  log : s.applied = first ++ history.filterMap Transition.shown?
  /-- Whoever has resolved its language is not open any more. -/
  landed : ∀ g ∈ resolvers history, g ≤ s.generation ∧
    ∀ sw, s.switch? g = some sw → ¬ sw.stage.IsOpen
  ascending : (0 :: resolvers history).Pairwise (· < ·)
  last : s.snapshot.pending = none →
    s.applied.getLast? = some (s.snapshot.language, s.snapshot.direction)

theorem Opens.presented (h : Opens config locked initial s) : Presented s.applied [] s where
  log := (List.append_nil s.applied).symm
  landed _ hmem := by cases hmem
  ascending := List.pairwise_singleton _ _
  last hnone := by
    cases h with
    | there hl hdata hview =>
      obtain ⟨hlanguage, hdirection, -⟩ := view_fields hview
      exact congrArg some (Prod.ext hlanguage.symm hdirection.symm)
    | absent => cases hnone

theorem Presented.next (h : Presented first history s) (ho : s.Orderly) (hp : s.Phased initial)
    (event : Event) :
    Presented first (history ++ [⟨s, event, s.next event⟩]) (s.next event) := by
  have hstep := ho.step event
  generalize s.next event = t at hstep ⊢
  have hgrows : s.generation ≤ t.generation := by
    rcases hstep.generation with hsame | ⟨hmore, -⟩ <;> omega
  have hone : resolvers (history ++ [⟨s, event, t⟩]) =
      resolvers history ++ (Transition.resolver? ⟨s, event, t⟩).toList := filterMap_snoc _ _ _
  have hkept : ∀ g ∈ resolvers history, ∀ sw, t.switch? g = some sw → ¬ sw.stage.IsOpen :=
    fun g hmem sw hs hopen => by
      obtain ⟨hle, hclosed⟩ := h.landed g hmem
      rcases hstep.exists_open ho hs hopen with hfresh | ⟨old, hold, hopen'⟩
      · omega
      · exact hclosed old hold hopen'
  constructor
  case log =>
    rw [hstep.applied hp, h.log, filterMap_snoc, List.append_assoc]
  case landed =>
    intro g hmem
    rw [hone] at hmem
    rcases List.mem_append.1 hmem with hmem | hmem
    · exact ⟨Nat.le_trans (h.landed g hmem).1 hgrows, hkept g hmem⟩
    · have hresolves := hstep.resolves (Option.mem_toList.1 hmem)
      exact ⟨hresolves.newest ▸ hgrows, hresolves.after⟩
  case ascending =>
    rw [hone, ← List.cons_append, List.pairwise_append]
    refine ⟨h.ascending, ?_, fun a ha b hb => ?_⟩
    · cases Transition.resolver? ⟨s, event, t⟩ <;> simp
    · obtain ⟨hnewest, ⟨sw, hs, hopen⟩, -⟩ := hstep.resolves (Option.mem_toList.1 hb)
      rcases List.mem_cons.1 ha with rfl | ha
      · exact (ho.numbered.exists_iff.1 ⟨sw, hs⟩).1
      · obtain ⟨hle, hclosed⟩ := h.landed a ha
        have hne : a ≠ b := fun e => hclosed sw (e ▸ hs) hopen
        omega
  case last => exact hstep.shows_last h.last

theorem Opens.presented_after (h : Opens config locked initial s) (schedule : List Event) :
    Presented s.applied (s.history schedule) (s.after schedule) := by
  induction schedule using List.reverseRecOn with
  | nil => exact h.presented
  | append_singleton earlier event ih =>
    rw [history_snoc, after_snoc]
    have hmid := h.regular.after earlier
    exact ih.next hmid.orderly hmid.phased event

theorem Orderly.le_of_mem_resolvers (ho : s.Orderly) {schedule : List Event}
    (hmem : g ∈ resolvers (s.history schedule)) : s.generation ≤ g := by
  obtain ⟨transition, hin, hresolver⟩ := List.mem_filterMap.1 hmem
  obtain ⟨start, -, event, -, rfl⟩ := exists_of_mem_history hin
  rw [(((ho.after start).step event).resolves hresolver).newest]
  exact ho.generation_le_after start

/-- A switch that is overtaken while open resolves nothing, neither before nor later. -/
theorem Opens.not_mem_resolvers (h : Opens config locked initial s) {start rest : List Event}
    (hat : (s.after start).At g code stage) (hopen : stage.IsOpen)
    (hold : g < (s.after start).generation) : g ∉ resolvers (s.history (start ++ rest)) := by
  intro hmem
  rw [history_append, resolvers_append] at hmem
  rcases List.mem_append.1 hmem with hearlier | hlater
  · exact ((h.presented_after start).landed g hearlier).2 _ hat hopen
  · have := (h.orderly.after start).le_of_mem_resolvers hlater
    omega

theorem errand?_eq_fade_iff : s.errand? g = some .fade ↔ ∃ code, s.At g code .fading := by
  constructor
  · intro h
    obtain ⟨code, _, hs, hruns⟩ := exists_runs h
    cases hruns
    exact ⟨code, hs⟩
  · rintro ⟨code, hs⟩
    unfold errand?
    rw [hs]

theorem isOpen_or_fade (hs : s.At g code stage) (hwaits : s.result? g = none) :
    stage.IsOpen ∨ s.errand? g = some .fade := by
  cases stage with
  | fading => exact .inr (errand?_eq_fade_iff.2 ⟨code, hs⟩)
  | ended result => exact absurd (hwaits.symm.trans (result?_of hs rfl)) nofun
  | _ => exact .inl trivial

/-- A switch that ends as superseded was overtaken before. -/
theorem Regular.overtaken (h : s.Regular config locked initial) (hwaits : s.result? g = none)
    (hend : (s.next event).result? g = some (.ok .superseded)) :
    ∃ answer code stage, event = .resume g answer ∧ s.At g code stage ∧ g < s.generation := by
  have hstep := h.orderly.step event
  obtain ⟨⟨answer, rfl⟩, -⟩ := hstep.returns h.orderly hwaits hend
  have hnext := h.next (.resume g answer)
  obtain ⟨code, hs⟩ := result?_eq_some_iff.1 hend
  have hne : (s.next (.resume g answer)).generation ≠ g := fun hcur => by
    obtain ⟨-, -, ⟨hresult, -⟩ | ⟨hresult, -⟩⟩ := hnext.of_current_ended hs hcur <;> cases hresult
  have hsame := (hstep.rests h.phased).generation
  have hbounds := hnext.orderly.numbered.exists_iff.1 ⟨_, hs⟩
  obtain ⟨⟨code', generation, stage⟩, hbefore⟩ :=
    h.orderly.numbered.exists_iff.2 ⟨hbounds.1, hsame ▸ hbounds.2⟩
  obtain rfl : generation = g := generation_of_switch? hbefore
  exact ⟨answer, code', stage, rfl, hbefore, by omega⟩

theorem Step.resolver?_of_fade (hstep : s.Step (.resume g answer) t)
    (hfade : s.errand? g = some .fade) :
    Transition.resolver? ⟨s, .resume g answer, t⟩ = none := by
  by_contra hsome
  obtain ⟨x, hx⟩ := Option.ne_none_iff_exists'.1 hsome
  obtain rfl := eq_of_resolver? hx
  obtain ⟨code, hs⟩ := errand?_eq_fade_iff.1 hfade
  obtain ⟨-, ⟨sw, hsw, hopen⟩, -⟩ := hstep.resolves hx
  obtain rfl := Option.some.inj (hs.symm.trans hsw)
  exact hopen

/-- What the presentation of `s`, which has started in `initial`, is told along a schedule. -/
structure Presents (config : Configuration L) (initial : String) (s : Session L)
    (schedule : List Event) : Prop where
  /-- A start with a dataset is told of. -/
  start : ∃ language, (Registry.ofConfiguration config).find? initial = some language ∧
    s.applied = if language.isLoaded then [(initial, language.direction)] else []
  log : (s.after schedule).applied =
    s.applied ++ (s.history schedule).filterMap Transition.shown?
  /-- The start counts as generation zero. -/
  ascending : (0 :: resolvers (s.history schedule)).Pairwise (· < ·)
  /-- A switch that is overtaken while open is never told of. -/
  overtaken : ∀ transition ∈ s.history schedule, ∀ g code stage,
    transition.before.At g code stage → stage.IsOpen → g < transition.before.generation →
    g ∉ resolvers (s.history schedule)
  /-- The end of a superseded switch is not told of, nor is the switch if it did not fade in. -/
  superseded : ∀ transition ∈ s.history schedule, ∀ g, transition.before.result? g = none →
    transition.after.result? g = some (.ok .superseded) → transition.shown? = none ∧
      (transition.before.errand? g = some .fade ∨ g ∉ resolvers (s.history schedule))
  fade : ∀ transition ∈ s.history schedule, ∀ g answer, transition.event = .resume g answer →
    transition.before.errand? g = some .fade → transition.after.applied = transition.before.applied
  last : (s.after schedule).snapshot.pending = none → (s.after schedule).applied.getLast? =
    some ((s.after schedule).snapshot.language, (s.after schedule).snapshot.direction)

/-- **The presentation follows the published state**, in whatever order the switches go on. -/
theorem presents_of_start {around : Surroundings} (h : (around.start config locked).1 = .ok s)
    (schedule : List Event) : Presents config (around.initial config locked).1 s schedule := by
  obtain ⟨hopens, -⟩ := Surroundings.opens_of_start h
  have hend := hopens.presented_after schedule
  constructor
  case start =>
    cases hopens with
    | @there language _ _ hl hdata _ =>
      exact ⟨language, hl, by rw [Language.isLoaded, hdata]; rfl⟩
    | @absent language _ hl hdata _ =>
      exact ⟨language, hl, by rw [Language.isLoaded, hdata]; rfl⟩
  case log => exact hend.log
  case ascending => exact hend.ascending
  case overtaken =>
    intro transition hmem g code stage hat hopen hold
    obtain ⟨start, rest, event, rfl, rfl⟩ := exists_of_mem_history hmem
    exact hopens.not_mem_resolvers hat hopen hold
  case superseded =>
    intro transition hmem g hwaits hsuperseded
    obtain ⟨start, rest, event, rfl, rfl⟩ := exists_of_mem_history hmem
    have hmid := hopens.regular.after start
    obtain ⟨answer, code, stage, rfl, hat, hold⟩ := hmid.overtaken hwaits hsuperseded
    obtain ⟨hsame, -⟩ := (hmid.orderly.step (.resume g answer)).silent_of_old hold
    refine ⟨shown?_eq_none (resolver?_of_pending (congrArg Snapshot.pending hsame)), ?_⟩
    rcases isOpen_or_fade hat hwaits with hopen | hfade
    · exact .inr (hopens.not_mem_resolvers hat hopen hold)
    · exact .inl hfade
  case fade =>
    intro transition hmem g answer hevent hfade
    obtain ⟨start, rest, event, rfl, rfl⟩ := exists_of_mem_history hmem
    obtain rfl : event = .resume g answer := hevent
    have hmid := hopens.regular.after start
    have hstep := hmid.orderly.step (.resume g answer)
    have hnone := hstep.resolver?_of_fade hfade
    show ((s.after start).next (.resume g answer)).applied = (s.after start).applied
    rw [hstep.applied hmid.phased, shown?_eq_none hnone]
    simp
  case last => exact hend.last

theorem presents_of_start_bilingual :
    ∃ s, ((Surroundings.remembering none).start Configuration.bilingual none).1 = .ok s ∧
      (s.after detour).applied = [("en", .ltr), ("en", .ltr)] ∧
      Presents Configuration.bilingual "en" s detour := by
  have hstart : ((Surroundings.remembering none).start Configuration.bilingual none).1
      = .ok _ := rfl
  exact ⟨_, hstart, by decide +kernel, presents_of_start hstart _⟩

end Session

end Phrasebook
