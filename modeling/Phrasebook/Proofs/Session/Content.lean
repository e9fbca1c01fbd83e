import Phrasebook.Proofs.Session.Moves

/-!
# Whose content a session shows

A snapshot shows what the dataset in the cell of one language makes of the schema: its own
language's, or the default language's when it is a fallback. A cell is written at most once, so
this stays true of a snapshot whatever happens after it.
-/

namespace Phrasebook

variable {L : Type}

namespace Snapshot

/-- The content and the direction of a snapshot are those of the language `code`. -/
def ShowsContent (snapshot : Snapshot) (config : Configuration L) (registry : Registry L)
    (code : String) : Prop :=
  ∃ language content, registry.find? code = some language ∧
    language.cell.dataset = some content ∧ snapshot.direction = language.direction ∧
    Strings.build config.default.schema.value (some content) "" config.mode
      = .ok snapshot.strings ∧
    Lists.build config.default.schema.value (some content) "" config.mode = .ok snapshot.lists

/-- The language of a snapshot is registered, and its content is that of this language, or of the
default language if it is a fallback. -/
structure Coherent (config : Configuration L) (registry : Registry L) (snapshot : Snapshot) :
    Prop where
  registered : registry.contains snapshot.language = true
  own : snapshot.fallback = false → snapshot.ShowsContent config registry snapshot.language
  default : snapshot.fallback = true → snapshot.ShowsContent config registry config.default.code

variable {config : Configuration L} {registry later : Registry L} {snapshot : Snapshot}
  {code : String}

theorem ShowsContent.mono (h : snapshot.ShowsContent config registry code)
    (hg : registry.Grows later) : snapshot.ShowsContent config later code := by
  obtain ⟨language, content, hl, hdata, hdirection, hstrings, hlists⟩ := h
  obtain ⟨new, hnew, hsame, -, hkept⟩ := hg.find? hl
  exact ⟨new, content, hnew, hkept content hdata, hdirection.trans hsame.symm, hstrings, hlists⟩

theorem Coherent.mono (h : snapshot.Coherent config registry) (hg : registry.Grows later) :
    snapshot.Coherent config later where
  registered := (hg.contains _).trans h.registered
  own hown := (h.own hown).mono hg
  default hfallback := (h.default hfallback).mono hg

end Snapshot

namespace Session

/-- The session has the schema and the mode of `config`, its registry has grown from that of
`config`, and its snapshot is coherent. -/
structure Truthful (config : Configuration L) (s : Session L) : Prop where
  default : s.default = config.default
  mode : s.mode = config.mode
  registry : (Registry.ofConfiguration config).Grows s.registry
  coherent : s.snapshot.Coherent config s.registry

variable {s t : Session L} {config : Configuration L} {locked : Option String}
  {initial code : String} {event : Event}

/-- What a view shows is the content of a language whose dataset it is made of. -/
theorem showsContent_of_view {registry : Registry L} {language : Language L} {content : Json}
    {fallback ready : Bool} {snapshot : Snapshot} {shown : String}
    (hview : view config.default.schema config.mode shown language.direction content fallback ready
      = .ok snapshot)
    (hl : registry.find? code = some language) (hdata : language.cell.dataset = some content) :
    snapshot.ShowsContent config registry code := by
  obtain ⟨-, hdirection, -, -, -, hstrings, hlists⟩ := view_fields hview
  exact ⟨language, content, hl, hdata, hdirection, hstrings, hlists⟩

theorem Opens.truthful (h : Opens config locked initial s) : s.Truthful config := by
  have hdefault := Registry.find?_ofConfiguration_default config
  cases h with
  | there hl hdata hview =>
    refine ⟨rfl, rfl, .refl _, ?_⟩
    obtain ⟨hlanguage, -, -, -, hfallback, -⟩ := view_fields hview
    rw [← hlanguage] at hl
    refine ⟨?_, fun _ => ?_, fun e => ?_⟩
    · exact Registry.contains_iff.2 ⟨_, hl⟩
    · exact showsContent_of_view hview hl hdata
    · exact absurd (hfallback.symm.trans e) nofun
  | @absent language snapshot hl hdata hview =>
    refine ⟨rfl, rfl, .refl _, ?_⟩
    obtain ⟨hlanguage, -, -, -, hfallback, -⟩ := view_fields hview
    have hshows : snapshot.ShowsContent config (.ofConfiguration config) config.default.code :=
      showsContent_of_view hview hdefault rfl
    refine ⟨?_, fun _ => ?_, fun e => ?_⟩
    · exact hlanguage ▸ Registry.contains_default config
    · exact hlanguage ▸ hshows
    · exact absurd (hfallback.symm.trans e) nofun

theorem Keeps.truthful (hk : s.Keeps t) (h : s.Truthful config) : t.Truthful config where
  default := hk.default.trans h.default
  mode := hk.mode.trans h.mode
  registry := h.registry.trans hk.registry
  coherent := hk.snapshot ▸ h.coherent.mono hk.registry

theorem Offers.coherent {direction : Direction} {content : Json} {fallback ready : Bool}
    {snapshot : Snapshot} (ho : s.Offers code direction content fallback) (h : s.Truthful config)
    (hcode : s.registry.contains code = true)
    (hview : view s.default.schema s.mode code direction content fallback ready = .ok snapshot) :
    snapshot.Coherent config s.registry := by
  rw [h.default, h.mode] at hview
  obtain ⟨hlanguage, -, -, -, hfallback, -⟩ := view_fields hview
  refine ⟨hlanguage ▸ hcode, fun e => ?_, fun e => ?_⟩
  · cases ho with
    | own hl hdata => exact hlanguage ▸ showsContent_of_view hview hl hdata
    | default => exact absurd (hfallback.symm.trans e) nofun
  · cases ho with
    | own => exact absurd (hfallback.symm.trans e) nofun
    | default =>
      have hdefault := Registry.find?_ofConfiguration_default config
      obtain ⟨language, hl, hdirection, -, hkept⟩ := h.registry.find? hdefault
      rw [h.default] at hview
      have hdata := hkept config.default.schema.value rfl
      have hdirection : language.direction = config.default.direction := hdirection
      exact showsContent_of_view (hdirection ▸ hview) hl hdata

/-- Whoever runs in a session that `s` has become asks for a registered language. -/
theorem Keeps.contains_of_at (hk : s.Keeps t) (ho : s.Orderly) {g : Nat} {stage : Stage}
    (hat : t.At g code stage) : t.registry.contains code = true := by
  obtain ⟨old, hold, hcode, -⟩ := hk.stages g _ hat
  have hcode : old.code = code := hcode
  rw [hk.registry.contains, ← hcode]
  exact Registry.contains_iff.2 (ho.registered g old hold)

theorem Step.truthful (hstep : s.Step event t) (ho : s.Orderly) (h : s.Truthful config) :
    t.Truthful config := by
  cases hstep with
  | refused _ _ => exact h
  | accepted _ _ _ _ =>
    obtain ⟨hregistered, hown, hdefault⟩ := h.coherent
    exact ⟨h.default, h.mode, h.registry, hregistered, hown, hdefault⟩
  | stuck _ => exact h
  | unseen hk => exact hk.truthful h
  | shown hk hat _ _ hoffers _ hview =>
    have hfound := hk.truthful h
    exact ⟨hfound.default, hfound.mode, hfound.registry,
      hoffers.coherent hfound (hk.contains_of_at ho hat) hview⟩
  | overtaken hk _ _ _ =>
    have hfound := hk.truthful h
    exact ⟨hfound.default, hfound.mode, hfound.registry, hfound.coherent⟩
  | settled _ _ =>
    obtain ⟨hregistered, hown, hdefault⟩ := h.coherent
    exact ⟨h.default, h.mode, h.registry, hregistered, hown, hdefault⟩
  | faded _ _ => exact ⟨h.default, h.mode, h.registry, h.coherent⟩

theorem Step.grows (hstep : s.Step event t) : s.registry.Grows t.registry := by
  cases hstep with
  | refused _ _ => exact .refl _
  | accepted _ _ _ _ => exact .refl _
  | stuck _ => exact .refl _
  | unseen hk => exact hk.registry
  | shown hk _ _ _ _ _ _ => exact hk.registry
  | overtaken hk _ _ _ => exact hk.registry
  | settled _ _ => exact .refl _
  | faded _ _ => exact .refl _

theorem Orderly.grows_after (h : s.Orderly) (schedule : List Event) :
    s.registry.Grows (s.after schedule).registry := by
  induction schedule generalizing s with
  | nil => exact .refl _
  | cons event rest ih => exact (h.step event).grows.trans (ih (h.next event))

theorem Opens.truthful_after (h : Opens config locked initial s) (schedule : List Event) :
    (s.after schedule).Truthful config := by
  have hboth := after_keep (P := fun s => s.Orderly ∧ s.Truthful config)
    ⟨h.orderly, h.truthful⟩
    (fun hp event => ⟨hp.1.next event, (hp.1.step event).truthful hp.1 hp.2⟩) schedule
  exact hboth.2

/-- **A snapshot never pairs a language with another language's content**: what was shown after
the `earlier` events is coherent with the datasets then, and with those after any `later` events. -/
theorem coherent_of_start {around : Surroundings} (h : (around.start config locked).1 = .ok s)
    (earlier later : List Event) :
    (s.after earlier).snapshot.Coherent config (s.after (earlier ++ later)).registry := by
  obtain ⟨hopens, -⟩ := Surroundings.opens_of_start h
  rw [after_append]
  exact (hopens.truthful_after earlier).coherent.mono
    ((hopens.orderly.after earlier).grows_after later)

theorem coherent_of_start_bilingual :
    ∃ s, ((Surroundings.remembering (some "fr")).start Configuration.bilingual none).1 = .ok s ∧
      (s.after [.resume 1 .proceed]).snapshot.Coherent Configuration.bilingual
        (s.after ([.resume 1 .proceed] ++ detour)).registry := by
  have hstart : ((Surroundings.remembering (some "fr")).start Configuration.bilingual none).1
      = .ok _ := rfl
  exact ⟨_, hstart, coherent_of_start hstart _ _⟩

end Session

end Phrasebook
