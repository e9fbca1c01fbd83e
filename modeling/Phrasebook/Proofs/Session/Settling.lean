import Phrasebook.Proofs.Session.Content
import Phrasebook.Proofs.Session.Delivery
import Phrasebook.Proofs.Session.Storing

/-!
# Where a session settles

In a steady world every loader has one outcome, whenever it is called, and the store never fails.
There the end of a session depends on what was asked for last and on nothing else: a cell that is
filled holds what its loader delivers, a fallback is shown only where the loader fails, and the
newest request is stored last.
-/

namespace Phrasebook

variable {L : Type}

/-- What a steady world answers to a switch whose language has this outcome. -/
def Errand.reply (outcome : Except Failure Json) : Errand L → Answer
  | .write _ => .stored true
  | .load _ => .loaded outcome
  | .fade => .proceed

/-- If a switch goes on, it is with the answer of a steady world. -/
def Transition.IsSteady (outcome : String → Except Failure Json) (transition : Transition L) :
    Prop :=
  ∀ g answer sw errand, transition.event = .resume g answer →
    transition.before.switch? g = some sw → transition.before.errand? g = some errand →
    answer = errand.reply (outcome sw.code)

namespace Session

variable {s t : Session L} {g : Nat} {code : String} {answer : Answer} {stage : Stage}
  {language : Language L} {config : Configuration L} {outcome : String → Except Failure Json}

/-- The answers that a switch for `code` gets in a steady world. -/
structure Suits (outcome : String → Except Failure Json) (code : String) (answer : Answer) :
    Prop where
  loaded : ∀ result, answer = .loaded result → result = outcome code
  stored : answer ≠ .stored false

theorem Orderly.exists_errand (h : s.Orderly) (hs : s.At g code .loading) :
    ∃ loader, s.errand? g = some (.load loader) := by
  obtain ⟨language, hl⟩ := h.registered g _ hs
  have hl : s.registry.find? code = some language := hl
  obtain ⟨loader, hloader⟩ := Option.ne_none_iff_exists'.1 (h.loader_of_holding hs rfl hl)
  refine ⟨loader, ?_⟩
  unfold errand?
  rw [hs]
  simp only [hl, Option.bind_some, hloader, Option.map_some]

theorem Orderly.suits (h : s.Orderly) (hs : s.At g code stage) (htakes : stage.Takes answer)
    (hsteady : Transition.IsSteady outcome ⟨s, .resume g answer, t⟩) :
    Suits outcome code answer := by
  have hreply := fun errand => hsteady g answer _ errand rfl hs
  cases htakes with
  | writing success =>
    have herrand : s.errand? g = some (.write code) := by unfold errand?; rw [hs]
    have := hreply _ herrand
    exact ⟨nofun, fun e => by rw [e] at this; cases this⟩
  | loading result =>
    obtain ⟨loader, herrand⟩ := h.exists_errand hs
    have := hreply _ herrand
    refine ⟨fun result' e => ?_, nofun⟩
    rw [e] at this
    exact Answer.loaded.inj this
  | _ => exact ⟨nofun, nofun⟩

/-! ## Contents -/

/-- The datasets that came from a loader are what it delivers. -/
def Sound (outcome : String → Except Failure Json) (registry : Registry L) : Prop :=
  ∀ code language content, registry.find? code = some language → language.loader ≠ none →
    language.cell.dataset = some content →
    ∃ value, outcome code = .ok value ∧ content = unwrapModule value

/-- What the session has loaded and shows is determined by the outcomes of the loaders. -/
structure Determined (outcome : String → Except Failure Json) (s : Session L) : Prop where
  sound : Sound outcome s.registry
  /-- A fallback is shown only for a language whose loader fails. -/
  fallback : s.snapshot.fallback = true → ∃ language failure,
    s.registry.find? s.snapshot.language = some language ∧ language.loader ≠ none ∧
      outcome s.snapshot.language = .error failure

theorem Quiet.sound (hq : Quiet g code answer s t) (h : Sound outcome s.registry) :
    Sound outcome t.registry :=
  hq.allLoaded h

theorem Finds.sound {found : Session L} {direction : Direction} {content : Json}
    {fallback fresh : Bool} (hf : Finds g code answer s found direction content fallback fresh)
    (h : Sound outcome s.registry) (hsuits : Suits outcome code answer) :
    Sound outcome found.registry :=
  hf.allLoaded h fun value hanswer => ⟨value, (hsuits.loaded _ hanswer).symm, rfl⟩

theorem Finds.failure {found : Session L} {direction : Direction} {content : Json}
    {fresh : Bool} (hf : Finds g code answer s found direction content true fresh)
    (h : s.Orderly) (hsuits : Suits outcome code answer) : ∃ language failure,
      s.registry.find? code = some language ∧ language.loader ≠ none ∧
        outcome code = .error failure := by
  obtain ⟨language, failure, hl, hloader, hanswer⟩ := hf.failed_of_fallback h
  exact ⟨language, failure, hl, hloader, (hsuits.loaded _ hanswer).symm⟩

theorem Keeps.determined (hk : s.Keeps t) (h : s.Determined outcome)
    (hsound : Sound outcome t.registry) : t.Determined outcome := by
  refine ⟨hsound, fun hfallback => ?_⟩
  rw [hk.snapshot] at hfallback ⊢
  obtain ⟨language, failure, hl, hloader, houtcome⟩ := h.fallback hfallback
  obtain ⟨new, hnew, -, hsame, -⟩ := hk.registry.find? hl
  exact ⟨new, failure, hnew, hsame ▸ hloader, houtcome⟩

theorem Quiet.determined (hq : Quiet g code answer s t) (ho : s.Orderly)
    (h : s.Determined outcome) : t.Determined outcome :=
  (hq.keeps ho).determined h (hq.sound h.sound)

theorem Lands.determined (hl : Lands g code answer s t) (ho : s.Orderly)
    (h : s.Determined outcome) (hsuits : Suits outcome code answer) : t.Determined outcome := by
  cases hl with
  | @shown found direction content fallback fresh snapshot hf _ hview =>
    obtain ⟨hlanguage, -, -, -, hfallback, -⟩ := view_fields hview
    refine ⟨hf.sound h.sound hsuits, fun hback => ?_⟩
    obtain rfl : fallback = true := hfallback.symm.trans hback
    obtain ⟨language, failure, hl, hloader, houtcome⟩ := hf.failure ho hsuits
    obtain ⟨new, hnew, -, hsame, -⟩ := (hf.offers ho).1.registry.find? hl
    refine ⟨new, failure, ?_, hsame ▸ hloader, ?_⟩
    · show found.registry.find? snapshot.language = some new
      rw [hlanguage, hnew]
    · show outcome snapshot.language = .error failure
      rw [hlanguage, houtcome]
  | overtaken hf _ =>
    have hfound := (hf.offers ho).1.determined h (hf.sound h.sound hsuits)
    exact ⟨hfound.sound, hfound.fallback⟩
  | settled _ _ => exact ⟨h.sound, h.fallback⟩
  | faded _ _ => exact ⟨h.sound, h.fallback⟩

theorem Opens.determined {locked : Option String} {initial : String}
    (h : Opens config locked initial s) : s.Determined outcome := by
  refine ⟨fun c language content hl hloader hdata => ?_, fun hfallback => ?_⟩
  · rw [h.begins.registry] at hl
    obtain ⟨-, hsource⟩ := Registry.of_find?_ofConfiguration hl
    exact absurd (hsource.1 (by rw [hdata]; rfl)) hloader
  · have hown : s.snapshot.fallback = false := by
      cases h with
      | there hl hdata hview => exact (view_fields hview).2.2.2.2.1
      | absent hl hdata hview => exact (view_fields hview).2.2.2.2.1
    cases hown.symm.trans hfallback

/-- A dataset is the configured one, or what the loader delivers, in whatever session it is. -/
theorem Truthful.content_unique {other : Language L} {content content' : Json}
    (h : s.Truthful config) (h' : t.Truthful config) (hsound : Sound outcome s.registry)
    (hsound' : Sound outcome t.registry) (hl : s.registry.find? code = some language)
    (hl' : t.registry.find? code = some other) (hdata : language.cell.dataset = some content)
    (hdata' : other.cell.dataset = some content') :
    content = content' ∧ language.direction = other.direction := by
  obtain ⟨old, hold, hdirection, hloader, hkept⟩ := h.registry.back code language hl
  obtain ⟨old', hold', hdirection', hloader', hkept'⟩ := h'.registry.back code other hl'
  obtain rfl := Option.some.inj (hold.symm.trans hold')
  refine ⟨?_, hdirection.trans hdirection'.symm⟩
  obtain ⟨-, hsource⟩ := Registry.of_find?_ofConfiguration hold
  by_cases hnone : old.loader = none
  · obtain ⟨given, hgiven⟩ := Option.isSome_iff_exists.1 (hsource.2 hnone)
    rw [hkept given hgiven] at hdata
    rw [hkept' given hgiven] at hdata'
    exact (Option.some.inj hdata).symm.trans (Option.some.inj hdata')
  · obtain ⟨value, hvalue, rfl⟩ := hsound code language content hl (hloader ▸ hnone) hdata
    obtain ⟨value', hvalue', rfl⟩ := hsound' code other content' hl' (hloader' ▸ hnone) hdata'
    rw [Except.ok.inj (hvalue.symm.trans hvalue')]

theorem showsContent_unique {a b : Snapshot} (h : s.Truthful config) (h' : t.Truthful config)
    (hsound : Sound outcome s.registry) (hsound' : Sound outcome t.registry)
    (ha : a.ShowsContent config s.registry code) (hb : b.ShowsContent config t.registry code) :
    a.direction = b.direction ∧ a.strings = b.strings ∧ a.lists = b.lists := by
  obtain ⟨language, content, hl, hdata, hdirection, hstrings, hlists⟩ := ha
  obtain ⟨other, content', hl', hdata', hdirection', hstrings', hlists'⟩ := hb
  obtain ⟨rfl, hsame⟩ := h.content_unique h' hsound hsound' hl hl' hdata hdata'
  exact ⟨hdirection.trans (hsame.trans hdirection'.symm),
    Except.ok.inj (hstrings.symm.trans hstrings'), Except.ok.inj (hlists.symm.trans hlists')⟩

/-- Where one session falls back, no other one shows the language itself. -/
theorem fallback_unique (h : s.Truthful config) (h' : t.Truthful config)
    (hs : s.Determined outcome) (ht : t.Determined outcome)
    (hlanguage : s.snapshot.language = t.snapshot.language) (hback : s.snapshot.fallback = true) :
    t.snapshot.fallback = true := by
  by_contra hown
  obtain ⟨language, failure, hl, hloader, hfailure⟩ := hs.fallback hback
  obtain ⟨other, content, hl', hdata, -⟩ := h'.coherent.own (Bool.not_eq_true _ ▸ hown)
  obtain ⟨old, hold, -, hsame, -⟩ := h.registry.back _ language hl
  obtain ⟨old', hold', -, hsame', -⟩ := h'.registry.back _ other hl'
  rw [← hlanguage] at hold'
  obtain rfl := Option.some.inj (hold.symm.trans hold')
  have hloader' : other.loader ≠ none := by rw [hsame', ← hsame]; exact hloader
  obtain ⟨value, hvalue, -⟩ := ht.sound _ other content hl' hloader' hdata
  rw [← hlanguage, hfailure] at hvalue
  cases hvalue

/-- Two sessions that have settled in the same language show the same. -/
theorem snapshot_unique (h : s.Truthful config) (h' : t.Truthful config)
    (hs : s.Determined outcome) (ht : t.Determined outcome)
    (hlanguage : s.snapshot.language = t.snapshot.language)
    (hsettled : s.snapshot.isSettled = true) (hsettled' : t.snapshot.isSettled = true) :
    s.snapshot = t.snapshot := by
  obtain ⟨hready, hpending⟩ := Snapshot.isSettled_iff.1 hsettled
  obtain ⟨hready', hpending'⟩ := Snapshot.isSettled_iff.1 hsettled'
  have hfallback : s.snapshot.fallback = t.snapshot.fallback :=
    Bool.eq_iff_iff.2 ⟨fallback_unique h h' hs ht hlanguage,
      fallback_unique h' h ht hs hlanguage.symm⟩
  have hcontent : s.snapshot.direction = t.snapshot.direction ∧
      s.snapshot.strings = t.snapshot.strings ∧ s.snapshot.lists = t.snapshot.lists := by
    cases hback : s.snapshot.fallback with
    | true =>
      exact showsContent_unique h h' hs.sound ht.sound (h.coherent.default hback)
        (h'.coherent.default (hfallback ▸ hback))
    | false =>
      exact showsContent_unique h h' hs.sound ht.sound (h.coherent.own hback)
        (hlanguage ▸ h'.coherent.own (hfallback ▸ hback))
  obtain ⟨hdirection, hstrings, hlists⟩ := hcontent
  generalize s.snapshot = a, t.snapshot = b at *
  cases a
  cases b
  simp_all

end Session

end Phrasebook
