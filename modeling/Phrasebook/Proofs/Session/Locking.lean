import Phrasebook.Proofs.Session.Presenting
import Phrasebook.Session.Start

/-!
# Locked sessions

A session that is locked to a language makes one request for it at most, its own, and that one only
when the dataset has to be loaded. So its switch never meets another one: it finds the turn of the
loader free, calls the loader, and publishes what comes of the call (`Alone`). The store has no part
in this, and whatever else is asked for is refused; what a locked session shows depends on nothing
but whether that call has ended, and how.
-/

namespace Phrasebook

variable {L : Type}

/-- The dataset of `code` was there from the start, or a call of its loader has ended. -/
def IsResolved (config : Configuration L) (code : String) (history : List (Transition L)) : Prop :=
  (∃ language, (Registry.ofConfiguration config).find? code = some language ∧
    language.isLoaded = true) ∨
  ∃ transition ∈ history, ∃ result, transition.AnswersLoad code result

/-- A switch that nobody else is in the way of stands at such a stage after its first run. -/
def Stage.IsAlone : Stage → Prop
  | .resolving | .holdingTurn | .loading | .fading | .ended _ => True
  | _ => False

namespace Session

variable {s t found : Session L} {g : Nat} {c code initial : String} {answer : Answer}
  {stage : Stage} {event : Event} {direction : Direction} {content : Json} {fallback fresh : Bool}
  {config : Configuration L} {result : Except Failure Json} {history : List (Transition L)}

/-! ## Requests -/

theorem request_of_locked (h : s.locked = some code) (asked : String) :
    s.request asked = (s, .locked) := by
  unfold request
  rw [h]
  rfl

theorem change_of_locked {m : Type → Type} [Monad m] (h : s.locked = some code)
    (services : Services m L) (asked : String) :
    s.change services asked = pure (s, .ok .locked) := by
  unfold change
  rw [request_of_locked h]

/-! ## The only switch -/

/-- There is one switch at most. It is for `code`, was never in a queue, and looks its dataset up
only while that is not there. -/
structure Alone (code : String) (s : Session L) : Prop where
  few : s.generation ≤ 1
  stage : ∀ g c stage, s.At g c stage → c = code ∧ stage.IsAlone
  unfilled : ∀ g language, s.At g code .resolving → s.registry.find? code = some language →
    language.cell.dataset = none

/-- Where there is one switch at most, the stage of one decides. -/
theorem alone_of_at (ho : s.Orderly) (hfew : s.generation ≤ 1) (hs : s.At g code stage)
    (halone : stage.IsAlone) (hpast : stage ≠ .resolving) : s.Alone code := by
  have hone : ∀ x c last, s.At x c last → c = code ∧ last = stage := fun x c last hx => by
    have hboundx := ho.numbered.exists_iff.1 ⟨_, hx⟩
    have hboundg := ho.numbered.exists_iff.1 ⟨_, hs⟩
    obtain rfl : x = g := by omega
    obtain ⟨rfl, -, rfl⟩ := Switch.mk.inj (Option.some.inj (hx.symm.trans hs))
    exact ⟨rfl, rfl⟩
  refine ⟨hfew, fun x c last hx => ?_, fun x language hx _ => ?_⟩
  · obtain ⟨hc, rfl⟩ := hone x c last hx
    exact ⟨hc, halone⟩
  · exact absurd (hone x code _ hx).2.symm hpast

theorem Opens.alone (h : Opens config (some code) code s) : s.Alone code := by
  refine ⟨?_, fun g c stage hs => ?_, fun g language hs hl => ?_⟩
  · cases h with
    | there => exact Nat.zero_le 1
    | absent => exact Nat.le_refl 1
  · obtain ⟨rfl, -, rfl⟩ := Switch.mk.inj (h.resolving hs).1
    exact ⟨rfl, trivial⟩
  · cases h with
    | there => cases hs
    | absent hown hdata _ =>
      obtain rfl := Option.some.inj (hown.symm.trans hl)
      exact hdata

theorem Alone.holder_eq_none {language : Language L} (h : s.Alone code) (ho : s.Orderly)
    (hs : s.At g code .resolving) (hl : s.registry.find? code = some language) :
    language.cell.turn.holder = none := by
  by_contra htaken
  obtain ⟨w, hw⟩ := Option.ne_none_iff_exists'.1 htaken
  obtain ⟨stage, hat, hstage⟩ := ho.turn_holder hl hw
  have hboundw := ho.numbered.exists_iff.1 ⟨_, hat⟩
  have hboundg := ho.numbered.exists_iff.1 ⟨_, hs⟩
  have hfew := h.few
  obtain rfl : w = g := by omega
  cases hat.symm.trans hs
  rcases hstage with hstage | hstage <;> cases hstage

theorem Quiet.alone (hq : Quiet g c answer s t) (h : s.Alone code) (ho : s.Orderly) :
    t.Alone code := by
  have hfew : t.generation ≤ 1 := (hq.keeps ho).generation ▸ h.few
  have horderly := hq.orderly ho
  have hnever : ∀ {stage}, s.At g c stage → ¬ stage.IsAlone → t.Alone code :=
    fun hs hnot => absurd (h.stage _ _ _ hs).2 hnot
  cases hq with
  | skipStore hs _ => exact hnever hs id
  | takeLock hs _ _ => exact hnever hs id
  | joinLock hs _ _ => exact hnever hs id
  | startWrite hs _ => exact hnever hs id
  | skipWrite hs _ => exact hnever hs id
  | endWrite hs _ => exact hnever hs id
  | failWrite hs _ => exact hnever hs id
  | @takeTurn language hs hl _ _ =>
    obtain ⟨rfl, -⟩ := h.stage _ _ _ hs
    have hmissed : (s.miss c (language.cell.ask g).1).At g c .resolving := hs
    exact alone_of_at horderly hfew (at_setStage hmissed .holdingTurn) trivial nofun
  | joinTurn hs hl _ htaken =>
    obtain ⟨rfl, -⟩ := h.stage _ _ _ hs
    exact absurd (h.holder_eq_none ho hs hl) htaken
  | call hs _ _ =>
    obtain ⟨rfl, -⟩ := h.stage _ _ _ hs
    have hcounted : { s with metrics := s.metrics.call }.At g c .holdingTurn := hs
    exact alone_of_at horderly hfew (at_setStage hcounted .loading) trivial nofun

theorem Finds.of_alone (hf : Finds g c answer s found direction content fallback fresh)
    (h : s.Alone code) (ho : s.Orderly) :
    (∃ value, answer = .loaded (.ok value) ∧ fallback = false) ∨
      ∃ failure, answer = .loaded (.error failure) ∧ fallback = true ∧ fresh = false := by
  cases hf with
  | cached hs hl hdata =>
    obtain ⟨rfl, -⟩ := h.stage _ _ _ hs
    rw [h.unfilled g _ hs hl] at hdata
    cases hdata
  | loaded _ _ hanswer => exact .inl ⟨_, hanswer, rfl⟩
  | failed _ _ hanswer => exact .inr ⟨_, hanswer, rfl, rfl⟩
  | uncallable hs hl hnone => exact absurd hnone (ho.loader_of_holding hs rfl hl)
  | served hs _ _ => exact absurd (h.stage _ _ _ hs).2 id
  | unserved hs _ _ => exact absurd (h.stage _ _ _ hs).2 id

theorem landing_isAlone (fallback fresh : Bool) :
    (landing fallback fresh).IsAlone ∧ landing fallback fresh ≠ .resolving := by
  cases fresh
  · exact ⟨trivial, nofun⟩
  · exact ⟨trivial, nofun⟩

theorem Finds.code_of_alone (hf : Finds g c answer s found direction content fallback fresh)
    (h : s.Alone code) (ho : s.Orderly) : c = code := by
  obtain ⟨last, hat, -⟩ := hf.exists_seeks ho
  obtain ⟨⟨old, x, stage⟩, hold, rfl, -⟩ := (hf.offers ho).1.stages g _ hat
  obtain rfl : x = g := generation_of_switch? hold
  exact (h.stage _ _ _ hold).1

theorem Lands.alone (hl : Lands g c answer s t) (h : s.Alone code) (ho : s.Orderly) :
    t.Alone code := by
  have horderly := hl.orderly ho
  cases hl with
  | @shown found direction content fallback fresh snapshot hf _ _ =>
    obtain rfl := hf.code_of_alone h ho
    obtain ⟨last, hat, -⟩ := hf.exists_seeks ho
    have hfew : found.generation ≤ 1 := (hf.offers ho).1.generation ▸ h.few
    have hpublished : { found.publish snapshot with
        applied := found.applied ++ [(c, direction)] }.At g c last := hat
    obtain ⟨halone, hpast⟩ := landing_isAlone fallback fresh
    exact alone_of_at horderly hfew (at_setStage hpublished _) halone hpast
  | @overtaken found _ _ _ _ hf _ =>
    obtain rfl := hf.code_of_alone h ho
    obtain ⟨last, hat, -⟩ := hf.exists_seeks ho
    have hfew : found.generation ≤ 1 := (hf.offers ho).1.generation ▸ h.few
    have hcounted : { found with metrics := found.metrics.discard }.At g c last := hat
    exact alone_of_at horderly hfew (at_setStage hcounted _) trivial nofun
  | settled hs _ =>
    obtain ⟨rfl, -⟩ := h.stage _ _ _ hs
    have hpublished : (s.publish { s.snapshot with ready := true }).At g c .fading := hs
    exact alone_of_at horderly h.few (at_setStage hpublished _) trivial nofun
  | faded hs _ =>
    obtain ⟨rfl, -⟩ := h.stage _ _ _ hs
    have hcounted : { s with metrics := s.metrics.discard }.At g c .fading := hs
    exact alone_of_at horderly h.few (at_setStage hcounted _) trivial nofun

/-! ## Events -/

theorem Alone.of_quiets (hrun : Relation.ReflTransGen (Quiet g c answer) s t)
    (h : s.Alone code) (ho : s.Orderly) : t.Alone code := by
  induction hrun with
  | refl => exact h
  | tail hm hq ih => exact hq.alone ih (keeps_of_quiets hm ho).2

theorem Quiet.not_loading (hq : Quiet g c answer s t) : ¬ s.At g code .loading := by
  obtain ⟨stage, hs, hne⟩ : ∃ stage, s.At g c stage ∧ stage ≠ .loading := by
    cases hq <;> refine ⟨_, by assumption, ?_⟩ <;> exact nofun
  intro hat
  obtain ⟨-, -, rfl⟩ := Switch.mk.inj (Option.some.inj (hs.symm.trans hat))
  exact hne rfl

/-- What an event does to a session that is locked to `code`. -/
inductive LockedStep (code : String) (s : Session L) (event : Event) (t : Session L) : Prop where
  | unseen : (∀ result, ¬ Transition.AnswersLoad ⟨s, event, t⟩ code result) →
      t.snapshot = s.snapshot → LockedStep code s event t
  /-- The fade is over. -/
  | settled : (∀ result, ¬ Transition.AnswersLoad ⟨s, event, t⟩ code result) →
      t.snapshot = { s.snapshot with ready := true } → LockedStep code s event t
  /-- The call of the loader has ended. -/
  | resolved {result : Except Failure Json} :
      Transition.AnswersLoad ⟨s, event, t⟩ code result → t.snapshot.pending = none →
      t.snapshot.language = code →
      (∀ failure, result = .error failure →
        t.snapshot.isSettled = true ∧ t.snapshot.fallback = true) →
      LockedStep code s event t

/-- What the only switch finds is shown, and it is what its call came to. -/
theorem Finds.shown_of_alone {snapshot : Snapshot} {schema : Schema} {mode : FallbackMode}
    (hf : Finds g c answer s found direction content fallback fresh)
    (h : s.Alone code) (ho : s.Orderly)
    (hview : view schema mode c direction content fallback (!fresh) = .ok snapshot) :
    ∃ result, answer = .loaded result ∧ snapshot.pending = none ∧ snapshot.language = code ∧
      ∀ failure, result = .error failure →
        snapshot.isSettled = true ∧ snapshot.fallback = true := by
  obtain rfl := hf.code_of_alone h ho
  obtain ⟨hlanguage, -, hready, hpending, hfallback, -⟩ := view_fields hview
  rcases hf.of_alone h ho with ⟨value, hanswer, -⟩ | ⟨failure, hanswer, rfl, rfl⟩
  · exact ⟨_, hanswer, hpending, hlanguage, nofun⟩
  · exact ⟨_, hanswer, hpending, hlanguage, fun _ _ =>
      ⟨Snapshot.isSettled_iff.2 ⟨hready, hpending⟩, hfallback⟩⟩

theorem Alone.resume (h : s.Alone code) (ho : s.Orderly) (hrun : s.resume g answer = some t) :
    t.Alone code ∧ LockedStep code s (.resume g answer) t := by
  obtain ⟨c, stage, hat, htakes, hgo⟩ := resume_goes ho.numbered (ho.registered g) hrun
  obtain ⟨rfl, -⟩ := h.stage _ _ _ hat
  have horderly : s.calm.Orderly := ho.congr rfl rfl rfl rfl
  have hcalm : s.calm.Alone c := ⟨h.few, h.stage, h.unfilled⟩
  have hloads : ∀ {x result}, s.At x c .loading →
      Event.resume g answer = .resume x (.loaded result) → s.calm.At g c .loading :=
    fun hx hevent => (Event.resume.inj hevent).1 ▸ hx
  rcases hgo with hquiet | ⟨m, hquiet, hland⟩
  · have hquiets := hquiet.to_reflTransGen
    obtain ⟨hk, -⟩ := keeps_of_quiets hquiets horderly
    refine ⟨hcalm.of_quiets hquiets horderly, .unseen ?_ hk.snapshot⟩
    rintro result ⟨x, hx, hevent⟩
    obtain ⟨next, hfirst, -⟩ := Relation.TransGen.head'_iff.1 hquiet
    exact hfirst.not_loading (hloads hx hevent)
  · obtain ⟨hk, hm⟩ := keeps_of_quiets hquiet horderly
    have hmid := hcalm.of_quiets hquiet horderly
    refine ⟨hland.alone hmid hm, ?_⟩
    cases hland with
    | shown hf _ hview =>
      obtain ⟨result, rfl, hpending, hlanguage, hfailed⟩ := hf.shown_of_alone hmid hm hview
      cases htakes
      exact .resolved ⟨g, hat, rfl⟩ hpending hlanguage hfailed
    | overtaken hf hold =>
      have hgeneration := (hf.offers hm).1.generation.trans hk.generation
      have hbound := ho.numbered.exists_iff.1 ⟨_, hat⟩
      have hfew := h.few
      have hcalmed : s.calm.generation = s.generation := rfl
      omega
    | settled hs _ =>
      obtain rfl := eq_of_fading hquiet horderly hs
      refine .settled ?_ rfl
      rintro result ⟨x, hx, hevent⟩
      cases (hloads hx hevent).symm.trans hs
    | faded hs hold =>
      have hgeneration := hk.generation
      have hbound := ho.numbered.exists_iff.1 ⟨_, hat⟩
      have hfew := h.few
      have hcalmed : s.calm.generation = s.generation := rfl
      omega

theorem Alone.next (h : s.Alone code) (hr : s.Regular config (some code) initial) (event : Event) :
    (s.next event).Alone code ∧ LockedStep code s event (s.next event) := by
  cases event with
  | request asked =>
    have hnext : s.next (.request asked) = s :=
      congrArg Prod.fst (request_of_locked hr.locked asked)
    rw [hnext]
    exact ⟨h, .unseen (fun _ ⟨_, _, hevent⟩ => nomatch hevent) rfl⟩
  | resume g answer =>
    have hnext : s.next (.resume g answer) = (s.resume g answer).getD s := rfl
    cases hrun : s.resume g answer with
    | some t =>
      rw [hnext, hrun]
      exact h.resume hr.orderly hrun
    | none =>
      rw [hnext, hrun]
      refine ⟨h, .unseen ?_ rfl⟩
      rintro result ⟨x, hx, hevent⟩
      obtain ⟨rfl, rfl⟩ := Event.resume.inj hevent
      have hsome := (resume_isSome_iff s g (.loaded result)).2 ⟨_, _, hx, .loading result⟩
      rw [hrun] at hsome
      cases hsome

theorem Alone.pending (h : s.Alone code) (hr : s.Regular config (some code) initial)
    (hs : s.At g code .loading) : s.snapshot.pending = some code := by
  have hbound := hr.orderly.numbered.exists_iff.1 ⟨_, hs⟩
  have hfew := h.few
  obtain rfl : g = s.generation := by omega
  exact (hr.phased.current _ hs).1

theorem Alone.settled_next (h : s.Alone code) (hr : s.Regular config (some code) initial)
    (hsettled : s.snapshot.isSettled = true) (event : Event) :
    (s.next event).snapshot = s.snapshot := by
  obtain ⟨hready, hpending⟩ := Snapshot.isSettled_iff.1 hsettled
  cases (h.next hr event).2 with
  | unseen _ hsame => exact hsame
  | settled _ hnow => rw [hnow, ← hready]
  | resolved hanswers _ _ _ =>
    obtain ⟨g, hs, -⟩ := hanswers
    cases hpending.symm.trans (h.pending hr hs)

theorem Alone.settled_after (h : s.Alone code) (hr : s.Regular config (some code) initial)
    (hsettled : s.snapshot.isSettled = true) (schedule : List Event) :
    (s.after schedule).snapshot = s.snapshot := by
  induction schedule generalizing s with
  | nil => rfl
  | cons event rest ih =>
    have hsame := h.settled_next hr hsettled event
    exact (ih (h.next hr event).1 (hr.next event) (hsame ▸ hsettled)).trans hsame

/-! ## Runs -/

theorem isResolved_snoc {transition : Transition L} :
    IsResolved config code (history ++ [transition]) ↔
      IsResolved config code history ∨ ∃ result, transition.AnswersLoad code result := by
  unfold IsResolved
  simp only [List.mem_append, List.mem_singleton, or_and_right, exists_or, exists_eq_left]
  rw [or_assoc]

structure Locked (config : Configuration L) (code : String) (history : List (Transition L))
    (s : Session L) : Prop where
  regular : s.Regular config (some code) code
  alone : s.Alone code
  waiting : ¬ IsResolved config code history →
    s.snapshot.pending = some code ∧ s.snapshot.language = config.default.code
  resolved : IsResolved config code history →
    s.snapshot.pending = none ∧ s.snapshot.language = code
  failed : ∀ transition ∈ history, ∀ failure, transition.AnswersLoad code (.error failure) →
    s.snapshot.isSettled = true ∧ s.snapshot.fallback = true

theorem Opens.locked (h : Opens config (some code) code s) : s.Locked config code [] := by
  refine ⟨h.regular, h.alone, fun hnot => ?_, fun hresolved => ?_,
    fun _ hmem => absurd hmem List.not_mem_nil⟩
  · cases h with
    | there hl hdata _ =>
      exact absurd (.inl ⟨_, hl, Option.isSome_iff_exists.2 ⟨_, hdata⟩⟩) hnot
    | absent _ _ hview => exact ⟨rfl, (view_fields hview).1⟩
  · cases h with
    | there _ _ hview =>
      obtain ⟨hlanguage, -, -, hpending, -⟩ := view_fields hview
      exact ⟨hpending, hlanguage⟩
    | absent hl hdata _ =>
      rcases hresolved with ⟨language, hown, hloaded⟩ | ⟨transition, hmem, -⟩
      · obtain rfl := Option.some.inj (hl.symm.trans hown)
        unfold Language.isLoaded at hloaded
        rw [hdata] at hloaded
        cases hloaded
      · cases hmem

theorem Locked.next (h : s.Locked config code history) (event : Event) :
    (s.next event).Locked config code (history ++ [⟨s, event, s.next event⟩]) := by
  obtain ⟨hr, halone, hwaiting, hresolved, hfailed⟩ := h
  obtain ⟨halone', hstep⟩ := halone.next hr event
  have hkept : (∀ result, ¬ Transition.AnswersLoad ⟨s, event, s.next event⟩ code result) →
      (s.next event).snapshot.pending = s.snapshot.pending →
      (s.next event).snapshot.language = s.snapshot.language →
      (s.next event).Locked config code (history ++ [⟨s, event, s.next event⟩]) :=
    fun hnot hpending hlanguage => by
      have hsame : IsResolved config code (history ++ [⟨s, event, s.next event⟩]) ↔
          IsResolved config code history :=
        isResolved_snoc.trans (or_iff_left fun ⟨result, hanswers⟩ => hnot result hanswers)
      refine ⟨hr.next event, halone', ?_, ?_, fun transition hmem failure hanswers => ?_⟩
      · rw [hsame, hpending, hlanguage]; exact hwaiting
      · rw [hsame, hpending, hlanguage]; exact hresolved
      · rcases List.mem_append.1 hmem with hmem | hmem
        · have hbefore := hfailed transition hmem failure hanswers
          rw [halone.settled_next hr hbefore.1]
          exact hbefore
        · obtain rfl := List.mem_singleton.1 hmem
          exact absurd hanswers (hnot _)
  cases hstep with
  | unseen hnot hsame =>
    exact hkept hnot (congrArg (·.pending) hsame) (congrArg (·.language) hsame)
  | settled hnot hnow =>
    exact hkept hnot (congrArg (·.pending) hnow) (congrArg (·.language) hnow)
  | @resolved result hanswers hpending hlanguage hend =>
    refine ⟨hr.next event, halone', fun hnot => ?_, fun _ => ⟨hpending, hlanguage⟩,
      fun transition hmem failure hanswers' => ?_⟩
    · exact absurd (isResolved_snoc.2 (.inr ⟨result, hanswers⟩)) hnot
    · obtain ⟨g, hs, hevent⟩ := hanswers
      rcases List.mem_append.1 hmem with hmem | hmem
      · have hbefore := (Snapshot.isSettled_iff.1 (hfailed transition hmem failure hanswers').1).2
        cases hbefore.symm.trans (halone.pending hr hs)
      · obtain rfl := List.mem_singleton.1 hmem
        obtain ⟨x, -, hevent'⟩ := hanswers'
        obtain ⟨-, hresult⟩ := Event.resume.inj (hevent.symm.trans hevent')
        exact hend failure (Answer.loaded.inj hresult)

theorem Opens.locked_after (h : Opens config (some code) code s) (schedule : List Event) :
    (s.after schedule).Locked config code (s.history schedule) := by
  induction schedule using List.reverseRecOn with
  | nil => exact h.locked
  | append_singleton earlier event ih =>
    rw [history_snoc, after_snoc]
    exact ih.next event

/-- A locked session makes no request, so its switch, if it has one, is past the store. -/
theorem Opens.unstored_of_lock (h : Opens config (some code) code s) (schedule : List Event) :
    writes (s.history schedule) = [] ∧ (s.after schedule).written = [] ∧
      ∀ g asked, (s.after schedule).errand? g ≠ some (.write asked) := by
  have hgeneration : (s.after schedule).generation = s.generation := by
    by_contra hne
    have hle := h.orderly.generation_le_after schedule
    have hlt : s.generation < (s.after schedule).generation := by omega
    obtain ⟨newer, hmem, g, asked, ⟨-, haccepted⟩, -⟩ := h.orderly.exists_accepts hlt
    obtain ⟨start, -, event, -, rfl⟩ := exists_of_mem_history hmem
    rw [request_of_locked (h.regular.after start).locked] at haccepted
    cases haccepted
  have hlogged := h.logged_after schedule
  have hnone : writes (s.history schedule) = [] :=
    List.eq_nil_iff_forall_not_mem.2 fun w hw => by
      obtain ⟨hlt, hle, -⟩ := hlogged.own w hw
      omega
  refine ⟨hnone, ?_, fun g asked herrand => ?_⟩
  · rw [hlogged.written, hnone]
    rfl
  · have hs := errand?_eq_write_iff.1 herrand
    have hlater := (hlogged.accords g _ hs).later trivial
    have hbound := (h.orderly.after schedule).numbered.exists_iff.1 ⟨_, hs⟩
    omega

theorem exists_openIn (config : Configuration L) (locked : Option String) (initial : String) :
    ∃ s, openIn config (.ofConfiguration config) locked initial = .ok s := by
  unfold openIn
  dsimp only
  split
  · next content _ =>
    obtain ⟨snapshot, hview⟩ := exists_view config.default.schema config.mode initial
      ((((Registry.ofConfiguration config).find? initial).map (·.direction)).getD
        config.default.direction) content false true
    simp only [hview]
    exact ⟨_, rfl⟩
  · obtain ⟨snapshot, hview⟩ := exists_view config.default.schema config.mode
      config.default.code config.default.direction config.default.schema.value false false
    simp only [hview]
    exact ⟨_, rfl⟩

/-- What holds of `s`, which was started locked to `code`, after a schedule. -/
structure Immutable (config : Configuration L) (code : String) (s : Session L)
    (schedule : List Event) : Prop where
  /-- Whatever is asked for, registered or not, is refused and changes nothing. -/
  refused : ∀ asked, (s.after schedule).request asked = (s.after schedule, .locked)
  /-- So is a change that is waited for; no service is used. -/
  unchanged : ∀ (m : Type → Type) [Monad m] (services : Services m L) (asked : String),
    (s.after schedule).change services asked = pure (s.after schedule, .ok .locked)
  /-- Nothing is stored, and the store is not even asked to. -/
  unstored : writes (s.history schedule) = [] ∧ (s.after schedule).written = [] ∧
    ∀ g asked, (s.after schedule).errand? g ≠ some (.write asked)
  generation : (s.after schedule).generation ≤ 1
  waiting : ¬ IsResolved config code (s.history schedule) →
    (s.after schedule).snapshot.language = config.default.code ∧
      (s.after schedule).snapshot.pending = some code
  resolved : IsResolved config code (s.history schedule) →
    (s.after schedule).snapshot.language = code ∧ (s.after schedule).snapshot.pending = none
  /-- Once the load has failed, the default language's content is shown as settled. -/
  failed : ∀ transition ∈ s.history schedule, ∀ failure,
    transition.AnswersLoad code (.error failure) →
    (s.after schedule).snapshot.isSettled = true ∧
      (s.after schedule).snapshot.fallback = true ∧
      (s.after schedule).snapshot.ShowsContent config (s.after schedule).registry
        config.default.code
  settled : (s.after schedule).snapshot.isSettled = true → ∀ later,
    (s.after (schedule ++ later)).snapshot = (s.after schedule).snapshot

theorem Opens.immutable (h : Opens config (some code) code s) (schedule : List Event) :
    Immutable config code s schedule := by
  have hlocked := h.locked_after schedule
  have hlock := hlocked.regular.locked
  constructor
  case refused => exact request_of_locked hlock
  case unchanged => exact fun _ _ services asked => change_of_locked hlock services asked
  case unstored => exact h.unstored_of_lock schedule
  case generation => exact hlocked.alone.few
  case waiting => exact fun hnot => (hlocked.waiting hnot).symm
  case resolved => exact fun hresolved => (hlocked.resolved hresolved).symm
  case failed =>
    intro transition hmem failure hanswers
    obtain ⟨hsettled, hback⟩ := hlocked.failed transition hmem failure hanswers
    exact ⟨hsettled, hback, hlocked.regular.truthful.coherent.default hback⟩
  case settled =>
    intro hsettled later
    rw [after_append]
    exact hlocked.alone.settled_after hlocked.regular hsettled later

/-- **A locked session is immutable**: it is refused at once if its language is not registered, and
else started without the store, and from then on nobody can change it. -/
theorem immutable_of_lock (config : Configuration L) (code : String) :
    ((Registry.ofConfiguration config).contains code = false →
      ∀ (m : Type → Type) [Monad m] (store : PreferenceStore m)
        (preferences : Option (List String)),
        Session.start config (some code) store preferences
          = pure (.error (.missingLanguage code))) ∧
    ((Registry.ofConfiguration config).contains code = true → ∃ s : Session L,
      (∀ (m : Type → Type) [Monad m] [LawfulMonad m] (store : PreferenceStore m)
        (preferences : Option (List String)),
        Session.start config (some code) store preferences = pure (.ok s)) ∧
      ∀ schedule, Immutable config code s schedule) := by
  constructor
  · intro hmissing m _ store preferences
    unfold Session.start
    simp only [Option.filter, hmissing, Bool.not_false, ↓reduceIte]
  · intro hcontains
    obtain ⟨language, hl⟩ := Registry.contains_iff.1 hcontains
    obtain ⟨s, hs⟩ := exists_openIn config (some code) code
    refine ⟨s, fun m _ _ store preferences => ?_, (opens_of_openIn hl hs).immutable⟩
    unfold Session.start Registry.initial
    simp only [Option.filter, hcontains, Bool.not_true, Bool.false_eq_true, ↓reduceIte, pure_bind,
      hs]

/-- French is locked and fails to load; the stored language is English. German is no language. -/
theorem immutable_of_lock_bilingual :
    Session.start Configuration.bilingual (some "de") PreferenceStore.memory none
      = pure (.error (.missingLanguage "de")) ∧
    ∃ s : Session Unit,
      (Surroundings.remembering (some "en")).start Configuration.bilingual (some "fr")
        = (.ok s, some "en") ∧
      ∀ schedule, Immutable Configuration.bilingual "fr" s schedule := by
  have hmissing : (Registry.ofConfiguration Configuration.bilingual).contains "de" = false := by
    decide +kernel
  have hcontains : (Registry.ofConfiguration Configuration.bilingual).contains "fr" = true := by
    decide +kernel
  obtain ⟨s, hstart, himmutable⟩ := (immutable_of_lock Configuration.bilingual "fr").2 hcontains
  refine ⟨(immutable_of_lock Configuration.bilingual "de").1 hmissing _ _ _, s, ?_, himmutable⟩
  unfold Surroundings.start
  rw [hstart]
  rfl

end Session

end Phrasebook
