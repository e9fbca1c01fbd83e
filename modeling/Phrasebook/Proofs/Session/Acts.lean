import Mathlib.Logic.Relation
import Phrasebook.Proofs.Accessor.Acceptance
import Phrasebook.Proofs.Registry.Languages
import Phrasebook.Proofs.Session.Switches

/-!
# The acts of a switch

`Session.resume` lets a switch run from one wait to the next. Such a run is a sequence of acts, each
of which leads from one consistent session to another:

* quiet acts (`Quiet`) concern the store lock, the store and the turn of a loader;
* an act that lands (`Lands`) comes last: the switch has found what it is to show (`Finds`), or its
  fade is over, and it publishes unless a newer request was accepted.

`resume_goes` says that every run is made of these. What holds of all sessions is proved act by act
from here on, and nothing else looks into `Session.resume`.
-/

namespace Phrasebook.Session

variable {L : Type}

/-! ## Passing on -/

def passLock (s : Session L) : Session L :=
  { s with lock := s.lock.pass.1 }.wakeAll s.lock.pass.2.toList .holdingLock

def passTurn (s : Session L) (code : String) (language : Language L) : Session L :=
  { s with registry := s.registry.setCell code language.cell.fail.1 }.wakeAll
    language.cell.fail.2.toList .holdingTurn

/-- The dataset of `code` has come, and whoever waited for it goes on. -/
def fill (s : Session L) (code : String) (language : Language L) (dataset : Json) : Session L :=
  { s with registry := s.registry.setCell code { dataset := some dataset } }.wakeAll
    language.cell.turn.waiting .served

/-- A switch has asked for a dataset that is not there. -/
def miss (s : Session L) (code : String) (cell : Cell) : Session L :=
  { s with metrics := s.metrics.miss, registry := s.registry.setCell code cell }

theorem releaseLock_eq (s : Session L) (sw : Switch) :
    s.releaseLock sw = s.passLock.lookUp sw := by
  unfold releaseLock passLock
  rw [← foldl_wake]
  rcases s.lock.pass with ⟨lock, _ | waiter⟩ <;> rfl

theorem failLoad_eq (s : Session L) (sw : Switch) (language : Language L) :
    s.failLoad sw language = (s.passTurn sw.code language).fallBack sw := by
  unfold failLoad passTurn
  rw [← foldl_wake]
  rcases language.cell.fail with ⟨cell, _ | waiter⟩ <;> rfl

theorem fillCell_eq (s : Session L) (sw : Switch) (language : Language L) (dataset : Json) :
    s.fillCell sw language dataset =
      (s.fill sw.code language dataset).resolve sw language.direction dataset false true := by
  unfold fillCell fill
  rw [← foldl_wake]
  rfl

/-! ## Acts -/

/-- The switch of generation `g` asks for `code` and is at `stage`. -/
abbrev At (s : Session L) (g : Nat) (code : String) (stage : Stage) : Prop :=
  s.switch? g = some ⟨code, g, stage⟩

/-- An act with which the switch of generation `g` goes on without showing anything. -/
inductive Quiet (g : Nat) (code : String) (answer : Answer) : Session L → Session L → Prop where
  | skipStore {s : Session L} : s.At g code .accepted → s.remembers = false →
      Quiet g code answer s (s.setStage g .resolving)
  | takeLock {s : Session L} : s.At g code .accepted → s.remembers = true →
      s.lock.holder = none →
      Quiet g code answer s ({ s with lock := (s.lock.ask g).1 }.setStage g .holdingLock)
  | joinLock {s : Session L} : s.At g code .accepted → s.remembers = true →
      s.lock.holder ≠ none →
      Quiet g code answer s ({ s with lock := (s.lock.ask g).1 }.setStage g .awaitingLock)
  | startWrite {s : Session L} : s.At g code .holdingLock → s.persisted < g →
      Quiet g code answer s (s.setStage g .writing)
  | skipWrite {s : Session L} : s.At g code .holdingLock → g ≤ s.persisted →
      Quiet g code answer s (s.passLock.setStage g .resolving)
  | endWrite {s : Session L} : s.At g code .writing → answer = .stored true →
      Quiet g code answer s
        ({ s with written := s.written ++ [(g, code)] }.passLock.setStage g .resolving)
  | failWrite {s : Session L} : s.At g code .writing → answer = .stored false →
      Quiet g code answer s (s.passLock.setStage g .resolving)
  | takeTurn {s : Session L} {language : Language L} : s.At g code .resolving →
      s.registry.find? code = some language → language.cell.dataset = none →
      language.cell.turn.holder = none →
      Quiet g code answer s ((s.miss code (language.cell.ask g).1).setStage g .holdingTurn)
  | joinTurn {s : Session L} {language : Language L} : s.At g code .resolving →
      s.registry.find? code = some language → language.cell.dataset = none →
      language.cell.turn.holder ≠ none →
      Quiet g code answer s ((s.miss code (language.cell.ask g).1).setStage g .awaitingLoad)
  | call {s : Session L} {language : Language L} {loader : L} : s.At g code .holdingTurn →
      s.registry.find? code = some language → language.loader = some loader →
      Quiet g code answer s ({ s with metrics := s.metrics.call }.setStage g .loading)

/-- The switch of generation `g` finds what it is to show: in `found`, a direction and a content,
whether they are those of the default language, and whether they are fresh. -/
inductive Finds (g : Nat) (code : String) (answer : Answer) (s : Session L) :
    (found : Session L) → Direction → Json → (fallback fresh : Bool) → Prop where
  | cached {language : Language L} {content : Json} : s.At g code .resolving →
      s.registry.find? code = some language → language.cell.dataset = some content →
      Finds g code answer s { s with metrics := s.metrics.hit } language.direction content false
        false
  | loaded {language : Language L} {value : Json} : s.At g code .loading →
      s.registry.find? code = some language → answer = .loaded (.ok value) →
      Finds g code answer s (s.fill code language (unwrapModule value)) language.direction
        (unwrapModule value) false true
  | failed {language : Language L} {failure : Failure} : s.At g code .loading →
      s.registry.find? code = some language → answer = .loaded (.error failure) →
      Finds g code answer s ({ s with metrics := s.metrics.failure }.passTurn code language)
        s.default.direction s.default.schema.value true false
  | uncallable {language : Language L} : s.At g code .holdingTurn →
      s.registry.find? code = some language → language.loader = none →
      Finds g code answer s (s.passTurn code language) s.default.direction
        s.default.schema.value true false
  | served {language : Language L} {content : Json} : s.At g code .served →
      s.registry.find? code = some language → language.cell.dataset = some content →
      Finds g code answer s s language.direction content false true
  | unserved {language : Language L} : s.At g code .served →
      s.registry.find? code = some language → language.cell.dataset = none →
      Finds g code answer s s s.default.direction s.default.schema.value true false

/-- Where a switch stands once it has published. -/
def landing (fallback fresh : Bool) : Stage :=
  if fresh then .fading else .ended (.ok (if fallback then .fellBack else .applied))

/-- The session after the switch of generation `g` has published `snapshot`. -/
def present (s : Session L) (g : Nat) (code : String) (direction : Direction)
    (snapshot : Snapshot) (stage : Stage) : Session L :=
  { s.publish snapshot with applied := s.applied ++ [(code, direction)] }.setStage g stage

def drop (s : Session L) (g : Nat) : Session L :=
  { s with metrics := s.metrics.discard }.setStage g (.ended (.ok .superseded))

/-- The last act of a run of the switch of generation `g`. -/
inductive Lands (g : Nat) (code : String) (answer : Answer) (s : Session L) : Session L → Prop where
  | shown {found : Session L} {direction : Direction} {content : Json} {fallback fresh : Bool}
      {snapshot : Snapshot} : Finds g code answer s found direction content fallback fresh →
      found.generation = g →
      view found.default.schema found.mode code direction content fallback (!fresh)
        = .ok snapshot →
      Lands g code answer s (found.present g code direction snapshot (landing fallback fresh))
  | overtaken {found : Session L} {direction : Direction} {content : Json} {fallback fresh : Bool} :
      Finds g code answer s found direction content fallback fresh → found.generation ≠ g →
      Lands g code answer s (found.drop g)
  | settled : s.At g code .fading → s.generation = g →
      Lands g code answer s
        ((s.publish { s.snapshot with ready := true }).setStage g (.ended (.ok .applied)))
  | faded : s.At g code .fading → s.generation ≠ g → Lands g code answer s (s.drop g)

/-! ## Every run is made of acts -/

/-- The switch of generation `g` goes from `s` to `t` in one run. -/
def Goes (g : Nat) (code : String) (answer : Answer) (s t : Session L) : Prop :=
  Relation.TransGen (Quiet g code answer) s t ∨
    ∃ m, Relation.ReflTransGen (Quiet g code answer) s m ∧ Lands g code answer m t

variable {g : Nat} {code : String} {answer : Answer} {s t u : Session L} {sw : Switch}
  {language : Language L}

theorem Goes.of_quiet (h : Quiet g code answer s t) : Goes g code answer s t :=
  .inl (.single h)

theorem Goes.of_lands (h : Lands g code answer s t) : Goes g code answer s t :=
  .inr ⟨s, .refl, h⟩

theorem Goes.head (h : Quiet g code answer s t) (hgo : Goes g code answer t u) :
    Goes g code answer s u := by
  rcases hgo with hgo | ⟨m, hm, hl⟩
  · exact .inl (.head h hgo)
  · exact .inr ⟨m, .head h hm, hl⟩

theorem exists_view (schema : Schema) (mode : FallbackMode) (code : String)
    (direction : Direction) (content : Json) (fallback ready : Bool) :
    ∃ snapshot, view schema mode code direction content fallback ready = .ok snapshot := by
  obtain ⟨strings, hstrings⟩ := schema.exists_build (Leaf.rule mode) (some content)
  obtain ⟨lists, hlists⟩ := schema.exists_build (Lists.rule mode) (some content)
  refine ⟨⟨code, direction, ready, none, fallback, strings, lists⟩, ?_⟩
  unfold view Strings.build Lists.build
  rw [hstrings, hlists]
  rfl

/-- Two sessions that differ in nothing but the stage of one switch. -/
def AlikeBut (g : Nat) (s t : Session L) : Prop := ∀ stage, s.setStage g stage = t.setStage g stage

/-- What a switch found decides how it lands, whatever stage it was at. -/
theorem resolve_lands {found : Session L} {direction : Direction} {content : Json}
    {fallback fresh : Bool} (hf : Finds g code answer s found direction content fallback fresh)
    (ht : AlikeBut g t found) (stage : Stage) :
    Lands g code answer s (t.resolve ⟨code, g, stage⟩ direction content fallback fresh) := by
  have hdefault : t.default = found.default := by
    have h := congrArg Session.default (ht .accepted); exact h
  have hmode : t.mode = found.mode := by
    have h := congrArg Session.mode (ht .accepted); exact h
  have hgen : t.generation = found.generation := by
    have h := congrArg Session.generation (ht .accepted); exact h
  obtain ⟨snapshot, hview⟩ :=
    exists_view found.default.schema found.mode code direction content fallback (!fresh)
  unfold resolve
  rw [hdefault, hmode, hgen]
  simp only [hview]
  split
  · next hcur =>
    have hland := Lands.shown hf hcur hview
    have hend : t.present g code direction snapshot (landing fallback fresh) =
        found.present g code direction snapshot (landing fallback fresh) :=
      congrArg (fun x : Session L =>
        { x.publish snapshot with applied := x.applied ++ [(code, direction)] }) (ht _)
    rw [← hend] at hland
    cases fresh <;> exact hland
  · next hold =>
    have hland := Lands.overtaken hf hold
    have hend : t.drop g = found.drop g :=
      congrArg (fun x : Session L => { x with metrics := x.metrics.discard }) (ht _)
    rw [← hend] at hland
    exact hland

theorem fallBack_lands {found : Session L}
    (hf : Finds g code answer s found s.default.direction s.default.schema.value true false)
    (hd : found.default = s.default) (ht : AlikeBut g t found) (stage : Stage) :
    Lands g code answer s (t.fallBack ⟨code, g, stage⟩) := by
  have hdefault : t.default = s.default := by
    have h := congrArg Session.default (ht .accepted); exact h.trans hd
  unfold fallBack
  rw [hdefault]
  exact resolve_lands hf ht stage

section Alike

variable {stage : Stage}

theorem alikeBut_passLock : AlikeBut g s.passLock (s.setStage g stage).passLock :=
  fun last => (setStage_wakeAll_setStage { s with lock := s.lock.pass.1 } g stage _ last _).symm

theorem alikeBut_passTurn :
    AlikeBut g (s.passTurn code language) ((s.setStage g stage).passTurn code language) :=
  fun last => (setStage_wakeAll_setStage
    { s with registry := s.registry.setCell code language.cell.fail.1 } g stage _ last _).symm

end Alike

theorem at_setStage {stage : Stage} (hs : s.At g code stage) (next : Stage) :
    (s.setStage g next).At g code next :=
  switch?_setStage_self hs next

variable {stage : Stage}

theorem callLoader_goes (hs : s.At g code stage) (hl : s.registry.find? code = some language)
    (last : Stage) :
    Goes g code answer (s.setStage g .holdingTurn) (s.callLoader ⟨code, g, last⟩ language) := by
  have hat := at_setStage hs .holdingTurn
  unfold callLoader
  cases hloader : language.loader with
  | some loader =>
    show Goes g code answer _ ({ s with metrics := s.metrics.call }.setStage g .loading)
    rw [← setStage_setStage _ g .holdingTurn .loading]
    exact .of_quiet (.call hat hl hloader)
  | none =>
    show Goes g code answer _ (s.failLoad _ language)
    rw [failLoad_eq]
    exact .of_lands (fallBack_lands (.uncallable hat hl hloader) rfl alikeBut_passTurn last)

theorem lookUp_goes (hs : s.At g code stage) (hl : s.registry.find? code = some language)
    (last : Stage) :
    Goes g code answer (s.setStage g .resolving) (s.lookUp ⟨code, g, last⟩) := by
  have hat := at_setStage hs .resolving
  unfold lookUp
  simp only [hl]
  cases hdata : language.cell.dataset with
  | some content =>
    rw [Cell.ask_full hdata]
    exact .of_lands (resolve_lands (.cached hat hl hdata) (fun _ => (setStage_setStage ..).symm)
      last)
  | none =>
    by_cases hturn : language.cell.turn.holder = none
    · have hask : language.cell.ask g = ((language.cell.ask g).1, .turn) := by
        rw [Cell.ask_free hdata hturn]
      rw [hask]
      refine .head (.takeTurn hat hl hdata hturn) ?_
      have hnext : (s.miss code (language.cell.ask g).1).At g code stage := hs
      have hfound : (s.miss code (language.cell.ask g).1).registry.find? code = some _ :=
        Registry.find?_setCell_self hl
      have hgo : Goes g code answer _ _ := callLoader_goes hnext hfound last
      rw [← setStage_setStage _ g .resolving .holdingTurn] at hgo
      exact hgo
    · have hask : language.cell.ask g = ((language.cell.ask g).1, .queued) := by
        rw [Cell.ask_taken hdata hturn]
      rw [hask]
      show Goes g code answer _ ((s.miss code (language.cell.ask g).1).setStage g .awaitingLoad)
      rw [← setStage_setStage _ g .resolving .awaitingLoad]
      exact .of_quiet (.joinTurn hat hl hdata hturn)

theorem at_wakeAll (hs : s.At g code stage) (waiters : List Nat) (next : Stage) :
    ∃ last, (s.wakeAll waiters next).At g code last := by
  unfold At
  rw [switch?_wakeAll, hs, Option.map_some]
  split
  · exact ⟨next, rfl⟩
  · exact ⟨stage, rfl⟩

theorem releaseLock_goes (hs : s.At g code stage) (hl : s.registry.find? code = some language)
    (last : Stage) :
    Goes g code answer (s.passLock.setStage g .resolving) (s.releaseLock ⟨code, g, last⟩) := by
  obtain ⟨next, hnext⟩ := at_wakeAll (s := { s with lock := s.lock.pass.1 }) hs
    s.lock.pass.2.toList .holdingLock
  rw [releaseLock_eq]
  exact lookUp_goes (s := s.passLock) hnext hl last

theorem write_goes (hs : s.At g code stage) (hl : s.registry.find? code = some language)
    (last : Stage) :
    Goes g code answer (s.setStage g .holdingLock) (s.write ⟨code, g, last⟩) := by
  have hat := at_setStage hs .holdingLock
  unfold write
  split
  · next hle =>
    have halike : AlikeBut g s.passLock (s.setStage g .holdingLock).passLock := alikeBut_passLock
    have hgo : Goes g code answer _ _ := releaseLock_goes hs hl last
    rw [halike] at hgo
    exact .head (.skipWrite hat hle) hgo
  · next hnot =>
    rw [← setStage_setStage _ g .holdingLock .writing]
    exact .of_quiet (.startWrite hat (Nat.lt_of_not_le hnot))

theorem persist_goes (hs : s.At g code .accepted) (hl : s.registry.find? code = some language) :
    Goes g code answer s (s.persist ⟨code, g, .accepted⟩) := by
  unfold persist
  by_cases hrem : s.remembers = true
  · rw [if_pos hrem]
    by_cases hlock : s.lock.holder = none
    · have hask : s.lock.ask g = ((s.lock.ask g).1, true) := by unfold Turn.ask; rw [hlock]
      rw [hask]
      exact .head (.takeLock hs hrem hlock)
        (write_goes (s := { s with lock := (s.lock.ask g).1 }) hs hl .accepted)
    · have hask : s.lock.ask g = ((s.lock.ask g).1, false) := by
        obtain ⟨holder, hholder⟩ := Option.ne_none_iff_exists'.1 hlock
        unfold Turn.ask; rw [hholder]
      rw [hask]
      exact .of_quiet (.joinLock hs hrem hlock)
  · rw [if_neg hrem]
    exact .head (.skipStore hs (by simpa using hrem)) (lookUp_goes hs hl .accepted)

theorem recordWrite_goes {success : Bool} (hs : s.At g code .writing)
    (hl : s.registry.find? code = some language) (ha : answer = .stored success) :
    Goes g code answer s (s.recordWrite ⟨code, g, .writing⟩ success) := by
  unfold recordWrite
  cases success with
  | false => exact .head (.failWrite hs ha) (releaseLock_goes hs hl _)
  | true =>
    exact .head (.endWrite hs ha)
      (releaseLock_goes (s := { s with written := s.written ++ [(g, code)] }) hs hl _)

theorem recordLoad_lands {result : Except Failure Json} (hs : s.At g code .loading)
    (hl : s.registry.find? code = some language) (ha : answer = .loaded result) :
    Lands g code answer s (s.recordLoad ⟨code, g, .loading⟩ result) := by
  unfold recordLoad
  simp only [hl]
  cases result with
  | ok value =>
    show Lands g code answer s (s.fillCell _ language (unwrapModule value))
    rw [fillCell_eq]
    exact resolve_lands (.loaded hs hl ha) (fun _ => rfl) _
  | error failure =>
    show Lands g code answer s (failLoad { s with metrics := s.metrics.failure } _ language)
    rw [failLoad_eq]
    exact fallBack_lands (.failed hs hl ha) rfl (fun _ => rfl) _

theorem takeServed_lands (hs : s.At g code .served) (hl : s.registry.find? code = some language) :
    Lands g code answer s (s.takeServed ⟨code, g, .served⟩) := by
  unfold takeServed
  simp only [hl]
  cases hdata : language.cell.dataset with
  | some content => exact resolve_lands (.served hs hl hdata) (fun _ => rfl) _
  | none => exact fallBack_lands (.unserved hs hl hdata) rfl (fun _ => rfl) _

theorem settle_lands (hs : s.At g code .fading) :
    Lands g code answer s (s.settle ⟨code, g, .fading⟩) := by
  unfold settle
  split
  · next hcur => exact .settled hs hcur
  · next hold => exact .faded hs hold

/-- The session with nothing said of who was woken. -/
def calm (s : Session L) : Session L := { s with woken := [] }

/-- A switch runs if and only if it gets an answer that its stage takes. -/
theorem resume_isSome_iff (s : Session L) (g : Nat) (answer : Answer) :
    (s.resume g answer).isSome ↔ ∃ code stage, s.At g code stage ∧ stage.Takes answer := by
  have hswitch : { s with woken := [] }.switch? g = s.switch? g := rfl
  unfold resume
  simp only [hswitch]
  cases hs : s.switch? g with
  | none =>
    constructor
    · intro h; cases h
    · rintro ⟨code, stage, hat, -⟩
      cases hs.symm.trans hat
  | some sw =>
    have hgen := generation_of_switch? hs
    obtain ⟨code, generation, stage⟩ := sw
    obtain rfl : generation = g := hgen
    constructor
    · intro h
      refine ⟨code, stage, hs, ?_⟩
      cases stage <;> cases answer <;> first | constructor | cases h
    · rintro ⟨code', stage', hat, htakes⟩
      obtain ⟨rfl, rfl⟩ : code = code' ∧ stage = stage' := by
        have := Option.some.inj (hs.symm.trans hat)
        cases this; exact ⟨rfl, rfl⟩
      cases htakes <;> rfl

/-- **Every run is made of acts.** -/
theorem resume_goes (hn : s.Numbered)
    (hreg : ∀ sw, s.switch? g = some sw → ∃ language, s.registry.find? sw.code = some language)
    (h : s.resume g answer = some t) :
    ∃ code stage, s.At g code stage ∧ stage.Takes answer ∧ Goes g code answer s.calm t := by
  obtain ⟨code, stage, hat, htakes⟩ := (resume_isSome_iff s g answer).1 (by rw [h]; rfl)
  refine ⟨code, stage, hat, htakes, ?_⟩
  obtain ⟨language, hl⟩ := hreg _ hat
  have hcalm : s.calm.At g code stage := hat
  have hl : s.calm.registry.find? code = some language := hl
  have hself : s.calm.setStage g stage = s.calm := Numbered.setStage_self (s := s.calm) hn hat
  unfold resume at h
  have hopen : { s with woken := [] }.switch? g = some ⟨code, g, stage⟩ := hat
  simp only [hopen] at h
  cases htakes <;> simp only [Option.some.injEq] at h <;> subst h
  case accepted => exact persist_goes hcalm hl
  case resolving =>
    have hgo : Goes g code .proceed _ _ := lookUp_goes hcalm hl .resolving
    rwa [hself] at hgo
  case holdingLock =>
    have hgo : Goes g code .proceed _ _ := write_goes hcalm hl .holdingLock
    rwa [hself] at hgo
  case writing success => exact recordWrite_goes hcalm hl rfl
  case holdingTurn =>
    have hgo : Goes g code .proceed _ _ := callLoader_goes hcalm hl .holdingTurn
    rw [hself] at hgo
    unfold takeTurn
    simp only [calm] at hl hgo
    rw [hl]
    exact hgo
  case served => exact .of_lands (takeServed_lands hcalm hl)
  case loading result => exact .of_lands (recordLoad_lands hcalm hl rfl)
  case fading => exact .of_lands (settle_lands hcalm)

end Phrasebook.Session
