import Phrasebook.Proofs.Session.Schedule

/-!
# What an event does to what is seen

Most of what a switch does is not seen: the acts before its last one keep the snapshot, and all
switches that have landed (`Keeps`). So an event has one of few effects on an orderly session, and
`Step` lists them.
-/

namespace Phrasebook.Session

variable {L : Type}

/-- From `s` to `t` nothing is seen to happen: some switches that have not landed were moved on,
and there may be more datasets. -/
structure Keeps (s t : Session L) : Prop where
  default : t.default = s.default
  mode : t.mode = s.mode
  locked : t.locked = s.locked
  remembers : t.remembers = s.remembers
  generation : t.generation = s.generation
  snapshot : t.snapshot = s.snapshot
  revision : t.revision = s.revision
  applied : t.applied = s.applied
  registry : s.registry.Grows t.registry
  stages : s.Moved (fun a b => a.IsOpen ∧ b.IsOpen) t

variable {s t u : Session L} {g : Nat} {code : String} {answer : Answer} {stage last : Stage}
  {language : Language L}

theorem Keeps.refl (s : Session L) : s.Keeps s :=
  ⟨rfl, rfl, rfl, rfl, rfl, rfl, rfl, rfl, .refl _, .refl _ s⟩

theorem Keeps.trans (h : s.Keeps t) (h' : t.Keeps u) : s.Keeps u where
  default := h'.default.trans h.default
  mode := h'.mode.trans h.mode
  locked := h'.locked.trans h.locked
  remembers := h'.remembers.trans h.remembers
  generation := h'.generation.trans h.generation
  snapshot := h'.snapshot.trans h.snapshot
  revision := h'.revision.trans h.revision
  applied := h'.applied.trans h.applied
  registry := h.registry.trans h'.registry
  stages := h.stages.trans (fun _ _ _ hab hbc => ⟨hab.1, hbc.2⟩) h'.stages

theorem Keeps.setStage (hs : s.At g code last) (hlast : last.IsOpen) (hstage : stage.IsOpen) :
    s.Keeps (s.setStage g stage) :=
  ⟨rfl, rfl, rfl, rfl, rfl, rfl, rfl, rfl, .refl _, .setStage hs ⟨hlast, hstage⟩⟩

theorem Keeps.passLock (h : s.Orderly) : s.Keeps s.passLock :=
  ⟨rfl, rfl, rfl, rfl, rfl, rfl, rfl, rfl, .refl _, h.moved_passLock ⟨trivial, trivial⟩⟩

theorem Keeps.passTurn (h : s.Orderly) (hl : s.registry.find? code = some language) :
    s.Keeps (s.passTurn code language) :=
  ⟨rfl, rfl, rfl, rfl, rfl, rfl, rfl, rfl, Registry.grows_setCell hl fun _ e => e,
    h.moved_passTurn hl ⟨trivial, trivial⟩⟩

theorem Keeps.fill {dataset : Json} (h : s.Orderly) (hs : s.At g code .loading)
    (hl : s.registry.find? code = some language) : s.Keeps (s.fill code language dataset) := by
  refine ⟨rfl, rfl, rfl, rfl, rfl, rfl, rfl, rfl, Registry.grows_setCell hl fun content e => ?_,
    h.moved_fill hl ⟨trivial, trivial⟩⟩
  rw [h.dataset_of_holding hs rfl hl] at e
  cases e

theorem Keeps.passLock_setStage (h : s.Orderly) (hs : s.At g code last)
    (hholds : last.lockRole = .holding) (hlast : last.IsOpen) (hstage : stage.IsOpen) :
    s.Keeps (s.passLock.setStage g stage) :=
  (Keeps.passLock h).trans (.setStage (h.passLock_at hs hholds) hlast hstage)

theorem Quiet.keeps (hq : Quiet g code answer s t) (h : s.Orderly) : s.Keeps t := by
  have hmiss : ∀ (cell : Cell) {language : Language L}, s.registry.find? code = some language →
      language.cell.dataset = none → s.Keeps (s.miss code cell) := fun cell language hl hdata => by
    have hgrows : s.registry.Grows (s.registry.setCell code cell) :=
      Registry.grows_setCell hl fun _ e => by rw [hdata] at e; cases e
    exact { Keeps.refl s with registry := hgrows }
  cases hq with
  | skipStore hs _ => exact .setStage hs trivial trivial
  | takeLock hs _ _ =>
    have hlock : s.Keeps { s with lock := (s.lock.ask g).1 } := { Keeps.refl s with }
    exact hlock.trans (.setStage hs trivial trivial)
  | joinLock hs _ _ =>
    have hlock : s.Keeps { s with lock := (s.lock.ask g).1 } := { Keeps.refl s with }
    exact hlock.trans (.setStage hs trivial trivial)
  | startWrite hs _ => exact .setStage hs trivial trivial
  | skipWrite hs _ => exact .passLock_setStage h hs rfl trivial trivial
  | endWrite hs _ =>
    have hwritten : s.Keeps { s with written := s.written ++ [(g, code)] } := { Keeps.refl s with }
    have hmore : { s with written := s.written ++ [(g, code)] }.Orderly := h.congr rfl rfl rfl rfl
    exact hwritten.trans (.passLock_setStage hmore hs rfl trivial trivial)
  | failWrite hs _ => exact .passLock_setStage h hs rfl trivial trivial
  | takeTurn hs hl hdata _ => exact (hmiss _ hl hdata).trans (.setStage hs trivial trivial)
  | joinTurn hs hl hdata _ => exact (hmiss _ hl hdata).trans (.setStage hs trivial trivial)
  | call hs _ _ =>
    have hcounted : s.Keeps { s with metrics := s.metrics.call } := { Keeps.refl s with }
    exact hcounted.trans (.setStage hs trivial trivial)

/-! ## What is found -/

/-- What there is to show for `code`: its own dataset, or the default language's content. -/
inductive Offers (s : Session L) (code : String) :
    Direction → Json → (fallback : Bool) → Prop where
  | own {language : Language L} {content : Json} : s.registry.find? code = some language →
      language.cell.dataset = some content → Offers s code language.direction content false
  | default : Offers s code s.default.direction s.default.schema.value true

/-- What a switch finds is what there is to show, and a fallback does not fade in. -/
theorem Finds.offers {found : Session L} {direction : Direction} {content : Json}
    {fallback fresh : Bool} (hf : Finds g code answer s found direction content fallback fresh)
    (h : s.Orderly) :
    s.Keeps found ∧ found.Offers code direction content fallback ∧
      (fallback = true → fresh = false) := by
  cases hf with
  | cached hs hl hdata => exact ⟨{ Keeps.refl s with }, .own hl hdata, nofun⟩
  | @loaded language value hs hl _ =>
    let filled : Language L := { language with cell := { dataset := some (unwrapModule value) } }
    have hnew : (s.fill code language (unwrapModule value)).registry.find? code = some filled :=
      Registry.find?_setCell_self hl
    have hoffers : (s.fill code language (unwrapModule value)).Offers code filled.direction
        (unwrapModule value) false := .own hnew rfl
    exact ⟨.fill h hs hl, hoffers, nofun⟩
  | failed hs hl _ =>
    have hcounted : { s with metrics := s.metrics.failure }.Orderly := h.congr rfl rfl rfl rfl
    have hk : s.Keeps { s with metrics := s.metrics.failure } := { Keeps.refl s with }
    exact ⟨hk.trans (.passTurn hcounted hl), .default, fun _ => rfl⟩
  | uncallable hs hl _ => exact ⟨.passTurn h hl, .default, fun _ => rfl⟩
  | served hs hl hdata => exact ⟨.refl s, .own hl hdata, nofun⟩
  | unserved hs _ _ => exact ⟨.refl s, .default, fun _ => rfl⟩

/-! ## The effects of an event -/

/-- What an event does to an orderly session `s`. -/
inductive Step (s : Session L) : Event → Session L → Prop where
  | refused {code : String} :
      (s.locked.isSome ∨ s.registry.contains code = false ∨ s.isCurrent code = true) →
      (∀ generation, (s.request code).2 ≠ .accepted generation) → Step s (.request code) s
  | accepted {code : String} : s.locked = none → s.registry.contains code = true →
      s.isCurrent code = false → (s.request code).2 = .accepted (s.generation + 1) →
      Step s (.request code) (s.accept code)
  | stuck {g : Nat} {answer : Answer} : s.resume g answer = none → Step s (.resume g answer) s
  /-- A switch goes on to its next wait. -/
  | unseen {t : Session L} {g : Nat} {answer : Answer} : s.Keeps t → Step s (.resume g answer) t
  /-- The switch of the newest request publishes. -/
  | shown {found : Session L} {g : Nat} {answer : Answer} {code : String} {last : Stage}
      {direction : Direction} {content : Json} {fallback fresh : Bool} {snapshot : Snapshot} :
      s.Keeps found → found.At g code last → last.IsOpen → found.generation = g →
      found.Offers code direction content fallback → (fallback = true → fresh = false) →
      view found.default.schema found.mode code direction content fallback (!fresh)
        = .ok snapshot →
      Step s (.resume g answer) (found.present g code direction snapshot (landing fallback fresh))
  | overtaken {found : Session L} {g : Nat} {answer : Answer} {code : String} {last : Stage} :
      s.Keeps found → found.At g code last → last.IsOpen → found.generation ≠ g →
      Step s (.resume g answer) (found.drop g)
  /-- The fade of the newest request is over. -/
  | settled {g : Nat} {answer : Answer} {code : String} : s.At g code .fading →
      s.generation = g →
      Step s (.resume g answer)
        ((s.calm.publish { s.snapshot with ready := true }).setStage g (.ended (.ok .applied)))
  | faded {g : Nat} {answer : Answer} {code : String} : s.At g code .fading →
      s.generation ≠ g → Step s (.resume g answer) (s.calm.drop g)

theorem Quiet.exists_open (hq : Quiet g code answer s t) :
    ∃ stage, s.At g code stage ∧ stage.IsOpen := by
  cases hq <;> refine ⟨_, by assumption, ?_⟩ <;> exact trivial

/-- The quiet acts of a run are not seen. -/
theorem keeps_of_quiets (hrun : Relation.ReflTransGen (Quiet g code answer) s t) (h : s.Orderly) :
    s.Keeps t ∧ t.Orderly := by
  induction hrun with
  | refl => exact ⟨.refl s, h⟩
  | tail _ hq ih => exact ⟨ih.1.trans (hq.keeps ih.2), hq.orderly ih.2⟩

theorem eq_of_fading (hrun : Relation.ReflTransGen (Quiet g code answer) s t)
    (h : s.Orderly) (hs : t.At g code .fading) : t = s := by
  induction hrun with
  | refl => rfl
  | @tail m t hm hq ih =>
    obtain ⟨-, horder⟩ := keeps_of_quiets hm h
    obtain ⟨old, hold, -, hsame | ⟨-, hopen⟩⟩ := (hq.keeps horder).stages g _ hs
    · obtain ⟨stage, hstage, hopen⟩ := hq.exists_open
      obtain rfl := Option.some.inj (hstage.symm.trans hold)
      obtain rfl : Stage.fading = stage := hsame
      exact absurd hopen id
    · exact absurd hopen id

theorem Keeps.calm (s : Session L) : s.Keeps s.calm := { Keeps.refl s with }

/-- **What an event does to an orderly session.** -/
theorem Orderly.step (h : s.Orderly) (event : Event) : s.Step event (s.next event) := by
  cases event with
  | request code =>
    rcases s.request_cases code with ⟨hlocked, hcode, hcur, hreq⟩ | ⟨hrefused, hreq, hreply⟩
    · have hnext : s.next (.request code) = s.accept code := congrArg Prod.fst hreq
      rw [hnext]; exact .accepted hlocked hcode hcur (congrArg Prod.snd hreq)
    · have hnext : s.next (.request code) = s := hreq
      rw [hnext]; exact .refused hrefused hreply
  | resume g answer =>
    show s.Step _ ((s.resume g answer).getD s)
    cases hr : s.resume g answer with
    | none => exact .stuck hr
    | some t =>
      have hcalm : s.calm.Orderly := h.congr rfl rfl rfl rfl
      obtain ⟨code, stage, -, -, hgo⟩ := resume_goes h.numbered (h.registered g) hr
      rcases hgo with hrun | ⟨m, hrun, hland⟩
      · exact .unseen ((Keeps.calm s).trans (keeps_of_quiets hrun.to_reflTransGen hcalm).1)
      · obtain ⟨hk, hm⟩ := keeps_of_quiets hrun hcalm
        have hk := (Keeps.calm s).trans hk
        cases hland with
        | shown hf hcur hview =>
          obtain ⟨hkf, hoffers, hfresh⟩ := hf.offers hm
          obtain ⟨last, hat, hseeks⟩ := hf.exists_seeks hm
          exact .shown (hk.trans hkf) hat hseeks.isOpen hcur hoffers hfresh hview
        | overtaken hf hold =>
          obtain ⟨last, hat, hseeks⟩ := hf.exists_seeks hm
          exact .overtaken (hk.trans (hf.offers hm).1) hat hseeks.isOpen hold
        | settled hs hcur =>
          obtain rfl := eq_of_fading hrun hcalm hs
          exact .settled hs hcur
        | faded hs hold =>
          obtain rfl := eq_of_fading hrun hcalm hs
          exact .faded hs hold

theorem Step.settings {event : Event} (hstep : s.Step event t) :
    t.locked = s.locked ∧ t.remembers = s.remembers := by
  cases hstep with
  | refused _ _ => exact ⟨rfl, rfl⟩
  | accepted _ _ _ _ => exact ⟨rfl, rfl⟩
  | stuck _ => exact ⟨rfl, rfl⟩
  | unseen hk => exact ⟨hk.locked, hk.remembers⟩
  | shown hk _ _ _ _ _ _ => exact ⟨hk.locked, hk.remembers⟩
  | overtaken hk _ _ _ => exact ⟨hk.locked, hk.remembers⟩
  | settled _ _ => exact ⟨rfl, rfl⟩
  | faded _ _ => exact ⟨rfl, rfl⟩

end Phrasebook.Session
