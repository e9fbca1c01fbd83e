import Mathlib.Algebra.Order.Field.Basic
import Mathlib.Algebra.Order.Field.Rat
import Phrasebook.Proofs.Session.Steps

/-!
# The books of a session

The counters of a session agree with the stages of its switches: whoever has not looked its dataset
up is neither a hit nor a miss, whoever calls a loader has missed, a call has failed, is under way
or has filled a cell, and whoever ended as superseded was counted. An act moves one switch and wakes
others; `Pays` says that it changes the counters by what the one switch counts for, and waking
changes nothing that is counted.
-/

namespace Phrasebook

variable {L : Type}

/-! ## Counting by a key -/

/-- Where keys are distinct, a count changes by the one element that is changed. -/
theorem countP_map_ite {α κ : Type} [DecidableEq κ] {key : α → κ} {l : List α} {a : α}
    (hnodup : (l.map key).Nodup) (hmem : a ∈ l) (f : α → α) (p : α → Bool) :
    (l.map fun x => if key x = key a then f x else x).countP p + (p a).toNat =
      l.countP p + (p (f a)).toNat := by
  induction l with
  | nil => cases hmem
  | cons first rest ih =>
    obtain ⟨hfresh, hrest⟩ := List.nodup_cons.1 hnodup
    rw [List.map_cons, List.countP_cons, List.countP_cons]
    rcases List.mem_cons.1 hmem with rfl | hmem
    · have hkept : (rest.map fun x => if key x = key a then f x else x) = rest := by
        refine (List.map_congr_left fun x hx => if_neg fun e => hfresh ?_).trans (List.map_id rest)
        exact e ▸ List.mem_map_of_mem hx
      rw [hkept, if_pos rfl]
      cases p a <;> cases p (f a) <;> simp
    · have hne : key first ≠ key a := fun e => hfresh (e ▸ List.mem_map_of_mem hmem)
      rw [if_neg hne]
      have := ih hrest hmem
      omega

namespace Stage

/-- The switch has not looked its dataset up. -/
def isEarly : Stage → Bool
  | .accepted | .resolving | .awaitingLock | .holdingLock | .writing => true
  | _ => false

/-- The switch has missed its dataset, and may have to call the loader. -/
def isQueued : Stage → Bool
  | .awaitingLoad | .holdingTurn => true
  | _ => false

def isLoading : Stage → Bool
  | .loading => true
  | _ => false

def isSuperseded : Stage → Bool
  | .ended (.ok .superseded) => true
  | _ => false

/-- A switch that goes from one stage to the other counts as before, but may have been spared its
loader call. -/
structure Woken (a b : Stage) : Prop where
  early : b.isEarly = a.isEarly
  queued : b.isQueued = true → a.isQueued = true
  loading : b.isLoading = a.isLoading
  superseded : b.isSuperseded = a.isSuperseded

end Stage

namespace Registry

variable {registry : Registry L} {code : String} {cell : Cell} {language : Language L}

def loaded (registry : Registry L) : Nat :=
  registry.languages.countP fun language => language.hasLoader && language.isLoaded

theorem codes_setCell : (registry.setCell code cell).codes = registry.codes := by
  unfold codes setCell
  rw [List.map_map]
  refine List.map_congr_left fun language _ => ?_
  simp only [Function.comp]
  split <;> rfl

theorem loaded_setCell (hcodes : registry.codes.Nodup)
    (hl : registry.find? code = some language) (cell : Cell) :
    (registry.setCell code cell).loaded + (language.hasLoader && language.isLoaded).toNat =
      registry.loaded + (language.hasLoader && cell.dataset.isSome).toNat := by
  have hnodup : (registry.languages.map (·.code)).Nodup := hcodes
  have hmem : language ∈ registry.languages := List.mem_of_find?_eq_some hl
  rw [← code_of_find? hl]
  exact countP_map_ite hnodup hmem (fun language => { language with cell })
    (fun language => language.hasLoader && language.isLoaded)

theorem loaded_setCell_same (hcodes : registry.codes.Nodup)
    (hl : registry.find? code = some language) (hdata : cell.dataset = language.cell.dataset) :
    (registry.setCell code cell).loaded = registry.loaded := by
  have hcount := loaded_setCell hcodes hl cell
  rw [hdata] at hcount
  exact Nat.add_right_cancel hcount

theorem nodup_ofConfiguration (config : Configuration L) :
    (ofConfiguration config).codes.Nodup := by
  refine List.pairwise_map.2 ((pairwise_ofConfiguration config).imp fun hlt he => ?_)
  rw [he] at hlt
  exact String.lt_irrefl _ hlt

theorem loaded_ofConfiguration (config : Configuration L) :
    (ofConfiguration config).loaded = 0 := by
  refine List.countP_eq_zero.2 fun language hmem hboth => ?_
  obtain ⟨hloader, hloaded⟩ := Bool.and_eq_true_iff.1 hboth
  rw [Language.hasLoader, (of_mem_ofConfiguration hmem).2.1 hloaded] at hloader
  cases hloader

end Registry

namespace Session

variable {s t m : Session L} {g : Nat} {code initial : String} {answer : Answer}
  {stage last : Stage} {language : Language L} {config : Configuration L}
  {locked : Option String} {p : Stage → Bool} {R : Stage → Stage → Prop}

def count (s : Session L) (p : Stage → Bool) : Nat := s.switches.countP fun sw => p sw.stage

theorem count_setStage (hn : s.Numbered) (hs : s.At g code last) (stage : Stage)
    (p : Stage → Bool) :
    (s.setStage g stage).count p + (p last).toNat = s.count p + (p stage).toNat := by
  have hnodup : (s.switches.map (·.generation)).Nodup := hn ▸ List.nodup_range'
  have hmem : (⟨code, g, last⟩ : Switch) ∈ s.switches := hn.mem_iff.2 hs
  exact countP_map_ite hnodup hmem (fun sw => { sw with stage }) (fun sw => p sw.stage)

theorem Numbered.count_eq (hn : s.Numbered) (p : Stage → Bool) :
    s.count p = (List.range' 1 s.generation).countP fun g =>
      ((s.switch? g).map fun sw => p sw.stage).getD false := by
  unfold Numbered at hn
  rw [← hn, List.countP_map]
  refine List.countP_congr fun sw hmem => ?_
  have hs : s.switch? sw.generation = some sw := Numbered.mem_iff hn |>.1 hmem
  simp [hs]

theorem Moved.count_le (hm : s.Moved R t) (hn : s.Numbered) (hn' : t.Numbered)
    (hgeneration : t.generation = s.generation) (hR : ∀ a b, R a b → p b = true → p a = true) :
    t.count p ≤ s.count p := by
  rw [hn.count_eq, hn'.count_eq, hgeneration]
  refine List.countP_mono_left fun g _ hp => ?_
  cases ht : t.switch? g with
  | none => rw [ht] at hp; cases hp
  | some sw =>
    rw [ht] at hp
    obtain ⟨old, hold, -, hstage⟩ := hm g sw ht
    rw [hold]
    show p old.stage = true
    rcases hstage with hsame | hmoved
    · rw [← hsame]; exact hp
    · exact hR _ _ hmoved hp

theorem Moved.count_eq (hm : s.Moved R t) (hn : s.Numbered) (hn' : t.Numbered)
    (hgeneration : t.generation = s.generation) (hR : ∀ a b, R a b → p b = p a) :
    t.count p = s.count p := by
  rw [hn.count_eq, hn'.count_eq, hgeneration]
  refine List.countP_congr fun g hmem => ?_
  have hbounds := List.mem_range'_1.1 hmem
  obtain ⟨sw, hs⟩ := hn'.exists_iff.2 ⟨hbounds.1, by omega⟩
  obtain ⟨old, hold, -, hstage⟩ := hm g sw hs
  rw [hs, hold]
  show p sw.stage = true ↔ p old.stage = true
  rcases hstage with hsame | hmoved
  · rw [hsame]
  · rw [hR _ _ hmoved]

/-! ## Accounts -/

/-- The counters agree with the switches and with the datasets. -/
structure Accounted (s : Session L) : Prop where
  codes : s.registry.codes.Nodup
  lookUps : s.metrics.cacheHits + s.metrics.cacheMisses + s.count Stage.isEarly = s.generation
  /-- Each miss is good for one call. -/
  calls : s.metrics.loaderCalls + s.count Stage.isQueued ≤ s.metrics.cacheMisses
  loads : s.metrics.loaderCalls =
    s.metrics.loaderFailures + s.count Stage.isLoading + s.registry.loaded
  superseded : s.metrics.superseded = s.count Stage.isSuperseded

/-- From `s` to `m` some switches were woken, and the counters have changed as is right when a
switch goes from stage `last` to `stage`. -/
structure Pays (s m : Session L) (last stage : Stage) : Prop where
  woken : s.Moved Stage.Woken m
  numbered : m.Numbered
  generation : m.generation = s.generation
  codes : m.registry.codes = s.registry.codes
  lookUps : m.metrics.cacheHits + m.metrics.cacheMisses + stage.isEarly.toNat =
    s.metrics.cacheHits + s.metrics.cacheMisses + last.isEarly.toNat
  calls : m.metrics.loaderCalls + stage.isQueued.toNat + s.metrics.cacheMisses ≤
    s.metrics.loaderCalls + last.isQueued.toNat + m.metrics.cacheMisses
  loads : m.metrics.loaderCalls + s.metrics.loaderFailures + last.isLoading.toNat +
      s.registry.loaded =
    s.metrics.loaderCalls + m.metrics.loaderFailures + stage.isLoading.toNat + m.registry.loaded
  superseded : m.metrics.superseded + last.isSuperseded.toNat =
    s.metrics.superseded + stage.isSuperseded.toNat

theorem Accounted.congr (h : s.Accounted) (hregistry : t.registry = s.registry)
    (hmetrics : t.metrics = s.metrics) (hswitches : t.switches = s.switches)
    (hgeneration : t.generation = s.generation) : t.Accounted := by
  have hcount : ∀ p, t.count p = s.count p := fun p => by unfold count; rw [hswitches]
  constructor
  case codes => rw [hregistry]; exact h.codes
  case lookUps => rw [hmetrics, hcount, hgeneration]; exact h.lookUps
  case calls => rw [hmetrics, hcount]; exact h.calls
  case loads => rw [hmetrics, hcount, hregistry]; exact h.loads
  case superseded => rw [hmetrics, hcount]; exact h.superseded

/-- A switch moves, and what it counts for is paid. -/
theorem Accounted.move (h : s.Accounted) (hn : s.Numbered) (hat : m.At g code last)
    (hp : s.Pays m last stage) : (m.setStage g stage).Accounted := by
  have hearly := hp.woken.count_eq hn hp.numbered hp.generation fun _ _ hR => hR.early
  have hqueued := hp.woken.count_le hn hp.numbered hp.generation fun _ _ hR => hR.queued
  have hloading := hp.woken.count_eq hn hp.numbered hp.generation fun _ _ hR => hR.loading
  have hended := hp.woken.count_eq hn hp.numbered hp.generation fun _ _ hR => hR.superseded
  have hset := count_setStage hp.numbered hat stage
  obtain ⟨-, -, hgeneration, hcodes, hlookUps, hcalls, hloads, hsuperseded⟩ := hp
  constructor
  case codes =>
    show m.registry.codes.Nodup
    rw [hcodes]
    exact h.codes
  case lookUps =>
    have hone := hset Stage.isEarly
    have hold := h.lookUps
    show m.metrics.cacheHits + m.metrics.cacheMisses + (m.setStage g stage).count Stage.isEarly
      = m.generation
    omega
  case calls =>
    have hone := hset Stage.isQueued
    have hold := h.calls
    show m.metrics.loaderCalls + (m.setStage g stage).count Stage.isQueued ≤ m.metrics.cacheMisses
    omega
  case loads =>
    have hone := hset Stage.isLoading
    have hold := h.loads
    show m.metrics.loaderCalls =
      m.metrics.loaderFailures + (m.setStage g stage).count Stage.isLoading + m.registry.loaded
    omega
  case superseded =>
    have hone := hset Stage.isSuperseded
    have hold := h.superseded
    show m.metrics.superseded = (m.setStage g stage).count Stage.isSuperseded
    omega

theorem Pays.still (hwoken : s.Moved Stage.Woken m) (hn : m.Numbered)
    (hgeneration : m.generation = s.generation) (hregistry : m.registry = s.registry)
    (hmetrics : m.metrics = s.metrics) (hstage : last.Woken stage) : s.Pays m last stage := by
  obtain ⟨hearly, hqueued, hloading, hsuperseded⟩ := hstage
  refine ⟨hwoken, hn, hgeneration, by rw [hregistry], ?_, ?_, ?_, ?_⟩
  · rw [hmetrics, hearly]
  · rw [hmetrics]
    have := Bool.toNat_le_toNat hqueued
    omega
  · rw [hmetrics, hregistry, hloading]
  · rw [hmetrics, hsuperseded]

theorem Accounted.advance (h : s.Accounted) (hn : s.Numbered) (hs : s.At g code last)
    (hstage : last.Woken stage) : (s.setStage g stage).Accounted :=
  h.move hn hs (.still (.refl _ s) hn rfl rfl rfl hstage)

theorem Accounted.passLock (h : s.Accounted) (ho : s.Orderly) (hs : s.At g code last)
    (hholds : last.lockRole = .holding) (hstage : last.Woken stage) :
    (s.passLock.setStage g stage).Accounted := by
  have hwoken : s.Moved Stage.Woken s.passLock := ho.moved_passLock ⟨rfl, id, rfl, rfl⟩
  have hn : s.passLock.Numbered :=
    Numbered.wakeAll (s := { s with lock := s.lock.pass.1 }) ho.numbered
  exact h.move ho.numbered (ho.passLock_at hs hholds) (.still hwoken hn rfl rfl rfl hstage)

theorem Accounted.miss {cell : Cell} (h : s.Accounted) (ho : s.Orderly)
    (hs : s.At g code .resolving) (hl : s.registry.find? code = some language)
    (hdata : cell.dataset = language.cell.dataset) (hstage : stage.isEarly = false)
    (hloading : stage.isLoading = false) (hsuperseded : stage.isSuperseded = false) :
    ((s.miss code cell).setStage g stage).Accounted := by
  have hloaded := Registry.loaded_setCell_same h.codes hl hdata
  have hat : (s.miss code cell).At g code .resolving := hs
  refine h.move ho.numbered hat
    ⟨.refl _ s, ho.numbered, rfl, Registry.codes_setCell, ?_, ?_, ?_, ?_⟩
  · rw [hstage]; rfl
  · have hone := Bool.toNat_le stage.isQueued
    show s.metrics.loaderCalls + stage.isQueued.toNat + s.metrics.cacheMisses ≤
      s.metrics.loaderCalls + 0 + (s.metrics.cacheMisses + 1)
    omega
  · rw [hloading]
    exact congrArg (s.metrics.loaderCalls + s.metrics.loaderFailures + 0 + ·) hloaded.symm
  · rw [hsuperseded]; rfl

theorem Quiet.accounted (hq : Quiet g code answer s t) (ho : s.Orderly) (h : s.Accounted) :
    t.Accounted := by
  have hn := ho.numbered
  cases hq with
  | skipStore hs _ => exact h.advance hn hs ⟨rfl, id, rfl, rfl⟩
  | takeLock hs _ _ =>
    have hlock : { s with lock := (s.lock.ask g).1 }.Accounted := h.congr rfl rfl rfl rfl
    exact hlock.advance hn hs ⟨rfl, id, rfl, rfl⟩
  | joinLock hs _ _ =>
    have hlock : { s with lock := (s.lock.ask g).1 }.Accounted := h.congr rfl rfl rfl rfl
    exact hlock.advance hn hs ⟨rfl, id, rfl, rfl⟩
  | startWrite hs _ => exact h.advance hn hs ⟨rfl, id, rfl, rfl⟩
  | skipWrite hs _ => exact h.passLock ho hs rfl ⟨rfl, id, rfl, rfl⟩
  | endWrite hs _ =>
    have hmore : { s with written := s.written ++ [(g, code)] }.Orderly := ho.congr rfl rfl rfl rfl
    have hwritten : { s with written := s.written ++ [(g, code)] }.Accounted :=
      h.congr rfl rfl rfl rfl
    exact hwritten.passLock hmore hs rfl ⟨rfl, id, rfl, rfl⟩
  | failWrite hs _ => exact h.passLock ho hs rfl ⟨rfl, id, rfl, rfl⟩
  | takeTurn hs hl hdata hfree =>
    exact h.miss ho hs hl (by rw [Cell.ask_free hdata hfree]) rfl rfl rfl
  | joinTurn hs hl hdata htaken =>
    exact h.miss ho hs hl (by rw [Cell.ask_taken hdata htaken]) rfl rfl rfl
  | call hs _ _ =>
    have hat : { s with metrics := s.metrics.call }.At g code .holdingTurn := hs
    refine h.move hn hat ⟨.refl _ s, hn, rfl, rfl, rfl, ?_, ?_, rfl⟩
    · show s.metrics.loaderCalls + 1 + 0 + s.metrics.cacheMisses ≤
        s.metrics.loaderCalls + 1 + s.metrics.cacheMisses
      omega
    · show s.metrics.loaderCalls + 1 + s.metrics.loaderFailures + 0 + s.registry.loaded =
        s.metrics.loaderCalls + s.metrics.loaderFailures + 1 + s.registry.loaded
      omega

/-- A switch that has found something looked it up, or its loader call is over. -/
theorem Finds.pays {found : Session L} {direction : Direction} {content : Json}
    {fallback fresh : Bool} (hf : Finds g code answer s found direction content fallback fresh)
    (ho : s.Orderly) (h : s.Accounted) :
    ∃ last, found.At g code last ∧ s.Pays found last .fading := by
  have hn := ho.numbered
  cases hf with
  | cached hs _ _ =>
    refine ⟨.resolving, hs, .refl _ s, hn, rfl, rfl, ?_, Nat.le_refl _, rfl, rfl⟩
    show s.metrics.cacheHits + 1 + s.metrics.cacheMisses + 0 =
      s.metrics.cacheHits + s.metrics.cacheMisses + 1
    omega
  | @loaded language value hs hl _ =>
    have hloader : language.hasLoader = true :=
      Option.isSome_iff_ne_none.2 (ho.loader_of_holding hs rfl hl)
    have hempty : language.isLoaded = false :=
      Option.isSome_eq_false_iff.2 (by rw [ho.dataset_of_holding hs rfl hl]; rfl)
    have hcount := Registry.loaded_setCell h.codes hl { dataset := some (unwrapModule value) }
    rw [hloader, hempty] at hcount
    refine ⟨.loading, ho.fill_at hs rfl hl, ho.moved_fill hl ⟨rfl, nofun, rfl, rfl⟩,
      Numbered.wakeAll (s := { s with registry := _ }) hn, rfl, Registry.codes_setCell, rfl,
      Nat.le_refl _, ?_, rfl⟩
    show s.metrics.loaderCalls + s.metrics.loaderFailures + 1 + s.registry.loaded =
      s.metrics.loaderCalls + s.metrics.loaderFailures + 0 + (s.registry.setCell code _).loaded
    have hcount : (s.registry.setCell code { dataset := some (unwrapModule value) }).loaded + 0 =
      s.registry.loaded + 1 := hcount
    omega
  | @failed language failure hs hl _ =>
    have hcounted : { s with metrics := s.metrics.failure }.Orderly := ho.congr rfl rfl rfl rfl
    have hsame : (s.registry.setCell code language.cell.fail.1).loaded = s.registry.loaded :=
      Registry.loaded_setCell_same h.codes hl rfl
    refine ⟨.loading, hcounted.passTurn_at hs rfl hl,
      hcounted.moved_passTurn hl ⟨rfl, fun _ => rfl, rfl, rfl⟩,
      Numbered.wakeAll (s := { s with registry := _ }) hn, rfl, Registry.codes_setCell, rfl,
      Nat.le_refl _, ?_, rfl⟩
    show s.metrics.loaderCalls + s.metrics.loaderFailures + 1 + s.registry.loaded =
      s.metrics.loaderCalls + (s.metrics.loaderFailures + 1) + 0 +
        (s.registry.setCell code language.cell.fail.1).loaded
    omega
  | uncallable hs hl hnone => exact absurd hnone (ho.loader_of_holding hs rfl hl)
  | served hs _ _ =>
    exact ⟨.served, hs, .still (.refl _ s) hn rfl rfl rfl ⟨rfl, nofun, rfl, rfl⟩⟩
  | unserved hs _ _ =>
    exact ⟨.served, hs, .still (.refl _ s) hn rfl rfl rfl ⟨rfl, nofun, rfl, rfl⟩⟩

theorem Pays.land (hp : s.Pays m last .fading) (fallback fresh : Bool) :
    s.Pays m last (landing fallback fresh) := by
  obtain ⟨hwoken, hn, hgeneration, hcodes, hlookUps, hcalls, hloads, hsuperseded⟩ := hp
  cases fallback <;> cases fresh <;>
    exact ⟨hwoken, hn, hgeneration, hcodes, hlookUps, hcalls, hloads, hsuperseded⟩

theorem Pays.discard (hp : s.Pays m last .fading) :
    s.Pays { m with metrics := m.metrics.discard } last (.ended (.ok .superseded)) := by
  obtain ⟨hwoken, hn, hgeneration, hcodes, hlookUps, hcalls, hloads, hsuperseded⟩ := hp
  refine ⟨hwoken, hn, hgeneration, hcodes, hlookUps, hcalls, hloads, ?_⟩
  have hsuperseded : m.metrics.superseded + last.isSuperseded.toNat = s.metrics.superseded :=
    hsuperseded
  show m.metrics.superseded + 1 + last.isSuperseded.toNat = s.metrics.superseded + 1
  omega

theorem Lands.accounted (hl : Lands g code answer s t) (ho : s.Orderly) (h : s.Accounted) :
    t.Accounted := by
  have hn := ho.numbered
  cases hl with
  | @shown found direction content fallback fresh snapshot hf _ _ =>
    obtain ⟨last, hat, hp⟩ := hf.pays ho h
    exact (h.move hn hat (hp.land fallback fresh)).congr rfl rfl rfl rfl
  | overtaken hf _ =>
    obtain ⟨last, hat, hp⟩ := hf.pays ho h
    exact h.move hn hat hp.discard
  | settled hs _ =>
    have hended : (s.setStage g (.ended (.ok .applied))).Accounted :=
      h.advance hn hs ⟨rfl, id, rfl, rfl⟩
    exact hended.congr rfl rfl rfl rfl
  | faded hs _ =>
    have hstays : s.Pays s .fading .fading :=
      .still (.refl _ s) hn rfl rfl rfl ⟨rfl, id, rfl, rfl⟩
    exact h.move hn hs hstays.discard

/-! ## Runs -/

theorem Accounted.accept (h : s.Accounted) (code : String) : (s.accept code).Accounted := by
  have hmore : ∀ p, (s.accept code).count p = s.count p + (p .accepted).toNat := fun p => by
    show (s.switches ++ [_]).countP _ = _
    rw [List.countP_append, List.countP_singleton]
    cases p .accepted <;> rfl
  constructor
  case codes => exact h.codes
  case lookUps => rw [hmore]; exact congrArg (· + 1) h.lookUps
  case calls => rw [hmore]; exact h.calls
  case loads => rw [hmore]; exact h.loads
  case superseded => rw [hmore]; exact h.superseded

theorem Accounted.next (h : s.Accounted) (ho : s.Orderly) (event : Event) :
    (s.next event).Accounted := by
  cases event with
  | request code =>
    show (s.request code).1.Accounted
    rcases s.request_cases code with ⟨-, -, -, hreq⟩ | ⟨-, hreq, -⟩
    · rw [hreq]; exact h.accept code
    · rw [hreq]; exact h
  | resume g answer =>
    show ((s.resume g answer).getD s).Accounted
    cases hr : s.resume g answer with
    | none => exact h
    | some t =>
      obtain ⟨code, stage, -, -, hgo⟩ := resume_goes ho.numbered (ho.registered g) hr
      have hend := hgo.keep (P := fun m => m.Orderly ∧ m.Accounted)
        ⟨ho.congr rfl rfl rfl rfl, h.congr rfl rfl rfl rfl⟩
        (fun hq ⟨ho, h⟩ => ⟨hq.orderly ho, hq.accounted ho h⟩)
        (fun hl ⟨ho, h⟩ => ⟨hl.orderly ho, hl.accounted ho h⟩)
      exact hend.2

theorem Opens.accounted (h : Opens config locked initial s) : s.Accounted := by
  have hcodes := Registry.nodup_ofConfiguration config
  have hloads : 0 = 0 + 0 + (Registry.ofConfiguration config).loaded := by
    rw [Registry.loaded_ofConfiguration]
  cases h with
  | there hl hdata hview => exact ⟨hcodes, rfl, Nat.le_refl _, hloads, rfl⟩
  | absent hl hdata hview => exact ⟨hcodes, rfl, Nat.le_refl _, hloads, rfl⟩

theorem Opens.accounted_after (h : Opens config locked initial s) (schedule : List Event) :
    (s.after schedule).Accounted := by
  have hend := after_keep (P := fun s => s.Orderly ∧ s.Accounted) ⟨h.orderly, h.accounted⟩
    (fun hp event => ⟨hp.1.next event, hp.2.next hp.1 event⟩) schedule
  exact hend.2

end Session

namespace Metrics

/-- The part of a whole as an exact fraction; nothing of nothing is zero. -/
def share (part whole : Nat) : ℚ := part / whole

theorem share_mem {part whole : Nat} (h : part ≤ whole) :
    0 ≤ share part whole ∧ share part whole ≤ 1 := by
  unfold share
  constructor
  · exact div_nonneg (Nat.cast_nonneg _) (Nat.cast_nonneg _)
  · exact div_le_one_of_le₀ (Nat.cast_le.2 h) (Nat.cast_nonneg _)

def hitShare (m : Metrics) : ℚ := share m.cacheHits (m.cacheHits + m.cacheMisses)

def successShare (m : Metrics) : ℚ := share (m.loaderCalls - m.loaderFailures) m.loaderCalls

end Metrics

namespace Session

variable {s : Session L} {config : Configuration L} {locked : Option String}

/-- What the counters of a session say of its switches and of its loaders. -/
structure Balanced (s : Session L) : Prop where
  /-- There is one switch for each accepted request. -/
  numbered : s.Numbered
  lookUps : s.metrics.cacheHits + s.metrics.cacheMisses + s.count Stage.isEarly = s.generation
  calls : s.metrics.loaderCalls ≤ s.metrics.cacheMisses
  failures : s.metrics.loaderFailures ≤ s.metrics.loaderCalls
  loads : s.metrics.loaderCalls - s.metrics.loaderFailures =
    s.count Stage.isLoading + s.registry.loaded
  superseded : s.metrics.superseded = s.count Stage.isSuperseded
  hitShare : 0 ≤ s.metrics.hitShare ∧ s.metrics.hitShare ≤ 1
  successShare : 0 ≤ s.metrics.successShare ∧ s.metrics.successShare ≤ 1

theorem Accounted.balanced (h : s.Accounted) (hn : s.Numbered) : s.Balanced := by
  obtain ⟨-, hlookUps, hcalls, hloads, hsuperseded⟩ := h
  exact
    { numbered := hn
      lookUps := hlookUps
      calls := by omega
      failures := by omega
      loads := by omega
      superseded := hsuperseded
      hitShare := Metrics.share_mem (Nat.le_add_right _ _)
      successShare := Metrics.share_mem (Nat.sub_le _ _) }

/-- **The counters account for every switch**, after every schedule. -/
theorem balanced_of_start {around : Surroundings} (h : (around.start config locked).1 = .ok s)
    (schedule : List Event) : (s.after schedule).Balanced := by
  obtain ⟨hopens, -⟩ := Surroundings.opens_of_start h
  exact (hopens.accounted_after schedule).balanced (hopens.orderly.after schedule).numbered

/-- After the detour English was a hit, and French, which was loaded, is superseded. -/
theorem balanced_of_start_bilingual :
    ∃ s, ((Surroundings.remembering none).start Configuration.bilingual none).1 = .ok s ∧
      (s.after detour).metrics = ⟨1, 1, 1, 0, 1⟩ ∧ (s.after detour).Balanced := by
  have hstart : ((Surroundings.remembering none).start Configuration.bilingual none).1
      = .ok _ := rfl
  exact ⟨_, hstart, by decide +kernel, balanced_of_start hstart _⟩

end Session

end Phrasebook
