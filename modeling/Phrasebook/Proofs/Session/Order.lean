import Phrasebook.Proofs.Session.Acts
import Phrasebook.Session.Start

/-!
# Who holds what

In an orderly session the store lock and the turns of the loaders agree with the stages of the
switches: the lock is held by the one switch that stands where the lock is held, the switches that
stand in its queue are those that it knows of, and likewise for the turn of each loader. Nobody
calls a loader whose dataset is there. Every act keeps a session orderly.
-/

namespace Phrasebook

variable {L : Type}

/-- The cell of a language agrees with what the switches are to it. -/
structure Language.Tended (language : Language L) (role : Nat → Role) : Prop where
  turn : language.cell.turn.Agrees role
  /-- Nobody calls the loader of a language whose dataset is there. -/
  full : language.cell.dataset ≠ none → language.cell.turn.holder = none
  /-- A dataset that is not there can be loaded. -/
  source : language.cell.dataset = none → language.loader ≠ none

namespace Session

structure Orderly (s : Session L) : Prop where
  numbered : s.Numbered
  registered : ∀ g sw, s.switch? g = some sw →
    ∃ language, s.registry.find? sw.code = some language
  lock : s.lock.Agrees s.lockRole
  tended : ∀ code language, s.registry.find? code = some language →
    language.Tended (s.loadRole code)
  /-- A dataset that a switch waited for is there. -/
  served : ∀ g sw language, s.switch? g = some sw → sw.stage = .served →
    s.registry.find? sw.code = some language → language.cell.dataset ≠ none

variable {s t : Session L} {g w : Nat} {code c : String} {answer : Answer} {sw : Switch}
  {stage last : Stage} {language : Language L}

/-- Only the switches, the lock and the registry have an order. -/
theorem Orderly.congr (h : s.Orderly) (hswitches : t.switches = s.switches)
    (hgeneration : t.generation = s.generation) (hlock : t.lock = s.lock)
    (hregistry : t.registry = s.registry) : t.Orderly := by
  have hswitch := switch?_congr hswitches
  have hrole : ∀ f : Switch → Role, t.roleBy f = s.roleBy f := fun f => by
    funext g; unfold roleBy; rw [hswitch]
  have hlockRole : t.lockRole = s.lockRole := hrole _
  constructor
  · unfold Numbered; rw [hswitches, hgeneration]; exact h.numbered
  · rw [hswitch, hregistry]; exact h.registered
  · rw [hlock, hlockRole]; exact h.lock
  · intro code language hl
    have hloadRole : t.loadRole code = s.loadRole code := hrole _
    rw [hloadRole]; rw [hregistry] at hl; exact h.tended code language hl
  · rw [hswitch, hregistry]; exact h.served

/-! ## Roles -/

theorem lockRole_of (hs : s.At g code stage) : s.lockRole g = stage.lockRole := roleBy_of hs

theorem loadRole_of (hs : s.At g code stage) : s.loadRole code g = stage.loadRole :=
  (roleBy_of hs).trans (if_pos rfl)

theorem lockRole_setStage (hs : s.switch? g = some sw) :
    (s.setStage g stage).lockRole = Function.update s.lockRole g stage.lockRole :=
  roleBy_setStage hs

theorem loadRole_setStage (hs : s.At g code last) :
    (s.setStage g stage).loadRole code = Function.update (s.loadRole code) g stage.loadRole :=
  (roleBy_setStage hs).trans (congrArg _ (if_pos rfl))

theorem loadRole_setStage_of_ne (hs : s.At g code last) (hne : c ≠ code) :
    (s.setStage g stage).loadRole c = s.loadRole c :=
  roleBy_setStage_keep hs (by simp only [Ne.symm hne, ↓reduceIte])

theorem loadRole_setStage_keep (hs : s.At g code last) (hload : stage.loadRole = last.loadRole) :
    (s.setStage g stage).loadRole c = s.loadRole c :=
  roleBy_setStage_keep hs (by simp only [hload])

theorem Orderly.lock_waiting (h : s.Orderly) (hw : w ∈ s.lock.waiting) :
    ∃ sw, s.switch? w = some sw ∧ sw.stage = .awaitingLock := by
  have hrole : s.lockRole w = .waiting := (h.lock.waiting w).1 hw
  obtain ⟨sw, hs, hsw⟩ :=
    exists_of_roleBy (s := s) (f := fun sw => sw.stage.lockRole) (g := w)
      fun e => by cases hrole.symm.trans e
  exact ⟨sw, hs, Stage.eq_of_lockRole_waiting (hsw.trans hrole)⟩

theorem Orderly.turn_waiting (h : s.Orderly) (hl : s.registry.find? code = some language)
    (hw : w ∈ language.cell.turn.waiting) : s.At w code .awaitingLoad := by
  have hrole : s.loadRole code w = .waiting := ((h.tended code language hl).turn.waiting w).1 hw
  obtain ⟨⟨c, v, stage⟩, hs, hsw⟩ := exists_of_roleBy (s := s)
    (f := fun sw => if sw.code = code then sw.stage.loadRole else .idle) (g := w)
    fun e => by cases hrole.symm.trans e
  have hstage : (if c = code then stage.loadRole else .idle) = .waiting := hsw.trans hrole
  have hv : v = w := generation_of_switch? hs
  subst hv
  split at hstage
  · next hc =>
    rw [← hc, ← Stage.eq_of_loadRole_waiting hstage]; exact hs
  · cases hstage

theorem Orderly.lock_holder (h : s.Orderly) (hw : s.lock.holder = some w) :
    ∃ code stage, s.At w code stage ∧ (stage = .holdingLock ∨ stage = .writing) := by
  have hrole : s.lockRole w = .holding := (h.lock.holder w).1 hw
  obtain ⟨⟨c, v, stage⟩, hs, hsw⟩ :=
    exists_of_roleBy (s := s) (f := fun sw => sw.stage.lockRole) (g := w)
      fun e => by cases hrole.symm.trans e
  obtain rfl : v = w := generation_of_switch? hs
  exact ⟨c, stage, hs, Stage.eq_of_lockRole_holding (hsw.trans hrole)⟩

theorem Orderly.turn_holder (h : s.Orderly) (hl : s.registry.find? code = some language)
    (hw : language.cell.turn.holder = some w) :
    ∃ stage, s.At w code stage ∧ (stage = .holdingTurn ∨ stage = .loading) := by
  have hrole : s.loadRole code w = .holding := ((h.tended code language hl).turn.holder w).1 hw
  obtain ⟨⟨c, v, stage⟩, hs, hsw⟩ := exists_of_roleBy (s := s)
    (f := fun sw => if sw.code = code then sw.stage.loadRole else .idle) (g := w)
    fun e => by cases hrole.symm.trans e
  have hstage : (if c = code then stage.loadRole else .idle) = .holding := hsw.trans hrole
  obtain rfl : v = w := generation_of_switch? hs
  split at hstage
  · next hc => exact ⟨stage, hc ▸ hs, Stage.eq_of_loadRole_holding hstage⟩
  · cases hstage

/-! ## One switch moves -/

theorem Orderly.registered_of_moved {R : Stage → Stage → Prop} (h : s.Orderly) (hm : s.Moved R t)
    (hregistry : ∀ c, (∃ language, s.registry.find? c = some language) →
      ∃ language, t.registry.find? c = some language) :
    ∀ g sw, t.switch? g = some sw → ∃ language, t.registry.find? sw.code = some language := by
  intro g sw hs
  obtain ⟨old, hold, hcode, -⟩ := hm g sw hs
  rw [← hcode]
  exact hregistry old.code (h.registered g old hold)

/-- Nobody is served by moving if nobody moves to be served. -/
theorem Orderly.served_of_moved (h : s.Orderly) (hm : s.Moved (fun _ b => b ≠ .served) t)
    (hregistry : ∀ c language, t.registry.find? c = some language → ∃ old,
      s.registry.find? c = some old ∧ (old.cell.dataset ≠ none → language.cell.dataset ≠ none)) :
    ∀ g sw language, t.switch? g = some sw → sw.stage = .served →
      t.registry.find? sw.code = some language → language.cell.dataset ≠ none := by
  intro g sw language hs hst hl
  obtain ⟨old, hold, hcode, hsame | hne⟩ := hm g sw hs
  · obtain ⟨before, hbefore, hkept⟩ := hregistry sw.code language hl
    exact hkept (h.served g old before hold (hsame ▸ hst) (hcode ▸ hbefore))
  · exact absurd hst hne

/-- A switch moves to another stage, and what it is to the lock changes with it. -/
theorem Orderly.moveLock {lock : Turn} (h : s.Orderly) (hs : s.At g code last)
    (hlock : lock.Agrees (Function.update s.lockRole g stage.lockRole))
    (hload : stage.loadRole = last.loadRole) (hserved : stage ≠ .served) :
    ({ s with lock }.setStage g stage).Orderly := by
  have hm : s.Moved (fun _ b => b ≠ .served) ({ s with lock }.setStage g stage) :=
    Moved.setStage (s := { s with lock }) (R := fun _ b => b ≠ .served) hs hserved
  constructor
  · exact Numbered.setStage (s := { s with lock }) h.numbered
  · exact h.registered_of_moved hm fun _ hl => hl
  · have hrole : ({ s with lock }.setStage g stage).lockRole = _ :=
      lockRole_setStage (s := { s with lock }) hs
    rw [hrole]; exact hlock
  · intro c language hl
    have hrole : ({ s with lock }.setStage g stage).loadRole c = s.loadRole c :=
      loadRole_setStage_keep (s := { s with lock }) hs hload
    rw [hrole]; exact h.tended c language hl
  · exact h.served_of_moved hm fun _ language hl => ⟨language, hl, id⟩

/-- A switch moves to another stage without taking or giving anything. -/
theorem Orderly.move (h : s.Orderly) (hs : s.At g code last)
    (hlock : stage.lockRole = last.lockRole) (hload : stage.loadRole = last.loadRole)
    (hserved : stage ≠ .served) : (s.setStage g stage).Orderly := by
  have hagrees : s.lock.Agrees (Function.update s.lockRole g stage.lockRole) := by
    rw [hlock, ← lockRole_of hs, Function.update_eq_self]
    exact h.lock
  exact h.moveLock hs hagrees hload hserved

/-- A switch moves to another stage, and the cell of its language changes with it. -/
theorem Orderly.moveCell {cell : Cell} (h : s.Orderly) (hs : s.At g code last)
    (hl : s.registry.find? code = some language) (hcell : cell.dataset = language.cell.dataset)
    (htended : { language with cell }.Tended
      (Function.update (s.loadRole code) g stage.loadRole))
    (hlock : stage.lockRole = last.lockRole) (hserved : stage ≠ .served) :
    ((s.miss code cell).setStage g stage).Orderly := by
  have hm : s.Moved (fun _ b => b ≠ .served) ((s.miss code cell).setStage g stage) :=
    Moved.setStage (s := s.miss code cell) (R := fun _ b => b ≠ .served) hs hserved
  constructor
  · exact Numbered.setStage (s := s.miss code cell) h.numbered
  · exact h.registered_of_moved hm fun _ hl => Registry.exists_find?_setCell hl
  · have hrole : ((s.miss code cell).setStage g stage).lockRole = s.lockRole :=
      roleBy_setStage_keep (s := s.miss code cell) hs hlock
    rw [hrole]; exact h.lock
  · intro c other hother
    obtain ⟨old, hold, ⟨hc, rfl⟩ | ⟨rfl, rfl⟩⟩ := Registry.of_find?_setCell hother
    · have hrole : ((s.miss code cell).setStage g stage).loadRole c = s.loadRole c :=
        loadRole_setStage_of_ne (s := s.miss code cell) hs hc
      rw [hrole]; exact h.tended c other hold
    · have hrole : ((s.miss c cell).setStage g stage).loadRole c = _ :=
        loadRole_setStage (s := s.miss c cell) hs
      obtain rfl := Option.some.inj (hl.symm.trans hold)
      rw [hrole]; exact htended
  · refine h.served_of_moved hm fun c other hother => ?_
    obtain ⟨old, hold, ⟨-, rfl⟩ | ⟨rfl, rfl⟩⟩ := Registry.of_find?_setCell hother
    · exact ⟨other, hold, id⟩
    · obtain rfl := Option.some.inj (hl.symm.trans hold)
      exact ⟨language, hold, fun hdata => hcell ▸ hdata⟩

/-! ## Handing on -/

theorem at_wakeAll_of_not_mem {waiters : List Nat} (hs : s.At g code last) (hg : g ∉ waiters) :
    (s.wakeAll waiters stage).At g code last := by
  unfold At
  rw [switch?_wakeAll, hs, Option.map_some, if_neg hg]

theorem Orderly.passLock_at (h : s.Orderly) (hs : s.At g code stage)
    (hholds : stage.lockRole = .holding) : s.passLock.At g code stage := by
  have hholder : s.lockRole g = .holding := (lockRole_of hs).trans hholds
  refine at_wakeAll_of_not_mem (s := { s with lock := s.lock.pass.1 }) hs fun hmem => ?_
  have hwaits : s.lockRole g = .waiting := (h.lock.waiting g).1 (Turn.mem_waiting_of_pass hmem)
  cases hholder.symm.trans hwaits

theorem Orderly.at_wakeAll_holding {t : Session L} {waiters : List Nat} {next : Stage}
    (h : s.Orderly) (hs : s.At g code stage) (hholds : stage.loadRole = .holding)
    (hl : s.registry.find? code = some language)
    (hwaits : ∀ w ∈ waiters, w ∈ language.cell.turn.waiting) (hswitches : t.switches = s.switches) :
    (t.wakeAll waiters next).At g code stage := by
  have hat : t.At g code stage := (congrFun (switch?_congr hswitches) g).trans hs
  refine at_wakeAll_of_not_mem hat fun hmem => ?_
  have hholder : s.loadRole code g = .holding := (loadRole_of hs).trans hholds
  have hwaiting : s.loadRole code g = .waiting :=
    loadRole_of (h.turn_waiting hl (hwaits g hmem))
  cases hholder.symm.trans hwaiting

theorem Orderly.passTurn_at (h : s.Orderly) (hs : s.At g code stage)
    (hholds : stage.loadRole = .holding) (hl : s.registry.find? code = some language) :
    (s.passTurn code language).At g code stage :=
  h.at_wakeAll_holding hs hholds hl (fun _ hw => Turn.mem_waiting_of_pass hw) rfl

theorem Orderly.fill_at {dataset : Json} (h : s.Orderly) (hs : s.At g code stage)
    (hholds : stage.loadRole = .holding) (hl : s.registry.find? code = some language) :
    (s.fill code language dataset).At g code stage :=
  h.at_wakeAll_holding hs hholds hl (fun _ hw => hw) rfl

section Moved

variable {R : Stage → Stage → Prop}

theorem Orderly.moved_passLock (h : s.Orderly) (hR : R .awaitingLock .holdingLock) :
    s.Moved R s.passLock := by
  refine Moved.wakeAll (s := { s with lock := s.lock.pass.1 }) fun w hw => ?_
  obtain ⟨sw, hs, hst⟩ := h.lock_waiting (Turn.mem_waiting_of_pass hw)
  exact ⟨sw, hs, hst ▸ hR⟩

theorem Orderly.moved_passTurn (h : s.Orderly) (hl : s.registry.find? code = some language)
    (hR : R .awaitingLoad .holdingTurn) : s.Moved R (s.passTurn code language) :=
  Moved.wakeAll (s := { s with registry := _ }) fun _ hw =>
    ⟨_, h.turn_waiting hl (Turn.mem_waiting_of_pass hw), hR⟩

theorem Orderly.moved_fill {dataset : Json} (h : s.Orderly)
    (hl : s.registry.find? code = some language) (hR : R .awaitingLoad .served) :
    s.Moved R (s.fill code language dataset) :=
  Moved.wakeAll (s := { s with registry := _ }) fun _ hw => ⟨_, h.turn_waiting hl hw, hR⟩

/-- Of the other switches, some that waited for the loader go on when a switch finds something. -/
theorem Finds.moved {found : Session L} {direction : Direction} {content : Json}
    {fallback fresh : Bool} (hf : Finds g code answer s found direction content fallback fresh)
    (h : s.Orderly) (hturn : R .awaitingLoad .holdingTurn) (hserved : R .awaitingLoad .served) :
    s.Moved R found := by
  cases hf with
  | cached _ _ _ => exact .refl R s
  | loaded _ hl _ => exact h.moved_fill hl hserved
  | failed _ hl _ => exact h.moved_passTurn hl hturn
  | uncallable _ hl _ => exact h.moved_passTurn hl hturn
  | served _ _ _ => exact .refl R s
  | unserved _ _ _ => exact .refl R s

end Moved

theorem Finds.exists_seeks {found : Session L} {direction : Direction} {content : Json}
    {fallback fresh : Bool} (hf : Finds g code answer s found direction content fallback fresh)
    (h : s.Orderly) : ∃ last, found.At g code last ∧ last.Seeks := by
  cases hf with
  | cached hs _ _ => exact ⟨_, hs, trivial⟩
  | loaded hs hl _ => exact ⟨_, h.fill_at hs rfl hl, trivial⟩
  | failed hs hl _ => exact ⟨_, h.passTurn_at hs rfl hl, trivial⟩
  | uncallable hs hl _ => exact ⟨_, h.passTurn_at hs rfl hl, trivial⟩
  | served hs _ _ => exact ⟨_, hs, trivial⟩
  | unserved hs _ _ => exact ⟨_, hs, trivial⟩

theorem Orderly.passLock (h : s.Orderly) (hs : s.At g code last)
    (hholds : last.lockRole = .holding) (hlock : stage.lockRole = .idle)
    (hload : stage.loadRole = last.loadRole) (hserved : stage ≠ .served) :
    (s.passLock.setStage g stage).Orderly := by
  have hholder : s.lockRole g = .holding := (lockRole_of hs).trans hholds
  have hnext : ∀ w ∈ s.lock.pass.2.toList, ∃ sw, s.switch? w = some sw ∧ sw.stage = .awaitingLock :=
    fun w hw => h.lock_waiting (Turn.mem_waiting_of_pass hw)
  have hat := h.passLock_at hs hholds
  have hm : s.Moved (fun _ b => b ≠ .served) (s.passLock.setStage g stage) :=
    (h.moved_passLock nofun).trans (fun _ _ _ _ hc => hc) (.setStage hat hserved)
  constructor
  · exact Numbered.setStage (Numbered.wakeAll (s := { s with lock := s.lock.pass.1 }) h.numbered)
  · exact h.registered_of_moved hm fun _ hl => hl
  · have hwoken : s.passLock.lockRole =
        fun x => if x ∈ s.lock.pass.2.toList then .holding else s.lockRole x :=
      roleBy_wakeAll fun w hw => by
        obtain ⟨x, hx, -⟩ := hnext w hw; exact ⟨x, hx, rfl⟩
    rw [lockRole_setStage hat, hwoken, hlock]
    refine (h.lock.pass hholder).congr fun x => ?_
    rw [Function.update_apply]
  · intro c language hl
    have hwoken : s.passLock.loadRole c = s.loadRole c :=
      roleBy_wakeAll_keep fun w hw x hx => by
        obtain ⟨y, hy, hst⟩ := hnext w hw
        obtain rfl : y = x := Option.some.inj (hy.symm.trans hx)
        simp only [hst, Stage.loadRole]
    rw [loadRole_setStage_keep hat hload, hwoken]
    exact h.tended c language hl
  · exact h.served_of_moved hm fun _ language hl => ⟨language, hl, id⟩

theorem Orderly.served_wakeAll {cell : Cell} {waiters : List Nat} {next : Stage} (h : s.Orderly)
    (hl : s.registry.find? code = some language)
    (hwoken : ∀ w ∈ waiters, s.At w code .awaitingLoad)
    (hkeep : language.cell.dataset ≠ none → cell.dataset ≠ none)
    (hserved : next = .served → cell.dataset ≠ none) {x : Nat} {sw : Switch}
    (hx : ({ s with registry := s.registry.setCell code cell }.wakeAll waiters next).switch? x
      = some sw)
    (hst : sw.stage = .served) {other : Language L}
    (hother : (s.registry.setCell code cell).find? sw.code = some other) :
    other.cell.dataset ≠ none := by
  obtain ⟨before, hbefore, hcell⟩ := Registry.of_find?_setCell hother
  obtain ⟨old, hold, hcode, hsame | ⟨hw, hnew⟩⟩ := of_switch?_wakeAll hx
  · have hdata := h.served x old before hold (hsame ▸ hst) (by rw [hcode]; exact hbefore)
    rcases hcell with ⟨-, rfl⟩ | ⟨hc, rfl⟩
    · exact hdata
    · obtain rfl := Option.some.inj (hl.symm.trans (hc ▸ hbefore))
      exact hkeep hdata
  · obtain rfl := Option.some.inj ((hwoken x hw).symm.trans hold)
    have hc : code = sw.code := hcode
    rcases hcell with ⟨hne, -⟩ | ⟨-, rfl⟩
    · exact absurd hc.symm hne
    · exact hserved (hnew.symm.trans hst)

/-- A switch is done with the cell of its language, and some of those that waited go on in stage
`next`. What is left to prove is that the new cell agrees with that. -/
theorem Orderly.leave {cell : Cell} {waiters : List Nat} {next : Stage} (h : s.Orderly)
    (hs : s.At g code last) (hl : s.registry.find? code = some language)
    (hholds : last.loadRole = .holding) (hlast : last.lockRole = .idle)
    (hwaits : ∀ w ∈ waiters, w ∈ language.cell.turn.waiting) (hnext : next.lockRole = .idle)
    (hkeep : language.cell.dataset ≠ none → cell.dataset ≠ none)
    (hserved : next = .served → cell.dataset ≠ none)
    (htended : { language with cell }.Tended fun x =>
      if x = g then .idle else if x ∈ waiters then next.loadRole else s.loadRole code x)
    (hlock : stage.lockRole = .idle) (hload : stage.loadRole = .idle) (hstage : stage ≠ .served) :
    (({ s with registry := s.registry.setCell code cell }.wakeAll waiters next).setStage g
      stage).Orderly := by
  let m := { s with registry := s.registry.setCell code cell }
  have hwoken : ∀ w ∈ waiters, s.At w code .awaitingLoad := fun w hw =>
    h.turn_waiting hl (hwaits w hw)
  have hat : (m.wakeAll waiters next).At g code last :=
    h.at_wakeAll_holding hs hholds hl hwaits rfl
  have hm : s.Moved (fun _ _ => True) ((m.wakeAll waiters next).setStage g stage) := by
    have hwake : s.Moved (fun _ _ => True) (m.wakeAll waiters next) :=
      Moved.wakeAll (s := m) (R := fun _ _ => True) fun w hw => ⟨_, hwoken w hw, trivial⟩
    exact hwake.trans (fun _ _ _ _ _ => trivial) (.setStage hat trivial)
  constructor
  · exact Numbered.setStage (Numbered.wakeAll (s := m) h.numbered)
  · exact h.registered_of_moved hm fun _ hl => Registry.exists_find?_setCell hl
  · have hkept : (m.wakeAll waiters next).lockRole = s.lockRole :=
      roleBy_wakeAll_keep (s := m) fun w hw x hx => by
        obtain rfl := Option.some.inj ((hwoken w hw).symm.trans hx)
        exact hnext
    have hrole : ((m.wakeAll waiters next).setStage g stage).lockRole = s.lockRole :=
      (roleBy_setStage_keep hat (hlock.trans hlast.symm)).trans hkept
    rw [hrole]; exact h.lock
  · intro c other hother
    obtain ⟨old, hold, ⟨hc, rfl⟩ | ⟨rfl, rfl⟩⟩ := Registry.of_find?_setCell hother
    · have hkept : (m.wakeAll waiters next).loadRole c = s.loadRole c :=
        roleBy_wakeAll_keep (s := m) fun w hw x hx => by
          obtain rfl := Option.some.inj ((hwoken w hw).symm.trans hx)
          simp only [Ne.symm hc, ↓reduceIte]
      rw [loadRole_setStage_of_ne hat hc, hkept]
      exact h.tended c other hold
    · obtain rfl := Option.some.inj (hl.symm.trans hold)
      have hgiven : (m.wakeAll waiters next).loadRole c =
          fun x => if x ∈ waiters then next.loadRole else s.loadRole c x :=
        roleBy_wakeAll (s := m) fun w hw => ⟨_, hwoken w hw, if_pos rfl⟩
      have hrole : ((m.wakeAll waiters next).setStage g stage).loadRole c = fun x =>
          if x = g then .idle else if x ∈ waiters then next.loadRole else s.loadRole c x := by
        rw [loadRole_setStage hat, hgiven, hload]
        funext x
        rw [Function.update_apply]
      rw [hrole]; exact htended
  · intro x sw other hx hst hother
    obtain ⟨mid, hmid, hcode, hsame | ⟨-, hnew⟩⟩ := of_switch?_setStage hx
    · exact h.served_wakeAll hl hwoken hkeep hserved hmid (hsame ▸ hst) (hcode ▸ hother)
    · exact absurd (hnew.symm.trans hst) hstage

theorem Orderly.passTurn (h : s.Orderly) (hs : s.At g code last)
    (hl : s.registry.find? code = some language) (hholds : last.loadRole = .holding)
    (hlast : last.lockRole = .idle) (hlock : stage.lockRole = .idle)
    (hload : stage.loadRole = .idle) (hstage : stage ≠ .served) :
    ((s.passTurn code language).setStage g stage).Orderly := by
  have hholder : s.loadRole code g = .holding := (loadRole_of hs).trans hholds
  have htended := h.tended code language hl
  refine h.leave hs hl hholds hlast (fun w hw => Turn.mem_waiting_of_pass hw) rfl id
    (fun e => by cases e) ⟨htended.turn.pass hholder, fun hfull => ?_, htended.source⟩ hlock hload
    hstage
  have hfree := htended.full hfull
  rw [(htended.turn.holder g).2 hholder] at hfree
  cases hfree

theorem Orderly.fill {dataset : Json} (h : s.Orderly) (hs : s.At g code last)
    (hl : s.registry.find? code = some language) (hholds : last.loadRole = .holding)
    (hlast : last.lockRole = .idle) (hlock : stage.lockRole = .idle)
    (hload : stage.loadRole = .idle) (hstage : stage ≠ .served) :
    ((s.fill code language dataset).setStage g stage).Orderly := by
  have hholder : s.loadRole code g = .holding := (loadRole_of hs).trans hholds
  refine h.leave hs hl hholds hlast (fun w hw => hw) rfl (fun _ => by simp) (fun _ => by simp)
    ⟨Turn.agrees_idle.congr fun x => ?_, fun _ => rfl, fun e => by cases e⟩ hlock hload hstage
  have hclose := (h.tended code language hl).turn.close hholder x
  split
  · rfl
  · next hne => rwa [if_congr (or_iff_right hne) rfl rfl] at hclose

/-! ## Every act keeps the order -/

theorem Quiet.orderly (hq : Quiet g code answer s t) (h : s.Orderly) : t.Orderly := by
  cases hq with
  | skipStore hs _ => exact h.move hs rfl rfl (by simp)
  | takeLock hs _ hfree => exact h.moveLock hs (h.lock.ask_free hfree) rfl (by simp)
  | joinLock hs _ htaken =>
    exact h.moveLock hs (h.lock.ask_taken htaken (lockRole_of hs)) rfl (by simp)
  | startWrite hs _ => exact h.move hs rfl rfl (by simp)
  | skipWrite hs _ => exact h.passLock hs rfl rfl rfl (by simp)
  | endWrite hs _ =>
    have hmore : { s with written := s.written ++ [(g, code)] }.Orderly := h.congr rfl rfl rfl rfl
    exact hmore.passLock hs rfl rfl rfl (by simp)
  | failWrite hs _ => exact h.passLock hs rfl rfl rfl (by simp)
  | takeTurn hs hl hdata hfree =>
    have htended := h.tended code _ hl
    rw [Cell.ask_free hdata hfree]
    exact h.moveCell hs hl rfl ⟨htended.turn.ask_free hfree, fun e => absurd hdata e,
      htended.source⟩ rfl (by simp)
  | joinTurn hs hl hdata htaken =>
    have htended := h.tended code _ hl
    rw [Cell.ask_taken hdata htaken]
    exact h.moveCell hs hl rfl ⟨htended.turn.ask_taken htaken (loadRole_of hs),
      fun e => absurd hdata e, htended.source⟩ rfl (by simp)
  | call hs _ _ =>
    have hcounted : { s with metrics := s.metrics.call }.Orderly := h.congr rfl rfl rfl rfl
    exact hcounted.move hs rfl rfl (by simp)

/-- What a switch finds leaves the session orderly, once the switch has let go of everything. -/
theorem Finds.orderly {found : Session L} {direction : Direction} {content : Json}
    {fallback fresh : Bool} (hf : Finds g code answer s found direction content fallback fresh)
    (h : s.Orderly) (hlock : stage.lockRole = .idle) (hload : stage.loadRole = .idle)
    (hstage : stage ≠ .served) : (found.setStage g stage).Orderly := by
  cases hf with
  | cached hs _ _ =>
    have hcounted : { s with metrics := s.metrics.hit }.Orderly := h.congr rfl rfl rfl rfl
    exact hcounted.move hs hlock hload hstage
  | loaded hs hl _ => exact h.fill hs hl rfl rfl hlock hload hstage
  | failed hs hl _ =>
    have hcounted : { s with metrics := s.metrics.failure }.Orderly := h.congr rfl rfl rfl rfl
    exact hcounted.passTurn hs hl rfl rfl hlock hload hstage
  | uncallable hs hl _ => exact h.passTurn hs hl rfl rfl hlock hload hstage
  | served hs _ _ => exact h.move hs hlock hload hstage
  | unserved hs _ _ => exact h.move hs hlock hload hstage

theorem Lands.orderly (hl : Lands g code answer s t) (h : s.Orderly) : t.Orderly := by
  cases hl with
  | @shown found direction content fallback fresh snapshot hf hcur hview =>
    have hland : (found.setStage g (landing fallback fresh)).Orderly := by
      cases fresh <;> exact hf.orderly h rfl rfl (by simp [landing])
    exact hland.congr rfl rfl rfl rfl
  | overtaken hf _ =>
    have hended : (Session.setStage _ g (.ended (.ok .superseded))).Orderly :=
      hf.orderly h rfl rfl (by simp)
    exact hended.congr rfl rfl rfl rfl
  | settled hs _ =>
    have hended : (s.setStage g (.ended (.ok .applied))).Orderly := h.move hs rfl rfl (by simp)
    exact hended.congr rfl rfl rfl rfl
  | faded hs _ =>
    have hended : (s.setStage g (.ended (.ok .superseded))).Orderly := h.move hs rfl rfl (by simp)
    exact hended.congr rfl rfl rfl rfl

/-- A property that every act keeps is kept by every run. -/
theorem Goes.keep {P : Session L → Prop} (hgo : Goes g code answer s t) (hs : P s)
    (hquiet : ∀ {s t : Session L}, Quiet g code answer s t → P s → P t)
    (hlands : ∀ {s t : Session L}, Lands g code answer s t → P s → P t) : P t := by
  have hrun : ∀ {t}, Relation.ReflTransGen (Quiet g code answer) s t → P t := by
    intro t hrun
    induction hrun with
    | refl => exact hs
    | tail _ hq ih => exact hquiet hq ih
  rcases hgo with hgo | ⟨m, hm, hl⟩
  · exact hrun hgo.to_reflTransGen
  · exact hlands hl (hrun hm)

theorem Orderly.resume (h : s.Orderly) (hr : s.resume g answer = some t) : t.Orderly := by
  obtain ⟨code, stage, -, -, hgo⟩ := resume_goes h.numbered (h.registered g) hr
  exact hgo.keep (h.congr rfl rfl rfl rfl) Quiet.orderly Lands.orderly

theorem Orderly.dataset_of_holding (h : s.Orderly) (hs : s.At g code stage)
    (hholds : stage.loadRole = .holding) (hl : s.registry.find? code = some language) :
    language.cell.dataset = none := by
  have htended := h.tended code language hl
  have hholder := (htended.turn.holder g).2 ((loadRole_of hs).trans hholds)
  by_contra hfull
  rw [htended.full hfull] at hholder
  cases hholder

theorem Orderly.loader_of_holding (h : s.Orderly) (hs : s.At g code stage)
    (hholds : stage.loadRole = .holding) (hl : s.registry.find? code = some language) :
    language.loader ≠ none :=
  (h.tended code language hl).source (h.dataset_of_holding hs hholds hl)

end Session

end Phrasebook
