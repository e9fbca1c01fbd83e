import Mathlib.Data.List.Nodup
import Phrasebook.Proofs.Turn
import Phrasebook.Session.Switching

/-!
# The switches of a session

`switch?` sees a switch by its generation. The lemmas here say what it sees after stages were set
and switches woken, and what a switch is to the store lock and to the turn of its loader, which is
decided by its stage alone.
-/

namespace Phrasebook

namespace Stage

/-- What a switch at this stage is to the store lock. -/
def lockRole : Stage → Role
  | .awaitingLock => .waiting
  | .holdingLock | .writing => .holding
  | _ => .idle

def loadRole : Stage → Role
  | .awaitingLoad => .waiting
  | .holdingTurn | .loading => .holding
  | _ => .idle

/-- The switch has neither published nor been discarded. -/
def IsOpen : Stage → Prop
  | .fading | .ended _ => False
  | _ => True

/-- The switch is after its dataset. -/
def Seeks : Stage → Prop
  | .resolving | .holdingTurn | .served | .loading => True
  | _ => False

/-- The switch will not run again. -/
def HasEnded : Stage → Prop
  | .ended _ => True
  | _ => False

/-- The switch goes on when it gets this answer. -/
inductive Takes : Stage → Answer → Prop where
  | accepted : Takes .accepted .proceed
  | resolving : Takes .resolving .proceed
  | holdingLock : Takes .holdingLock .proceed
  | writing (success : Bool) : Takes .writing (.stored success)
  | holdingTurn : Takes .holdingTurn .proceed
  | served : Takes .served .proceed
  | loading (result : Except Failure Json) : Takes .loading (.loaded result)
  | fading : Takes .fading .proceed

variable {stage : Stage}

theorem Seeks.isOpen (h : stage.Seeks) : stage.IsOpen := by
  cases stage <;> first | exact trivial | exact absurd h id

theorem eq_of_lockRole_waiting (h : stage.lockRole = .waiting) : stage = .awaitingLock := by
  cases stage <;> simp [lockRole] at h
  rfl

theorem eq_of_lockRole_holding (h : stage.lockRole = .holding) :
    stage = .holdingLock ∨ stage = .writing := by
  cases stage <;> simp [lockRole] at h ⊢

theorem eq_of_loadRole_waiting (h : stage.loadRole = .waiting) : stage = .awaitingLoad := by
  cases stage <;> simp [loadRole] at h
  rfl

theorem eq_of_loadRole_holding (h : stage.loadRole = .holding) :
    stage = .holdingTurn ∨ stage = .loading := by
  cases stage <;> simp [loadRole] at h ⊢

end Stage

namespace Session

variable {L : Type} {s : Session L} {g h : Nat} {sw : Switch}

theorem generation_of_switch? (hs : s.switch? g = some sw) : sw.generation = g := by
  have := List.find?_some hs
  simpa using this

theorem switch?_congr {t : Session L} (h : t.switches = s.switches) : t.switch? = s.switch? := by
  funext g
  unfold switch?
  rw [h]

/-! ## Setting stages -/

/-- The session with `waiters` let go on in `stage`, in that order. -/
def wakeAll (s : Session L) (waiters : List Nat) (stage : Stage) : Session L :=
  { s with
    switches := s.switches.map fun sw =>
      if sw.generation ∈ waiters then { sw with stage } else sw
    woken := s.woken ++ waiters }

theorem foldl_wake (s : Session L) (waiters : List Nat) (stage : Stage) :
    waiters.foldl (fun s waiter => s.wake waiter stage) s = s.wakeAll waiters stage := by
  induction waiters generalizing s with
  | nil => simp [wakeAll]
  | cons first rest ih =>
    rw [List.foldl_cons, ih]
    simp only [wakeAll, wake, setStage, List.map_map, List.append_assoc, List.singleton_append]
    congr 2
    funext sw
    by_cases hfirst : sw.generation = first <;> by_cases hrest : sw.generation ∈ rest <;>
      simp [hfirst, hrest]

theorem switch?_map {f : Switch → Switch} (hf : ∀ sw, (f sw).generation = sw.generation)
    (h : Nat) : { s with switches := s.switches.map f }.switch? h = (s.switch? h).map f := by
  unfold switch?
  rw [List.find?_map]
  congr 2
  funext sw
  simp only [Function.comp, hf]

theorem switch?_setStage (s : Session L) (g h : Nat) (stage : Stage) :
    (s.setStage g stage).switch? h =
      (s.switch? h).map fun sw => if h = g then { sw with stage } else sw := by
  unfold setStage
  rw [switch?_map fun sw => by split <;> rfl]
  cases hs : s.switch? h with
  | none => rfl
  | some sw => simp only [Option.map_some, generation_of_switch? hs]

theorem switch?_setStage_self (hs : s.switch? g = some sw) (stage : Stage) :
    (s.setStage g stage).switch? g = some { sw with stage } := by
  rw [switch?_setStage, hs]; simp

theorem switch?_setStage_of_ne (hne : h ≠ g) (stage : Stage) :
    (s.setStage g stage).switch? h = s.switch? h := by
  rw [switch?_setStage]; simp [hne]

theorem switch?_wakeAll (s : Session L) (waiters : List Nat) (stage : Stage) (h : Nat) :
    (s.wakeAll waiters stage).switch? h =
      (s.switch? h).map fun sw => if h ∈ waiters then { sw with stage } else sw := by
  have hmap := switch?_map (s := { s with woken := s.woken ++ waiters })
    (f := fun sw => if sw.generation ∈ waiters then { sw with stage } else sw)
    (fun sw => by split <;> rfl) h
  refine hmap.trans ?_
  show (s.switch? h).map _ = _
  cases hs : s.switch? h with
  | none => rfl
  | some sw => simp only [Option.map_some, generation_of_switch? hs]

theorem of_switch?_setStage {stage : Stage} (hx : (s.setStage g stage).switch? h = some sw) :
    ∃ old, s.switch? h = some old ∧ old.code = sw.code ∧
      (sw.stage = old.stage ∨ h = g ∧ sw.stage = stage) := by
  rw [switch?_setStage] at hx
  obtain ⟨old, hold, rfl⟩ := Option.map_eq_some_iff.1 hx
  refine ⟨old, hold, ?_⟩
  split
  · next e => exact ⟨rfl, .inr ⟨e, rfl⟩⟩
  · exact ⟨rfl, .inl rfl⟩

theorem of_switch?_wakeAll {waiters : List Nat} {stage : Stage}
    (hx : (s.wakeAll waiters stage).switch? h = some sw) :
    ∃ old, s.switch? h = some old ∧ old.code = sw.code ∧
      (sw.stage = old.stage ∨ h ∈ waiters ∧ sw.stage = stage) := by
  rw [switch?_wakeAll] at hx
  obtain ⟨old, hold, rfl⟩ := Option.map_eq_some_iff.1 hx
  refine ⟨old, hold, ?_⟩
  split
  · next e => exact ⟨rfl, .inr ⟨e, rfl⟩⟩
  · exact ⟨rfl, .inl rfl⟩

theorem setStage_setStage (s : Session L) (g : Nat) (a b : Stage) :
    (s.setStage g a).setStage g b = s.setStage g b := by
  simp only [setStage, List.map_map]
  congr 2
  funext sw
  by_cases hg : sw.generation = g <;> simp [hg]

/-- The last stage of a switch is what counts, even if it was woken in between. -/
theorem setStage_wakeAll_setStage (s : Session L) (g : Nat) (a b c : Stage) (waiters : List Nat) :
    ((s.setStage g a).wakeAll waiters b).setStage g c = (s.wakeAll waiters b).setStage g c := by
  simp only [setStage, wakeAll, List.map_map]
  congr 2
  funext sw
  by_cases hg : sw.generation = g <;> by_cases hw : sw.generation ∈ waiters <;> simp [hg, hw]
  all_goals split <;> simp_all

/-! ## Roles -/

/-- What the switch of a generation is, where `f` says what a switch is. -/
def roleBy (s : Session L) (f : Switch → Role) (g : Nat) : Role :=
  match s.switch? g with
  | some sw => f sw
  | none => .idle

abbrev lockRole (s : Session L) : Nat → Role := s.roleBy fun sw => sw.stage.lockRole

abbrev loadRole (s : Session L) (code : String) : Nat → Role :=
  s.roleBy fun sw => if sw.code = code then sw.stage.loadRole else .idle

variable {f : Switch → Role} {stage : Stage} {waiters : List Nat}

theorem roleBy_of (hs : s.switch? g = some sw) : s.roleBy f g = f sw := by
  unfold roleBy; rw [hs]

theorem exists_of_roleBy (hr : s.roleBy f g ≠ .idle) :
    ∃ sw, s.switch? g = some sw ∧ f sw = s.roleBy f g := by
  cases hs : s.switch? g with
  | none => exact absurd (by unfold roleBy; rw [hs]) hr
  | some sw => exact ⟨sw, rfl, (roleBy_of hs).symm⟩

theorem roleBy_setStage (hs : s.switch? g = some sw) :
    (s.setStage g stage).roleBy f = Function.update (s.roleBy f) g (f { sw with stage }) := by
  funext h
  by_cases hh : h = g
  · subst hh; rw [roleBy_of (switch?_setStage_self hs stage), Function.update_self]
  · rw [Function.update_of_ne hh]; unfold roleBy; rw [switch?_setStage_of_ne hh]

theorem roleBy_setStage_keep (hs : s.switch? g = some sw) (hf : f { sw with stage } = f sw) :
    (s.setStage g stage).roleBy f = s.roleBy f := by
  have hr : f { sw with stage } = s.roleBy f g := by rw [hf, roleBy_of hs]
  rw [roleBy_setStage hs, hr, Function.update_eq_self]

theorem roleBy_wakeAll {role : Role}
    (hw : ∀ w ∈ waiters, ∃ sw, s.switch? w = some sw ∧ f { sw with stage } = role) :
    (s.wakeAll waiters stage).roleBy f = fun h => if h ∈ waiters then role else s.roleBy f h := by
  funext h
  unfold roleBy
  rw [switch?_wakeAll]
  by_cases hh : h ∈ waiters
  · obtain ⟨sw, hs, hrole⟩ := hw h hh
    simp only [hs, Option.map_some, hh, ↓reduceIte, hrole]
  · cases s.switch? h <;> simp only [Option.map_some, Option.map_none, hh, ↓reduceIte]

theorem roleBy_wakeAll_keep
    (hw : ∀ w ∈ waiters, ∀ sw, s.switch? w = some sw → f { sw with stage } = f sw) :
    (s.wakeAll waiters stage).roleBy f = s.roleBy f := by
  funext h
  unfold roleBy
  rw [switch?_wakeAll]
  cases hs : s.switch? h with
  | none => rfl
  | some sw =>
    by_cases hh : h ∈ waiters
    · simp only [Option.map_some, hh, ↓reduceIte, hw h hh sw hs]
    · simp only [Option.map_some, hh, ↓reduceIte]

/-! ## Moves -/

/-- From `s` to `t` some switches have moved, each by a step of `R`. -/
def Moved (R : Stage → Stage → Prop) (s t : Session L) : Prop :=
  ∀ g sw, t.switch? g = some sw → ∃ old, s.switch? g = some old ∧ old.code = sw.code ∧
    (sw.stage = old.stage ∨ R old.stage sw.stage)

variable {R R' : Stage → Stage → Prop} {t u : Session L}

theorem Moved.refl (R : Stage → Stage → Prop) (s : Session L) : s.Moved R s :=
  fun _ sw hs => ⟨sw, hs, rfl, .inl rfl⟩

theorem Moved.trans (htrans : ∀ a b c, R a b → R b c → R a c) (h : s.Moved R t)
    (h' : t.Moved R u) : s.Moved R u := by
  intro g sw hs
  obtain ⟨mid, hmid, hcode, hstage⟩ := h' g sw hs
  obtain ⟨old, hold, hcode', hstage'⟩ := h g mid hmid
  refine ⟨old, hold, hcode'.trans hcode, ?_⟩
  rcases hstage with hsame | hR
  · rw [hsame]; exact hstage'
  · rcases hstage' with hsame' | hR'
    · rw [← hsame']; exact .inr hR
    · exact .inr (htrans _ _ _ hR' hR)

theorem Moved.setStage (hs : s.switch? g = some sw) (hR : R sw.stage stage) :
    s.Moved R (s.setStage g stage) := by
  intro h new hnew
  obtain ⟨old, hold, hcode, hsame | ⟨rfl, hstage⟩⟩ := of_switch?_setStage hnew
  · exact ⟨old, hold, hcode, .inl hsame⟩
  · obtain rfl := Option.some.inj (hs.symm.trans hold)
    exact ⟨sw, hold, hcode, .inr (hstage ▸ hR)⟩

theorem Moved.wakeAll (hw : ∀ w ∈ waiters, ∃ sw, s.switch? w = some sw ∧ R sw.stage stage) :
    s.Moved R (s.wakeAll waiters stage) := by
  intro h new hnew
  obtain ⟨old, hold, hcode, hsame | ⟨hmem, hstage⟩⟩ := of_switch?_wakeAll hnew
  · exact ⟨old, hold, hcode, .inl hsame⟩
  · obtain ⟨sw, hs, hR⟩ := hw h hmem
    obtain rfl := Option.some.inj (hs.symm.trans hold)
    exact ⟨sw, hold, hcode, .inr (hstage ▸ hR)⟩

/-! ## Numbering -/

/-- The switches are numbered from one on, in the order in which they were accepted. -/
def Numbered (s : Session L) : Prop :=
  s.switches.map (·.generation) = List.range' 1 s.generation

theorem Numbered.setStage (hn : s.Numbered) : (s.setStage g stage).Numbered := by
  refine Eq.trans ?_ hn
  simp only [Session.setStage, List.map_map]
  congr 1
  funext sw
  simp only [Function.comp]; split <;> rfl

theorem Numbered.wakeAll (hn : s.Numbered) : (s.wakeAll waiters stage).Numbered := by
  refine Eq.trans ?_ hn
  simp only [Session.wakeAll, List.map_map]
  congr 1
  funext sw
  simp only [Function.comp]; split <;> rfl

theorem Numbered.mem_iff (hn : s.Numbered) :
    sw ∈ s.switches ↔ s.switch? sw.generation = some sw := by
  constructor
  · intro hmem
    have hnodup : (s.switches.map (·.generation)).Nodup := hn ▸ List.nodup_range'
    cases hs : s.switch? sw.generation with
    | none => exact absurd (List.find?_eq_none.1 hs sw hmem) (by simp)
    | some other =>
      have hother : other ∈ s.switches := List.mem_of_find?_eq_some hs
      rw [List.inj_on_of_nodup_map hnodup hother hmem (generation_of_switch? hs)]
  · exact List.mem_of_find?_eq_some

theorem Numbered.setStage_self (hn : s.Numbered) (hs : s.switch? g = some sw) :
    s.setStage g sw.stage = s := by
  have hmap : (s.switches.map fun x => if x.generation = g then { x with stage := sw.stage } else x)
      = s.switches.map id := by
    refine List.map_congr_left fun x hx => ?_
    split
    · next hg =>
      have hxs := hn.mem_iff.1 hx
      rw [hg, hs] at hxs
      rw [← Option.some.inj hxs]; rfl
    · rfl
  unfold Session.setStage
  rw [hmap, List.map_id]

theorem Numbered.exists_iff (hn : s.Numbered) :
    (∃ sw, s.switch? g = some sw) ↔ 1 ≤ g ∧ g ≤ s.generation := by
  have hmem : g ∈ s.switches.map (·.generation) ↔ 1 ≤ g ∧ g ≤ s.generation := by
    rw [hn, List.mem_range'_1]; omega
  rw [← hmem]
  unfold switch?
  rw [← Option.isSome_iff_exists, List.find?_isSome, List.mem_map]
  simp

end Session

end Phrasebook
