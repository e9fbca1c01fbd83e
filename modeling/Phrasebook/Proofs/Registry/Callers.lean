import Phrasebook.Proofs.Turn
import Phrasebook.Registry

/-!
# The callers of a loading

A caller is seen by its number. The lemmas here say what is seen after callers were moved on or one
more has come, what a caller is to the turn of the loader, which its stage decides, and how many
calls are under way.
-/

namespace Phrasebook

/-- What a caller at this stage is to the turn of the loader. -/
def Caller.role : Caller → Role
  | queued => .waiting
  | holdingTurn | calling => .holding
  | served | done _ => .idle

namespace Loading

variable {L : Type} {l : Loading L} {c x : Nat} {stage old : Caller} {callers : List Nat}

abbrev At (l : Loading L) (c : Nat) (stage : Caller) : Prop := l.callers[c]? = some stage

/-- What the caller of a number is to the turn of the loader. -/
def role (l : Loading L) (c : Nat) : Role :=
  match l.callers[c]? with
  | some stage => stage.role
  | none => .idle

theorem role_of (h : l.At c stage) : l.role c = stage.role := by
  unfold role; rw [h]

theorem exists_of_role (h : l.role c ≠ .idle) : ∃ stage, l.At c stage ∧ stage.role = l.role c := by
  cases hc : l.callers[c]? with
  | none => exact absurd (by unfold role; rw [hc]) h
  | some stage => exact ⟨stage, hc, (role_of hc).symm⟩

/-! ## Moving on -/

theorem getElem?_move (l : Loading L) (callers : List Nat) (stage : Caller) (x : Nat) :
    (l.move callers stage).callers[x]? =
      (l.callers[x]?).map fun old => if x ∈ callers then stage else old :=
  List.getElem?_mapIdx

theorem at_move_self (h : l.At c old) (stage : Caller) : (l.move [c] stage).At c stage := by
  unfold At
  rw [getElem?_move, h]
  simp

theorem at_move_of_not_mem (hx : x ∉ callers) (stage : Caller) :
    (l.move callers stage).callers[x]? = l.callers[x]? := by
  rw [getElem?_move]
  simp [hx]

/-- Whoever is seen after a move was there before, and was moved or left alone. -/
theorem of_at_move {new : Caller} (h : (l.move callers stage).At x new) :
    ∃ old, l.At x old ∧ (x ∈ callers ∧ new = stage ∨ x ∉ callers ∧ new = old) := by
  unfold At at h
  rw [getElem?_move] at h
  obtain ⟨old, hold, rfl⟩ := Option.map_eq_some_iff.1 h
  refine ⟨old, hold, ?_⟩
  split
  · next hmem => exact .inl ⟨hmem, rfl⟩
  · next hnot => exact .inr ⟨hnot, rfl⟩

theorem role_move (h : ∀ w ∈ callers, ∃ old, l.At w old) (stage : Caller) :
    (l.move callers stage).role = fun x => if x ∈ callers then stage.role else l.role x := by
  funext x
  unfold role
  rw [getElem?_move]
  by_cases hx : x ∈ callers
  · obtain ⟨old, hold⟩ := h x hx
    simp [hold, hx]
  · cases l.callers[x]? <;> simp [hx]

theorem role_move_self (h : l.At c old) (stage : Caller) :
    (l.move [c] stage).role = Function.update l.role c stage.role := by
  rw [role_move fun w hw => ⟨old, List.mem_singleton.1 hw ▸ h⟩]
  funext x
  by_cases hx : x = c
  · subst hx; simp
  · simp [hx]

/-! ## Coming -/

theorem getElem?_join (l : Loading L) (stage : Caller) (x : Nat) :
    (l.join stage).callers[x]? = if x = l.callers.length then some stage else l.callers[x]? := by
  unfold join
  rw [List.getElem?_append]
  split
  · next hlt => rw [if_neg (by omega)]
  · next hge =>
    split
    · next e => simp [e]
    · rw [List.getElem?_eq_none (by simp; omega), List.getElem?_eq_none (by omega)]

theorem at_join_self (l : Loading L) (stage : Caller) :
    (l.join stage).At l.callers.length stage := by
  unfold At
  rw [getElem?_join, if_pos rfl]

theorem lt_length_of_at (h : l.At c stage) : c < l.callers.length := by
  by_contra hge
  unfold At at h
  rw [List.getElem?_eq_none (by omega)] at h
  cases h

theorem At.join (h : l.At c stage) (new : Caller) : (l.join new).At c stage := by
  have hlt := lt_length_of_at h
  unfold At
  rw [getElem?_join, if_neg (by omega)]
  exact h

theorem of_at_join {new : Caller} (h : (l.join stage).At x new) :
    x = l.callers.length ∧ new = stage ∨ l.At x new := by
  unfold At at h
  rw [getElem?_join] at h
  split at h
  · next e => exact .inl ⟨e, (Option.some.inj h).symm⟩
  · exact .inr h

theorem role_length (l : Loading L) : l.role l.callers.length = .idle := by
  unfold role
  rw [List.getElem?_eq_none (Nat.le_refl _)]

theorem role_join (l : Loading L) (stage : Caller) :
    (l.join stage).role = Function.update l.role l.callers.length stage.role := by
  funext x
  by_cases hx : x = l.callers.length
  · subst hx; rw [role_of (at_join_self l stage), Function.update_self]
  · rw [Function.update_of_ne hx]
    unfold role
    rw [getElem?_join, if_neg hx]

theorem move_join (l : Loading L) (stage new : Caller) :
    (l.join stage).move [l.callers.length] new = l.join new := by
  have hcallers : ((l.join stage).move [l.callers.length] new).callers = (l.join new).callers := by
    refine List.ext_getElem? fun x => ?_
    rw [getElem?_move, getElem?_join, getElem?_join]
    by_cases hx : x = l.callers.length <;> simp [hx]
  exact congrArg (fun callers => { l with callers }) hcallers

/-! ## Leaving -/

/-- Caller `c` is done, and those who waited for it go on. -/
def release (l : Loading L) (cell : Cell) (waiters : List Nat) (stage : Caller) (c : Nat)
    (got : Except Fault Json) : Loading L :=
  ((l.setCell cell).move waiters stage).move [c] (.done got)

variable {cell : Cell} {waiters : List Nat} {got : Except Fault Json}

theorem at_release_self (hc : l.At c old) :
    (l.release cell waiters stage c got).At c (.done got) := by
  unfold release At
  rw [getElem?_move, getElem?_move]
  simp [setCell, hc]

theorem at_release_of_not_mem (hne : x ≠ c) (hx : x ∉ waiters) :
    (l.release cell waiters stage c got).callers[x]? = l.callers[x]? := by
  unfold release
  rw [at_move_of_not_mem (by simpa using hne), at_move_of_not_mem hx]
  rfl

theorem of_at_release {new : Caller} (h : (l.release cell waiters stage c got).At x new) :
    x = c ∧ new = .done got ∨ x ≠ c ∧ (x ∈ waiters ∧ new = stage ∨ l.At x new) := by
  obtain ⟨mid, hmid, ⟨hmem, rfl⟩ | ⟨hnot, rfl⟩⟩ := of_at_move h
  · exact .inl ⟨List.mem_singleton.1 hmem, rfl⟩
  · refine .inr ⟨by simpa using hnot, ?_⟩
    obtain ⟨before, hbefore, hmoved | ⟨-, rfl⟩⟩ := of_at_move hmid
    · exact .inl hmoved
    · exact .inr hbefore

theorem role_release (hc : l.At c old) (hwaiters : ∀ w ∈ waiters, ∃ old, l.At w old) (cell : Cell)
    (stage : Caller) (got : Except Fault Json) :
    (l.release cell waiters stage c got).role = fun x =>
      if x = c then .idle else if x ∈ waiters then stage.role else l.role x := by
  have hone : ∀ w ∈ [c], ∃ mid, ((l.setCell cell).move waiters stage).At w mid := fun w hw => by
    rw [List.mem_singleton.1 hw]
    unfold At
    rw [getElem?_move]
    exact ⟨_, congrArg (Option.map _) hc⟩
  unfold release
  rw [role_move hone, role_move (l := l.setCell cell) hwaiters]
  funext x
  simp only [List.mem_singleton]
  rfl

/-! ## Calls under way -/

theorem inFlight_eq_zero (h : ∀ c, ¬ l.At c .calling) : l.inFlight = 0 := by
  refine List.countP_eq_zero.2 fun stage hmem => ?_
  obtain ⟨c, hc⟩ := List.mem_iff_getElem?.1 hmem
  cases stage with
  | calling => exact absurd hc (h c)
  | _ => exact Bool.false_ne_true

theorem inFlight_eq_one (h : l.At c .calling) (hone : ∀ x, l.At x .calling → x = c) :
    l.inFlight = 1 := by
  have hlt := lt_length_of_at h
  have hget : l.callers[c] = .calling := List.getElem_eq_iff hlt |>.2 h
  have hrest : ({ l with callers := l.callers.set c .queued } : Loading L).inFlight = 0 := by
    refine inFlight_eq_zero fun x hx => ?_
    unfold At at hx
    rw [List.getElem?_set] at hx
    split at hx
    · cases hx
    · next hne => exact hne (hone x hx).symm
  have hpos : 0 < l.inFlight := List.countP_pos_iff.2 ⟨.calling, List.mem_of_getElem? h, rfl⟩
  unfold inFlight at hrest hpos ⊢
  rw [List.countP_set hlt, hget] at hrest
  have hrest : l.callers.countP (·.isCalling) - 1 + 0 = 0 := hrest
  omega

theorem inFlight_join (hstage : stage.isCalling = false) :
    (l.join stage).inFlight = l.inFlight := by
  unfold inFlight join
  simp [hstage]

end Loading

end Phrasebook
