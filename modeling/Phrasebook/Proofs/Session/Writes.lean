import Phrasebook.Proofs.Session.Storing

/-!
# The order of writes

The store answers the writes of switches one after the other; each may take as long as it likes,
and it may fail. `Transition.write?` is the write that is answered in a transition, so the writes of
a history are known without asking the session. `Logged` ties the stages of the switches to them: a
switch that is past the store has written or was overtaken by a newer write, and a switch that
writes is newer than all that is stored. So the writes that succeed come in the order of their
requests, and what is stored is the newest of them.
-/

namespace Phrasebook

variable {L : Type}

structure Write where
  generation : Nat
  code : String
  success : Bool
  deriving DecidableEq

namespace Transition

/-- The write that the store answers in a transition. -/
def write? (transition : Transition L) : Option Write :=
  match transition.event with
  | .resume generation (.stored success) =>
    match transition.before.errand? generation with
    | some (.write code) => some ⟨generation, code, success⟩
    | _ => none
  | _ => none

/-- In the transition a request for `code` is accepted. -/
def Accepts (transition : Transition L) (generation : Nat) (code : String) : Prop :=
  transition.event = .request code ∧
    (transition.before.request code).2 = .accepted generation

end Transition

def writes (history : List (Transition L)) : List Write := history.filterMap Transition.write?

def saved (history : List (Transition L)) : List Write := (writes history).filter (·.success)

theorem eq_or_lt_of_getLast? {log : List Write} {w last : Write}
    (hascending : log.Pairwise (·.generation < ·.generation)) (hlast : log.getLast? = some last)
    (hw : w ∈ log) : w = last ∨ w.generation < last.generation := by
  obtain ⟨earlier, rfl⟩ := List.getLast?_eq_some_iff.1 hlast
  rcases List.mem_append.1 hw with hw | hw
  · exact .inr ((List.pairwise_append.1 hascending).2.2 w hw last (List.mem_singleton_self _))
  · exact .inl (List.mem_singleton.1 hw)

namespace Stage

/-- The stage of the switch of generation `g` agrees with the writes so far. The first `first`
requests are not stored by their switches. -/
structure Accords (first : Nat) (log : List Write) (remembers : Bool) (g : Nat) (stage : Stage) :
    Prop where
  later : stage.IsUnstored → first < g
  fresh : stage.IsUnstored → ∀ w ∈ log, w.generation ≠ g
  writing : stage = .writing → ∀ w ∈ log, w.success = true → w.generation < g
  past : ¬ stage.IsUnstored → first < g → remembers = true →
    (∃ w ∈ log, w.generation = g) ∨ ∃ w ∈ log, w.success = true ∧ g < w.generation
  idle : remembers = false → stage.lockRole = .idle

/-- On the way from one stage to the other a switch does not pass the store, start to write or come
to the lock. -/
structure Bypasses (a b : Stage) : Prop where
  unstored : a.IsUnstored ↔ b.IsUnstored
  writing : b ≠ .writing
  lock : a.lockRole = .idle → b.lockRole = .idle

variable {first g : Nat} {log : List Write} {remembers : Bool} {a b : Stage}

theorem Accords.bypass (h : a.Accords first log remembers g) (hab : a.Bypasses b) :
    b.Accords first log remembers g where
  later hb := h.later (hab.unstored.2 hb)
  fresh hb := h.fresh (hab.unstored.2 hb)
  writing hb := absurd hb hab.writing
  past hb := h.past (mt hab.unstored.1 hb)
  idle hrem := hab.lock (h.idle hrem)

theorem Accords.snoc (h : a.Accords first log remembers g) {w : Write} (hw : w.generation ≠ g)
    (ha : a ≠ .writing) : a.Accords first (log ++ [w]) remembers g where
  later := h.later
  fresh hun x hx := by
    rcases List.mem_append.1 hx with hx | hx
    · exact h.fresh hun x hx
    · rw [List.mem_singleton.1 hx]; exact hw
  writing hst := absurd hst ha
  past hun hlt hrem := by
    rcases h.past hun hlt hrem with ⟨x, hx, heq⟩ | ⟨x, hx, hnewer⟩
    · exact .inl ⟨x, List.mem_append_left _ hx, heq⟩
    · exact .inr ⟨x, List.mem_append_left _ hx, hnewer⟩
  idle := h.idle

theorem bypasses_of_past (ha : ¬ a.IsUnstored) (hb : ¬ b.IsUnstored) (hlock : b.lockRole = .idle) :
    a.Bypasses b where
  unstored := iff_of_false ha hb
  writing e := hb (e ▸ trivial)
  lock _ := hlock

end Stage

namespace Session

/-- The session agrees with the writes that the store has answered. -/
structure Logged (first : Nat) (log : List Write) (s : Session L) : Prop where
  first_le : first ≤ s.generation
  written : s.written = (log.filter (·.success)).map fun w => (w.generation, w.code)
  ascending : (log.filter (·.success)).Pairwise (·.generation < ·.generation)
  own : ∀ w ∈ log, first < w.generation ∧ w.generation ≤ s.generation ∧
    ∀ sw, s.switch? w.generation = some sw → sw.code = w.code
  accords : ∀ g sw, s.switch? g = some sw → sw.stage.Accords first log s.remembers g

variable {s t m : Session L} {g first : Nat} {code : String} {answer : Answer} {log : List Write}
  {stage last : Stage} {config : Configuration L} {locked : Option String} {initial : String}

theorem Opens.logged (h : Opens config locked initial s) : s.Logged s.generation [] where
  first_le := Nat.le_refl _
  written := h.begins.written
  ascending := .nil
  own _ hw := absurd hw List.not_mem_nil
  accords g sw hs := by
    obtain ⟨hsw, hg⟩ := h.resolving hs
    rw [hsw]
    exact ⟨nofun, nofun, nofun, fun _ hlt => by omega, fun _ => rfl⟩

theorem Logged.moved (h : s.Logged first log) (hm : s.Moved Stage.Bypasses t)
    (hwritten : t.written = s.written) (hgeneration : t.generation = s.generation)
    (hremembers : t.remembers = s.remembers) : t.Logged first log where
  first_le := hgeneration ▸ h.first_le
  written := hwritten.trans h.written
  ascending := h.ascending
  own w hw := by
    obtain ⟨hfirst, hle, hcode⟩ := h.own w hw
    refine ⟨hfirst, hgeneration ▸ hle, fun sw hs => ?_⟩
    obtain ⟨old, hold, hsame, -⟩ := hm _ sw hs
    rw [← hsame]; exact hcode old hold
  accords g sw hs := by
    obtain ⟨old, hold, -, hsame | hbypass⟩ := hm g sw hs
    · rw [hsame, hremembers]; exact h.accords g old hold
    · rw [hremembers]; exact (h.accords g old hold).bypass hbypass

theorem Logged.congr (h : s.Logged first log) (hswitches : t.switches = s.switches)
    (hgeneration : t.generation = s.generation) (hwritten : t.written = s.written)
    (hremembers : t.remembers = s.remembers) : t.Logged first log := by
  have hm : s.Moved Stage.Bypasses t := fun g sw hs =>
    ⟨sw, switch?_congr hswitches ▸ hs, rfl, .inl rfl⟩
  exact h.moved hm hwritten hgeneration hremembers

theorem Logged.setStage (h : s.Logged first log) (hs : s.At g code last)
    (hstage : last.Accords first log s.remembers g → stage.Accords first log s.remembers g) :
    (s.setStage g stage).Logged first log where
  first_le := h.first_le
  written := h.written
  ascending := h.ascending
  own w hw := by
    obtain ⟨hfirst, hle, hcode⟩ := h.own w hw
    refine ⟨hfirst, hle, fun sw hx => ?_⟩
    obtain ⟨old, hold, hsame, -⟩ := of_switch?_setStage hx
    rw [← hsame]; exact hcode old hold
  accords x sw hx := by
    obtain ⟨old, hold, -, hsame | ⟨rfl, hnew⟩⟩ := of_switch?_setStage hx
    · rw [hsame]; exact h.accords x old hold
    · rw [hnew]; exact hstage (h.accords x _ hs)

theorem Logged.advance (h : s.Logged first log) (hs : s.At g code last)
    (hlast : ¬ last.IsUnstored) (hstage : ¬ stage.IsUnstored) (hlock : stage.lockRole = .idle) :
    (s.setStage g stage).Logged first log :=
  h.setStage hs fun ha => ha.bypass (Stage.bypasses_of_past hlast hstage hlock)

theorem Logged.persisted_of_getLast? (h : s.Logged first log) {w : Write}
    (hlast : (log.filter (·.success)).getLast? = some w) : s.persisted = w.generation := by
  unfold persisted
  rw [h.written, List.getLast?_map, hlast]
  rfl

/-- What is stored is the newest write that succeeded. -/
theorem Logged.le_persisted (h : s.Logged first log) {w : Write} (hw : w ∈ log)
    (hsuccess : w.success = true) : w.generation ≤ s.persisted := by
  have hmem : w ∈ log.filter (·.success) := List.mem_filter.2 ⟨hw, hsuccess⟩
  obtain ⟨newest, hlast⟩ := Option.ne_none_iff_exists'.1
    (mt List.getLast?_eq_none_iff.1 (List.ne_nil_of_mem hmem))
  rw [h.persisted_of_getLast? hlast]
  rcases eq_or_lt_of_getLast? h.ascending hlast hmem with rfl | hlt
  · exact Nat.le_refl _
  · exact Nat.le_of_lt hlt

theorem Logged.exists_persisted (h : s.Logged first log) (hpos : 0 < s.persisted) :
    ∃ w ∈ log, w.success = true ∧ w.generation = s.persisted := by
  cases hlast : (log.filter (·.success)).getLast? with
  | none =>
    have hzero : s.persisted = 0 := by
      unfold persisted
      rw [h.written, List.getLast?_map, hlast]
      rfl
    omega
  | some newest =>
    obtain ⟨hmem, hsuccess⟩ := List.mem_filter.1 (List.mem_of_getLast? hlast)
    exact ⟨newest, hmem, hsuccess, (h.persisted_of_getLast? hlast).symm⟩

/-! ## Acts -/

theorem Logged.passLock (h : s.Logged first log) (ho : s.Orderly) : s.passLock.Logged first log :=
  h.moved (ho.moved_passLock ⟨Iff.rfl, nofun, nofun⟩) rfl rfl rfl

theorem Quiet.logged (hq : Quiet g code answer s t) (ho : s.Orderly) (h : s.Logged first log)
    (hnever : ∀ success, answer ≠ .stored success) : t.Logged first log := by
  have hmissed : ∀ cell, (s.miss code cell).Logged first log := fun _ => h.congr rfl rfl rfl rfl
  cases hq with
  | skipStore hs hrem =>
    refine h.setStage hs fun _ => ⟨nofun, nofun, nofun, fun _ _ hrem' => ?_, fun _ => rfl⟩
    rw [hrem] at hrem'; cases hrem'
  | takeLock hs hrem _ =>
    have hasked : { s with lock := (s.lock.ask g).1 }.Logged first log := h.congr rfl rfl rfl rfl
    refine hasked.setStage hs fun ha => ⟨fun _ => ha.later trivial, fun _ => ha.fresh trivial,
      nofun, fun hnot => absurd trivial hnot, fun hrem' => ?_⟩
    cases hrem.symm.trans hrem'
  | joinLock hs hrem _ =>
    have hasked : { s with lock := (s.lock.ask g).1 }.Logged first log := h.congr rfl rfl rfl rfl
    refine hasked.setStage hs fun ha => ⟨fun _ => ha.later trivial, fun _ => ha.fresh trivial,
      nofun, fun hnot => absurd trivial hnot, fun hrem' => ?_⟩
    cases hrem.symm.trans hrem'
  | startWrite hs hnew =>
    refine h.setStage hs fun ha => ⟨fun _ => ha.later trivial, fun _ => ha.fresh trivial,
      fun _ w hw hsuccess => ?_, fun hnot => absurd trivial hnot, ha.idle⟩
    exact Nat.lt_of_le_of_lt (h.le_persisted hw hsuccess) hnew
  | skipWrite hs hle =>
    refine (h.passLock ho).setStage (ho.passLock_at hs rfl) fun ha => ⟨nofun, nofun, nofun,
      fun _ _ _ => .inr ?_, fun _ => rfl⟩
    have hpos : 0 < s.persisted := by
      have := ha.later trivial
      omega
    obtain ⟨w, hw, hsuccess, hg⟩ := h.exists_persisted hpos
    have hne := ha.fresh trivial w hw
    exact ⟨w, hw, hsuccess, by omega⟩
  | endWrite _ hanswer => exact absurd hanswer (hnever true)
  | failWrite _ hanswer => exact absurd hanswer (hnever false)
  | takeTurn hs _ _ _ => exact (hmissed _).advance hs id id rfl
  | joinTurn hs _ _ _ => exact (hmissed _).advance hs id id rfl
  | call hs _ _ =>
    have hcounted : { s with metrics := s.metrics.call }.Logged first log := h.congr rfl rfl rfl rfl
    exact hcounted.advance hs id id rfl

theorem Finds.logged {found : Session L} {direction : Direction} {content : Json}
    {fallback fresh : Bool} (hf : Finds g code answer s found direction content fallback fresh)
    (ho : s.Orderly) (h : s.Logged first log) : found.Logged first log := by
  have hwritten : found.written = s.written := by cases hf <;> rfl
  have hk := (hf.offers ho).1
  have hturn : Stage.awaitingLoad.Bypasses .holdingTurn := Stage.bypasses_of_past id id rfl
  have hserved : Stage.awaitingLoad.Bypasses .served := Stage.bypasses_of_past id id rfl
  exact h.moved (hf.moved ho hturn hserved) hwritten hk.generation hk.remembers

theorem Lands.logged (hl : Lands g code answer s t) (ho : s.Orderly) (h : s.Logged first log) :
    t.Logged first log := by
  cases hl with
  | @shown found direction content fallback fresh snapshot hf _ _ =>
    obtain ⟨last, hat, hseeks⟩ := hf.exists_seeks ho
    have hpublished : { found.publish snapshot with
        applied := found.applied ++ [(code, direction)] }.Logged first log :=
      (hf.logged ho h).congr rfl rfl rfl rfl
    cases fresh <;> exact hpublished.advance hat hseeks.not_isUnstored id rfl
  | @overtaken found direction content fallback fresh hf _ =>
    obtain ⟨last, hat, hseeks⟩ := hf.exists_seeks ho
    have hcounted : { found with metrics := found.metrics.discard }.Logged first log :=
      (hf.logged ho h).congr rfl rfl rfl rfl
    exact hcounted.advance hat hseeks.not_isUnstored id rfl
  | settled hs _ =>
    have hpublished : (s.publish { s.snapshot with ready := true }).Logged first log :=
      h.congr rfl rfl rfl rfl
    exact hpublished.advance hs id id rfl
  | faded hs _ =>
    have hcounted : { s with metrics := s.metrics.discard }.Logged first log :=
      h.congr rfl rfl rfl rfl
    exact hcounted.advance hs id id rfl

def answered (s : Session L) (w : Write) : Session L :=
  if w.success then { s with written := s.written ++ [(w.generation, w.code)] } else s

theorem answered_keep {α : Type} (f : Session L → α)
    (hf : ∀ (s : Session L) written, f { s with written } = f s) (s : Session L) (w : Write) :
    f (s.answered w) = f s := by
  unfold answered
  split
  · exact hf s _
  · rfl

theorem Orderly.answered (h : s.Orderly) (w : Write) : (s.answered w).Orderly :=
  h.congr (answered_keep _ (fun _ _ => rfl) s w) (answered_keep _ (fun _ _ => rfl) s w)
    (answered_keep _ (fun _ _ => rfl) s w) (answered_keep _ (fun _ _ => rfl) s w)

theorem written_answered (s : Session L) (w : Write) :
    (s.answered w).written =
      s.written ++ ([w].filter (·.success)).map fun w => (w.generation, w.code) := by
  unfold answered
  cases h : w.success <;> simp [h]

theorem switch?_setStage_cases (hs : s.At g code last) {x : Nat} {sw : Switch}
    (hx : (s.setStage g stage).switch? x = some sw) :
    x = g ∧ sw = ⟨code, g, stage⟩ ∨ x ≠ g ∧ s.switch? x = some sw := by
  by_cases hxg : x = g
  · subst hxg
    rw [switch?_setStage_self hs] at hx
    exact .inl ⟨rfl, (Option.some.inj hx).symm⟩
  · rw [switch?_setStage_of_ne hxg] at hx
    exact .inr ⟨hxg, hx⟩

theorem Orderly.ne_writing_of_passLock (ho : s.Orderly) (hs : s.At g code .writing) {x : Nat}
    {sw : Switch} (hne : x ≠ g) (hx : s.passLock.switch? x = some sw) : sw.stage ≠ .writing := by
  have hmoved : s.Moved (fun _ b => b ≠ .writing) s.passLock := ho.moved_passLock nofun
  obtain ⟨old, hold, -, hkept | hnot⟩ := hmoved x sw hx
  · exact fun hst => hne (ho.eq_of_writing hs hold (hkept ▸ hst))
  · exact hnot

theorem Logged.record (h : s.Logged first log) (ho : s.Orderly) (hs : s.At g code .writing)
    (success : Bool) :
    ((s.answered ⟨g, code, success⟩).passLock.setStage g .resolving).Logged first
      (log ++ [⟨g, code, success⟩]) := by
  let w : Write := ⟨g, code, success⟩
  have hwriting := h.accords g _ hs
  have hpassed := h.passLock ho
  have hat := ho.passLock_at hs rfl
  have hswitch : (s.answered w).passLock.switch? = s.passLock.switch? :=
    answered_keep (fun s => s.passLock.switch?) (fun _ _ => rfl) s w
  have hgeneration : (s.answered w).generation = s.generation :=
    answered_keep _ (fun _ _ => rfl) s w
  have hremembers : (s.answered w).remembers = s.remembers := answered_keep _ (fun _ _ => rfl) s w
  have hcases : ∀ {x sw}, ((s.answered w).passLock.setStage g .resolving).switch? x = some sw →
      x = g ∧ sw = ⟨code, g, .resolving⟩ ∨ x ≠ g ∧ s.passLock.switch? x = some sw := fun hx => by
    have hself : (s.answered w).passLock.At g code .writing := (congrFun hswitch g).trans hat
    rw [← hswitch]
    exact switch?_setStage_cases hself hx
  have hcode : ∀ {x sw}, ((s.answered w).passLock.setStage g .resolving).switch? x = some sw →
      ∃ old, s.passLock.switch? x = some old ∧ old.code = sw.code := fun hx => by
    rcases hcases hx with ⟨rfl, rfl⟩ | ⟨-, hkept⟩
    · exact ⟨_, hat, rfl⟩
    · exact ⟨_, hkept, rfl⟩
  constructor
  · exact hgeneration ▸ h.first_le
  · show (s.answered w).written = _
    rw [written_answered, h.written, List.filter_append, List.map_append]
  · rw [List.filter_append, List.pairwise_append]
    refine ⟨h.ascending, List.Pairwise.filter _ (List.pairwise_singleton _ _), fun a ha b hb => ?_⟩
    obtain ⟨hmem, hsuccess⟩ := List.mem_filter.1 ha
    rw [List.mem_singleton.1 (List.mem_filter.1 hb).1]
    exact hwriting.writing rfl a hmem hsuccess
  · intro x hx
    show first < x.generation ∧ x.generation ≤ (s.answered w).generation ∧ _
    rw [hgeneration]
    rcases List.mem_append.1 hx with hx | hx
    · obtain ⟨hfirst, hle, hsame⟩ := hpassed.own x hx
      refine ⟨hfirst, hle, fun sw hsw => ?_⟩
      obtain ⟨old, hold, hkept⟩ := hcode hsw
      exact hkept.symm.trans (hsame old hold)
    · rw [List.mem_singleton.1 hx]
      refine ⟨hwriting.later trivial, (ho.numbered.exists_iff.1 ⟨_, hs⟩).2, fun sw hsw => ?_⟩
      obtain ⟨old, hold, hkept⟩ := hcode hsw
      obtain rfl := Option.some.inj (hat.symm.trans hold)
      exact hkept.symm
  · intro x sw hx
    show sw.stage.Accords first _ (s.answered w).remembers x
    rw [hremembers]
    rcases hcases hx with ⟨rfl, rfl⟩ | ⟨hne, hkept⟩
    · have hown : w ∈ log ++ [w] := List.mem_append_right _ (List.mem_singleton_self _)
      exact ⟨nofun, nofun, nofun, fun _ _ _ => .inl ⟨w, hown, rfl⟩, fun _ => rfl⟩
    · exact (hpassed.accords x sw hkept).snoc (Ne.symm hne) (ho.ne_writing_of_passLock hs hne hkept)

end Session

end Phrasebook
