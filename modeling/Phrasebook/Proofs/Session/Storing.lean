import Phrasebook.Proofs.Session.Progress

/-!
# What a session stores

Switches get the store lock in the order in which they ask for it, which need not be that of the
requests: one that gets it after a newer one has written leaves the store as it is. `Stored` is what
this comes to when no write fails: whoever is past the store has written, or somebody newer has.
When all switches have ended, the newest request is the one that was written last.
-/

namespace Phrasebook

variable {L : Type}

/-- The switch is not past the store yet. -/
def Stage.IsUnstored : Stage → Prop
  | .accepted | .awaitingLock | .holdingLock | .writing => True
  | _ => False

theorem Stage.Seeks.not_isUnstored {stage : Stage} (h : stage.Seeks) : ¬ stage.IsUnstored := by
  cases stage <;> first | exact id | exact absurd h id

theorem Stage.HasEnded.not_isUnstored {stage : Stage} (h : stage.HasEnded) :
    ¬ stage.IsUnstored := by
  cases stage <;> first | exact id | exact absurd h id

namespace Session

/-- The switches agree with what was written. The first `first` requests are not stored by their
switches. -/
structure Stored (first : Nat) (s : Session L) : Prop where
  first_le : first ≤ s.generation
  written : ∀ g code, (g, code) ∈ s.written → first < g ∧ g ≤ s.generation ∧
    ∀ sw, s.switch? g = some sw → sw.code = code
  later : ∀ g sw, s.switch? g = some sw → sw.stage.IsUnstored → first < g
  past : ∀ g sw, s.switch? g = some sw → ¬ sw.stage.IsUnstored → first < g →
    s.remembers = true → g ≤ s.persisted
  writing : ∀ g sw, s.switch? g = some sw → sw.stage = .writing → s.persisted < g

variable {s t m : Session L} {g first : Nat} {code : String} {answer : Answer}
  {stage last : Stage} {config : Configuration L} {locked : Option String} {initial : String}

theorem Opens.stored (h : Opens config locked initial s) : s.Stored s.generation where
  first_le := Nat.le_refl _
  written g code hmem := by
    rw [h.begins.written] at hmem
    cases hmem
  later g sw hs hunstored := by
    rw [(h.resolving hs).1] at hunstored
    exact absurd hunstored id
  past g sw hs _ hlt := by
    have := (h.resolving hs).2
    omega
  writing g sw hs hst := by
    rw [(h.resolving hs).1] at hst
    cases hst

/-- Switches may move as long as none passes the store or starts to write. -/
theorem Stored.moved (h : s.Stored first)
    (hm : s.Moved (fun a b => (a.IsUnstored ↔ b.IsUnstored) ∧ b ≠ .writing) t)
    (hwritten : t.written = s.written) (hgeneration : t.generation = s.generation)
    (hremembers : t.remembers = s.remembers) : t.Stored first := by
  have hpersisted : t.persisted = s.persisted := by unfold persisted; rw [hwritten]
  have hunstored : ∀ {g sw}, t.switch? g = some sw → ∃ old, s.switch? g = some old ∧
      old.code = sw.code ∧ (sw.stage.IsUnstored ↔ old.stage.IsUnstored) ∧
      (sw.stage = .writing → old.stage = .writing) := fun hs => by
    obtain ⟨old, hold, hcode, hsame | ⟨hiff, hne⟩⟩ := hm _ _ hs
    · exact ⟨old, hold, hcode, by rw [hsame], fun hst => hsame ▸ hst⟩
    · exact ⟨old, hold, hcode, hiff.symm, fun hst => absurd hst hne⟩
  constructor
  · rw [hgeneration]; exact h.first_le
  · intro g code hmem
    rw [hwritten] at hmem
    obtain ⟨hfirst, hle, hcode⟩ := h.written g code hmem
    refine ⟨hfirst, hgeneration ▸ hle, fun sw hs => ?_⟩
    obtain ⟨old, hold, hsame, -⟩ := hunstored hs
    rw [← hsame]; exact hcode old hold
  · intro g sw hs hst
    obtain ⟨old, hold, -, hiff, -⟩ := hunstored hs
    exact h.later g old hold (hiff.1 hst)
  · intro g sw hs hst hlt hrem
    obtain ⟨old, hold, -, hiff, -⟩ := hunstored hs
    rw [hpersisted]
    exact h.past g old hold (fun hun => hst (hiff.2 hun)) hlt (hremembers ▸ hrem)
  · intro g sw hs hst
    obtain ⟨old, hold, -, -, hwriting⟩ := hunstored hs
    rw [hpersisted]
    exact h.writing g old hold (hwriting hst)

theorem Stored.congr (h : s.Stored first) (hswitches : t.switches = s.switches)
    (hgeneration : t.generation = s.generation) (hwritten : t.written = s.written)
    (hremembers : t.remembers = s.remembers) : t.Stored first := by
  have hm : s.Moved (fun a b => (a.IsUnstored ↔ b.IsUnstored) ∧ b ≠ .writing) t := by
    intro g sw hs
    exact ⟨sw, switch?_congr hswitches ▸ hs, rfl, .inl rfl⟩
  exact h.moved hm hwritten hgeneration hremembers

theorem Stored.setStage (h : s.Stored first) (hs : s.At g code last)
    (hlater : stage.IsUnstored → last.IsUnstored)
    (hpast : ¬ stage.IsUnstored → first < g → s.remembers = true → g ≤ s.persisted)
    (hwriting : stage = .writing → s.persisted < g) : (s.setStage g stage).Stored first where
  first_le := h.first_le
  written x code hmem := by
    obtain ⟨hfirst, hle, hcode⟩ := h.written x code hmem
    refine ⟨hfirst, hle, fun sw hx => ?_⟩
    obtain ⟨old, hold, hsame, -⟩ := of_switch?_setStage hx
    rw [← hsame]; exact hcode old hold
  later x sw hx hst := by
    obtain ⟨old, hold, -, hsame | ⟨rfl, hnew⟩⟩ := of_switch?_setStage hx
    · exact h.later x old hold (hsame ▸ hst)
    · exact h.later x _ hs (hlater (hnew ▸ hst))
  past x sw hx hst hlt hrem := by
    obtain ⟨old, hold, -, hsame | ⟨rfl, hnew⟩⟩ := of_switch?_setStage hx
    · exact h.past x old hold (hsame ▸ hst) hlt hrem
    · exact hpast (hnew ▸ hst) hlt hrem
  writing x sw hx hst := by
    obtain ⟨old, hold, -, hsame | ⟨rfl, hnew⟩⟩ := of_switch?_setStage hx
    · exact h.writing x old hold (hsame ▸ hst)
    · exact hwriting (hnew.symm.trans hst)

theorem Stored.advance (h : s.Stored first) (hs : s.At g code last) (hlast : ¬ last.IsUnstored)
    (hstage : ¬ stage.IsUnstored) : (s.setStage g stage).Stored first :=
  h.setStage hs (fun hun => absurd hun hstage) (fun _ hlt hrem => h.past g _ hs hlast hlt hrem)
    (fun e => absurd (e ▸ trivial) hstage)

theorem persisted_append (s : Session L) (g : Nat) (code : String) :
    { s with written := s.written ++ [(g, code)] }.persisted = g := by
  unfold persisted
  rw [List.getLast?_concat]
  rfl

theorem Stored.record (h : s.Stored first) (hn : s.Numbered) (hs : s.At g code .writing)
    (honly : ∀ x sw, s.switch? x = some sw → sw.stage = .writing → x = g) :
    ({ s with written := s.written ++ [(g, code)] }.setStage g .resolving).Stored first := by
  let m := { s with written := s.written ++ [(g, code)] }
  have hpersisted : (m.setStage g .resolving).persisted = g := persisted_append s g code
  have hlater : first < g := h.later g _ hs trivial
  have hnewer : s.persisted < g := h.writing g _ hs rfl
  have hback : ∀ {x sw}, (m.setStage g .resolving).switch? x = some sw →
      ∃ old, s.switch? x = some old ∧ old.code = sw.code ∧
        (sw.stage = old.stage ∨ x = g ∧ sw.stage = .resolving) := fun hx =>
    of_switch?_setStage hx
  constructor
  · exact h.first_le
  · intro x c hmem
    have hmem : (x, c) ∈ s.written ++ [(g, code)] := hmem
    rcases List.mem_append.1 hmem with hmem | hmem
    · obtain ⟨hfirst, hle, hcode⟩ := h.written x c hmem
      refine ⟨hfirst, hle, fun sw hx => ?_⟩
      obtain ⟨old, hold, hsame, -⟩ := hback hx
      rw [← hsame]; exact hcode old hold
    · obtain ⟨rfl, rfl⟩ := Prod.mk.inj (List.mem_singleton.1 hmem)
      refine ⟨hlater, (hn.exists_iff.1 ⟨_, hs⟩).2, fun sw hx => ?_⟩
      obtain ⟨old, hold, hsame, -⟩ := hback hx
      obtain rfl := Option.some.inj (hs.symm.trans hold)
      exact hsame.symm
  · intro x sw hx hst
    obtain ⟨old, hold, -, hsame | ⟨rfl, hnew⟩⟩ := hback hx
    · exact h.later x old hold (hsame ▸ hst)
    · exact hlater
  · intro x sw hx hst hlt hrem
    rw [hpersisted]
    obtain ⟨old, hold, -, hsame | ⟨rfl, -⟩⟩ := hback hx
    · have := h.past x old hold (hsame ▸ hst) hlt hrem
      omega
    · exact Nat.le_refl _
  · intro x sw hx hst
    obtain ⟨old, hold, -, hsame | ⟨rfl, hnew⟩⟩ := hback hx
    · obtain rfl := honly x old hold (hsame ▸ hst)
      obtain rfl := Option.some.inj (hs.symm.trans hold)
      have hself := switch?_setStage_self (s := m) hs .resolving
      rw [hself] at hx
      obtain rfl := Option.some.inj hx
      cases hst
    · rw [hnew] at hst; cases hst

/-! ## Acts -/

theorem Stored.passLock (h : s.Stored first) (ho : s.Orderly) : s.passLock.Stored first :=
  h.moved (ho.moved_passLock ⟨Iff.rfl, nofun⟩) rfl rfl rfl

/-- The switch that writes holds the lock, so there is no other one. -/
theorem Orderly.eq_of_writing (h : s.Orderly) (hs : s.At g code .writing) {x : Nat} {sw : Switch}
    (hx : s.switch? x = some sw) (hst : sw.stage = .writing) : x = g := by
  have hrole : s.lockRole g = .holding := lockRole_of hs
  have hother : s.lockRole x = .holding :=
    (roleBy_of hx).trans (by rw [hst]; rfl)
  have hg := (h.lock.holder g).2 hrole
  rw [(h.lock.holder x).2 hother] at hg
  exact Option.some.inj hg

theorem Quiet.stored (hq : Quiet g code answer s t) (ho : s.Orderly) (h : s.Stored first)
    (hnever : answer ≠ .stored false) : t.Stored first := by
  have hmissed : ∀ cell, (s.miss code cell).Stored first := fun _ => h.congr rfl rfl rfl rfl
  cases hq with
  | skipStore hs hrem =>
    exact h.setStage hs (fun _ => trivial) (fun _ _ hrem' => by rw [hrem] at hrem'; cases hrem')
      nofun
  | takeLock hs _ _ =>
    have hasked : { s with lock := (s.lock.ask g).1 }.Stored first := h.congr rfl rfl rfl rfl
    exact hasked.setStage hs (fun _ => trivial) (fun hnot => absurd trivial hnot) nofun
  | joinLock hs _ _ =>
    have hasked : { s with lock := (s.lock.ask g).1 }.Stored first := h.congr rfl rfl rfl rfl
    exact hasked.setStage hs (fun _ => trivial) (fun hnot => absurd trivial hnot) nofun
  | startWrite hs hnew =>
    exact h.setStage hs (fun _ => trivial) (fun hnot => absurd trivial hnot) (fun _ => hnew)
  | skipWrite hs hle =>
    exact (h.passLock ho).setStage (ho.passLock_at hs rfl) (fun _ => trivial)
      (fun _ _ _ => hle) nofun
  | endWrite hs _ =>
    -- Passing the lock on does not depend on what was written, so it may come first.
    have hpassed := h.passLock ho
    refine hpassed.record (Numbered.wakeAll (s := { s with lock := _ }) ho.numbered)
      (ho.passLock_at hs rfl) fun x sw hx hst => ?_
    have hmoved : s.Moved (fun _ b => b ≠ .writing) s.passLock := ho.moved_passLock nofun
    obtain ⟨old, hold, -, hsame | hne⟩ := hmoved x sw hx
    · exact ho.eq_of_writing hs hold (hsame ▸ hst)
    · exact absurd hst hne
  | failWrite _ hanswer => exact absurd hanswer hnever
  | takeTurn hs _ _ _ => exact (hmissed _).advance hs id id
  | joinTurn hs _ _ _ => exact (hmissed _).advance hs id id
  | call hs _ _ =>
    have hcounted : { s with metrics := s.metrics.call }.Stored first := h.congr rfl rfl rfl rfl
    exact hcounted.advance hs id id

theorem Finds.stored {found : Session L} {direction : Direction} {content : Json}
    {fallback fresh : Bool} (hf : Finds g code answer s found direction content fallback fresh)
    (ho : s.Orderly) (h : s.Stored first) : found.Stored first := by
  have hwritten : found.written = s.written := by cases hf <;> rfl
  have hk := (hf.offers ho).1
  exact h.moved (hf.moved ho ⟨Iff.rfl, nofun⟩ ⟨Iff.rfl, nofun⟩) hwritten hk.generation hk.remembers

theorem Lands.stored (hl : Lands g code answer s t) (ho : s.Orderly) (h : s.Stored first) :
    t.Stored first := by
  cases hl with
  | @shown found direction content fallback fresh snapshot hf _ _ =>
    obtain ⟨last, hat, hseeks⟩ := hf.exists_seeks ho
    have hpublished : { found.publish snapshot with
        applied := found.applied ++ [(code, direction)] }.Stored first :=
      (hf.stored ho h).congr rfl rfl rfl rfl
    exact hpublished.advance hat hseeks.not_isUnstored (by cases fresh <;> exact id)
  | @overtaken found direction content fallback fresh hf _ =>
    obtain ⟨last, hat, hseeks⟩ := hf.exists_seeks ho
    have hcounted : { found with metrics := found.metrics.discard }.Stored first :=
      (hf.stored ho h).congr rfl rfl rfl rfl
    exact hcounted.advance hat hseeks.not_isUnstored id
  | settled hs _ =>
    have hpublished : (s.publish { s.snapshot with ready := true }).Stored first :=
      h.congr rfl rfl rfl rfl
    exact hpublished.advance hs id id
  | faded hs _ =>
    have hcounted : { s with metrics := s.metrics.discard }.Stored first := h.congr rfl rfl rfl rfl
    exact hcounted.advance hs id id

theorem Stored.accept (h : s.Stored first) (hn : s.Numbered) : (s.accept code).Stored first where
  first_le := Nat.le_succ_of_le h.first_le
  written g c hmem := by
    obtain ⟨hfirst, hle, hcode⟩ := h.written g c hmem
    refine ⟨hfirst, Nat.le_succ_of_le hle, fun sw hs => ?_⟩
    rw [hn.switch?_accept, if_neg (by omega)] at hs
    exact hcode sw hs
  later g sw hs hst := by
    have := h.first_le
    rw [hn.switch?_accept] at hs
    split at hs
    · omega
    · exact h.later g sw hs hst
  past g sw hs hst hlt hrem := by
    rw [hn.switch?_accept] at hs
    split at hs
    · obtain rfl := Option.some.inj hs
      exact absurd trivial hst
    · exact h.past g sw hs hst hlt hrem
  writing g sw hs hst := by
    rw [hn.switch?_accept] at hs
    split at hs
    · obtain rfl := Option.some.inj hs
      cases hst
    · exact h.writing g sw hs hst

/-! ## The end -/

/-- What was written last, when every switch has ended, is the newest request. -/
theorem Stored.getLast?_written (h : s.Stored first) (hquiet : s.Quiescent)
    (hrem : s.remembers = true) (hlt : first < s.generation) {sw : Switch}
    (hs : s.switch? s.generation = some sw) :
    s.written.getLast? = some (s.generation, sw.code) := by
  have hended := hquiet sw (List.mem_of_find?_eq_some hs)
  have hle := h.past _ sw hs hended.not_isUnstored hlt hrem
  cases hlast : s.written.getLast? with
  | none =>
    have hzero : s.persisted = 0 := by unfold persisted; rw [hlast]; rfl
    omega
  | some entry =>
    obtain ⟨g, code⟩ := entry
    have hpersisted : s.persisted = g := by unfold persisted; rw [hlast]; rfl
    obtain ⟨-, hge, hcode⟩ := h.written g code (List.mem_of_getLast? hlast)
    obtain rfl : g = s.generation := by omega
    rw [hcode sw hs]

theorem Stored.written_eq_nil (h : s.Stored first) (hnone : s.generation = first) :
    s.written = [] := by
  refine List.eq_nil_iff_forall_not_mem.2 fun entry hmem => ?_
  obtain ⟨g, code⟩ := entry
  obtain ⟨hlt, hle, -⟩ := h.written g code hmem
  omega

end Session

end Phrasebook
