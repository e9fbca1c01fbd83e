import Phrasebook.Proofs.Session.Moves

/-!
# No session gets stuck

Whenever a session is not settled, the switch of its newest request is still on its way. And some
switch can always go on: whoever waits for the lock or for a loader waits for another switch that
can. Each run lowers what is left to do, so a session that gets its answers and no more requests
comes to rest.
-/

namespace Phrasebook

variable {L : Type}

namespace Stage

/-- A bound on how often a switch at this stage moves on. -/
def rank : Stage → Nat
  | .accepted => 9
  | .awaitingLock => 8
  | .holdingLock => 7
  | .writing => 6
  | .resolving => 5
  | .awaitingLoad => 4
  | .holdingTurn => 3
  | .served | .loading => 2
  | .fading => 1
  | .ended _ => 0

abbrev Descends (a b : Stage) : Prop := b.rank < a.rank

/-- There is an answer with which the switch goes on. -/
def CanRun (stage : Stage) : Prop := ∃ answer, stage.Takes answer

theorem IsOpen.two_le_rank {stage : Stage} (h : stage.IsOpen) : 2 ≤ stage.rank := by
  cases stage <;> first | exact absurd h id | decide

/-- A switch that can not go on waits for another one, or has ended. -/
theorem canRun_or (stage : Stage) :
    stage.CanRun ∨ stage = .awaitingLock ∨ stage = .awaitingLoad ∨ stage.HasEnded := by
  cases stage with
  | awaitingLock => exact .inr (.inl rfl)
  | awaitingLoad => exact .inr (.inr (.inl rfl))
  | ended result => exact .inr (.inr (.inr trivial))
  | writing => exact .inl ⟨_, .writing true⟩
  | loading => exact .inl ⟨_, .loading (.ok .null)⟩
  | _ => exact .inl ⟨.proceed, by constructor⟩

end Stage

theorem Snapshot.requested_of_isSettled {snapshot : Snapshot} (h : snapshot.isSettled = true) :
    snapshot.requested = snapshot.language := by
  unfold Snapshot.requested
  rw [(Snapshot.isSettled_iff.1 h).2]
  rfl

namespace Session

/-- Every switch has ended. -/
def Quiescent (s : Session L) : Prop := ∀ sw ∈ s.switches, sw.stage.HasEnded

variable {s t m : Session L} {g : Nat} {code initial : String} {answer : Answer}
  {stage last : Stage} {language : Language L} {config : Configuration L} {locked : Option String}

/-! ## Some switch can go on -/

/-- The lock that somebody waits for is held by a switch that can go on. -/
theorem Orderly.canRun_of_awaitingLock (h : s.Orderly) (hs : s.At g code .awaitingLock) :
    ∃ g code stage, s.At g code stage ∧ stage.CanRun := by
  have hwaits : g ∈ s.lock.waiting := (h.lock.waiting g).2 (lockRole_of hs)
  cases hholder : s.lock.holder with
  | none => rw [h.lock.busy hholder] at hwaits; cases hwaits
  | some holder =>
    obtain ⟨c, stage, hat, rfl | rfl⟩ := h.lock_holder hholder
    · exact ⟨holder, c, _, hat, _, .holdingLock⟩
    · exact ⟨holder, c, _, hat, _, .writing true⟩

/-- The loader that somebody waits for is called by a switch that can go on. -/
theorem Orderly.canRun_of_awaitingLoad (h : s.Orderly) (hs : s.At g code .awaitingLoad) :
    ∃ g code stage, s.At g code stage ∧ stage.CanRun := by
  obtain ⟨language, hl⟩ := h.registered g _ hs
  have hturn := (h.tended code language hl).turn
  have hwaits : g ∈ language.cell.turn.waiting := (hturn.waiting g).2 (loadRole_of hs)
  cases hholder : language.cell.turn.holder with
  | none => rw [hturn.busy hholder] at hwaits; cases hwaits
  | some holder =>
    obtain ⟨stage, hat, rfl | rfl⟩ := h.turn_holder hl hholder
    · exact ⟨holder, code, _, hat, _, .holdingTurn⟩
    · exact ⟨holder, code, _, hat, _, .loading (.ok .null)⟩

/-- As long as a switch has not ended, some switch can go on. -/
theorem Orderly.exists_canRun (h : s.Orderly) (hlive : ¬ s.Quiescent) :
    ∃ g code stage, s.At g code stage ∧ stage.CanRun := by
  obtain ⟨⟨code, g, stage⟩, hmem, hnot⟩ : ∃ sw ∈ s.switches, ¬ sw.stage.HasEnded := by
    simpa [Quiescent] using hlive
  have hs : s.At g code stage := h.numbered.mem_iff.1 hmem
  rcases stage.canRun_or with hrun | rfl | rfl | hended
  · exact ⟨g, code, stage, hs, hrun⟩
  · exact h.canRun_of_awaitingLock hs
  · exact h.canRun_of_awaitingLoad hs
  · exact absurd hended hnot

/-! ## What is left to do -/

def rankAt (s : Session L) (g : Nat) : Nat := ((s.switch? g).map (·.stage.rank)).getD 0

/-- What `f` gives for the generations up to `n`, together. -/
def totalUpTo (f : Nat → Nat) : Nat → Nat
  | 0 => 0
  | n + 1 => totalUpTo f n + f (n + 1)

/-- A bound on how often the switches move on. -/
def work (s : Session L) : Nat := totalUpTo s.rankAt s.generation

theorem totalUpTo_le {f f' : Nat → Nat} (hle : ∀ g, f g ≤ f' g) (n : Nat) :
    totalUpTo f n ≤ totalUpTo f' n := by
  induction n with
  | zero => exact Nat.le_refl _
  | succ n ih => exact Nat.add_le_add ih (hle (n + 1))

theorem totalUpTo_lt {f f' : Nat → Nat} (hle : ∀ g, f g ≤ f' g) (hlt : f g < f' g) (hpos : 0 < g)
    {n : Nat} (hn : g ≤ n) : totalUpTo f n < totalUpTo f' n := by
  induction n with
  | zero => omega
  | succ n ih =>
    unfold totalUpTo
    have hlast := hle (n + 1)
    rcases Nat.lt_or_eq_of_le hn with hbelow | rfl
    · have := ih (by omega)
      omega
    · have := totalUpTo_le hle n
      omega

theorem rankAt_of (hs : s.At g code stage) : s.rankAt g = stage.rank := by
  unfold rankAt; rw [hs]; rfl

theorem Moved.rankAt_le (h : s.Moved Stage.Descends t) (g : Nat) : t.rankAt g ≤ s.rankAt g := by
  unfold rankAt
  cases ht : t.switch? g with
  | none => exact Nat.zero_le _
  | some sw =>
    obtain ⟨old, hold, -, hstage⟩ := h g sw ht
    rw [hold]
    show sw.stage.rank ≤ old.stage.rank
    rcases hstage with hsame | hdown
    · exact Nat.le_of_eq (congrArg Stage.rank hsame)
    · exact Nat.le_of_lt hdown

/-- When a switch moves down there is less to do, if no other one moves up. -/
theorem Moved.work_lt (h : s.Moved Stage.Descends m) (hgeneration : m.generation = s.generation)
    (ho : s.Orderly) (hat : m.At g code last) (hdown : stage.rank < last.rank) :
    (m.setStage g stage).work < s.work := by
  obtain ⟨old, hold, -, hstage⟩ := h g _ hat
  have hle : last.rank ≤ old.stage.rank := by
    rcases hstage with hsame | hlt
    · exact Nat.le_of_eq (congrArg Stage.rank hsame)
    · exact Nat.le_of_lt hlt
  have hmoved : s.Moved Stage.Descends (m.setStage g stage) :=
    h.trans (fun _ _ _ hab hbc => Nat.lt_trans hbc hab) (.setStage hat hdown)
  obtain ⟨hpos, hg⟩ := ho.numbered.exists_iff.1 ⟨old, hold⟩
  have hrank : s.rankAt g = old.stage.rank := by unfold rankAt; rw [hold]; rfl
  show totalUpTo (m.setStage g stage).rankAt m.generation < totalUpTo s.rankAt s.generation
  rw [hgeneration]
  refine totalUpTo_lt hmoved.rankAt_le ?_ hpos hg
  rw [rankAt_of (at_setStage hat stage), hrank]
  omega

theorem Quiet.work_lt (hq : Quiet g code answer s t) (h : s.Orderly) : t.work < s.work := by
  have hself : s.Moved Stage.Descends s := .refl _ s
  have hlock : s.Moved Stage.Descends s.passLock := h.moved_passLock (by decide)
  cases hq with
  | skipStore hs _ => exact hself.work_lt rfl h hs (by decide)
  | takeLock hs _ _ => exact hself.work_lt rfl h hs (by decide)
  | joinLock hs _ _ => exact hself.work_lt rfl h hs (by decide)
  | startWrite hs _ => exact hself.work_lt rfl h hs (by decide)
  | skipWrite hs _ => exact hlock.work_lt rfl h (h.passLock_at hs rfl) (by decide)
  | endWrite hs _ => exact hlock.work_lt rfl h (h.passLock_at hs rfl) (by decide)
  | failWrite hs _ => exact hlock.work_lt rfl h (h.passLock_at hs rfl) (by decide)
  | takeTurn hs _ _ _ => exact hself.work_lt rfl h hs (by decide)
  | joinTurn hs _ _ _ => exact hself.work_lt rfl h hs (by decide)
  | call hs _ _ => exact hself.work_lt rfl h hs (by decide)

theorem landing_rank_le : ∀ fallback fresh, (landing fallback fresh).rank ≤ 1 := by decide

theorem Lands.work_lt (hl : Lands g code answer s t) (h : s.Orderly) : t.work < s.work := by
  have hself : s.Moved Stage.Descends s := .refl _ s
  cases hl with
  | @shown found direction content fallback fresh snapshot hf hcur hview =>
    obtain ⟨last, hat, hseeks⟩ := hf.exists_seeks h
    have hmoved : s.Moved Stage.Descends found := hf.moved h (by decide) (by decide)
    have hrank : (landing fallback fresh).rank < last.rank := by
      have := hseeks.isOpen.two_le_rank
      have := landing_rank_le fallback fresh
      omega
    exact hmoved.work_lt (hf.offers h).1.generation h hat hrank
  | @overtaken found direction content fallback fresh hf _ =>
    obtain ⟨last, hat, hseeks⟩ := hf.exists_seeks h
    have hmoved : s.Moved Stage.Descends found := hf.moved h (by decide) (by decide)
    have hrank : 0 < last.rank := by
      have := hseeks.isOpen.two_le_rank
      omega
    exact hmoved.work_lt (hf.offers h).1.generation h hat hrank
  | settled hs _ => exact hself.work_lt rfl h hs (by decide)
  | faded hs _ => exact hself.work_lt rfl h hs (by decide)

/-- Each run leaves less to do. -/
theorem Orderly.resume_work_lt (h : s.Orderly) (hr : s.resume g answer = some t) :
    t.work < s.work := by
  obtain ⟨code, stage, -, -, hgo⟩ := resume_goes h.numbered (h.registered g) hr
  have hcalm : s.calm.Orderly := h.congr rfl rfl rfl rfl
  have hwork : s.calm.work = s.work := rfl
  rw [← hwork]
  have hquiets : ∀ {m : Session L}, Relation.ReflTransGen (Quiet g code answer) s.calm m →
      m.work ≤ s.calm.work := fun hrun => by
    induction hrun with
    | refl => exact Nat.le_refl _
    | tail hm hq ih =>
      have := hq.work_lt (keeps_of_quiets hm hcalm).2
      omega
  rcases hgo with hrun | ⟨m, hrun, hland⟩
  · obtain ⟨m, hrun, hq⟩ := Relation.TransGen.tail'_iff.1 hrun
    have := hq.work_lt (keeps_of_quiets hrun hcalm).2
    have := hquiets hrun
    omega
  · have := hland.work_lt (keeps_of_quiets hrun hcalm).2
    have := hquiets hrun
    omega

/-- Whatever the world answers, a session can be served until every switch has ended. -/
theorem Orderly.exists_quiescent (reply : Session L → Nat → Answer)
    (hreply : ∀ (s : Session L) (g : Nat) (code : String) (stage : Stage), s.Orderly →
      s.At g code stage → stage.CanRun → stage.Takes (reply s g)) (h : s.Orderly) :
    ∃ schedule, (s.after schedule).Quiescent ∧
      ∀ transition ∈ s.history schedule,
        ∃ g, transition.event = .resume g (reply transition.before g) := by
  -- The work that is left falls with each answer, as long as some switch can take one.
  induction hwork : s.work using Nat.strongRecOn generalizing s with
  | ind n ih =>
    by_cases hquiet : s.Quiescent
    · exact ⟨[], hquiet, fun _ hmem => absurd hmem List.not_mem_nil⟩
    · obtain ⟨g, code, stage, hat, hrun⟩ := h.exists_canRun hquiet
      obtain ⟨t, ht⟩ := Option.isSome_iff_exists.1
        ((resume_isSome_iff s g (reply s g)).2 ⟨code, stage, hat, hreply s g code stage h hat hrun⟩)
      have hnext : s.next (.resume g (reply s g)) = t := by
        show (s.resume g _).getD s = t
        rw [ht]; rfl
      have hlt : t.work < n := hwork ▸ h.resume_work_lt ht
      obtain ⟨schedule, hend, hsteps⟩ := ih t.work hlt (h.resume ht) rfl
      refine ⟨.resume g (reply s g) :: schedule, ?_, ?_⟩
      · show ((s.next _).after schedule).Quiescent
        rw [hnext]; exact hend
      · intro transition hmem
        rcases List.mem_cons.1 hmem with rfl | hmem
        · exact ⟨g, rfl⟩
        · rw [hnext] at hmem; exact hsteps transition hmem

/-! ## The newest switch -/

theorem Phased.of_current_ended (h : s.Phased initial) {sw : Switch}
    (hs : s.switch? s.generation = some sw) (hended : sw.stage.HasEnded) :
    s.snapshot.isSettled = true ∧ s.snapshot.language = sw.code ∧
      (sw.stage = .ended (.ok .applied) ∨ sw.stage = .ended (.ok .fellBack)) := by
  have hshows := h.current sw hs
  cases hst : sw.stage with
  | ended result =>
    rw [hst] at hshows
    rcases result with _ | _ | _ | _
    · exact absurd hshows id
    · obtain ⟨hpending, hlanguage, hready, -⟩ := hshows
      exact ⟨Snapshot.isSettled_iff.2 ⟨hready, hpending⟩, hlanguage, .inl rfl⟩
    · obtain ⟨hpending, hlanguage, hready, -⟩ := hshows
      exact ⟨Snapshot.isSettled_iff.2 ⟨hready, hpending⟩, hlanguage, .inr rfl⟩
    · exact absurd hshows id
  | _ => rw [hst] at hended; exact absurd hended id

/-- When no switch is left unfinished, the session has settled. -/
theorem Phased.isSettled_of_quiescent (h : s.Phased initial) (hn : s.Numbered)
    (hquiet : s.Quiescent) : s.snapshot.isSettled = true := by
  by_cases hzero : s.generation = 0
  · exact (h.untouched hzero).1
  · obtain ⟨sw, hs⟩ := hn.exists_current hzero
    exact (h.of_current_ended hs (hquiet sw (List.mem_of_find?_eq_some hs))).1

/-- A session that is not stuck, where `requested` was asked for last. -/
structure Live (requested : String) (s : Session L) : Prop where
  registered : ∀ sw ∈ s.switches, s.registry.contains sw.code = true
  viewed : ∀ code direction content fallback ready, ∃ snapshot,
    view s.default.schema s.mode code direction content fallback ready = .ok snapshot
  /-- No switch ends with an error. -/
  ended : ∀ g result, s.result? g = some result → ∃ outcome, result = .ok outcome
  /-- Some switch can go on as long as one has not ended. -/
  running : ¬ s.Quiescent → ∃ g answer, (s.resume g answer).isSome
  /-- When no switch is left unfinished, the session has settled in what was requested. -/
  settled : s.Quiescent → s.snapshot.isSettled = true ∧ s.snapshot.language = requested ∧
    (s.generation ≠ 0 → s.result? s.generation = some (.ok .applied) ∨
      s.result? s.generation = some (.ok .fellBack))
  /-- While the session is not settled, the newest switch is unfinished. -/
  unsettled : s.snapshot.isSettled = false →
    ∃ sw ∈ s.switches, sw.generation = s.generation ∧ ¬ sw.stage.HasEnded

theorem result?_of {sw : Switch} {result : Except Fault Outcome} (hs : s.switch? g = some sw)
    (hst : sw.stage = .ended result) : s.result? g = some result := by
  obtain ⟨code, generation, stage⟩ := sw
  obtain rfl : stage = .ended result := hst
  unfold result?
  rw [hs]

/-- **No session gets stuck.** -/
theorem live_of_start {around : Surroundings} (h : (around.start config locked).1 = .ok s)
    (schedule : List Event) :
    Live ((newest Transition.accepted? (s.history schedule)).getD (around.initial config locked).1)
      (s.after schedule) := by
  obtain ⟨hopens, -⟩ := Surroundings.opens_of_start h
  have htraced := hopens.traced_after schedule
  have hrequested := htraced.requested
  generalize (newest Transition.accepted? (s.history schedule)).getD _ = requested at hrequested ⊢
  obtain ⟨ho, hp, -, -⟩ := htraced
  generalize s.after schedule = t at ho hp hrequested
  constructor
  · intro sw hmem
    exact Registry.contains_iff.2 (ho.registered sw.generation sw (ho.numbered.mem_iff.1 hmem))
  · exact exists_view _ _
  · intro g result hresult
    unfold result? at hresult
    split at hresult
    · next hs =>
      obtain rfl := Option.some.inj hresult
      exact hp.ended g _ _ hs rfl
    · cases hresult
  · intro hlive
    obtain ⟨g, code, stage, hat, answer, htakes⟩ := ho.exists_canRun hlive
    exact ⟨g, answer, (resume_isSome_iff t g answer).2 ⟨code, stage, hat, htakes⟩⟩
  · intro hquiet
    have hlanguage : t.snapshot.isSettled = true → t.snapshot.language = requested :=
      fun hsettled => by rw [← hrequested, Snapshot.requested_of_isSettled hsettled]
    by_cases hzero : t.generation = 0
    · have hsettled := (hp.untouched hzero).1
      exact ⟨hsettled, hlanguage hsettled, fun hne => absurd hzero hne⟩
    · obtain ⟨sw, hs⟩ := ho.numbered.exists_current hzero
      obtain ⟨hsettled, -, hend⟩ :=
        hp.of_current_ended hs (hquiet sw (List.mem_of_find?_eq_some hs))
      exact ⟨hsettled, hlanguage hsettled, fun _ =>
        hend.imp (fun hst => result?_of hs hst) (fun hst => result?_of hs hst)⟩
  · intro hunsettled
    have hzero : t.generation ≠ 0 := fun hzero => by
      rw [(hp.untouched hzero).1] at hunsettled; cases hunsettled
    obtain ⟨sw, hs⟩ := ho.numbered.exists_current hzero
    refine ⟨sw, List.mem_of_find?_eq_some hs, generation_of_switch? hs, fun hended => ?_⟩
    rw [(hp.of_current_ended hs hended).1] at hunsettled
    cases hunsettled

theorem live_of_start_bilingual :
    ∃ s, ((Surroundings.remembering none).start Configuration.bilingual none).1 = .ok s ∧
      Live ((newest Transition.accepted? (s.history detour)).getD "en") (s.after detour) := by
  have hstart : ((Surroundings.remembering none).start Configuration.bilingual none).1
      = .ok _ := rfl
  exact ⟨_, hstart, live_of_start hstart _⟩

end Session

end Phrasebook
