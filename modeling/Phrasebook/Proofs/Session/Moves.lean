import Phrasebook.Proofs.Session.Steps

/-!
# What a session publishes

A session publishes by one of three moves: a request begins to load, the newest switch resolves it,
and a session that faded in becomes ready. `Phased` ties the stage of the newest switch to the
snapshot; that older switches have no part in it is what makes the newest request win.
-/

namespace Phrasebook

variable {L : Type}

/-- A way to get from one published snapshot to the next. -/
inductive Move where
  | begins (code : String)
  | resolves (code : String)
  | readies
  deriving DecidableEq, Repr

/-- The snapshots that a move leads from and to. -/
def Move.Relates (before after : Snapshot) : Move → Prop
  | .begins code => after = { before with ready := false, pending := some code }
  | .resolves code => before.pending = some code ∧ after.language = code ∧ after.pending = none
  | .readies => before.ready = false ∧ before.pending = none ∧ after = { before with ready := true }

theorem Move.eq_of_relates {before after : Snapshot} {move other : Move}
    (h : move.Relates before after) (h' : other.Relates before after) : move = other := by
  cases move <;> cases other <;> simp only [Relates] at h h'
  case begins.begins => subst h; simpa using h'
  case resolves.resolves => rw [h.1] at h'; exact congrArg _ (Option.some.inj h'.1)
  case readies.readies => rfl
  all_goals simp_all

namespace Transition

/-- The request that a transition accepts. -/
def accepted? (transition : Transition L) : Option String :=
  match transition.event with
  | .request code =>
    match (transition.before.request code).2 with
    | .accepted _ => some code
    | _ => none
  | .resume _ _ => none

/-- The switch that resolves the pending language in a transition. -/
def resolver? (transition : Transition L) : Option Nat :=
  match transition.event, transition.before.snapshot.pending, transition.after.snapshot.pending with
  | .resume generation _, some _, none => some generation
  | _, _, _ => none

def IsSilent (transition : Transition L) : Prop :=
  transition.after.snapshot = transition.before.snapshot ∧
    transition.after.revision = transition.before.revision

end Transition

/-- The newest of what the transitions of a history stand for. -/
def newest {α : Type} (f : Transition L → Option α) (history : List (Transition L)) : Option α :=
  (history.filterMap f).getLast?

theorem filterMap_snoc {α β : Type} (f : α → Option β) (l : List α) (a : α) :
    (l ++ [a]).filterMap f = l.filterMap f ++ (f a).toList := by
  rw [List.filterMap_append]
  cases h : f a <;> simp [h]

theorem newest_snoc {α : Type} (f : Transition L → Option α) (history : List (Transition L))
    (transition : Transition L) :
    newest f (history ++ [transition]) = (f transition).or (newest f history) := by
  unfold newest
  rw [filterMap_snoc]
  cases f transition <;> simp

/-- Who may make a move, after the `earlier` transitions: whoever asks for a language, the newest
switch, and the switch that resolved last. -/
def Move.MadeBy (earlier : List (Transition L)) (transition : Transition L) : Move → Prop
  | .begins code => transition.accepted? = some code ∧
      transition.after.generation = transition.before.generation + 1
  | .resolves _ => ∃ answer, transition.event = .resume transition.before.generation answer
  | .readies => ∃ g answer, transition.event = .resume g answer ∧
      newest Transition.resolver? earlier = some g

/-- Nothing is published, or one snapshot that a single move leads to. -/
def Transition.IsLegal (earlier : List (Transition L)) (transition : Transition L) : Prop :=
  transition.IsSilent ∨
    transition.after.revision = transition.before.revision + 1 ∧
      ∃ move : Move, move.Relates transition.before.snapshot transition.after.snapshot ∧
        move.MadeBy earlier transition ∧
        ∀ other : Move, other.Relates transition.before.snapshot transition.after.snapshot →
          other = move

/-! ## Phases -/

/-- What the snapshot shows while the newest switch, which is for `code`, is at this stage. -/
def Stage.Shows (code : String) (snapshot : Snapshot) : Stage → Prop
  | .fading => snapshot.pending = none ∧ snapshot.language = code ∧ snapshot.ready = false ∧
      snapshot.fallback = false
  | .ended (.ok .applied) => snapshot.pending = none ∧ snapshot.language = code ∧
      snapshot.ready = true ∧ snapshot.fallback = false
  | .ended (.ok .fellBack) => snapshot.pending = none ∧ snapshot.language = code ∧
      snapshot.ready = true ∧ snapshot.fallback = true
  | .ended _ => False
  | _ => snapshot.pending = some code ∧ snapshot.ready = false

theorem Snapshot.isSettled_iff {snapshot : Snapshot} :
    snapshot.isSettled = true ↔ snapshot.ready = true ∧ snapshot.pending = none := by
  unfold Snapshot.isSettled
  rw [Bool.and_eq_true, Option.isNone_iff_eq_none]

theorem Stage.IsOpen.shows_iff {stage : Stage} (h : stage.IsOpen) {code : String}
    {snapshot : Snapshot} :
    stage.Shows code snapshot ↔ snapshot.pending = some code ∧ snapshot.ready = false := by
  cases stage <;> first | rfl | exact absurd h id

theorem Stage.Shows.pending_of_ready {stage : Stage} {code : String} {snapshot : Snapshot}
    (h : stage.Shows code snapshot) (hready : snapshot.ready = true) : snapshot.pending = none := by
  by_cases hopen : stage.IsOpen
  · rw [(hopen.shows_iff.1 h).2] at hready
    cases hready
  · cases stage with
    | fading => exact h.1
    | ended result =>
      rcases result with _ | _ | _ | _
      · exact absurd h id
      · exact h.1
      · exact h.1
      · exact absurd h id
    | _ => exact absurd trivial hopen

namespace Session

/-- The stage of the newest switch says what the snapshot shows, and every switch ends well. -/
structure Phased (initial : String) (s : Session L) : Prop where
  current : ∀ sw, s.switch? s.generation = some sw → sw.stage.Shows sw.code s.snapshot
  untouched : s.generation = 0 → s.snapshot.isSettled = true ∧ s.snapshot.language = initial
  ended : ∀ g sw result, s.switch? g = some sw → sw.stage = .ended result →
    ∃ outcome, result = .ok outcome

variable {s t : Session L} {g : Nat} {code initial : String} {event : Event} {stage : Stage}
  {config : Configuration L} {locked : Option String}

theorem view_fields {schema : Schema} {mode : FallbackMode} {direction : Direction}
    {content : Json} {fallback ready : Bool} {snapshot : Snapshot}
    (h : view schema mode code direction content fallback ready = .ok snapshot) :
    snapshot.language = code ∧ snapshot.direction = direction ∧ snapshot.ready = ready ∧
      snapshot.pending = none ∧ snapshot.fallback = fallback ∧
      Strings.build schema.value (some content) "" mode = .ok snapshot.strings ∧
      Lists.build schema.value (some content) "" mode = .ok snapshot.lists := by
  unfold view at h
  cases hstrings : Strings.build schema.value (some content) "" mode with
  | error fault => rw [hstrings] at h; cases h
  | ok strings =>
    cases hlists : Lists.build schema.value (some content) "" mode with
    | error fault => rw [hstrings, hlists] at h; cases h
    | ok lists =>
      rw [hstrings, hlists] at h
      obtain rfl := Except.ok.inj h
      exact ⟨rfl, rfl, rfl, rfl, rfl, rfl, rfl⟩

theorem Opens.phased (h : Opens config locked initial s) : s.Phased initial := by
  constructor
  · intro sw hs
    cases h with
    | there => cases hs
    | absent hl hdata hview =>
      obtain rfl := List.mem_singleton.1 (List.mem_of_find?_eq_some hs)
      exact ⟨rfl, (view_fields hview).2.2.1⟩
  · intro hzero
    cases h with
    | there hl hdata hview =>
      obtain ⟨hlanguage, -, hready, hpending, -⟩ := view_fields hview
      exact ⟨Snapshot.isSettled_iff.2 ⟨hready, hpending⟩, hlanguage⟩
    | absent => cases hzero
  · intro g sw result hs hst
    rw [(h.resolving hs).1] at hst
    cases hst

theorem Keeps.phased (hk : s.Keeps t) (h : s.Phased initial) : t.Phased initial where
  current sw hs := by
    rw [hk.generation] at hs
    obtain ⟨old, hold, hcode, hsame | ⟨hopen, hopen'⟩⟩ := hk.stages _ sw hs
    · rw [hk.snapshot, hsame, ← hcode]; exact h.current old hold
    · rw [hk.snapshot, hopen'.shows_iff, ← hcode, ← hopen.shows_iff]; exact h.current old hold
  untouched := by rw [hk.generation, hk.snapshot]; exact h.untouched
  ended x sw result hs hst := by
    obtain ⟨old, hold, -, hsame | ⟨-, hopen⟩⟩ := hk.stages x sw hs
    · exact h.ended x old result hold (hsame ▸ hst)
    · rw [hst] at hopen; exact absurd hopen id

/-- One switch lands, in a session `t` that has the switches of `s` and another snapshot only if the
switch is the newest. -/
theorem Phased.land (h : s.Phased initial) (hs : s.At g code stage) (hpos : 0 < g) {next : Stage}
    (hswitches : t.switches = s.switches) (hgeneration : t.generation = s.generation)
    (hcur : s.generation = g → next.Shows code t.snapshot)
    (hold : s.generation ≠ g → t.snapshot = s.snapshot)
    (hended : ∀ result, next = .ended result → ∃ outcome, result = .ok outcome) :
    (t.setStage g next).Phased initial := by
  have hswitch := switch?_congr hswitches
  constructor
  · intro sw hx
    have hx : (t.setStage g next).switch? t.generation = some sw := hx
    show sw.stage.Shows sw.code t.snapshot
    rw [hgeneration] at hx
    by_cases e : s.generation = g
    · subst e
      have hs : t.switch? s.generation = some _ := (congrFun hswitch _).trans hs
      rw [switch?_setStage_self hs] at hx
      obtain rfl := Option.some.inj hx
      exact hcur rfl
    · rw [switch?_setStage_of_ne e, hswitch] at hx
      rw [hold e]
      exact h.current sw hx
  · intro hzero
    have hzero : t.generation = 0 := hzero
    rw [hgeneration] at hzero
    show t.snapshot.isSettled = true ∧ t.snapshot.language = initial
    rw [hold (by omega)]
    exact h.untouched hzero
  · intro x sw result hx hst
    obtain ⟨old, hfound, -, hsame | ⟨rfl, hnew⟩⟩ := of_switch?_setStage hx
    · rw [hswitch] at hfound
      exact h.ended x old result hfound (hsame ▸ hst)
    · exact hended result (hnew.symm.trans hst)

theorem Phased.accept (h : s.Phased initial) (hn : s.Numbered) :
    (s.accept code).Phased initial where
  current sw hs := by
    have hs : (s.accept code).switch? (s.generation + 1) = some sw := hs
    rw [hn.switch?_accept, if_pos rfl] at hs
    obtain rfl := Option.some.inj hs
    exact ⟨rfl, rfl⟩
  untouched hzero := absurd hzero (Nat.succ_ne_zero s.generation)
  ended x sw result hs hst := by
    rw [hn.switch?_accept] at hs
    split at hs
    · obtain rfl := Option.some.inj hs
      cases hst
    · exact h.ended x sw result hs hst

theorem landing_shows {schema : Schema} {mode : FallbackMode} {direction : Direction}
    {content : Json} {fallback fresh : Bool} {snapshot : Snapshot}
    (hview : view schema mode code direction content fallback (!fresh) = .ok snapshot)
    (hfresh : fallback = true → fresh = false) :
    (landing fallback fresh).Shows code snapshot := by
  obtain ⟨hlanguage, -, hready, hpending, hfallback, -⟩ := view_fields hview
  cases fresh with
  | true =>
    cases fallback with
    | true => cases hfresh rfl
    | false => exact ⟨hpending, hlanguage, hready, hfallback⟩
  | false => cases fallback <;> exact ⟨hpending, hlanguage, hready, hfallback⟩

theorem landing_ended {fallback fresh : Bool} {result : Except Fault Outcome}
    (h : landing fallback fresh = .ended result) : ∃ outcome, result = .ok outcome := by
  cases fresh <;> cases h
  exact ⟨_, rfl⟩

theorem Numbered.exists_current (h : s.Numbered) (hpos : s.generation ≠ 0) :
    ∃ sw, s.switch? s.generation = some sw :=
  h.exists_iff.2 ⟨by omega, Nat.le_refl _⟩

theorem Phased.pending_of_ready (h : s.Phased initial) (hn : s.Numbered)
    (hready : s.snapshot.ready = true) : s.snapshot.pending = none := by
  by_cases hzero : s.generation = 0
  · exact (Snapshot.isSettled_iff.1 (h.untouched hzero).1).2
  · obtain ⟨sw, hs⟩ := hn.exists_current hzero
    exact (h.current sw hs).pending_of_ready hready

theorem Step.phased (hstep : s.Step event t) (ho : s.Orderly) (h : s.Phased initial) :
    t.Phased initial := by
  have hpos : ∀ {m : Session L} {g code last}, s.Keeps m → m.At g code last → 0 < g :=
    fun hk hat => by
      obtain ⟨old, hold, -⟩ := hk.stages _ _ hat
      exact (ho.numbered.exists_iff.1 ⟨_, hold⟩).1
  cases hstep with
  | refused _ _ => exact h
  | accepted _ _ _ _ => exact h.accept ho.numbered
  | stuck _ => exact h
  | unseen hk => exact hk.phased h
  | @shown found g answer code last direction content fallback fresh snapshot hk hat _ hcur _ hfresh
      hview =>
    exact (hk.phased h).land (t := { found.publish snapshot with applied := _ }) hat (hpos hk hat)
      rfl rfl (fun _ => landing_shows hview hfresh) (fun e => absurd hcur e)
      (fun _ => landing_ended)
  | @overtaken found g answer code last hk hat _ hold =>
    exact (hk.phased h).land (t := { found with metrics := _ }) hat (hpos hk hat) rfl rfl
      (fun e => absurd e hold) (fun _ => rfl) (fun _ e => ⟨_, (Stage.ended.inj e).symm⟩)
  | @settled g answer code hs hcur =>
    have hk := Keeps.calm s
    refine (hk.phased h).land (t := s.calm.publish _) (s := s.calm) hs (hpos hk hs) rfl rfl
      (fun _ => ?_) (fun e => absurd hcur e) (fun _ e => ⟨_, (Stage.ended.inj e).symm⟩)
    obtain ⟨hpending, hlanguage, -, hfallback⟩ := h.current _ (hcur ▸ hs)
    exact ⟨hpending, hlanguage, rfl, hfallback⟩
  | @faded g answer code hs hold =>
    have hk := Keeps.calm s
    exact (hk.phased h).land (t := { s.calm with metrics := _ }) (s := s.calm) hs (hpos hk hs) rfl
      rfl (fun e => absurd e hold) (fun _ => rfl) (fun _ e => ⟨_, (Stage.ended.inj e).symm⟩)

/-! ## Moves -/

/-- The newest switch fades in only what it has resolved itself. -/
def FadesOwn (history : List (Transition L)) (s : Session L) : Prop :=
  ∀ sw, s.switch? s.generation = some sw → sw.stage = .fading →
    newest Transition.resolver? history = some s.generation

theorem Keeps.fading (hk : s.Keeps t) {sw : Switch} (hs : t.switch? t.generation = some sw)
    (hst : sw.stage = .fading) :
    ∃ old, s.switch? s.generation = some old ∧ old.stage = .fading := by
  rw [hk.generation] at hs
  obtain ⟨old, hold, -, hsame | ⟨-, hopen⟩⟩ := hk.stages _ sw hs
  · exact ⟨old, hold, hsame ▸ hst⟩
  · rw [hst] at hopen; exact absurd hopen id

/-- What the newest switch asks for is pending until it publishes. -/
theorem Keeps.pending (hk : s.Keeps t) (hp : s.Phased initial) (hat : t.At g code stage)
    (hopen : stage.IsOpen) (hcur : t.generation = g) : s.snapshot.pending = some code := by
  have hshows := (hk.phased hp).current _ (hcur ▸ hat)
  rw [← hk.snapshot]
  exact (hopen.shows_iff.1 hshows).1

theorem resolver?_of_pending {before after : Session L}
    (hpending : after.snapshot.pending = before.snapshot.pending) :
    Transition.resolver? ⟨before, event, after⟩ = none := by
  unfold Transition.resolver?
  simp only [hpending]
  cases event with
  | request code => rfl
  | resume g answer => cases before.snapshot.pending <;> rfl

theorem resolver?_of_resolved {before after : Session L}
    (hpending : before.snapshot.pending = some code) (hnone : after.snapshot.pending = none)
    (g : Nat) (answer : Answer) :
    Transition.resolver? ⟨before, .resume g answer, after⟩ = some g := by
  unfold Transition.resolver?
  simp only [hpending, hnone]

theorem Step.fadesOwn {history : List (Transition L)} (hstep : s.Step event t)
    (ho : s.Orderly) (hp : s.Phased initial) (h : s.FadesOwn history) :
    t.FadesOwn (history ++ [⟨s, event, t⟩]) := by
  have hsame : t.snapshot.pending = s.snapshot.pending → t.generation = s.generation →
      (∀ sw, t.switch? t.generation = some sw → sw.stage = .fading →
        ∃ old, s.switch? s.generation = some old ∧ old.stage = .fading) →
      t.FadesOwn (history ++ [⟨s, event, t⟩]) := fun hpending hgen hback sw hs hst => by
    rw [newest_snoc, resolver?_of_pending hpending, Option.none_or, hgen]
    obtain ⟨old, hold, hfading⟩ := hback sw hs hst
    exact h old hold hfading
  cases hstep with
  | refused _ _ => exact hsame rfl rfl fun sw hs hst => ⟨sw, hs, hst⟩
  | @accepted code _ _ _ _ =>
    intro sw hs hst
    have hs : (s.accept code).switch? (s.generation + 1) = some sw := hs
    rw [ho.numbered.switch?_accept, if_pos rfl] at hs
    obtain rfl := Option.some.inj hs
    cases hst
  | stuck _ => exact hsame rfl rfl fun sw hs hst => ⟨sw, hs, hst⟩
  | unseen hk =>
    exact hsame (by rw [hk.snapshot]) hk.generation fun sw hs hst => hk.fading hs hst
  | @shown found g answer code last direction content fallback fresh snapshot hk hat hopen hcur _ _
      hview =>
    intro sw hs hst
    have hpending := hk.pending hp hat hopen hcur
    have hnone : (found.present g code direction snapshot (landing fallback fresh)).snapshot.pending
        = none := (view_fields hview).2.2.2.1
    rw [newest_snoc, resolver?_of_resolved hpending hnone]
    exact congrArg some hcur.symm
  | @overtaken found g answer code last hk hat _ hold =>
    refine hsame (by rw [← hk.snapshot]; rfl) hk.generation fun sw hs hst => ?_
    have hs : (found.drop g).switch? found.generation = some sw := hs
    unfold drop at hs
    rw [switch?_setStage_of_ne hold] at hs
    exact hk.fading hs hst
  | @settled g answer code hs hcur =>
    refine hsame rfl rfl fun sw hx hst => ?_
    subst hcur
    exact ⟨_, hs, rfl⟩
  | @faded g answer code hs hold =>
    refine hsame rfl rfl fun sw hx hst => ?_
    have hx : (s.calm.drop g).switch? s.generation = some sw := hx
    unfold drop at hx
    rw [switch?_setStage_of_ne hold] at hx
    exact ⟨sw, hx, hst⟩

/-- An event publishes nothing, or makes one legal move. -/
theorem Step.isLegal {history : List (Transition L)} (hstep : s.Step event t)
    (hp : s.Phased initial) (h : s.FadesOwn history) :
    Transition.IsLegal history ⟨s, event, t⟩ := by
  have hone : ∀ move : Move, t.revision = s.revision + 1 → move.Relates s.snapshot t.snapshot →
      move.MadeBy history ⟨s, event, t⟩ → Transition.IsLegal history ⟨s, event, t⟩ :=
    fun move hrev hrel hmade =>
      .inr ⟨hrev, move, hrel, hmade, fun _ hother => Move.eq_of_relates hother hrel⟩
  cases hstep with
  | refused _ _ => exact .inl ⟨rfl, rfl⟩
  | @accepted code _ _ _ hreply =>
    refine hone (.begins code) rfl rfl ⟨?_, rfl⟩
    simp only [Transition.accepted?, hreply]
  | stuck _ => exact .inl ⟨rfl, rfl⟩
  | unseen hk => exact .inl ⟨hk.snapshot, hk.revision⟩
  | @shown found g answer code last direction content fallback fresh snapshot hk hat hopen hcur _ _
      hview =>
    have hpending := hk.pending hp hat hopen hcur
    obtain ⟨hlanguage, -, -, hnone, -⟩ := view_fields hview
    refine hone (.resolves code) (congrArg (· + 1) hk.revision) ⟨hpending, hlanguage, hnone⟩
      ⟨answer, ?_⟩
    rw [← hcur, hk.generation]
  | overtaken hk _ _ _ => exact .inl ⟨hk.snapshot, hk.revision⟩
  | @settled g answer code hs hcur =>
    subst hcur
    obtain ⟨hpending, -, hready, -⟩ := hp.current _ hs
    exact hone .readies rfl ⟨hready, hpending, rfl⟩ ⟨_, answer, rfl, h _ hs rfl⟩
  | faded _ _ => exact .inl ⟨rfl, rfl⟩

theorem Step.requested (hstep : s.Step event t) (hp : s.Phased initial) :
    t.snapshot.requested =
      (Transition.accepted? ⟨s, event, t⟩).getD s.snapshot.requested := by
  cases hstep with
  | @refused code _ hreply =>
    simp only [Transition.accepted?]
    cases hr : (s.request code).2 with
    | accepted generation => exact absurd hr (hreply generation)
    | _ => rfl
  | @accepted code _ _ _ hreply =>
    simp only [Transition.accepted?, hreply]
    rfl
  | stuck _ => rfl
  | unseen hk => exact congrArg Snapshot.requested hk.snapshot
  | @shown found g answer code last direction content fallback fresh snapshot hk hat hopen hcur _ _
      hview =>
    have hpending := hk.pending hp hat hopen hcur
    obtain ⟨hlanguage, -, -, hnone, -⟩ := view_fields hview
    show snapshot.pending.getD snapshot.language = s.snapshot.pending.getD s.snapshot.language
    rw [hpending, hnone]
    exact hlanguage
  | overtaken hk _ _ _ => exact congrArg Snapshot.requested hk.snapshot
  | settled _ _ => rfl
  | faded _ _ => rfl

theorem Step.silent_of_old {g : Nat} {answer : Answer} (hstep : s.Step (.resume g answer) t)
    (hold : g < s.generation) : Transition.IsSilent ⟨s, .resume g answer, t⟩ := by
  cases hstep with
  | stuck _ => exact ⟨rfl, rfl⟩
  | unseen hk => exact ⟨hk.snapshot, hk.revision⟩
  | shown hk _ _ hcur _ _ _ => rw [hk.generation] at hcur; omega
  | overtaken hk _ _ _ => exact ⟨hk.snapshot, hk.revision⟩
  | settled _ hcur => omega
  | faded _ _ => exact ⟨rfl, rfl⟩

/-! ## Histories -/

structure Traced (initial : String) (history : List (Transition L)) (s : Session L) : Prop where
  orderly : s.Orderly
  phased : s.Phased initial
  fades : s.FadesOwn history
  requested : s.snapshot.requested = (newest Transition.accepted? history).getD initial

theorem Opens.traced (h : Opens config locked initial s) : Traced initial [] s where
  orderly := h.orderly
  phased := h.phased
  fades sw hs hst := by rw [(h.resolving hs).1] at hst; cases hst
  requested := by
    cases h with
    | there hl hdata hview =>
      obtain ⟨hlanguage, -, -, hpending, -⟩ := view_fields hview
      show Option.getD _ _ = initial
      rw [opening, hpending]
      exact hlanguage
    | absent => rfl

theorem Traced.next {history : List (Transition L)} (h : Traced initial history s)
    (event : Event) : Traced initial (history ++ [⟨s, event, s.next event⟩]) (s.next event) where
  orderly := h.orderly.next event
  phased := (h.orderly.step event).phased h.orderly h.phased
  fades := (h.orderly.step event).fadesOwn h.orderly h.phased h.fades
  requested := by
    rw [(h.orderly.step event).requested h.phased, newest_snoc, h.requested]
    cases Transition.accepted? ⟨s, event, s.next event⟩ <;> rfl

theorem Opens.traced_after (h : Opens config locked initial s) (schedule : List Event) :
    Traced initial (s.history schedule) (s.after schedule) := by
  induction schedule using List.reverseRecOn with
  | nil => exact h.traced
  | append_singleton earlier event ih =>
    rw [history_snoc, after_snoc]
    exact ih.next event

/-- Every publication is a legal move, the newest request is what is asked for, and whatever is
ready has nothing pending. Older switches publish nothing. -/
structure Follows (initial : String) (s : Session L) (schedule : List Event) : Prop where
  moves : ∀ earlier transition later,
    s.history schedule = earlier ++ transition :: later → transition.IsLegal earlier
  requested : (s.after schedule).snapshot.requested =
    (newest Transition.accepted? (s.history schedule)).getD initial
  ready : (s.after schedule).snapshot.ready = true → (s.after schedule).snapshot.pending = none
  old : ∀ transition ∈ s.history schedule, ∀ g answer, transition.event = .resume g answer →
    g < transition.before.generation → transition.IsSilent

/-- **The newest request wins**, in whatever order the switches go on. -/
theorem follows_of_start {around : Surroundings} (h : (around.start config locked).1 = .ok s)
    (schedule : List Event) : Follows (around.initial config locked).1 s schedule := by
  obtain ⟨hopens, -⟩ := Surroundings.opens_of_start h
  have hsplit : ∀ earlier transition later,
      s.history schedule = earlier ++ transition :: later →
      ∃ m, Traced (around.initial config locked).1 earlier m ∧
        transition = ⟨m, transition.event, m.next transition.event⟩ :=
    fun earlier transition later hh => by
      obtain ⟨start, rest, -, rfl, hbefore, hafter⟩ := schedule_of_history hh
      refine ⟨s.after start, hopens.traced_after start, ?_⟩
      cases transition
      simp_all
  have hend := hopens.traced_after schedule
  constructor
  · intro earlier transition later hh
    obtain ⟨m, hm, he⟩ := hsplit earlier transition later hh
    rw [he]
    exact (hm.orderly.step _).isLegal hm.phased hm.fades
  · exact hend.requested
  · exact hend.phased.pending_of_ready hend.orderly.numbered
  · intro transition hmem g answer hevent hold
    obtain ⟨earlier, later, hh⟩ := List.append_of_mem hmem
    obtain ⟨m, hm, he⟩ := hsplit earlier transition later hh
    rw [hevent] at he
    rw [he] at hold ⊢
    exact (hm.orderly.step _).silent_of_old hold

theorem follows_of_start_bilingual :
    ∃ s, ((Surroundings.remembering none).start Configuration.bilingual none).1 = .ok s ∧
      Follows "en" s detour := by
  have hstart : ((Surroundings.remembering none).start Configuration.bilingual none).1
      = .ok _ := rfl
  exact ⟨_, hstart, follows_of_start hstart _⟩

end Session

end Phrasebook
