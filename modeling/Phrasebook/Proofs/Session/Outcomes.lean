import Phrasebook.Proofs.Session.Convergence
import Phrasebook.Proofs.Session.Persistence

/-!
# What a call reports

Somebody who asks for a language and waits is told how it ended. A switch that ends without being
the newest ends as superseded, and the stage of the newest switch says what the snapshot shows, so
what is reported is what the session shows at that moment; only that a switch falls back because
of its own load needs a look at the acts of its last run. A client that waits for each of its calls
is never superseded and ends in the language that it asked for last.
-/

namespace Phrasebook

variable {L : Type}

namespace Transition

/-- In the transition the loader that the switch of generation `g` has called fails. -/
def FailsLoad (transition : Transition L) (g : Nat) : Prop :=
  ∃ loader failure, transition.before.errand? g = some (.load loader) ∧
    transition.event = .resume g (.loaded (.error failure))

theorem accepted?_of_accepts {transition : Transition L} {g : Nat} {code : String}
    (h : transition.Accepts g code) : transition.accepted? = some code := by
  obtain ⟨hevent, hreply⟩ := h
  unfold accepted?
  simp only [hevent, hreply]

end Transition

/-- What is true when a call for `code`, accepted as request `g`, returns with this outcome in the
`last` transition, `between` being the transitions since it was accepted. -/
inductive Outcome.Tells (config : Configuration L) (code : String) (g : Nat)
    (between : List (Transition L)) (last : Transition L) : Outcome → Prop where
  | applied : last.after.snapshot.isSettled = true → last.after.snapshot.language = code →
      last.after.snapshot.fallback = false →
      last.after.snapshot.ShowsContent config last.after.registry code →
      Tells config code g between last .applied
  | fellBack : last.after.snapshot.isSettled = true → last.after.snapshot.language = code →
      last.after.snapshot.fallback = true →
      last.after.snapshot.ShowsContent config last.after.registry config.default.code →
      last.FailsLoad g → Tells config code g between last .fellBack
  | superseded {newer : Transition L} {g' : Nat} {code' : String} : newer ∈ between →
      newer.Accepts g' code' → g < g' → Tells config code g between last .superseded

namespace Session

variable {s t m : Session L} {g x : Nat} {code initial : String} {answer : Answer}
  {stage : Stage} {event : Event} {result : Except Fault Outcome} {config : Configuration L}
  {locked : Option String} {codes : List String}

/-! ## How a switch ends -/

theorem result?_eq_some_iff :
    s.result? g = some result ↔ ∃ code, s.At g code (.ended result) := by
  constructor
  · intro h
    unfold result? at h
    split at h
    · next code generation end_ hs =>
      obtain rfl := Option.some.inj h
      obtain rfl : generation = g := generation_of_switch? hs
      exact ⟨code, hs⟩
    · cases h
  · rintro ⟨code, hs⟩
    exact result?_of hs rfl

theorem Keeps.result? (hk : s.Keeps t) (h : t.result? g = some result) :
    s.result? g = some result := by
  obtain ⟨code, hs⟩ := result?_eq_some_iff.1 h
  obtain ⟨old, hold, -, hsame | ⟨-, hopen⟩⟩ := hk.stages g _ hs
  · exact result?_of hold hsame.symm
  · exact absurd hopen id

theorem of_result?_setStage (h : (s.setStage x stage).result? g = some result) :
    s.result? g = some result ∨ g = x ∧ stage = .ended result := by
  obtain ⟨code, hs⟩ := result?_eq_some_iff.1 h
  obtain ⟨old, hold, -, hsame | ⟨rfl, hstage⟩⟩ := of_switch?_setStage hs
  · exact .inl (result?_of hold hsame.symm)
  · exact .inr ⟨rfl, hstage.symm⟩

/-- A switch ends by going on, and it is superseded unless it is the newest. -/
theorem Step.returns (hstep : s.Step event t) (ho : s.Orderly) (hwaits : s.result? g = none)
    (h : t.result? g = some result) :
    (∃ answer, event = .resume g answer) ∧ (t.generation ≠ g → result = .ok .superseded) := by
  have hnever : s.result? g ≠ some result := by rw [hwaits]; nofun
  have hmoved : ∀ {m : Session L} {x stage}, s.Keeps m →
      (m.setStage x stage).result? g = some result → g = x ∧ stage = .ended result :=
    fun hk h => (of_result?_setStage h).resolve_left fun hm => hnever (hk.result? hm)
  cases hstep with
  | refused _ _ => exact absurd h hnever
  | accepted _ _ _ _ =>
    obtain ⟨code, hs⟩ := result?_eq_some_iff.1 h
    have hs := (ho.numbered.switch?_accept _ g).symm.trans hs
    split at hs
    · cases hs
    · exact absurd (result?_of hs rfl) hnever
  | stuck _ => exact absurd h hnever
  | unseen hk => exact absurd (hk.result? h) hnever
  | shown hk _ _ hcur _ _ _ =>
    obtain ⟨rfl, -⟩ := hmoved hk h
    exact ⟨⟨_, rfl⟩, fun hold => absurd hcur hold⟩
  | overtaken hk _ _ _ =>
    obtain ⟨rfl, hend⟩ := hmoved hk h
    exact ⟨⟨_, rfl⟩, fun _ => (Stage.ended.inj hend).symm⟩
  | settled _ hcur =>
    obtain ⟨rfl, -⟩ := hmoved (.refl s) h
    exact ⟨⟨_, rfl⟩, fun hold => absurd hcur hold⟩
  | faded _ _ =>
    obtain ⟨rfl, hend⟩ := hmoved (.refl s) h
    exact ⟨⟨_, rfl⟩, fun _ => (Stage.ended.inj hend).symm⟩

theorem fallback_of_landing {fallback fresh : Bool}
    (h : landing fallback fresh = .ended (.ok .fellBack)) : fallback = true := by
  revert h
  cases fallback <;> cases fresh <;> simp [landing]

theorem Lands.failed_of_fellBack (hl : Lands g code answer m t) (ho : m.Orderly)
    (hwaits : m.result? g = none) (h : t.result? g = some (.ok .fellBack)) :
    ∃ failure, answer = .loaded (.error failure) := by
  have hnever : m.result? g ≠ some (.ok .fellBack) := by rw [hwaits]; nofun
  cases hl with
  | shown hf _ _ =>
    have hfound := (hf.offers ho).1
    obtain ⟨-, hend⟩ :=
      (of_result?_setStage h).resolve_left fun hm => hnever (hfound.result? hm)
    obtain rfl := fallback_of_landing hend
    obtain ⟨language, failure, -, -, hanswer⟩ := hf.failed_of_fallback ho
    exact ⟨failure, hanswer⟩
  | overtaken hf _ =>
    have hfound := (hf.offers ho).1
    obtain ⟨-, hend⟩ :=
      (of_result?_setStage h).resolve_left fun hm => hnever (hfound.result? hm)
    cases hend
  | settled _ _ =>
    obtain ⟨-, hend⟩ := (of_result?_setStage h).resolve_left hnever
    cases hend
  | faded _ _ =>
    obtain ⟨-, hend⟩ := (of_result?_setStage h).resolve_left hnever
    cases hend

/-- A switch that falls back has called its loader, and this call fails. -/
theorem Orderly.failsLoad (ho : s.Orderly) (hr : s.resume g answer = some t)
    (hwaits : s.result? g = none) (h : t.result? g = some (.ok .fellBack)) :
    Transition.FailsLoad ⟨s, .resume g answer, t⟩ g := by
  obtain ⟨code, stage, hat, htakes, hgo⟩ := resume_goes ho.numbered (ho.registered g) hr
  have hcalm : s.calm.Orderly := ho.congr rfl rfl rfl rfl
  have hnever : s.calm.result? g ≠ some (.ok .fellBack) := by
    show s.result? g ≠ _
    rw [hwaits]; nofun
  obtain ⟨failure, rfl⟩ : ∃ failure, answer = .loaded (.error failure) := by
    rcases hgo with hrun | ⟨m, hrun, hland⟩
    · obtain ⟨hk, -⟩ := keeps_of_quiets hrun.to_reflTransGen hcalm
      exact absurd (hk.result? h) hnever
    · obtain ⟨hk, hm⟩ := keeps_of_quiets hrun hcalm
      refine hland.failed_of_fellBack hm ?_ h
      cases hend : m.result? g with
      | none => rfl
      | some result =>
        have := hk.result? hend
        exact absurd (hwaits.symm.trans this) nofun
  cases htakes
  obtain ⟨loader, herrand⟩ := ho.exists_errand hat
  exact ⟨loader, failure, herrand, rfl⟩

/-! ## Calls -/

/-- The newest request stays the newest unless another one is accepted. -/
theorem Step.generation (hstep : s.Step event t) : t.generation = s.generation ∨
    t.generation = s.generation + 1 ∧
      ∃ code, Transition.Accepts ⟨s, event, t⟩ (s.generation + 1) code := by
  cases hstep with
  | accepted _ _ _ hreply => exact .inr ⟨rfl, _, rfl, hreply⟩
  | refused _ _ => exact .inl rfl
  | stuck _ => exact .inl rfl
  | unseen hk => exact .inl hk.generation
  | shown hk _ _ _ _ _ _ => exact .inl hk.generation
  | overtaken hk _ _ _ => exact .inl hk.generation
  | settled _ _ => exact .inl rfl
  | faded _ _ => exact .inl rfl

theorem Orderly.generation_le_after (h : s.Orderly) (schedule : List Event) :
    s.generation ≤ (s.after schedule).generation := by
  induction schedule using List.reverseRecOn with
  | nil => exact Nat.le_refl _
  | append_singleton earlier event ih =>
    rw [after_snoc]
    rcases ((h.after earlier).step event).generation with hsame | ⟨hmore, -⟩ <;> omega

/-- Whenever there is a newer request, it was accepted in between. -/
theorem Orderly.exists_accepts (h : s.Orderly) {schedule : List Event}
    (hlt : s.generation < (s.after schedule).generation) :
    ∃ newer ∈ s.history schedule, ∃ g code, newer.Accepts g code ∧ s.generation < g := by
  induction schedule using List.reverseRecOn with
  | nil => exact absurd hlt (Nat.lt_irrefl _)
  | append_singleton earlier event ih =>
    rw [after_snoc] at hlt
    rw [history_snoc, after_snoc]
    rcases ((h.after earlier).step event).generation with hsame | ⟨-, code, haccepts⟩
    · rw [hsame] at hlt
      obtain ⟨newer, hmem, hnewer⟩ := ih hlt
      exact ⟨newer, List.mem_append_left _ hmem, hnewer⟩
    · have hle := h.generation_le_after earlier
      exact ⟨_, List.mem_append_right _ (List.mem_singleton_self _), _, code, haccepts, by omega⟩

theorem Orderly.code_after (h : s.Orderly) {sw : Switch} (hs : s.switch? g = some sw)
    {schedule : List Event} {later : Switch} (hlater : (s.after schedule).switch? g = some later) :
    later.code = sw.code := by
  induction schedule using List.reverseRecOn generalizing later with
  | nil => exact congrArg _ (Option.some.inj (hlater.symm.trans hs))
  | append_singleton earlier event ih =>
    rw [after_snoc] at hlater
    have ho := h.after earlier
    rcases (ho.step event).origin ho hlater with ⟨old, hold, hcode⟩ | haccepts
    · rw [← hcode]; exact ih hold
    · have hfresh := generation_of_accepts haccepts
      have hgiven := (h.numbered.exists_iff.1 ⟨sw, hs⟩).2
      have hle := h.generation_le_after earlier
      simp only at hfresh
      omega

theorem Orderly.exists_result? (h : s.Orderly) {sw : Switch} (hs : s.switch? g = some sw)
    {schedule : List Event} (hquiet : (s.after schedule).Quiescent) :
    ∃ result, (s.after schedule).result? g = some result := by
  obtain ⟨hpos, hle⟩ := h.numbered.exists_iff.1 ⟨sw, hs⟩
  obtain ⟨later, hlater⟩ := (h.after schedule).numbered.exists_iff.2
    ⟨hpos, Nat.le_trans hle (h.generation_le_after schedule)⟩
  have hended := hquiet later (List.mem_of_find?_eq_some hlater)
  cases hst : later.stage with
  | ended result => exact ⟨result, result?_of hlater hst⟩
  | _ => rw [hst] at hended; exact absurd hended id

structure Regular (config : Configuration L) (locked : Option String) (initial : String)
    (s : Session L) : Prop where
  orderly : s.Orderly
  phased : s.Phased initial
  truthful : s.Truthful config
  locked : s.locked = locked

theorem Opens.regular (h : Opens config locked initial s) : s.Regular config locked initial :=
  ⟨h.orderly, h.phased, h.truthful, h.begins.locked⟩

theorem Regular.next (h : s.Regular config locked initial) (event : Event) :
    (s.next event).Regular config locked initial :=
  have hstep := h.orderly.step event
  ⟨h.orderly.next event, hstep.phased h.orderly h.phased, hstep.truthful h.orderly h.truthful,
    hstep.settings.1.trans h.locked⟩

theorem Regular.after (h : s.Regular config locked initial) (schedule : List Event) :
    (s.after schedule).Regular config locked initial :=
  after_keep h (fun h event => h.next event) schedule

/-- The newest request ends as applied or with a fallback, and the session shows which. -/
theorem Regular.of_current_ended (h : s.Regular config locked initial)
    (hs : s.At g code (.ended result)) (hg : s.generation = g) :
    s.snapshot.isSettled = true ∧ s.snapshot.language = code ∧
      (result = .ok .applied ∧ s.snapshot.fallback = false ∧
          s.snapshot.ShowsContent config s.registry code ∨
        result = .ok .fellBack ∧ s.snapshot.fallback = true ∧
          s.snapshot.ShowsContent config s.registry config.default.code) := by
  subst hg
  have hshows := h.phased.current _ hs
  obtain ⟨hsettled, hlanguage, hend | hend⟩ := h.phased.of_current_ended hs trivial
  · obtain rfl := Stage.ended.inj hend
    obtain ⟨-, -, -, hown⟩ := hshows
    have hcontent := h.truthful.coherent.own hown
    rw [hlanguage] at hcontent
    exact ⟨hsettled, hlanguage, .inl ⟨rfl, hown, hcontent⟩⟩
  · obtain rfl := Stage.ended.inj hend
    obtain ⟨-, -, -, hback⟩ := hshows
    exact ⟨hsettled, hlanguage, .inr ⟨rfl, hback, h.truthful.coherent.default hback⟩⟩

/-- In `s` a call for `code` is accepted as request `g`, then `between` happens, and with `event`
the call returns. -/
structure Call (s : Session L) (code : String) (g : Nat) (between : List Event) (event : Event)
    (result : Except Fault Outcome) : Prop where
  accepted : (s.request code).2 = .accepted g
  waits : ((s.next (.request code)).after between).result? g = none
  returns : ((s.next (.request code)).after (between ++ [event])).result? g = some result

def returning (s : Session L) (code : String) (between : List Event) (event : Event) :
    Transition L where
  before := (s.next (.request code)).after between
  event
  after := (s.next (.request code)).after (between ++ [event])

variable {between : List Event}

theorem Numbered.of_accepted (hn : s.Numbered) (h : (s.request code).2 = .accepted g) :
    (s.next (.request code)).At g code .accepted ∧ (s.next (.request code)).generation = g := by
  rcases s.request_cases code with ⟨-, -, -, hreq⟩ | ⟨-, -, hrefused⟩
  · have hnext : s.next (.request code) = s.accept code := congrArg Prod.fst hreq
    rw [hreq] at h
    obtain rfl := Reply.accepted.inj h
    rw [hnext]
    exact ⟨(hn.switch?_accept code _).trans (if_pos rfl), rfl⟩
  · exact absurd h (hrefused g)

theorem Orderly.failsLoad_next (ho : s.Orderly) (hwaits : s.result? g = none)
    (h : (s.next (.resume g answer)).result? g = some (.ok .fellBack)) :
    Transition.FailsLoad ⟨s, .resume g answer, s.next (.resume g answer)⟩ g := by
  have hnext : s.next (.resume g answer) = (s.resume g answer).getD s := rfl
  cases hr : s.resume g answer with
  | some t => rw [hnext, hr] at h ⊢; exact ho.failsLoad hr hwaits h
  | none =>
    rw [hnext, hr] at h
    exact absurd (hwaits.symm.trans h) nofun

/-- **What a call reports is true**, wherever newer requests come in. -/
theorem Call.tells (hcall : s.Call code g between event result)
    (h : s.Regular config locked initial) : ∃ outcome, result = .ok outcome ∧
      outcome.Tells config code g ((s.next (.request code)).history between)
        (s.returning code between event) := by
  obtain ⟨haccepted, hwaits, hreturns⟩ := hcall
  obtain ⟨hat, hnewest⟩ := h.orderly.numbered.of_accepted haccepted
  have hasked := h.next (.request code)
  have hend := hasked.after (between ++ [event])
  unfold returning
  generalize s.next (.request code) = n at *
  obtain ⟨asked, hs⟩ := result?_eq_some_iff.1 hreturns
  obtain rfl : asked = code := hasked.orderly.code_after hat hs
  have ho := hasked.orderly.after between
  have hstep := ho.step event
  rw [after_snoc] at hs hreturns hend ⊢
  obtain ⟨⟨answer, rfl⟩, hold⟩ := hstep.returns ho hwaits hreturns
  by_cases hcur : ((n.after between).next (.resume g answer)).generation = g
  · obtain ⟨hsettled, hlanguage, ⟨rfl, hown, hcontent⟩ | ⟨rfl, hback, hcontent⟩⟩ :=
      hend.of_current_ended hs hcur
    · exact ⟨_, rfl, .applied hsettled hlanguage hown hcontent⟩
    · exact ⟨_, rfl, .fellBack hsettled hlanguage hback hcontent
        (ho.failsLoad_next hwaits hreturns)⟩
  · have hlt : n.generation < (n.after between).generation := by
      have hle := hasked.orderly.generation_le_after between
      rcases hstep.generation with hsame | ⟨-, _, hevent, -⟩
      · omega
      · cases hevent
    obtain ⟨newer, hmem, g', code', haccepts, hlater⟩ := hasked.orderly.exists_accepts hlt
    exact ⟨_, hold hcur, .superseded hmem haccepts (hnewest ▸ hlater)⟩

/-! ## A client that waits -/

/-- From `s` to `t` nobody asks for anything. -/
structure Rests (s t : Session L) : Prop where
  generation : t.generation = s.generation
  requested : t.snapshot.requested = s.snapshot.requested
  /-- A snapshot that has settled stays. -/
  settled : s.snapshot.isSettled = true → t.snapshot = s.snapshot

theorem Step.rests (hstep : s.Step (.resume g answer) t) (hp : s.Phased initial) : s.Rests t := by
  refine ⟨?_, hstep.requested hp, fun hsettled => ?_⟩
  · rcases hstep.generation with hsame | ⟨-, _, hevent, -⟩
    · exact hsame
    · cases hevent
  · obtain ⟨hready, hpending⟩ := Snapshot.isSettled_iff.1 hsettled
    cases hstep with
    | stuck _ => rfl
    | unseen hk => exact hk.snapshot
    | shown hk hat hopen hcur _ _ _ =>
      have hsome := hk.pending hp hat hopen hcur
      rw [hpending] at hsome
      cases hsome
    | overtaken hk _ _ _ => exact hk.snapshot
    | settled hs hcur =>
      obtain ⟨-, -, hunready, -⟩ := hp.current _ (hcur ▸ hs)
      rw [hready] at hunready
      cases hunready
    | faded _ _ => rfl

theorem Regular.rests_after (h : s.Regular config locked initial) {schedule : List Event}
    (hnone : requests schedule = []) : s.Rests (s.after schedule) := by
  induction schedule using List.reverseRecOn with
  | nil => exact ⟨rfl, rfl, fun _ => rfl⟩
  | append_singleton earlier event ih =>
    rw [requests_append, List.append_eq_nil_iff] at hnone
    obtain ⟨hearlier, hevent⟩ := hnone
    have hm := ih hearlier
    rw [after_snoc]
    cases event with
    | request code => cases hevent
    | resume g answer =>
      have hmid := h.after earlier
      have hlast := (hmid.orderly.step (.resume g answer)).rests hmid.phased
      refine ⟨hlast.generation.trans hm.generation, hlast.requested.trans hm.requested,
        fun hsettled => ?_⟩
      rw [hlast.settled (hm.settled hsettled ▸ hsettled), hm.settled hsettled]

/-- In `s` a client asks for the codes, one after the other, and waits for each call that is
accepted; nobody else asks for anything. This may lead to `t`. -/
inductive Awaits (s : Session L) : List String → Session L → Prop where
  | start {schedule : List Event} : requests schedule = [] → Awaits s [] (s.after schedule)
  | call {codes : List String} {code : String} {m : Session L} {schedule : List Event} :
      Awaits s codes m → requests schedule = [] →
      (∀ g, (m.request code).2 = .accepted g →
        ∃ result, ((m.next (.request code)).after schedule).result? g = some result) →
      Awaits s (codes ++ [code]) ((m.next (.request code)).after schedule)

theorem Awaits.regular (hw : s.Awaits codes t) (h : s.Regular config locked initial) :
    t.Regular config locked initial := by
  induction hw with
  | start _ => exact h.after _
  | call _ _ _ ih => exact (ih.next _).after _

/-- What a client asked for last is requested, whether or not the call was accepted. -/
theorem Awaits.requested (hw : s.Awaits codes t) (h : s.Regular config none initial)
    (hlast : codes.getLast? = some code)
    (hcode : (Registry.ofConfiguration config).contains code = true) :
    t.snapshot.requested = code := by
  cases hw with
  | start _ => cases hlast
  | @call codes asked m schedule hm hnone _ =>
    rw [List.getLast?_concat] at hlast
    obtain rfl := Option.some.inj hlast
    have hmid := hm.regular h
    have hcontains := (hmid.truthful.registry.contains asked).trans hcode
    rw [((hmid.next _).rests_after hnone).requested]
    exact requested_of_request hmid.locked hcontains

/-- Once a call of a client was accepted, the session has settled after each of its calls. -/
theorem Awaits.settled (hw : s.Awaits codes t) (h : s.Regular config locked initial)
    (hdone : s.snapshot.isSettled = true ∨ s.generation < t.generation) :
    t.snapshot.isSettled = true := by
  induction hw with
  | start hnone =>
    have hrests := h.rests_after hnone
    rcases hdone with hsettled | hlt
    · rw [hrests.settled hsettled]; exact hsettled
    · rw [hrests.generation] at hlt
      exact absurd hlt (Nat.lt_irrefl _)
  | @call codes code m schedule hm hnone hreturned ih =>
    have hmid := hm.regular h
    have hasked := hmid.next (.request code)
    have hrests := hasked.rests_after hnone
    have hend := hasked.after schedule
    rcases m.request_cases code with ⟨-, -, -, hreq⟩ | ⟨-, hreq, -⟩
    · have haccepted := congrArg Prod.snd hreq
      obtain ⟨result, hresult⟩ := hreturned _ haccepted
      obtain ⟨asked, hs⟩ := result?_eq_some_iff.1 hresult
      obtain ⟨-, hnewest⟩ := hmid.orderly.numbered.of_accepted haccepted
      exact (hend.of_current_ended hs (hrests.generation.trans hnewest)).1
    · have hsame : m.next (.request code) = m := hreq
      rw [hsame] at hrests ⊢ hdone
      have hsettled := ih (hrests.generation ▸ hdone)
      rw [hrests.settled hsettled]
      exact hsettled

/-- No client waits in vain: its call returns if the switches go on for long enough. -/
theorem Awaits.exists_returns {m : Session L} (hw : s.Awaits codes m)
    (h : s.Regular config locked initial) (code : String) {between : List Event}
    (hnone : requests between = []) : ∃ rest,
      s.Awaits (codes ++ [code]) ((m.next (.request code)).after (between ++ rest)) := by
  have hasked := (hw.regular h).next (.request code)
  obtain ⟨rest, hquiet, hsteps⟩ := (hasked.orderly.after between).exists_quiescent
    (steadyReply fun _ => .ok .null) (fun _ _ _ _ ho hat hrun => steadyReply_takes ho hat hrun)
  have hrest : requests rest = [] := requests_eq_nil fun transition hmem => by
    obtain ⟨g, hevent⟩ := hsteps transition hmem
    exact ⟨g, _, hevent⟩
  refine ⟨rest, .call hw (by rw [requests_append, hnone, hrest]; rfl) fun g haccepted => ?_⟩
  obtain ⟨hat, -⟩ := (hw.regular h).orderly.numbered.of_accepted haccepted
  rw [← after_append] at hquiet
  exact hasked.orderly.exists_result? hat hquiet

/-- Calls report in `s` what is true when they return. -/
structure Honest (config : Configuration L) (s : Session L) : Prop where
  told : ∀ code g between event result, s.Call code g between event result →
    ∃ outcome, result = .ok outcome ∧
      outcome.Tells config code g ((s.next (.request code)).history between)
        (s.returning code between event)
  /-- The newest request is not superseded. -/
  newest : ∀ code g between event outcome, s.Call code g between event (.ok outcome) →
    (∀ newer ∈ (s.next (.request code)).history between, newer.accepted? = none) →
    outcome = .applied ∨ outcome = .fellBack
  /-- A client that has waited for its calls so far may wait for the next one. -/
  returns : ∀ codes m code between, s.Awaits codes m → requests between = [] → ∃ rest,
    s.Awaits (codes ++ [code]) ((m.next (.request code)).after (between ++ rest))
  /-- A client that waits for each of its calls ends in the language that it asked for last: at
  once if it made a request or found the session settled, and else when all switches have ended. -/
  client : s.locked = none → ∀ codes code t, s.Awaits codes t → codes.getLast? = some code →
    (Registry.ofConfiguration config).contains code = true →
    t.snapshot.requested = code ∧
      (s.snapshot.isSettled = true ∨ s.generation < t.generation ∨ t.Quiescent →
        t.snapshot.isSettled = true ∧ t.snapshot.language = code)

theorem Regular.honest (h : s.Regular config locked initial) : s.Honest config where
  told _ _ _ _ _ hcall := hcall.tells h
  newest code g between event outcome hcall hnone := by
    obtain ⟨told, hsame, htells⟩ := hcall.tells h
    obtain rfl := Except.ok.inj hsame
    cases htells with
    | applied _ _ _ _ => exact .inl rfl
    | fellBack _ _ _ _ _ => exact .inr rfl
    | superseded hmem haccepts _ =>
      cases (hnone _ hmem).symm.trans (Transition.accepted?_of_accepts haccepts)
  returns _ _ code _ hw hnone := hw.exists_returns h code hnone
  client hunlocked codes code t hw hlast hcode := by
    obtain rfl : locked = none := h.locked.symm.trans hunlocked
    have hrequested := hw.requested h hlast hcode
    refine ⟨hrequested, fun hdone => ?_⟩
    have hend := hw.regular h
    have hsettled : t.snapshot.isSettled = true := by
      rcases hdone with hbefore | hasked | hquiet
      · exact hw.settled h (.inl hbefore)
      · exact hw.settled h (.inr hasked)
      · exact hend.phased.isSettled_of_quiescent hend.orderly.numbered hquiet
    exact ⟨hsettled, (Snapshot.requested_of_isSettled hsettled).symm.trans hrequested⟩

/-- **Outcomes tell the truth** in every state of every session. -/
theorem honest_of_start {around : Surroundings} (h : (around.start config locked).1 = .ok s)
    (earlier : List Event) : (s.after earlier).Honest config :=
  ((Surroundings.opens_of_start h).1.regular.after earlier).honest

/-- French is asked for and overtaken by English, which is there and applied at once. -/
theorem honest_of_start_bilingual :
    ∃ s, ((Surroundings.remembering none).start Configuration.bilingual none).1 = .ok s ∧
      s.Call "fr" 1 [.resume 1 .proceed, .resume 1 (.stored true), .request "en"]
        (.resume 1 (.loaded (.ok (.obj [])))) (.ok .superseded) ∧
      (s.after (detour.take 3)).Call "en" 2
        [.resume 1 (.loaded (.ok (.obj []))), .resume 2 .proceed] (.resume 2 (.stored true))
        (.ok .applied) ∧
      (s.after []).Honest Configuration.bilingual ∧
      (s.after (detour.take 3)).Honest Configuration.bilingual := by
  have hstart : ((Surroundings.remembering none).start Configuration.bilingual none).1
      = .ok _ := rfl
  exact ⟨_, hstart, ⟨by decide +kernel, by decide +kernel, by decide +kernel⟩,
    ⟨by decide +kernel, by decide +kernel, by decide +kernel⟩, honest_of_start hstart _,
    honest_of_start hstart _⟩

end Session

end Phrasebook
