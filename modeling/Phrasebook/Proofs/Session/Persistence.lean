import Phrasebook.Proofs.Session.Steps
import Phrasebook.Proofs.Session.Writes

/-!
# The stored language follows the requests

In every run the writes that succeed come in the order of the requests that they were made for, so
a store that keeps what was set last holds the code of the newest request that it stored, whatever
slow or failing writes there were. A request is not stored only if its write failed or a newer one
had been stored before.
-/

namespace Phrasebook

variable {L : Type}

/-! ## Stores that may fail -/

/-- A store that in each world has a content, which is what was stored last; a write that fails
leaves it as it was. -/
structure PreferenceStore.Shows {World : Type} (store : PreferenceStore (StateM World))
    (content : World → Option String) : Prop where
  stored : ∀ {code : String} {world world' : World},
    store.set languageKey code world = (.ok (), world') → content world' = some code
  failed : ∀ {code : String} {fault : StoreFault} {world world' : World},
    store.set languageKey code world = (.error fault, world') → content world' = content world

namespace Surroundings

variable {around : Surroundings} {world : around.World} {content : around.World → Option String}

def worldAfterWrite (around : Surroundings) (world : around.World) (w : Write) : around.World :=
  (around.store.set languageKey w.code world).2

/-- The store answers the writes as they say, one after the other. -/
def Answers (around : Surroundings) : List Write → around.World → Prop
  | [], _ => True
  | w :: rest, world =>
    (around.store.set languageKey w.code world).1.isOk = w.success ∧
      around.Answers rest (around.worldAfterWrite world w)

theorem content_worldAfterWrite (hstore : around.store.Shows content) {w : Write}
    (hanswer : (around.store.set languageKey w.code world).1.isOk = w.success) :
    content (around.worldAfterWrite world w) =
      if w.success then some w.code else content world := by
  rcases hset : around.store.set languageKey w.code world with ⟨result, world'⟩
  unfold worldAfterWrite
  rw [← hanswer, hset]
  cases result with
  | ok _ => exact hstore.stored hset
  | error _ => exact hstore.failed hset

theorem content_foldl_worldAfterWrite (hstore : around.store.Shows content) {log : List Write}
    (hanswers : around.Answers log world) :
    content (log.foldl around.worldAfterWrite world) =
      ((log.filter (·.success)).getLast?.map (·.code)).or (content world) := by
  induction log generalizing world with
  | nil => rfl
  | cons w rest ih =>
    obtain ⟨hanswer, hrest⟩ := hanswers
    rw [List.foldl_cons, ih hrest, content_worldAfterWrite hstore hanswer]
    cases hsuccess : w.success with
    | false => rw [List.filter_cons_of_neg (by simp [hsuccess])]; rfl
    | true =>
      rw [List.filter_cons_of_pos hsuccess, List.getLast?_cons]
      cases (rest.filter (·.success)).getLast? <;> rfl

end Surroundings

/-- A store that keeps the text that was set last, and fails as the world says: each `false` is a
write that fails. -/
def PreferenceStore.flaky : PreferenceStore (StateM (Option String × List Bool)) where
  get _ := fun world => (.ok world.1, world)
  set _ value := fun world =>
    match world.2 with
    | false :: rest => (.error .unavailable, (world.1, rest))
    | outcomes => (.ok (), (some value, outcomes.tail))

theorem PreferenceStore.flaky_shows : PreferenceStore.flaky.Shows Prod.fst := by
  constructor
  · intro code world world' hset
    obtain ⟨saved, _ | ⟨_ | _, rest⟩⟩ := world <;> cases hset <;> rfl
  · intro code fault world world' hset
    obtain ⟨saved, _ | ⟨_ | _, rest⟩⟩ := world <;> cases hset
    rfl

def Surroundings.flaky (saved : Option String) (outcomes : List Bool) : Surroundings where
  World := Option String × List Bool
  store := .flaky
  preferences := none
  world := (saved, outcomes)

/-! ## Writes of a run -/

theorem writes_snoc (history : List (Transition L)) (transition : Transition L) :
    writes (history ++ [transition]) = writes history ++ transition.write?.toList :=
  filterMap_snoc _ history transition

/-- What a switch for `code` waits for outside the session at this stage. -/
inductive Stage.Runs (code : String) : Stage → Errand L → Prop where
  | writing : Runs code .writing (.write code)
  | loading (loader : L) : Runs code .loading (.load loader)
  | fading : Runs code .fading .fade

namespace Session

variable {s t : Session L} {g first : Nat} {code initial : String} {answer : Answer}
  {log : List Write} {stage : Stage} {event : Event} {config : Configuration L}
  {locked : Option String} {w : Write} {errand : Errand L}

theorem exists_runs (h : s.errand? g = some errand) :
    ∃ code stage, s.At g code stage ∧ stage.Runs code errand := by
  unfold errand? at h
  cases hs : s.switch? g with
  | none => rw [hs] at h; cases h
  | some sw =>
    obtain ⟨code, generation, stage⟩ := sw
    obtain rfl : generation = g := generation_of_switch? hs
    rw [hs] at h
    refine ⟨code, stage, hs, ?_⟩
    cases stage with
    | writing => obtain rfl := Option.some.inj h; exact .writing
    | loading => obtain ⟨loader, -, rfl⟩ := Option.map_eq_some_iff.1 h; exact .loading loader
    | fading => obtain rfl := Option.some.inj h; exact .fading
    | _ => cases h

theorem errand?_eq_write_iff : s.errand? g = some (.write code) ↔ s.At g code .writing := by
  constructor
  · intro h
    obtain ⟨_, _, hs, hruns⟩ := exists_runs h
    cases hruns
    exact hs
  · intro h
    unfold errand?
    rw [h]

/-- Just the switch that is writing gets the answer to a write. -/
theorem write?_eq_some_iff :
    Transition.write? ⟨s, event, t⟩ = some w ↔
      event = .resume w.generation (.stored w.success) ∧ s.At w.generation w.code .writing := by
  rw [← errand?_eq_write_iff]
  unfold Transition.write?
  constructor
  · intro h
    split at h
    · next g success hevent =>
      split at h
      · next code herrand => obtain rfl := Option.some.inj h; exact ⟨hevent, herrand⟩
      · cases h
    · cases h
  · rintro ⟨rfl, herrand⟩
    simp only [herrand]

theorem write?_eq_none (h : ∀ w : Write, event = .resume w.generation (.stored w.success) →
    ¬ s.At w.generation w.code .writing) : Transition.write? ⟨s, event, t⟩ = none := by
  by_contra hsome
  obtain ⟨w, hw⟩ := Option.ne_none_iff_exists'.1 hsome
  obtain ⟨hevent, hat⟩ := write?_eq_some_iff.1 hw
  exact h w hevent hat

theorem Logged.accept (h : s.Logged first log) (hn : s.Numbered) :
    (s.accept code).Logged first log where
  first_le := Nat.le_succ_of_le h.first_le
  written := h.written
  ascending := h.ascending
  own w hw := by
    obtain ⟨hfirst, hle, hcode⟩ := h.own w hw
    refine ⟨hfirst, Nat.le_succ_of_le hle, fun sw hs => ?_⟩
    rw [hn.switch?_accept, if_neg (by omega)] at hs
    exact hcode sw hs
  accords x sw hs := by
    rw [hn.switch?_accept] at hs
    split at hs
    · next e =>
      obtain rfl := Option.some.inj hs
      refine ⟨fun _ => ?_, fun _ w hw => ?_, nofun, fun hnot => absurd trivial hnot, fun _ => rfl⟩
      · have := h.first_le
        omega
      · have := (h.own w hw).2.1
        omega
    · exact h.accords x sw hs

theorem Logged.resume_writing {success : Bool} (h : s.Logged first log) (ho : s.Orderly)
    (hs : s.At g code .writing) (hr : s.resume g (.stored success) = some t) :
    t.Logged first (log ++ [⟨g, code, success⟩]) := by
  have hcalm : s.calm.Orderly := ho.congr rfl rfl rfl rfl
  have hrecorded := (h.congr (t := s.calm) rfl rfl rfl rfl).record hcalm hs success
  have hopen : { s with woken := [] }.switch? g = some ⟨code, g, .writing⟩ := hs
  unfold resume at hr
  simp only [hopen] at hr
  obtain rfl := Option.some.inj hr
  let answered := s.calm.answered ⟨g, code, success⟩
  have hswitch : answered.switch? = s.switch? :=
    answered_keep (fun s => s.switch?) (fun _ _ => rfl) s.calm _
  have hat : answered.At g code .writing := (congrFun hswitch g).trans hs
  have hanswered : answered.Orderly := hcalm.answered _
  have hpassed : (answered.passLock.setStage g .resolving).Orderly :=
    hanswered.passLock hat rfl rfl rfl nofun
  obtain ⟨language, hl⟩ := hanswered.registered g _ hat
  have hgo : Goes g code .proceed _ (s.calm.recordWrite ⟨code, g, .writing⟩ success) :=
    releaseLock_goes hat hl .writing
  have hend := hgo.keep (P := fun m => m.Orderly ∧ m.Logged first (log ++ [⟨g, code, success⟩]))
    ⟨hpassed, hrecorded⟩ (fun hq ⟨ho, hm⟩ => ⟨hq.orderly ho, hq.logged ho hm nofun⟩)
    (fun hl ⟨ho, hm⟩ => ⟨hl.orderly ho, hl.logged ho hm⟩)
  exact hend.2

theorem Logged.resume (h : s.Logged first log) (ho : s.Orderly)
    (hr : s.resume g answer = some t) :
    t.Logged first (log ++ (Transition.write? ⟨s, .resume g answer, t⟩).toList) := by
  obtain ⟨code, stage, hat, htakes, hgo⟩ := resume_goes ho.numbered (ho.registered g) hr
  cases hw : Transition.write? ⟨s, .resume g answer, t⟩ with
  | some w =>
    obtain ⟨hevent, hwriting⟩ := write?_eq_some_iff.1 hw
    cases hevent
    exact h.resume_writing ho hwriting hr
  | none =>
    have hnever : ∀ success, answer ≠ .stored success := by
      rintro success rfl
      cases htakes
      rw [write?_eq_some_iff (w := ⟨g, code, success⟩) |>.2 ⟨rfl, hat⟩] at hw
      cases hw
    have hend := hgo.keep (P := fun m => m.Orderly ∧ m.Logged first log)
      ⟨ho.congr rfl rfl rfl rfl, h.congr rfl rfl rfl rfl⟩
      (fun hq ⟨ho, hm⟩ => ⟨hq.orderly ho, hq.logged ho hm hnever⟩)
      (fun hl ⟨ho, hm⟩ => ⟨hl.orderly ho, hl.logged ho hm⟩)
    simpa using hend.2

/-- An event adds the write that it answers to those that the session agrees with. -/
theorem Logged.next (h : s.Logged first log) (ho : s.Orderly) (event : Event) :
    (s.next event).Logged first
      (log ++ (Transition.write? ⟨s, event, s.next event⟩).toList) := by
  cases event with
  | request code =>
    have hnone : Transition.write? ⟨s, .request code, s.next (.request code)⟩ = none := rfl
    rw [hnone, Option.toList_none, List.append_nil]
    show (s.request code).1.Logged first log
    rcases s.request_cases code with ⟨-, -, -, hreq⟩ | ⟨-, hreq, -⟩
    · rw [hreq]; exact h.accept ho.numbered
    · rw [hreq]; exact h
  | resume g answer =>
    have hnext : s.next (.resume g answer) = (s.resume g answer).getD s := rfl
    cases hr : s.resume g answer with
    | some t => rw [hnext, hr]; exact h.resume ho hr
    | none =>
      have hnone : Transition.write? ⟨s, .resume g answer, s.next (.resume g answer)⟩ = none := by
        refine write?_eq_none fun w hevent hat => ?_
        obtain ⟨rfl, rfl⟩ := Event.resume.inj hevent
        have hruns := (resume_isSome_iff s _ _).2 ⟨_, _, hat, .writing w.success⟩
        rw [hr] at hruns
        cases hruns
      rw [hnone, hnext, hr]
      simpa using h

theorem Opens.logged_after (h : Opens config locked initial s) (schedule : List Event) :
    (s.after schedule).Logged s.generation (writes (s.history schedule)) := by
  induction schedule using List.reverseRecOn with
  | nil => exact h.logged
  | append_singleton earlier event ih =>
    rw [history_snoc, writes_snoc, after_snoc]
    exact ih.next (h.orderly.after earlier) event

theorem Opens.remembers_after (h : Opens config locked initial s) (schedule : List Event) :
    (s.after schedule).remembers = config.remembers := by
  induction schedule using List.reverseRecOn with
  | nil => exact h.begins.remembers
  | append_singleton earlier event ih =>
    rw [after_snoc]
    exact ((h.orderly.after earlier).step event).settings.2.trans ih

/-! ## Who was asked for -/

/-- A switch was there before, or its request was just accepted. -/
theorem Step.origin (hstep : s.Step event t) (ho : s.Orderly) {sw : Switch}
    (hs : t.switch? g = some sw) :
    (∃ old, s.switch? g = some old ∧ old.code = sw.code) ∨
      Transition.Accepts ⟨s, event, t⟩ g sw.code := by
  have hkept : ∀ {m : Session L} {sw : Switch}, s.Keeps m → m.switch? g = some sw →
      ∃ old, s.switch? g = some old ∧ old.code = sw.code := fun hk hm => by
    obtain ⟨old, hold, hcode, -⟩ := hk.stages g _ hm
    exact ⟨old, hold, hcode⟩
  have hmoved : ∀ {m : Session L} {x : Nat} {stage : Stage}, s.Keeps m →
      (m.setStage x stage).switch? g = some sw →
      ∃ old, s.switch? g = some old ∧ old.code = sw.code := fun hk hm => by
    obtain ⟨mid, hmid, hcode, -⟩ := of_switch?_setStage hm
    obtain ⟨old, hold, hsame⟩ := hkept hk hmid
    exact ⟨old, hold, hsame.trans hcode⟩
  cases hstep with
  | refused _ _ => exact .inl ⟨sw, hs, rfl⟩
  | accepted _ _ _ hreply =>
    rw [ho.numbered.switch?_accept] at hs
    split at hs
    · next e =>
      obtain rfl := Option.some.inj hs
      exact .inr ⟨rfl, e ▸ hreply⟩
    · exact .inl ⟨sw, hs, rfl⟩
  | stuck _ => exact .inl ⟨sw, hs, rfl⟩
  | unseen hk => exact .inl (hkept hk hs)
  | shown hk _ _ _ _ _ _ => exact .inl (hmoved hk hs)
  | overtaken hk _ _ _ => exact .inl (hmoved hk hs)
  | settled _ _ => exact .inl (hmoved (.calm s) hs)
  | faded _ _ => exact .inl (hmoved (.calm s) hs)

theorem Opens.asked_after (h : Opens config locked initial s) (schedule : List Event) {sw : Switch}
    (hs : (s.after schedule).switch? g = some sw) (hlt : s.generation < g) :
    ∃ transition ∈ s.history schedule, transition.Accepts g sw.code := by
  induction schedule using List.reverseRecOn generalizing sw with
  | nil =>
    have := (h.resolving hs).2
    omega
  | append_singleton earlier event ih =>
    rw [after_snoc] at hs
    rw [history_snoc, after_snoc]
    have ho := h.orderly.after earlier
    rcases (ho.step event).origin ho hs with ⟨old, hold, hcode⟩ | haccepts
    · obtain ⟨transition, hmem, haccepts⟩ := ih hold
      exact ⟨transition, List.mem_append_left _ hmem, hcode ▸ haccepts⟩
    · exact ⟨_, List.mem_append_right _ (List.mem_singleton_self _), haccepts⟩

theorem generation_of_accepts {transition : Transition L} (h : transition.Accepts g code) :
    g = transition.before.generation + 1 := by
  obtain ⟨-, hreply⟩ := h
  rcases transition.before.request_cases code with ⟨-, -, -, hreq⟩ | ⟨-, -, hrefused⟩
  · rw [hreq] at hreply
    exact (Reply.accepted.inj hreply).symm
  · exact absurd hreply (hrefused g)

theorem Opens.lt_of_accepts (h : Opens config locked initial s) {schedule : List Event}
    {transition : Transition L} (hmem : transition ∈ s.history schedule)
    (haccepts : transition.Accepts g code) : s.generation < g := by
  obtain ⟨earlier, later, hsplit⟩ := List.append_of_mem hmem
  obtain ⟨start, -, -, -, hbefore, -⟩ := schedule_of_history hsplit
  have hfirst := (h.logged_after start).first_le
  rw [generation_of_accepts haccepts, hbefore]
  omega

/-! ## What is stored -/

/-- The writes of a history that led to `s`, and what the store held before and holds now. -/
structure Persists (history : List (Transition L)) (s : Session L) (before now : Option String) :
    Prop where
  /-- Successful writes come in the order of their requests. -/
  ascending : (saved history).Pairwise (·.generation < ·.generation)
  /-- Each write is made for a request, with its code. -/
  asked : ∀ w ∈ writes history, ∃ transition ∈ history, transition.Accepts w.generation w.code
  /-- The store holds the newest request whose write succeeded. -/
  newest : ∀ w ∈ saved history, (∀ other ∈ saved history, other.generation ≤ w.generation) →
    now = some w.code
  unsaved : saved history = [] → now = before
  /-- A request that is past the store and has not written was overtaken there. -/
  skipped : ∀ transition ∈ history, ∀ g code, transition.Accepts g code →
    ∀ stage, s.At g code stage → ¬ stage.IsUnstored →
    (∃ w ∈ writes history, w.generation = g) ∨ ∃ w ∈ saved history, g < w.generation
  /-- The newest request, once stored, stays stored. -/
  current : ∀ w ∈ saved history, w.generation = s.generation → now = some w.code
  /-- One write is under way at a time. -/
  alone : ∀ g code g' code', s.errand? g = some (.write code) →
    s.errand? g' = some (.write code') → g = g'

theorem Opens.persists (h : Opens config locked initial s) (hrem : config.remembers = true)
    (schedule : List Event) {before now : Option String}
    (hnow : now = ((saved (s.history schedule)).getLast?.map (·.code)).or before) :
    Persists (s.history schedule) (s.after schedule) before now := by
  have hlogged := h.logged_after schedule
  have ho := h.orderly.after schedule
  have hremembers := (h.remembers_after schedule).trans hrem
  -- The last successful write is the newest one, and the only one of its generation.
  have hnewest : ∀ w ∈ saved (s.history schedule),
      (∀ other ∈ saved (s.history schedule), other.generation ≤ w.generation) →
      now = some w.code := fun w hw hmax => by
    obtain ⟨last, hlast⟩ := Option.ne_none_iff_exists'.1
      (mt List.getLast?_eq_none_iff.1 (List.ne_nil_of_mem hw))
    rw [hnow, hlast]
    rcases eq_or_lt_of_getLast? hlogged.ascending hlast hw with rfl | hlt
    · rfl
    · have hle := hmax last (List.mem_of_getLast? hlast)
      omega
  constructor
  case ascending => exact hlogged.ascending
  case asked =>
    intro w hw
    obtain ⟨hfirst, hle, hcode⟩ := hlogged.own w hw
    obtain ⟨sw, hs⟩ := ho.numbered.exists_iff.2 ⟨Nat.one_le_of_lt hfirst, hle⟩
    rw [← hcode sw hs]
    exact h.asked_after schedule hs hfirst
  case newest => exact hnewest
  case unsaved =>
    intro hnone
    rw [hnow, hnone]
    rfl
  case skipped =>
    intro transition hmem g code haccepts stage hs hpast
    rcases (hlogged.accords g _ hs).past hpast (h.lt_of_accepts hmem haccepts) hremembers with
      hown | ⟨w, hw, hsuccess, hlt⟩
    · exact .inl hown
    · exact .inr ⟨w, List.mem_filter.2 ⟨hw, hsuccess⟩, hlt⟩
  case current =>
    intro w hw hcurrent
    refine hnewest w hw fun other hother => ?_
    rw [hcurrent]
    exact (hlogged.own other (List.mem_filter.1 hother).1).2.1
  case alone =>
    intro g code g' code' hg hg'
    exact (ho.eq_of_writing (errand?_eq_write_iff.1 hg) (errand?_eq_write_iff.1 hg') rfl).symm

theorem Opens.unwritten (h : Opens config locked initial s) (hrem : config.remembers = false)
    (schedule : List Event) : writes (s.history schedule) = [] ∧
      ∀ g code, (s.after schedule).errand? g ≠ some (.write code) := by
  have hidle : ∀ schedule g code, ¬ (s.after schedule).At g code .writing :=
    fun schedule g code hs => by
      have hremembers := (h.remembers_after schedule).trans hrem
      cases ((h.logged_after schedule).accords g _ hs).idle hremembers
  refine ⟨?_, fun g code herrand => hidle schedule g code (errand?_eq_write_iff.1 herrand)⟩
  induction schedule using List.reverseRecOn with
  | nil => rfl
  | append_singleton earlier event ih =>
    rw [history_snoc, writes_snoc, ih, write?_eq_none fun w _ => hidle earlier _ _]
    rfl

/-- **The stored language follows the requests**: in every run, whatever writes fail, the store
holds the code of the newest request that was stored. -/
theorem persists_of_start {around : Surroundings} (h : (around.start config locked).1 = .ok s)
    (schedule : List Event) :
    (config.remembers = true → ∀ content, around.store.Shows content →
      around.Answers (writes (s.history schedule)) (around.start config locked).2 →
      Persists (s.history schedule) (s.after schedule)
        (content (around.start config locked).2)
        (content ((writes (s.history schedule)).foldl around.worldAfterWrite
          (around.start config locked).2))) ∧
    (config.remembers = false → writes (s.history schedule) = [] ∧
      ∀ g code, (s.after schedule).errand? g ≠ some (.write code)) := by
  have hopens := (Surroundings.opens_of_start h).1
  refine ⟨fun hrem content hstore hanswers => ?_, fun hrem => hopens.unwritten hrem schedule⟩
  exact hopens.persists hrem schedule (Surroundings.content_foldl_worldAfterWrite hstore hanswers)

def fitful : List Event :=
  [.request "fr", .resume 1 .proceed, .request "en", .resume 2 .proceed,
    .resume 1 (.stored false), .resume 2 .proceed, .request "fr", .resume 3 .proceed,
    .resume 2 (.stored true), .resume 3 .proceed, .resume 3 (.stored true)]

theorem persists_of_start_flaky :
    ∃ s, ((Surroundings.flaky (some "en") [false]).start Configuration.bilingual none).1 = .ok s ∧
      saved (s.history fitful) = [⟨2, "en", true⟩, ⟨3, "fr", true⟩] ∧
      Persists (s.history fitful) (s.after fitful) (some "en") (some "fr") := by
  have hstart : ((Surroundings.flaky (some "en") [false]).start Configuration.bilingual none).1
      = .ok _ := rfl
  obtain ⟨s, hs, hwrites⟩ : ∃ s,
      ((Surroundings.flaky (some "en") [false]).start Configuration.bilingual none).1 = .ok s ∧
        writes (s.history fitful) = [⟨1, "fr", false⟩, ⟨2, "en", true⟩, ⟨3, "fr", true⟩] :=
    ⟨_, hstart, by decide +kernel⟩
  have hpersists := (persists_of_start hs fitful).1 rfl Prod.fst PreferenceStore.flaky_shows
  rw [hwrites] at hpersists
  refine ⟨s, hs, ?_, hpersists ⟨rfl, rfl, rfl, trivial⟩⟩
  unfold saved
  rw [hwrites]
  rfl

end Session

end Phrasebook
