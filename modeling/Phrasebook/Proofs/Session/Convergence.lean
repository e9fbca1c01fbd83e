import Phrasebook.Proofs.Session.Settling

/-!
# The end does not depend on timing

In a steady world all runs of a session in which the same language is asked for last come to the
same end, whatever was asked for before and in whatever order loads, writes and fades were done:
the end of the run in which nothing else is asked for.
-/

namespace Phrasebook

variable {L : Type}

def Event.request? : Event → Option String
  | .request code => some code
  | .resume _ _ => none

def requests (schedule : List Event) : List String := schedule.filterMap Event.request?

/-- A store that never fails, and in each world has a content that is what was stored last. -/
structure PreferenceStore.Remembers {World : Type} (store : PreferenceStore (StateM World))
    (content : World → Option String) : Prop where
  get : ∀ world, ∃ world', store.get languageKey world = (.ok (content world), world') ∧
    content world' = content world
  set : ∀ code world, ∃ world', store.set languageKey code world = (.ok (), world') ∧
    content world' = some code

theorem PreferenceStore.memory_remembers : PreferenceStore.memory.Remembers id where
  get saved := ⟨saved, rfl, rfl⟩
  set code _ := ⟨some code, rfl, rfl⟩

theorem requests_append (earlier later : List Event) :
    requests (earlier ++ later) = requests earlier ++ requests later :=
  List.filterMap_append

theorem requests_map_request (codes : List String) : requests (codes.map .request) = codes := by
  induction codes with
  | nil => rfl
  | cons first rest ih => exact congrArg _ ih

theorem requests_eq_nil {s : Session L} {schedule : List Event}
    (h : ∀ transition ∈ s.history schedule, ∃ g answer, transition.event = .resume g answer) :
    requests schedule = [] := by
  refine List.filterMap_eq_nil_iff.2 fun event hmem => ?_
  rw [← s.map_event_history schedule] at hmem
  obtain ⟨transition, htransition, rfl⟩ := List.mem_map.1 hmem
  obtain ⟨g, answer, hevent⟩ := h transition htransition
  rw [hevent]
  rfl

namespace Surroundings

/-- The world after a session has started and written what it has written. -/
def worldAfter (around : Surroundings) (config : Configuration L) (s : Session L) :
    around.World :=
  s.written.foldl (fun world entry => (around.store.set languageKey entry.2 world).2)
    (around.start config none).2

variable {around : Surroundings} {config : Configuration L} {s : Session L}
  {content : around.World → Option String}

theorem Picks.content_eq {registry : Registry L} {chosen fallback : String}
    {picked : String × around.World} (hstore : around.store.Remembers content)
    (h : Picks registry chosen fallback around true picked) : content picked.2 = some picked.1 := by
  obtain ⟨world, hget, hsame⟩ := hstore.get around.world
  cases h with
  | unreadable hread => cases hget.symm.trans hread
  | @saved saved code world' hread hsaved =>
    obtain ⟨hsome, -⟩ := Option.filter_eq_some_iff.1 hsaved
    obtain ⟨hcontent, rfl⟩ := Prod.mk.inj (hget.symm.trans hread)
    rw [hsame, Except.ok.inj hcontent, hsome]
  | @stored saved world' last hread _ hwrite =>
    obtain ⟨next, hset, hnext⟩ := hstore.set _ world'
    obtain ⟨-, rfl⟩ := Prod.mk.inj (hset.symm.trans hwrite)
    exact hnext
  | @unwritable saved fault world' last hread _ hwrite =>
    obtain ⟨next, hset, -⟩ := hstore.set _ world'
    cases hset.symm.trans hwrite

/-- When an unlocked session starts, its first language is stored. -/
theorem content_of_start (hstore : around.store.Remembers content)
    (hrem : config.remembers = true) (h : (around.start config none).1 = .ok s) :
    content (around.start config none).2 = some (around.initial config none).1 := by
  rw [(opens_of_start h).2]
  have hpicks := picks_initial around config
  rw [hrem] at hpicks
  exact hpicks.content_eq hstore

theorem content_foldl (hstore : around.store.Remembers content) (written : List (Nat × String))
    (world : around.World) :
    content (written.foldl
        (fun world entry => (around.store.set languageKey entry.2 world).2) world)
      = (written.getLast?.map (·.2)).or (content world) := by
  induction written using List.reverseRecOn with
  | nil => rfl
  | append_singleton earlier entry ih =>
    obtain ⟨next, hset, hnext⟩ := hstore.set entry.2
      (earlier.foldl (fun world entry => (around.store.set languageKey entry.2 world).2) world)
    rw [List.foldl_append, List.foldl_cons, List.foldl_nil, hset, List.getLast?_concat]
    exact hnext

end Surroundings

namespace Session

/-- What holds all along a run in a steady world that started in `initial`, with `first` requests,
and was then asked for `codes`. -/
structure Steadied (config : Configuration L) (outcome : String → Except Failure Json)
    (initial : String) (first : Nat) (codes : List String) (s : Session L) : Prop where
  orderly : s.Orderly
  phased : s.Phased initial
  truthful : s.Truthful config
  determined : s.Determined outcome
  stored : s.Stored first
  locked : s.locked = none
  remembers : s.remembers = config.remembers
  requested : ∀ code, codes.getLast? = some code →
    (Registry.ofConfiguration config).contains code = true → s.snapshot.requested = code
  unasked : s.generation = first → s.snapshot.requested = initial

variable {s t : Session L} {config : Configuration L} {outcome : String → Except Failure Json}
  {initial code : String} {codes : List String} {first g : Nat} {answer : Answer}

theorem Opens.steadied (h : Opens config none initial s) :
    s.Steadied config outcome initial s.generation [] where
  orderly := h.orderly
  phased := h.phased
  truthful := h.truthful
  determined := h.determined
  stored := h.stored
  locked := h.begins.locked
  remembers := h.begins.remembers
  requested _ hlast := by cases hlast
  unasked _ := h.traced.requested

/-- In a steady world a run keeps what is determined and what is stored. -/
theorem Steadied.resume (h : s.Steadied config outcome initial first codes)
    (hr : s.resume g answer = some t)
    (hsteady : Transition.IsSteady outcome ⟨s, .resume g answer, t⟩) :
    t.Determined outcome ∧ t.Stored first := by
  obtain ⟨code, stage, hat, htakes, hgo⟩ :=
    resume_goes h.orderly.numbered (h.orderly.registered g) hr
  have hsuits := h.orderly.suits hat htakes hsteady
  have hstart : s.calm.Orderly ∧ s.calm.Determined outcome ∧ s.calm.Stored first :=
    ⟨h.orderly.congr rfl rfl rfl rfl, ⟨h.determined.sound, h.determined.fallback⟩,
      h.stored.congr rfl rfl rfl rfl⟩
  have hend := Goes.keep
    (P := fun m => m.Orderly ∧ m.Determined outcome ∧ m.Stored first) hgo hstart
    (fun hq ⟨ho, hd, hw⟩ => ⟨hq.orderly ho, hq.determined ho hd, hq.stored ho hw hsuits.stored⟩)
    (fun hl ⟨ho, hd, hw⟩ => ⟨hl.orderly ho, hl.determined ho hd hsuits, hl.stored ho hw⟩)
  exact hend.2

/-- What was asked for last is what is requested, whether or not the request was accepted. -/
theorem requested_of_request (hlocked : s.locked = none)
    (hcode : s.registry.contains code = true) :
    (s.next (.request code)).snapshot.requested = code := by
  show (s.request code).1.snapshot.requested = code
  rcases s.request_cases code with ⟨-, -, -, hreq⟩ | ⟨hrefused, hreq, -⟩
  · rw [hreq]; rfl
  · rw [hreq]
    rcases hrefused with hlock | hmissing | hcurrent
    · rw [hlocked] at hlock; cases hlock
    · rw [hcode] at hmissing; cases hmissing
    · unfold isCurrent at hcurrent
      exact of_decide_eq_true (Bool.and_eq_true_iff.1 hcurrent).1

theorem Steadied.unasked_next (h : s.Steadied config outcome initial first codes) (event : Event)
    (hnone : (s.next event).generation = first) :
    (s.next event).snapshot.requested = initial := by
  have hstep := h.orderly.step event
  have hrequested := hstep.requested h.phased
  generalize s.next event = t at hnone hstep hrequested ⊢
  have hresume : ∀ g answer, event = .resume g answer →
      t.snapshot.requested = s.snapshot.requested := fun g answer e => by
    rw [hrequested, e]; rfl
  cases hstep with
  | refused _ _ => exact h.unasked hnone
  | accepted _ _ _ _ =>
    have hfirst := h.stored.first_le
    have hnone : s.generation + 1 = first := hnone
    omega
  | stuck _ => exact h.unasked hnone
  | unseen hk => exact (hresume _ _ rfl).trans (h.unasked (hk.generation ▸ hnone))
  | shown hk _ _ _ _ _ _ => exact (hresume _ _ rfl).trans (h.unasked (hk.generation ▸ hnone))
  | overtaken hk _ _ _ => exact (hresume _ _ rfl).trans (h.unasked (hk.generation ▸ hnone))
  | settled _ _ => exact (hresume _ _ rfl).trans (h.unasked hnone)
  | faded _ _ => exact (hresume _ _ rfl).trans (h.unasked hnone)

theorem Steadied.next (h : s.Steadied config outcome initial first codes) (event : Event)
    (hsteady : Transition.IsSteady outcome ⟨s, event, s.next event⟩) :
    (s.next event).Steadied config outcome initial first (codes ++ event.request?.toList) := by
  have hstep := h.orderly.step event
  obtain ⟨hlocked, hremembers⟩ := hstep.settings
  have hkept : (s.next event).Determined outcome ∧ (s.next event).Stored first := by
    cases event with
    | request code =>
      show (s.request code).1.Determined outcome ∧ (s.request code).1.Stored first
      rcases s.request_cases code with ⟨-, -, -, hreq⟩ | ⟨-, hreq, -⟩
      · rw [hreq]
        exact ⟨⟨h.determined.sound, h.determined.fallback⟩, h.stored.accept h.orderly.numbered⟩
      · rw [hreq]; exact ⟨h.determined, h.stored⟩
    | resume g answer =>
      have hnext : s.next (.resume g answer) = (s.resume g answer).getD s := rfl
      cases hr : s.resume g answer with
      | none => rw [hnext, hr]; exact ⟨h.determined, h.stored⟩
      | some t => rw [hnext, hr] at hsteady ⊢; exact h.resume hr hsteady
  refine ⟨h.orderly.next event, hstep.phased h.orderly h.phased,
    hstep.truthful h.orderly h.truthful, hkept.1, hkept.2, hlocked.trans h.locked,
    hremembers.trans h.remembers, fun code hlast hcode => ?_, h.unasked_next event⟩
  cases event with
  | request asked =>
    have hlast : (codes ++ [asked]).getLast? = some code := hlast
    rw [List.getLast?_concat] at hlast
    obtain rfl := Option.some.inj hlast
    exact requested_of_request h.locked ((h.truthful.registry.contains asked).trans hcode)
  | resume g answer =>
    have hlast : (codes ++ []).getLast? = some code := hlast
    rw [List.append_nil] at hlast
    rw [hstep.requested h.phased]
    exact h.requested code hlast hcode

theorem Opens.steadied_after (h : Opens config none initial s) (schedule : List Event)
    (hsteady : ∀ transition ∈ s.history schedule, transition.IsSteady outcome) :
    (s.after schedule).Steadied config outcome initial s.generation (requests schedule) := by
  induction schedule using List.reverseRecOn with
  | nil => exact h.steadied
  | append_singleton earlier event ih =>
    rw [history_snoc, after_snoc] at hsteady
    have hlast : requests [event] = event.request?.toList := by cases event <;> rfl
    rw [after_snoc, requests_append, hlast]
    refine (ih fun transition hmem => ?_).next event ?_
    · exact hsteady transition (List.mem_append_left _ hmem)
    · exact hsteady _ (List.mem_append_right _ (List.mem_singleton_self _))

/-! ## Ends -/

/-- A run of a session of `config` in a steady world, in which just `codes` are asked for in this
order, leads to `s`. -/
def Reaches (around : Surroundings) (config : Configuration L)
    (outcome : String → Except Failure Json) (codes : List String) (s : Session L) : Prop :=
  ∃ start schedule, (around.start config none).1 = .ok start ∧ requests schedule = codes ∧
    (∀ transition ∈ start.history schedule, transition.IsSteady outcome) ∧
    s = start.after schedule

variable {around : Surroundings}

/-- At the end of a run the session has settled in what was asked for last. -/
theorem Steadied.settled (h : s.Steadied config outcome initial first codes)
    (hlast : codes.getLast? = some code)
    (hcode : (Registry.ofConfiguration config).contains code = true) (hquiet : s.Quiescent) :
    s.snapshot.isSettled = true ∧ s.snapshot.language = code := by
  have hrequested := h.requested code hlast hcode
  have hsettled := h.phased.isSettled_of_quiescent h.orderly.numbered hquiet
  exact ⟨hsettled, (Snapshot.requested_of_isSettled hsettled).symm.trans hrequested⟩

/-- What was asked for last was written last, or it was stored from the start. -/
theorem Steadied.stored_last {kept : Option String}
    (h : s.Steadied config outcome initial first codes) (hlast : codes.getLast? = some code)
    (hcode : (Registry.ofConfiguration config).contains code = true) (hquiet : s.Quiescent)
    (hrem : config.remembers = true) (hkept : kept = some initial) :
    (s.written.getLast?.map (·.2)).or kept = some code := by
  have hrem : s.remembers = true := h.remembers.trans hrem
  rcases Nat.lt_or_eq_of_le h.stored.first_le with hlt | heq
  · obtain ⟨sw, hs⟩ := h.orderly.numbered.exists_current (by omega)
    have hended := hquiet sw (List.mem_of_find?_eq_some hs)
    obtain ⟨-, hlanguage, -⟩ := h.phased.of_current_ended hs hended
    rw [h.stored.getLast?_written hquiet hrem hlt hs]
    exact congrArg some (hlanguage.symm.trans (h.settled hlast hcode hquiet).2)
  · rw [h.stored.written_eq_nil heq.symm, hkept]
    exact congrArg some ((h.unasked heq.symm).symm.trans (h.requested code hlast hcode))

/-- What a steady world answers to a switch. -/
def steadyReply (outcome : String → Except Failure Json) (s : Session L) (g : Nat) : Answer :=
  match s.switch? g, s.errand? g with
  | some sw, some errand => errand.reply (outcome sw.code)
  | _, _ => .proceed

theorem steadyReply_takes {stage : Stage} (ho : s.Orderly) (hat : s.At g code stage)
    (hrun : stage.CanRun) : stage.Takes (steadyReply outcome s g) := by
  obtain ⟨answer, htakes⟩ := hrun
  have hreply : ∀ errand, s.errand? g = some errand →
      steadyReply outcome s g = errand.reply (outcome code) := fun errand herrand => by
    unfold steadyReply; rw [hat, herrand]
  have hproceed : s.errand? g = none → steadyReply outcome s g = .proceed := fun hnone => by
    unfold steadyReply; rw [hat, hnone]
  cases htakes with
  | writing _ =>
    rw [hreply (.write code) (by unfold errand?; rw [hat])]
    exact .writing true
  | loading _ =>
    obtain ⟨loader, herrand⟩ := ho.exists_errand hat
    rw [hreply _ herrand]
    exact .loading _
  | fading =>
    rw [hreply .fade (by unfold errand?; rw [hat])]
    exact .fading
  | _ =>
    rw [hproceed (by unfold errand?; rw [hat])]
    constructor

/-- Whatever is asked for, some run in a steady world comes to an end. -/
theorem exists_reaches (outcome : String → Except Failure Json) (codes : List String)
    (h : (around.start config none).1 = .ok s) :
    ∃ t, Reaches around config outcome codes t ∧ t.Quiescent := by
  have ho : (s.after (codes.map .request)).Orderly :=
    (Surroundings.opens_of_start h).1.orderly.after _
  obtain ⟨rest, hquiet, hsteps⟩ := ho.exists_quiescent (steadyReply outcome)
    (fun _ _ _ _ ho hat hrun => steadyReply_takes ho hat hrun)
  rw [← after_append] at hquiet
  refine ⟨_, ⟨s, codes.map .request ++ rest, h, ?_, ?_, rfl⟩, hquiet⟩
  · have hrest : requests rest = [] := requests_eq_nil fun transition hmem => by
      obtain ⟨g, hevent⟩ := hsteps transition hmem
      exact ⟨g, _, hevent⟩
    rw [requests_append, requests_map_request, hrest, List.append_nil]
  · intro transition hmem g answer sw errand hevent hs herrand
    rw [history_append] at hmem
    rcases List.mem_append.1 hmem with hmem | hmem
    · have hrequest : transition.event ∈ codes.map Event.request := by
        rw [← map_event_history s (codes.map .request)]
        exact List.mem_map_of_mem hmem
      obtain ⟨code, -, he⟩ := List.mem_map.1 hrequest
      cases he.trans hevent
    · obtain ⟨g', hreply⟩ := hsteps transition hmem
      cases hreply.symm.trans hevent
      unfold steadyReply
      rw [hs, herrand]

/-- **The end does not depend on timing**: all runs in which `code` is asked for last come to the
end of a run in which only `code` is asked for, and `code` is what is stored. -/
theorem converges_of_reaches {codes : List String}
    (hcode : (Registry.ofConfiguration config).contains code = true)
    (h : Reaches around config outcome (codes ++ [code]) s) (hquiet : s.Quiescent) :
    (∃ alone, Reaches around config outcome [code] alone ∧ alone.Quiescent) ∧
      (∀ (elsewhere : Surroundings) (alone : Session L),
        Reaches elsewhere config outcome [code] alone → alone.Quiescent →
        s.snapshot = alone.snapshot) ∧
      (config.remembers = true → ∀ content, around.store.Remembers content →
        content (around.worldAfter config s) = some code) := by
  obtain ⟨start, schedule, hstart, hrequests, hsteady, rfl⟩ := h
  have hrun := (Surroundings.opens_of_start hstart).1.steadied_after schedule hsteady
  rw [hrequests] at hrun
  have hlast : (codes ++ [code]).getLast? = some code := List.getLast?_concat
  obtain ⟨hsettled, hlanguage⟩ := hrun.settled hlast hcode hquiet
  refine ⟨exists_reaches outcome [code] hstart, fun elsewhere alone halone hend => ?_,
    fun hrem content hstore => ?_⟩
  · obtain ⟨start', schedule', hstart', hrequests', hsteady', rfl⟩ := halone
    have hother := (Surroundings.opens_of_start hstart').1.steadied_after schedule' hsteady'
    rw [hrequests'] at hother
    obtain ⟨hsettled', hlanguage'⟩ := hother.settled rfl hcode hend
    exact snapshot_unique hrun.truthful hother.truthful hrun.determined hother.determined
      (hlanguage.trans hlanguage'.symm) hsettled hsettled'
  · unfold Surroundings.worldAfter
    rw [Surroundings.content_foldl hstore]
    exact hrun.stored_last hlast hcode hquiet hrem
      (Surroundings.content_of_start hstore hrem hstart)

theorem converges_of_reaches_bilingual :
    ∃ s, Reaches (.remembering none) Configuration.bilingual (fun _ => .ok (.obj []))
        (["fr"] ++ ["en"]) s ∧ s.Quiescent ∧
      (∀ (elsewhere : Surroundings) (alone : Session Unit),
        Reaches elsewhere Configuration.bilingual (fun _ => .ok (.obj [])) ["en"] alone →
        alone.Quiescent → s.snapshot = alone.snapshot) ∧
      (Surroundings.remembering none).worldAfter Configuration.bilingual s = some "en" := by
  have hstart : ((Surroundings.remembering none).start Configuration.bilingual none).1
      = .ok _ := rfl
  obtain ⟨s, hs, hquiet⟩ := exists_reaches (fun _ => .ok (.obj [])) (["fr"] ++ ["en"]) hstart
  obtain ⟨-, hsame, hstored⟩ := converges_of_reaches (by decide) hs hquiet
  exact ⟨s, hs, hquiet, hsame, hstored rfl id PreferenceStore.memory_remembers⟩

end Session

end Phrasebook
